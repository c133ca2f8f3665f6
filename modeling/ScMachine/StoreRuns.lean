import ScMachine.Runs
import ScMachine.SegmentReload
import ScMachine.ElementFree

/-! Runs of the store: calls of its operations by any threads, one after the other. -/
namespace ScMachine.Store
open ScMachine.StateExcept ScMachine.Runs

/-- The operations of the store, with their arguments. -/
inductive StorageCall where
  | isElement (a : ScAddr)
  | elementFree (ctx : ScContext) (order : HashOrder) (a : ScAddr)
  | nodeNew (ctx : ScContext) (type : ScType)
  | linkNew (ctx : ScContext) (isConst : Bool)
  | arcNew (ctx : ScContext) (type : ScType) (beg end_ : ScAddr)
  | getElementType (ctx : ScContext) (a : ScAddr)
  | changeElementSubtype (ctx : ScContext) (a : ScAddr) (type : ScType)
  | getArcBegin (ctx : ScContext) (a : ScAddr)
  | getArcEnd (ctx : ScContext) (a : ScAddr)
  | getArcInfo (ctx : ScContext) (a : ScAddr)
  | setLinkContent (ctx : ScContext) (a : ScAddr) (stream : ScStream)
  | getLinkContent (ctx : ScContext) (a : ScAddr)
  | findLinksWithContent (ctx : ScContext) (stream : ScStream)
  | setAccessLevels (ctx : ScContext) (a : ScAddr) (levels : ScAccessLevels)
  | getAccessLevels (ctx : ScContext) (a : ScAddr)

def ignoreResult {α : Type} (x : StoreM α) : StoreM Unit := do
  let _ ← x

def StorageCall.run (env : ScEnv) : StorageCall → StoreM Unit
  | .isElement a => ignoreResult (scStorageIsElement env a)
  | .elementFree ctx order a => ignoreResult (scStorageElementFree env ctx order a)
  | .nodeNew ctx type => ignoreResult (scStorageNodeNew env ctx type)
  | .linkNew ctx isConst => ignoreResult (scStorageLinkNew env ctx isConst)
  | .arcNew ctx type beg end_ => ignoreResult (scStorageArcNew env ctx type beg end_)
  | .getElementType ctx a => ignoreResult (scStorageGetElementType env ctx a)
  | .changeElementSubtype ctx a type => ignoreResult (scStorageChangeElementSubtype env ctx a type)
  | .getArcBegin ctx a => ignoreResult (scStorageGetArcBegin env ctx a)
  | .getArcEnd ctx a => ignoreResult (scStorageGetArcEnd env ctx a)
  | .getArcInfo ctx a => ignoreResult (scStorageGetArcInfo env ctx a)
  | .setLinkContent ctx a stream => ignoreResult (scStorageSetLinkContent env ctx a stream)
  | .getLinkContent ctx a => ignoreResult (scStorageGetLinkContent env ctx a)
  | .findLinksWithContent ctx stream => ignoreResult (scStorageFindLinksWithContent env ctx stream)
  | .setAccessLevels ctx a levels => ignoreResult (scStorageSetAccessLevels env ctx a levels)
  | .getAccessLevels ctx a => ignoreResult (scStorageGetAccessLevels env ctx a)

/-- After `sc_storage_initialize` without `clear`: `n` segments read from the file, nothing in the
cache, any database. -/
def ScStorage.loaded (n : ℕ) (cells : ℕ → ℕ → ScElement) (fm : FileMemory) : ScStorage :=
  { ScStorage.empty with
    segments := fun i => if i < n then some (loadedSegment i (cells i)) else none
    segmentsNum := n
    fileMemory := fm }

/-- The store right after its initialisation. -/
def Initialized (st : ScStorage) : Prop :=
  st = ScStorage.empty ∨ ∃ n ≤ 65535, ∃ cells fm, st = ScStorage.loaded n cells fm

/-- What a thread may do with the store: an operation, or a reference or a lock taken or given
back in between, as iterators and events do. -/
inductive StoreAction where
  | call (c : StorageCall)
  | ref (a : ScAddr)
  | unref (a : ScAddr)
  | lock (a : ScAddr)
  | unlock (a : ScAddr)

def StoreAction.run (env : ScEnv) : StoreAction → StoreM Unit
  | .call c => c.run env
  | .ref a => scStorageElementRef env a
  | .unref a => ignoreResult (scStorageElementUnref env a)
  | .lock a => ignoreResult (scStorageElementLock env a)
  | .unlock a => scStorageElementUnlock env a

structure StoreEvent where
  env : ScEnv
  action : StoreAction

/-- One action runs to its end. Other threads act between two steps. -/
def StoreStep (st : ScStorage) (e : StoreEvent) (st' : ScStorage) : Prop :=
  e.action.run e.env st = .ok ((), st')

theorem wp_readCell (a : ScAddr) (Q : ScElement → ScStorage → Prop) (E : ScStop → Prop)
    (st : ScStorage) : Wp (readCell a) Q E st ↔ Q (st.cell a) st := Iff.rfl

theorem wp_modifyCell (a : ScAddr) (f : ScElement → ScElement) (Q : Unit → ScStorage → Prop)
    (E : ScStop → Prop) (st : ScStorage) :
    Wp (modifyCell a f) Q E st ↔ Q () (st.setCell a (f (st.cell a))) := Iff.rfl

theorem wp_scAssert (c : Bool) (Q : Unit → ScStorage → Prop) (E : ScStop → Prop) (st : ScStorage) :
    Wp (scAssert c) Q E st ↔ (c = true → Q () st) ∧ (c = false → E .abort) := by
  cases c with
  | true => exact ⟨fun h => ⟨fun _ => h, fun h => by simp at h⟩, fun h => h.1 rfl⟩
  | false => exact ⟨fun h => ⟨fun h => by simp at h, fun _ => h⟩, fun h => h.2 rfl⟩

theorem keeps_readCell (P : ScStorage → Prop) (a : ScAddr) : Keeps P (readCell a) :=
  fun _ h => h

theorem keeps_scAssert (P : ScStorage → Prop) (c : Bool) : Keeps P (scAssert c) := by
  intro st h
  rw [IfReturns, wp_scAssert]
  exact ⟨fun _ => h, fun _ => trivial⟩

theorem keeps_unlessEmpty {P : ScStorage → Prop} {x : StoreM Unit} (hx : Keeps P x) (a : ScAddr) :
    Keeps P (unlessEmpty a x) :=
  (keeps_pure P ()).ite hx

theorem keeps_ignoreResult {α : Type} {P : ScStorage → Prop} {x : StoreM α} (h : Keeps P x) :
    Keeps P (ignoreResult x) :=
  h.bind fun _ => keeps_pure _ _

def exampleEnv : ScEnv := ⟨1, by decide, 65535, fun _ _ => 48, fun _ => 0⟩

def exampleContext : ScContext := ⟨1, 0xff⟩

def stateAfter (x : StoreM Unit) (st : ScStorage) : ScStorage :=
  match x st with
  | .ok (_, st') => st'
  | .error _ => st

def returns (x : StoreM Unit) (st : ScStorage) : Bool :=
  match x st with
  | .ok _ => true
  | .error _ => false

theorem stateAfter_eq {x : StoreM Unit} {st : ScStorage} (h : returns x st = true) :
    x st = .ok ((), stateAfter x st) := by
  unfold returns at h
  unfold stateAfter
  cases hx : x st with
  | error e =>
    rw [hx] at h
    exact absurd h Bool.false_ne_true
  | ok p => rfl

/-- The state after some events, those that stop left out. -/
def stateAfterEvents (evs : List StoreEvent) (st : ScStorage) : ScStorage :=
  evs.foldl (fun s e => stateAfter (e.action.run e.env) s) st

/-- A store with one node, at segment 0 and offset 1. -/
def storeWithNode : ScStorage :=
  stateAfter ((StorageCall.nodeNew exampleContext 0).run exampleEnv) ScStorage.empty

def nodeNewEvent : StoreEvent := ⟨exampleEnv, .call (.nodeNew exampleContext 0)⟩

theorem storeWithNode_run : Run StoreStep ScStorage.empty [nodeNewEvent] storeWithNode :=
  ⟨storeWithNode, rfl, rfl⟩

end ScMachine.Store
