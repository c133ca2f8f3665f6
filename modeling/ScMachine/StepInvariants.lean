import ScMachine.StoreRuns
import ScMachine.StorageAppend

/-! What the basic steps of the operations keep, the operations keep. The steps that write a cell
or the file memory are restricted to the functions that the operations use. -/
namespace ScMachine.Store
open ScMachine.StateExcept ScMachine.Runs

/-- The functions on cells that the operations use, apart from the change of a subtype. -/
structure CellSteps (C : (ScElement → ScElement) → Prop) : Prop where
  node : ∀ type levels, C fun el =>
    { el with type := scFlagsRemove (scTypeNode ||| type), accessLevels := levels }
  link : ∀ (isConst : Bool) levels, C fun el =>
    { el with
      type := scTypeLink ||| (if isConst then scTypeConst else scTypeVar)
      accessLevels := levels }
  arc : ∀ type beg end_ levels, C fun el =>
    { (el.setArc .arcBegin beg).setArc .arcEnd end_ with
      type := scFlagsRemove (if type &&& scTypeArcMask != 0 then type else scTypeArcCommon ||| type)
      accessLevels := levels }
  sameType : ∀ f, (∀ el, (f el).type = el.type) → C f
  checksum : ∀ sum, C fun el =>
    { el with type := el.type &&& ~~~scFlagLinkSelfContainer, data := sum }
  inline : ∀ bytes, C fun el =>
    { el with
      type := el.type ||| scFlagLinkSelfContainer
      data := inlineContent el.data bytes }
  deletion : C fun el => { el with type := el.type ||| scFlagRequestDeletion }

/-- The functions on the file memory that the operations use. -/
structure FmSteps (env : ScEnv) (F : (FileMemory → FileMemory) → Prop) : Prop where
  append : ∀ a sum, F (scFmAddrRefAppend a sum)
  remove : ∀ a sum, F (scFmAddrRefRemove a sum)
  write : ∀ a bytes, F fun fm =>
    scFmAddrRefAppend a (env.checksum bytes) (scFmWriteStream (env.checksum bytes) bytes fm)

/-- `P` is kept by every basic step besides the allocation of a cell. -/
structure KeptByWrites (env : ScEnv) (C : (ScElement → ScElement) → Prop)
    (F : (FileMemory → FileMemory) → Prop) (P : ScStorage → Prop) : Prop where
  cellSteps : CellSteps C
  fmSteps : FmSteps env F
  lock : ∀ a, Keeps P (scStorageElementLock env a)
  lockTry : ∀ a, Keeps P (scStorageElementLockTry env a)
  unlock : ∀ a, Keeps P (scStorageElementUnlock env a)
  modifyCell : ∀ a f, C f → Keeps P (modifyCell a f)
  modifyFm : ∀ f, F f → Keeps P (modifyFm f)
  emit : ∀ c, Keeps P (emit c)
  setRefCount : ∀ a n st, P st → P (st.setRefCount a n)
  erase : ∀ a, Keeps P (eraseUnreferenced env a)
  changeSubtype : ∀ ctx a type, Keeps P (scStorageChangeElementSubtype env ctx a type)

/-- `P` is kept by every basic step. -/
structure KeptBySteps (env : ScEnv) (C : (ScElement → ScElement) → Prop)
    (F : (FileMemory → FileMemory) → Prop) (P : ScStorage → Prop) : Prop extends KeptByWrites env C F P where
  append : ∀ ctx, Keeps P (scStorageAppendElIntoSegments env ctx)

/-- The calls that make an element. -/
def StorageCall.isCreation : StorageCall → Bool
  | .nodeNew _ _ | .linkNew _ _ | .arcNew _ _ _ _ => true
  | _ => false

/-- The actions that make an element. -/
def StoreAction.isCreation : StoreAction → Bool
  | .call c => c.isCreation
  | _ => false

section
variable {env : ScEnv} {C : (ScElement → ScElement) → Prop} {F : (FileMemory → FileMemory) → Prop}
  {P : ScStorage → Prop}

theorem KeptByWrites.setArc (h : KeptByWrites env C F P) (a : ScAddr) (field : ArcField)
    (target : ScAddr) : Keeps P (Store.modifyCell a fun el => el.setArc field target) :=
  h.modifyCell a _ (h.cellSteps.sameType _ (by intro _; rfl))

theorem KeptByWrites.readElement (h : KeptByWrites env C F P) {α : Type} (a : ScAddr)
    (body : ScElement → ScResult × Option α) : Keeps P (readElement env a body) := by
  refine (h.lock a).bind fun _ => Keeps.ite (keeps_pure _ _) ?_
  exact (keeps_readCell _ a).bind fun _ => (h.unlock a).bind fun _ => keeps_pure _ _

theorem KeptBySteps.newElement (h : KeptBySteps env C F P) (ctx : ScContext)
    (init : ScElement → ScElement) (hinit : C init) : Keeps P (newElement env ctx init) := by
  refine (h.append ctx).bind fun r => ?_
  cases r with
  | none => exact keeps_pure _ _
  | some a =>
    refine (h.modifyCell a init hinit).bind fun _ => ?_
    exact (h.unlock a).bind fun _ => keeps_pure _ _

theorem KeptByWrites.lockFirstArc (h : KeptByWrites env C F P) (a : ScAddr) :
    Keeps P (lockFirstArc env a) := by
  refine Keeps.ite (keeps_pure _ _) ?_
  exact (h.lockTry a).bind fun _ => Keeps.ite (keeps_pure _ _) (keeps_pure _ _)

theorem KeptByWrites.linkArc (h : KeptByWrites env C F P) (type : ScType) (beg end_ : ScAddr)
    (levels : ScAccessLevels) (begEl endEl : ScElement) (a : ScAddr) :
    Keeps P (linkArc type beg end_ levels begEl endEl a) := by
  have hsame := h.cellSteps.sameType
  refine (h.modifyCell a _ (h.cellSteps.arc type beg end_ levels)).bind fun _ => ?_
  refine (keeps_scAssert _ _).bind fun _ => (h.emit _).bind fun _ => (h.emit _).bind fun _ => ?_
  refine (keeps_readCell _ _).bind fun _ => (keeps_readCell _ _).bind fun _ => ?_
  refine (keeps_scAssert _ _).bind fun _ => ?_
  refine (h.modifyCell a _ (hsame _ (by intro _; rfl))).bind fun _ => ?_
  refine (keeps_scAssert _ _).bind fun _ => ?_
  refine (keeps_unlessEmpty (h.setArc _ _ _) _).bind fun _ => ?_
  refine (keeps_unlessEmpty (h.setArc _ _ _) _).bind fun _ => ?_
  refine (h.modifyCell beg _ (hsame _ (by intro _; rfl))).bind fun _ => ?_
  exact h.modifyCell end_ _ (hsame _ (by intro _; rfl))

theorem KeptBySteps.arcNew (h : KeptBySteps env C F P) (ctx : ScContext) (type : ScType)
    (beg end_ : ScAddr) : Keeps P (scStorageArcNew env ctx type beg end_) := by
  have hfirst (a : ScAddr) : Keeps P (unlockFirstArc env a) := keeps_unlessEmpty (h.unlock a) a
  have hexit (r : Option ScAddr) : Keeps P (do
      scStorageElementUnlock env beg
      scStorageElementUnlock env end_
      return r : StoreM (Option ScAddr)) :=
    (h.unlock beg).bind fun _ => (h.unlock end_).bind fun _ => keeps_pure _ _
  have hattempt : Keeps P (arcNewAttempt env ctx type beg end_ ctx.accessLevels) := by
    refine (h.lockTry beg).bind fun _ => Keeps.ite (keeps_pure _ _) ?_
    refine (keeps_readCell _ beg).bind fun begEl => Keeps.ite ?_ ?_
    · exact (h.unlock beg).bind fun _ => keeps_pure _ _
    refine (h.lockTry end_).bind fun _ => Keeps.ite ?_ ?_
    · exact (h.unlock beg).bind fun _ => keeps_pure _ _
    refine (keeps_readCell _ end_).bind fun endEl => Keeps.ite (hexit _) ?_
    refine (h.lockFirstArc _).bind fun r1 => ?_
    cases r1 with
    | none => exact hexit none
    | some _ =>
      refine (h.lockFirstArc _).bind fun r2 => ?_
      cases r2 with
      | none => exact (hfirst _).bind fun _ => hexit none
      | some _ =>
        refine (h.append ctx).bind fun r3 => ?_
        cases r3 with
        | none => exact keeps_throw _ _
        | some a =>
          refine (h.linkArc _ _ _ _ _ _ a).bind fun _ => (hfirst _).bind fun _ => ?_
          refine (h.unlock beg).bind fun _ => (hfirst _).bind fun _ => ?_
          exact (h.unlock end_).bind fun _ => (h.unlock a).bind fun _ => keeps_pure _ _
  refine (keeps_scAssert _ _).bind fun _ => Keeps.ite (keeps_pure _ _) ?_
  refine hattempt.bind fun r => ?_
  cases r with
  | none => exact keeps_throw _ _
  | some a => exact keeps_pure _ _

theorem KeptByWrites.removeContentAddr (h : KeptByWrites env C F P) (a : ScAddr) (el : ScElement) :
    Keeps P (removeContentAddr env a el) :=
  (keeps_pure _ _).ite (h.modifyFm _ (h.fmSteps.remove a _))

theorem KeptByWrites.setLinkContent (h : KeptByWrites env C F P) (ctx : ScContext) (a : ScAddr)
    (stream : ScStream) : Keeps P (scStorageSetLinkContent env ctx a stream) := by
  have hset : Keeps P (setLockedLinkContent env ctx a stream) := by
    refine (keeps_readCell _ a).bind fun el => ?_
    refine Keeps.ite (keeps_pure _ _) (Keeps.ite (keeps_pure _ _) (Keeps.ite (keeps_pure _ _) ?_))
    refine (h.removeContentAddr a el).bind fun _ => ?_
    cases hsum : scLinkCalculateChecksum env stream with
    | none => exact keeps_throw _ _
    | some sum =>
      obtain rfl : env.checksum stream.bytes = sum := by
        unfold scLinkCalculateChecksum at hsum
        split_ifs at hsum
        exact Option.some.inj hsum
      have hstore : Keeps P (storeContent a (env.checksum stream.bytes) stream.bytes) := by
        refine Keeps.ite ?_ ?_
        · exact (h.modifyFm _ (h.fmSteps.write a _)).bind fun _ =>
            h.modifyCell a _ (h.cellSteps.checksum _)
        · exact (h.modifyCell a _ (h.cellSteps.inline _)).bind fun _ =>
            h.modifyFm _ (h.fmSteps.append a _)
      exact hstore.bind fun _ => (h.emit _).bind fun _ => keeps_pure _ _
  refine (h.lock a).bind fun _ => Keeps.ite (keeps_pure _ _) ?_
  exact hset.bind fun _ => (h.unlock a).bind fun _ => keeps_pure _ _

theorem keeps_getLockedLinkContent (P : ScStorage → Prop) (ctx : ScContext) (a : ScAddr) :
    Keeps P (getLockedLinkContent env ctx a) := by
  refine (keeps_readCell _ a).bind fun el => ?_
  refine Keeps.ite (keeps_pure _ _) (Keeps.ite (keeps_pure _ _) (Keeps.ite (keeps_pure _ _) ?_))
  refine Keeps.ite (Keeps.ite (keeps_pure _ _) ?_) ?_
  · exact (keeps_scAssert _ _).bind fun _ => keeps_pure _ _
  · exact (keeps_get _).bind fun _ => keeps_pure _ _

theorem KeptByWrites.findLinks (h : KeptByWrites env C F P) (ctx : ScContext) (stream : ScStream) :
    Keeps P (scStorageFindLinksWithContent env ctx stream) := by
  have hread (links : List ScAddr) : Keeps P (readableLinks env ctx links) := by
    induction links with
    | nil => exact keeps_pure _ _
    | cons a links ih =>
      refine (h.lock a).bind fun _ => Keeps.ite (keeps_pure _ _) ?_
      refine (keeps_readCell _ a).bind fun _ => (h.unlock a).bind fun _ => ?_
      exact ih.bind fun _ => keeps_pure _ _
  unfold scStorageFindLinksWithContent
  cases scLinkCalculateChecksum env stream with
  | none => exact keeps_pure _ _
  | some sum =>
    refine (keeps_get _).bind fun st => ?_
    cases st.fileMemory.addrs sum with
    | none => exact keeps_pure _ _
    | some addrs =>
      refine Keeps.ite (keeps_pure _ _) ((hread addrs).bind fun r => ?_)
      exact Keeps.ite (keeps_pure _ _) (Keeps.ite (keeps_pure _ _) (keeps_pure _ _))

theorem KeptByWrites.setAccessLevels (h : KeptByWrites env C F P) (ctx : ScContext) (a : ScAddr)
    (levels : ScAccessLevels) : Keeps P (scStorageSetAccessLevels env ctx a levels) := by
  refine (h.lock a).bind fun _ => Keeps.ite (keeps_pure _ _) ?_
  refine (keeps_readCell _ a).bind fun _ => Keeps.ite ?_ ?_
  · refine (h.modifyCell a _ (h.cellSteps.sameType _ (by intro _; rfl))).bind fun _ => ?_
    exact (h.unlock a).bind fun _ => keeps_pure _ _
  · exact (h.unlock a).bind fun _ => keeps_pure _ _

theorem KeptByWrites.getAccessLevels (h : KeptByWrites env C F P) (ctx : ScContext) (a : ScAddr) :
    Keeps P (scStorageGetAccessLevels env ctx a) := by
  refine (h.lock a).bind fun _ => Keeps.ite (keeps_pure _ _) ?_
  refine (keeps_readCell _ a).bind fun _ => (h.unlock a).bind fun _ => ?_
  exact Keeps.ite (keeps_pure _ _) (keeps_pure _ _)

theorem KeptByWrites.refCommon (h : KeptByWrites env C F P) (a : ScAddr) (dir : ℤ) :
    Keeps P (scStorageRefCommon env a dir) := by
  refine (keeps_scAssert _ _).bind fun _ => (h.lock a).bind fun _ => ?_
  refine Keeps.ite (keeps_throw _ _) ?_
  refine (keeps_get _).bind fun _ => (keeps_scAssert _ _).bind fun _ => ?_
  refine (keeps_get _).bind fun _ => (keeps_scAssert _ _).bind fun _ => ?_
  refine (keeps_scAssert _ _).bind fun _ => ?_
  refine (keeps_modify _ _ (h.setRefCount a _)).bind fun _ => ?_
  exact (h.unlock a).bind fun _ => keeps_pure _ _

theorem KeptByWrites.elementUnref (h : KeptByWrites env C F P) (a : ScAddr) :
    Keeps P (scStorageElementUnref env a) := by
  refine (h.refCommon a (-1)).bind fun _ => Keeps.ite ?_ (keeps_pure _ _)
  exact (h.erase a).bind fun _ => keeps_pure _ _

theorem KeptByWrites.collectArc (h : KeptByWrites env C F P) (a : ScAddr) (t : FreeTables) :
    Keeps P (collectArc env a t) := by
  refine Keeps.ite (keeps_pure _ _) (Keeps.ite (keeps_pure _ _) ?_)
  exact (h.lock a).bind fun _ => Keeps.ite (keeps_pure _ _) (keeps_throw _ _)

theorem KeptByWrites.collectArcs (h : KeptByWrites env C F P) (next : ArcField) (fuel : ℕ)
    (a : ScAddr) (t : FreeTables) : Keeps P (collectArcs env next fuel a t) := by
  induction fuel generalizing a t with
  | zero => exact keeps_throw _ _
  | succ fuel ih =>
    refine Keeps.ite (keeps_pure _ _) ((h.collectArc a t).bind fun t1 => ?_)
    exact (keeps_readCell _ a).bind fun _ => ih _ t1

theorem KeptByWrites.lockAround (h : KeptByWrites env C F P) (el : ScElement) (lt : List ScAddr) :
    Keeps P (lockAround env el lt) := by
  have hend (a : ScAddr) (lt : List ScAddr) : Keeps P (lockEndpoint env a lt) :=
    Keeps.ite (keeps_pure _ _)
      ((h.lock a).bind fun _ => Keeps.ite (keeps_pure _ _) (keeps_pure _ _))
  have hnear (a : ScAddr) (lt : List ScAddr) : Keeps P (lockNeighbour env a lt) :=
    Keeps.ite (keeps_pure _ _)
      ((h.lock a).bind fun _ => Keeps.ite (keeps_pure _ _) (keeps_throw _ _))
  refine Keeps.ite (keeps_pure _ _) ?_
  refine (hend _ _).bind fun _ => (hend _ _).bind fun _ => (hnear _ _).bind fun _ => ?_
  exact (hnear _ _).bind fun _ => (hnear _ _).bind fun _ => hnear _ _

theorem KeptByWrites.collectLoop (h : KeptByWrites env C F P) (ctx : ScContext) (fuel : ℕ)
    (el : ScAddr) (t : FreeTables) : Keeps P (collectLoop env ctx fuel el t) := by
  have htake (a : ScAddr) (rest : List ScAddr) (t : FreeTables) :
      Keeps P (takeFromList env a rest t) := by
    refine Keeps.ite (keeps_pure _ _) ((h.lock a).bind fun _ => ?_)
    refine Keeps.ite (keeps_throw _ _) ((keeps_readCell _ a).bind fun _ => ?_)
    exact (keeps_scAssert _ _).bind fun _ => keeps_pure _ _
  have helement (a : ScAddr) (t : FreeTables) : Keeps P (collectElement env a t) := by
    refine (keeps_readCell _ a).bind fun el => (h.lockAround el _).bind fun _ => ?_
    exact (h.collectArcs _ _ _ _).bind fun _ => h.collectArcs _ _ _ _
  induction fuel generalizing el t with
  | zero => exact keeps_throw _ _
  | succ fuel ih =>
    unfold Store.collectLoop
    cases t.removeList with
    | nil => exact keeps_pure _ _
    | cons a rest =>
      refine (keeps_readCell _ el).bind fun _ => Keeps.ite (keeps_pure _ _) ?_
      exact (htake a rest t).bind fun t1 => (helement a t1).bind fun t2 => ih a t2

theorem KeptByWrites.unlinkArc (h : KeptByWrites env C F P) (lt : List ScAddr) (dir : Dir)
    (a : ScAddr) : Keeps P (unlinkArc env lt dir a) := by
  have hrelink (b : ScAddr) (field : ArcField) (target : ScAddr) :
      Keeps P (relink lt b field target) :=
    keeps_unlessEmpty ((keeps_scAssert _ _).bind fun _ => h.setArc b field target) b
  have hlock (b : ScAddr) : Keeps P (lockOwner env lt b) :=
    Keeps.ite (keeps_pure _ _)
      ((h.lock b).bind fun _ => Keeps.ite (keeps_throw _ _) (keeps_pure _ _))
  have hunlock (b : ScAddr) : Keeps P (unlockOwner env lt b) := (keeps_pure _ _).ite (h.unlock b)
  refine (keeps_readCell _ a).bind fun el => (hrelink _ _ _).bind fun _ => ?_
  refine (hrelink _ _ _).bind fun _ => (hlock _).bind fun _ => ?_
  refine (h.modifyCell _ _ (h.cellSteps.sameType _ ?_)).bind fun _ => ?_
  · intro b
    split_ifs
    · cases dir <;> rfl
    · rfl
  · exact (keeps_readCell _ _).bind fun _ => (h.emit _).bind fun _ => hunlock _

theorem KeptByWrites.eraseElements (h : KeptByWrites env C F P) (lt l : List ScAddr) :
    Keeps P (eraseElements env lt l) := by
  have hdetach (a : ScAddr) (el : ScElement) : Keeps P (detachElement env lt a el) :=
    Keeps.ite (h.removeContentAddr a el) (Keeps.ite
      ((h.unlinkArc lt .out a).bind fun _ => h.unlinkArc lt .inp a) (keeps_pure _ _))
  have herase (a : ScAddr) : Keeps P (eraseElement env lt a) := by
    refine (keeps_readCell _ a).bind fun el => Keeps.ite (keeps_pure _ _) ?_
    refine (hdetach a el).bind fun _ => (h.modifyCell a _ h.cellSteps.deletion).bind fun _ => ?_
    exact (h.elementUnref a).bind fun _ => (h.emit _).bind fun _ => h.emit _
  induction l with
  | nil => exact keeps_pure _ _
  | cons a l ih => exact (herase a).bind fun _ => ih

theorem KeptByWrites.elementFree (h : KeptByWrites env C F P) (ctx : ScContext) (order : HashOrder)
    (a : ScAddr) : Keeps P (scStorageElementFree env ctx order a) := by
  have hunlock (l : List ScAddr) : Keeps P (unlockElements env l) := by
    induction l with
    | nil => exact keeps_pure _ _
    | cons b l ih => exact (h.unlock b).bind fun _ => ih
  refine (h.lock a).bind fun _ => Keeps.ite (keeps_pure _ _) ?_
  refine (keeps_readCell _ a).bind fun _ => Keeps.ite ?_ ?_
  · exact (h.unlock a).bind fun _ => keeps_pure _ _
  refine (h.collectLoop ctx _ _ _).bind fun r => ?_
  obtain ⟨res, t⟩ := r
  cases res with
  | ok => exact (h.eraseElements _ _).bind fun _ => (hunlock _).bind fun _ => keeps_pure _ _
  | _ => exact (hunlock _).bind fun _ => keeps_pure _ _

/-- A call that makes no element keeps what the writes keep. -/
theorem KeptByWrites.call (h : KeptByWrites env C F P) (c : StorageCall) (hc : c.isCreation = false) :
    Keeps P (c.run env) := by
  cases c with
  | isElement a =>
    apply keeps_ignoreResult
    refine (h.lock a).bind fun _ => Keeps.ite (keeps_pure _ _) ?_
    exact (keeps_readCell _ a).bind fun _ => (h.unlock a).bind fun _ => keeps_pure _ _
  | elementFree ctx order a => exact keeps_ignoreResult (h.elementFree ctx order a)
  | nodeNew ctx type => cases hc
  | linkNew ctx isConst => cases hc
  | arcNew ctx type beg end_ => cases hc
  | getElementType ctx a => exact keeps_ignoreResult (h.readElement a _)
  | changeElementSubtype ctx a type => exact keeps_ignoreResult (h.changeSubtype ctx a type)
  | getArcBegin ctx a => exact keeps_ignoreResult (h.readElement a _)
  | getArcEnd ctx a => exact keeps_ignoreResult (h.readElement a _)
  | getArcInfo ctx a => exact keeps_ignoreResult (h.readElement a _)
  | setLinkContent ctx a stream => exact keeps_ignoreResult (h.setLinkContent ctx a stream)
  | getLinkContent ctx a =>
    apply keeps_ignoreResult
    refine (h.lock a).bind fun _ => Keeps.ite (keeps_pure _ _) ?_
    refine (keeps_getLockedLinkContent P ctx a).bind fun _ => ?_
    exact (h.unlock a).bind fun _ => keeps_pure _ _
  | findLinksWithContent ctx stream => exact keeps_ignoreResult (h.findLinks ctx stream)
  | setAccessLevels ctx a levels => exact keeps_ignoreResult (h.setAccessLevels ctx a levels)
  | getAccessLevels ctx a => exact keeps_ignoreResult (h.getAccessLevels ctx a)

theorem KeptByWrites.action (h : KeptByWrites env C F P) (action : StoreAction)
    (hc : action.isCreation = false) : Keeps P (action.run env) := by
  cases action with
  | call c => exact h.call c hc
  | ref a => exact (h.refCommon a 1).bind fun _ => keeps_pure _ _
  | unref a => exact keeps_ignoreResult (h.elementUnref a)
  | lock a => exact keeps_ignoreResult (h.lock a)
  | unlock a => exact h.unlock a

theorem KeptBySteps.call (h : KeptBySteps env C F P) (c : StorageCall) : Keeps P (c.run env) := by
  cases hc : c.isCreation with
  | false => exact h.toKeptByWrites.call c hc
  | true =>
    cases c with
    | nodeNew ctx type =>
      apply keeps_ignoreResult
      exact (keeps_scAssert _ _).bind fun _ => h.newElement ctx _ (h.cellSteps.node type _)
    | linkNew ctx isConst =>
      exact keeps_ignoreResult (h.newElement ctx _ (h.cellSteps.link isConst _))
    | arcNew ctx type beg end_ => exact keeps_ignoreResult (h.arcNew ctx type beg end_)
    | _ => cases hc

/-- A whole action keeps what the basic steps keep. -/
theorem KeptBySteps.action (h : KeptBySteps env C F P) (action : StoreAction) :
    Keeps P (action.run env) := by
  cases action with
  | call c => exact h.call c
  | _ => exact h.toKeptByWrites.action _ rfl

theorem KeptBySteps.step (h : KeptBySteps env C F P) (action : StoreAction) (st st' : ScStorage)
    (hP : P st) (hs : StoreStep st ⟨env, action⟩ st') : P st' :=
  wp_ok (Q := fun _ s => P s) (h.action action st hP) hs

end

/-- A property that does not depend on what is in the segments that there are. -/
structure SegmentWrites (env : ScEnv) (F : (FileMemory → FileMemory) → Prop) (P : ScStorage → Prop) :
    Prop where
  setSegment : ∀ st n seg seg', st.segments n = some seg → P st → P (st.setSegment n seg')
  modifyFm : ∀ f, F f → ∀ st, P st → P { st with fileMemory := f st.fileMemory }
  emit : ∀ c st, P st → P { st with emitted := st.emitted ++ [c] }
  cacheAppend : ∀ st n seg, st.segments n = some seg → P st → P (scSegmentCacheAppend env n st)

/-- A property that does not depend on the segments. -/
structure SegmentFree (env : ScEnv) (F : (FileMemory → FileMemory) → Prop) (P : ScStorage → Prop) :
    Prop extends SegmentWrites env F P where
  cacheRemove : ∀ ctx st n, P st → P (scSegmentCacheRemove ctx n st)
  refilled : ∀ st, P st → P (st.refilled env)

section
variable {env : ScEnv} {F : (FileMemory → FileMemory) → Prop} {P : ScStorage → Prop}

theorem segments_of_segmentOf {st : ScStorage} {a : ScAddr} {seg : ScSegment}
    (h : st.segmentOf a = some seg) : st.segments a.seg.toNat = some seg := by
  unfold ScStorage.segmentOf at h
  split_ifs at h
  exact h

theorem SegmentWrites.lock (h : SegmentWrites env F P) (a : ScAddr) :
    Keeps P (scStorageElementLock env a) := by
  intro st hst
  unfold IfReturns Wp scStorageElementLock
  cases hs : st.segmentOf a with
  | none => exact hst
  | some seg =>
    simp only
    cases scSegmentLockElement env.thread seg a.offset.toNat with
    | error e => trivial
    | ok seg' => exact h.setSegment st _ seg seg' (segments_of_segmentOf hs) hst

theorem SegmentWrites.lockTry (h : SegmentWrites env F P) (a : ScAddr) :
    Keeps P (scStorageElementLockTry env a) := by
  intro st hst
  unfold IfReturns Wp scStorageElementLockTry
  cases hs : st.segmentOf a with
  | none => exact hst
  | some seg =>
    simp only
    cases scSegmentLockElementTry env.thread seg a.offset.toNat with
    | error e => trivial
    | ok r => exact h.setSegment st _ seg r.2 (segments_of_segmentOf hs) hst

theorem SegmentWrites.unlock (h : SegmentWrites env F P) (a : ScAddr) :
    Keeps P (scStorageElementUnlock env a) := by
  intro st hst
  unfold IfReturns Wp scStorageElementUnlock
  cases hs : st.segmentOf a with
  | none => exact hst
  | some seg =>
    simp only
    cases scSegmentUnlockElement env.thread seg a.offset.toNat with
    | error e => trivial
    | ok seg' => exact h.setSegment st _ seg seg' (segments_of_segmentOf hs) hst

theorem SegmentWrites.modifyCell (h : SegmentWrites env F P) (a : ScAddr) (f : ScElement → ScElement) :
    Keeps P (modifyCell a f) := by
  refine keeps_modify _ _ fun st hst => ?_
  unfold ScStorage.setCell
  cases hs : st.segments a.seg.toNat with
  | none => exact hst
  | some seg => exact h.setSegment st _ seg _ hs hst

theorem SegmentFree.append (h : SegmentFree env F P) (ctx : ScContext) :
    Keeps P (scStorageAppendElIntoSegments env ctx) := by
  intro st hst
  unfold scStorageAppendElIntoSegments
  simp only [IfReturns, wp_bind, wp_get, wp_ite, wp_pure]
  refine ⟨fun _ => hst, fun _ => ?_⟩
  refine wp_mono (appendElLoop_wp env ctx P (fun _ => P) (fun _ => True) ?_ ?_ ?_ ?_ ?_ ?_ trivial
    _ st hst) ?_ (fun _ _ => trivial)
  · intro st1 h1
    exact cacheGet_wp env ctx st1 _ _ (fun _ _ => h1) (fun _ _ => h.refilled st1 h1)
      (fun _ _ => trivial)
  · intros
    trivial
  · intros
    trivial
  · intros
    trivial
  · intro st1 n seg offset seg' h1 hn _
    exact h.setSegment st1 n seg _ hn h1
  · intro st1 n seg seg' h1 hn _
    exact h.cacheRemove ctx _ n (h.setSegment st1 n seg seg' hn h1)
  · intro r st1 hr
    obtain ⟨_, -, h1⟩ := hr
    exact h1

theorem SegmentWrites.erase (h : SegmentWrites env F P) (a : ScAddr) :
    Keeps P (eraseUnreferenced env a) := by
  refine (h.lock a).bind fun _ => Keeps.ite (keeps_throw _ _) ?_
  intro st hst
  rw [IfReturns, wp_bind]
  unfold Wp scStorageEraseElementFromSegment
  cases hs : st.segments a.seg.toNat with
  | none => trivial
  | some seg =>
    simp only
    cases scSegmentEraseElement seg a.offset.toNat with
    | error e => trivial
    | ok seg' =>
      have hset := h.setSegment st _ seg seg' hs hst
      have hseg : (st.setSegment a.seg.toNat seg').segments a.seg.toNat = some seg' :=
        Function.update_self ..
      exact h.unlock a _ (h.cacheAppend _ _ seg' hseg hset)

theorem SegmentWrites.kept (h : SegmentWrites env F P) (hF : FmSteps env F) :
    KeptByWrites env (fun _ => True) F P where
  cellSteps := ⟨fun _ _ => trivial, fun _ _ => trivial, fun _ _ _ _ => trivial, fun _ _ => trivial,
    fun _ => trivial, fun _ => trivial, trivial⟩
  fmSteps := hF
  lock := h.lock
  lockTry := h.lockTry
  unlock := h.unlock
  modifyCell := fun a f _ => h.modifyCell a f
  modifyFm := fun f hf => keeps_modify _ _ (h.modifyFm f hf)
  emit := fun c => keeps_modify _ _ (h.emit c)
  setRefCount := by
    intro a n st hst
    unfold ScStorage.setRefCount
    cases hs : st.segments a.seg.toNat with
    | none => exact hst
    | some seg => exact h.setSegment st _ seg _ hs hst
  erase := h.erase
  changeSubtype := by
    intro ctx a type
    refine (h.lock a).bind fun _ => Keeps.ite (keeps_pure _ _) ?_
    refine (keeps_readCell _ a).bind fun _ => Keeps.ite ?_ (Keeps.ite (keeps_pure _ _) ?_)
    · exact (h.unlock a).bind fun _ => keeps_pure _ _
    refine Keeps.ite ?_ ((h.unlock a).bind fun _ => keeps_pure _ _)
    exact (h.modifyCell a _).bind fun _ => (h.unlock a).bind fun _ => keeps_pure _ _

/-- Such a property is kept by every operation. -/
theorem SegmentFree.kept (h : SegmentFree env F P) (hF : FmSteps env F) :
    KeptBySteps env (fun _ => True) F P :=
  ⟨h.toSegmentWrites.kept hF, h.append⟩

/-- Only an allocation makes a segment. -/
theorem segmentsNum_kept (env : ScEnv) (k : ℕ) :
    KeptByWrites env (fun _ => True) (fun _ => True) fun st => st.segmentsNum = k := by
  have hfree : SegmentWrites env (fun _ => True) fun st => st.segmentsNum = k := by
    refine ⟨fun _ _ _ _ _ h => h, fun _ _ _ h => h, fun _ _ h => h, ?_⟩
    intro st n seg _ h
    rw [(cacheAppend_cacheOnly env n st).segmentsNum]
    exact h
  exact hfree.kept ⟨fun _ _ => trivial, fun _ _ => trivial, fun _ _ => trivial⟩

/-- No segment is ever given back. -/
theorem segmentsNum_grows (env : ScEnv) (k : ℕ) :
    KeptBySteps env (fun _ => True) (fun _ => True) fun st => k ≤ st.segmentsNum := by
  have hfree : SegmentFree env (fun _ => True) fun st => k ≤ st.segmentsNum := by
    refine ⟨⟨fun _ _ _ _ _ h => h, fun _ _ _ h => h, fun _ _ h => h, ?_⟩, ?_, ?_⟩
    · intro st n seg _ h
      rw [(cacheAppend_cacheOnly env n st).segmentsNum]
      exact h
    · intro ctx st n h
      rw [(cacheRemove_cacheOnly ctx n st).segmentsNum]
      exact h
    · intro st h
      rw [(refilled_cacheOnly env st).segmentsNum]
      exact h.trans (Nat.le_succ _)
  exact hfree.kept ⟨fun _ _ => trivial, fun _ _ => trivial, fun _ _ => trivial⟩

end

end ScMachine.Store
