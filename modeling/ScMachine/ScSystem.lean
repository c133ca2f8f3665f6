import ScMachine.ScEvent
import ScMachine.ScIterator5
import ScMachine.StoreRuns

/-! The store together with its users: the iterators that have been created and not freed, and the
subscriptions. -/
namespace ScMachine.Store

structure ScSystem where
  store : ScStorage
  events : ScEvents
  iterators3 : List ScIterator3
  iterators5 : List ScIterator5

def ScSystem.empty : ScSystem := ⟨ScStorage.empty, ScEvents.empty, [], []⟩

abbrev SystemM := StateT ScSystem (Except ScStop)

def inStore {α : Type} (x : StoreM α) : SystemM α := fun s => do
  let (r, st) ← x s.store
  return (r, { s with store := st })

def inEvents {α : Type} (x : EventM α) : SystemM α := fun s => do
  let (r, ev) ← x s.events
  return (r, { s with events := ev })

/-- The context that a call passes on to `sc_event_emit`, if it makes such calls. -/
def StorageCall.emitContext : StorageCall → Option ScContext
  | .elementFree ctx _ _ => some ctx
  | .arcNew ctx _ _ _ => some ctx
  | .setLinkContent ctx _ _ => some ctx
  | _ => none

/-- The calls of the event system that a call of the store makes are made right after it: neither
side reads what the other one writes. -/
def storageCall (env : ScEnv) (c : StorageCall) : SystemM Unit := do
  let before := (← get).store.emitted.length
  inStore (c.run env)
  match c.emitContext with
  | none => return ()
  | some ctx => inEvents (eventCalls ctx ((← get).store.emitted.drop before))

/-- `sc_event_new` and `sc_event_new_ex`, with the pointer to the event. -/
def scEventNew (env : ScEnv) (ctx : ScContext) (el : ScAddr) (type : ScEventType)
    (callback : EventCallback) : SystemM (Option ℕ) := do
  if el = ScAddr.empty then return none
  match ← inStore (scStorageGetAccessLevels env ctx el) with
  | (.ok, some levels) =>
    if !scAccessLvlCheckRead ctx.accessLevels levels then return none
    inStore (scStorageElementRef env el)
    inEvents do
      let event ← allocateEvent el type callback ctx.accessLevels
      insertEventIntoTable event
      return some event.id
  | _ => return none

/-- One pass of the loop of `sc_event_destroy`. -/
def scEventDestroyWait (env : ScEnv) (id : ℕ) : SystemM Unit := do
  match ← inEvents (scEventDestroyPass id) with
  | none => return ()
  | some el =>
    let _ ← inStore (scStorageElementUnref env el)

/-- Iterators and events are given by their place in the lists. -/
inductive SystemAction where
  | call (c : StorageCall)
  | iterator3New (ctx : ScContext) (type : ScIterator3Type) (p1 p2 p3 : ScIteratorParam)
  | iterator3Create (ctx : ScContext) (params : Iterator3Params)
  | iterator3Next (unset : ScAddr → ScType) (i : ℕ)
  | iterator3Free (i : ℕ)
  | iterator5New (ctx : ScContext) (type : ScIterator5Type) (p1 p2 p3 p4 p5 : ScIteratorParam)
  | iterator5Next (unset : ScAddr → ScType) (i : ℕ)
  | iterator5Free (i : ℕ)
  | eventNew (ctx : ScContext) (el : ScAddr) (type : ScEventType) (callback : EventCallback)
  | eventDestroy (id : ℕ)
  | eventDestroyWait (id : ℕ)
  | eventCall (ctx : ScContext) (call : ScEventCall)
  | pendingBegin (ctx : ScContext)
  | pendingEnd (ctx : ScContext)
  | workerStart (i : ℕ)
  | workerFinish (i : ℕ)
  | stopProcessing

/-- A new iterator, unless the pointer is null. -/
def addIterator3 (x : StoreM (Option ScIterator3)) : SystemM Unit := do
  let it ← inStore x
  modify fun s => { s with iterators3 := s.iterators3 ++ it.toList }

def addIterator5 (x : StoreM (Option ScIterator5)) : SystemM Unit := do
  let it ← inStore x
  modify fun s => { s with iterators5 := s.iterators5 ++ it.toList }

def SystemAction.run (env : ScEnv) : SystemAction → SystemM Unit
  | .call c => storageCall env c
  | .iterator3New ctx type p1 p2 p3 => addIterator3 (scIterator3New env ctx type p1 p2 p3)
  | .iterator3Create ctx params => addIterator3 (params.create env ctx)
  | .iterator3Next unset i => do
    match (← get).iterators3[i]? with
    | none => return ()
    | some it =>
      let (_, it) ← inStore (scIterator3Next env unset it)
      modify fun s => { s with iterators3 := s.iterators3.set i it }
  | .iterator3Free i => do
    match (← get).iterators3[i]? with
    | none => return ()
    | some it =>
      inStore (scIterator3Free env it)
      modify fun s => { s with iterators3 := s.iterators3.eraseIdx i }
  | .iterator5New ctx type p1 p2 p3 p4 p5 =>
    addIterator5 (scIterator5New env ctx type p1 p2 p3 p4 p5)
  | .iterator5Next unset i => do
    match (← get).iterators5[i]? with
    | none => return ()
    | some it =>
      let (_, it) ← inStore (scIterator5Next env unset it)
      modify fun s => { s with iterators5 := s.iterators5.set i it }
  | .iterator5Free i => do
    match (← get).iterators5[i]? with
    | none => return ()
    | some it =>
      inStore (scIterator5Free env it)
      modify fun s => { s with iterators5 := s.iterators5.eraseIdx i }
  | .eventNew ctx el type callback => do
    let _ ← scEventNew env ctx el type callback
  | .eventDestroy id => do
    let _ ← inEvents (scEventDestroyStart id)
  | .eventDestroyWait id => scEventDestroyWait env id
  | .eventCall ctx c => inEvents (Store.eventCall ctx c)
  | .pendingBegin ctx => inEvents (scMemoryContextPendingBegin ctx)
  | .pendingEnd ctx => inEvents (scMemoryContextPendingEnd ctx)
  | .workerStart i => inEvents (scEventPoolWorkerStart i)
  | .workerFinish i => inEvents (scEventPoolWorkerFinish i)
  | .stopProcessing => inEvents scEventsStopProcessing

end ScMachine.Store
