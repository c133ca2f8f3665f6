import ScMachine.ElementFree

/-! Subscriptions to the changes of elements (`sc_event.c`, `sc_event_queue.c`). -/
namespace ScMachine.Store

/-- `SC_EVENT_REQUEST_DESTROY`, the highest bit of the count. -/
def scEventRequestDestroy : BitVec 32 := 0x80000000

def scEventRefCountMask : BitVec 32 := ~~~scEventRequestDestroy

/-- The two types of callbacks; which one an event has makes a difference to the worker alone. -/
inductive EventCallback where
  | simple
  | ex
  deriving DecidableEq

/-- `sc_event`; `id` stands for the pointer to it. What the subscriber's own functions do with
`data` and with the deleted event is not part of it. -/
structure ScEvent where
  id : ℕ
  element : ScAddr
  type : ScEventType
  callback : Option EventCallback
  refCount : BitVec 32
  accessLevels : ScAccessLevels

def ScEvent.requestDestroy (event : ScEvent) : Bool := event.refCount &&& scEventRequestDestroy != 0

/-- What a worker has to call: the event, the arc and the element at its other end. -/
structure EventJob where
  event : ℕ
  edge : ScAddr
  other : ScAddr
  deriving DecidableEq

/-- The events that exist, `events_table` with a key and an event in each entry, the queue with the
jobs that its workers are at, and for each context in pending mode the calls of `sc_event_emit` that
are put off. -/
structure ScEvents where
  events : List ScEvent
  table : Option (List (ℕ × ℕ))
  running : Bool
  queue : List EventJob
  working : List EventJob
  pending : ℕ → Option (List ScEventCall)
  nextId : ℕ

/-- After `sc_events_initialize`. -/
def ScEvents.empty : ScEvents := ⟨[], none, true, [], [], fun _ => none, 0⟩

abbrev EventM := StateT ScEvents (Except ScStop)

def ScEvents.find (ev : ScEvents) (id : ℕ) : Option ScEvent := ev.events.find? fun e => e.id = id

def modifyEvent (id : ℕ) (f : ScEvent → ScEvent) : EventM Unit :=
  modify fun ev => { ev with events := ev.events.map fun e => if e.id = id then f e else e }

/-- The events of an element in the order of their creation. -/
def eventsOf (el : ScAddr) (entries : List (ℕ × ℕ)) : List ℕ :=
  (entries.filter fun e => e.1 = el.localToInt).map Prod.snd

/-- `g_new0` and the assignments after it. -/
def allocateEvent (el : ScAddr) (type : ScEventType) (callback : EventCallback)
    (levels : ScAccessLevels) : EventM ScEvent := do
  let event : ScEvent := ⟨(← get).nextId, el, type, some callback, 1, levels⟩
  modify fun ev => { ev with events := ev.events ++ [event], nextId := ev.nextId+1 }
  return event

def insertEventIntoTable (event : ScEvent) : EventM Unit :=
  modify fun ev =>
    { ev with table := some (ev.table.getD [] ++ [(event.element.localToInt, event.id)]) }

/-- `false` is `SC_RESULT_ERROR_INVALID_PARAMS`. -/
def removeEventFromTable (event : ScEvent) : EventM Bool := do
  match (← get).table with
  | none => throw .abort
  | some entries =>
    if eventsOf event.element entries = [] then return false
    let rest := entries.erase (event.element.localToInt, event.id)
    modify fun ev => { ev with table := if rest = [] then none else some rest }
    return true

def scEventTryEmit (event : ScEvent) : EventM Bool := do
  if event.requestDestroy then return false
  if !(event.refCount < scEventRefCountMask) then throw .abort
  modifyEvent event.id fun e => { e with refCount := e.refCount+1 }
  return true

def scEventUnref (id : ℕ) : EventM Unit :=
  modifyEvent id fun e => { e with refCount := e.refCount-1 }

def scEventQueueAppend (job : EventJob) : EventM Unit :=
  modify fun ev => if ev.running then { ev with queue := ev.queue ++ [job] } else ev

/-- The loop of `sc_event_emit_impl` over the events of the element. -/
def emitToEvents (access : ScAccessLevels) (type : ScEventType) (edge other : ScAddr) :
    List ℕ → EventM Unit
  | [] => return ()
  | id :: ids => do
    match (← get).find id with
    | none => throw .abort
    | some event =>
      if event.type = type && scAccessLvlCheckRead event.accessLevels access then
        if ← scEventTryEmit event then
          if event.callback = none then throw .abort
          scEventQueueAppend ⟨event.id, edge, other⟩
    emitToEvents access type edge other ids

def scEventEmitImpl (el : ScAddr) (access : ScAccessLevels) (type : ScEventType)
    (edge other : ScAddr) : EventM Unit := do
  if el = ScAddr.empty then throw .abort
  match (← get).table with
  | none => return ()
  | some entries => emitToEvents access type edge other (eventsOf el entries)

def requestDestroyAll : List ℕ → EventM Unit
  | [] => return ()
  | id :: ids => do
    modifyEvent id fun e => { e with refCount := e.refCount ||| scEventRequestDestroy }
    requestDestroyAll ids

def scEventNotifyElementDeleted (el : ScAddr) : EventM Unit := do
  match (← get).table with
  | none => return ()
  | some entries =>
    modify fun ev => { ev with table := some (entries.filter fun e => e.1 ≠ el.localToInt) }
    requestDestroyAll (eventsOf el entries)

/-- A call that the store made: `sc_event_emit` puts it off in pending mode. -/
def eventCall (ctx : ScContext) (call : ScEventCall) : EventM Unit :=
  match call with
  | .elementDeleted el => scEventNotifyElementDeleted el
  | .emit el access type edge other => do
    match (← get).pending ctx.id with
    | some calls =>
      modify fun ev =>
        { ev with pending := Function.update ev.pending ctx.id (some (calls ++ [call])) }
    | none => scEventEmitImpl el access type edge other

def eventCalls (ctx : ScContext) : List ScEventCall → EventM Unit
  | [] => return ()
  | call :: calls => do
    eventCall ctx call
    eventCalls ctx calls

def scMemoryContextPendingBegin (ctx : ScContext) : EventM Unit := do
  if ((← get).pending ctx.id).isSome then throw .abort
  modify fun ev => { ev with pending := Function.update ev.pending ctx.id (some []) }

/-- The calls that were put off are made once the context is no longer in pending mode. -/
def scMemoryContextPendingEnd (ctx : ScContext) : EventM Unit := do
  match (← get).pending ctx.id with
  | none => throw .abort
  | some calls =>
    modify fun ev => { ev with pending := Function.update ev.pending ctx.id none }
    eventCalls ctx calls

/-- A worker of the pool takes a job and calls the callback of its event, which is code of the
subscriber. -/
def scEventPoolWorkerStart (i : ℕ) : EventM Unit := do
  match (← get).queue[i]? with
  | none => return ()
  | some job =>
    if ((← get).find job.event).isNone then throw .abort
    modify fun ev =>
      { ev with queue := ev.queue.eraseIdx i, working := ev.working ++ [job] }

/-- The callback has returned. -/
def scEventPoolWorkerFinish (i : ℕ) : EventM Unit := do
  match (← get).working[i]? with
  | none => return ()
  | some job =>
    if ((← get).find job.event).isNone then throw .abort
    scEventUnref job.event
    modify fun ev => { ev with working := ev.working.eraseIdx i }

def scEventsStopProcessing : EventM Unit := modify fun ev => { ev with running := false }

/-- `sc_event_destroy` up to `unref`, under the lock of the event; `false` is `SC_RESULT_ERROR`. -/
def scEventDestroyRequest (id : ℕ) : EventM Bool := do
  match (← get).find id with
  | none => throw .abort
  | some event =>
    if event.requestDestroy then return true
    if !(← removeEventFromTable event) then return false
    modifyEvent id fun e =>
      { e with refCount := e.refCount ||| scEventRequestDestroy, callback := none }
    return true

/-- `sc_event_destroy` up to its loop. -/
def scEventDestroyStart (id : ℕ) : EventM Bool := do
  if !(← scEventDestroyRequest id) then return false
  scEventUnref id
  return true

/-- One pass of its loop. Without references the event is freed, and its element is what is still to
be given a reference back. -/
def scEventDestroyPass (id : ℕ) : EventM (Option ScAddr) := do
  match (← get).find id with
  | none => throw .abort
  | some event =>
    if event.refCount = scEventRequestDestroy then
      modify fun ev => { ev with events := ev.events.eraseP fun e => e.id = id }
      return some event.element
    else return none

end ScMachine.Store
