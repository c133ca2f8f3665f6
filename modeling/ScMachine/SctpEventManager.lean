import ScMachine.EventReferences
import ScMachine.SctpTypes

/-! The subscriptions of the clients of the server (`sctpEventManager.cpp`, and the event commands of
`sctpCommand.cpp`), with one thread for each client and the workers of the event queue. -/
namespace ScMachine.Sctp
open ScMachine.Store

abbrev TEventId : Type := BitVec 32

/-- `sEventData`; `cmd` is the number of the client's thread. -/
structure SEventData where
  event : Option ℕ
  cmd : ℕ
  id : TEventId
  deriving DecidableEq

/-- What `processEventEmit` appends for one event. -/
structure EventNotice where
  eventId : TEventId
  el : ScAddr
  arg : ScAddr
  deriving DecidableEq

/-- A job of a worker: in `_eventsCallback` before its lock, under the lock, or behind the callback. -/
inductive CallbackPhase where
  | entered
  | locked
  | returned
  deriving DecidableEq

/-- Who has called `sc_event_destroy`: `destroyEvent` for a command or for `sctpCommand::shutdown` with
the ids that are left, or `sctpEventManager::shutdown` with the entries that are left. -/
inductive DestroyCaller where
  | command (id : TEventId)
  | disconnect (id : TEventId) (rest : List TEventId)
  | shutdown (rest : List SEventData)

/-- Where the thread of a client is. -/
inductive CommandPhase where
  | idle
  | creating (type : ScEventType) (addr : ScAddr)
  | created (event : Option TEventId)
  | destroying (evt : ℕ) (caller : DestroyCaller)
  | leaving (rest : List TEventId)
  | closed

/-- `sctpCommand`; `sent` has the replies to `SCTP_CMD_EVENT_EMIT`. -/
structure SctpCommand where
  phase : CommandPhase
  eventsSet : List TEventId
  sendData : List EventNotice
  sendEventsCount : BitVec 32
  sent : List (BitVec 32 × List EventNotice)

def SctpCommand.empty : SctpCommand := ⟨.idle, [], [], 0, []⟩

inductive MutexOwner where
  | command (t : ℕ)
  | callback
  deriving DecidableEq

/-- The manager and its surroundings. `callbacks` goes along with the jobs that the workers are at, and
`eventData` is the `data` of each subscription. No code reads `creator` and `notified`: which client has
made a subscription, and of which events the subscriptions of a client were told. -/
structure SctpEvents where
  core : EventParties
  callbacks : List CallbackPhase
  eventData : ℕ → TEventId
  mutex : Option MutexOwner
  mEvents : List SEventData
  lastEventId : TEventId
  commands : ℕ → SctpCommand
  creator : ℕ → ℕ
  notified : ℕ → List EventNotice

def SctpEvents.empty : SctpEvents :=
  ⟨EventParties.empty, [], fun _ => 0, none, [], 1, fun _ => SctpCommand.empty, fun _ => 0, fun _ => []⟩

/-! `std::map<tEventId, sEventData*>`. -/

def findEvent (mEvents : List SEventData) (id : TEventId) : Option SEventData :=
  mEvents.find? fun d => d.id = id

def eraseEvent (mEvents : List SEventData) (id : TEventId) : List SEventData :=
  mEvents.filter fun d => d.id ≠ id

/-- `mEvents[evt->id] = evt`. -/
def insertEvent (mEvents : List SEventData) (d : SEventData) : List SEventData :=
  d :: eraseEvent mEvents d.id

/-- The loop of `_getAvailableEventId`, with as many rounds as there are ids. -/
def searchEventId (mEvents : List SEventData) (start : TEventId) : ℕ → TEventId → TEventId
  | 0, id => id
  | n + 1, id =>
    if id ≠ start ∧ (findEvent mEvents id).isSome ∧ id ≠ 0 then searchEventId mEvents start n (id+1)
    else id

/-- `_getAvailableEventId`; the id that is found is also the last one from then on. -/
def getAvailableEventId (mEvents : List SEventData) (start : TEventId) : Option TEventId :=
  let id := searchEventId mEvents start (2^32) (start+1)
  if id ≠ start then some id else none

def SctpEvents.setCommand (s : SctpEvents) (t : ℕ) (c : SctpCommand) : SctpEvents :=
  { s with commands := Function.update s.commands t c }

def SctpEvents.setPhase (s : SctpEvents) (t : ℕ) (phase : CommandPhase) : SctpEvents :=
  s.setCommand t { s.commands t with phase := phase }

/-- What comes behind `sc_event_destroy`; `none` is `sc_event_destroy` on the null pointer. -/
def SctpEvents.afterDestroy (s : SctpEvents) (t : ℕ) (freed : Bool) : DestroyCaller → Option SctpEvents
  | .command id => some
    { s.setPhase t .idle with
      mutex := none
      mEvents := if freed then eraseEvent s.mEvents id else s.mEvents }
  | .disconnect id rest => some
    { s.setPhase t (.leaving rest) with
      mutex := none
      mEvents := if freed then eraseEvent s.mEvents id else s.mEvents }
  | .shutdown [] => some { s.setPhase t .idle with mutex := none, mEvents := [] }
  | .shutdown (d :: rest) => d.event.map fun evt => s.setPhase t (.destroying evt (.shutdown rest))

/-- The steps of the threads: `createEvent` with the access levels of the element, if it can be read, and
the reply of the command; `destroyEvent` with the three regions of `sc_event_destroy`; a disconnected
client; `sctpEventManager::shutdown`; `SCTP_CMD_EVENT_EMIT`; changes of the memory; the workers. -/
inductive SctpAction where
  | createLock (t : ℕ) (type : ScEventType) (addr : ScAddr)
  | createEvent (t : ℕ) (levels : Option ScAccessLevels)
  | createReply (t : ℕ)
  | destroyEvent (t : ℕ) (id : TEventId)
  | disconnect (t : ℕ)
  | leave (t : ℕ)
  | shutdown (t : ℕ)
  | destroyRequest (t : ℕ)
  | destroyUnref (t : ℕ)
  | destroyPass (t : ℕ)
  | emitEvents (t : ℕ)
  | emit (el : ScAddr) (access : ScAccessLevels) (type : ScEventType) (edge other : ScAddr)
  | notifyDeleted (el : ScAddr)
  | workerStart (i : ℕ)
  | callbackLock (i : ℕ)
  | callbackRun (i : ℕ)
  | workerFinish (i : ℕ)

/-- What the callback tells of: the id, the element of its event, and the arc. -/
def noticeOf (job : EventJob) (e : ScEvent) (id : TEventId) : EventNotice :=
  ⟨id, e.element, job.edge⟩

def SctpCommand.append (c : SctpCommand) (n : EventNotice) : SctpCommand :=
  { c with sendData := c.sendData ++ [n], sendEventsCount := c.sendEventsCount+1 }

/-- One step. `asserts` is whether `Q_ASSERT` stops the server. Where `sc_event_destroy` is called on the
null pointer no step is left: the server has crashed. -/
inductive SctpStep (asserts : Bool) (s : SctpEvents) : SctpAction → SctpEvents → Prop where
  | createLock (t : ℕ) (type : ScEventType) (addr : ScAddr)
      (hphase : (s.commands t).phase = .idle) (hmutex : s.mutex = none) :
    SctpStep asserts s (.createLock t type addr)
      { s.setPhase t (.creating type addr) with mutex := some (.command t) }
  | createNoId (t : ℕ) (type : ScEventType) (addr : ScAddr) (levels : Option ScAccessLevels)
      (hphase : (s.commands t).phase = .creating type addr)
      (hid : getAvailableEventId s.mEvents s.lastEventId = none) :
    SctpStep asserts s (.createEvent t levels) { s.setPhase t (.created none) with mutex := none }
  -- `sc_event_new` has returned the null pointer
  | createNull (t : ℕ) (type : ScEventType) (addr : ScAddr) (levels : Option ScAccessLevels)
      (id : TEventId) (hphase : (s.commands t).phase = .creating type addr)
      (hid : getAvailableEventId s.mEvents s.lastEventId = some id)
      (hnull : addr = ScAddr.empty ∨ levels = none)
      (hassert : asserts = true → findEvent s.mEvents id = none) :
    SctpStep asserts s (.createEvent t levels)
      { s.setPhase t (.created (some id)) with
        mutex := none, lastEventId := id, mEvents := insertEvent s.mEvents ⟨none, t, id⟩ }
  | createEvent (t : ℕ) (type : ScEventType) (addr : ScAddr) (l : ScAccessLevels) (id : TEventId)
      (core : EventParties) (hphase : (s.commands t).phase = .creating type addr)
      (hid : getAvailableEventId s.mEvents s.lastEventId = some id) (haddr : addr ≠ ScAddr.empty)
      (hcore : EventStep s.core (.new addr type .simple l) core)
      (hassert : asserts = true → findEvent s.mEvents id = none) :
    SctpStep asserts s (.createEvent t (some l))
      { s.setPhase t (.created (some id)) with
        core := core
        eventData := Function.update s.eventData s.core.ev.nextId id
        creator := Function.update s.creator s.core.ev.nextId t
        mutex := none, lastEventId := id
        mEvents := insertEvent s.mEvents ⟨some s.core.ev.nextId, t, id⟩ }
  | createFail (t : ℕ) (hphase : (s.commands t).phase = .created none) :
    SctpStep asserts s (.createReply t) (s.setPhase t .idle)
  -- `SCTP_ERROR` without a reply
  | createKnown (t : ℕ) (id : TEventId) (hphase : (s.commands t).phase = .created (some id))
      (hknown : id ∈ (s.commands t).eventsSet) :
    SctpStep asserts s (.createReply t) (s.setPhase t .idle)
  | createDone (t : ℕ) (id : TEventId) (hphase : (s.commands t).phase = .created (some id))
      (hnew : id ∉ (s.commands t).eventsSet) :
    SctpStep asserts s (.createReply t) (s.setCommand t { s.commands t with
      phase := .idle, eventsSet := (s.commands t).eventsSet.orderedInsert (· ≤ ·) id })
  | destroyMissing (t : ℕ) (id : TEventId) (hphase : (s.commands t).phase = .idle)
      (hmutex : s.mutex = none) (hfind : findEvent s.mEvents id = none) :
    SctpStep asserts s (.destroyEvent t id) s
  | destroyLock (t : ℕ) (id : TEventId) (d : SEventData) (evt : ℕ)
      (hphase : (s.commands t).phase = .idle) (hmutex : s.mutex = none)
      (hfind : findEvent s.mEvents id = some d) (hevent : d.event = some evt) :
    SctpStep asserts s (.destroyEvent t id)
      { s.setPhase t (.destroying evt (.command id)) with mutex := some (.command t) }
  | disconnect (t : ℕ) (hphase : (s.commands t).phase = .idle) :
    SctpStep asserts s (.disconnect t) (s.setPhase t (.leaving (s.commands t).eventsSet))
  | leaveMissing (t : ℕ) (id : TEventId) (rest : List TEventId)
      (hphase : (s.commands t).phase = .leaving (id :: rest)) (hmutex : s.mutex = none)
      (hfind : findEvent s.mEvents id = none) :
    SctpStep asserts s (.leave t) (s.setPhase t (.leaving rest))
  | leaveLock (t : ℕ) (id : TEventId) (rest : List TEventId) (d : SEventData) (evt : ℕ)
      (hphase : (s.commands t).phase = .leaving (id :: rest)) (hmutex : s.mutex = none)
      (hfind : findEvent s.mEvents id = some d) (hevent : d.event = some evt) :
    SctpStep asserts s (.leave t)
      { s.setPhase t (.destroying evt (.disconnect id rest)) with mutex := some (.command t) }
  | leaveDone (t : ℕ) (hphase : (s.commands t).phase = .leaving []) :
    SctpStep asserts s (.leave t)
      (s.setCommand t { s.commands t with phase := .closed, eventsSet := [] })
  | shutdownEmpty (t : ℕ) (hphase : (s.commands t).phase = .idle) (hmutex : s.mutex = none)
      (hempty : s.mEvents = []) : SctpStep asserts s (.shutdown t) s
  | shutdownLock (t : ℕ) (d : SEventData) (rest : List SEventData) (evt : ℕ)
      (hphase : (s.commands t).phase = .idle) (hmutex : s.mutex = none)
      (hevents : s.mEvents = d :: rest) (hevent : d.event = some evt) :
    SctpStep asserts s (.shutdown t)
      { s.setPhase t (.destroying evt (.shutdown rest)) with mutex := some (.command t) }
  | destroyRequest (t evt : ℕ) (caller : DestroyCaller) (core : EventParties)
      (hphase : (s.commands t).phase = .destroying evt caller)
      (hcore : EventStep s.core (.destroyRequest evt) core) (hok : core.phase evt = .requested) :
    SctpStep asserts s (.destroyRequest t) { s with core := core }
  | destroyRefused (t evt : ℕ) (caller : DestroyCaller) (core : EventParties) (s' : SctpEvents)
      (hphase : (s.commands t).phase = .destroying evt caller)
      (hcore : EventStep s.core (.destroyRequest evt) core) (hok : core.phase evt = .failed)
      (hafter : ({ s with core := core } : SctpEvents).afterDestroy t false caller = some s') :
    SctpStep asserts s (.destroyRequest t) s'
  | destroyUnref (t evt : ℕ) (caller : DestroyCaller) (core : EventParties)
      (hphase : (s.commands t).phase = .destroying evt caller)
      (hcore : EventStep s.core (.destroyUnref evt) core) :
    SctpStep asserts s (.destroyUnref t) { s with core := core }
  | destroyWaits (t evt : ℕ) (caller : DestroyCaller) (core : EventParties)
      (hphase : (s.commands t).phase = .destroying evt caller)
      (hcore : EventStep s.core (.destroyPass evt) core) (hwait : core.phase evt = .waiting) :
    SctpStep asserts s (.destroyPass t) { s with core := core }
  | destroyFreed (t evt : ℕ) (caller : DestroyCaller) (core : EventParties) (s' : SctpEvents)
      (hphase : (s.commands t).phase = .destroying evt caller)
      (hcore : EventStep s.core (.destroyPass evt) core) (hfreed : core.phase evt = .freed)
      (hafter : ({ s with core := core } : SctpEvents).afterDestroy t true caller = some s') :
    SctpStep asserts s (.destroyPass t) s'
  | emitEvents (t : ℕ) (hphase : (s.commands t).phase = .idle) :
    SctpStep asserts s (.emitEvents t) (s.setCommand t { s.commands t with
      sent := (s.commands t).sent ++ [((s.commands t).sendEventsCount, (s.commands t).sendData)]
      sendData := [], sendEventsCount := 0 })
  | emit (el : ScAddr) (access : ScAccessLevels) (type : ScEventType) (edge other : ScAddr)
      (core : EventParties) (hcore : EventStep s.core (.emit el access type edge other) core) :
    SctpStep asserts s (.emit el access type edge other) { s with core := core }
  | notifyDeleted (el : ScAddr) (core : EventParties)
      (hcore : EventStep s.core (.notifyDeleted el) core) :
    SctpStep asserts s (.notifyDeleted el) { s with core := core }
  -- the worker reads the callback of the event
  | workerStart (i : ℕ) (job : EventJob) (e : ScEvent) (core : EventParties)
      (hjob : s.core.ev.queue[i]? = some job) (hfind : s.core.ev.find job.event = some e)
      (hcore : EventStep s.core (.workerStart i) core) :
    SctpStep asserts s (.workerStart i)
      { s with
        core := core
        callbacks := s.callbacks ++ [if e.callback = none then .returned else .entered] }
  | callbackLock (i : ℕ) (hcallback : s.callbacks[i]? = some .entered) (hmutex : s.mutex = none) :
    SctpStep asserts s (.callbackLock i)
      { s with callbacks := s.callbacks.set i .locked, mutex := some .callback }
  -- `SC_RESULT_ERROR_INVALID_STATE`
  | callbackMissing (i : ℕ) (job : EventJob) (e : ScEvent)
      (hcallback : s.callbacks[i]? = some .locked) (hjob : s.core.ev.working[i]? = some job)
      (he : s.core.ev.find job.event = some e)
      (hfind : findEvent s.mEvents (s.eventData job.event) = none) :
    SctpStep asserts s (.callbackRun i)
      { s with
        callbacks := s.callbacks.set i .returned, mutex := none
        notified := Function.update s.notified (s.creator job.event)
          (s.notified (s.creator job.event) ++ [noticeOf job e (s.eventData job.event)]) }
  | callbackRun (i : ℕ) (job : EventJob) (e : ScEvent) (d : SEventData)
      (hcallback : s.callbacks[i]? = some .locked) (hjob : s.core.ev.working[i]? = some job)
      (he : s.core.ev.find job.event = some e)
      (hfind : findEvent s.mEvents (s.eventData job.event) = some d)
      (hassert : asserts = true → d.event = some job.event) :
    SctpStep asserts s (.callbackRun i)
      { s.setCommand d.cmd ((s.commands d.cmd).append (noticeOf job e d.id)) with
        callbacks := s.callbacks.set i .returned, mutex := none
        notified := Function.update s.notified (s.creator job.event)
          (s.notified (s.creator job.event) ++ [noticeOf job e (s.eventData job.event)]) }
  | workerFinish (i : ℕ) (core : EventParties) (hcallback : s.callbacks[i]? = some .returned)
      (hcore : EventStep s.core (.workerFinish i) core) :
    SctpStep asserts s (.workerFinish i)
      { s with core := core, callbacks := s.callbacks.eraseIdx i }

/-- The subscriptions are in order, and the callbacks go along with the jobs. -/
structure WorkersOk (s : SctpEvents) : Prop where
  core : EventsOk s.core
  jobs : s.callbacks.length = s.core.ev.working.length

section
variable {asserts : Bool} {s s' : SctpEvents} {action : SctpAction}

theorem afterDestroy_core {t : ℕ} {freed : Bool} {caller : DestroyCaller}
    (h : s.afterDestroy t freed caller = some s') :
    s'.core = s.core ∧ s'.callbacks = s.callbacks := by
  unfold SctpEvents.afterDestroy at h
  split at h
  · cases h
    exact ⟨rfl, rfl⟩
  · cases h
    exact ⟨rfl, rfl⟩
  · cases h
    exact ⟨rfl, rfl⟩
  · obtain ⟨evt, _, rfl⟩ := Option.map_eq_some_iff.mp h
    exact ⟨rfl, rfl⟩

/-- Only the workers change the jobs that are at work. -/
theorem working_outcome {c c' : EventParties} (hs : EventsOk c) {a : EventAction}
    (hstep : EventStep c a c') :
    (∃ i job, a = .workerStart i ∧ c.ev.queue[i]? = some job ∧ c'.phase = c.phase ∧
      c'.ev.working = c.ev.working ++ [job]) ∨
    (∃ i, a = .workerFinish i ∧ c'.phase = c.phase ∧ c'.ev.working = c.ev.working.eraseIdx i) ∨
    ((∀ i, a ≠ .workerStart i ∧ a ≠ .workerFinish i) ∧ c'.ev.working = c.ev.working) := by
  cases event_outcome hs a hstep with
  | workerStart i job hjob => exact Or.inl ⟨i, job, rfl, hjob, rfl, rfl⟩
  | workerFinish i job hjob => exact Or.inr (Or.inl ⟨i, rfl, rfl, rfl⟩)
  | _ => exact Or.inr (Or.inr ⟨fun i => ⟨by simp, by simp⟩, rfl⟩)

/-- A step of the core that is not one of a worker. -/
theorem WorkersOk.core_step (h : WorkersOk s) {a : EventAction} {core : EventParties}
    (hcore : EventStep s.core a core) (ha : ∀ i, a ≠ .workerStart i ∧ a ≠ .workerFinish i)
    (hs' : s'.core = core) (hcallbacks : s'.callbacks = s.callbacks) : WorkersOk s' := by
  subst hs'
  refine ⟨eventStep_ok _ _ _ h.core hcore, ?_⟩
  rcases working_outcome h.core hcore with ⟨i, _, hi, _⟩ | ⟨i, hi, _⟩ | ⟨_, hworking⟩
  · exact absurd hi (ha i).1
  · exact absurd hi (ha i).2
  · rw [hcallbacks, hworking, h.jobs]

theorem workers_step (hs : WorkersOk s) (hstep : SctpStep asserts s action s') : WorkersOk s' := by
  cases hstep with
  | createLock | createNoId | createNull | createFail | createKnown | createDone | destroyLock
  | disconnect | leaveMissing | leaveLock | leaveDone | shutdownLock | emitEvents =>
    exact ⟨hs.core, hs.jobs⟩
  | destroyMissing | shutdownEmpty => exact hs
  | createEvent t type addr l id core hphase hid haddr hcore =>
    exact hs.core_step hcore (by simp) rfl rfl
  | destroyRequest t evt caller core hphase hcore => exact hs.core_step hcore (by simp) rfl rfl
  | destroyRefused t evt caller core s' hphase hcore hok hafter =>
    obtain ⟨hcore', hcallbacks⟩ := afterDestroy_core hafter
    exact hs.core_step hcore (by simp) hcore' hcallbacks
  | destroyUnref t evt caller core hphase hcore => exact hs.core_step hcore (by simp) rfl rfl
  | destroyWaits t evt caller core hphase hcore => exact hs.core_step hcore (by simp) rfl rfl
  | destroyFreed t evt caller core s' hphase hcore hfreed hafter =>
    obtain ⟨hcore', hcallbacks⟩ := afterDestroy_core hafter
    exact hs.core_step hcore (by simp) hcore' hcallbacks
  | emit el access type edge other core hcore => exact hs.core_step hcore (by simp) rfl rfl
  | notifyDeleted el core hcore => exact hs.core_step hcore (by simp) rfl rfl
  | workerStart i job e core hjob hfind hcore =>
    refine ⟨eventStep_ok _ _ _ hs.core hcore, ?_⟩
    rcases working_outcome hs.core hcore with ⟨_, job', _, _, _, hworking⟩ | ⟨_, hi, _⟩ | ⟨hne, _⟩
    · show (s.callbacks ++ _).length = core.ev.working.length
      rw [hworking, List.length_append, List.length_append, hs.jobs]
      rfl
    · cases hi
    · exact absurd rfl (hne i).1
  | callbackLock i | callbackMissing i | callbackRun i =>
    refine ⟨hs.core, ?_⟩
    show (s.callbacks.set i _).length = _
    rw [List.length_set]
    exact hs.jobs
  | workerFinish i core hcallback hcore =>
    obtain ⟨hi, _⟩ := List.getElem?_eq_some_iff.mp hcallback
    refine ⟨eventStep_ok _ _ _ hs.core hcore, ?_⟩
    rcases working_outcome hs.core hcore with ⟨_, _, hx, _⟩ | ⟨j, hx, _, hworking⟩ | ⟨hne, _⟩
    · cases hx
    · cases hx
      show (s.callbacks.eraseIdx i).length = core.ev.working.length
      rw [hworking, List.length_eraseIdx_of_lt hi,
        List.length_eraseIdx_of_lt (by rw [← hs.jobs]; exact hi), hs.jobs]
    · exact absurd rfl (hne i).2

theorem workersOk_empty : WorkersOk SctpEvents.empty := ⟨eventsOk_empty, rfl⟩

end

end ScMachine.Sctp
