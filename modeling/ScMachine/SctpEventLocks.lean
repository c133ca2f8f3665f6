import ScMachine.EventLifetime
import ScMachine.SctpEventManager

/-! `destroyEvent` waits for the callbacks of a subscription under the mutex that they need. -/
namespace ScMachine.Sctp
open ScMachine.Store ScMachine.Runs

section
variable {s s' : EventParties} {action : EventAction} {id : ℕ} {e' : ScEvent}

/-- An event that is being destroyed stays the same but for its counts, and its callback is not set
again. -/
theorem find_back (hs : EventsOk s) (hstep : EventStep s action s') (hphase : s.phase id ≠ .notCalled)
    (he' : s'.ev.find id = some e') :
    ∃ e, s.ev.find id = some e ∧ (e.callback = none → e'.callback = none) := by
  have hmap (f : ScEvent → ScEvent) (hid : ∀ e, (f e).id = e.id)
      (hcallback : ∀ e, e.callback = none → (f e).callback = none)
      (hevents : s'.ev.events = s.ev.events.map f) :
      ∃ e, s.ev.find id = some e ∧ (e.callback = none → e'.callback = none) := by
    unfold ScEvents.find at he'
    rw [hevents, find_map f hid] at he'
    obtain ⟨e, he, rfl⟩ := Option.map_eq_some_iff.mp he'
    exact ⟨e, he, hcallback e⟩
  have hsame (hevents : s'.ev.events = s.ev.events) :
      ∃ e, s.ev.find id = some e ∧ (e.callback = none → e'.callback = none) := by
    unfold ScEvents.find at he'
    rw [hevents] at he'
    exact ⟨e', he', fun h => h⟩
  cases event_outcome hs action hstep with
  | new el type callback levels =>
    -- the new event has a pointer that nobody has destroyed
    have hne : s.ev.nextId ≠ id := fun he => hphase (hs.fresh id (le_of_eq he))
    unfold ScEvents.find at he' ⊢
    rw [List.find?_append, List.find?_cons_of_neg (by simpa using hne), List.find?_nil,
      Option.or_none] at he'
    exact ⟨e', he', fun h => h⟩
  | emit el access type edge other hroom =>
    apply hmap _ _ _ rfl
    · intro e
      split_ifs <;> rfl
    · intro e he
      split_ifs <;> exact he
  | notifyDeleted el =>
    apply hmap _ _ _ rfl
    · intro e
      split_ifs <;> rfl
    · intro e he
      split_ifs <;> exact he
  | workerStart i job hjob => exact hsame rfl
  | workerFinish i job hjob =>
    apply hmap _ _ _ rfl
    · intro e
      split_ifs <;> rfl
    · intro e he
      split_ifs <;> exact he
  | destroyMarked => exact hsame rfl
  | destroyClosed =>
    apply hmap _ _ _ rfl
    · intro e
      split_ifs <;> rfl
    · intro e he
      split_ifs
      · rfl
      · exact he
  | destroyUnref =>
    apply hmap _ _ _ rfl
    · intro e
      split_ifs <;> rfl
    · intro e he
      split_ifs <;> exact he
  | destroyWaits => exact hsame rfl
  | destroyFreed x e hx he hfree =>
    unfold ScEvents.find at he' ⊢
    rw [find_eraseP _ hs.nodup] at he'
    split_ifs at he'
    exact ⟨e', he', fun h => h⟩
  | stopProcessing => exact hsame rfl

/-- Of an event that is being destroyed no job is queued that would call its callback. -/
def Silent (s : EventParties) : Prop :=
  ∀ id e, s.phase id ≠ .notCalled → s.ev.find id = some e →
    e.callback = none ∨ s.ev.queuedFor id = []

/-- An event whose element has been deleted keeps its callback, so nothing may be queued for it. -/
def QuietAction (s : EventParties) : EventAction → Prop
  | .destroyRequest id => ∀ e, s.ev.find id = some e → e.requestDestroy = true → s.ev.queuedFor id = []
  | _ => True

theorem silent_step (hs : EventsOk s) (hsilent : Silent s) (hstep : EventStep s action s')
    (hquiet : QuietAction s action) : Silent s' := by
  intro id e' hphase he'
  by_cases hold : s.phase id = .notCalled
  · -- the step is the request to destroy this event
    cases event_outcome hs action hstep with
    | destroyMarked x e hx he hflag =>
      have hid : x = id := by
        by_contra hne
        exact hphase ((Function.update_of_ne (Ne.symm hne) _ _).trans hold)
      subst hid
      exact Or.inr (hquiet e he hflag)
    | destroyClosed x e entries hx he hflag htable =>
      have hid : x = id := by
        by_contra hne
        exact hphase ((Function.update_of_ne (Ne.symm hne) _ _).trans hold)
      subst hid
      left
      have hclosed : (s.ev.closed x).find x = some e' := he'
      unfold ScEvents.closed ScEvents.find at hclosed
      dsimp only at hclosed
      rw [find_map _ (fun e => by split_ifs <;> rfl), he, Option.map_some, Option.some.injEq,
        if_pos (find_id he)] at hclosed
      rw [← hclosed]
    | destroyUnref x hx =>
      exfalso
      by_cases hid : id = x
      · rw [hid, hx] at hold
        cases hold
      · exact hphase ((Function.update_of_ne hid _ _).trans hold)
    | destroyFreed x e hx he hfree =>
      exfalso
      by_cases hid : id = x
      · rw [hid, hx] at hold
        cases hold
      · exact hphase ((Function.update_of_ne hid _ _).trans hold)
    | _ => exact absurd hold hphase
  · obtain ⟨e, he, hcallback⟩ := find_back hs hstep hold he'
    rcases hsilent id e hold he with hnone | hqueue
    · exact Or.inl (hcallback hnone)
    · right
      have hsub := @queued_sublist s s' id hs action hstep fun e he => hs.requested id e he hold
      rw [hqueue] at hsub
      exact List.sublist_nil.mp hsub

end

section
variable {asserts : Bool} {s s' : SctpEvents} {action : SctpAction} {evt : ℕ}

/-- A worker is in the callback of the event, before the lock of the mutex. -/
def BlockedCallback (s : SctpEvents) (evt : ℕ) : Prop :=
  ∃ (i : ℕ) (job : EventJob), s.callbacks[i]? = some .entered ∧ s.core.ev.working[i]? = some job ∧
    job.event = evt

/-- The thread is in the loop of `sc_event_destroy`. -/
def WaitsFor (s : SctpEvents) (t evt : ℕ) : Prop :=
  ∃ caller, (s.commands t).phase = .destroying evt caller ∧ s.core.phase evt = .waiting

/-- A thread waits for a callback that waits for the mutex of this thread. -/
def Deadlocked (s : SctpEvents) : Prop :=
  ∃ t evt, s.mutex = some (.command t) ∧ WaitsFor s t evt ∧ BlockedCallback s evt

/-- When a thread calls `sc_event_destroy`, no worker is in the callback of the event, and none is to
come there because the element of the event has been deleted. -/
def Careful (s : SctpEvents) : SctpAction → Prop
  | .destroyRequest t => ∀ evt caller, (s.commands t).phase = .destroying evt caller →
    ¬ BlockedCallback s evt ∧ ∀ e, s.core.ev.find evt = some e → e.requestDestroy = true →
      s.core.ev.queuedFor evt = []
  | _ => True

structure CarefulStep (asserts : Bool) (s : SctpEvents) (action : SctpAction) (s' : SctpEvents) :
    Prop where
  step : SctpStep asserts s action s'
  careful : Careful s action

/-- An event that is being destroyed is neither in a callback nor on the way to one. -/
structure LocksOk (s : SctpEvents) : Prop where
  workers : WorkersOk s
  silent : Silent s.core
  free : ∀ evt, s.core.phase evt ≠ .notCalled → ¬ BlockedCallback s evt

theorem LocksOk.not_deadlocked (h : LocksOk s) : ¬ Deadlocked s := by
  rintro ⟨t, evt, _, ⟨caller, _, hphase⟩, hblocked⟩
  exact h.free evt (by simp [hphase]) hblocked

/-- A step that leaves the subscriptions and the workers alone. -/
theorem LocksOk.same (h : LocksOk s) (hw : WorkersOk s') (hcore : s'.core = s.core)
    (hcallbacks : s'.callbacks = s.callbacks) : LocksOk s' := by
  refine ⟨hw, hcore ▸ h.silent, ?_⟩
  intro evt hphase hblocked
  unfold BlockedCallback at hblocked
  rw [hcallbacks, hcore] at hblocked
  exact h.free evt (by rw [← hcore]; exact hphase) hblocked

/-- A step of the core that is not one of a worker. -/
theorem LocksOk.core_step {a : EventAction} {core : EventParties} (h : LocksOk s) (hw : WorkersOk s')
    (hcore : EventStep s.core a core) (ha : ∀ i, a ≠ .workerStart i ∧ a ≠ .workerFinish i)
    (hs' : s'.core = core) (hcallbacks : s'.callbacks = s.callbacks) (hquiet : QuietAction s.core a)
    (hfree : ∀ id, a = .destroyRequest id → ¬ BlockedCallback s id) : LocksOk s' := by
  subst hs'
  refine ⟨hw, silent_step h.workers.core h.silent hcore hquiet, ?_⟩
  intro evt hphase hblocked
  have hworking : s'.core.ev.working = s.core.ev.working := by
    rcases working_outcome h.workers.core hcore with ⟨i, _, hi, _⟩ | ⟨i, hi, _⟩ | ⟨_, hworking⟩
    · exact absurd hi (ha i).1
    · exact absurd hi (ha i).2
    · exact hworking
  have hold : BlockedCallback s evt := by
    unfold BlockedCallback at hblocked ⊢
    rw [hcallbacks, hworking] at hblocked
    exact hblocked
  by_cases hcalled : s.core.phase evt = .notCalled
  · -- the phase has changed, so the step is the request
    have hset (x : ℕ) (phase : DestroyPhase)
        (hne : Function.update s.core.phase x phase evt ≠ .notCalled) : evt = x := by
      by_contra hx
      exact hne ((Function.update_of_ne hx _ _).trans hcalled)
    have hreq : a = .destroyRequest evt := by
      generalize hc : s'.core = core at hcore hphase
      cases event_outcome h.workers.core a hcore with
      | destroyMarked x => rw [hset x _ hphase]
      | destroyClosed x => rw [hset x _ hphase]
      | destroyUnref x hx =>
        rw [← hset x _ hphase, hcalled] at hx
        cases hx
      | destroyFreed x e hx =>
        rw [← hset x _ hphase, hcalled] at hx
        cases hx
      | _ => exact absurd hcalled hphase
    exact hfree evt hreq hold
  · exact h.free evt hcalled hold

/-- The job that a worker has begun: its callback is entered when the event still has one. -/
theorem LocksOk.started (h : LocksOk s) {i : ℕ} {job : EventJob} {e : ScEvent} {core : EventParties}
    (hjob : s.core.ev.queue[i]? = some job) (hfind : s.core.ev.find job.event = some e)
    (hcore : EventStep s.core (.workerStart i) core) (hw : WorkersOk { s with
      core := core, callbacks := s.callbacks ++ [if e.callback = none then .returned else .entered] }) :
    LocksOk { s with
      core := core, callbacks := s.callbacks ++ [if e.callback = none then .returned else .entered] } := by
  refine ⟨hw, silent_step h.workers.core h.silent hcore trivial, ?_⟩
  rintro evt hphase ⟨j, job', hentered, hjob', hevt⟩
  change core.phase evt ≠ .notCalled at hphase
  change (s.callbacks ++ _)[j]? = _ at hentered
  change core.ev.working[j]? = some job' at hjob'
  rcases working_outcome h.workers.core hcore with ⟨_, job1, hi, hjob1, hsame, hworking⟩ | ⟨_, hi, _⟩ |
    ⟨hne, _⟩
  · cases hi
    rw [hjob, Option.some.injEq] at hjob1
    subst hjob1
    rw [hsame] at hphase
    rw [hworking] at hjob'
    by_cases hj : j < s.callbacks.length
    · rw [List.getElem?_append_left hj] at hentered
      rw [List.getElem?_append_left (by rw [← h.workers.jobs]; exact hj)] at hjob'
      exact h.free evt hphase ⟨j, job', hentered, hjob', hevt⟩
    · -- the new job: it was queued, so the event has no callback
      rw [List.getElem?_append_right (by omega)] at hentered
      rw [List.getElem?_append_right (by rw [← h.workers.jobs]; omega)] at hjob'
      have hmem : job' ∈ [job] := List.mem_of_getElem? hjob'
      rw [List.mem_singleton] at hmem
      subst hmem
      have hcallback : e.callback = none := by
        rw [hevt] at hfind
        rcases h.silent evt e hphase hfind with hnone | hqueue
        · exact hnone
        · have hin : job' ∈ s.core.ev.queuedFor evt :=
            List.mem_filter.mpr ⟨List.mem_of_getElem? hjob, decide_eq_true hevt⟩
          rw [hqueue] at hin
          cases hin
      rw [if_pos hcallback] at hentered
      have hlast := List.mem_of_getElem? hentered
      rw [List.mem_singleton] at hlast
      cases hlast
  · cases hi
  · exact absurd rfl (hne i).1

/-- A callback goes on. -/
theorem LocksOk.moved (h : LocksOk s) (hw : WorkersOk s') (i : ℕ) {phase : CallbackPhase}
    (hphase : phase ≠ .entered) (hcore : s'.core = s.core)
    (hcallbacks : s'.callbacks = s.callbacks.set i phase) : LocksOk s' := by
  refine ⟨hw, hcore ▸ h.silent, ?_⟩
  rintro evt hcalled ⟨j, job, hentered, hjob, hevt⟩
  rw [hcore] at hcalled hjob
  rw [hcallbacks, List.getElem?_set] at hentered
  split_ifs at hentered
  · exact hphase (Option.some.inj hentered)
  · exact h.free evt hcalled ⟨j, job, hentered, hjob, hevt⟩

theorem LocksOk.finished (h : LocksOk s) {i : ℕ} {core : EventParties}
    (hcore : EventStep s.core (.workerFinish i) core)
    (hw : WorkersOk { s with core := core, callbacks := s.callbacks.eraseIdx i }) :
    LocksOk { s with core := core, callbacks := s.callbacks.eraseIdx i } := by
  refine ⟨hw, silent_step h.workers.core h.silent hcore trivial, ?_⟩
  rintro evt hphase ⟨j, job, hentered, hjob, hevt⟩
  change core.phase evt ≠ .notCalled at hphase
  change (s.callbacks.eraseIdx i)[j]? = _ at hentered
  change core.ev.working[j]? = some job at hjob
  rcases working_outcome h.workers.core hcore with ⟨_, _, hi, _⟩ | ⟨_, hi, hsame, hworking⟩ | ⟨hne, _⟩
  · cases hi
  · cases hi
    rw [hsame] at hphase
    rw [hworking] at hjob
    rw [List.getElem?_eraseIdx] at hentered hjob
    split_ifs at hentered hjob
    · exact h.free evt hphase ⟨j, job, hentered, hjob, hevt⟩
    · exact h.free evt hphase ⟨j+1, job, hentered, hjob, hevt⟩
  · exact absurd rfl (hne i).2

theorem locks_step (hs : LocksOk s) (hstep : CarefulStep asserts s action s') : LocksOk s' := by
  have hw := workers_step hs.workers hstep.step
  have hcareful := hstep.careful
  cases hstep.step with
  | createLock | createNoId | createNull | createFail | createKnown | createDone | destroyLock
  | disconnect | leaveMissing | leaveLock | leaveDone | shutdownLock | emitEvents =>
    exact hs.same hw rfl rfl
  | destroyMissing | shutdownEmpty => exact hs
  | createEvent t type addr l id core hphase hid haddr hcore =>
    exact hs.core_step hw hcore (by simp) rfl rfl trivial (by simp)
  | destroyRequest t evt caller core hphase hcore hok =>
    obtain ⟨hblocked, hquiet⟩ := hcareful evt caller hphase
    refine hs.core_step hw hcore (by simp) rfl rfl hquiet ?_
    intro id hid
    cases hid
    exact hblocked
  | destroyRefused t evt caller core s' hphase hcore hok hafter =>
    exact absurd hok ((eventStep_ok _ _ _ hs.workers.core hcore).noFail evt)
  | destroyUnref t evt caller core hphase hcore =>
    exact hs.core_step hw hcore (by simp) rfl rfl trivial (by simp)
  | destroyWaits t evt caller core hphase hcore hwait =>
    exact hs.core_step hw hcore (by simp) rfl rfl trivial (by simp)
  | destroyFreed t evt caller core s' hphase hcore hfreed hafter =>
    obtain ⟨hcore', hcallbacks⟩ := afterDestroy_core hafter
    exact hs.core_step hw hcore (by simp) hcore' hcallbacks trivial (by simp)
  | emit el access type edge other core hcore =>
    exact hs.core_step hw hcore (by simp) rfl rfl trivial (by simp)
  | notifyDeleted el core hcore =>
    exact hs.core_step hw hcore (by simp) rfl rfl trivial (by simp)
  | workerStart i job e core hjob hfind hcore => exact hs.started hjob hfind hcore hw
  | callbackLock i => exact hs.moved hw i (by simp) rfl rfl
  | callbackMissing i => exact hs.moved hw i (by simp) rfl rfl
  | callbackRun i => exact hs.moved hw i (by simp) rfl rfl
  | workerFinish i core hcallback hcore => exact hs.finished hcore hw

theorem locksOk_empty : LocksOk SctpEvents.empty := by
  refine ⟨workersOk_empty, ?_, ?_⟩
  · intro id e hphase
    exact absurd rfl hphase
  · intro evt hphase
    exact absurd rfl hphase

/-- In every run in which `sc_event_destroy` is called only while no callback of the subscription is on
its way to the mutex, no thread waits for a callback that waits for it. -/
theorem careful_not_deadlocked (actions : List SctpAction)
    (hr : Run (CarefulStep asserts) SctpEvents.empty actions s) : ¬ Deadlocked s :=
  (run_invariant LocksOk (fun _ _ _ => locks_step) actions _ s locksOk_empty hr).not_deadlocked

end

/-- A client subscribes, is told of an arc, and unsubscribes. -/
def toldActions : List SctpAction :=
  [.createLock 0 .addOutputArc ⟨0, 1⟩, .createEvent 0 (some 0xff), .createReply 0,
    .emit ⟨0, 1⟩ 0xff .addOutputArc ⟨0, 2⟩ ⟨0, 3⟩, .workerStart 0, .callbackLock 0, .callbackRun 0,
    .workerFinish 0, .destroyEvent 0 2, .destroyRequest 0, .destroyUnref 0, .destroyPass 0]

theorem told_run_not_deadlocked :
    ∃ s, Run (CarefulStep true) SctpEvents.empty toldActions s ∧ ¬ Deadlocked s := by
  have hrun : ∃ s, Run (CarefulStep true) SctpEvents.empty toldActions s := by
    refine ⟨_, _, ⟨.createLock 0 _ _ rfl rfl, trivial⟩,
      _, ⟨.createEvent 0 _ _ _ 2 _ rfl rfl (by decide) ⟨trivial, rfl⟩ (fun _ => rfl), trivial⟩,
      _, ⟨.createDone 0 2 rfl (by decide), trivial⟩, _, ⟨.emit _ _ _ _ _ _ ⟨trivial, rfl⟩, trivial⟩,
      _, ⟨.workerStart 0 _ _ _ rfl rfl ⟨by decide, rfl⟩, trivial⟩,
      _, ⟨.callbackLock 0 rfl rfl, trivial⟩,
      _, ⟨.callbackRun 0 _ _ _ rfl rfl rfl rfl (fun _ => rfl), trivial⟩,
      _, ⟨.workerFinish 0 _ rfl ⟨by decide, rfl⟩, trivial⟩,
      _, ⟨.destroyLock 0 2 _ _ rfl rfl rfl rfl, trivial⟩,
      _, ⟨.destroyRequest 0 _ _ _ rfl ⟨by decide, rfl⟩ rfl, ?_⟩,
      _, ⟨.destroyUnref 0 _ _ _ rfl ⟨rfl, rfl⟩, trivial⟩,
      _, ⟨.destroyFreed 0 _ _ _ _ rfl ⟨rfl, rfl⟩ rfl rfl, trivial⟩, rfl⟩
    -- no worker is at work and nothing is queued
    rintro evt caller _
    refine ⟨?_, fun _ _ _ => rfl⟩
    rintro ⟨i, job, hentered, _⟩
    cases i <;> cases hentered
  obtain ⟨s, hr⟩ := hrun
  exact ⟨s, hr, careful_not_deadlocked toldActions hr⟩

/-- The callback has begun when the client unsubscribes. -/
theorem destroy_deadlocks : ¬ ∀ (asserts : Bool) (actions : List SctpAction) (s : SctpEvents),
    Run (SctpStep asserts) SctpEvents.empty actions s → ¬ Deadlocked s := by
  intro hall
  have hrun : ∃ s, Run (SctpStep true) SctpEvents.empty
      [.createLock 0 .addOutputArc ⟨0, 1⟩, .createEvent 0 (some 0xff), .createReply 0,
        .emit ⟨0, 1⟩ 0xff .addOutputArc ⟨0, 2⟩ ⟨0, 3⟩, .workerStart 0, .destroyEvent 0 2,
        .destroyRequest 0, .destroyUnref 0] s ∧ Deadlocked s := by
    refine ⟨_, ⟨_, .createLock 0 _ _ rfl rfl,
      _, .createEvent 0 _ _ _ 2 _ rfl rfl (by decide) ⟨trivial, rfl⟩ (fun _ => rfl),
      _, .createDone 0 2 rfl (by decide), _, .emit _ _ _ _ _ _ ⟨trivial, rfl⟩,
      _, .workerStart 0 _ _ _ rfl rfl ⟨by decide, rfl⟩, _, .destroyLock 0 2 _ _ rfl rfl rfl rfl,
      _, .destroyRequest 0 _ _ _ rfl ⟨by decide, rfl⟩ rfl, _, .destroyUnref 0 _ _ _ rfl ⟨rfl, rfl⟩, rfl⟩,
      ?_⟩
    exact ⟨0, 0, rfl, ⟨_, rfl, rfl⟩, 0, _, rfl, rfl, rfl⟩
  obtain ⟨s, hr, hdead⟩ := hrun
  exact hall true _ s hr hdead

end ScMachine.Sctp
