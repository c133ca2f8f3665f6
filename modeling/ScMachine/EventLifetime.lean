import ScMachine.EventReferences

/-! How long events live: the count lets `sc_event_destroy` come to its end once the jobs are done,
and nothing can reach an event that it has freed. -/
namespace ScMachine.Store
open ScMachine.StateExcept ScMachine.Runs

/-- What a region follows a pointer to. -/
def EventAction.RefersTo (s : EventParties) : EventAction → ℕ → Prop
  | .emit el _ _ _ _, id | .notifyDeleted el, id => id ∈ s.ev.listOf el
  | .workerStart i, id => ∃ job, s.ev.queue[i]? = some job ∧ job.event = id
  | .workerFinish i, id => ∃ job, s.ev.working[i]? = some job ∧ job.event = id
  | .destroyRequest x, id | .destroyUnref x, id | .destroyPass x, id => x = id
  | .new _ _ _ _, _ | .stopProcessing, _ => False

/-- No list of the table and no job has the event. -/
structure Unreachable (s : EventParties) (id : ℕ) : Prop where
  table : ∀ entries, s.ev.table = some entries → ∀ p ∈ entries, p.2 ≠ id
  jobs : ∀ job ∈ s.ev.queue ++ s.ev.working, job.event ≠ id

section
variable {s s' : EventParties} {e : ScEvent} {id : ℕ}

/-! `sc_event_destroy` without jobs. -/

theorem destroy_from_waiting (h : EventsOk s ∧ Accounted s) (he : (s.ev.find id).isSome = true)
    (hphase : s.phase id = .waiting) (hjobs : s.ev.jobs id = 0) :
    ∃ s', Run EventStep s [.destroyPass id] s' ∧ s'.phase id = .freed := by
  obtain ⟨e, he⟩ := Option.isSome_iff_exists.mp he
  obtain ⟨s', hstep, hfreed⟩ := destroyPass_step h.1 h.2 he hphase hjobs
  exact ⟨s', ⟨s', hstep, rfl⟩, hfreed⟩

theorem destroy_from_requested (h : EventsOk s ∧ Accounted s) (he : (s.ev.find id).isSome = true)
    (hphase : s.phase id = .requested) (hjobs : s.ev.jobs id = 0) :
    ∃ s', Run EventStep s [.destroyUnref id, .destroyPass id] s' ∧ s'.phase id = .freed := by
  obtain ⟨s1, hstep, hphase1, hjobs1, hsome⟩ := destroyUnref_step hphase
  have h1 := accounted_step s _ s1 h ⟨hstep, rfl⟩
  rw [he] at hsome
  obtain ⟨s', hrun, hfreed⟩ := destroy_from_waiting h1 hsome hphase1 (hjobs1.trans hjobs)
  exact ⟨s', ⟨s1, hstep, hrun⟩, hfreed⟩

theorem destroy_from_start (h : EventsOk s ∧ Accounted s) (he : s.ev.find id = some e)
    (hphase : s.phase id = .notCalled) (hjobs : s.ev.jobs id = 0) :
    ∃ s', Run EventStep s [.destroyRequest id, .destroyUnref id, .destroyPass id] s' ∧
      s'.phase id = .freed := by
  obtain ⟨s1, hstep, hphase1, hjobs1, hsome⟩ := destroyRequest_step h.1 he hphase
  have h1 := accounted_step s _ s1 h ⟨hstep, rfl⟩
  obtain ⟨s', hrun, hfreed⟩ := destroy_from_requested h1 hsome hphase1 (hjobs1.trans hjobs)
  exact ⟨s', ⟨s1, hstep, hrun⟩, hfreed⟩

/-! Runs on given actions. -/

def eventsAfter : List EventAction → EventParties → EventParties
  | [], s => s
  | action :: actions, s =>
    match action.run s with
    | .ok (_, s') => eventsAfter actions s'
    | .error _ => eventsAfter actions s

/-- Whether the actions are a run; `strict` asks for no refused job besides. -/
def eventActions (strict : Bool) : List EventAction → EventParties → Bool
  | [], _ => true
  | action :: actions, s => decide (action.Allowed s) && (!strict || action.refused s == []) &&
      match action.run s with
      | .ok (_, s') => eventActions strict actions s'
      | .error _ => false

theorem eventRun_of_actions (actions : List EventAction) (s : EventParties)
    (h : eventActions false actions s = true) :
    Run EventStep s actions (eventsAfter actions s) := by
  induction actions generalizing s with
  | nil => rfl
  | cons action actions ih =>
    unfold eventActions at h
    simp only [Bool.and_eq_true, decide_eq_true_eq] at h
    unfold eventsAfter
    cases hs : action.run s with
    | error stop =>
      rw [hs] at h
      exact absurd h.2 Bool.false_ne_true
    | ok p =>
      rw [hs] at h
      exact ⟨p.2, ⟨h.1.1, hs⟩, ih p.2 h.2⟩

theorem accountedRun_of_actions (actions : List EventAction) (s : EventParties)
    (h : eventActions true actions s = true) :
    Run AccountedStep s actions (eventsAfter actions s) := by
  induction actions generalizing s with
  | nil => rfl
  | cons action actions ih =>
    unfold eventActions at h
    simp only [Bool.and_eq_true, decide_eq_true_eq, Bool.not_true, Bool.false_or, beq_iff_eq] at h
    unfold eventsAfter
    cases hs : action.run s with
    | error stop =>
      rw [hs] at h
      exact absurd h.2 Bool.false_ne_true
    | ok p =>
      rw [hs] at h
      exact ⟨p.2, ⟨⟨h.1.1, hs⟩, h.1.2⟩, ih p.2 h.2⟩

/-! The count. -/

/-- In every run in which no event accepts an emission after the processing has been stopped, the
count of every event is that of its owner and its jobs, and without jobs the owner can go through
with `sc_event_destroy`. -/
theorem event_count_accounted (actions : List EventAction) (s : EventParties)
    (hr : Run AccountedStep EventParties.empty actions s) (id : ℕ) (e : ScEvent)
    (he : s.ev.find id = some e) :
    e.refs = (s.phase id).refs+s.ev.jobs id ∧
      (s.ev.jobs id = 0 → ∃ rest s', Run EventStep s rest s' ∧
        (∀ action ∈ rest, action ∈ [EventAction.destroyRequest id, .destroyUnref id,
          .destroyPass id]) ∧ s'.phase id = .freed) := by
  have hstart : EventsOk EventParties.empty ∧ Accounted EventParties.empty := by
    refine ⟨eventsOk_empty, ?_⟩
    intro id e he
    simp [EventParties.empty, ScEvents.empty, ScEvents.find] at he
  have h := run_invariant _ accounted_step actions _ s hstart hr
  refine ⟨h.2 id e he, ?_⟩
  intro hjobs
  have hsome : (s.ev.find id).isSome = true := by rw [he]; rfl
  cases hphase : s.phase id with
  | notCalled =>
    obtain ⟨s', hrun, hfreed⟩ := destroy_from_start h he hphase hjobs
    exact ⟨_, s', hrun, fun _ ha => ha, hfreed⟩
  | requested =>
    obtain ⟨s', hrun, hfreed⟩ := destroy_from_requested h hsome hphase hjobs
    exact ⟨_, s', hrun, fun _ ha => List.mem_cons_of_mem _ ha, hfreed⟩
  | waiting =>
    obtain ⟨s', hrun, hfreed⟩ := destroy_from_waiting h hsome hphase hjobs
    refine ⟨_, s', hrun, fun _ ha => ?_, hfreed⟩
    exact List.mem_cons_of_mem _ (List.mem_cons_of_mem _ ha)
  | freed => exact absurd hphase ((h.1.alive id).mp hsome).2
  | failed => exact absurd hphase (h.1.noFail id)

def newEventAction : EventAction := .new ⟨0, 1⟩ .addOutputArc .simple 0xff

def emitAction : EventAction := .emit ⟨0, 1⟩ 0xff .addOutputArc ⟨0, 65⟩ ⟨0, 33⟩

/-- One job is running, one is queued. -/
def busyActions : List EventAction := [newEventAction, emitAction, .workerStart 0, emitAction]

/-- The event `0` after some actions. -/
def eventZero (s : EventParties) : ScEvent :=
  (s.ev.find 0).getD ⟨0, ScAddr.empty, .addOutputArc, none, 0, 0⟩

theorem find_eventZero (h : (s.ev.find 0).isSome = true) : s.ev.find 0 = some (eventZero s) := by
  obtain ⟨e, he⟩ := Option.isSome_iff_exists.mp h
  unfold eventZero
  rw [he]
  rfl

theorem event_count_accounted_busy :
    (eventsAfter busyActions EventParties.empty).ev.jobs 0 = 2 ∧
      (eventZero (eventsAfter busyActions EventParties.empty)).refs =
        ((eventsAfter busyActions EventParties.empty).phase 0).refs+
          (eventsAfter busyActions EventParties.empty).ev.jobs 0 := by
  have hfind : (eventsAfter busyActions EventParties.empty).ev.find 0 =
      some (eventZero (eventsAfter busyActions EventParties.empty)) := by
    apply find_eventZero
    decide +kernel
  refine ⟨by decide +kernel, ?_⟩
  exact (event_count_accounted busyActions _ (accountedRun_of_actions _ _ (by decide +kernel)) 0 _
    hfind).1

/-- An emission after the processing has been stopped: the count is raised and no job is queued. -/
def stoppedActions : List EventAction :=
  [newEventAction, .stopProcessing, emitAction, .destroyRequest 0, .destroyUnref 0]

/-- The owner waits for a job that does not exist, and goes on waiting. -/
theorem destroy_waits_forever :
    Run EventStep EventParties.empty stoppedActions (eventsAfter stoppedActions EventParties.empty) ∧
      (eventsAfter stoppedActions EventParties.empty).ev.find 0 =
        some (eventZero (eventsAfter stoppedActions EventParties.empty)) ∧
      (eventZero (eventsAfter stoppedActions EventParties.empty)).refs = 1 ∧
      ((eventsAfter stoppedActions EventParties.empty).phase 0).refs = 0 ∧
      (eventsAfter stoppedActions EventParties.empty).ev.jobs 0 = 0 ∧
      ∀ s', EventStep (eventsAfter stoppedActions EventParties.empty) (.destroyPass 0) s' →
        s' = eventsAfter stoppedActions EventParties.empty := by
  have hfind : (eventsAfter stoppedActions EventParties.empty).ev.find 0 =
      some (eventZero (eventsAfter stoppedActions EventParties.empty)) := by
    apply find_eventZero
    decide +kernel
  have hcount : (eventZero (eventsAfter stoppedActions EventParties.empty)).refCount ≠
      scEventRequestDestroy := by decide +kernel
  refine ⟨eventRun_of_actions _ _ (by decide +kernel), hfind, by decide +kernel, by decide +kernel,
    by decide +kernel, ?_⟩
  generalize eventsAfter stoppedActions EventParties.empty = s at hfind hcount
  intro s' hstep
  have hrun : IfReturns (EventAction.destroyPass 0).run (fun _ s' => s' = s) s := by
    unfold EventAction.run
    rw [IfReturns, wp_bind, wp_onEvents]
    apply wp_mono (destroyPass_spec 0) _ (fun _ _ => trivial)
    rintro r ev' ⟨e, he, hcases⟩
    rw [hfind, Option.some.injEq] at he
    rw [he] at hcount
    rcases hcases with ⟨hfree, _⟩ | ⟨_, rfl, rfl⟩
    · exact absurd hfree hcount
    · rfl
  exact wp_ok (Q := fun _ s' => s' = s) hrun hstep.step

/-! What is left of an event that has been freed. -/

/-- The pointers that a region follows are to events that exist. -/
theorem refersTo_find (hs : EventsOk s) (action : EventAction) (ha : action.Allowed s)
    (href : action.RefersTo s id) : (s.ev.find id).isSome = true := by
  have hlist (el : ScAddr) (hid : id ∈ s.ev.listOf el) : (s.ev.find id).isSome = true := by
    obtain ⟨e, he, _⟩ := listOf_find hs hid
    rw [he]
    rfl
  have hcalled (hphase : s.phase id ≠ .notCalled) (hfreed : s.phase id ≠ .freed) :
      (s.ev.find id).isSome = true := by
    apply (hs.alive id).mpr
    refine ⟨?_, hfreed⟩
    by_contra hge
    exact hphase (hs.fresh id (by omega))
  cases action with
  | new el type callback levels => exact href.elim
  | emit el access type edge other => exact hlist el href
  | notifyDeleted el => exact hlist el href
  | workerStart i =>
    obtain ⟨job, hjob, rfl⟩ := href
    exact hs.jobs job (List.mem_append_left _ (List.mem_of_getElem? hjob))
  | workerFinish i =>
    obtain ⟨job, hjob, rfl⟩ := href
    exact hs.jobs job (List.mem_append_right _ (List.mem_of_getElem? hjob))
  | destroyRequest x =>
    obtain rfl : x = id := href
    have hphase : s.phase x = .notCalled := ha.2
    exact (hs.alive x).mpr ⟨ha.1, by simp [hphase]⟩
  | destroyUnref x =>
    obtain rfl : x = id := href
    have hphase : s.phase x = .requested := ha
    exact hcalled (by simp [hphase]) (by simp [hphase])
  | destroyPass x =>
    obtain rfl : x = id := href
    have hphase : s.phase x = .waiting := ha
    exact hcalled (by simp [hphase]) (by simp [hphase])
  | stopProcessing => exact href.elim

theorem unreachable_of_none (hs : EventsOk s) (hnone : s.ev.find id = none) : Unreachable s id := by
  constructor
  · intro entries htable p hp hid
    obtain ⟨e, he, _⟩ := hs.entry entries htable p hp
    rw [hid, hnone] at he
    simp at he
  · intro job hjob hid
    have hsome := hs.jobs job hjob
    rw [hid, hnone] at hsome
    simp at hsome

/-- The phase of an event goes forwards, and it ends with `freed`. -/
theorem step_phase {action : EventAction} (hstep : EventStep s action s') (id : ℕ) :
    s'.phase id = s.phase id ∨ (s.phase id ≠ .freed ∧ s'.phase id ≠ .notCalled) := by
  have hset (x : ℕ) (phase : DestroyPhase) (hold : s.phase x ≠ .freed) (hnew : phase ≠ .notCalled) :
      Function.update s.phase x phase id = s.phase id ∨
        (s.phase id ≠ .freed ∧ Function.update s.phase x phase id ≠ .notCalled) := by
    by_cases hid : id = x
    · rw [hid, Function.update_self]
      exact Or.inr ⟨hold, hnew⟩
    · rw [Function.update_of_ne hid]
      exact Or.inl rfl
  have hother {α : Type} (x : EventM α) :
      IfReturns (onEvents x) (fun _ s' => s'.phase = s.phase) s := by
    rw [IfReturns, wp_onEvents]
    have htrue : IfReturns x (fun _ _ => True) s.ev := ifReturns_of_ok fun _ _ _ => trivial
    exact wp_mono htrue (fun _ _ _ => rfl) (fun _ _ => trivial)
  have hsame (x : EventM Unit) (hrun : action.run = onEvents x) : s'.phase id = s.phase id := by
    have hphase := hother x
    rw [← hrun] at hphase
    have hp := wp_ok (Q := fun _ s' => s'.phase = s.phase) hphase hstep.step
    rw [hp]
  have hrun (x : ℕ) (hx : IfReturns action.run (fun _ s' => s'.phase = s.phase ∨
      ∃ phase, phase ≠ .notCalled ∧ s'.phase = Function.update s.phase x phase) s)
      (hold : s.phase x ≠ .freed) :
      s'.phase id = s.phase id ∨ (s.phase id ≠ .freed ∧ s'.phase id ≠ .notCalled) := by
    rcases wp_ok (Q := fun _ s' => s'.phase = s.phase ∨ ∃ phase, phase ≠ .notCalled ∧
      s'.phase = Function.update s.phase x phase) hx hstep.step with hp | ⟨phase, hnew, hp⟩
    · rw [hp]
      exact Or.inl rfl
    · rw [hp]
      exact hset x phase hold hnew
  have hallowed := hstep.allowed
  cases action with
  | new el type callback levels => exact Or.inl (hsame _ rfl)
  | emit el access type edge other => exact Or.inl (hsame _ rfl)
  | notifyDeleted el => exact Or.inl (hsame _ rfl)
  | workerStart i => exact Or.inl (hsame _ rfl)
  | workerFinish i => exact Or.inl (hsame _ rfl)
  | stopProcessing => exact Or.inl (hsame _ rfl)
  | destroyRequest x =>
    have hphase : s.phase x = .notCalled := hallowed.2
    apply hrun x _ (by simp [hphase])
    unfold EventAction.run
    rw [IfReturns, wp_bind]
    apply wp_mono (hother _) _ (fun _ _ => trivial)
    intro ok s1 hs1
    refine Or.inr ⟨if ok then .requested else .failed, ?_, ?_⟩
    · split_ifs <;> simp
    · dsimp only
      rw [hs1]
  | destroyUnref x =>
    have hphase : s.phase x = .requested := hallowed
    apply hrun x _ (by simp [hphase])
    exact Or.inr ⟨.waiting, by simp, rfl⟩
  | destroyPass x =>
    have hphase : s.phase x = .waiting := hallowed
    apply hrun x _ (by simp [hphase])
    unfold EventAction.run
    rw [IfReturns, wp_bind]
    apply wp_mono (hother _) _ (fun _ _ => trivial)
    intro r s1 hs1
    cases r with
    | none => exact Or.inl hs1
    | some el =>
      refine Or.inr ⟨.freed, by simp, ?_⟩
      dsimp only
      rw [hs1]

/-- What is queued for the event `id`. -/
def ScEvents.queuedFor (ev : ScEvents) (id : ℕ) : List EventJob :=
  ev.queue.filter fun job => job.event = id

/-- Nothing is queued for an event that is being destroyed. -/
theorem queued_sublist (hs : EventsOk s) {action : EventAction} (hstep : EventStep s action s')
    (hflag : ∀ e, s.ev.find id = some e → e.requestDestroy = true) :
    (s'.ev.queuedFor id).Sublist (s.ev.queuedFor id) := by
  cases event_outcome hs action hstep with
  | emit el access type edge other =>
    have hnot : id ∉ s.ev.subscribers el access type := by
      intro hid
      have hany := (List.mem_filter.mp hid).2
      cases he : s.ev.find id with
      | none => simp [he] at hany
      | some e =>
        rw [he, Option.any_some, ScEvent.accepts, hflag e he] at hany
        simp at hany
    have hnone : ((s.ev.subscribers el access type).map fun x =>
        (⟨x, edge, other⟩ : EventJob)).filter (fun job => job.event = id) = [] := by
      rw [List.filter_eq_nil_iff]
      intro job hjob hevent
      obtain ⟨x, hx, rfl⟩ := List.mem_map.mp hjob
      exact hnot (of_decide_eq_true hevent ▸ hx)
    unfold ScEvents.queuedFor ScEvents.raised
    dsimp only
    split_ifs
    · rw [List.filter_append, hnone, List.append_nil]
    · exact List.Sublist.refl _
  | workerStart i job hjob => exact (List.eraseIdx_sublist _ _).filter _
  | _ => exact List.Sublist.refl _

theorem none_of_freed (hs : EventsOk s) (hphase : s.phase id = .freed) : s.ev.find id = none := by
  rw [← Option.not_isSome_iff_eq_none, hs.alive]
  intro ⟨_, hne⟩
  exact hne hphase

/-- At each point of a run, every pointer that a step follows is to an event that exists. Where
`sc_event_destroy` frees an event, it is in no list and in no job, and no later step refers to it.
Once `sc_event_destroy` has set the flag, nothing more is queued for the event. -/
theorem event_freed_unreachable (actions : List EventAction) (s : EventParties)
    (hr : Run EventStep EventParties.empty actions s) :
    (∀ action : EventAction, action.Allowed s → ∀ id, action.RefersTo s id →
        (s.ev.find id).isSome = true) ∧
      (∀ id s', EventStep s (.destroyPass id) s' → s'.phase id = .freed → Unreachable s id ∧
        ∀ later t, Run EventStep s' later t → Unreachable t id ∧ t.ev.find id = none ∧
          ∀ action : EventAction, action.Allowed t → ¬ action.RefersTo t id) ∧
      (∀ id, s.phase id ≠ .notCalled → ∀ action s', EventStep s action s' →
        s'.phase id ≠ .notCalled ∧ (s'.ev.queuedFor id).Sublist (s.ev.queuedFor id)) := by
  have hs := eventRun_ok actions s hr
  refine ⟨fun action ha id href => refersTo_find hs action ha href, ?_, ?_⟩
  · intro id s' hstep hfreed
    have hs' := eventStep_ok s _ s' hs hstep
    constructor
    · -- the step leaves the table and the jobs as they are
      have hgone := unreachable_of_none hs' (none_of_freed hs' hfreed)
      have hkept : IfReturns (EventAction.destroyPass id).run (fun _ s' => s'.ev.table = s.ev.table ∧
          s'.ev.queue = s.ev.queue ∧ s'.ev.working = s.ev.working) s := by
        unfold EventAction.run
        rw [IfReturns, wp_bind, wp_onEvents]
        apply wp_mono (destroyPass_spec id) _ (fun _ _ => trivial)
        rintro r ev' ⟨e, _, hcases⟩
        rcases hcases with ⟨_, rfl, rfl⟩ | ⟨_, rfl, rfl⟩
        · exact ⟨rfl, rfl, rfl⟩
        · exact ⟨rfl, rfl, rfl⟩
      obtain ⟨htable, hqueue, hworking⟩ := wp_ok (Q := fun _ s' => s'.ev.table = s.ev.table ∧
        s'.ev.queue = s.ev.queue ∧ s'.ev.working = s.ev.working) hkept hstep.step
      constructor
      · rw [← htable]
        exact hgone.table
      · rw [← hqueue, ← hworking]
        exact hgone.jobs
    · intro later t hlater
      have ht : EventsOk t ∧ t.phase id = .freed := by
        apply run_invariant (fun s => EventsOk s ∧ s.phase id = .freed) _ later s' t ⟨hs', hfreed⟩ hlater
        rintro u action u' ⟨hu, hphase⟩ hustep
        refine ⟨eventStep_ok u action u' hu hustep, ?_⟩
        rcases step_phase hustep id with hp | ⟨hne, _⟩
        · rw [hp]
          exact hphase
        · exact absurd hphase hne
      have hnone := none_of_freed ht.1 ht.2
      refine ⟨unreachable_of_none ht.1 hnone, hnone, fun action ha href => ?_⟩
      have hsome := refersTo_find ht.1 action ha href
      rw [hnone] at hsome
      simp at hsome
  · intro id hphase action s' hstep
    constructor
    · rcases step_phase hstep id with hp | ⟨_, hne⟩
      · rw [hp]
        exact hphase
      · exact hne
    · apply queued_sublist hs hstep
      intro e he
      exact hs.requested id e he hphase

/-- The event is destroyed while a job for it is running, and is freed once that has finished. -/
def destroyActions : List EventAction :=
  [newEventAction, emitAction, .destroyRequest 0, .workerStart 0, .destroyUnref 0, .destroyPass 0,
    .workerFinish 0]

theorem event_freed_unreachable_destroy :
    ((eventsAfter destroyActions EventParties.empty).phase 0 = .waiting ∧
      (eventsAfter [.destroyPass 0] (eventsAfter destroyActions EventParties.empty)).phase 0 = .freed) ∧
      ∀ later t, Run EventStep
        (eventsAfter [.destroyPass 0] (eventsAfter destroyActions EventParties.empty)) later t →
          Unreachable t 0 := by
  have hfreed : (eventsAfter [.destroyPass 0] (eventsAfter destroyActions EventParties.empty)).phase 0 =
      .freed := by decide +kernel
  obtain ⟨t, hstep, rfl⟩ := eventRun_of_actions [.destroyPass 0]
    (eventsAfter destroyActions EventParties.empty) (by decide +kernel)
  have hall := event_freed_unreachable destroyActions _ (eventRun_of_actions _ _ (by decide +kernel))
  refine ⟨⟨by decide +kernel, hfreed⟩, fun later t hlater => ?_⟩
  exact ((hall.2.1 0 _ hstep hfreed).2 later t hlater).1

end

end ScMachine.Store
