import ScMachine.Runs
import ScMachine.ScEvent

/-! The subscriptions while several threads are at work: subscribers, emitters, the workers of the
queue, and for each event the thread that destroys it. -/
namespace ScMachine.Store
open ScMachine.StateExcept ScMachine.Runs

/-- How far the call of `sc_event_destroy` is: before it, between its region up to `unref` and the
one of `sc_event_unref`, in its loop, and after it. -/
inductive DestroyPhase where
  | notCalled
  | requested
  | waiting
  | freed
  | failed
  deriving DecidableEq

/-- The phases are those of the one call of `sc_event_destroy` for each event. -/
structure EventParties where
  ev : ScEvents
  phase : ℕ → DestroyPhase

def EventParties.empty : EventParties := ⟨ScEvents.empty, fun _ => .notCalled⟩

abbrev PartyM := StateT EventParties (Except ScStop)

def onEvents {α : Type} (x : EventM α) : PartyM α := fun s => do
  let (r, ev) ← x s.ev
  return (r, { s with ev := ev })

def setPhase (id : ℕ) (phase : DestroyPhase) : PartyM Unit :=
  modify fun s => { s with phase := Function.update s.phase id phase }

/-- The regions that a lock protects, each to its end. `new` is what `sc_event_new` does once the
element has been found readable and a reference of it has been taken. -/
inductive EventAction where
  | new (el : ScAddr) (type : ScEventType) (callback : EventCallback) (levels : ScAccessLevels)
  | emit (el : ScAddr) (access : ScAccessLevels) (type : ScEventType) (edge other : ScAddr)
  | notifyDeleted (el : ScAddr)
  | workerStart (i : ℕ)
  | workerFinish (i : ℕ)
  | destroyRequest (id : ℕ)
  | destroyUnref (id : ℕ)
  | destroyPass (id : ℕ)
  | stopProcessing

def EventAction.run : EventAction → PartyM Unit
  | .new el type callback levels => onEvents do
    let event ← allocateEvent el type callback levels
    insertEventIntoTable event
  | .emit el access type edge other => onEvents (scEventEmitImpl el access type edge other)
  | .notifyDeleted el => onEvents (scEventNotifyElementDeleted el)
  | .workerStart i => onEvents (scEventPoolWorkerStart i)
  | .workerFinish i => onEvents (scEventPoolWorkerFinish i)
  | .destroyRequest id => do
    let ok ← onEvents (scEventDestroyRequest id)
    setPhase id (if ok then .requested else .failed)
  | .destroyUnref id => do
    onEvents (scEventUnref id)
    setPhase id .waiting
  | .destroyPass id => do
    match ← onEvents (scEventDestroyPass id) with
    | some _ => setPhase id .freed
    | none => return ()
  | .stopProcessing => onEvents scEventsStopProcessing

/-- Who does what: an event is destroyed once, by one who has the pointer to it, and a worker has a
job to start or to finish. -/
def EventAction.Allowed (s : EventParties) : EventAction → Prop
  | .workerStart i => i < s.ev.queue.length
  | .workerFinish i => i < s.ev.working.length
  | .destroyRequest id => id < s.ev.nextId ∧ s.phase id = .notCalled
  | .destroyUnref id => s.phase id = .requested
  | .destroyPass id => s.phase id = .waiting
  | _ => True

instance eventAllowedDecidable (s : EventParties) :
    (action : EventAction) → Decidable (action.Allowed s)
  | .workerStart i => inferInstanceAs (Decidable (i < s.ev.queue.length))
  | .workerFinish i => inferInstanceAs (Decidable (i < s.ev.working.length))
  | .destroyRequest id => inferInstanceAs (Decidable (id < s.ev.nextId ∧ s.phase id = .notCalled))
  | .destroyUnref id => inferInstanceAs (Decidable (s.phase id = .requested))
  | .destroyPass id => inferInstanceAs (Decidable (s.phase id = .waiting))
  | .new _ _ _ _ | .emit _ _ _ _ _ | .notifyDeleted _ | .stopProcessing =>
    inferInstanceAs (Decidable True)

structure EventStep (s : EventParties) (action : EventAction) (s' : EventParties) : Prop where
  allowed : action.Allowed s
  step : action.run s = .ok ((), s')

/-- An emission reaches the event, unless it is being destroyed. -/
def ScEvent.accepts (event : ScEvent) (access : ScAccessLevels) (type : ScEventType) : Bool :=
  event.type = type && scAccessLvlCheckRead event.accessLevels access && !event.requestDestroy

/-- The events among `ids` that an emission reaches. -/
def ScEvents.accepting (ev : ScEvents) (access : ScAccessLevels) (type : ScEventType)
    (ids : List ℕ) : List ℕ :=
  ids.filter fun id => (ev.find id).any fun event => event.accepts access type

/-- Each event of `ids` has one more reference and, as long as the queue takes them, one more job. -/
def ScEvents.raised (ev : ScEvents) (edge other : ScAddr) (ids : List ℕ) : ScEvents :=
  { ev with
    events := ev.events.map fun e =>
      if e.id ∈ ids then { e with refCount := e.refCount+1 } else e
    queue := if ev.running then ev.queue ++ ids.map fun id => ⟨id, edge, other⟩ else ev.queue }

/-- `SC_EVENT_REQUEST_DESTROY` is set in the events of `ids`. -/
def ScEvents.flagged (ev : ScEvents) (ids : List ℕ) : ScEvents :=
  { ev with
    events := ev.events.map fun e =>
      if e.id ∈ ids then { e with refCount := e.refCount ||| scEventRequestDestroy } else e }

section
variable {ev ev' : ScEvents} {s s' : EventParties} {e : ScEvent} {id : ℕ} {α : Type}

theorem wp_onEvents (x : EventM α) (Q : α → EventParties → Prop) (E : ScStop → Prop)
    (s : EventParties) :
    Wp (onEvents x) Q E s ↔ Wp x (fun r ev => Q r { s with ev := ev }) E s.ev := by
  unfold Wp onEvents
  cases x s.ev <;> exact Iff.rfl

/-! The events are found by their pointers. -/

theorem find_map (f : ScEvent → ScEvent) (hf : ∀ e, (f e).id = e.id) (id : ℕ) :
    (ev.events.map f).find? (fun e => e.id = id) = (ev.find id).map f := by
  unfold ScEvents.find
  rw [List.find?_map]
  apply congrArg (Option.map f)
  apply congrArg (fun p => List.find? p ev.events)
  funext e
  rw [Function.comp_apply, hf]

theorem find_id (h : ev.find id = some e) : e.id = id := by
  have hid := List.find?_some h
  exact of_decide_eq_true hid

theorem find_mem (h : ev.find id = some e) : e ∈ ev.events := List.mem_of_find?_eq_some h

theorem find_of_mem (hnodup : (ev.events.map ScEvent.id).Nodup) (he : e ∈ ev.events) :
    ev.find e.id = some e := by
  have hsome : (ev.find e.id).isSome := by
    unfold ScEvents.find
    rw [List.find?_isSome]
    exact ⟨e, he, by simp⟩
  obtain ⟨e', he'⟩ := Option.isSome_iff_exists.mp hsome
  have hid := find_id he'
  have heq := List.inj_on_of_nodup_map hnodup (find_mem he') he hid
  rw [he', heq]

theorem find_raised (edge other : ScAddr) (ids : List ℕ) (id : ℕ) :
    (ev.raised edge other ids).find id = (ev.find id).map fun e =>
      if e.id ∈ ids then { e with refCount := e.refCount+1 } else e := by
  apply find_map
  intro e
  split_ifs <;> rfl

theorem find_flagged (ids : List ℕ) (id : ℕ) :
    (ev.flagged ids).find id = (ev.find id).map fun e =>
      if e.id ∈ ids then { e with refCount := e.refCount ||| scEventRequestDestroy } else e := by
  apply find_map
  intro e
  split_ifs <;> rfl

/-! What an emission does. -/

theorem raised_nil (edge other : ScAddr) : ev.raised edge other [] = ev := by
  unfold ScEvents.raised
  simp

theorem raised_cons (edge other : ScAddr) (id : ℕ) (ids : List ℕ) (hid : id ∉ ids) :
    (ev.raised edge other [id]).raised edge other ids = ev.raised edge other (id :: ids) := by
  unfold ScEvents.raised
  have hevents : (ev.events.map fun e =>
      if e.id ∈ [id] then { e with refCount := e.refCount+1 } else e).map (fun e =>
        if e.id ∈ ids then { e with refCount := e.refCount+1 } else e) =
      ev.events.map fun e =>
        if e.id ∈ id :: ids then { e with refCount := e.refCount+1 } else e := by
    rw [List.map_map]
    apply List.map_congr_left
    intro e _
    rw [Function.comp_apply]
    by_cases he : e.id = id
    · simp [he, hid]
    · simp [he]
  simp only [hevents]
  split_ifs <;> simp

theorem accepting_raised (access : ScAccessLevels) (type : ScEventType) (edge other : ScAddr)
    (id : ℕ) (ids : List ℕ) (hid : id ∉ ids) :
    (ev.raised edge other [id]).accepting access type ids = ev.accepting access type ids := by
  unfold ScEvents.accepting
  apply List.filter_congr
  intro x hx
  rw [find_raised, Option.any_map]
  cases hfind : ev.find x with
  | none => rfl
  | some e =>
    have hne : e.id ≠ id := by
      rw [find_id hfind]
      rintro rfl
      exact hid hx
    simp [hne]

theorem accepting_cons (access : ScAccessLevels) (type : ScEventType) (id : ℕ) (ids : List ℕ)
    (hfind : ev.find id = some e) :
    ev.accepting access type (id :: ids) =
      (if e.accepts access type then [id] else []) ++ ev.accepting access type ids := by
  unfold ScEvents.accepting
  rw [List.filter_cons, hfind, Option.any_some]
  split_ifs <;> rfl

/-- One event gets its reference and its job. -/
theorem tryEmit_append (hfind : ev.find id = some e) (edge other : ScAddr) :
    (do
      modifyEvent e.id fun e => { e with refCount := e.refCount+1 }
      scEventQueueAppend ⟨e.id, edge, other⟩ : EventM Unit) ev =
        .ok ((), ev.raised edge other [id]) := by
  rw [find_id hfind]
  have hrun : (do
      modifyEvent id fun e => { e with refCount := e.refCount+1 }
      scEventQueueAppend ⟨id, edge, other⟩ : EventM Unit) ev =
        .ok ((), if ev.running then { ev with
            events := ev.events.map fun e =>
              if e.id = id then { e with refCount := e.refCount+1 } else e
            queue := ev.queue ++ [⟨id, edge, other⟩] }
          else { ev with events := ev.events.map fun e =>
              if e.id = id then { e with refCount := e.refCount+1 } else e }) := rfl
  rw [hrun]
  unfold ScEvents.raised
  simp only [List.mem_singleton, List.map_cons, List.map_nil]
  split_ifs <;> rfl

/-- None of the events that an emission reaches is at the limit of its count. -/
def ScEvents.HasRefRoom (ev : ScEvents) (ids : List ℕ) : Prop :=
  ∀ id ∈ ids, ∀ e, ev.find id = some e → e.refCount < scEventRefCountMask

theorem hasRefRoom_raised {ids : List ℕ} (edge other : ScAddr) (hid : id ∉ ids) :
    (ev.raised edge other [id]).HasRefRoom ids ↔ ev.HasRefRoom ids := by
  unfold ScEvents.HasRefRoom
  apply forall₂_congr
  intro x hx
  rw [find_raised]
  cases hfind : ev.find x with
  | none => simp
  | some e =>
    have hne : e.id ∉ [id] := by
      rw [find_id hfind, List.mem_singleton]
      intro hxid
      exact hid (hxid ▸ hx)
    rw [Option.map_some, if_neg hne]

/-- The loop over the events of an element stops only at the assertion on the count. -/
theorem emitToEvents_spec (access : ScAccessLevels) (type : ScEventType) (edge other : ScAddr)
    (ids : List ℕ) (hnodup : ids.Nodup)
    (hids : ∀ id ∈ ids, ∃ e, ev.find id = some e ∧ e.callback ≠ none) :
    Wp (emitToEvents access type edge other ids)
      (fun _ ev' => ev' = ev.raised edge other (ev.accepting access type ids) ∧
        ev.HasRefRoom (ev.accepting access type ids))
      (fun _ => ¬ ev.HasRefRoom (ev.accepting access type ids)) ev := by
  induction ids generalizing ev with
  | nil =>
    refine ⟨?_, by simp [ScEvents.accepting, ScEvents.HasRefRoom]⟩
    exact (raised_nil edge other).symm
  | cons id ids ih =>
    obtain ⟨hid, hnodup'⟩ := List.nodup_cons.mp hnodup
    obtain ⟨e, hfind, hcallback⟩ := hids id List.mem_cons_self
    have hids' : ∀ x ∈ ids, ∃ e, ev.find x = some e ∧ e.callback ≠ none :=
      fun x hx => hids x (List.mem_cons_of_mem _ hx)
    have hcons := accepting_cons access type id ids hfind
    -- what follows an event that is passed over
    have hpass (hno : e.accepts access type = false) :
        Wp (emitToEvents access type edge other ids)
          (fun _ ev' => ev' = ev.raised edge other (ev.accepting access type (id :: ids)) ∧
            ev.HasRefRoom (ev.accepting access type (id :: ids)))
          (fun _ => ¬ ev.HasRefRoom (ev.accepting access type (id :: ids))) ev := by
      rw [hcons, hno]
      exact ih hnodup' hids'
    unfold emitToEvents
    rw [wp_bind, wp_get, hfind]
    unfold ScEvent.accepts at hcons hpass
    dsimp only
    rw [wp_ite]
    constructor
    swap
    · intro hno
      apply hpass
      simp only [Bool.and_eq_true, decide_eq_true_eq, not_and, Bool.not_eq_true] at hno
      simp only [Bool.and_eq_false_iff, decide_eq_false_iff_not]
      tauto
    intro hyes
    unfold scEventTryEmit
    by_cases hflag : e.requestDestroy = true
    · rw [if_pos hflag, pure_bind]
      apply hpass
      simp [hflag]
    rw [if_neg hflag]
    have hacc : (decide (e.type = type) && scAccessLvlCheckRead e.accessLevels access &&
        !e.requestDestroy) = true := by
      rw [hyes]
      simp [hflag]
    rw [hacc, if_pos rfl, List.singleton_append] at hcons
    by_cases hlimit : e.refCount < scEventRefCountMask
    swap
    · rw [if_pos (by simp [hlimit])]
      intro hroom
      rw [hcons] at hroom
      exact hlimit (hroom id List.mem_cons_self e hfind)
    rw [if_neg (by simp [hlimit])]
    simp only [bind_assoc, pure_bind, if_true, hcallback, if_false]
    rw [← bind_assoc, wp_bind, wp_iff_of_eq (tryEmit_append hfind edge other)]
    have hnotin : id ∉ ev.accepting access type ids := fun hmem => hid (List.mem_of_mem_filter hmem)
    have hroom : ev.HasRefRoom (id :: ev.accepting access type ids) ↔
        ev.HasRefRoom (ev.accepting access type ids) := by
      unfold ScEvents.HasRefRoom
      rw [List.forall_mem_cons]
      apply and_iff_right
      intro e' he'
      rw [hfind, Option.some.injEq] at he'
      rw [← he']
      exact hlimit
    rw [hcons, hroom]
    have hrest := @ih (ev.raised edge other [id]) hnodup' ?_
    · rw [accepting_raised access type edge other id ids hid, hasRefRoom_raised edge other hnotin]
        at hrest
      apply wp_mono hrest _ (fun _ hr => hr)
      intro _ ev' ⟨hev, hr⟩
      exact ⟨hev.trans (raised_cons edge other id _ hnotin), hr⟩
    · intro x hx
      obtain ⟨e', he', hc⟩ := hids' x hx
      rw [find_raised, he', Option.map_some]
      refine ⟨_, rfl, ?_⟩
      split_ifs
      · exact hc
      · exact hc

/-- The events of an element, in the table. -/
def ScEvents.listOf (ev : ScEvents) (el : ScAddr) : List ℕ := (ev.table.map (eventsOf el)).getD []

/-- The subscriptions to `el` that an emission reaches. -/
def ScEvents.subscribers (ev : ScEvents) (el : ScAddr) (access : ScAccessLevels)
    (type : ScEventType) : List ℕ := ev.accepting access type (ev.listOf el)

theorem emitImpl_spec (el : ScAddr) (access : ScAccessLevels) (type : ScEventType)
    (edge other : ScAddr) (hnodup : (ev.listOf el).Nodup)
    (hids : ∀ id ∈ ev.listOf el, ∃ e, ev.find id = some e ∧ e.callback ≠ none) :
    Wp (scEventEmitImpl el access type edge other)
      (fun _ ev' => ev' = ev.raised edge other (ev.subscribers el access type) ∧
        el ≠ ScAddr.empty ∧ ev.HasRefRoom (ev.subscribers el access type))
      (fun _ => ¬ (el ≠ ScAddr.empty ∧ ev.HasRefRoom (ev.subscribers el access type))) ev := by
  unfold scEventEmitImpl
  rw [wp_ite]
  constructor
  · intro hempty hroom
    exact hroom.1 hempty
  intro hne
  rw [wp_bind, wp_get]
  unfold ScEvents.subscribers ScEvents.listOf at *
  cases htable : ev.table with
  | none =>
    refine ⟨?_, hne, by simp [ScEvents.accepting, ScEvents.HasRefRoom]⟩
    exact (raised_nil edge other).symm
  | some entries =>
    rw [htable] at hnodup hids
    apply wp_mono (emitToEvents_spec access type edge other _ hnodup hids)
    · intro _ ev' ⟨hev, hroom⟩
      exact ⟨hev, hne, hroom⟩
    · intro _ hroom ⟨_, hr⟩
      exact hroom hr

/-! What the other regions do. -/

theorem flagged_cons (id : ℕ) (ids : List ℕ) :
    (ev.flagged [id]).flagged ids = ev.flagged (id :: ids) := by
  unfold ScEvents.flagged
  congr 1
  rw [List.map_map]
  apply List.map_congr_left
  intro e _
  rw [Function.comp_apply]
  by_cases he : e.id = id
  · by_cases hids : id ∈ ids
    · simp [he, hids, BitVec.or_assoc]
    · simp [he, hids]
  · simp [he]

theorem requestDestroyAll_eq (ids : List ℕ) (ev : ScEvents) :
    requestDestroyAll ids ev = .ok ((), ev.flagged ids) := by
  induction ids generalizing ev with
  | nil =>
    have hsame : ev.flagged [] = ev := by
      unfold ScEvents.flagged
      simp
    rw [hsame]
    rfl
  | cons id ids ih =>
    have hfirst : modifyEvent id (fun e => { e with refCount := e.refCount ||| scEventRequestDestroy })
        ev = .ok ((), ev.flagged [id]) := by
      unfold ScEvents.flagged
      simp only [List.mem_singleton]
      rfl
    have hrun : requestDestroyAll (id :: ids) ev = requestDestroyAll ids (ev.flagged [id]) :=
      run_bind_ok hfirst _
    rw [hrun, ih, flagged_cons]

/-- The subscriptions to `el` are taken out of the table. -/
def ScEvents.dropped (ev : ScEvents) (el : ScAddr) : ScEvents :=
  { ev.flagged (ev.listOf el) with
    table := ev.table.map fun entries => entries.filter fun p => p.1 ≠ el.localToInt }

theorem flagged_nil : ev.flagged [] = ev := by
  unfold ScEvents.flagged
  simp

theorem notifyDeleted_spec (el : ScAddr) (E : ScStop → Prop) :
    Wp (scEventNotifyElementDeleted el) (fun _ ev' => ev' = ev.dropped el) E ev := by
  unfold scEventNotifyElementDeleted ScEvents.dropped ScEvents.listOf
  rw [wp_bind, wp_get]
  cases htable : ev.table with
  | none =>
    simp only [Option.map_none, Option.getD_none, flagged_nil]
    rw [wp_pure, ← htable]
  | some entries =>
    simp only [wp_bind, wp_modify]
    rw [wp_iff_of_eq (requestDestroyAll_eq _ _)]
    rfl

/-- One reference of the event is given back. -/
def ScEvents.lowered (ev : ScEvents) (id : ℕ) : ScEvents :=
  { ev with
    events := ev.events.map fun e => if e.id = id then { e with refCount := e.refCount-1 } else e }

theorem workerStart_spec (i : ℕ) (hi : i < ev.queue.length) :
    IfReturns (scEventPoolWorkerStart i) (fun _ ev' => ∃ job, ev.queue[i]? = some job ∧
      ev' = { ev with queue := ev.queue.eraseIdx i, working := ev.working ++ [job] }) ev := by
  unfold scEventPoolWorkerStart
  rw [IfReturns, wp_bind, wp_get]
  have hjob := List.getElem?_eq_getElem hi
  simp only [hjob, wp_bind, wp_get]
  rw [wp_ite]
  exact ⟨fun _ => trivial, fun _ => ⟨_, rfl, rfl⟩⟩

theorem workerFinish_spec (i : ℕ) (hi : i < ev.working.length) :
    IfReturns (scEventPoolWorkerFinish i) (fun _ ev' => ∃ job, ev.working[i]? = some job ∧
      ev' = { ev.lowered job.event with working := ev.working.eraseIdx i }) ev := by
  unfold scEventPoolWorkerFinish
  rw [IfReturns, wp_bind, wp_get]
  have hjob := List.getElem?_eq_getElem hi
  simp only [hjob, wp_bind, wp_get]
  rw [wp_ite]
  exact ⟨fun _ => trivial, fun _ => ⟨_, rfl, rfl⟩⟩

/-- `sc_event_destroy` has set the flag and has cleared the callbacks. -/
def ScEvents.closed (ev : ScEvents) (id : ℕ) : ScEvents :=
  { ev with
    events := ev.events.map fun e => if e.id = id then
      { e with refCount := e.refCount ||| scEventRequestDestroy, callback := none } else e }

/-- An event that has been marked before stays as it is; any other one is taken out of the table. -/
theorem destroyRequest_spec (id : ℕ) :
    IfReturns (scEventDestroyRequest id) (fun r ev' => ∃ e, ev.find id = some e ∧
      ((e.requestDestroy = true ∧ r = true ∧ ev' = ev) ∨
        (e.requestDestroy = false ∧ ∃ entries, ev.table = some entries ∧
          ((eventsOf e.element entries = [] ∧ r = false ∧ ev' = ev) ∨
            (r = true ∧ ev' = { ev.closed id with
              table := if entries.erase (e.element.localToInt, e.id) = [] then none
                else some (entries.erase (e.element.localToInt, e.id)) }))))) ev := by
  unfold scEventDestroyRequest removeEventFromTable
  rw [IfReturns, wp_bind, wp_get]
  cases hfind : ev.find id with
  | none => trivial
  | some e =>
    dsimp only
    rw [wp_ite]
    constructor
    · intro hflag
      exact ⟨e, rfl, Or.inl ⟨hflag, rfl, rfl⟩⟩
    · intro hflag
      have hflag' : e.requestDestroy = false := by simpa using hflag
      rw [wp_bind, wp_bind, wp_get]
      cases htable : ev.table with
      | none => trivial
      | some entries =>
        dsimp only
        rw [wp_ite]
        constructor
        · intro hempty
          exact ⟨e, rfl, Or.inr ⟨hflag', entries, rfl, Or.inl ⟨hempty, rfl, rfl⟩⟩⟩
        · intro _
          exact ⟨e, rfl, Or.inr ⟨hflag', entries, rfl, Or.inr ⟨rfl, rfl⟩⟩⟩

theorem destroyPass_spec (id : ℕ) :
    IfReturns (scEventDestroyPass id) (fun r ev' => ∃ e, ev.find id = some e ∧
      ((e.refCount = scEventRequestDestroy ∧ r = some e.element ∧
          ev' = { ev with events := ev.events.eraseP fun e => e.id = id }) ∨
        (e.refCount ≠ scEventRequestDestroy ∧ r = none ∧ ev' = ev))) ev := by
  unfold scEventDestroyPass
  rw [IfReturns, wp_bind, wp_get]
  cases hfind : ev.find id with
  | none => trivial
  | some e =>
    dsimp only
    rw [wp_ite]
    exact ⟨fun hfree => ⟨e, rfl, Or.inl ⟨hfree, rfl, rfl⟩⟩,
      fun hwait => ⟨e, rfl, Or.inr ⟨hwait, rfl, rfl⟩⟩⟩

end

end ScMachine.Store
