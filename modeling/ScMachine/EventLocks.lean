import ScMachine.EventThreads
import ScMachine.LockThreads

/-! The locks of the subscriptions: `events_table_mutex`, the lock of each event and the mutex of
the queue, in `sc_event_new`, `sc_event_destroy`, `sc_event_emit_impl` and
`sc_event_notify_element_deleted`. -/
namespace ScMachine.Store
open ScMachine.StateExcept ScMachine.LockThreads ScMachine.Runs

inductive EventLock where
  | table
  | event (id : ℕ)
  | queue
  deriving DecidableEq

/-- `sc_event_lock` returns at once to the thread that has the lock, and one `sc_event_unlock` gives
it back; the other two are mutexes. -/
def EventLock.kind : EventLock → LockKind
  | .event _ => .owned
  | .table | .queue => .plain

/-- The arguments of `sc_event_emit_impl`. -/
structure EmitCall where
  el : ScAddr
  access : ScAccessLevels
  type : ScEventType
  edge : ScAddr
  other : ScAddr

/-- Where a thread is in the functions; each point is named after what comes next. A list `ids` is
what the loop over the events of an element has still to visit. -/
inductive EventPoint where
  | idle
  | unlockTable
  -- `sc_event_new`, `insert_event_into_table`
  | allocate (el : ScAddr) (type : ScEventType) (callback : EventCallback) (levels : ScAccessLevels)
  | insertLock (event : ScEvent)
  | insert (event : ScEvent)
  -- `sc_event_destroy`, `remove_event_from_table`
  | destroyLock (id : ℕ)
  | destroyCheck (id : ℕ)
  | removeLock (id : ℕ)
  | remove (id : ℕ)
  | removeUnlock (id : ℕ) (removed : Bool)
  | destroyFail (id : ℕ)
  | destroyMark (id : ℕ)
  | destroyUnlock (id : ℕ)
  | unrefLock (id : ℕ)
  | unref (id : ℕ)
  | unrefUnlock (id : ℕ)
  | passLock (id : ℕ)
  | pass (id : ℕ)
  | passUnlock (id : ℕ) (unused : Bool)
  | free (id : ℕ)
  -- `sc_event_emit_impl`, `_sc_event_try_emit`, `sc_event_queue_append`
  | emitAssert (call : EmitCall)
  | emitLock (call : EmitCall)
  | emitLookup (call : EmitCall)
  | emitVisit (call : EmitCall) (ids : List ℕ)
  | tryEmitLock (call : EmitCall) (id : ℕ) (ids : List ℕ)
  | tryEmit (call : EmitCall) (id : ℕ) (ids : List ℕ)
  | tryEmitUnlock (call : EmitCall) (id : ℕ) (ids : List ℕ) (emitted : Bool)
  | callbackAssert (call : EmitCall) (id : ℕ) (ids : List ℕ)
  | appendLock (call : EmitCall) (id : ℕ) (ids : List ℕ)
  | append (call : EmitCall) (id : ℕ) (ids : List ℕ)
  | appendUnlock (call : EmitCall) (ids : List ℕ)
  -- `sc_event_notify_element_deleted`
  | notifyLock (el : ScAddr)
  | notifyLookup (el : ScAddr)
  | notifyVisit (ids : List ℕ)
  | notifyMark (id : ℕ) (ids : List ℕ)
  | notifyUnlock (id : ℕ) (ids : List ℕ)

/-- The event behind a pointer; a freed one is an error of the caller. -/
def theEvent (id : ℕ) : EventM ScEvent := do
  match (← get).find id with
  | none => throw .abort
  | some event => return event

/-- `remove_event_from_table` under the mutex. Without a table, which another thread may have taken
away since the assertion, nothing is found in it. -/
def removeLockedEvent (event : ScEvent) : EventM Bool := do
  if (← get).table.isNone then return false
  removeEventFromTable event

/-- An emission of `call` reaches the event as far as its type and the access levels go. -/
def EmitCall.concerns (call : EmitCall) (event : ScEvent) : Bool :=
  event.type = call.type && scAccessLvlCheckRead event.accessLevels call.access

def EventPoint.move : EventPoint → Option (Move EventLock ScEvents ScStop EventPoint)
  | .idle => none
  | .unlockTable => some (.release .table .idle)
  | .allocate el type callback levels => some <| .act do
    return .insertLock (← allocateEvent el type callback levels)
  | .insertLock event => some (.acquire .table (.insert event))
  | .insert event => some <| .act do
    insertEventIntoTable event
    return .unlockTable
  | .destroyLock id => some (.acquire (.event id) (.destroyCheck id))
  | .destroyCheck id => some <| .act do
    let event ← theEvent id
    if event.requestDestroy then return .destroyUnlock id
    if (← get).table.isNone then throw .abort
    return .removeLock id
  | .removeLock id => some (.acquire .table (.remove id))
  | .remove id => some <| .act do
    return .removeUnlock id (← removeLockedEvent (← theEvent id))
  | .removeUnlock id removed =>
    some (.release .table (if removed then .destroyMark id else .destroyFail id))
  | .destroyFail id => some (.release (.event id) .idle)
  | .destroyMark id => some <| .act do
    let _ ← theEvent id
    modifyEvent id fun e =>
      { e with refCount := e.refCount ||| scEventRequestDestroy, callback := none }
    return .destroyUnlock id
  | .destroyUnlock id => some (.release (.event id) (.unrefLock id))
  | .unrefLock id => some (.acquire (.event id) (.unref id))
  | .unref id => some <| .act do
    let _ ← theEvent id
    scEventUnref id
    return .unrefUnlock id
  | .unrefUnlock id => some (.release (.event id) (.passLock id))
  | .passLock id => some (.acquire (.event id) (.pass id))
  | .pass id => some <| .act do
    let event ← theEvent id
    return .passUnlock id (event.refCount = scEventRequestDestroy)
  | .passUnlock id unused => some (.release (.event id) (if unused then .free id else .passLock id))
  | .free id => some <| .act do
    modify fun ev => { ev with events := ev.events.filter fun e => e.id ≠ id }
    return .idle
  | .emitAssert call => some <| .act do
    if call.el = ScAddr.empty then throw .abort
    return .emitLock call
  | .emitLock call => some (.acquire .table (.emitLookup call))
  | .emitLookup call => some <| .act do
    match (← get).table with
    | none => return .unlockTable
    | some entries => return .emitVisit call (eventsOf call.el entries)
  | .emitVisit _ [] => some (.release .table .idle)
  | .emitVisit call (id :: ids) => some <| .act do
    let event ← theEvent id
    if call.concerns event then return .tryEmitLock call id ids
    return .emitVisit call ids
  | .tryEmitLock call id ids => some (.acquire (.event id) (.tryEmit call id ids))
  | .tryEmit call id ids => some <| .act do
    return .tryEmitUnlock call id ids (← scEventTryEmit (← theEvent id))
  | .tryEmitUnlock call id ids emitted =>
    some (.release (.event id)
      (if emitted then .callbackAssert call id ids else .emitVisit call ids))
  | .callbackAssert call id ids => some <| .act do
    let event ← theEvent id
    if event.callback = none then throw .abort
    return .appendLock call id ids
  | .appendLock call id ids => some (.acquire .queue (.append call id ids))
  | .append call id ids => some <| .act do
    scEventQueueAppend ⟨id, call.edge, call.other⟩
    return .appendUnlock call ids
  | .appendUnlock call ids => some (.release .queue (.emitVisit call ids))
  | .notifyLock el => some (.acquire .table (.notifyLookup el))
  | .notifyLookup el => some <| .act do
    match (← get).table with
    | none => return .unlockTable
    | some entries =>
      modify fun ev => { ev with table := some (entries.filter fun e => e.1 ≠ el.localToInt) }
      return .notifyVisit (eventsOf el entries)
  | .notifyVisit [] => some (.release .table .idle)
  | .notifyVisit (id :: ids) => some (.acquire (.event id) (.notifyMark id ids))
  | .notifyMark id ids => some <| .act do
    let _ ← theEvent id
    modifyEvent id fun e => { e with refCount := e.refCount ||| scEventRequestDestroy }
    return .notifyUnlock id ids
  | .notifyUnlock id ids => some (.release (.event id) (.notifyVisit ids))

/-- The calls that a thread makes. `sc_event_destroy` is given an event that has been created. -/
def EventPoint.entry (ev : ScEvents) : EventPoint → Bool
  | .allocate _ _ _ _ | .emitAssert _ | .notifyLock _ => true
  | .destroyLock id => id < ev.nextId
  | _ => false

def eventLocks : Program EventLock ScEvents ScStop EventPoint :=
  ⟨EventLock.kind, EventPoint.move, fun _ => EventPoint.entry⟩

abbrev EventLockState := State EventLock ScEvents EventPoint

def EventLockState.initial : EventLockState := ⟨ScEvents.empty, fun _ => none, fun _ => .idle⟩

/-- The locks that a thread has at a point. -/
def EventPoint.holds : EventPoint → List EventLock
  | .idle | .allocate _ _ _ _ | .insertLock _ | .destroyLock _ | .unrefLock _ | .passLock _
  | .free _ | .emitAssert _ | .emitLock _ | .notifyLock _ => []
  | .unlockTable | .insert _ | .emitLookup _ | .emitVisit _ _ | .tryEmitLock _ _ _
  | .callbackAssert _ _ _ | .appendLock _ _ _ | .notifyLookup _ | .notifyVisit _ => [.table]
  | .destroyCheck id | .removeLock id | .destroyFail id | .destroyMark id | .destroyUnlock id
  | .unref id | .unrefUnlock id | .pass id | .passUnlock id _ => [.event id]
  | .remove id | .removeUnlock id _ => [.table, .event id]
  | .tryEmit _ id _ | .tryEmitUnlock _ id _ _ | .notifyMark id _ | .notifyUnlock id _ =>
    [.event id, .table]
  | .append _ _ _ | .appendUnlock _ _ => [.queue, .table]

/-- The events among `ids` whose lock an emission takes. -/
def EmitCall.visits (call : EmitCall) (ev : ScEvents) (ids : List ℕ) : List ℕ :=
  ids.filter fun id => (ev.find id).any call.concerns

/-- The events whose lock a thread is still to take while it has the mutex of the table. -/
def EventPoint.ahead (ev : ScEvents) : EventPoint → List ℕ
  | .emitLookup call => call.visits ev (ev.listOf call.el)
  | .tryEmitLock call id ids => id :: call.visits ev ids
  | .emitVisit call ids | .tryEmit call _ ids | .tryEmitUnlock call _ ids _
  | .callbackAssert call _ ids | .appendLock call _ ids | .append call _ ids
  | .appendUnlock call ids => call.visits ev ids
  | .notifyLookup el => ev.listOf el
  | .notifyVisit ids | .notifyMark _ ids | .notifyUnlock _ ids => ids
  | _ => []

/-- The thread has the lock of the event and goes on to take the mutex of the table. -/
def EventPoint.Closing (ev : ScEvents) (id : ℕ) : EventPoint → Prop
  | .destroyCheck i => i = id ∧ (ev.find i).any fun e => !e.requestDestroy
  | .removeLock i => i = id
  | _ => False

/-- The event of a call of `sc_event_destroy` that has not got the mutex of the table yet. -/
def EventPoint.destroyed : EventPoint → Option ℕ
  | .destroyLock id | .destroyCheck id | .removeLock id => some id
  | _ => none

/-- The events of `ev` keep their types and access levels, and those that are not `locked` also
their counts. -/
def ScEvents.Ages (ev ev' : ScEvents) (locked : ℕ → Prop) : Prop :=
  ∀ id e', id < ev.nextId → ev'.find id = some e' →
    ∃ e, ev.find id = some e ∧ e'.type = e.type ∧ e'.accessLevels = e.accessLevels ∧
      (¬ locked id → e'.refCount = e.refCount)

/-- What a thread does at point `p` without taking or giving back a lock. -/
structure EventPoint.Turns (p : EventPoint) (ev : ScEvents) (p' : EventPoint) (ev' : ScEvents) :
    Prop where
  holds : p'.holds = p.holds
  nextId : ev.nextId ≤ ev'.nextId
  table : .table ∉ p.holds → ev'.table = ev.table
  ages : ev.Ages ev' fun id => .event id ∈ p.holds
  ahead : ∀ id, id < ev.nextId → id ∈ p'.ahead ev' → id ∈ p.ahead ev
  closing : ∀ id, p'.Closing ev' id → p.Closing ev id
  destroyed : ∀ id, p'.destroyed = some id → p.destroyed = some id

section
variable {ev ev' : ScEvents} {call : EmitCall} {id : ℕ} {p p' : EventPoint}

theorem wp_theEvent (Q : ScEvent → ScEvents → Prop) (E : ScStop → Prop)
    (hstop : E .abort) (hQ : ∀ e, ev.find id = some e → Q e ev) : Wp (theEvent id) Q E ev := by
  unfold theEvent
  rw [wp_bind, wp_get]
  cases hfind : ev.find id with
  | none => exact hstop
  | some e => exact hQ e hfind

theorem ages_of_find (locked : ℕ → Prop)
    (h : ∀ id e, id < ev.nextId → ev'.find id = some e → ev.find id = some e) :
    ev.Ages ev' locked :=
  fun id e' hid he' => ⟨e', h id e' hid he', rfl, rfl, fun _ => rfl⟩

theorem ages_refl (locked : ℕ → Prop) : ev.Ages ev locked :=
  ages_of_find locked fun _ _ _ h => h

/-- One event changes, with its lock taken. -/
theorem ages_modify (f : ScEvent → ScEvent) (hid : ∀ e, (f e).id = e.id)
    (htype : ∀ e, (f e).type = e.type) (hlevels : ∀ e, (f e).accessLevels = e.accessLevels)
    (locked : ℕ → Prop) (hlocked : locked id) :
    ev.Ages { ev with events := ev.events.map fun e => if e.id = id then f e else e } locked := by
  intro i e' _ he'
  have hmap := @find_map ev (fun e => if e.id = id then f e else e)
    (fun e => by split_ifs <;> simp [hid]) i
  have he'' := hmap.symm.trans he'
  obtain ⟨e, he, rfl⟩ := Option.map_eq_some_iff.mp he''
  refine ⟨e, he, ?_, ?_, ?_⟩
  · split_ifs
    · exact htype e
    · rfl
  · split_ifs
    · exact hlevels e
    · rfl
  · intro hfree
    rw [if_neg]
    rintro rfl
    rw [find_id he] at hlocked
    exact hfree hlocked

theorem visits_of_ages {locked : ℕ → Prop} (h : ev.Ages ev' locked) (ids : List ℕ)
    (hid : id < ev.nextId) (hmem : id ∈ call.visits ev' ids) : id ∈ call.visits ev ids := by
  unfold EmitCall.visits at hmem ⊢
  rw [List.mem_filter] at hmem ⊢
  refine ⟨hmem.1, ?_⟩
  obtain ⟨e', he', hconcerns⟩ := (Option.any_eq_true _ _).mp hmem.2
  obtain ⟨e, he, htype, hlevels, _⟩ := h id e' hid he'
  rw [he, Option.any_some]
  unfold EmitCall.concerns at hconcerns ⊢
  rw [← htype, ← hlevels]
  exact hconcerns

/-- Nothing is changed at the point. -/
theorem turns_read (hholds : p'.holds = p.holds) (hahead : p'.ahead ev ⊆ p.ahead ev)
    (hclosing : ∀ id, p'.Closing ev id → p.Closing ev id) (hdestroyed : p'.destroyed = none) :
    p.Turns ev p' ev :=
  ⟨hholds, le_rfl, fun _ => rfl, ages_refl _, fun _ _ h => hahead h, hclosing,
    fun id h => by rw [hdestroyed] at h; cases h⟩

/-- The event whose lock the thread has is changed. -/
theorem turns_modify (f : ScEvent → ScEvent) (hid : ∀ e, (f e).id = e.id)
    (htype : ∀ e, (f e).type = e.type) (hlevels : ∀ e, (f e).accessLevels = e.accessLevels)
    (hholds : p'.holds = p.holds) (hlock : .event id ∈ p.holds)
    (hahead : ∀ ev ev' locked i, ScEvents.Ages ev ev' locked → i < ev.nextId →
      i ∈ p'.ahead ev' → i ∈ p.ahead ev)
    (hclosing : ∀ ev id, ¬ p'.Closing ev id) (hdestroyed : p'.destroyed = none) :
    p.Turns ev p'
      { ev with events := ev.events.map fun e => if e.id = id then f e else e } := by
  have hages := @ages_modify ev id f hid htype hlevels (fun i => .event i ∈ p.holds) hlock
  refine ⟨hholds, le_rfl, fun _ => rfl, hages, fun i => hahead _ _ _ i hages, ?_, ?_⟩
  · intro i h
    exact absurd h (hclosing _ i)
  · intro i h
    rw [hdestroyed] at h
    cases h

/-- The table is changed, with its mutex taken. -/
theorem turns_table (table : Option (List (ℕ × ℕ))) (hholds : p'.holds = p.holds) (hlock : .table ∈ p.holds)
    (hahead : p'.ahead { ev with table := table } ⊆ p.ahead ev) (hclosing : ∀ ev id, ¬ p'.Closing ev id)
    (hdestroyed : p'.destroyed = none) : p.Turns ev p' { ev with table := table } :=
  ⟨hholds, le_rfl, fun h => absurd hlock h, ages_refl _, fun _ _ h => hahead h,
    fun id h => absurd h (hclosing _ id), fun id h => by rw [hdestroyed] at h; cases h⟩

/-- Events come or go, and those of before that are still there are as they were. -/
theorem turns_events (hnext : ev.nextId ≤ ev'.nextId) (htable : ev'.table = ev.table)
    (hfind : ∀ id e, id < ev.nextId → ev'.find id = some e → ev.find id = some e) (hholds : p'.holds = p.holds)
    (hahead : p'.ahead ev' = []) (hclosing : ∀ ev id, ¬ p'.Closing ev id) (hdestroyed : p'.destroyed = none) :
    p.Turns ev p' ev' :=
  ⟨hholds, hnext, fun _ => htable, ages_of_find _ hfind,
    fun id _ h => by rw [hahead] at h; exact absurd h List.not_mem_nil,
    fun id h => absurd h (hclosing _ id), fun id h => by rw [hdestroyed] at h; cases h⟩

/-- The turn begins with the event behind a pointer. -/
theorem turns_theEvent {f : ScEvent → EventM EventPoint}
    (h : ∀ e, ev.find id = some e → IfReturns (f e) (fun p' ev' => p.Turns ev p' ev') ev) :
    IfReturns (theEvent id >>= f) (fun p' ev' => p.Turns ev p' ev') ev := by
  rw [IfReturns, wp_bind]
  exact wp_theEvent _ _ trivial h

theorem allocate_turns (el : ScAddr) (type : ScEventType) (callback : EventCallback) (levels : ScAccessLevels) :
    IfReturns (do return EventPoint.insertLock (← allocateEvent el type callback levels))
      (fun p' ev' => (EventPoint.allocate el type callback levels).Turns ev p' ev') ev := by
  unfold allocateEvent
  simp only [IfReturns, wp_bind, wp_get, wp_modify, wp_pure]
  refine turns_events (Nat.le_succ _) rfl ?_ rfl rfl (fun _ _ h => h) rfl
  -- the new event is not one of those that were there
  intro i e hi he
  unfold ScEvents.find at he
  rw [List.find?_append, Option.or_eq_some_iff] at he
  obtain he | ⟨_, he⟩ := he
  · exact he
  · have hid := List.find?_some he
    have hmem := List.mem_singleton.mp (List.mem_of_find?_eq_some he)
    simp only [hmem, decide_eq_true_eq] at hid
    omega

theorem free_turns (id : ℕ) : (EventPoint.free id).Turns ev .idle
    { ev with events := ev.events.filter fun e => e.id ≠ id } := by
  refine turns_events le_rfl rfl ?_ rfl rfl (fun _ _ h => h) rfl
  intro i e _ he
  unfold ScEvents.find at he ⊢
  rw [List.find?_filter] at he
  have hne : i ≠ id := by
    have hid := List.find?_some he
    simp only [decide_eq_true_eq] at hid
    omega
  rw [← he]
  apply List.find?_congr
  intro e _
  by_cases hi : e.id = i
  · simp [hi, hne]
  · simp [hi]

theorem destroyCheck_turns (id : ℕ) (x : EventM EventPoint) (h : (EventPoint.destroyCheck id).move = some (.act x)) :
    IfReturns x (fun p' ev' => (EventPoint.destroyCheck id).Turns ev p' ev') ev := by
  cases h
  apply turns_theEvent
  intro e he
  rw [IfReturns, wp_ite]
  constructor
  · intro _
    exact turns_read rfl (List.nil_subset _) (fun _ h => h.elim) rfl
  intro hflag
  rw [wp_bind, wp_get, wp_ite]
  refine ⟨fun _ => trivial, fun _ => ?_⟩
  refine ⟨rfl, le_rfl, fun _ => rfl, ages_refl _, fun _ _ h => absurd h List.not_mem_nil, ?_, ?_⟩
  · intro i hi
    obtain rfl : id = i := hi
    refine ⟨rfl, ?_⟩
    simpa [he] using hflag
  · intro i hi
    exact hi

theorem remove_turns (id : ℕ) (x : EventM EventPoint) (h : (EventPoint.remove id).move = some (.act x)) :
    IfReturns x (fun p' ev' => (EventPoint.remove id).Turns ev p' ev') ev := by
  cases h
  apply turns_theEvent
  intro e _
  unfold removeLockedEvent removeEventFromTable
  rw [IfReturns, wp_bind, wp_bind, wp_get, wp_ite]
  constructor
  · intro _
    exact turns_read rfl (List.nil_subset _) (fun _ h => h.elim) rfl
  intro _
  rw [wp_bind, wp_get]
  cases htable : ev.table with
  | none => trivial
  | some entries =>
    dsimp only
    rw [wp_ite]
    constructor
    · intro _
      exact turns_read rfl (List.nil_subset _) (fun _ h => h.elim) rfl
    · intro _
      rw [wp_bind, wp_modify]
      exact turns_table _ rfl List.mem_cons_self (List.nil_subset _) (fun _ _ h => h) rfl

/-- An event is passed over, or its lock is asked for. -/
theorem emitVisit_turns (ids : List ℕ) (x : EventM EventPoint)
    (h : (EventPoint.emitVisit call (id :: ids)).move = some (.act x)) :
    IfReturns x (fun p' ev' => (EventPoint.emitVisit call (id :: ids)).Turns ev p' ev') ev := by
  cases h
  apply turns_theEvent
  intro e he
  have hvisits : call.visits ev (id :: ids) =
      if call.concerns e then id :: call.visits ev ids else call.visits ev ids := by
    unfold EmitCall.visits
    rw [List.filter_cons, he, Option.any_some]
  rw [IfReturns, wp_ite]
  constructor
  · intro hconcerns
    have hahead : id :: call.visits ev ids ⊆ call.visits ev (id :: ids) := by
      rw [hvisits, if_pos hconcerns]
      exact List.Subset.refl _
    exact turns_read rfl hahead (fun _ h => h.elim) rfl
  · intro hconcerns
    have hahead : call.visits ev ids ⊆ call.visits ev (id :: ids) := by
      rw [hvisits, if_neg hconcerns]
      exact List.Subset.refl _
    exact turns_read rfl hahead (fun _ h => h.elim) rfl

theorem tryEmit_turns (ids : List ℕ) (x : EventM EventPoint)
    (h : (EventPoint.tryEmit call id ids).move = some (.act x)) :
    IfReturns x (fun p' ev' => (EventPoint.tryEmit call id ids).Turns ev p' ev') ev := by
  cases h
  apply turns_theEvent
  intro e he
  unfold scEventTryEmit
  rw [IfReturns, wp_bind, wp_ite]
  constructor
  · intro _
    exact turns_read rfl (List.Subset.refl _) (fun _ h => h.elim) rfl
  intro _
  rw [find_id he, wp_ite]
  refine ⟨fun _ => trivial, fun _ => ?_⟩
  exact turns_modify _ (fun _ => rfl) (fun _ => rfl) (fun _ => rfl) rfl List.mem_cons_self
    (fun _ _ _ _ h hi hmem => visits_of_ages h ids hi hmem) (fun _ _ h => h) rfl

theorem listOf_table {entries : List (ℕ × ℕ)} (el : ScAddr) (htable : ev.table = some entries) :
    eventsOf el entries = ev.listOf el := by
  unfold ScEvents.listOf
  rw [htable]
  rfl

/-- The events of the element are found, or there is no table. -/
theorem emitLookup_turns (x : EventM EventPoint) (h : (EventPoint.emitLookup call).move = some (.act x)) :
    IfReturns x (fun p' ev' => (EventPoint.emitLookup call).Turns ev p' ev') ev := by
  cases h
  rw [IfReturns, wp_bind, wp_get]
  cases htable : ev.table with
  | none => exact turns_read rfl (List.nil_subset _) (fun _ h => h.elim) rfl
  | some entries =>
    have hahead : call.visits ev (eventsOf call.el entries) ⊆ call.visits ev (ev.listOf call.el) := by
      rw [listOf_table call.el htable]
      exact List.Subset.refl _
    exact turns_read rfl hahead (fun _ h => h.elim) rfl

/-- The events of the element are taken out of the table, to be visited. -/
theorem notifyLookup_turns (el : ScAddr) (x : EventM EventPoint)
    (h : (EventPoint.notifyLookup el).move = some (.act x)) :
    IfReturns x (fun p' ev' => (EventPoint.notifyLookup el).Turns ev p' ev') ev := by
  cases h
  rw [IfReturns, wp_bind, wp_get]
  cases htable : ev.table with
  | none => exact turns_read rfl (List.nil_subset _) (fun _ h => h.elim) rfl
  | some entries =>
    have hahead : eventsOf el entries ⊆ ev.listOf el := by
      rw [listOf_table el htable]
      exact List.Subset.refl _
    exact turns_table _ rfl (List.mem_singleton_self _) hahead (fun _ _ h => h) rfl

/-- Each turn of a thread changes what its locks allow it to. -/
theorem act_turns (x : EventM EventPoint) (h : p.move = some (.act x)) :
    IfReturns x (fun p' ev' => p.Turns ev p' ev') ev := by
  cases p with
  | allocate el type callback levels =>
    cases h
    exact allocate_turns el type callback levels
  | insert event =>
    cases h
    exact turns_table _ rfl (List.mem_singleton_self _) (List.nil_subset _) (fun _ _ h => h) rfl
  | destroyCheck id => exact destroyCheck_turns id x h
  | remove id => exact remove_turns id x h
  | destroyMark id | unref id =>
    cases h
    apply turns_theEvent
    intro e _
    exact turns_modify _ (fun _ => rfl) (fun _ => rfl) (fun _ => rfl) rfl
      (List.mem_singleton_self _) (fun _ _ _ _ _ _ h => absurd h List.not_mem_nil)
      (fun _ _ h => h) rfl
  | notifyMark id ids =>
    cases h
    apply turns_theEvent
    intro e _
    exact turns_modify _ (fun _ => rfl) (fun _ => rfl) (fun _ => rfl) rfl
      List.mem_cons_self (fun _ _ _ _ _ _ h => h) (fun _ _ h => h) rfl
  | pass id =>
    cases h
    exact turns_theEvent fun e _ => turns_read rfl (List.nil_subset _) (fun _ h => h.elim) rfl
  | free id =>
    cases h
    exact free_turns id
  | emitAssert call =>
    cases h
    rw [IfReturns, wp_ite]
    exact ⟨fun _ => trivial, fun _ => turns_read rfl (List.nil_subset _) (fun _ h => h.elim) rfl⟩
  | emitLookup call => exact emitLookup_turns x h
  | notifyLookup el => exact notifyLookup_turns el x h
  | emitVisit call ids =>
    cases ids with
    | nil => cases h
    | cons id ids => exact emitVisit_turns ids x h
  | tryEmit call id ids => exact tryEmit_turns ids x h
  | callbackAssert call id ids =>
    cases h
    apply turns_theEvent
    intro e _
    rw [IfReturns, wp_ite]
    exact ⟨fun _ => trivial, fun _ => turns_read rfl (List.Subset.refl _) (fun _ h => h.elim) rfl⟩
  | append call id ids =>
    cases h
    unfold scEventQueueAppend
    simp only [IfReturns, wp_bind, wp_modify]
    split_ifs
    · exact ⟨rfl, le_rfl, fun _ => rfl, ages_refl _, fun _ _ h => h, fun _ h => h.elim,
        fun _ h => by cases h⟩
    · exact turns_read rfl (List.Subset.refl _) (fun _ h => h.elim) rfl
  | notifyVisit ids => cases ids <;> cases h
  | idle | unlockTable | insertLock _ | destroyLock _ | removeLock _ | removeUnlock _ _
  | destroyFail _ | destroyUnlock _ | unrefLock _ | unrefUnlock _ | passLock _ | passUnlock _ _
  | emitLock _ | tryEmitLock _ _ _ | tryEmitUnlock _ _ _ _ | appendLock _ _ _ | appendUnlock _ _
  | notifyLock _ | notifyUnlock _ _ => cases h


/-! The locks of a thread are those of its point. -/

/-- Each of the locks is taken once. -/
def counts (locks : List EventLock) (l : EventLock) : ℕ := if l ∈ locks then 1 else 0

theorem counts_acquire {l : EventLock} (h : p'.holds = l :: p.holds) :
    Function.update (counts p.holds) l (l.kind.more (counts p.holds l)) = counts p'.holds := by
  have hmore : l.kind.more (counts p.holds l) = 1 := by cases l <;> rfl
  rw [h, hmore]
  funext l'
  by_cases hl : l' = l
  · simp [counts, hl]
  · simp [counts, hl]

theorem counts_release {l : EventLock} (h : p.holds = l :: p'.holds) (hl : l ∉ p'.holds) :
    Function.update (counts p.holds) l (l.kind.less (counts p.holds l)) = counts p'.holds := by
  have hless : l.kind.less (counts p.holds l) = 0 := by cases l <;> rfl
  rw [h] at hless ⊢
  rw [hless]
  funext l'
  by_cases hl' : l' = l
  · simp [counts, hl', hl]
  · simp [counts, hl']

theorem acquire_holds {l : EventLock} (h : p.move = some (.acquire l p')) :
    p'.holds = l :: p.holds := by
  cases p with
  | notifyVisit ids =>
    cases ids with
    | nil => cases h
    | cons id ids => cases h; rfl
  | emitVisit call ids => cases ids <;> cases h
  | insertLock _ | destroyLock _ | removeLock _ | unrefLock _ | passLock _ | emitLock _
  | tryEmitLock _ _ _ | appendLock _ _ _ | notifyLock _ => cases h; rfl
  | _ => cases h

theorem release_holds {l : EventLock} (h : p.move = some (.release l p')) :
    p.holds = l :: p'.holds ∧ l ∉ p'.holds := by
  cases p with
  | notifyVisit ids =>
    cases ids with
    | nil => cases h; simp [EventPoint.holds]
    | cons id ids => cases h
  | emitVisit call ids =>
    cases ids with
    | nil => cases h; simp [EventPoint.holds]
    | cons id ids => cases h
  | removeUnlock id removed => cases removed <;> cases h <;> simp [EventPoint.holds]
  | passUnlock id unused => cases unused <;> cases h <;> simp [EventPoint.holds]
  | tryEmitUnlock call id ids emitted => cases emitted <;> cases h <;> simp [EventPoint.holds]
  | unlockTable | destroyFail _ | destroyUnlock _ | unrefUnlock _ | appendUnlock _ _
  | notifyUnlock _ _ => cases h; simp [EventPoint.holds]
  | _ => cases h

/-- A thread without a lock to try and without assertions on locks. -/
theorem move_cases (mv : Move EventLock ScEvents ScStop EventPoint) (h : p.move = some mv) :
    (∃ l p', mv = .acquire l p') ∨ (∃ l p', mv = .release l p') ∨ ∃ x, mv = .act x := by
  cases p with
  | notifyVisit ids => cases ids <;> cases h <;> simp
  | emitVisit call ids => cases ids <;> cases h <;> simp
  | _ => cases h <;> simp

theorem eventLocks_follows : eventLocks.Follows (fun _ => True) fun H p => H = counts p.holds where
  entry H p t ev q hH hnone hentry := by
    have hp : p.holds = [] := by
      cases p with
      | idle => rfl
      | notifyVisit ids => cases ids <;> cases hnone
      | emitVisit call ids => cases ids <;> cases hnone
      | _ => cases hnone
    have hq : q.holds = [] := by
      cases q with
      | allocate _ _ _ _ | destroyLock _ | emitAssert _ | notifyLock _ => rfl
      | _ => cases hentry
    rw [hH, hp, hq]
  move H p mv hH hmove := by
    subst hH
    obtain ⟨l, p', rfl⟩ | ⟨l, p', rfl⟩ | ⟨x, rfl⟩ := move_cases mv hmove
    · exact counts_acquire (acquire_holds hmove)
    · obtain ⟨hholds, hl⟩ := release_holds hmove
      intro _
      exact counts_release hholds hl
    · intro ev _
      apply wp_mono (act_turns x hmove) _ (fun _ h => h)
      intro p' ev' hturns
      exact ⟨trivial, congrArg counts hturns.holds.symm⟩

end

/-! Runs in which no thread comes to want, in the opposite order, the two locks that another one
wants. -/

/-- What is asked of a step of `sc_event_destroy` that takes the lock of an event, and of one that
takes the mutex of the table to visit the events of an element. -/
def EventPoint.Apart (s : EventLockState) : EventPoint → Prop
  | .destroyLock id => (s.shared.find id).any (fun e => !e.requestDestroy) →
    ∀ u, id ∉ (s.point u).ahead s.shared
  | .emitLock call => ∀ u, ∀ id ∈ call.visits s.shared (s.shared.listOf call.el),
    ¬ (s.point u).Closing s.shared id
  | .notifyLock el => ∀ u, ∀ id ∈ s.shared.listOf el, ¬ (s.point u).Closing s.shared id
  | _ => True

def EventsApart (s : EventLockState) : Action EventPoint → Prop
  | .step t => (s.point t).Apart s
  | _ => True

/-- No thread is to take the table after an event that another one is to take after the table. -/
def Uncrossed (s : EventLockState) : Prop :=
  ∀ t u id, (s.point t).Closing s.shared id → id ∉ (s.point u).ahead s.shared

structure EventLocksOk (s : EventLockState) : Prop where
  held : ∀ t, s.held t = counts (s.point t).holds
  known : ∀ t id, (s.point t).destroyed = some id → id < s.shared.nextId
  uncrossed : Uncrossed s

section
variable {s s' : EventLockState} {t u : ℕ} {p p' q : EventPoint} {id : ℕ} {l : EventLock}
  {ev ev' : ScEvents}

theorem closing_destroyed (h : p.Closing ev id) : p.destroyed = some id := by
  cases p with
  | destroyCheck i => rw [← h.1]; rfl
  | removeLock i => rw [← show i = id from h]; rfl
  | _ => exact h.elim

theorem closing_ahead (h : p.Closing ev id) : p.ahead ev = [] := by
  cases p with
  | destroyCheck i | removeLock i => rfl
  | _ => exact h.elim

theorem EventLocksOk.exclusive (h : EventLocksOk s) (ht : l ∈ (s.point t).holds)
    (hu : l ∈ (s.point u).holds) : t = u := by
  have hpos (v : ℕ) (hv : l ∈ (s.point v).holds) : 0 < s.held v l := by
    rw [h.held v]
    simp [counts, hv]
  exact held_unique (hpos t ht) (hpos u hu)

/-- What the other threads are still to take does not grow while `p` makes its turn. -/
theorem ahead_of_turns (h : p.Turns ev p' ev') (hexclusive : ∀ l ∈ q.holds, l ∉ p.holds)
    (hid : id < ev.nextId) (hmem : id ∈ q.ahead ev') : id ∈ q.ahead ev := by
  have hlist (el : ScAddr) (htable : .table ∈ q.holds) : ev'.listOf el = ev.listOf el := by
    unfold ScEvents.listOf
    rw [h.table (hexclusive _ htable)]
  cases q with
  | emitLookup call =>
    have hmem : id ∈ call.visits ev' (ev'.listOf call.el) := hmem
    rw [hlist call.el (List.mem_singleton_self _)] at hmem
    exact visits_of_ages h.ages _ hid hmem
  | notifyLookup el =>
    have hmem : id ∈ ev'.listOf el := hmem
    rwa [hlist el (List.mem_singleton_self _)] at hmem
  | tryEmitLock call i ids =>
    obtain rfl | hmem := List.mem_cons.mp hmem
    · exact List.mem_cons_self
    · exact List.mem_cons_of_mem _ (visits_of_ages h.ages _ hid hmem)
  | emitVisit call ids | tryEmit call _ ids | tryEmitUnlock call _ ids _
  | callbackAssert call _ ids | appendLock call _ ids | append call _ ids
  | appendUnlock call ids => exact visits_of_ages h.ages _ hid hmem
  | _ => exact hmem

theorem closing_of_turns (h : p.Turns ev p' ev') (hexclusive : ∀ l ∈ q.holds, l ∉ p.holds)
    (hid : id < ev.nextId) (hclosing : q.Closing ev' id) : q.Closing ev id := by
  cases q with
  | destroyCheck i =>
    obtain ⟨rfl, hflag⟩ := hclosing
    refine ⟨rfl, ?_⟩
    obtain ⟨e', he', hflag⟩ := (Option.any_eq_true _ _).mp hflag
    obtain ⟨e, he, _, _, hcount⟩ := h.ages i e' hid he'
    rw [he, Option.any_some]
    unfold ScEvent.requestDestroy at hflag ⊢
    rw [← hcount (hexclusive _ (List.mem_singleton_self _))]
    exact hflag
  | _ => exact hclosing

/-- Thread `t` makes a step that is apart from the others. -/
theorem uncrossed_update (h : EventLocksOk s) (hpoint : s'.point = Function.update s.point t p')
    (hahead : ∀ u, u ≠ t → ∀ id < s.shared.nextId, id ∈ (s.point u).ahead s'.shared →
      id ∈ (s.point u).ahead s.shared)
    (hclosing : ∀ u, u ≠ t → ∀ id, (s.point u).Closing s'.shared id →
      (s.point u).Closing s.shared id)
    (hnewAhead : ∀ id < s.shared.nextId, id ∈ p'.ahead s'.shared →
      id ∈ (s.point t).ahead s.shared ∨ ∀ u, ¬ (s.point u).Closing s.shared id)
    (hnewClosing : ∀ id, p'.Closing s'.shared id →
      (s.point t).Closing s.shared id ∨
        (s.point t).destroyed = some id ∧ ∀ u, id ∉ (s.point u).ahead s.shared) :
    Uncrossed s' := by
  intro v u id hv hu
  rw [hpoint] at hv hu
  by_cases hvt : v = t
  · subst hvt
    rw [Function.update_self] at hv
    by_cases hut : u = v
    · -- a thread that has the lock of an event is not yet to take any under the table
      rw [hut, Function.update_self, closing_ahead hv] at hu
      exact List.not_mem_nil hu
    rw [Function.update_of_ne hut] at hu
    obtain hclose | ⟨hdestroyed, hfree⟩ := hnewClosing id hv
    · have hid := h.known v id (closing_destroyed hclose)
      exact h.uncrossed v u id hclose (hahead u hut id hid hu)
    · exact hfree u (hahead u hut id (h.known v id hdestroyed) hu)
  · rw [Function.update_of_ne hvt] at hv
    have hclose := hclosing v hvt id hv
    have hid := h.known v id (closing_destroyed hclose)
    by_cases hut : u = t
    · rw [hut, Function.update_self] at hu
      obtain hu | hfree := hnewAhead id hid hu
      · exact h.uncrossed v t id hclose hu
      · exact hfree v hclose
    · rw [Function.update_of_ne hut] at hu
      exact h.uncrossed v u id hclose (hahead u hut id hid hu)

/-- A lock is taken apart from the others. -/
theorem acquire_apart (h : p.move = some (.acquire l p')) (hapart : p.Apart s) :
    (∀ id, id ∈ p'.ahead s.shared → id ∈ p.ahead s.shared ∨
      ∀ u, ¬ (s.point u).Closing s.shared id) ∧
    (∀ id, p'.Closing s.shared id → p.Closing s.shared id ∨
      p.destroyed = some id ∧ ∀ u, id ∉ (s.point u).ahead s.shared) ∧
    ∀ id, p'.destroyed = some id → p.destroyed = some id := by
  cases p with
  | destroyLock i =>
    cases h
    refine ⟨fun _ h => absurd h List.not_mem_nil, fun id hclosing => Or.inr ?_, fun _ h => h⟩
    obtain ⟨rfl, hflag⟩ := hclosing
    exact ⟨rfl, hapart hflag⟩
  | emitLock call =>
    cases h
    exact ⟨fun id hid => Or.inr fun u => hapart u id hid, fun _ h => h.elim, fun _ h => by cases h⟩
  | notifyLock el =>
    cases h
    exact ⟨fun id hid => Or.inr fun u => hapart u id hid, fun _ h => h.elim, fun _ h => by cases h⟩
  | tryEmitLock call i ids =>
    cases h
    exact ⟨fun id hid => Or.inl (List.mem_cons_of_mem _ hid), fun _ h => h.elim,
      fun _ h => by cases h⟩
  | notifyVisit ids =>
    cases ids with
    | nil => cases h
    | cons i ids =>
      cases h
      exact ⟨fun id hid => Or.inl (List.mem_cons_of_mem _ hid), fun _ h => h.elim,
        fun _ h => by cases h⟩
  | emitVisit call ids => cases ids <;> cases h
  | insertLock _ | removeLock _ | unrefLock _ | passLock _ | appendLock _ _ _ =>
    cases h
    exact ⟨fun _ h => Or.inl h, fun _ h => h.elim, fun _ h => by cases h⟩
  | _ => cases h

theorem release_apart (h : p.move = some (.release l p')) :
    p'.ahead ev ⊆ p.ahead ev ∧ (∀ id, ¬ p'.Closing ev id) ∧ p'.destroyed = none := by
  cases p with
  | notifyVisit ids =>
    cases ids with
    | nil => cases h; exact ⟨List.Subset.refl _, fun _ h => h, rfl⟩
    | cons i ids => cases h
  | emitVisit call ids =>
    cases ids with
    | nil => cases h; exact ⟨List.Subset.refl _, fun _ h => h, rfl⟩
    | cons i ids => cases h
  | removeUnlock id removed =>
    cases removed <;> cases h <;> exact ⟨List.Subset.refl _, fun _ h => h, rfl⟩
  | passUnlock id unused =>
    cases unused <;> cases h <;> exact ⟨List.Subset.refl _, fun _ h => h, rfl⟩
  | tryEmitUnlock call id ids emitted =>
    cases emitted <;> cases h <;> exact ⟨List.Subset.refl _, fun _ h => h, rfl⟩
  | unlockTable | destroyFail _ | destroyUnlock _ | unrefUnlock _ | appendUnlock _ _
  | notifyUnlock _ _ => cases h; exact ⟨List.Subset.refl _, fun _ h => h, rfl⟩
  | _ => cases h

/-- The event of a call of `sc_event_destroy` has been created. -/
theorem known_update (h : EventLocksOk s) (hpoint : s'.point = Function.update s.point t p')
    (hnext : s.shared.nextId ≤ s'.shared.nextId)
    (hnew : ∀ id, p'.destroyed = some id → (s.point t).destroyed = some id) (u : ℕ) (id : ℕ)
    (hu : (s'.point u).destroyed = some id) : id < s'.shared.nextId := by
  apply lt_of_lt_of_le _ hnext
  rw [hpoint] at hu
  by_cases hut : u = t
  · rw [hut, Function.update_self] at hu
    exact h.known t id (hnew id hu)
  · rw [Function.update_of_ne hut] at hu
    exact h.known u id hu

theorem EventLocksOk.advance (h : EventLocksOk s) (hapart : (s.point t).Apart s)
    (hstep : eventLocks.advance s t = some s') : Uncrossed s' ∧
      ∀ u id, (s'.point u).destroyed = some id → id < s'.shared.nextId := by
  obtain ⟨mv, p', hmove, hto, hpoint⟩ := advance_to hstep
  obtain ⟨l, q, rfl⟩ | ⟨l, q, rfl⟩ | ⟨x, rfl⟩ := move_cases mv hmove
  · obtain ⟨rfl, hshared⟩ := hto
    obtain ⟨hahead, hclosing, hdestroyed⟩ := acquire_apart hmove hapart
    refine ⟨?_, known_update h hpoint (by rw [hshared]) hdestroyed⟩
    apply uncrossed_update h hpoint
    all_goals rw [hshared]
    · exact fun _ _ _ _ h => h
    · exact fun _ _ _ h => h
    · exact fun id _ => hahead id
    · exact hclosing
  · obtain ⟨rfl, hshared⟩ := hto
    have hrelease (ev : ScEvents) := @release_apart _ _ _ ev hmove
    obtain ⟨hahead, hclosing, hdestroyed⟩ := hrelease s.shared
    have hnew : ∀ id, p'.destroyed = some id → (s.point t).destroyed = some id := by
      intro id hid
      rw [hdestroyed] at hid
      cases hid
    refine ⟨?_, known_update h hpoint (by rw [hshared]) hnew⟩
    apply uncrossed_update h hpoint
    all_goals rw [hshared]
    · exact fun _ _ _ _ h => h
    · exact fun _ _ _ h => h
    · exact fun id _ hid => Or.inl (hahead hid)
    · exact fun id hid => absurd hid (hclosing id)
  · have hturns := wp_ok (act_turns x hmove) hto
    have hexclusive (u : ℕ) (hu : u ≠ t) : ∀ l ∈ (s.point u).holds, l ∉ (s.point t).holds :=
      fun l hl hl' => hu (h.exclusive hl hl')
    refine ⟨?_, known_update h hpoint hturns.nextId hturns.destroyed⟩
    apply uncrossed_update h hpoint
    · exact fun u hu id hid => ahead_of_turns hturns (hexclusive u hu) hid
    · intro u hu id hclosing
      have hid := h.known u id (closing_destroyed hclosing)
      exact closing_of_turns hturns (hexclusive u hu) hid hclosing
    · exact fun id hid hmem => Or.inl (hturns.ahead id hid hmem)
    · exact fun id hid => Or.inl (hturns.closing id hid)

/-- The points at which a thread starts. -/
theorem entry_apart (h : p.entry ev = true) : p.ahead ev = [] ∧ (∀ id, ¬ p.Closing ev id) ∧
    ∀ id, p.destroyed = some id → id < ev.nextId := by
  cases p with
  | destroyLock i =>
    refine ⟨rfl, fun _ h => h, fun id hid => ?_⟩
    rw [← Option.some.inj hid]
    exact of_decide_eq_true h
  | allocate _ _ _ _ | emitAssert _ | notifyLock _ => exact ⟨rfl, fun _ h => h, fun _ h => by cases h⟩
  | _ => cases h

/-- What every step keeps. -/
theorem EventLocksOk.step {a : Action EventPoint} (h : EventLocksOk s) (hapart : EventsApart s a)
    (hstep : eventLocks.Step s a s') : EventLocksOk s' := by
  have hheld := (eventLocks_follows.step trivial h.held hstep).2
  cases a with
  | start t p =>
    unfold Program.Step Program.perform at hstep
    rw [Option.ite_none_right_eq_some, Bool.and_eq_true] at hstep
    obtain ⟨⟨_, hentry⟩, hs⟩ := hstep
    obtain rfl := Option.some.inj hs
    obtain ⟨hahead, hclosing, hknown⟩ := entry_apart hentry
    refine ⟨hheld, ?_, ?_⟩
    · intro u id hu
      by_cases hut : u = t
      · rw [hut] at hu
        apply hknown
        simpa [State.goto] using hu
      · apply h.known u
        simpa [State.goto, hut] using hu
    · apply uncrossed_update h rfl
      · exact fun _ _ _ _ h => h
      · exact fun _ _ _ h => h
      · intro id _ hid
        have hnil : p.ahead (s.goto t p).shared = [] := hahead
        rw [hnil] at hid
        cases hid
      · exact fun id hid => absurd hid (hclosing id)
  | step t =>
    obtain ⟨huncrossed, hknown⟩ := h.advance hapart hstep
    exact ⟨hheld, hknown, huncrossed⟩
  | giveUp t =>
    obtain ⟨l, p, q, hmove, _⟩ := giveUp_to hstep
    obtain ⟨_, _, h⟩ | ⟨_, _, h⟩ | ⟨_, h⟩ := move_cases _ hmove <;> cases h

theorem initial_eventLocksOk : EventLocksOk EventLockState.initial :=
  ⟨fun _ => rfl, fun _ _ h => (nomatch h), fun _ _ _ h => h.elim⟩

open Classical in
/-- The order in which the locks are asked for; the lock of an event comes before the table while a
thread is closing the event, otherwise after it. -/
noncomputable def lockRank (s : EventLockState) : EventLock → ℕ
  | .table => 1
  | .event id => if ∃ t, (s.point t).Closing s.shared id then 0 else 2
  | .queue => 3

theorem rank_closing (h : (s.point t).Closing s.shared id) : lockRank s (.event id) = 0 :=
  if_pos ⟨t, h⟩

theorem EventLocksOk.rank_ahead (h : EventLocksOk s) (hid : id ∈ (s.point t).ahead s.shared) :
    lockRank s (.event id) = 2 :=
  if_neg fun ⟨u, hu⟩ => h.uncrossed u t id hu hid

/-- A thread that asks for a lock has only locks that come before it. -/
theorem EventLocksOk.ranked (h : EventLocksOk s) {l' : EventLock}
    (hmove : (s.point t).move = some (.acquire l' p')) (hl : l ∈ (s.point t).holds) :
    lockRank s l < lockRank s l' := by
  cases hp : s.point t with
  | removeLock id =>
    rw [hp] at hmove hl
    cases hmove
    rw [List.mem_singleton.mp hl, rank_closing (t := t) (by rw [hp]; exact rfl)]
    exact Nat.zero_lt_one
  | tryEmitLock call id ids =>
    rw [hp] at hmove hl
    cases hmove
    rw [List.mem_singleton.mp hl, h.rank_ahead (t := t) (by rw [hp]; exact List.mem_cons_self)]
    exact Nat.one_lt_two
  | notifyVisit ids =>
    rw [hp] at hmove hl
    cases ids with
    | nil => cases hmove
    | cons id ids =>
      cases hmove
      rw [List.mem_singleton.mp hl, h.rank_ahead (t := t) (by rw [hp]; exact List.mem_cons_self)]
      exact Nat.one_lt_two
  | appendLock call id ids =>
    rw [hp] at hmove hl
    cases hmove
    rw [List.mem_singleton.mp hl]
    exact Nat.lt_of_sub_eq_succ rfl
  | emitVisit call ids =>
    rw [hp] at hmove
    cases ids <;> cases hmove
  | insertLock _ | destroyLock _ | unrefLock _ | passLock _ | emitLock _ | notifyLock _ =>
    rw [hp] at hl
    cases hl
  | _ =>
    rw [hp] at hmove
    cases hmove

/-- No circle of threads that wait for each other comes up in a run whose steps take an event before
the table, or the table before an event, only while no other thread is between the two the other way
round. -/
theorem event_locks_acyclic (as : List (Action EventPoint)) (s : EventLockState)
    (h : Run (fun s a s' => eventLocks.Step s a s' ∧ EventsApart s a) EventLockState.initial as s) :
    ¬ eventLocks.Deadlocked s := by
  have hok : EventLocksOk s :=
    run_invariant EventLocksOk (fun _ _ _ h hstep => h.step hstep.2 hstep.1) as _ s
      initial_eventLocksOk h
  apply not_deadlocked_of_rank (lockRank s)
  intro t u l l' l₀ _ _ hheld hwaits
  obtain ⟨⟨p, hmove⟩, _⟩ := hwaits
  apply hok.ranked hmove
  rw [hok.held u] at hheld
  unfold counts at hheld
  by_contra hl
  simp [hl] at hheld

end

/-- A subscriber creates a subscription and destroys it while the element emits to it. -/
def crossing : List (Action EventPoint) :=
  [.start 0 (.allocate ⟨0, 1⟩ .addOutputArc .ex 0), .step 0, .step 0, .step 0, .step 0,
    .start 1 (.emitAssert ⟨⟨0, 1⟩, 0, .addOutputArc, ⟨0, 2⟩, ⟨0, 3⟩⟩), .step 1, .step 1, .step 1,
    .step 1, .start 0 (.destroyLock 0), .step 0, .step 0]

/-- The subscriber has the lock of the event and waits for the table, the other thread has the table
and waits for the lock of the event. -/
theorem event_locks_deadlock : ¬ ∀ (as : List (Action EventPoint)) (s : EventLockState),
    Run eventLocks.Step EventLockState.initial as s → ¬ eventLocks.Deadlocked s := by
  intro h
  have hrun : (eventLocks.performAll EventLockState.initial crossing).any fun s =>
      eventLocks.waitsFor s 0 1 && eventLocks.waitsFor s 1 0 := by decide +kernel
  obtain ⟨s, hs, hdeadlock⟩ := deadlock_of_performAll crossing 0 1 hrun
  exact h crossing s hs hdeadlock

/-- The destruction waits for the table with the lock of the event, while the emission, which has the table, is
done with that event. -/
theorem event_locks_acyclic_destroy : ∃ s : EventLockState,
    (s.point 0).Closing s.shared 0 ∧ eventLocks.WaitsFor s 0 1 ∧ ¬ eventLocks.Deadlocked s := by
  refine ⟨_, ?_, ?_, event_locks_acyclic
    [.start 0 (.allocate ⟨0, 1⟩ .addOutputArc .ex 0), .step 0, .step 0, .step 0, .step 0,
      .start 1 (.emitAssert ⟨⟨0, 1⟩, 0, .addOutputArc, ⟨0, 2⟩, ⟨0, 3⟩⟩), .step 1, .step 1, .step 1, .step 1, .step 1,
      .step 1, .step 1, .start 0 (.destroyLock 0), .step 0, .step 0] _
    ⟨_, ⟨rfl, trivial⟩, _, ⟨rfl, trivial⟩, _, ⟨rfl, trivial⟩, _, ⟨rfl, trivial⟩, _, ⟨rfl, trivial⟩, _,
      ⟨rfl, trivial⟩, _, ⟨rfl, trivial⟩, _, ⟨rfl, ?_⟩, _, ⟨rfl, trivial⟩, _, ⟨rfl, trivial⟩, _, ⟨rfl, trivial⟩, _,
      ⟨rfl, trivial⟩, _, ⟨rfl, trivial⟩, _, ⟨rfl, trivial⟩, _, ⟨rfl, ?_⟩, _, ⟨rfl, trivial⟩, rfl⟩⟩
  · exact rfl
  · exact ⟨.table, ⟨⟨_, rfl⟩, rfl⟩, Nat.zero_lt_one⟩
  · -- no destruction has been started
    intro u id _ hclosing
    by_cases h1 : u = 1
    · subst h1
      exact hclosing
    · by_cases h0 : u = 0
      · subst h0
        exact hclosing
      · simp [State.goto, h1, EventPoint.Closing, EventLockState.initial, State.setOwner] at hclosing
  · -- the emission has visited the event
    intro _ u
    by_cases h1 : u = 1
    · subst h1
      exact List.not_mem_nil
    · by_cases h0 : u = 0
      · subst h0
        exact List.not_mem_nil
      · simp [State.goto, h0, h1, EventPoint.ahead, EventLockState.initial, State.setOwner]

end ScMachine.Store
