import ScMachine.IteratorReferences
import ScMachine.ScSystem
import ScMachine.DeletionExact

/-! No cell is given up while an iterator or a subscription holds its element. -/
namespace ScMachine.Store
open ScMachine.StateExcept ScMachine.Runs

structure SystemEvent where
  env : ScEnv
  action : SystemAction

/-- What the callers of the store keep to. -/
def SystemAction.Allowed (s : ScSystem) : SystemAction → Prop
  | .call c => c.Allowed s.store
  | _ => True

instance (s : ScSystem) : (action : SystemAction) → Decidable (action.Allowed s)
  | .call c => inferInstanceAs (Decidable (c.Allowed s.store))
  | .iterator3New _ _ _ _ _ | .iterator3Create _ _ | .iterator3Next _ _ | .iterator3Free _ |
    .iterator5New _ _ _ _ _ _ _ | .iterator5Next _ _ | .iterator5Free _ | .eventNew _ _ _ _ |
    .eventDestroy _ | .eventDestroyWait _ | .eventCall _ _ | .pendingBegin _ | .pendingEnd _ |
    .workerStart _ | .workerFinish _ | .stopProcessing => inferInstanceAs (Decidable True)

/-- A step of the one thread that uses the store. -/
structure SystemStep (thread : ℕ) (s : ScSystem) (e : SystemEvent) (s' : ScSystem) : Prop where
  thread_eq : e.env.thread = thread
  allowed : e.action.Allowed s
  step : e.action.run e.env s = .ok ((), s')

/-- All iterators over three elements, with those that are parts of one over five. -/
def ScSystem.iterators (s : ScSystem) : List ScIterator3 :=
  s.iterators3 ++ s.iterators5.flatMap ScIterator5.parts

/-- The iterators that hold `a` and the subscriptions to it. -/
def ScSystem.holders (s : ScSystem) (a : ScAddr) : ℕ :=
  (s.iterators.filter fun it => a ∈ it.held).length +
    (s.events.events.filter fun event => event.element = a).length

/-- All references that are to be accounted for. -/
def ScSystem.references (s : ScSystem) (a : ScAddr) : ℤ :=
  (if Live s.store.cell a then 1 else 0)+s.holders a

/-- The references of all holders, each as often as it is taken. -/
def ScSystem.held (s : ScSystem) : List ScAddr :=
  s.iterators3.flatMap ScIterator3.held ++ (s.iterators5.flatMap ScIterator5.held ++
    s.events.events.map ScEvent.element)

structure SystemOk (thread : ℕ) (s : ScSystem) : Prop where
  store : StoreOk thread s.store
  refs : RefsHeld s.store s.held

section
variable {α : Type} {env : ScEnv} {s : ScSystem} {st : ScStorage} {ev : ScEvents}
  {held : List ScAddr} {a : ScAddr} {thread : ℕ}

theorem wp_inStore (x : StoreM α) (Q : α → ScSystem → Prop) (E : ScStop → Prop) (s : ScSystem) :
    Wp (inStore x) Q E s ↔ Wp x (fun r st => Q r { s with store := st }) E s.store := by
  unfold Wp inStore
  cases x s.store <;> exact Iff.rfl

theorem wp_inEvents (x : EventM α) (Q : α → ScSystem → Prop) (E : ScStop → Prop) (s : ScSystem) :
    Wp (inEvents x) Q E s ↔ Wp x (fun r ev => Q r { s with events := ev }) E s.events := by
  unfold Wp inEvents
  cases x s.events <;> exact Iff.rfl

/-! The event system leaves the elements that the events are subscribed to as they are. -/

def SubscribedTo (l : List ScAddr) (ev : ScEvents) : Prop := ev.events.map ScEvent.element = l

variable {l : List ScAddr}

theorem keeps_modifyEvent (id : ℕ) (f : ScEvent → ScEvent) (hf : ∀ e, (f e).element = e.element) :
    Keeps (SubscribedTo l) (modifyEvent id f) := by
  apply keeps_modify
  intro ev h
  unfold SubscribedTo at h ⊢
  rw [← h, List.map_map]
  apply List.map_congr_left
  intro e _
  rw [Function.comp_apply]
  split_ifs
  · exact hf e
  · rfl

theorem keeps_removeEventFromTable (event : ScEvent) :
    Keeps (SubscribedTo l) (removeEventFromTable event) := by
  apply (keeps_get _).bind
  intro ev
  split
  · exact keeps_throw _ _
  · apply (keeps_pure _ _).ite
    exact Keeps.bind (keeps_modify _ _ fun _ h => h) fun _ => keeps_pure _ _

theorem keeps_tryEmit (event : ScEvent) : Keeps (SubscribedTo l) (scEventTryEmit event) := by
  apply (keeps_pure _ _).ite
  have hmodify : Keeps (SubscribedTo l) (modifyEvent event.id fun e =>
      { e with refCount := e.refCount+1 }) := keeps_modifyEvent _ _ fun _ => rfl
  exact (keeps_throw _ _).ite (hmodify.bind fun _ => keeps_pure _ _)

theorem keeps_emitToEvents (access : ScAccessLevels) (type : ScEventType) (edge other : ScAddr)
    (ids : List ℕ) : Keeps (SubscribedTo l) (emitToEvents access type edge other ids) := by
  induction ids with
  | nil => exact keeps_pure _ _
  | cons id ids ih =>
    apply (keeps_get _).bind
    intro ev
    split
    · exact keeps_throw _ _
    · apply Keeps.ite
      · apply (keeps_tryEmit _).bind
        intro r
        apply Keeps.ite
        · apply (keeps_throw _ _).ite
          refine Keeps.bind (keeps_modify _ _ ?_) fun _ => ih
          intro ev h
          split_ifs <;> exact h
        · exact ih
      · exact ih

theorem keeps_emitImpl (el : ScAddr) (access : ScAccessLevels) (type : ScEventType)
    (edge other : ScAddr) : Keeps (SubscribedTo l) (scEventEmitImpl el access type edge other) := by
  apply (keeps_throw _ _).ite
  apply (keeps_get _).bind
  intro ev
  split
  · exact keeps_pure _ _
  · exact keeps_emitToEvents access type edge other _

theorem keeps_requestDestroyAll (ids : List ℕ) :
    Keeps (SubscribedTo l) (requestDestroyAll ids) := by
  induction ids with
  | nil => exact keeps_pure _ _
  | cons id ids ih => exact Keeps.bind (keeps_modifyEvent _ _ fun _ => rfl) fun _ => ih

theorem keeps_notifyElementDeleted (el : ScAddr) :
    Keeps (SubscribedTo l) (scEventNotifyElementDeleted el) := by
  apply (keeps_get _).bind
  intro ev
  split
  · exact keeps_pure _ _
  · exact Keeps.bind (keeps_modify _ _ fun _ h => h) fun _ => keeps_requestDestroyAll _

theorem keeps_eventCall (ctx : ScContext) (call : ScEventCall) :
    Keeps (SubscribedTo l) (eventCall ctx call) := by
  cases call with
  | elementDeleted el => exact keeps_notifyElementDeleted el
  | emit el access type edge other =>
    apply (keeps_get _).bind
    intro ev
    split
    · exact keeps_modify _ _ fun _ h => h
    · exact keeps_emitImpl el access type edge other

theorem keeps_eventCalls (ctx : ScContext) (calls : List ScEventCall) :
    Keeps (SubscribedTo l) (eventCalls ctx calls) := by
  induction calls with
  | nil => exact keeps_pure _ _
  | cons call calls ih => exact (keeps_eventCall ctx call).bind fun _ => ih

theorem keeps_pendingEnd (ctx : ScContext) :
    Keeps (SubscribedTo l) (scMemoryContextPendingEnd ctx) := by
  apply (keeps_get _).bind
  intro ev
  split
  · exact keeps_throw _ _
  · exact Keeps.bind (keeps_modify _ _ fun _ h => h) fun _ => keeps_eventCalls ctx _

theorem keeps_pendingBegin (ctx : ScContext) :
    Keeps (SubscribedTo l) (scMemoryContextPendingBegin ctx) := by
  apply (keeps_get _).bind
  intro ev
  exact (keeps_throw _ _).ite (keeps_modify _ _ fun _ h => h)

theorem keeps_workerStart (i : ℕ) : Keeps (SubscribedTo l) (scEventPoolWorkerStart i) := by
  apply (keeps_get _).bind
  intro ev
  split
  · exact keeps_pure _ _
  · apply (keeps_get _).bind
    intro ev
    exact (keeps_throw _ _).ite (keeps_modify _ _ fun _ h => h)

theorem keeps_workerFinish (i : ℕ) : Keeps (SubscribedTo l) (scEventPoolWorkerFinish i) := by
  apply (keeps_get _).bind
  intro ev
  split
  · exact keeps_pure _ _
  · apply (keeps_get _).bind
    intro ev
    apply (keeps_throw _ _).ite
    exact Keeps.bind (keeps_modifyEvent _ _ fun _ => rfl) fun _ => keeps_modify _ _ fun _ h => h

theorem keeps_destroyRequest (id : ℕ) : Keeps (SubscribedTo l) (scEventDestroyRequest id) := by
  apply (keeps_get _).bind
  intro ev
  split
  · exact keeps_throw _ _
  · apply (keeps_pure _ _).ite
    apply (keeps_removeEventFromTable _).bind
    intro r
    apply (keeps_pure _ _).ite
    exact Keeps.bind (keeps_modifyEvent _ _ fun _ => rfl) fun _ => keeps_pure _ _

theorem keeps_destroyStart (id : ℕ) : Keeps (SubscribedTo l) (scEventDestroyStart id) := by
  apply (keeps_destroyRequest id).bind
  intro r
  apply (keeps_pure _ _).ite
  exact Keeps.bind (keeps_modifyEvent _ _ fun _ => rfl) fun _ => keeps_pure _ _

/-! Each action keeps the references of all holders. -/

theorem keeps_elements (h : SystemOk thread s) {x : EventM α}
    (hx : Keeps (SubscribedTo (s.events.events.map ScEvent.element)) x) :
    IfReturns (inEvents x) (fun _ s' => SystemOk thread s') s := by
  rw [IfReturns, wp_inEvents]
  apply wp_mono (hx s.events rfl) _ (fun _ _ => trivial)
  intro _ ev hev
  refine ⟨h.store, ?_⟩
  have hheld : ({ s with events := ev } : ScSystem).held = s.held := by
    unfold ScSystem.held
    rw [hev]
  rw [hheld]
  exact h.refs

theorem SystemOk.tracked (h : SystemOk thread s) {held : List ScAddr}
    (hheld : ∀ y, held.count y ≤ s.held.count y) : Tracked env s.store.locks [] held s.store :=
  ⟨holds_start _ _ h.store.wf.1 h.store.wf.2, h.store.cells, h.refs.mono hheld⟩

/-- At the end of an action the locks are those of its beginning. -/
theorem SystemOk.of_tracked {s' : ScSystem} (h : SystemOk thread s)
    (ht : Tracked env s.store.locks [] held s'.store)
    (hheld : ∀ y, s'.held.count y ≤ held.count y) : SystemOk thread s' := by
  refine ⟨⟨ht.holds.storeWf, ?_, ht.cells⟩, ht.refs.mono hheld⟩
  intro k
  rw [ht.holds.end_]
  exact h.store.own k

/-- A part of the list of the holders of references may be looked at first. -/
theorem count_flatMap_get {β : Type} (f : β → List ScAddr) {l : List β} {i : ℕ} {b : β}
    (hb : l[i]? = some b) (y : ScAddr) :
    (l.flatMap f).count y = (f b).count y+((l.eraseIdx i).flatMap f).count y := by
  obtain ⟨hi, rfl⟩ := List.getElem?_eq_some_iff.mp hb
  have hperm := (List.getElem_cons_eraseIdx_perm hi).flatMap_right f
  rw [← hperm.count_eq, List.flatMap_cons, List.count_append]

theorem count_flatMap_set {β : Type} (f : β → List ScAddr) {l : List β} {i : ℕ} {b : β} (b' : β)
    (hb : l[i]? = some b) (y : ScAddr) :
    ((l.set i b').flatMap f).count y = (f b').count y+((l.eraseIdx i).flatMap f).count y := by
  obtain ⟨hi, rfl⟩ := List.getElem?_eq_some_iff.mp hb
  have hperm := (List.set_perm_cons_eraseIdx hi b').flatMap_right f
  rw [hperm.count_eq, List.flatMap_cons, List.count_append]

theorem find_cons_eraseP {β : Type} (p : β → Bool) (l : List β) (b : β)
    (hb : l.find? p = some b) : (b :: l.eraseP p).Perm l := by
  induction l with
  | nil => simp at hb
  | cons c l ih =>
    by_cases hc : p c = true
    · rw [List.find?_cons_of_pos hc, Option.some.injEq] at hb
      rw [List.eraseP_cons_of_pos hc, hb]
    · rw [List.find?_cons_of_neg hc] at hb
      rw [List.eraseP_cons_of_neg hc]
      exact (List.Perm.swap c b _).trans ((ih hb).cons c)

theorem call_systemOk (h : SystemOk thread s) (henv : env.thread = thread) (c : StorageCall)
    (hallow : c.Allowed s.store) :
    IfReturns (storageCall env c) (fun _ s' => SystemOk thread s') s := by
  unfold storageCall
  simp only [IfReturns, wp_bind, wp_get, wp_inStore]
  apply ifReturns_of_ok
  intro _ st hs
  have hok : SystemOk thread { s with store := st } := by
    refine ⟨storeOk_step s.store ⟨env, .call c⟩ st h.store ⟨henv, hallow, hs⟩, ?_⟩
    have heff := step_effect h.store.wf h.store.cells (.call c) hallow hs
    exact heff.refsHeld h.store.cells hallow h.refs
  cases c.emitContext with
  | none => exact hok
  | some ctx => exact keeps_elements hok (keeps_eventCalls ctx _)

theorem addIterator3_systemOk (h : SystemOk thread s)
    {x : StoreM (Option ScIterator3)}
    (hx : ∀ held, Tracked env s.store.locks [] held s.store →
      IfReturns x (fun r st => Tracked env s.store.locks []
        (r.toList.flatMap ScIterator3.held ++ held) st) s.store) :
    IfReturns (addIterator3 x) (fun _ s' => SystemOk thread s') s := by
  unfold addIterator3
  simp only [IfReturns, wp_bind, wp_inStore, wp_modify]
  apply wp_mono (hx _ (h.tracked fun y => le_refl _)) _ (fun _ _ => trivial)
  intro r st ht
  apply h.of_tracked ht
  intro y
  simp only [ScSystem.held, List.flatMap_append, List.count_append]
  omega

theorem addIterator5_systemOk (h : SystemOk thread s)
    {x : StoreM (Option ScIterator5)}
    (hx : ∀ held, Tracked env s.store.locks [] held s.store →
      IfReturns x (fun r st => Tracked env s.store.locks []
        (r.toList.flatMap ScIterator5.held ++ held) st) s.store) :
    IfReturns (addIterator5 x) (fun _ s' => SystemOk thread s') s := by
  unfold addIterator5
  simp only [IfReturns, wp_bind, wp_inStore, wp_modify]
  apply wp_mono (hx _ (h.tracked fun y => le_refl _)) _ (fun _ _ => trivial)
  intro r st ht
  apply h.of_tracked ht
  intro y
  simp only [ScSystem.held, List.flatMap_append, List.count_append]
  omega

/-- An iterator holds its part of the references. -/
theorem SystemOk.iterator3 (h : SystemOk thread s) {i : ℕ} {it : ScIterator3}
    (hi : s.iterators3[i]? = some it) :
    Tracked env s.store.locks [] (it.held ++
      ({ s with iterators3 := s.iterators3.eraseIdx i } : ScSystem).held) s.store := by
  apply h.tracked
  intro y
  simp only [ScSystem.held, List.count_append, count_flatMap_get ScIterator3.held hi]
  omega

theorem SystemOk.iterator5 (h : SystemOk thread s) {i : ℕ} {it : ScIterator5}
    (hi : s.iterators5[i]? = some it) :
    Tracked env s.store.locks [] (it.held ++
      ({ s with iterators5 := s.iterators5.eraseIdx i } : ScSystem).held) s.store := by
  apply h.tracked
  intro y
  simp only [ScSystem.held, List.count_append, count_flatMap_get ScIterator5.held hi]
  omega

theorem iterator3Next_systemOk (h : SystemOk thread s)
    (unset : ScAddr → ScType) (i : ℕ) :
    IfReturns ((SystemAction.iterator3Next unset i).run env) (fun _ s' => SystemOk thread s') s := by
  unfold SystemAction.run
  rw [IfReturns, wp_bind, wp_get]
  cases hi : s.iterators3[i]? with
  | none => exact h
  | some it =>
    simp only [wp_bind, wp_inStore, wp_modify]
    apply wp_mono (next_tracked rfl rfl unset (h.iterator3 hi)) _ (fun _ _ => trivial)
    intro r st hafter
    apply h.of_tracked hafter.tracked
    intro y
    simp only [ScSystem.held, List.count_append, count_flatMap_set ScIterator3.held r.2 hi]
    omega

theorem iterator3Free_systemOk (h : SystemOk thread s) (i : ℕ) :
    IfReturns ((SystemAction.iterator3Free i).run env) (fun _ s' => SystemOk thread s') s := by
  unfold SystemAction.run
  rw [IfReturns, wp_bind, wp_get]
  cases hi : s.iterators3[i]? with
  | none => exact h
  | some it =>
    simp only [wp_bind, wp_inStore, wp_modify]
    apply wp_mono (free_tracked (h.iterator3 hi)) _ (fun _ _ => trivial)
    intro _ st ht'
    exact h.of_tracked ht' fun y => le_refl _

theorem iterator5Next_systemOk (h : SystemOk thread s)
    (unset : ScAddr → ScType) (i : ℕ) :
    IfReturns ((SystemAction.iterator5Next unset i).run env) (fun _ s' => SystemOk thread s') s := by
  unfold SystemAction.run
  rw [IfReturns, wp_bind, wp_get]
  cases hi : s.iterators5[i]? with
  | none => exact h
  | some it =>
    simp only [wp_bind, wp_inStore, wp_modify]
    apply wp_mono (next5_tracked unset it (h.iterator5 hi)) _ (fun _ _ => trivial)
    intro r st ht'
    apply h.of_tracked ht'
    intro y
    simp only [ScSystem.held, List.count_append, count_flatMap_set ScIterator5.held r.2 hi]
    omega

theorem iterator5Free_systemOk (h : SystemOk thread s) (i : ℕ) :
    IfReturns ((SystemAction.iterator5Free i).run env) (fun _ s' => SystemOk thread s') s := by
  unfold SystemAction.run
  rw [IfReturns, wp_bind, wp_get]
  cases hi : s.iterators5[i]? with
  | none => exact h
  | some it =>
    simp only [wp_bind, wp_inStore, wp_modify]
    apply wp_mono (free5_tracked it (h.iterator5 hi)) _ (fun _ _ => trivial)
    intro _ st ht'
    exact h.of_tracked ht' fun y => le_refl _

/-- A new event has taken its reference before it exists. -/
theorem eventNew_systemOk (h : SystemOk thread s) (ctx : ScContext)
    (el : ScAddr) (type : ScEventType) (callback : EventCallback) :
    IfReturns (scEventNew env ctx el type callback) (fun _ s' => SystemOk thread s') s := by
  unfold scEventNew
  rw [IfReturns, wp_ite]
  refine ⟨fun _ => h, fun _ => ?_⟩
  rw [wp_bind, wp_inStore]
  apply wp_mono (getAccessLevels_tracked (h.tracked fun y => le_refl _) ctx el) _
    (fun _ _ => trivial)
  intro r st ht
  have hsame : SystemOk thread { s with store := st } := h.of_tracked ht fun y => le_refl _
  split
  · rw [wp_ite]
    refine ⟨fun _ => hsame, fun _ => ?_⟩
    rw [wp_bind, wp_inStore]
    apply wp_mono (ref_tracked ht el) _ (fun _ _ => trivial)
    intro _ st2 ht2
    rw [wp_inEvents]
    simp only [allocateEvent, insertEventIntoTable, wp_bind, wp_get, wp_modify, wp_pure]
    apply h.of_tracked ht2
    intro y
    simp only [ScSystem.held, List.map_append, List.count_append, List.map_cons, List.map_nil,
      List.count_cons, List.count_nil]
    omega
  · exact hsame

/-- An event gives back its reference when it no longer exists. -/
theorem eventDestroyWait_systemOk (h : SystemOk thread s) (id : ℕ) :
    IfReturns (scEventDestroyWait env id) (fun _ s' => SystemOk thread s') s := by
  unfold scEventDestroyWait scEventDestroyPass
  rw [IfReturns, wp_bind, wp_inEvents, wp_bind, wp_get]
  cases hid : s.events.find id with
  | none => trivial
  | some event =>
    simp only
    rw [wp_ite]
    refine ⟨fun _ => ?_, fun _ => h⟩
    simp only [wp_bind, wp_modify, wp_pure, wp_inStore]
    have hperm := (find_cons_eraseP _ _ _ hid).map ScEvent.element
    have ht : Tracked env s.store.locks [] (event.element :: (s.iterators3.flatMap ScIterator3.held
        ++ (s.iterators5.flatMap ScIterator5.held ++ (s.events.events.eraseP fun e => e.id = id).map
          ScEvent.element))) s.store := by
      apply h.tracked
      intro y
      have hcount := hperm.count_eq y
      simp only [List.map_cons, List.count_cons] at hcount
      simp only [ScSystem.held, List.count_append, List.count_cons]
      omega
    apply wp_mono (unref_tracked ht) _ (fun _ _ => trivial)
    intro _ st ht'
    exact h.of_tracked ht' fun y => le_refl _

theorem systemOk_step (s : ScSystem) (e : SystemEvent) (s' : ScSystem) (h : SystemOk thread s)
    (hs : SystemStep thread s e s') : SystemOk thread s' := by
  obtain ⟨env, action⟩ := e
  have hstep : IfReturns (action.run env) (fun _ s' => SystemOk thread s') s := by
    cases action with
    | call c => exact call_systemOk h hs.thread_eq c hs.allowed
    | iterator3New ctx type p1 p2 p3 =>
      apply addIterator3_systemOk h
      exact fun _ ht => scIterator3New_tracked ctx type p1 p2 p3 ht
    | iterator3Create ctx params =>
      apply addIterator3_systemOk h
      exact fun _ ht => create_tracked ctx params ht
    | iterator3Next unset i => exact iterator3Next_systemOk h unset i
    | iterator3Free i => exact iterator3Free_systemOk h i
    | iterator5New ctx type p1 p2 p3 p4 p5 =>
      apply addIterator5_systemOk h
      exact fun _ ht => scIterator5New_tracked ctx type p1 p2 p3 p4 p5 ht
    | iterator5Next unset i => exact iterator5Next_systemOk h unset i
    | iterator5Free i => exact iterator5Free_systemOk h i
    | eventNew ctx el type callback =>
      unfold SystemAction.run
      rw [IfReturns, wp_bind]
      apply wp_mono (eventNew_systemOk h ctx el type callback) _ (fun _ _ => trivial)
      exact fun _ _ h' => h'
    | eventDestroy id =>
      unfold SystemAction.run
      rw [IfReturns, wp_bind]
      apply wp_mono (keeps_elements h (keeps_destroyStart id)) _ (fun _ _ => trivial)
      exact fun _ _ h' => h'
    | eventDestroyWait id => exact eventDestroyWait_systemOk h id
    | eventCall ctx c => exact keeps_elements h (keeps_eventCall ctx c)
    | pendingBegin ctx => exact keeps_elements h (keeps_pendingBegin ctx)
    | pendingEnd ctx => exact keeps_elements h (keeps_pendingEnd ctx)
    | workerStart i => exact keeps_elements h (keeps_workerStart i)
    | workerFinish i => exact keeps_elements h (keeps_workerFinish i)
    | stopProcessing => exact keeps_elements h (keeps_modify _ _ fun _ h' => h')
  exact wp_ok (Q := fun _ s' => SystemOk thread s') hstep hs.step

theorem systemOk_empty (thread : ℕ) : SystemOk thread ScSystem.empty := by
  refine ⟨storeOk_empty thread, fun a => ?_, fun a => iff_of_true rfl rfl⟩
  have hdead : ¬ Live ScSystem.empty.store.cell a := by
    unfold Live
    rw [show ScSystem.empty.store.cell a = ScElement.zero from rfl]
    decide
  rw [if_neg hdead]
  rfl

theorem systemRun_ok (evs : List SystemEvent) (s : ScSystem)
    (hr : Run (SystemStep thread) ScSystem.empty evs s) : SystemOk thread s :=
  run_invariant (SystemOk thread) systemOk_step evs _ s (systemOk_empty thread) hr

/-! Each holder is counted as often as it has references, and at least once. -/

theorem holders_le_count (l : List ScIterator3) (a : ScAddr) :
    (l.filter fun it => a ∈ it.held).length ≤ (l.flatMap ScIterator3.held).count a := by
  induction l with
  | nil => exact le_refl 0
  | cons it l ih =>
    rw [List.flatMap_cons, List.count_append]
    by_cases ha : a ∈ it.held
    · have hpos : 0 < it.held.count a := List.count_pos_iff.mpr ha
      rw [List.filter_cons_of_pos (by simpa using ha), List.length_cons]
      omega
    · rw [List.filter_cons_of_neg (by simpa using ha)]
      omega

theorem holders_le_held (s : ScSystem) (a : ScAddr) : s.holders a ≤ s.held.count a := by
  have hiter := holders_le_count s.iterators a
  have hevents : (s.events.events.filter fun event => event.element = a).length =
      (s.events.events.map ScEvent.element).count a := by
    rw [List.count, List.countP_map, List.countP_eq_length_filter]
    rfl
  have hfive : s.iterators5.flatMap ScIterator5.held =
      (s.iterators5.flatMap ScIterator5.parts).flatMap ScIterator3.held := by
    rw [List.flatMap_assoc]
    rfl
  unfold ScSystem.iterators at hiter
  rw [List.flatMap_append, List.count_append, ← hfive] at hiter
  unfold ScSystem.holders ScSystem.held ScSystem.iterators
  rw [List.count_append, List.count_append]
  omega

/-- In every state that a single thread reaches, the count of every element covers its own
reference, the iterators that hold it and the subscriptions to it, and no cell that is free or that
the allocator would give out has any of them. -/
theorem references_accounted (evs : List SystemEvent) (s : ScSystem)
    (hr : Run (SystemStep thread) ScSystem.empty evs s) (a : ScAddr) :
    s.references a ≤ s.store.refCount a ∧
      ((s.store.cell a).type = 0 ∨ s.store.IsHole a → s.references a = 0) := by
  have hok := systemRun_ok evs s hr
  have hcount := hok.refs.count a
  have hholders := holders_le_held s a
  have hle : s.references a ≤ s.store.refCount a := by
    unfold ScSystem.references
    omega
  refine ⟨hle, ?_⟩
  intro hfree
  have htype : (s.store.cell a).type = 0 := by
    rcases hfree with htype | hhole
    · exact htype
    · by_contra hne
      exact hok.store.cells.holes.not_hole hne hhole
  have hzero := (hok.refs.free a).mp htype
  have hpos : 0 ≤ s.references a := by
    unfold ScSystem.references
    split_ifs <;> omega
  omega

end

/-- The state after some events, those that stop left out. -/
def systemAfter : List SystemEvent → ScSystem → ScSystem
  | [], s => s
  | e :: evs, s =>
    match e.action.run e.env s with
    | .ok (_, s') => systemAfter evs s'
    | .error _ => systemAfter evs s

/-- Whether the events are a run of one thread. -/
def systemEvents (thread : ℕ) : List SystemEvent → ScSystem → Bool
  | [], _ => true
  | e :: evs, s => decide (e.env.thread = thread) && decide (e.action.Allowed s) &&
      match e.action.run e.env s with
      | .ok (_, s') => systemEvents thread evs s'
      | .error _ => false

theorem systemRun_of_events {thread : ℕ} (evs : List SystemEvent) (s : ScSystem)
    (h : systemEvents thread evs s = true) :
    Run (SystemStep thread) s evs (systemAfter evs s) := by
  induction evs generalizing s with
  | nil => rfl
  | cons e evs ih =>
    unfold systemEvents at h
    simp only [Bool.and_eq_true, decide_eq_true_eq] at h
    obtain ⟨⟨ht, ha⟩, hrest⟩ := h
    unfold systemAfter
    cases hs : e.action.run e.env s with
    | error stop =>
      rw [hs] at hrest
      exact absurd hrest Bool.false_ne_true
    | ok p =>
      rw [hs] at hrest
      exact ⟨p.2, ⟨ht, ha, hs⟩, ih p.2 hrest⟩

/-- An arc is deleted while an iterator stands on it and an event is subscribed to it. -/
def heldArcEvents : List SystemEvent :=
  [⟨exampleEnv, .call (.nodeNew exampleContext 0)⟩, ⟨exampleEnv, .call (.nodeNew exampleContext 0)⟩,
    ⟨exampleEnv, .call (.arcNew exampleContext scTypeArcCommon ⟨0, 1⟩ ⟨0, 33⟩)⟩,
    ⟨exampleEnv, .iterator3Create exampleContext (.faa ⟨0, 1⟩ 0 0)⟩,
    ⟨exampleEnv, .iterator3Next (fun _ => 0) 0⟩,
    ⟨exampleEnv, .eventNew exampleContext ⟨0, 65⟩ .removeElement .simple⟩,
    ⟨exampleEnv, .call (.elementFree exampleContext tableOrder ⟨0, 65⟩)⟩]

theorem references_accounted_heldArc :
    (systemAfter heldArcEvents ScSystem.empty).references ⟨0, 65⟩ = 2 ∧
      (systemAfter heldArcEvents ScSystem.empty).references ⟨0, 65⟩ ≤
        (systemAfter heldArcEvents ScSystem.empty).store.refCount ⟨0, 65⟩ :=
  ⟨by unfold ScSystem.references Live; decide +kernel,
    (references_accounted heldArcEvents _
      (@systemRun_of_events 1 heldArcEvents _ (by decide +kernel)) ⟨0, 65⟩).1⟩

end ScMachine.Store
