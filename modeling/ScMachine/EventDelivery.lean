import ScMachine.EventReferences

/-! What a sequence of calls to the event system queues, in immediate and in pending mode. -/
namespace ScMachine.Store
open ScMachine.StateExcept ScMachine.Runs

/-- What an emission on `el` queues, when the subscriptions to the elements `gone` have been
dropped. -/
def ScEvents.heard (ev : ScEvents) (gone : List ScAddr) (el : ScAddr) (access : ScAccessLevels)
    (type : ScEventType) (edge other : ScAddr) : List EventJob :=
  if el ∈ gone then [] else (ev.subscribers el access type).map fun id => ⟨id, edge, other⟩

/-- What a sequence of calls queues in immediate mode. -/
def ScEvents.notified (ev : ScEvents) : List ScAddr → List ScEventCall → List EventJob
  | _, [] => []
  | gone, .emit el access type edge other :: calls =>
    ev.heard gone el access type edge other ++ ev.notified gone calls
  | gone, .elementDeleted el :: calls => ev.notified (el :: gone) calls

def goneAfter : List ScAddr → List ScEventCall → List ScAddr
  | gone, [] => gone
  | gone, .emit _ _ _ _ _ :: calls => goneAfter gone calls
  | gone, .elementDeleted el :: calls => goneAfter (el :: gone) calls

/-- The calls that are put off in pending mode. -/
def putOff : List ScEventCall → List ScEventCall
  | [] => []
  | .emit el access type edge other :: calls => .emit el access type edge other :: putOff calls
  | .elementDeleted _ :: calls => putOff calls

/-- The jobs for the event `id`. -/
def jobCount (id : ℕ) (jobs : List EventJob) : ℕ := jobs.countP fun job => job.event = id

/-- Where `jobs` have been queued already, the assertions of `sc_event_emit_impl` hold for all of
`calls`: no emission on an empty address, no count that exceeds its limit. -/
structure CallsRoom (ev : ScEvents) (gone : List ScAddr) (jobs : List EventJob)
    (calls : List ScEventCall) : Prop where
  element : ∀ el access type edge other, .emit el access type edge other ∈ calls → el ≠ ScAddr.empty
  count : ∀ id e, ev.find id = some e → 0 < jobCount id (ev.notified gone calls) →
    e.refs+jobCount id jobs+jobCount id (ev.notified gone calls) ≤ 2147483647

/-- `ev'` is `ev` after calls that have dropped the subscriptions to `gone` and have queued `jobs`. -/
structure Delivered (ev : ScEvents) (gone : List ScAddr) (jobs : List EventJob) (ev' : ScEvents) :
    Prop where
  listOf : ∀ el, ev'.listOf el = if el ∈ gone then [] else ev.listOf el
  find : ∀ id e', ev'.find id = some e' → ∃ e, ev.find id = some e ∧ e'.type = e.type ∧
    e'.accessLevels = e.accessLevels ∧ e'.refs = e.refs+jobCount id jobs
  queue : ev'.queue = ev.queue ++ if ev.running then jobs else []
  running : ev'.running = ev.running

section
variable {ev ev' : ScEvents} {phase : ℕ → DestroyPhase} {gone : List ScAddr} {jobs : List EventJob}
  {calls : List ScEventCall} {e : ScEvent} {id : ℕ}

theorem jobCount_append (id : ℕ) (a b : List EventJob) :
    jobCount id (a ++ b) = jobCount id a+jobCount id b := List.countP_append

theorem jobCount_map (id : ℕ) (ids : List ℕ) (edge other : ScAddr) :
    jobCount id (ids.map fun x => ⟨x, edge, other⟩) = ids.count id := countP_jobs edge other ids id

theorem mem_goneAfter (x : ScAddr) (calls : List ScEventCall) (gone : List ScAddr) :
    x ∈ goneAfter gone calls ↔ x ∈ gone ∨ .elementDeleted x ∈ calls := by
  induction calls generalizing gone with
  | nil => simp [goneAfter]
  | cons call calls ih =>
    cases call with
    | emit el access type edge other =>
      unfold goneAfter
      rw [ih]
      simp
    | elementDeleted el =>
      unfold goneAfter
      rw [ih]
      simp only [List.mem_cons, ScEventCall.elementDeleted.injEq]
      tauto

theorem delivered_start : Delivered ev [] [] ev := by
  refine ⟨?_, ?_, ?_, rfl⟩
  · intro el
    simp
  · intro id e he
    exact ⟨e, he, rfl, rfl, rfl⟩
  · simp

/-- The count of an event that is not being destroyed. -/
theorem refCount_lt_iff (hflag : e.requestDestroy = false) :
    e.refCount < scEventRefCountMask ↔ e.refs < 2147483647 := by
  have hmask : scEventRefCountMask.toNat = 2147483647 := by decide
  rw [requestDestroy_eq, decide_eq_false_iff_not] at hflag
  rw [BitVec.lt_def, hmask, refs_eq]
  omega

/-- The subscriptions that are left hear the same as before. -/
theorem Delivered.subscribers (h : Delivered ev gone jobs ev') (hs : EventsOk ⟨ev, phase⟩)
    (hs' : EventsOk ⟨ev', phase⟩) (el : ScAddr) (access : ScAccessLevels) (type : ScEventType) :
    ev'.subscribers el access type = if el ∈ gone then [] else ev.subscribers el access type := by
  unfold ScEvents.subscribers ScEvents.accepting
  have hlist := h.listOf el
  rw [hlist]
  by_cases hel : el ∈ gone
  · rw [if_pos hel, if_pos hel, List.filter_nil]
  · rw [if_neg hel] at hlist
    rw [if_neg hel, if_neg hel]
    apply List.filter_congr
    intro id hid
    obtain ⟨e, he, _, hflag, _⟩ := listOf_find hs hid
    obtain ⟨e', he', _, hflag', _⟩ := @listOf_find ⟨ev', phase⟩ id hs' el (by rwa [hlist])
    obtain ⟨e0, he0, htype, hlevels, _⟩ := h.find id e' he'
    rw [he, Option.some.injEq] at he0
    dsimp only at he he'
    rw [he, he', Option.any_some, Option.any_some, ScEvent.accepts, ScEvent.accepts, htype, hlevels,
      hflag, hflag', he0]

/-! One call. -/

/-- The assertions that one emission makes. -/
def HeardRoom (ev : ScEvents) (jobs : List EventJob) (el : ScAddr) (ids : List ℕ) : Prop :=
  el ≠ ScAddr.empty ∧ ∀ id ∈ ids, ∀ e, ev.find id = some e → e.refs+jobCount id jobs < 2147483647

theorem Delivered.hasRefRoom (h : Delivered ev gone jobs ev') (hs' : EventsOk ⟨ev', phase⟩)
    {ids : List ℕ} {el : ScAddr} (hids : ∀ id ∈ ids, id ∈ ev'.listOf el) :
    ev'.HasRefRoom ids ↔
      ∀ id ∈ ids, ∀ e, ev.find id = some e → e.refs+jobCount id jobs < 2147483647 := by
  apply forall₂_congr
  intro id hid
  obtain ⟨e', he', _, hflag, _⟩ := @listOf_find ⟨ev', phase⟩ id hs' el (hids id hid)
  obtain ⟨e, he, _, _, hrefs⟩ := h.find id e' he'
  dsimp only at he'
  simp only [he, he', Option.some.injEq, forall_eq']
  rw [refCount_lt_iff hflag, hrefs]

theorem emitted_delivered (hs : EventsOk ⟨ev, phase⟩) (hs' : EventsOk ⟨ev', phase⟩)
    (h : Delivered ev gone jobs ev') (el : ScAddr) (access : ScAccessLevels) (type : ScEventType)
    (edge other : ScAddr) :
    Wp (scEventEmitImpl el access type edge other)
      (fun _ ev'' => EventsOk ⟨ev'', phase⟩ ∧ ev''.pending = ev'.pending ∧
        Delivered ev gone (jobs ++ ev.heard gone el access type edge other) ev'' ∧
        HeardRoom ev jobs el (if el ∈ gone then [] else ev.subscribers el access type))
      (fun _ => ¬ HeardRoom ev jobs el (if el ∈ gone then [] else ev.subscribers el access type))
      ev' := by
  have hsub := h.subscribers hs hs' el access type
  have hlisted : ∀ id ∈ ev'.subscribers el access type, id ∈ ev'.listOf el :=
    fun _ hid => List.mem_of_mem_filter hid
  have hroom := h.hasRefRoom hs' hlisted
  have hheard : ev.heard gone el access type edge other =
      (ev'.subscribers el access type).map fun id => ⟨id, edge, other⟩ := by
    unfold ScEvents.heard
    rw [hsub]
    split_ifs <;> rfl
  rw [hheard, ← hsub]
  unfold HeardRoom
  rw [← hroom]
  apply wp_mono (emitImpl_wp hs' el access type edge other) _ (fun _ hr => hr)
  intro _ ev'' ⟨hev, hne, hr⟩
  have hch := emitted_change hs' el access type edge other hr
  have hnodup : (ev'.subscribers el access type).Nodup := (listOf_nodup hs' el).filter _
  dsimp only at hev hch
  rw [hev]
  refine ⟨hch.ok, rfl, ⟨h.listOf, ?_, ?_, h.running⟩, hne, hr⟩
  · intro id e'' he''
    rw [find_raised] at he''
    obtain ⟨e', he', heq⟩ := Option.map_eq_some_iff.mp he''
    obtain ⟨e, he, htype, hlevels, hrefs⟩ := h.find id e' he'
    refine ⟨e, he, ?_⟩
    rw [jobCount_append, jobCount_map, ← heq]
    by_cases hmem : e'.id ∈ ev'.subscribers el access type
    · rw [if_pos hmem]
      rw [find_id he'] at hmem
      obtain ⟨e1, he1, _, hflag, _⟩ := @listOf_find ⟨ev', phase⟩ id hs' el (hlisted id hmem)
      have hraised := @refs_raised e' ({ e' with refCount := e'.refCount+1 } : ScEvent) rfl
        (hr id hmem e' he')
      rw [hraised.1, hrefs, List.count_eq_one_of_mem hnodup hmem]
      exact ⟨htype, hlevels, by omega⟩
    · rw [if_neg hmem]
      rw [find_id he'] at hmem
      rw [List.count_eq_zero_of_not_mem hmem]
      exact ⟨htype, hlevels, hrefs⟩
  · unfold ScEvents.raised
    dsimp only
    rw [h.running, h.queue]
    split_ifs <;> simp

theorem dropped_delivered (hs' : EventsOk ⟨ev', phase⟩) (h : Delivered ev gone jobs ev')
    (el : ScAddr) :
    EventsOk ⟨ev'.dropped el, phase⟩ ∧ Delivered ev (el :: gone) jobs (ev'.dropped el) := by
  refine ⟨(dropped_change hs' el).ok, ?_, ?_, h.queue, h.running⟩
  · intro x
    have hold := h.listOf x
    unfold ScEvents.listOf ScEvents.dropped at *
    dsimp only
    cases htable : ev'.table with
    | none =>
      rw [htable] at hold
      simp only [Option.map_none, Option.getD_none] at hold ⊢
      by_cases hx : x = el
      · simp [hx]
      · simp only [List.mem_cons, hx, false_or]
        exact hold
    | some entries =>
      rw [htable] at hold
      simp only [Option.map_some, Option.getD_some] at hold ⊢
      unfold eventsOf at hold ⊢
      rw [List.filter_filter]
      by_cases hx : x = el
      · rw [if_pos (by simp [hx]), hx]
        simp
      · have hkey : x.localToInt ≠ el.localToInt := fun hk => hx (localToInt_injective hk)
        simp only [List.mem_cons, hx, false_or]
        rw [← hold]
        congr 1
        apply List.filter_congr
        intro p _
        by_cases hp : p.1 = x.localToInt
        · simp [hp, hkey]
        · simp [hp]
  · intro id e'' he''
    have hfind := @find_flagged ev' (ev'.listOf el) id
    have hmap : (ev'.dropped el).find id = (ev'.flagged (ev'.listOf el)).find id := rfl
    rw [hmap, hfind] at he''
    obtain ⟨e', he', heq⟩ := Option.map_eq_some_iff.mp he''
    obtain ⟨e, he, htype, hlevels, hrefs⟩ := h.find id e' he'
    refine ⟨e, he, ?_⟩
    rw [← heq]
    split_ifs
    · have hflagged := @refs_flagged e'
        ({ e' with refCount := e'.refCount ||| scEventRequestDestroy } : ScEvent) rfl
      exact ⟨htype, hlevels, hflagged.1.trans hrefs⟩
    · exact ⟨htype, hlevels, hrefs⟩

/-! A sequence of calls. -/

theorem jobCount_heard (id : ℕ) (gone : List ScAddr) (el : ScAddr) (access : ScAccessLevels)
    (type : ScEventType) (edge other : ScAddr) :
    jobCount id (ev.heard gone el access type edge other) =
      (if el ∈ gone then [] else ev.subscribers el access type).count id := by
  unfold ScEvents.heard
  split_ifs
  · rfl
  · exact jobCount_map id _ edge other

theorem callsRoom_emit (hs : EventsOk ⟨ev, phase⟩) (el : ScAddr) (access : ScAccessLevels)
    (type : ScEventType) (edge other : ScAddr) :
    CallsRoom ev gone jobs (.emit el access type edge other :: calls) ↔
      HeardRoom ev jobs el (if el ∈ gone then [] else ev.subscribers el access type) ∧
        CallsRoom ev gone (jobs ++ ev.heard gone el access type edge other) calls := by
  have hnodup : (if el ∈ gone then [] else ev.subscribers el access type).Nodup := by
    split_ifs
    · exact List.nodup_nil
    · exact (listOf_nodup hs el).filter _
  have hcount (id : ℕ) : jobCount id (ev.notified gone (.emit el access type edge other :: calls)) =
      (if el ∈ gone then [] else ev.subscribers el access type).count id +
        jobCount id (ev.notified gone calls) := by
    rw [← jobCount_heard id gone el access type edge other, ← jobCount_append]
    rfl
  constructor
  · intro ⟨helement, hroom⟩
    refine ⟨⟨helement el access type edge other List.mem_cons_self, ?_⟩, ?_, ?_⟩
    · intro id hid e he
      have hone := List.count_eq_one_of_mem hnodup hid
      have hle := hroom id e he
      rw [hcount] at hle
      omega
    · intro x a t d o hx
      exact helement x a t d o (List.mem_cons_of_mem _ hx)
    · intro id e he hpos
      have hle := hroom id e he
      rw [hcount] at hle
      rw [jobCount_append, jobCount_heard]
      omega
  · intro ⟨⟨hne, hheard⟩, helement, hroom⟩
    constructor
    · intro x a t d o hx
      rcases List.mem_cons.mp hx with heq | hx
      · rw [ScEventCall.emit.injEq] at heq
        rw [heq.1]
        exact hne
      · exact helement x a t d o hx
    · intro id e he hpos
      have hle := hroom id e he
      rw [jobCount_append, jobCount_heard] at hle
      rw [hcount] at hpos ⊢
      by_cases hid : id ∈ if el ∈ gone then [] else ev.subscribers el access type
      · have hone := List.count_eq_one_of_mem hnodup hid
        have hlt := hheard id hid e he
        omega
      · have hzero := List.count_eq_zero_of_not_mem hid
        omega

theorem callsRoom_deleted (el : ScAddr) :
    CallsRoom ev gone jobs (.elementDeleted el :: calls) ↔ CallsRoom ev (el :: gone) jobs calls := by
  constructor
  · intro ⟨helement, hroom⟩
    exact ⟨fun x a t d o hx => helement x a t d o (List.mem_cons_of_mem _ hx), hroom⟩
  · intro ⟨helement, hroom⟩
    refine ⟨?_, hroom⟩
    intro x a t d o hx
    rcases List.mem_cons.mp hx with heq | hx
    · simp at heq
    · exact helement x a t d o hx

/-- In immediate mode each emission reaches the subscriptions that are left. -/
theorem eventCalls_immediate (ctx : ScContext) (calls : List ScEventCall) (hs : EventsOk ⟨ev, phase⟩)
    (hs' : EventsOk ⟨ev', phase⟩) (h : Delivered ev gone jobs ev') (himm : ev'.pending ctx.id = none) :
    Wp (eventCalls ctx calls)
      (fun _ ev'' => ev''.pending = ev'.pending ∧
        Delivered ev (goneAfter gone calls) (jobs ++ ev.notified gone calls) ev'' ∧
        CallsRoom ev gone jobs calls)
      (fun _ => ¬ CallsRoom ev gone jobs calls) ev' := by
  induction calls generalizing gone jobs ev' with
  | nil =>
    refine ⟨rfl, ?_, ?_⟩
    · unfold ScEvents.notified goneAfter
      rw [List.append_nil]
      exact h
    · constructor
      · intro el access type edge other hmem
        simp at hmem
      · intro id e _ hpos
        simp [ScEvents.notified, jobCount] at hpos
  | cons call calls ih =>
    unfold eventCalls
    rw [wp_bind]
    cases call with
    | emit el access type edge other =>
      rw [callsRoom_emit hs]
      unfold eventCall
      simp only [wp_bind, wp_get, himm]
      apply wp_mono (emitted_delivered hs hs' h el access type edge other)
      · intro _ ev1 ⟨hs1, hpending, h1, hheard⟩
        apply wp_mono (ih hs1 h1 (by rw [hpending, himm]))
        · intro _ ev2 ⟨hpending2, h2, hroom⟩
          refine ⟨hpending2.trans hpending, ?_, hheard, hroom⟩
          rw [List.append_assoc] at h2
          exact h2
        · intro _ hroom hall
          exact hroom hall.2
      · intro _ hroom hall
        exact hroom hall.1
    | elementDeleted el =>
      rw [callsRoom_deleted]
      unfold eventCall
      dsimp only
      apply wp_mono (notifyDeleted_spec el fun _ => False) _ (fun _ hf => hf.elim)
      intro _ ev1 hev
      obtain ⟨hs1, h1⟩ := dropped_delivered hs' h el
      have hpending : (ev'.dropped el).pending = ev'.pending := rfl
      rw [← hev] at hs1 h1 hpending
      apply wp_mono (ih hs1 h1 (by rw [hpending, himm])) _ (fun _ hr => hr)
      intro _ ev2 ⟨hpending2, h2, hroom⟩
      exact ⟨hpending2.trans hpending, h2, hroom⟩

theorem eventsOk_pending (hs : EventsOk ⟨ev, phase⟩) (pending : ℕ → Option (List ScEventCall)) :
    EventsOk ⟨{ ev with pending := pending }, phase⟩ :=
  ⟨hs.nodup, hs.alive, hs.fresh, hs.noFail, hs.listed, hs.entry, hs.registered, hs.callback,
    hs.requested, hs.jobs, hs.balance⟩

/-- In pending mode subscriptions are dropped, and nothing is queued. -/
theorem eventCalls_pending (ctx : ScContext) (calls : List ScEventCall) (hs' : EventsOk ⟨ev', phase⟩)
    (h : Delivered ev gone jobs ev') {put : List ScEventCall}
    (hpend : ev'.pending ctx.id = some put) (E : ScStop → Prop) :
    Wp (eventCalls ctx calls)
      (fun _ ev'' => EventsOk ⟨ev'', phase⟩ ∧ ev''.pending ctx.id = some (put ++ putOff calls) ∧
        Delivered ev (goneAfter gone calls) jobs ev'') E ev' := by
  induction calls generalizing gone ev' put with
  | nil =>
    refine ⟨hs', ?_, h⟩
    rw [hpend, putOff, List.append_nil]
  | cons call calls ih =>
    unfold eventCalls
    rw [wp_bind]
    cases call with
    | emit el access type edge other =>
      unfold eventCall
      simp only [wp_bind, wp_get, hpend, wp_modify]
      have hs1 := eventsOk_pending hs'
        (Function.update ev'.pending ctx.id (some (put ++ [.emit el access type edge other])))
      apply wp_mono (ih hs1 ⟨h.listOf, h.find, h.queue, h.running⟩ (Function.update_self _ _ _)) _
        (fun _ he => he)
      intro _ ev2 ⟨hs2, hpend2, h2⟩
      refine ⟨hs2, ?_, h2⟩
      rw [hpend2, List.append_assoc]
      rfl
    | elementDeleted el =>
      unfold eventCall
      dsimp only
      apply wp_mono (notifyDeleted_spec el E) _ (fun _ he => he)
      intro _ ev1 hev
      obtain ⟨hs1, h1⟩ := dropped_delivered hs' h el
      have hpend1 : (ev'.dropped el).pending ctx.id = some put := hpend
      rw [← hev] at hs1 h1 hpend1
      exact ih hs1 h1 hpend1

/-! The two modes compared. -/

/-- No emission that reaches a subscription to an element comes before the deletion of the
element. -/
def NothingLost (ev : ScEvents) : List ScAddr → List ScEventCall → Prop
  | _, [] => True
  | gone, .emit el access type _ _ :: calls =>
    (el ∉ gone → .elementDeleted el ∈ calls → ev.subscribers el access type = []) ∧
      NothingLost ev gone calls
  | gone, .elementDeleted el :: calls => NothingLost ev (el :: gone) calls

instance nothingLostDecidable (ev : ScEvents) :
    (gone : List ScAddr) → (calls : List ScEventCall) → Decidable (NothingLost ev gone calls)
  | _, [] => inferInstanceAs (Decidable True)
  | gone, .emit el access type _ _ :: calls =>
    have := nothingLostDecidable ev gone calls
    inferInstanceAs (Decidable ((el ∉ gone → .elementDeleted el ∈ calls →
      ev.subscribers el access type = []) ∧ NothingLost ev gone calls))
  | gone, .elementDeleted el :: calls => nothingLostDecidable ev (el :: gone) calls

theorem heard_le (id : ℕ) {gone gone' : List ScAddr} (hsub : gone ⊆ gone') (el : ScAddr)
    (access : ScAccessLevels) (type : ScEventType) (edge other : ScAddr) :
    jobCount id (ev.heard gone' el access type edge other) ≤
      jobCount id (ev.heard gone el access type edge other) := by
  rw [jobCount_heard, jobCount_heard]
  by_cases hel : el ∈ gone
  · rw [if_pos hel, if_pos (hsub hel)]
  · by_cases hel' : el ∈ gone'
    · rw [if_pos hel']
      simp
    · rw [if_neg hel, if_neg hel']

theorem notified_putOff_le (id : ℕ) (calls : List ScEventCall) {gone gone' : List ScAddr}
    (hgone : ∀ x, x ∈ gone' ↔ x ∈ gone ∨ .elementDeleted x ∈ calls) :
    jobCount id (ev.notified gone' (putOff calls)) ≤ jobCount id (ev.notified gone calls) := by
  induction calls generalizing gone with
  | nil => exact le_rfl
  | cons call calls ih =>
    cases call with
    | emit el access type edge other =>
      have hsub : gone ⊆ gone' := fun x hx => (hgone x).mpr (Or.inl hx)
      have hrest := @ih gone (fun x => by simpa using hgone x)
      have hheard := @heard_le ev id gone gone' hsub el access type edge other
      unfold putOff ScEvents.notified
      rw [jobCount_append, jobCount_append]
      omega
    | elementDeleted el =>
      apply ih
      intro x
      rw [hgone x]
      simp only [List.mem_cons, ScEventCall.elementDeleted.injEq]
      tauto

/-- When nothing is lost, the calls that are put off queue the same in the end. -/
theorem notified_putOff_eq (calls : List ScEventCall) {gone gone' : List ScAddr}
    (hgone : ∀ x, x ∈ gone' ↔ x ∈ gone ∨ .elementDeleted x ∈ calls)
    (hlost : NothingLost ev gone calls) :
    ev.notified gone' (putOff calls) = ev.notified gone calls := by
  induction calls generalizing gone with
  | nil => rfl
  | cons call calls ih =>
    cases call with
    | emit el access type edge other =>
      obtain ⟨hnone, hlost⟩ := hlost
      have hrest := @ih gone (fun x => by simpa using hgone x) hlost
      unfold putOff ScEvents.notified
      rw [hrest]
      congr 1
      unfold ScEvents.heard
      by_cases hel : el ∈ gone
      · rw [if_pos hel, if_pos ((hgone el).mpr (Or.inl hel))]
      · by_cases hdel : .elementDeleted el ∈ calls
        · rw [if_neg hel, hnone hel hdel]
          simp
        · have hel' : el ∉ gone' := by
            rw [hgone]
            simp [hel, hdel]
          rw [if_neg hel, if_neg hel']
    | elementDeleted el =>
      apply ih _ hlost
      intro x
      rw [hgone x]
      simp only [List.mem_cons, ScEventCall.elementDeleted.injEq]
      tauto

/-- An emission that is lost makes a difference to the number of jobs. -/
theorem nothingLost_of_counts (calls : List ScEventCall) {gone gone' : List ScAddr}
    (hgone : ∀ x, x ∈ gone' ↔ x ∈ gone ∨ .elementDeleted x ∈ calls)
    (hcount : ∀ id, jobCount id (ev.notified gone' (putOff calls)) =
      jobCount id (ev.notified gone calls)) : NothingLost ev gone calls := by
  induction calls generalizing gone with
  | nil => trivial
  | cons call calls ih =>
    cases call with
    | emit el access type edge other =>
      have hsub : gone ⊆ gone' := fun x hx => (hgone x).mpr (Or.inl hx)
      have hgone1 : ∀ x, x ∈ gone' ↔ x ∈ gone ∨ .elementDeleted x ∈ calls :=
        fun x => by simpa using hgone x
      -- neither the emission nor the rest can make up for what the other one loses
      have hboth (id : ℕ) : jobCount id (ev.heard gone' el access type edge other) =
          jobCount id (ev.heard gone el access type edge other) ∧
            jobCount id (ev.notified gone' (putOff calls)) = jobCount id (ev.notified gone calls) := by
        have hheard := @heard_le ev id gone gone' hsub el access type edge other
        have hrest := @notified_putOff_le ev id calls gone gone' hgone1
        have hsum := hcount id
        unfold putOff ScEvents.notified at hsum
        rw [jobCount_append, jobCount_append] at hsum
        omega
      refine ⟨?_, ih hgone1 fun id => (hboth id).2⟩
      intro hel hdel
      rw [List.eq_nil_iff_forall_not_mem]
      intro id hid
      have heq := (hboth id).1
      rw [jobCount_heard, jobCount_heard, if_pos ((hgone1 el).mpr (Or.inr hdel)), if_neg hel,
        List.count_nil] at heq
      exact List.count_eq_zero.mp heq.symm hid
    | elementDeleted el =>
      apply ih
      · intro x
        rw [hgone x]
        simp only [List.mem_cons, ScEventCall.elementDeleted.injEq]
        tauto
      · exact hcount

/-- The calls that are put off have room where the immediate ones have. -/
theorem callsRoom_putOff (hroom : CallsRoom ev [] [] calls) :
    CallsRoom ev (goneAfter [] calls) [] (putOff calls) := by
  have hsub (call : ScEventCall) (hcall : call ∈ putOff calls) : call ∈ calls := by
    clear hroom
    induction calls with
    | nil => exact hcall
    | cons c calls ih =>
      cases c with
      | emit el access type edge other =>
        rcases List.mem_cons.mp hcall with rfl | hcall
        · exact List.mem_cons_self
        · exact List.mem_cons_of_mem _ (ih hcall)
      | elementDeleted el => exact List.mem_cons_of_mem _ (ih hcall)
  constructor
  · intro el access type edge other hmem
    exact hroom.element el access type edge other (hsub _ hmem)
  · intro id e he hpos
    have hle := @notified_putOff_le ev id calls [] _ fun x => mem_goneAfter x calls []
    have hall := hroom.count id e he (by omega)
    omega

end

end ScMachine.Store
