import ScMachine.EventThreads

/-! What the reference count of an event accounts for: its owner, until `sc_event_destroy` gives that
reference back, and the jobs that are queued or running. -/
namespace ScMachine.Store
open ScMachine.StateExcept ScMachine.Runs

/-- The bits of the count besides `SC_EVENT_REQUEST_DESTROY`. -/
def ScEvent.refs (event : ScEvent) : ℕ := (event.refCount &&& scEventRefCountMask).toNat

/-- The jobs of an event that are queued or running. -/
def ScEvents.jobs (ev : ScEvents) (id : ℕ) : ℕ :=
  (ev.queue ++ ev.working).countP fun job => job.event = id

/-- The reference that `sc_event_new` gives to the owner. -/
def DestroyPhase.refs : DestroyPhase → ℕ
  | .notCalled | .requested => 1
  | _ => 0

/-- What the count of the event has beyond its owner and its jobs. -/
def EventParties.balance (s : EventParties) (id : ℕ) (e : ScEvent) : ℤ :=
  e.refs-((s.phase id).refs+s.ev.jobs id : ℕ)

/-- The events that accept an emission whose job the queue refuses. -/
def EventAction.refused (s : EventParties) : EventAction → List ℕ
  | .emit el access type _ _ =>
    if s.ev.running then [] else s.ev.subscribers el access type
  | _ => []

structure EventsOk (s : EventParties) : Prop where
  nodup : (s.ev.events.map ScEvent.id).Nodup
  alive : ∀ id, (s.ev.find id).isSome = true ↔ id < s.ev.nextId ∧ s.phase id ≠ .freed
  fresh : ∀ id, s.ev.nextId ≤ id → s.phase id = .notCalled
  noFail : ∀ id, s.phase id ≠ .failed
  listed : ∀ entries, s.ev.table = some entries → (entries.map Prod.snd).Nodup
  entry : ∀ entries, s.ev.table = some entries → ∀ p ∈ entries, ∃ e, s.ev.find p.2 = some e ∧
    e.element.localToInt = p.1 ∧ e.requestDestroy = false
  registered : ∀ id e, s.ev.find id = some e → e.requestDestroy = false →
    ∃ entries, s.ev.table = some entries ∧ (e.element.localToInt, id) ∈ entries
  callback : ∀ id e, s.ev.find id = some e → e.requestDestroy = false → e.callback ≠ none
  requested : ∀ id e, s.ev.find id = some e → s.phase id ≠ .notCalled → e.requestDestroy = true
  jobs : ∀ job ∈ s.ev.queue ++ s.ev.working, (s.ev.find job.event).isSome = true
  balance : ∀ id e, s.ev.find id = some e → 0 ≤ s.balance id e

/-- What a step does to the counts. -/
structure EventChange (s s' : EventParties) (lost : List ℕ) : Prop where
  ok : EventsOk s'
  balance : ∀ id e', s'.ev.find id = some e' →
    (∃ e, s.ev.find id = some e ∧ s'.balance id e' = s.balance id e+lost.count id) ∨
      s'.balance id e' = 0

section
variable {ev ev' : ScEvents} {s s' : EventParties} {e e' : ScEvent} {id : ℕ} {lost : List ℕ}

/-! The two parts of the count. -/

theorem refs_eq (e : ScEvent) : e.refs = e.refCount.toNat%2147483648 := by
  have hmask : scEventRefCountMask.toNat = 2^31-1 := by decide
  unfold ScEvent.refs
  rw [BitVec.toNat_and, hmask, Nat.and_two_pow_sub_one_eq_mod]

theorem requestDestroy_eq (e : ScEvent) :
    e.requestDestroy = decide (2147483648 ≤ e.refCount.toNat) := by
  have hflag : scEventRequestDestroy = BitVec.twoPow 32 31 := by decide
  have hlt := e.refCount.isLt
  have hbit : e.refCount.toNat.testBit 31 = decide (2147483648 ≤ e.refCount.toNat) := by
    rw [Nat.testBit_eq_decide_div_mod_eq]
    by_cases h : 2147483648 ≤ e.refCount.toNat
    · simp [h]
      omega
    · simp [h]
      omega
  unfold ScEvent.requestDestroy
  rw [hflag, BitVec.and_twoPow, BitVec.getLsbD, hbit]
  by_cases h : 2147483648 ≤ e.refCount.toNat <;> simp [h]

/-- A reference below the limit. -/
theorem refs_raised (he : e'.refCount = e.refCount+1) (hlimit : e.refCount < scEventRefCountMask) :
    e'.refs = e.refs+1 ∧ e'.requestDestroy = e.requestDestroy := by
  have hmask : scEventRefCountMask.toNat = 2147483647 := by decide
  rw [BitVec.lt_def, hmask] at hlimit
  have hone : (1 : BitVec 32).toNat = 1 := by decide
  have hsum : e'.refCount.toNat = e.refCount.toNat+1 := by
    rw [he, BitVec.toNat_add, hone]
    omega
  rw [refs_eq, refs_eq, requestDestroy_eq, requestDestroy_eq, hsum]
  constructor
  · omega
  · rw [decide_eq_decide]
    omega

theorem refs_lowered (he : e'.refCount = e.refCount-1) (hpos : 0 < e.refs) :
    e'.refs+1 = e.refs ∧ e'.requestDestroy = e.requestDestroy := by
  have hlt := e.refCount.isLt
  rw [refs_eq] at hpos
  have hone : (1 : BitVec 32).toNat = 1 := by decide
  have hdiff : e'.refCount.toNat = e.refCount.toNat-1 := by
    rw [he, BitVec.toNat_sub, hone]
    omega
  rw [refs_eq, refs_eq, requestDestroy_eq, requestDestroy_eq, hdiff]
  constructor
  · omega
  · rw [decide_eq_decide]
    omega

theorem refs_flagged (he : e'.refCount = e.refCount ||| scEventRequestDestroy) :
    e'.refs = e.refs ∧ e'.requestDestroy = true := by
  have hzero : scEventRequestDestroy &&& scEventRefCountMask = 0#32 := by decide
  constructor
  · unfold ScEvent.refs
    rw [he, BitVec.and_comm, BitVec.and_or_distrib_left, BitVec.and_comm _ scEventRequestDestroy,
      hzero, BitVec.or_zero, BitVec.and_comm]
  · unfold ScEvent.requestDestroy
    rw [he, bne_iff_ne, BitVec.and_comm, BitVec.and_or_distrib_left, BitVec.and_self]
    intro h
    exact absurd (BitVec.or_eq_zero_iff.mp h).2 (by decide)

/-- When the loop of `sc_event_destroy` ends. -/
theorem refCount_eq_flag_iff (e : ScEvent) :
    e.refCount = scEventRequestDestroy ↔ e.requestDestroy = true ∧ e.refs = 0 := by
  have hflag : scEventRequestDestroy.toNat = 2147483648 := by decide
  have hlt := e.refCount.isLt
  rw [requestDestroy_eq, refs_eq, decide_eq_true_eq, ← BitVec.toNat_inj, hflag]
  omega

/-! A step that changes events in place. -/

/-- What `f` makes of the events of `s`, in the table, the queue and the phases of `s'`. -/
structure Changed (s s' : EventParties) (lost : List ℕ) (f : ScEvent → ScEvent) : Prop where
  events : s'.ev.events = s.ev.events.map f
  nextId : s'.ev.nextId = s.ev.nextId
  id_eq : ∀ e, (f e).id = e.id
  element_eq : ∀ e, (f e).element = e.element
  flag : ∀ id e, s.ev.find id = some e → e.requestDestroy = true → (f e).requestDestroy = true
  callback : ∀ id e, s.ev.find id = some e → (f e).requestDestroy = false → (f e).callback = e.callback
  phase : ∀ id, s'.phase id = s.phase id ∨ ((s.ev.find id).isSome = true ∧
    s'.phase id ≠ .freed ∧ s'.phase id ≠ .failed)
  flagged : ∀ id e, s.ev.find id = some e → s'.phase id ≠ .notCalled → s.phase id = .notCalled →
    (f e).requestDestroy = true
  table : ∀ entries', s'.ev.table = some entries' → ∃ entries, s.ev.table = some entries ∧
    entries'.Sublist entries ∧
      ∀ p ∈ entries', ∀ e, s.ev.find p.2 = some e → (f e).requestDestroy = false
  kept : ∀ entries, s.ev.table = some entries → ∀ p ∈ entries, ∀ e, s.ev.find p.2 = some e →
    (f e).requestDestroy = false → ∃ entries', s'.ev.table = some entries' ∧ p ∈ entries'
  jobs : ∀ job ∈ s'.ev.queue ++ s'.ev.working, (s.ev.find job.event).isSome = true
  balance : ∀ id e, s.ev.find id = some e → s'.balance id (f e) = s.balance id e+lost.count id

theorem Changed.find {f : ScEvent → ScEvent} (h : Changed s s' lost f) (id : ℕ) :
    s'.ev.find id = (s.ev.find id).map f := by
  rw [← find_map f h.id_eq, ← h.events]
  rfl

/-- An event that is still there was there before. -/
theorem Changed.find_some {f : ScEvent → ScEvent} (h : Changed s s' lost f)
    (hfind : s'.ev.find id = some e') : ∃ e, s.ev.find id = some e ∧ f e = e' := by
  rw [h.find] at hfind
  exact Option.map_eq_some_iff.mp hfind

theorem Changed.change {f : ScEvent → ScEvent} (h : Changed s s' lost f) (hs : EventsOk s) :
    EventChange s s' lost := by
  have hsome (id : ℕ) : (s'.ev.find id).isSome = (s.ev.find id).isSome := by
    rw [h.find, Option.isSome_map]
  have hbalance (id : ℕ) (e' : ScEvent) (he' : s'.ev.find id = some e') :
      ∃ e, s.ev.find id = some e ∧ s'.balance id e' = s.balance id e+lost.count id := by
    obtain ⟨e, he, rfl⟩ := h.find_some he'
    exact ⟨e, he, h.balance id e he⟩
  refine ⟨⟨?_, ?_, ?_, ?_, ?_, ?_, ?_, ?_, ?_, ?_, ?_⟩, fun id e' he' => Or.inl (hbalance id e' he')⟩
  · rw [h.events, List.map_map]
    have hids : ScEvent.id ∘ f = ScEvent.id := funext h.id_eq
    rw [hids]
    exact hs.nodup
  · intro id
    rw [hsome, h.nextId, hs.alive]
    rcases h.phase id with hp | ⟨hp, hfreed, _⟩
    · rw [hp]
    · have hold := (hs.alive id).mp hp
      simp [hold.1, hold.2, hfreed]
  · intro id hid
    rw [h.nextId] at hid
    rcases h.phase id with hp | ⟨hp, _⟩
    · rw [hp]
      exact hs.fresh id hid
    · exact absurd ((hs.alive id).mp hp).1 (by omega)
  · intro id
    rcases h.phase id with hp | ⟨_, _, hp⟩
    · rw [hp]
      exact hs.noFail id
    · exact hp
  · intro entries' htable
    obtain ⟨entries, hold, hsub, _⟩ := h.table entries' htable
    exact (hs.listed entries hold).sublist (hsub.map _)
  · intro entries' htable p hp
    obtain ⟨entries, hold, hsub, hflag⟩ := h.table entries' htable
    obtain ⟨e, he, hkey, _⟩ := hs.entry entries hold p (hsub.subset hp)
    refine ⟨f e, ?_, ?_, hflag p hp e he⟩
    · rw [h.find, he, Option.map_some]
    · rw [h.element_eq]
      exact hkey
  · intro id e' he' hflag
    obtain ⟨e, he, rfl⟩ := h.find_some he'
    have hold : e.requestDestroy = false := by
      by_contra hne
      have htrue := h.flag id e he (by simpa using hne)
      rw [hflag] at htrue
      exact Bool.false_ne_true htrue
    obtain ⟨entries, htable, hmem⟩ := hs.registered id e he hold
    rw [h.element_eq]
    exact h.kept entries htable _ hmem e he hflag
  · intro id e' he' hflag
    obtain ⟨e, he, rfl⟩ := h.find_some he'
    have hold : e.requestDestroy = false := by
      by_contra hne
      have htrue := h.flag id e he (by simpa using hne)
      rw [hflag] at htrue
      exact Bool.false_ne_true htrue
    rw [h.callback id e he hflag]
    exact hs.callback id e he hold
  · intro id e' he' hphase
    obtain ⟨e, he, rfl⟩ := h.find_some he'
    by_cases hold : s.phase id = .notCalled
    · exact h.flagged id e he hphase hold
    · exact h.flag id e he (hs.requested id e he hold)
  · intro job hjob
    rw [hsome]
    exact h.jobs job hjob
  · intro id e' he'
    obtain ⟨e, he, heq⟩ := hbalance id e' he'
    have hpos := hs.balance id e he
    omega

/-! The steps one by one. -/

theorem countP_jobs (edge other : ScAddr) (ids : List ℕ) (id : ℕ) :
    (ids.map fun x => (⟨x, edge, other⟩ : EventJob)).countP (fun job => job.event = id) =
      ids.count id := by
  rw [List.countP_map]
  rfl

/-- Where an event of the table is not changed in its flag. -/
theorem EventsOk.entry_flag (hs : EventsOk s) {entries : List (ℕ × ℕ)}
    (htable : s.ev.table = some entries) {p : ℕ × ℕ} (hp : p ∈ entries)
    (he : s.ev.find p.2 = some e) : e.requestDestroy = false := by
  obtain ⟨e', he', _, hflag⟩ := hs.entry entries htable p hp
  rw [he, Option.some.injEq] at he'
  rw [he']
  exact hflag

theorem jobs_raised (edge other : ScAddr) (ids : List ℕ) (id : ℕ) :
    (ev.raised edge other ids).jobs id = ev.jobs id+if ev.running then ids.count id else 0 := by
  unfold ScEvents.raised ScEvents.jobs
  split_ifs
  · simp only [List.countP_append, countP_jobs]
    omega
  · rfl

theorem raised_change (hs : EventsOk s) (edge other : ScAddr) (ids : List ℕ) (hnodup : ids.Nodup)
    (hids : ∀ id ∈ ids, ∃ e, s.ev.find id = some e ∧ e.refCount < scEventRefCountMask) :
    EventChange s { s with ev := s.ev.raised edge other ids } (if s.ev.running then [] else ids) := by
  have hraise (id : ℕ) (e : ScEvent) (he : s.ev.find id = some e) (hmem : e.id ∈ ids) :
      ({ e with refCount := e.refCount+1 } : ScEvent).refs = e.refs+1 ∧
        ({ e with refCount := e.refCount+1 } : ScEvent).requestDestroy = e.requestDestroy := by
    obtain ⟨e', he', hlimit⟩ := hids e.id hmem
    rw [find_id he, he, Option.some.injEq] at he'
    rw [← he'] at hlimit
    exact refs_raised rfl hlimit
  have hflag (id : ℕ) (e : ScEvent) (he : s.ev.find id = some e) :
      (if e.id ∈ ids then { e with refCount := e.refCount+1 } else e : ScEvent).requestDestroy =
        e.requestDestroy := by
    split_ifs with hmem
    · exact (hraise id e he hmem).2
    · rfl
  have hch : Changed s { s with ev := s.ev.raised edge other ids }
      (if s.ev.running then [] else ids)
      (fun e => if e.id ∈ ids then { e with refCount := e.refCount+1 } else e) := by
    refine ⟨rfl, rfl, ?_, ?_, ?_, ?_, fun id => Or.inl rfl, ?_, ?_, ?_, ?_, ?_⟩
    · intro e
      split_ifs <;> rfl
    · intro e
      split_ifs <;> rfl
    · intro id e he hold
      rw [hflag id e he]
      exact hold
    · intro id e he _
      split_ifs <;> rfl
    · intro id e he hphase hold
      exact absurd hold hphase
    · intro entries htable
      refine ⟨entries, htable, List.Sublist.refl _, fun p hp e he => ?_⟩
      rw [hflag _ e he]
      exact hs.entry_flag htable hp he
    · intro entries htable p hp _ _ _
      exact ⟨entries, htable, hp⟩
    · intro job hjob
      have hcases : job ∈ s.ev.queue ++ s.ev.working ∨ job.event ∈ ids := by
        unfold ScEvents.raised at hjob
        dsimp only at hjob
        split_ifs at hjob
        · simp only [List.mem_append, List.mem_map] at hjob ⊢
          rcases hjob with (hq | ⟨x, hx, rfl⟩) | hw
          · exact Or.inl (Or.inl hq)
          · exact Or.inr hx
          · exact Or.inl (Or.inr hw)
        · exact Or.inl hjob
      rcases hcases with hold | hnew
      · exact hs.jobs job hold
      · obtain ⟨e, he, _⟩ := hids _ hnew
        rw [he]
        rfl
    · intro id e he
      obtain rfl := find_id he
      have hjobs := @jobs_raised s.ev edge other ids e.id
      unfold EventParties.balance
      dsimp only
      rw [hjobs]
      by_cases hmem : e.id ∈ ids
      · have hone := List.count_eq_one_of_mem hnodup hmem
        rw [if_pos hmem, (hraise e.id e he hmem).1]
        split_ifs
        · rw [hone]
          push_cast
          simp
          omega
        · rw [hone]
          push_cast
          omega
      · have hzero := List.count_eq_zero_of_not_mem hmem
        rw [if_neg hmem]
        split_ifs
        · rw [hzero]
          simp
        · rw [hzero]
          simp
  exact hch.change hs

theorem dropped_change (hs : EventsOk s) (el : ScAddr) :
    EventChange s { s with ev := s.ev.dropped el } [] := by
  have hflagged (e : ScEvent) := @refs_flagged e
    ({ e with refCount := e.refCount ||| scEventRequestDestroy } : ScEvent) rfl
  have hch : Changed s { s with ev := s.ev.dropped el } []
      (fun e => if e.id ∈ s.ev.listOf el then
        { e with refCount := e.refCount ||| scEventRequestDestroy } else e) := by
    refine ⟨rfl, rfl, ?_, ?_, ?_, ?_, fun id => Or.inl rfl, ?_, ?_, ?_, hs.jobs, ?_⟩
    · intro e
      split_ifs <;> rfl
    · intro e
      split_ifs <;> rfl
    · intro id e _ hold
      split_ifs
      · exact (hflagged e).2
      · exact hold
    · intro id e _ _
      split_ifs <;> rfl
    · intro id e he hphase hold
      exact absurd hold hphase
    · intro entries' htable'
      obtain ⟨entries, htable, rfl⟩ := Option.map_eq_some_iff.mp htable'
      refine ⟨entries, htable, List.filter_sublist, fun p hp e he => ?_⟩
      obtain ⟨hp, hkey⟩ := List.mem_filter.mp hp
      have hkey' : p.1 ≠ el.localToInt := by simpa using hkey
      -- an event of another element is not in the list of `el`
      have hnot : e.id ∉ s.ev.listOf el := by
        rw [find_id he]
        intro hmem
        unfold ScEvents.listOf eventsOf at hmem
        rw [htable, Option.map_some, Option.getD_some, List.mem_map] at hmem
        obtain ⟨q, hq, heq⟩ := hmem
        obtain ⟨hq, hqkey⟩ := List.mem_filter.mp hq
        have hsame := List.inj_on_of_nodup_map (hs.listed entries htable) hq hp heq
        rw [hsame] at hqkey
        exact hkey' (of_decide_eq_true hqkey)
      rw [if_neg hnot]
      exact hs.entry_flag htable hp he
    · intro entries htable p hp e he hflag
      refine ⟨entries.filter fun p => p.1 ≠ el.localToInt, ?_, ?_⟩
      · unfold ScEvents.dropped
        rw [htable]
        rfl
      · have hkey : p.1 ≠ el.localToInt := by
          intro hkey
          have hmem : e.id ∈ s.ev.listOf el := by
            rw [find_id he]
            unfold ScEvents.listOf eventsOf
            rw [htable, Option.map_some, Option.getD_some, List.mem_map]
            exact ⟨p, List.mem_filter.mpr ⟨hp, by simpa using hkey⟩, rfl⟩
          rw [if_pos hmem, (hflagged e).2] at hflag
          exact Bool.false_ne_true hflag.symm
        exact List.mem_filter.mpr ⟨hp, by simpa using hkey⟩
    · intro id e he
      have hrefs : (if e.id ∈ s.ev.listOf el then
          { e with refCount := e.refCount ||| scEventRequestDestroy } else e : ScEvent).refs =
            e.refs := by
        split_ifs
        · exact (hflagged e).1
        · rfl
      unfold EventParties.balance
      rw [hrefs]
      exact (add_zero _).symm
  exact hch.change hs

/-- A step that changes no event. -/
theorem moved_change (hs : EventsOk s) (hevents : s'.ev.events = s.ev.events)
    (hnext : s'.ev.nextId = s.ev.nextId) (htable : s'.ev.table = s.ev.table)
    (hjobs : (s'.ev.queue ++ s'.ev.working).Perm (s.ev.queue ++ s.ev.working))
    (hphase : ∀ id, s'.phase id = s.phase id ∨ (s.phase id = .notCalled ∧
      s'.phase id = .requested ∧ ∃ e, s.ev.find id = some e ∧ e.requestDestroy = true)) :
    EventChange s s' [] := by
  have hch : Changed s s' [] id := by
    refine ⟨by rw [hevents, List.map_id], hnext, fun _ => rfl, fun _ => rfl, fun _ _ _ h => h,
      fun _ _ _ _ => rfl, ?_, ?_, ?_, ?_, ?_, ?_⟩
    · intro id
      rcases hphase id with hp | ⟨_, hp, e, he, _⟩
      · exact Or.inl hp
      · rw [hp, he]
        exact Or.inr ⟨rfl, by simp, by simp⟩
    · intro id e he hnew hold
      rcases hphase id with hp | ⟨_, _, e', he', hflag⟩
      · rw [hp] at hnew
        exact absurd hold hnew
      · rw [he, Option.some.injEq] at he'
        rw [he']
        exact hflag
    · intro entries hentries
      rw [htable] at hentries
      exact ⟨entries, hentries, List.Sublist.refl _, fun p hp e he => hs.entry_flag hentries hp he⟩
    · intro entries hentries p hp _ _ _
      exact ⟨entries, htable.trans hentries, hp⟩
    · intro job hjob
      exact hs.jobs job (hjobs.subset hjob)
    · intro id e _
      have hcount : s'.ev.jobs id = s.ev.jobs id := hjobs.countP_eq _
      have hrefs : (s'.phase id).refs = (s.phase id).refs := by
        rcases hphase id with hp | ⟨hold, hp, _⟩
        · rw [hp]
        · rw [hold, hp]
          rfl
      unfold EventParties.balance
      rw [hcount, hrefs]
      exact (add_zero _).symm
  exact hch.change hs

theorem refs_positive (hs : EventsOk s) (he : s.ev.find id = some e)
    (hpos : 0 < (s.phase id).refs+s.ev.jobs id) : 0 < e.refs := by
  have hbalance := hs.balance id e he
  unfold EventParties.balance at hbalance
  omega

/-- A step that gives back one reference of the event `id`, together with a job or with the
reference of the owner. -/
theorem lowered_change (hs : EventsOk s) {x : ℕ} (hevents : s'.ev.events = (s.ev.lowered x).events)
    (hnext : s'.ev.nextId = s.ev.nextId) (htable : s'.ev.table = s.ev.table)
    (hjobs : (s'.ev.queue ++ s'.ev.working).Sublist (s.ev.queue ++ s.ev.working))
    (hphase : ∀ id, s'.phase id = s.phase id ∨ (s.phase id = .requested ∧ s'.phase id = .waiting))
    (hrefs : ∀ id, (s.phase id).refs+s.ev.jobs id =
      (s'.phase id).refs+s'.ev.jobs id+if id = x then 1 else 0) : EventChange s s' [] := by
  have hlower (id : ℕ) (e : ScEvent) (he : s.ev.find id = some e) (hid : e.id = x) :
      ({ e with refCount := e.refCount-1 } : ScEvent).refs+1 = e.refs ∧
        ({ e with refCount := e.refCount-1 } : ScEvent).requestDestroy = e.requestDestroy := by
    apply refs_lowered rfl
    apply refs_positive hs he
    have hx := hrefs id
    rw [← find_id he, hid, if_pos rfl] at hx
    rw [← find_id he, hid]
    omega
  have hflag (id : ℕ) (e : ScEvent) (he : s.ev.find id = some e) :
      (if e.id = x then { e with refCount := e.refCount-1 } else e : ScEvent).requestDestroy =
        e.requestDestroy := by
    split_ifs with hid
    · exact (hlower id e he hid).2
    · rfl
  have hch : Changed s s' [] (fun e => if e.id = x then { e with refCount := e.refCount-1 } else e) := by
    refine ⟨hevents, hnext, ?_, ?_, ?_, ?_, ?_, ?_, ?_, ?_, ?_, ?_⟩
    · intro e
      split_ifs <;> rfl
    · intro e
      split_ifs <;> rfl
    · intro id e he hold
      rw [hflag id e he]
      exact hold
    · intro id e _ _
      split_ifs <;> rfl
    · intro id
      rcases hphase id with hp | ⟨hold, hp⟩
      · exact Or.inl hp
      · refine Or.inr ⟨?_, by simp [hp], by simp [hp]⟩
        have hlt : id < s.ev.nextId := by
          by_contra hge
          rw [hs.fresh id (by omega)] at hold
          simp at hold
        exact (hs.alive id).mpr ⟨hlt, by simp [hold]⟩
    · intro id e he hnew hold
      rcases hphase id with hp | ⟨hreq, _⟩
      · rw [hp] at hnew
        exact absurd hold hnew
      · rw [hold] at hreq
        simp at hreq
    · intro entries hentries
      rw [htable] at hentries
      refine ⟨entries, hentries, List.Sublist.refl _, fun p hp e he => ?_⟩
      rw [hflag _ e he]
      exact hs.entry_flag hentries hp he
    · intro entries hentries p hp _ _ _
      exact ⟨entries, htable.trans hentries, hp⟩
    · intro job hjob
      exact hs.jobs job (hjobs.subset hjob)
    · intro id e he
      obtain rfl := find_id he
      have hx := hrefs e.id
      unfold EventParties.balance
      rw [List.count_nil]
      by_cases hid : e.id = x
      · have hone := (hlower e.id e he hid).1
        rw [if_pos hid] at hx
        rw [if_pos hid]
        generalize ({ e with refCount := e.refCount-1 } : ScEvent).refs = lower at hone ⊢
        push_cast
        omega
      · rw [if_neg hid] at hx
        rw [if_neg hid]
        push_cast
        omega
  exact hch.change hs

/-- `sc_event_destroy` takes an event out of the table and marks it. -/
theorem closed_change (hs : EventsOk s) (he : s.ev.find id = some e)
    (hunflagged : e.requestDestroy = false) {entries : List (ℕ × ℕ)}
    (htable : s.ev.table = some entries) :
    EventChange s
      { ev := { s.ev.closed id with
          table := if entries.erase (e.element.localToInt, e.id) = [] then none
            else some (entries.erase (e.element.localToInt, e.id)) }
        phase := Function.update s.phase id .requested } [] := by
  obtain rfl := find_id he
  have hflagged (x : ScEvent) := @refs_flagged x
    ({ x with refCount := x.refCount ||| scEventRequestDestroy, callback := none } : ScEvent) rfl
  have hlisted := hs.listed entries htable
  obtain ⟨entries0, htable0, hmem0⟩ := hs.registered e.id e he hunflagged
  rw [htable, Option.some.injEq] at htable0
  rw [← htable0] at hmem0
  -- no other entry has the event
  have hother (p : ℕ × ℕ) (hp : p ∈ entries) (hpid : p.2 = e.id) :
      p = (e.element.localToInt, e.id) := List.inj_on_of_nodup_map hlisted hp hmem0 hpid
  have hnodup : entries.Nodup := List.Nodup.of_map _ hlisted
  have hch : Changed s
      { ev := { s.ev.closed e.id with
          table := if entries.erase (e.element.localToInt, e.id) = [] then none
            else some (entries.erase (e.element.localToInt, e.id)) }
        phase := Function.update s.phase e.id .requested } []
      (fun x => if x.id = e.id then
        { x with refCount := x.refCount ||| scEventRequestDestroy, callback := none } else x) := by
    refine ⟨rfl, rfl, ?_, ?_, ?_, ?_, ?_, ?_, ?_, ?_, hs.jobs, ?_⟩
    · intro x
      split_ifs <;> rfl
    · intro x
      split_ifs <;> rfl
    · intro id x _ hold
      split_ifs
      · exact (hflagged x).2
      · exact hold
    · intro id x _ hflag
      split_ifs at hflag ⊢ with hx
      · rw [(hflagged x).2] at hflag
        exact absurd hflag (by simp)
      · rfl
    · intro id
      dsimp only
      by_cases hid : id = e.id
      · rw [hid, Function.update_self, he]
        exact Or.inr ⟨rfl, by simp, by simp⟩
      · rw [Function.update_of_ne hid]
        exact Or.inl rfl
    · intro id x hx hnew hold
      dsimp only at hnew
      by_cases hid : id = e.id
      · rw [find_id hx, if_pos hid]
        exact (hflagged x).2
      · rw [Function.update_of_ne hid] at hnew
        exact absurd hold hnew
    · intro entries' htable'
      dsimp only at htable'
      split_ifs at htable' with hempty
      rw [Option.some.injEq] at htable'
      refine ⟨entries, htable, ?_, ?_⟩
      · rw [← htable']
        exact List.erase_sublist
      · intro p hp x hx
        rw [← htable', hnodup.mem_erase_iff] at hp
        have hne : x.id ≠ e.id := by
          rw [find_id hx]
          exact fun hpid => hp.1 (hother p hp.2 hpid)
        rw [if_neg hne]
        exact hs.entry_flag htable hp.2 hx
    · intro entries1 htable1 p hp x hx hflag
      rw [htable, Option.some.injEq] at htable1
      rw [← htable1] at hp
      have hne : x.id ≠ e.id := by
        intro hxe
        rw [if_pos hxe, (hflagged x).2] at hflag
        exact absurd hflag (by simp)
      have hp' : p ∈ entries.erase (e.element.localToInt, e.id) := by
        rw [hnodup.mem_erase_iff]
        refine ⟨?_, hp⟩
        rintro rfl
        exact hne (find_id hx)
      refine ⟨entries.erase (e.element.localToInt, e.id), ?_, hp'⟩
      dsimp only
      rw [if_neg (List.ne_nil_of_mem hp')]
    · intro id x hx
      have hrefs : (if x.id = e.id then
          { x with refCount := x.refCount ||| scEventRequestDestroy, callback := none }
          else x : ScEvent).refs = x.refs := by
        split_ifs
        · exact (hflagged x).1
        · rfl
      have hphase : (Function.update s.phase e.id DestroyPhase.requested id).refs =
          (s.phase id).refs := by
        by_cases hid : id = e.id
        · have hold : s.phase e.id = .notCalled := by
            by_contra hne
            have htrue := hs.requested e.id e he hne
            rw [hunflagged] at htrue
            exact Bool.false_ne_true htrue
          rw [hid, Function.update_self, hold]
          rfl
        · rw [Function.update_of_ne hid]
      unfold EventParties.balance
      dsimp only
      rw [hrefs, hphase]
      exact (add_zero _).symm
  exact hch.change hs

/-- Every event that a job is for has been created. -/
theorem jobs_fresh (hs : EventsOk s) (hid : s.ev.nextId ≤ id) : s.ev.jobs id = 0 := by
  unfold ScEvents.jobs
  rw [List.countP_eq_zero]
  intro job hjob hevent
  have hlt := ((hs.alive job.event).mp (hs.jobs job hjob)).1
  rw [of_decide_eq_true hevent] at hlt
  omega

/-- A new event has one reference and no job. -/
theorem added_change (hs : EventsOk s) (el : ScAddr) (type : ScEventType) (callback : EventCallback)
    (levels : ScAccessLevels) :
    EventChange s
      { s with ev := { s.ev with
          events := s.ev.events ++ [⟨s.ev.nextId, el, type, some callback, 1, levels⟩]
          nextId := s.ev.nextId+1
          table := some (s.ev.table.getD [] ++ [(el.localToInt, s.ev.nextId)]) } } [] := by
  have hnone : s.ev.find s.ev.nextId = none := by
    rw [← Option.not_isSome_iff_eq_none, hs.alive]
    omega
  have hfind (x : ℕ) : (s.ev.events ++
      [(⟨s.ev.nextId, el, type, some callback, 1, levels⟩ : ScEvent)]).find? (fun e => e.id = x) =
        if x = s.ev.nextId then some ⟨s.ev.nextId, el, type, some callback, 1, levels⟩
        else s.ev.find x := by
    rw [List.find?_append, List.find?_singleton]
    by_cases hx : x = s.ev.nextId
    · rw [if_pos hx, hx]
      unfold ScEvents.find at hnone
      rw [hnone]
      simp
    · rw [if_neg hx, if_neg (by simpa using Ne.symm hx), Option.or_none]
      rfl
  have hnewflag : (⟨s.ev.nextId, el, type, some callback, 1, levels⟩ : ScEvent).requestDestroy =
      false := by
    have hbits : ((1 : BitVec 32) &&& scEventRequestDestroy != 0) = false := by decide
    exact hbits
  have hnewrefs : (⟨s.ev.nextId, el, type, some callback, 1, levels⟩ : ScEvent).refs = 1 := by
    have hbits : ((1 : BitVec 32) &&& scEventRefCountMask).toNat = 1 := by decide
    exact hbits
  have hentries (p : ℕ × ℕ) (hp : p ∈ s.ev.table.getD []) :
      ∃ entries, s.ev.table = some entries ∧ p ∈ entries := by
    cases htable : s.ev.table with
    | none => simp [htable] at hp
    | some entries => exact ⟨entries, rfl, by simpa [htable] using hp⟩
  have hbalance (id : ℕ) (e : ScEvent)
      (he : (if id = s.ev.nextId then some ⟨s.ev.nextId, el, type, some callback, 1, levels⟩
        else s.ev.find id) = some e) :
      (s.ev.find id = some e) ∨ s.balance id e = 0 := by
    split_ifs at he with hid
    · right
      rw [Option.some.injEq] at he
      have hphase : (s.phase id).refs = 1 := by
        rw [hs.fresh id (by omega)]
        rfl
      unfold EventParties.balance
      rw [← he, hnewrefs, hphase, jobs_fresh hs (by omega)]
      norm_num
    · exact Or.inl he
  refine ⟨⟨?_, ?_, ?_, hs.noFail, ?_, ?_, ?_, ?_, ?_, ?_, ?_⟩, ?_⟩
  · rw [List.map_append, List.map_singleton, List.nodup_append]
    refine ⟨hs.nodup, List.nodup_singleton _, ?_⟩
    rintro x hx y hy rfl
    obtain ⟨e, he, rfl⟩ := List.mem_map.mp hx
    have hid : e.id = s.ev.nextId := by simpa using hy
    have hsome := find_of_mem hs.nodup he
    rw [hid, hnone] at hsome
    simp at hsome
  · intro id
    unfold ScEvents.find
    rw [hfind]
    dsimp only
    by_cases hid : id = s.ev.nextId
    · rw [if_pos hid, hs.fresh id (by omega)]
      simp
      omega
    · rw [if_neg hid, hs.alive]
      constructor
      · intro ⟨hlt, hp⟩
        exact ⟨by omega, hp⟩
      · intro ⟨hlt, hp⟩
        exact ⟨by omega, hp⟩
  · intro id hid
    dsimp only at hid
    exact hs.fresh id (by omega)
  · intro entries htable
    obtain rfl := Option.some.inj htable
    rw [List.map_append, List.map_singleton, List.nodup_append]
    refine ⟨?_, List.nodup_singleton _, ?_⟩
    · cases htable : s.ev.table with
      | none => exact List.nodup_nil
      | some entries => exact hs.listed entries htable
    · rintro x hx y hy rfl
      obtain ⟨p, hp, rfl⟩ := List.mem_map.mp hx
      obtain ⟨entries, htable, hp'⟩ := hentries p hp
      obtain ⟨e, he, _⟩ := hs.entry entries htable p hp'
      have hid : p.2 = s.ev.nextId := by simpa using hy
      rw [hid, hnone] at he
      simp at he
  · intro entries htable p hp
    obtain rfl := Option.some.inj htable
    unfold ScEvents.find
    rw [hfind]
    rcases List.mem_append.mp hp with hp | hp
    · obtain ⟨entries, htable, hp'⟩ := hentries p hp
      obtain ⟨e, he, hkey, hflag⟩ := hs.entry entries htable p hp'
      have hne : p.2 ≠ s.ev.nextId := by
        intro hid
        rw [hid, hnone] at he
        simp at he
      rw [if_neg hne]
      exact ⟨e, he, hkey, hflag⟩
    · rw [List.mem_singleton] at hp
      rw [hp, if_pos rfl]
      exact ⟨_, rfl, rfl, hnewflag⟩
  · intro id e he hflag
    unfold ScEvents.find at he
    rw [hfind] at he
    refine ⟨_, rfl, ?_⟩
    split_ifs at he with hid
    · rw [Option.some.injEq] at he
      rw [← he, hid]
      simp
    · obtain ⟨entries, htable, hmem⟩ := hs.registered id e he hflag
      rw [htable]
      exact List.mem_append_left _ hmem
  · intro id e he hflag
    unfold ScEvents.find at he
    rw [hfind] at he
    split_ifs at he with hid
    · rw [Option.some.injEq] at he
      rw [← he]
      simp
    · exact hs.callback id e he hflag
  · intro id e he hphase
    unfold ScEvents.find at he
    rw [hfind] at he
    split_ifs at he with hid
    · exact absurd (hs.fresh id (by omega)) hphase
    · exact hs.requested id e he hphase
  · intro job hjob
    have hold := hs.jobs job hjob
    unfold ScEvents.find
    rw [hfind]
    split_ifs
    · rfl
    · exact hold
  · intro id e he
    unfold ScEvents.find at he
    rw [hfind] at he
    rcases hbalance id e he with hold | hzero
    · exact hs.balance id e hold
    · exact hzero.ge
  · intro id e he
    unfold ScEvents.find at he
    rw [hfind] at he
    rcases hbalance id e he with hold | hzero
    · exact Or.inl ⟨e, hold, by simp; rfl⟩
    · exact Or.inr hzero

theorem find_eraseP (l : List ScEvent) (hnodup : (l.map ScEvent.id).Nodup) (id x : ℕ) :
    (l.eraseP fun e => e.id = id).find? (fun e => e.id = x) =
      if x = id then none else l.find? fun e => e.id = x := by
  induction l with
  | nil => simp
  | cons e l ih =>
    obtain ⟨hnot, hnodup⟩ := List.nodup_cons.mp hnodup
    by_cases hid : e.id = id
    · rw [List.eraseP_cons_of_pos (by simpa using hid)]
      split_ifs with hx
      · rw [List.find?_eq_none]
        intro y hy hyx
        apply hnot
        rw [hid, ← hx, ← of_decide_eq_true hyx]
        exact List.mem_map_of_mem hy
      · rw [List.find?_cons_of_neg (by simpa [hid] using Ne.symm hx)]
    · rw [List.eraseP_cons_of_neg (by simpa using hid)]
      by_cases hx : e.id = x
      · rw [List.find?_cons_of_pos (by simpa using hx), List.find?_cons_of_pos (by simpa using hx),
          if_neg (by rw [← hx]; exact hid)]
      · rw [List.find?_cons_of_neg (by simpa using hx), List.find?_cons_of_neg (by simpa using hx)]
        exact ih hnodup

/-- An event is freed. -/
theorem freed_change (hs : EventsOk s) (he : s.ev.find id = some e)
    (hfree : e.refCount = scEventRequestDestroy) (hphase : s.phase id = .waiting) :
    s.ev.jobs id = 0 ∧ EventChange s
      { ev := { s.ev with events := s.ev.events.eraseP fun e => e.id = id }
        phase := Function.update s.phase id .freed } [] := by
  obtain ⟨hflag, hrefs⟩ := (refCount_eq_flag_iff e).mp hfree
  have hjobs : s.ev.jobs id = 0 := by
    have hbalance := hs.balance id e he
    unfold EventParties.balance at hbalance
    omega
  have hfind (x : ℕ) := find_eraseP s.ev.events hs.nodup id x
  have hold {x : ℕ} {e' : ScEvent} (hx : (if x = id then none else s.ev.find x) = some e') :
      x ≠ id ∧ s.ev.find x = some e' := by
    split_ifs at hx with hxid
    exact ⟨hxid, hx⟩
  have hbalance {x : ℕ} {e' : ScEvent} (hx : (if x = id then none else s.ev.find x) = some e') :
      s.ev.find x = some e' ∧ (⟨{ s.ev with events := s.ev.events.eraseP fun e => e.id = id },
        Function.update s.phase id .freed⟩ : EventParties).balance x e' = s.balance x e' := by
    refine ⟨(hold hx).2, ?_⟩
    unfold EventParties.balance
    dsimp only
    rw [Function.update_of_ne (hold hx).1]
    rfl
  refine ⟨hjobs, ⟨?_, ?_, ?_, ?_, hs.listed, ?_, ?_, ?_, ?_, ?_, ?_⟩, ?_⟩
  · exact hs.nodup.sublist (List.eraseP_sublist.map _)
  · intro x
    unfold ScEvents.find
    rw [hfind]
    by_cases hx : x = id
    · rw [if_pos hx, hx]
      simp
    · rw [if_neg hx]
      dsimp only
      rw [Function.update_of_ne hx]
      exact hs.alive x
  · intro x hx
    have hne : x ≠ id := by
      rintro rfl
      rw [hs.fresh x hx] at hphase
      simp at hphase
    dsimp only
    rw [Function.update_of_ne hne]
    exact hs.fresh x hx
  · intro x
    dsimp only
    by_cases hx : x = id
    · rw [hx, Function.update_self]
      simp
    · rw [Function.update_of_ne hx]
      exact hs.noFail x
  · intro entries htable p hp
    obtain ⟨e', he', hkey, hflag'⟩ := hs.entry entries htable p hp
    have hne : p.2 ≠ id := by
      rintro rfl
      rw [he, Option.some.injEq] at he'
      rw [← he', hflag] at hflag'
      simp at hflag'
    unfold ScEvents.find
    rw [hfind, if_neg hne]
    exact ⟨e', he', hkey, hflag'⟩
  · intro x e' he' hflag'
    unfold ScEvents.find at he'
    rw [hfind] at he'
    exact hs.registered x e' (hold he').2 hflag'
  · intro x e' he' hflag'
    unfold ScEvents.find at he'
    rw [hfind] at he'
    exact hs.callback x e' (hold he').2 hflag'
  · intro x e' he' hp
    unfold ScEvents.find at he'
    rw [hfind] at he'
    dsimp only at hp
    rw [Function.update_of_ne (hold he').1] at hp
    exact hs.requested x e' (hold he').2 hp
  · intro job hjob
    have hne : job.event ≠ id := by
      intro hevent
      unfold ScEvents.jobs at hjobs
      exact List.countP_eq_zero.mp hjobs job hjob (by simpa using hevent)
    unfold ScEvents.find
    rw [hfind, if_neg hne]
    exact hs.jobs job hjob
  · intro x e' he'
    unfold ScEvents.find at he'
    rw [hfind] at he'
    obtain ⟨hx, heq⟩ := hbalance he'
    rw [heq]
    exact hs.balance x e' hx
  · intro x e' he'
    unfold ScEvents.find at he'
    rw [hfind] at he'
    obtain ⟨hx, heq⟩ := hbalance he'
    refine Or.inl ⟨e', hx, ?_⟩
    rw [heq]
    exact (add_zero _).symm

theorem listOf_nodup (hs : EventsOk s) (el : ScAddr) : (s.ev.listOf el).Nodup := by
  unfold ScEvents.listOf
  cases htable : s.ev.table with
  | none => exact List.nodup_nil
  | some entries => exact (hs.listed entries htable).sublist (List.filter_sublist.map _)

theorem started_change (hs : EventsOk s) {i : ℕ} {job : EventJob} (hjob : s.ev.queue[i]? = some job) :
    EventChange s { s with ev := { s.ev with
      queue := s.ev.queue.eraseIdx i, working := s.ev.working ++ [job] } } [] := by
  refine moved_change hs rfl rfl rfl ?_ fun id => Or.inl rfl
  obtain ⟨hi, rfl⟩ := List.getElem?_eq_some_iff.mp hjob
  calc
    List.Perm _ (s.ev.queue.eraseIdx i ++ s.ev.queue[i] :: s.ev.working) :=
      (List.perm_append_singleton _ _).append_left _
    List.Perm _ (s.ev.queue[i] :: s.ev.queue.eraseIdx i ++ s.ev.working) := List.perm_middle
    List.Perm _ (s.ev.queue ++ s.ev.working) :=
      (List.getElem_cons_eraseIdx_perm hi).append_right _

theorem finished_change (hs : EventsOk s) {i : ℕ} {job : EventJob}
    (hjob : s.ev.working[i]? = some job) :
    EventChange s { s with ev := { s.ev.lowered job.event with
      working := s.ev.working.eraseIdx i } } [] := by
  obtain ⟨hi, rfl⟩ := List.getElem?_eq_some_iff.mp hjob
  refine lowered_change hs (x := s.ev.working[i].event) rfl rfl rfl ?_ (fun id => Or.inl rfl) ?_
  · exact (List.Sublist.refl _).append (List.eraseIdx_sublist _ _)
  · intro id
    have hperm := (List.getElem_cons_eraseIdx_perm hi).countP_eq fun job => decide (job.event = id)
    rw [List.countP_cons] at hperm
    unfold ScEvents.jobs ScEvents.lowered
    simp only [List.countP_append]
    rw [← hperm]
    by_cases hid : id = s.ev.working[i].event
    · simp [hid]
      omega
    · simp [hid, Ne.symm hid]

theorem unref_change (hs : EventsOk s) (hphase : s.phase id = .requested) :
    EventChange s ⟨s.ev.lowered id, Function.update s.phase id .waiting⟩ [] := by
  refine lowered_change hs (x := id) rfl rfl rfl (List.Sublist.refl _) ?_ ?_
  · intro y
    dsimp only
    by_cases hy : y = id
    · rw [hy, Function.update_self]
      exact Or.inr ⟨hphase, rfl⟩
    · rw [Function.update_of_ne hy]
      exact Or.inl rfl
  · intro y
    have hjobs : (s.ev.lowered id).jobs y = s.ev.jobs y := rfl
    dsimp only
    rw [hjobs]
    by_cases hy : y = id
    · rw [hy, Function.update_self, hphase, if_pos rfl]
      simp only [DestroyPhase.refs]
      omega
    · rw [Function.update_of_ne hy, if_neg hy]
      rfl

theorem requested_change (hs : EventsOk s) (hphase : s.phase id = .notCalled)
    (he : s.ev.find id = some e) (hflag : e.requestDestroy = true) :
    EventChange s { s with phase := Function.update s.phase id .requested } [] := by
  refine moved_change hs rfl rfl rfl (List.Perm.refl _) ?_
  intro y
  dsimp only
  by_cases hy : y = id
  · rw [hy, Function.update_self]
    exact Or.inr ⟨hphase, rfl, e, he, hflag⟩
  · rw [Function.update_of_ne hy]
    exact Or.inl rfl

/-- The events in the list of an element are there, and they are not being destroyed. -/
theorem listOf_find (hs : EventsOk s) {el : ScAddr} (hid : id ∈ s.ev.listOf el) :
    ∃ e, s.ev.find id = some e ∧ e.element.localToInt = el.localToInt ∧ e.requestDestroy = false ∧
      e.callback ≠ none := by
  unfold ScEvents.listOf at hid
  cases htable : s.ev.table with
  | none => simp [htable] at hid
  | some entries =>
    rw [htable] at hid
    obtain ⟨p, hp, rfl⟩ := List.mem_map.mp hid
    obtain ⟨hmem, hkey⟩ := List.mem_filter.mp hp
    obtain ⟨e, he, hel, hflag⟩ := hs.entry entries htable p hmem
    exact ⟨e, he, hel.trans (of_decide_eq_true hkey), hflag, hs.callback _ e he hflag⟩

theorem emitImpl_wp (hs : EventsOk s) (el : ScAddr) (access : ScAccessLevels) (type : ScEventType)
    (edge other : ScAddr) :
    Wp (scEventEmitImpl el access type edge other)
      (fun _ ev' => ev' = s.ev.raised edge other (s.ev.subscribers el access type) ∧
        el ≠ ScAddr.empty ∧ s.ev.HasRefRoom (s.ev.subscribers el access type))
      (fun _ => ¬ (el ≠ ScAddr.empty ∧ s.ev.HasRefRoom (s.ev.subscribers el access type))) s.ev := by
  apply emitImpl_spec el access type edge other (listOf_nodup hs el)
  intro id hid
  obtain ⟨e, he, _, _, hcallback⟩ := listOf_find hs hid
  exact ⟨e, he, hcallback⟩

/-- An emission with room in the counts. -/
theorem emitted_change (hs : EventsOk s) (el : ScAddr) (access : ScAccessLevels)
    (type : ScEventType) (edge other : ScAddr)
    (hroom : s.ev.HasRefRoom (s.ev.subscribers el access type)) :
    EventChange s { s with ev := s.ev.raised edge other (s.ev.subscribers el access type) }
      (if s.ev.running then [] else s.ev.subscribers el access type) := by
  apply raised_change hs edge other _ ((listOf_nodup hs el).filter _)
  intro id hid
  obtain ⟨e, he, _⟩ := listOf_find hs (List.mem_of_mem_filter hid)
  exact ⟨e, he, hroom id hid e he⟩

/-- What a step does, region by region. -/
inductive EventOutcome (s : EventParties) : EventAction → EventParties → Prop where
  | new (el : ScAddr) (type : ScEventType) (callback : EventCallback) (levels : ScAccessLevels) :
    EventOutcome s (.new el type callback levels)
      { s with ev := { s.ev with
          events := s.ev.events ++ [⟨s.ev.nextId, el, type, some callback, 1, levels⟩]
          nextId := s.ev.nextId+1
          table := some (s.ev.table.getD [] ++ [(el.localToInt, s.ev.nextId)]) } }
  | emit (el : ScAddr) (access : ScAccessLevels) (type : ScEventType) (edge other : ScAddr)
      (hroom : s.ev.HasRefRoom (s.ev.subscribers el access type)) :
    EventOutcome s (.emit el access type edge other)
      { s with ev := s.ev.raised edge other (s.ev.subscribers el access type) }
  | notifyDeleted (el : ScAddr) :
    EventOutcome s (.notifyDeleted el) { s with ev := s.ev.dropped el }
  | workerStart (i : ℕ) (job : EventJob) (hjob : s.ev.queue[i]? = some job) :
    EventOutcome s (.workerStart i) { s with ev := { s.ev with
      queue := s.ev.queue.eraseIdx i, working := s.ev.working ++ [job] } }
  | workerFinish (i : ℕ) (job : EventJob) (hjob : s.ev.working[i]? = some job) :
    EventOutcome s (.workerFinish i) { s with ev := { s.ev.lowered job.event with
      working := s.ev.working.eraseIdx i } }
  -- the element has been deleted before
  | destroyMarked (id : ℕ) (e : ScEvent) (hphase : s.phase id = .notCalled)
      (he : s.ev.find id = some e) (hflag : e.requestDestroy = true) :
    EventOutcome s (.destroyRequest id) { s with phase := Function.update s.phase id .requested }
  | destroyClosed (id : ℕ) (e : ScEvent) (entries : List (ℕ × ℕ)) (hphase : s.phase id = .notCalled)
      (he : s.ev.find id = some e) (hflag : e.requestDestroy = false)
      (htable : s.ev.table = some entries) :
    EventOutcome s (.destroyRequest id)
      { ev := { s.ev.closed id with
          table := if entries.erase (e.element.localToInt, e.id) = [] then none
            else some (entries.erase (e.element.localToInt, e.id)) }
        phase := Function.update s.phase id .requested }
  | destroyUnref (id : ℕ) (hphase : s.phase id = .requested) :
    EventOutcome s (.destroyUnref id) ⟨s.ev.lowered id, Function.update s.phase id .waiting⟩
  | destroyWaits (id : ℕ) (hphase : s.phase id = .waiting) : EventOutcome s (.destroyPass id) s
  | destroyFreed (id : ℕ) (e : ScEvent) (hphase : s.phase id = .waiting)
      (he : s.ev.find id = some e) (hfree : e.refCount = scEventRequestDestroy) :
    EventOutcome s (.destroyPass id)
      { ev := { s.ev with events := s.ev.events.eraseP fun e => e.id = id }
        phase := Function.update s.phase id .freed }
  | stopProcessing : EventOutcome s .stopProcessing { s with ev := { s.ev with running := false } }

theorem event_outcome (hs : EventsOk s) (action : EventAction) (hstep : EventStep s action s') :
    EventOutcome s action s' := by
  have hrun : IfReturns action.run (fun _ s' => EventOutcome s action s') s := by
    have hallowed := hstep.allowed
    cases action with
    | new el type callback levels => exact .new el type callback levels
    | emit el access type edge other =>
      unfold EventAction.run
      rw [IfReturns, wp_onEvents]
      apply wp_mono (emitImpl_wp hs el access type edge other) _ (fun _ _ => trivial)
      rintro _ ev' ⟨hev, _, hroom⟩
      rw [hev]
      exact .emit el access type edge other hroom
    | notifyDeleted el =>
      unfold EventAction.run
      rw [IfReturns, wp_onEvents]
      apply wp_mono (notifyDeleted_spec el fun _ => True) _ (fun _ _ => trivial)
      intro _ ev' hev
      rw [hev]
      exact .notifyDeleted el
    | workerStart i =>
      unfold EventAction.run
      rw [IfReturns, wp_onEvents]
      apply wp_mono (workerStart_spec i hallowed) _ (fun _ _ => trivial)
      rintro _ ev' ⟨job, hjob, hev⟩
      rw [hev]
      exact .workerStart i job hjob
    | workerFinish i =>
      unfold EventAction.run
      rw [IfReturns, wp_onEvents]
      apply wp_mono (workerFinish_spec i hallowed) _ (fun _ _ => trivial)
      rintro _ ev' ⟨job, hjob, hev⟩
      rw [hev]
      exact .workerFinish i job hjob
    | destroyRequest id =>
      unfold EventAction.run
      rw [IfReturns, wp_bind, wp_onEvents]
      apply wp_mono (destroyRequest_spec id) _ (fun _ _ => trivial)
      rintro r ev' ⟨e, he, hcases⟩
      rcases hcases with ⟨hflag, rfl, rfl⟩ | ⟨hflag, entries, htable, hcases⟩
      · exact .destroyMarked id e hallowed.2 he hflag
      rcases hcases with ⟨hempty, rfl, rfl⟩ | ⟨rfl, rfl⟩
      · -- an event that is not marked is in the table
        obtain ⟨entries', htable', hmem⟩ := hs.registered id e he hflag
        rw [htable, Option.some.injEq] at htable'
        rw [← htable'] at hmem
        have hlist : id ∈ eventsOf e.element entries :=
          List.mem_map.mpr ⟨_, List.mem_filter.mpr ⟨hmem, by simp⟩, rfl⟩
        rw [hempty] at hlist
        simp at hlist
      · exact .destroyClosed id e entries hallowed.2 he hflag htable
    | destroyUnref id => exact .destroyUnref id hallowed
    | destroyPass id =>
      unfold EventAction.run
      rw [IfReturns, wp_bind, wp_onEvents]
      apply wp_mono (destroyPass_spec id) _ (fun _ _ => trivial)
      rintro r ev' ⟨e, he, hcases⟩
      rcases hcases with ⟨hfree, rfl, rfl⟩ | ⟨_, rfl, rfl⟩
      · exact .destroyFreed id e hallowed he hfree
      · exact .destroyWaits id hallowed
    | stopProcessing => exact .stopProcessing
  exact wp_ok (Q := fun _ s' => EventOutcome s action s') hrun hstep.step

/-- Every step keeps the invariant, and the counts account for all but the refused jobs. -/
theorem event_change (hs : EventsOk s) (action : EventAction) (hstep : EventStep s action s') :
    EventChange s s' (action.refused s) := by
  cases event_outcome hs action hstep with
  | new el type callback levels => exact added_change hs el type callback levels
  | emit el access type edge other hroom => exact emitted_change hs el access type edge other hroom
  | notifyDeleted el => exact dropped_change hs el
  | workerStart i job hjob => exact started_change hs hjob
  | workerFinish i job hjob => exact finished_change hs hjob
  | destroyMarked id e hphase he hflag => exact requested_change hs hphase he hflag
  | destroyClosed id e entries _ he hflag htable => exact closed_change hs he hflag htable
  | destroyUnref id hphase => exact unref_change hs hphase
  | destroyWaits id => exact moved_change hs rfl rfl rfl (List.Perm.refl _) fun id => Or.inl rfl
  | destroyFreed id e hphase he hfree => exact (freed_change hs he hfree hphase).2
  | stopProcessing => exact moved_change hs rfl rfl rfl (List.Perm.refl _) fun id => Or.inl rfl

theorem eventsOk_empty : EventsOk EventParties.empty := by
  refine ⟨List.nodup_nil, ?_, fun _ _ => rfl, ?_, ?_, ?_, ?_, ?_, ?_, ?_, ?_⟩
  · intro id
    simp [EventParties.empty, ScEvents.empty, ScEvents.find]
  · intro id
    simp [EventParties.empty]
  · intro entries htable
    simp [EventParties.empty, ScEvents.empty] at htable
  · intro entries htable
    simp [EventParties.empty, ScEvents.empty] at htable
  · intro id e he
    simp [EventParties.empty, ScEvents.empty, ScEvents.find] at he
  · intro id e he
    simp [EventParties.empty, ScEvents.empty, ScEvents.find] at he
  · intro id e he
    simp [EventParties.empty, ScEvents.empty, ScEvents.find] at he
  · intro job hjob
    simp [EventParties.empty, ScEvents.empty] at hjob
  · intro id e he
    simp [EventParties.empty, ScEvents.empty, ScEvents.find] at he

theorem eventStep_ok (s : EventParties) (action : EventAction) (s' : EventParties) (hs : EventsOk s)
    (hstep : EventStep s action s') : EventsOk s' := (event_change hs action hstep).ok

theorem eventRun_ok (actions : List EventAction) (s : EventParties)
    (hr : Run EventStep EventParties.empty actions s) : EventsOk s :=
  run_invariant EventsOk eventStep_ok actions _ s eventsOk_empty hr

/-! The counts, as long as no job is refused. -/

/-- No event accepts an emission while the queue does not take jobs. -/
structure AccountedStep (s : EventParties) (action : EventAction) (s' : EventParties) : Prop where
  step : EventStep s action s'
  taken : action.refused s = []

/-- The count is that of the owner and the jobs. -/
def Accounted (s : EventParties) : Prop :=
  ∀ id e, s.ev.find id = some e → e.refs = (s.phase id).refs+s.ev.jobs id

theorem accounted_of_change (hs : Accounted s) (hch : EventChange s s' []) : Accounted s' := by
  intro id e' he'
  have hzero : s'.balance id e' = 0 := by
    rcases hch.balance id e' he' with ⟨e, he, heq⟩ | hzero
    · have hold := hs id e he
      rw [heq, List.count_nil]
      unfold EventParties.balance
      omega
    · exact hzero
  unfold EventParties.balance at hzero
  omega

theorem accounted_step (s : EventParties) (action : EventAction) (s' : EventParties)
    (h : EventsOk s ∧ Accounted s) (hstep : AccountedStep s action s') :
    EventsOk s' ∧ Accounted s' := by
  have hch := event_change h.1 action hstep.step
  rw [hstep.taken] at hch
  exact ⟨hch.ok, accounted_of_change h.2 hch⟩

/-! The three regions of `sc_event_destroy`, one after the other. -/

theorem destroyPass_step (hs : EventsOk s) (hacc : Accounted s) (he : s.ev.find id = some e)
    (hphase : s.phase id = .waiting) (hjobs : s.ev.jobs id = 0) :
    ∃ s', EventStep s (.destroyPass id) s' ∧ s'.phase id = .freed := by
  have hrefs := hacc id e he
  rw [hphase, hjobs] at hrefs
  have hfree : e.refCount = scEventRequestDestroy :=
    (refCount_eq_flag_iff e).mpr ⟨hs.requested id e he (by simp [hphase]), hrefs⟩
  have hwp : Wp (EventAction.destroyPass id).run (fun _ s' => s'.phase id = .freed)
      (fun _ => False) s := by
    unfold EventAction.run scEventDestroyPass setPhase
    simp only [wp_bind, wp_onEvents, wp_get, he, hfree, if_true, wp_modify, wp_pure]
    exact Function.update_self _ _ _
  obtain ⟨_, s', hrun, hq⟩ := wp_returns hwp
  exact ⟨s', ⟨hphase, hrun⟩, hq⟩

theorem destroyUnref_step (hphase : s.phase id = .requested) :
    ∃ s', EventStep s (.destroyUnref id) s' ∧ s'.phase id = .waiting ∧ s'.ev.jobs id = s.ev.jobs id ∧
      (s'.ev.find id).isSome = (s.ev.find id).isSome := by
  refine ⟨⟨s.ev.lowered id, Function.update s.phase id .waiting⟩, ⟨hphase, rfl⟩,
    Function.update_self _ _ _, rfl, ?_⟩
  have hfind : (s.ev.lowered id).find id = (s.ev.find id).map fun e =>
      if e.id = id then { e with refCount := e.refCount-1 } else e := by
    apply find_map
    intro e
    split_ifs <;> rfl
  dsimp only
  rw [hfind, Option.isSome_map]

theorem destroyRequest_step (hs : EventsOk s) (he : s.ev.find id = some e)
    (hphase : s.phase id = .notCalled) :
    ∃ s', EventStep s (.destroyRequest id) s' ∧ s'.phase id = .requested ∧
      s'.ev.jobs id = s.ev.jobs id ∧ (s'.ev.find id).isSome = true := by
  have hlt := ((hs.alive id).mp (by rw [he]; rfl)).1
  by_cases hflag : e.requestDestroy = true
  · have hwp : Wp (EventAction.destroyRequest id).run (fun _ s' => s' =
        { s with phase := Function.update s.phase id .requested }) (fun _ => False) s := by
      unfold EventAction.run scEventDestroyRequest setPhase
      simp only [wp_bind, wp_onEvents, wp_get, he, hflag, if_true, wp_modify, wp_pure]
    obtain ⟨_, s', hrun, rfl⟩ := wp_returns hwp
    refine ⟨_, ⟨⟨hlt, hphase⟩, hrun⟩, Function.update_self _ _ _, rfl, ?_⟩
    dsimp only
    rw [he]
    rfl
  · have hflag' : e.requestDestroy = false := by simpa using hflag
    obtain ⟨entries, htable, hmem⟩ := hs.registered id e he hflag'
    have hlist : eventsOf e.element entries ≠ [] := by
      apply List.ne_nil_of_mem (a := id)
      exact List.mem_map.mpr ⟨_, List.mem_filter.mpr ⟨hmem, by simp⟩, rfl⟩
    have hwp : Wp (EventAction.destroyRequest id).run (fun _ s' => s'.phase id = .requested ∧
        s'.ev.jobs id = s.ev.jobs id ∧ s'.ev.find id = (s.ev.closed id).find id)
        (fun _ => False) s := by
      unfold EventAction.run scEventDestroyRequest removeEventFromTable modifyEvent setPhase
      simp only [wp_bind, wp_onEvents, wp_get, he, hflag, if_false, htable, hlist, wp_modify, wp_pure,
        Bool.not_true, Bool.false_eq_true]
      exact ⟨Function.update_self _ _ _, rfl, rfl⟩
    obtain ⟨_, s', hrun, hp, hjobs, hfind⟩ := wp_returns hwp
    refine ⟨s', ⟨⟨hlt, hphase⟩, hrun⟩, hp, hjobs, ?_⟩
    have hmap : (s.ev.closed id).find id = (s.ev.find id).map fun e => if e.id = id then
        { e with refCount := e.refCount ||| scEventRequestDestroy, callback := none } else e := by
      apply find_map
      intro e
      split_ifs <;> rfl
    rw [hfind, hmap, he]
    rfl

end

end ScMachine.Store
