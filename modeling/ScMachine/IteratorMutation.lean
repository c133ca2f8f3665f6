import ScMachine.IteratorExact
import ScMachine.HeldReferences

/-! Iterators along arc lists while arcs are created and elements are deleted between two calls of
`next`. -/
namespace ScMachine.Store
open ScMachine.StateExcept ScMachine.Runs ScMachine.DoublyLinked ScMachine.Enumeration

/-- A reference of `y` can be taken, as far as the limit of the count goes. -/
def HasRoom (st : ScStorage) (y : ScAddr) : Prop := st.refCount y+1 < 4294967295

/-- What a walk meets from `y` on: removed elements whose cells somebody still holds, each of them
once, and behind them the end or an arc of the list of the anchor. -/
inductive Leads (st : ScStorage) (d : Dir) (anchor : ScAddr) : List ScAddr → ScAddr → Prop where
  | ended (seen : List ScAddr) : Leads st d anchor seen ScAddr.empty
  | arc (seen : List ScAddr) (y : ScAddr) : LiveArc st.cell y → ownerOf st.cell d y = anchor →
      Leads st d anchor seen y
  | removed (seen : List ScAddr) (y : ScAddr) : y ∉ seen → y ≠ ScAddr.empty →
      scElementIsRequestDeletion (st.cell y) = true → HasRoom st y →
      Leads st d anchor (y :: seen) (nextOf st.cell d y) → Leads st d anchor seen y

/-- The iterator can be moved on: it has not yet started, or what is behind the arc it stands on
leads back to the list of the anchor. -/
structure ScIterator3.CanGoOn (it : ScIterator3) (st : ScStorage) (d : Dir) (anchor : ScAddr) :
    Prop where
  room : ∀ y, LiveArc st.cell y → ownerOf st.cell d y = anchor → HasRoom st y
  leads : it.result1 ≠ ScAddr.empty →
    Leads st d anchor [it.result1] (nextOf st.cell d it.result1)

/-- The last result is a live arc of the anchor, on the right side of it, and it matches. -/
structure Iterator3Params.RightResult (params : Iterator3Params) (ctx : ScContext) (c : Cells)
    (d : Dir) (anchor : ScAddr) (it : ScIterator3) : Prop where
  live : LiveArc c it.result1
  owner : ownerOf c d it.result1 = anchor
  isMatch : params.Matches c ctx it.result1
  results : it.results = arcTriple c it.result1

/-- The walk has gone through the elements of `seen`, and these are dead. -/
structure Passed (st0 : ScStorage) (seen : List ScAddr) (st : ScStorage) : Prop where
  live : ∀ z, Live st.cell z ↔ Live st0.cell z
  same : ∀ z, z ∉ seen ∨ Live st0.cell z → st.cell z = st0.cell z
  refCount : ∀ z, st.refCount z ≤ st0.refCount z

section
variable {env : ScEnv} {L : SectionKey → LockWord} {as held seen : List ScAddr}
  {st st0 s : ScStorage} {a x y : ScAddr} {ctx : ScContext} {d : Dir} {anchor : ScAddr}
  {params : Iterator3Params} {it : ScIterator3} {E : ScStop → Prop}

/-! The steps of a call on a cell that is in use. -/

theorem lock_used (hown : ∀ k, Lockable env.thread (L k)) (h : Tracked env L as held st)
    (ha : (st.cell a).type ≠ 0) :
    Wp (scStorageElementLock env a) (fun r s => r = true ∧ s.unlocked = st.unlocked ∧
      Tracked env L (a :: as) held s) E st := by
  apply wp_mono (elementLock_wp h.holds a)
  · intro r s ⟨hu, hloaded, hh⟩
    have hr : r = true := hloaded.mpr (h.cells.loaded h.holds.segs ha)
    rw [if_pos hr] at hh
    exact ⟨hr, hu, h.of_unlocked hu hh⟩
  · intro _ hstop
    have hin := h.cells.inRange a ha
    rcases hstop with hoff | hlock
    · omega
    · exact absurd (hown _) hlock

theorem lockTry_used (hown : ∀ k, Lockable env.thread (L k)) (h : Tracked env L as held st)
    (ha : (st.cell a).type ≠ 0) :
    Wp (scStorageElementLockTry env a) (fun r s => r = true ∧ s.unlocked = st.unlocked ∧
      Tracked env L (a :: as) held s) E st := by
  apply wp_mono (elementLockTry_wp h.holds a)
  · intro r s ⟨hu, hloaded, hh⟩
    have hr : r = true := hloaded.mpr ⟨h.cells.loaded h.holds.segs ha, hown _⟩
    rw [if_pos hr] at hh
    exact ⟨hr, hu, h.of_unlocked hu hh⟩
  · intro _ hoff
    have hin := h.cells.inRange a ha
    omega

theorem unlock_used (h : Tracked env L (a :: as) held st) :
    Wp (scStorageElementUnlock env a) (fun _ s => s.unlocked = st.unlocked ∧
      Tracked env L as held s) E st := by
  apply unlock_rule h.holds
  intro s hu hh
  exact ⟨hu, h.of_unlocked hu hh⟩

theorem ref_used (hown : ∀ k, Lockable env.thread (L k)) (h : Tracked env L as held st)
    (hne : a ≠ ScAddr.empty) (ha : (st.cell a).type ≠ 0) (hroom : HasRoom st a) :
    Wp (scStorageElementRef env a) (fun _ s => CountSet st a (st.refCount a+1) s ∧
      Tracked env L as (a :: held) s) E st := by
  apply wp_mono (elementRef_wp h.holds a)
  · intro _ s ⟨hcount, hset, hh⟩
    exact ⟨hset, hh, refTaken_cells h.cells hcount.bounded hset, h.refs.take hcount.positive hset⟩
  · intro _ hstop
    exfalso
    apply hstop
    exact ⟨hne, h.cells.loaded h.holds.segs ha, hown _, h.refs.positive ha, hroom⟩

theorem unref_used (hown : ∀ k, Lockable env.thread (L k)) (h : Tracked env L as (a :: held) st)
    (hne : a ≠ ScAddr.empty) :
    Wp (scStorageElementUnref env a) (fun _ s => Unrefed st a s ∧ Tracked env L as held s) E st := by
  have ha : (st.cell a).type ≠ 0 := h.refs.type_ne List.mem_cons_self
  apply wp_mono (elementUnref_wp h.holds a)
  · intro _ s ⟨_, _, hun, hh⟩
    exact ⟨hun, hh, refDropped_cells h.cells h.refs.two hun, h.refs.drop hun⟩
  · intro _ hstop
    exfalso
    apply hstop
    have hbound := h.cells.bounded a
    exact ⟨hne, h.cells.loaded h.holds.segs ha, hown _, h.refs.positive ha, by omega⟩

/-! What the walk has changed so far. -/

theorem passed_start (st : ScStorage) : Passed st [] st :=
  ⟨fun _ => Iff.rfl, fun _ _ => rfl, fun _ => le_refl _⟩

theorem Passed.of_unlocked (h : Passed st0 seen st) (hu : s.unlocked = st.unlocked) :
    Passed st0 seen s := by
  refine ⟨?_, ?_, ?_⟩
  · rw [cell_of_unlocked hu]
    exact h.live
  · rw [cell_of_unlocked hu]
    exact h.same
  · rw [refCount_of_unlocked hu]
    exact h.refCount

/-- A reference is given back that had been taken before or since `s1`. -/
theorem Passed.unref {s1 : ScStorage} (h : Passed st0 seen s1) (hcell : st.cell = s1.cell)
    (hcount : ∀ z, st.refCount z ≤ s1.refCount z+(if z = a then 1 else 0))
    (hun : Unrefed st a s) (htwo : Live st.cell a → 2 ≤ st.refCount a) :
    Passed st0 (a :: seen) s := by
  have hlive := h.live
  have hsame := h.same
  rw [← hcell] at hlive hsame
  refine ⟨fun z => (hun.live_iff htwo z).trans (hlive z), ?_, ?_⟩
  · intro z hz
    rcases hz with hz | hz
    · simp only [List.mem_cons, not_or] at hz
      rw [hun.cell_other z (fun he => absurd he hz.1)]
      exact hsame z (Or.inl hz.2)
    · rw [hun.same htwo z ((hlive z).mpr hz)]
      exact hsame z (Or.inr hz)
  · intro z
    have hz := hcount z
    have hz0 := h.refCount z
    rw [hun.refCount]
    by_cases hza : z = a
    · rw [if_pos hza] at hz
      rw [hza] at hz hz0
      rw [hza, Function.update_self]
      omega
    · rw [if_neg hza] at hz
      rw [Function.update_of_ne hza]
      omega

theorem Passed.weaken (h : Passed st0 seen st) (a : ScAddr) : Passed st0 (a :: seen) st := by
  refine ⟨h.live, fun z hz => h.same z ?_, h.refCount⟩
  apply hz.imp_left
  exact fun hn hmem => hn (List.mem_cons_of_mem _ hmem)

/-- What is ahead of an iterator at the start, or behind an arc of the list. -/
theorem ArcChain.leads {l : List ScAddr} (h : ArcChain st.cell d anchor l) (seen : List ScAddr)
    (pre rest : List ScAddr) (hl : l = pre ++ rest) :
    Leads st d anchor seen (rest.headD ScAddr.empty) := by
  cases rest with
  | nil => exact Leads.ended seen
  | cons y ys =>
    have hy := (h.mem y).mp (by
      rw [hl]
      simp)
    exact Leads.arc seen y hy.1 hy.2

/-- Where the loop starts: in the middle of the list of the anchor or on the way to it. -/
theorem resumeArc_leads (hown : ∀ k, Lockable env.thread (L k)) (hanchor : Live st.cell anchor)
    (hfinished : it.finished = false) (hgo : it.CanGoOn st d anchor)
    (h : Tracked env L [] (it.held ++ held) st) :
    Wp (resumeArc env d anchor it) (fun y s => ∃ x, Leads st d anchor [x] y ∧
      Passed st [x] s ∧ Tracked env L [] (it.params.fixed ++ held) s) E st := by
  unfold resumeArc
  by_cases hempty : it.result1 = ScAddr.empty
  · have hheld : it.held = it.params.fixed := by
      unfold ScIterator3.held ScIterator3.currentArc
      simp [hempty]
    rw [hheld] at h
    rw [if_pos hempty, wp_bind]
    apply wp_mono (lock_used hown h (type_of_live hanchor)) _ (fun _ he => he)
    intro r s1 ⟨hr, hu1, h1⟩
    simp only [hr, Bool.not_true, Bool.false_eq_true, if_false, wp_bind, wp_readCell]
    apply wp_mono (unlock_used h1) _ (fun _ he => he)
    intro _ s2 ⟨hu2, h2⟩
    refine ⟨ScAddr.empty, ?_, ?_, h2⟩
    · have hchain := h.cells.arcs.arcList (d := d) hanchor
      rw [cell_of_unlocked hu1, hchain.first]
      exact hchain.leads _ [] _ rfl
    · exact ((passed_start st).of_unlocked (hu2.trans hu1)).weaken _
  · have hheld (y : ScAddr) : (it.result1 :: (it.params.fixed ++ held)).count y ≤
        (it.held ++ held).count y := by
      unfold ScIterator3.held ScIterator3.currentArc
      rw [if_pos ⟨hfinished, hempty⟩]
      simp only [Option.toList_some, List.count_append, List.count_cons, List.count_nil]
      omega
    have h0 := h.mono hheld
    rw [if_neg hempty, wp_bind]
    apply wp_mono (lock_used hown h0 (h0.refs.type_ne List.mem_cons_self)) _ (fun _ he => he)
    intro r s1 ⟨hr, hu1, h1⟩
    simp only [hr, Bool.not_true, Bool.false_eq_true, if_false, wp_bind, wp_readCell]
    apply wp_mono (unref_used hown h1 hempty) _ (fun _ he => he)
    intro _ s2 ⟨hun, h2⟩
    apply wp_mono (unlock_used h2) _ (fun _ he => he)
    intro _ s3 ⟨hu3, h3⟩
    refine ⟨it.result1, ?_, ?_, h3⟩
    · rw [cell_of_unlocked hu1]
      exact hgo.leads hempty
    · have hpassed := (passed_start st).of_unlocked hu1
      apply Passed.of_unlocked _ hu3
      apply hpassed.unref rfl _ hun h1.refs.two
      intro z
      split_ifs <;> omega

/-- The loop from an arc of the list on, in a state whose cells it does not change. -/
theorem walkArcs_list (hown : ∀ k, Lockable env.thread (L k)) (hanchor : Live st.cell anchor)
    (h : Tracked env L [] held st) (hy : LiveArc st.cell y) (howner : ownerOf st.cell d y = anchor)
    (hroom : ∀ z, LiveArc st.cell z → ownerOf st.cell d z = anchor → HasRoom st z)
    {m : ScAddr → Bool} {accept : ScAddr → ScElement → StoreM Bool}
    (haccept : ∀ x, LiveArc st.cell x → ∀ held s, Iterating env L [x] st.cell st.refCount held s →
      Wp (accept x (st.cell x)) (fun r s => r = m x ∧ Iterating env L [] st.cell st.refCount held s)
        E s)
    (fuel : ℕ) (hfuel : ∀ l : List ScAddr, l.Nodup → (∀ z ∈ l, Live st.cell z) → l.length < fuel) :
    Wp (walkArcs env d accept fuel y)
      (fun r s => s.cell = st.cell ∧ ∀ p, r = some p → LiveArc st.cell p.1 ∧
        ownerOf st.cell d p.1 = anchor ∧ m p.1 = true ∧ p.2 = st.cell p.1) E st := by
  have hchain := h.cells.arcs.arcList (d := d) hanchor
  obtain ⟨pre, rest, hlist⟩ := List.append_of_mem ((hchain.mem y).mpr ⟨hy, howner⟩)
  have hmem (z : ScAddr) (hz : z ∈ y :: rest) := (hchain.mem z).mp (by
    rw [hlist]
    exact List.mem_append_right _ hz)
  have hnodup := hchain.nodup
  have hlinked := hchain.linked
  rw [hlist] at hnodup hlinked
  have hnodup' := (List.nodup_append.mp hnodup).2.1
  obtain ⟨q, hlinked'⟩ := hlinked.suffix
  have hset : Undisturbed env L st.cell st.refCount := ⟨hown, h.cells.referenced⟩
  have hstart : Iterating env L [] st.cell st.refCount [] st := by
    refine ⟨h.holds, h.cells, rfl, fun z => ?_⟩
    simp
  have hE : ∀ z ∈ y :: rest, 4294967295 ≤ st.refCount z+(([] : List ScAddr).count z : ℤ)+1 →
      ∀ e, E e := by
    intro z hz hlimit
    have hz' := hroom z (hmem z hz).1 (hmem z hz).2
    unfold HasRoom at hz'
    rw [List.count_nil] at hlimit
    push_cast at hlimit
    omega
  apply wp_mono (walkArcs_wp hset (y :: rest) (fun z hz => (hmem z hz).1) hnodup' hlinked'
    (fun x hx held s hs => haccept x (hmem x hx).1 held s hs) hE fuel
    (hfuel _ hnodup' fun z hz => (hmem z hz).1.1) hstart) _ (fun _ he => he)
  intro r s ⟨hr, hs⟩
  refine ⟨hs.cell, ?_⟩
  intro p hp
  rw [hp] at hr
  obtain ⟨x, hx, rfl⟩ := Option.map_eq_some_iff.mp hr.symm
  have hxmem := List.mem_of_find?_eq_some hx
  exact ⟨(hmem x hxmem).1, (hmem x hxmem).2, List.find?_some hx, rfl⟩

theorem Passed.liveArc (h : Passed st0 seen st) (z : ScAddr) :
    LiveArc st.cell z ↔ LiveArc st0.cell z := by
  unfold LiveArc
  rw [h.live]
  apply and_congr_right
  intro hz
  rw [h.same z (Or.inr hz)]

/-- The comparison of an arc, in any state of the store. -/
def Accepts (env : ScEnv) (L : SectionKey → LockWord) (m : Cells → ScAddr → Bool)
    (accept : ScAddr → ScElement → StoreM Bool) (E : ScStop → Prop) : Prop :=
  ∀ st1, CellsOk st1 → ∀ x, LiveArc st1.cell x → ∀ held s,
    Iterating env L [x] st1.cell st1.refCount held s → Wp (accept x (st1.cell x))
      (fun r s => r = m st1.cell x ∧ Iterating env L [] st1.cell st1.refCount held s) E s

/-- The loop from any place that leads back to the list: it goes over the removed elements and then
along the list. -/
theorem walkArcs_leads (hown : ∀ k, Lockable env.thread (L k)) (hanchor : Live st0.cell anchor)
    (hroom : ∀ z, LiveArc st0.cell z → ownerOf st0.cell d z = anchor → HasRoom st0 z)
    {m : Cells → ScAddr → Bool} {accept : ScAddr → ScElement → StoreM Bool}
    (haccept : Accepts env L m accept E) (hl : Leads st0 d anchor seen y) (x : ScAddr)
    (F : List ScAddr) (hseen : seen = F ++ [x]) (hF : F.Nodup) (hdead : ∀ z ∈ F, ¬ Live st0.cell z)
    (fuel : ℕ) (hfuel : fuel+F.length = walkFuel) (hp : Passed st0 seen s)
    (h : Tracked env L [] held s) :
    Wp (walkArcs env d accept fuel y)
      (fun r s' => (∀ z, Live s'.cell z ↔ Live st0.cell z) ∧ ∀ p, r = some p →
        LiveArc s'.cell p.1 ∧ ownerOf s'.cell d p.1 = anchor ∧ m s'.cell p.1 = true ∧
          p.2 = s'.cell p.1) E s := by
  -- on the way back to the list; `F` are the removed elements that have been passed
  induction hl generalizing F fuel s with
  | ended seen =>
    have hlen := length_le_of_nodup_addrs F hF
    cases fuel with
    | zero =>
      unfold walkFuel at hfuel
      omega
    | succ fuel =>
      unfold walkArcs
      rw [if_pos rfl, wp_pure]
      exact ⟨hp.live, by simp⟩
  | arc seen y hy howner =>
    have hsame := hp.same y (Or.inr hy.1)
    have hroom' : ∀ z, LiveArc s.cell z → ownerOf s.cell d z = anchor → HasRoom s z := by
      intro z hz hz'
      have hlive := (hp.liveArc z).mp hz
      unfold ownerOf at hz'
      rw [hp.same z (Or.inr hlive.1)] at hz'
      have hcount := hp.refCount z
      have hlimit := hroom z hlive hz'
      unfold HasRoom at hlimit ⊢
      omega
    have hbound : ∀ l : List ScAddr, l.Nodup → (∀ z ∈ l, Live s.cell z) → l.length < fuel := by
      intro l hnodup hlive
      have hall : (F ++ l).Nodup := by
        refine List.nodup_append.mpr ⟨hF, hnodup, ?_⟩
        rintro a ha b hb rfl
        exact hdead a ha ((hp.live a).mp (hlive a hb))
      have hlen := length_le_of_nodup_addrs _ hall
      rw [List.length_append] at hlen
      unfold walkFuel at hfuel
      omega
    apply wp_mono (walkArcs_list (m := m s.cell) hown ((hp.live anchor).mpr hanchor) h
      ((hp.liveArc y).mpr hy) (by unfold ownerOf; rw [hsame]; exact howner) hroom'
      (haccept s h.cells) fuel hbound) _ (fun _ he => he)
    rintro r s' ⟨hcell, hr⟩
    rw [hcell]
    exact ⟨hp.live, hr⟩
  | removed seen y hnot hne hflag hroomy hnext ih =>
    have hlen := length_le_of_nodup_addrs F hF
    have hsame := hp.same y (Or.inl hnot)
    have htype : (s.cell y).type ≠ 0 := by
      rw [hsame]
      intro hzero
      unfold scElementIsRequestDeletion at hflag
      rw [hzero] at hflag
      exact absurd hflag (by decide)
    have hdeady : ¬ Live st0.cell y := by
      unfold Live scElementIsValid
      simp [hflag]
    cases fuel with
    | zero =>
      unfold walkFuel at hfuel
      omega
    | succ fuel =>
      unfold walkArcs
      rw [if_neg hne, wp_bind]
      apply wp_mono (lockTry_used hown h htype) _ (fun _ he => he)
      rintro r s1 ⟨hr, hu1, h1⟩
      have hp1 := hp.of_unlocked hu1
      have hcell1 : s1.cell y = st0.cell y := by rw [cell_of_unlocked hu1, hsame]
      simp only [hr, Bool.not_true, Bool.false_eq_true, if_false, wp_bind]
      have hroom1 : HasRoom s1 y := by
        have hcount := hp1.refCount y
        unfold HasRoom at hroomy ⊢
        omega
      apply wp_mono (ref_used hown h1 hne (by rw [cell_of_unlocked hu1]; exact htype) hroom1) _
        (fun _ he => he)
      rintro _ s2 ⟨hset, h2⟩
      simp only [wp_readCell, hset.cell, hcell1, hflag, if_true, wp_bind]
      apply wp_mono (unref_used hown h2 hne) _ (fun _ he => he)
      rintro _ s3 ⟨hun, h3⟩
      apply wp_mono (unlock_used h3) _ (fun _ he => he)
      rintro _ s4 ⟨hu4, h4⟩
      have hp3 : Passed st0 (y :: seen) s3 := by
        apply hp1.unref hset.cell _ hun h2.refs.two
        intro z
        rw [hset.refCount]
        by_cases hzy : z = y
        · rw [hzy, Function.update_self, if_pos rfl]
        · rw [Function.update_of_ne hzy, if_neg hzy]
          omega
      apply ih (y :: F) (by rw [hseen]; rfl) _ _ fuel _ (hp3.of_unlocked hu4) h4
      · refine List.nodup_cons.mpr ⟨?_, hF⟩
        rw [hseen] at hnot
        exact fun hmem => hnot (List.mem_append_left _ hmem)
      · intro z hz
        rcases List.mem_cons.mp hz with rfl | hz
        · exact hdeady
        · exact hdead z hz
      · rw [List.length_cons]
        omega

/-- The common part of the three kinds. -/
theorem walkKind_leads (hown : ∀ k, Lockable env.thread (L k)) (hanchor : Live st.cell anchor)
    {m : Cells → ScAddr → Bool} {accept : ScAddr → ScElement → StoreM Bool}
    {k : Option (ScAddr × ScElement) → StoreM (Bool × ScIterator3)} (it : ScIterator3)
    (found : ScAddr → ScElement → ScIterator3) (ended : ScIterator3)
    (hfinished : it.finished = false) (hgo : it.CanGoOn st d anchor)
    (haccept : Accepts env L m accept E)
    (hfound : ∀ x el, k (some (x, el)) = pure (true, found x el))
    (hended : k none = pure (false, ended))
    (hright : ∀ c x, LiveArc c x → ownerOf c d x = anchor → m c x = true →
      params.RightResult ctx c d anchor (found x (c x)))
    (h : Tracked env L [] (it.held ++ held) st) :
    Wp (do
        let start ← resumeArc env d anchor it
        k (← walkArcs env d accept walkFuel start))
      (fun r s => (∀ z, Live s.cell z ↔ Live st.cell z) ∧
        (r.1 = true → params.RightResult ctx s.cell d anchor r.2)) E st := by
  rw [wp_bind]
  apply wp_mono (resumeArc_leads hown hanchor hfinished hgo h) _ (fun _ he => he)
  intro start s1 ⟨x, hl, hp, h1⟩
  rw [wp_bind]
  apply wp_mono (walkArcs_leads hown hanchor hgo.room haccept hl x [] rfl List.nodup_nil
    (by simp) walkFuel rfl hp h1) _ (fun _ he => he)
  intro r s2 ⟨hsame, hr⟩
  cases r with
  | none =>
    rw [hended, wp_pure]
    exact ⟨hsame, by simp⟩
  | some p =>
    obtain ⟨y, el⟩ := p
    obtain ⟨hlive, howner, hm, hel⟩ := hr (y, el) rfl
    rw [hfound, wp_pure]
    refine ⟨hsame, fun _ => ?_⟩
    simp only at hel
    rw [hel]
    exact hright s2.cell y hlive howner hm

/-- A call of `next` on an iterator that can be moved on returns, and what it returns is right. -/
theorem next_leads (hown : ∀ k, Lockable env.thread (L k)) (hp : it.params.arcs = some (d, anchor))
    (hanchor : Live st.cell anchor) (hgo : it.finished = false → it.CanGoOn st d anchor)
    (h : Tracked env L [] (it.held ++ held) st) (unset : ScAddr → ScType) :
    Wp (scIterator3Next env unset it)
      (fun r s => (∀ z, Live s.cell z ↔ Live st.cell z) ∧
        (r.1 = true → it.params.RightResult it.ctx s.cell d anchor r.2)) E st := by
  unfold scIterator3Next
  by_cases hfinished : it.finished = true
  · rw [if_pos hfinished, wp_pure]
    exact ⟨fun _ => Iff.rfl, by simp⟩
  have hfin : it.finished = false := by simpa using hfinished
  rw [if_neg hfinished]
  have hset (st1 : ScStorage) (hc : CellsOk st1) : Undisturbed env L st1.cell st1.refCount :=
    ⟨hown, hc.referenced⟩
  cases hparams : it.params with
  | faa beg arcType endType =>
    rw [hparams] at hp
    simp only [Iterator3Params.arcs, Option.some.injEq, Prod.mk.injEq] at hp
    obtain ⟨rfl, rfl⟩ := hp
    refine walkKind_leads hown hanchor
      (m := fun c x => Iterator3Params.matching c it.ctx (.faa beg arcType endType) x)
      { it with result0 := beg }
      (fun x el => { it with result0 := beg, result1 := x, result2 := el.arc .arcEnd })
      { it with result0 := beg, finished := true } hfin ⟨(hgo hfin).room, (hgo hfin).leads⟩ ?_
      (fun _ _ => rfl) rfl ?_ h
    · intro st1 hc x hx held s hs
      exact acceptOther_wp (hset st1 hc) hc.arcs hs hx .out arcType endType unset
    · intro c x hx howner hm
      refine ⟨hx, howner, of_decide_eq_true hm, ?_⟩
      simp only [ScIterator3.results, arcTriple, howner]
      rfl
  | aaf begType arcType end_ =>
    rw [hparams] at hp
    simp only [Iterator3Params.arcs, Option.some.injEq, Prod.mk.injEq] at hp
    obtain ⟨rfl, rfl⟩ := hp
    refine walkKind_leads hown hanchor
      (m := fun c x => Iterator3Params.matching c it.ctx (.aaf begType arcType end_) x)
      { it with result2 := end_ }
      (fun x el => { it with result2 := end_, result1 := x, result0 := el.arc .arcBegin })
      { it with result2 := end_, finished := true } hfin ⟨(hgo hfin).room, (hgo hfin).leads⟩ ?_
      (fun _ _ => rfl) rfl ?_ h
    · intro st1 hc x hx held s hs
      exact acceptOther_wp (hset st1 hc) hc.arcs hs hx .inp arcType begType (fun _ => 0)
    · intro c x hx howner hm
      refine ⟨hx, howner, of_decide_eq_true hm, ?_⟩
      simp only [ScIterator3.results, arcTriple, howner]
      rfl
  | faf beg arcType end_ =>
    rw [hparams] at hp
    simp only [Iterator3Params.arcs, Option.some.injEq, Prod.mk.injEq] at hp
    obtain ⟨rfl, rfl⟩ := hp
    refine walkKind_leads hown hanchor
      (m := fun c x => Iterator3Params.matching c it.ctx (.faf beg arcType end_) x)
      { it with result0 := beg, result2 := end_ }
      (fun x _ => { it with result0 := beg, result2 := end_, result1 := x })
      { it with result0 := beg, result2 := end_, finished := true } hfin
      ⟨(hgo hfin).room, (hgo hfin).leads⟩ ?_ (fun _ _ => rfl) rfl ?_ h
    · intro st1 hc x hx held s hs
      exact acceptBetween_wp hs beg arcType
    · intro c x hx howner hm
      have hmatch : Iterator3Params.Matches c it.ctx (.faf beg arcType end_) x :=
        of_decide_eq_true hm
      refine ⟨hx, howner, hmatch, ?_⟩
      simp only [ScIterator3.results, arcTriple, howner, hmatch.1]
  | afa _ _ _ => simp [hparams, Iterator3Params.arcs] at hp
  | ffa _ _ _ => simp [hparams, Iterator3Params.arcs] at hp
  | aff _ _ _ => simp [hparams, Iterator3Params.arcs] at hp
  | fff _ _ _ => simp [hparams, Iterator3Params.arcs] at hp

/-! The fixed elements of an iterator are live when it is created. -/

theorem refElementLoop_live (h : Holds env.thread L as st) (a : ScAddr) (n : ℕ) :
    IfReturns (refElementLoop env a n) (fun r s => s.cell = st.cell ∧ Holds env.thread L as s ∧
      (r = true → Live st.cell a)) st := by
  induction n generalizing st with
  | zero => exact ⟨rfl, h, by simp⟩
  | succ n ih =>
    unfold refElementLoop
    rw [IfReturns, wp_bind]
    apply wp_mono (elementLock_wp h a) _ (fun _ _ => trivial)
    rintro r s1 ⟨hu1, _, h1⟩
    have hcell1 := cell_of_unlocked hu1
    cases r with
    | false =>
      simp only [Bool.not_false, if_true]
      have hrest := ih h1
      rw [hcell1] at hrest
      exact hrest
    | true =>
      simp only [Bool.not_true, Bool.false_eq_true, if_false, wp_bind, wp_readCell]
      rw [wp_ite]
      constructor
      · intro hvalid
        rw [hcell1] at hvalid
        rw [wp_bind]
        apply wp_mono (elementRef_wp h1 a) _ (fun _ _ => trivial)
        rintro _ s2 ⟨_, hset, h2⟩
        rw [wp_bind]
        apply unlock_rule h2
        intro s3 hu3 h3
        exact ⟨by rw [cell_of_unlocked hu3, hset.cell, hcell1], h3, fun _ => hvalid⟩
      · intro _
        rw [wp_bind]
        apply unlock_rule h1
        intro s2 hu2 h2
        have hrest := ih h2
        rw [cell_of_unlocked hu2, hcell1] at hrest
        exact hrest

theorem refElements_live (l : List ScAddr) (h : Holds env.thread L as st) :
    IfReturns (refElements env l) (fun r s => s.cell = st.cell ∧ Holds env.thread L as s ∧
      (r = true → ∀ a ∈ l, Live st.cell a)) st := by
  induction l generalizing st with
  | nil => exact ⟨rfl, h, by simp⟩
  | cons a l ih =>
    unfold refElements scIteratorRefElement
    rw [IfReturns, wp_bind]
    apply wp_mono (refElementLoop_live h a 1000) _ (fun _ _ => trivial)
    rintro r s1 ⟨hcell, h1, hlive⟩
    rw [wp_ite]
    constructor
    · intro hr
      have hrest := ih h1
      rw [hcell] at hrest
      apply wp_mono hrest _ (fun _ _ => trivial)
      rintro r s2 ⟨hcell2, h2, hlive2⟩
      refine ⟨hcell2, h2, fun hr2 => ?_⟩
      exact List.forall_mem_cons.mpr ⟨hlive hr, hlive2 hr2⟩
    · intro _
      exact ⟨hcell, h1, by simp⟩

/-- What creation returns, if it is not a null pointer. -/
def FixedLive (r : Option ScIterator3) (s : ScStorage) : Prop :=
  ∀ it, r = some it → ∀ a ∈ it.params.fixed, Live s.cell a

theorem newWithParams_live (h : Holds env.thread L as st) (ctx : ScContext)
    (params : Iterator3Params) : IfReturns (newWithParams env ctx params) FixedLive st := by
  unfold newWithParams
  rw [IfReturns, wp_bind]
  apply wp_mono (refElements_live params.fixed h) _ (fun _ _ => trivial)
  rintro r s ⟨hcell, _, hlive⟩
  rw [wp_ite]
  constructor
  · intro hr it hit a ha
    obtain rfl := Option.some.inj hit
    rw [hcell]
    exact hlive hr a ha
  · intro _ it hit
    simp at hit

theorem scIterator3New_live (h : Holds env.thread L as st) (ctx : ScContext)
    (type : ScIterator3Type) (p1 p2 p3 : ScIteratorParam) :
    IfReturns (scIterator3New env ctx type p1 p2 p3) FixedLive st := by
  unfold scIterator3New
  split
  all_goals
    first
    | exact newWithParams_live h ctx _
    | exact fun it hit => absurd hit (by simp)

theorem create_live (h : Tracked env L as held st) (ctx : ScContext) (params : Iterator3Params) :
    IfReturns (params.create env ctx) FixedLive st := by
  rw [create_eq, IfReturns, wp_bind]
  apply wp_mono (checkReadable_tracked ctx _ h) _ (fun _ _ => trivial)
  intro r s1 h1
  rw [wp_ite]
  constructor
  · intro _
    exact newWithParams_live h1.holds ctx params
  · intro _ it hit
    simp at hit

end

/-! Runs. -/

/-- The action creates an iterator over three elements. -/
def SystemAction.NewIterator : SystemAction → Prop
  | .iterator3New _ _ _ _ _ | .iterator3Create _ _ => True
  | _ => False

/-- What goes on while the iterator at place `i` is in use. -/
def SystemAction.Mutating (i : ℕ) : SystemAction → Prop
  | .iterator3Next _ j => j = i
  | .call (.nodeNew _ _) | .call (.arcNew _ _ _ _) | .call (.elementFree _ _ _) => True
  | _ => False

/-- A step of the thread that deletes no fixed element of the iterator at place `i`. -/
structure MutationStep (thread i : ℕ) (s : ScSystem) (e : SystemEvent) (s' : ScSystem) : Prop where
  step : SystemStep thread s e s'
  kind : e.action.Mutating i
  spares : ∀ ctx order a, e.action = .call (.elementFree ctx order a) →
    ∀ it ∈ s.iterators3[i]?, ∀ x ∈ it.params.fixed, Live s'.store.cell x

/-- A call of `next` is made only where the iterator can be moved on. -/
structure SafeStep (thread i : ℕ) (s : ScSystem) (e : SystemEvent) (s' : ScSystem) : Prop where
  mutation : MutationStep thread i s e s'
  safe : ∀ unset, e.action = .iterator3Next unset i → ∀ it ∈ s.iterators3[i]?, ∀ d anchor,
    it.params.arcs = some (d, anchor) → it.finished = false → it.CanGoOn s.store d anchor

/-- The iterator at place `i` has these parameters, and its fixed elements are there. -/
structure InUse (thread i : ℕ) (params : Iterator3Params) (ctx : ScContext) (s : ScSystem) :
    Prop where
  ok : SystemOk thread s
  iterator : ∃ it, s.iterators3[i]? = some it ∧ it.params = params ∧ it.ctx = ctx
  fixed : ∀ x ∈ params.fixed, Live s.store.cell x

section
variable {thread i : ℕ} {params : Iterator3Params} {ctx : ScContext} {s s' : ScSystem}

/-- A creation keeps the live elements. -/
theorem Effect.live_of_created {env : ScEnv} {st st' : ScStorage} {c : StorageCall}
    (h : Effect env st (.call c) st') (hc : CellsOk st)
    (hkind : ∀ ctx order a, c ≠ .elementFree ctx order a)
    (hmut : (SystemAction.call c).Mutating i) (x : ScAddr) (hx : Live st.cell x) :
    Live st'.cell x := by
  cases h with
  | same _ _ hu => rwa [cell_of_unlocked hu]
  | nodeNew ctx type a _ _ hcr =>
    obtain ⟨_, _, hfree, hcell⟩ := hcr.refCount
    have hxa : x ≠ a := by
      rintro rfl
      exact type_of_live hx hfree
    unfold Live
    rw [hcell, Function.update_of_ne hxa]
    exact hx
  | linkNew ctx isConst a _ hcr => exact absurd hmut (by simp [SystemAction.Mutating])
  | arcNew ctx type beg end_ a _ hcr =>
    have hfree := hcr.created.refCount.2.2.1
    have hxa : x ≠ a := by
      rintro rfl
      exact type_of_live hx hfree
    exact (hcr.same hc x hxa).live.mpr hx
  | freed ctx order a => exact absurd rfl (hkind ctx order a)
  | contentSet => exact absurd hmut (by simp [SystemAction.Mutating])
  | levelsSet => exact absurd hmut (by simp [SystemAction.Mutating])
  | subtypeChanged => exact absurd hmut (by simp [SystemAction.Mutating])

theorem storageCall_store (env : ScEnv) (c : StorageCall) (s : ScSystem) :
    IfReturns (storageCall env c) (fun _ s' => c.run env s.store = .ok ((), s'.store) ∧
      s'.iterators3 = s.iterators3) s := by
  unfold storageCall
  simp only [IfReturns, wp_bind, wp_get, wp_inStore]
  apply ifReturns_of_ok
  intro _ st hs
  cases c.emitContext with
  | none => exact ⟨hs, rfl⟩
  | some ctx =>
    simp only [wp_bind, wp_get, wp_inEvents]
    apply ifReturns_of_ok
    exact fun _ _ _ => ⟨hs, trivial⟩

theorem iterator3Next_ok (env : ScEnv) (unset : ScAddr → ScType) {it : ScIterator3}
    (hit : s.iterators3[i]? = some it) :
    IfReturns ((SystemAction.iterator3Next unset i).run env) (fun _ s' => ∃ r,
      scIterator3Next env unset it s.store = .ok (r, s'.store) ∧
        s'.iterators3 = s.iterators3.set i r.2) s := by
  unfold SystemAction.run
  rw [IfReturns, wp_bind, wp_get, hit]
  simp only [wp_bind, wp_inStore, wp_modify]
  apply ifReturns_of_ok
  exact fun r _ hr => ⟨r, hr, rfl⟩

/-- The next call, in a state where the iterator is in use. -/
theorem InUse.next {d : Dir} {anchor : ScAddr} {it : ScIterator3} (h : InUse thread i params ctx s)
    (hp : params.arcs = some (d, anchor)) (hit : s.iterators3[i]? = some it)
    (hgo : it.finished = false → it.CanGoOn s.store d anchor) (env : ScEnv)
    (henv : env.thread = thread) (unset : ScAddr → ScType) :
    Wp (scIterator3Next env unset it) (fun r st => r.2.params = params ∧ r.2.ctx = ctx ∧
      (∀ z, Live st.cell z ↔ Live s.store.cell z) ∧
      (r.1 = true → params.RightResult ctx st.cell d anchor r.2)) (fun _ => False) s.store := by
  obtain ⟨it', hit', hparams, hctx⟩ := h.iterator
  obtain rfl : it = it' := by
    rw [hit] at hit'
    exact Option.some.inj hit'
  have hown : ∀ k, Lockable env.thread (s.store.locks k) := by
    rw [henv]
    exact h.ok.store.own
  have hanchor := h.fixed anchor (mem_fixed_anchor hp)
  rw [← hparams] at hp
  have hleads := next_leads (E := fun _ => False) hown hp hanchor hgo (h.ok.iterator3 hit) unset
  have htracked : IfReturns (scIterator3Next env unset it) (fun r st => AfterNext env s.store.locks
      params ctx ({ s with iterators3 := s.iterators3.eraseIdx i } : ScSystem).held r st) s.store :=
    next_tracked hparams hctx unset (h.ok.iterator3 hit)
  apply wp_mono (wp_and hleads htracked) _ (fun _ he => he.1)
  intro r st ⟨⟨hlive, hright⟩, hafter⟩
  rw [hparams, hctx] at hright
  exact ⟨hafter.params_eq, hafter.ctx_eq, hlive, hright⟩

theorem inUse_step {d : Dir} {anchor : ScAddr} (hp : params.arcs = some (d, anchor))
    (s : ScSystem) (e : SystemEvent) (s' : ScSystem) (h : InUse thread i params ctx s)
    (hs : SafeStep thread i s e s') : InUse thread i params ctx s' := by
  have hok := systemOk_step s e s' h.ok hs.mutation.step
  obtain ⟨it, hit, hparams, hctx⟩ := h.iterator
  obtain ⟨env, action⟩ := e
  cases action with
  | iterator3Next unset j =>
    obtain rfl : j = i := hs.mutation.kind
    obtain ⟨r, hr, hiter⟩ := wp_ok (Q := fun _ s' => ∃ r, scIterator3Next env unset it s.store =
      .ok (r, s'.store) ∧ s'.iterators3 = s.iterators3.set j r.2) (iterator3Next_ok env unset hit)
      hs.mutation.step.step
    have hgo : it.finished = false → it.CanGoOn s.store d anchor :=
      hs.safe unset rfl it hit d anchor (by rw [hparams]; exact hp)
    obtain ⟨hpar, hctx', hlive, _⟩ := wp_ok (h.next hp hit hgo env hs.mutation.step.thread_eq unset) hr
    obtain ⟨hlt, _⟩ := List.getElem?_eq_some_iff.mp hit
    refine ⟨hok, ⟨r.2, ?_, hpar, hctx'⟩, fun x hx => (hlive x).mpr (h.fixed x hx)⟩
    rw [hiter, List.getElem?_set_self hlt]
  | call c =>
    obtain ⟨hrun, hiter⟩ := wp_ok (Q := fun _ s' => c.run env s.store = .ok ((), s'.store) ∧
      s'.iterators3 = s.iterators3) (storageCall_store env c s) hs.mutation.step.step
    refine ⟨hok, ⟨it, by rw [hiter]; exact hit, hparams, hctx⟩, ?_⟩
    intro x hx
    by_cases hfree : ∃ ctx order a, c = .elementFree ctx order a
    · obtain ⟨ctx', order, a, rfl⟩ := hfree
      rw [← hparams] at hx
      exact hs.mutation.spares ctx' order a rfl it hit x hx
    · have heff := step_effect h.ok.store.wf h.ok.store.cells (.call c) hs.mutation.step.allowed hrun
      apply heff.live_of_created h.ok.store.cells _ hs.mutation.kind x (h.fixed x hx)
      exact fun ctx order a hc => hfree ⟨ctx, order, a, hc⟩
  | _ => exact absurd hs.mutation.kind (by simp [SystemAction.Mutating])

/-- A new iterator is in use. -/
theorem inUse_new {s0 s1 : ScSystem} {e : SystemEvent} {it : ScIterator3} (h : SystemOk thread s0)
    (hs : SystemStep thread s0 e s1) (hnew : e.action.NewIterator)
    (hiter : s1.iterators3 = s0.iterators3 ++ [it]) :
    InUse thread s0.iterators3.length it.params it.ctx s1 := by
  have hok := systemOk_step s0 e s1 h hs
  have hstart : Tracked e.env s0.store.locks [] s0.held s0.store := h.tracked fun _ => le_refl _
  have hadd (x : StoreM (Option ScIterator3)) (hx : IfReturns x FixedLive s0.store) :
      IfReturns (addIterator3 x) (fun _ s1 => s1.iterators3 = s0.iterators3 ++ [it] →
        ∀ a ∈ it.params.fixed, Live s1.store.cell a) s0 := by
    unfold addIterator3
    simp only [IfReturns, wp_bind, wp_inStore, wp_modify]
    apply wp_mono hx _ (fun _ _ => trivial)
    intro r st hlive hr
    cases r with
    | none => simp at hr
    | some it' =>
      obtain rfl : it' = it := by simpa using hr
      exact hlive it' rfl
  refine ⟨hok, ⟨it, ?_, rfl, rfl⟩, ?_⟩
  · rw [hiter]
    simp
  · obtain ⟨env, action⟩ := e
    cases action with
    | iterator3New ctx type p1 p2 p3 =>
      exact wp_ok (hadd _ (scIterator3New_live hstart.holds ctx type p1 p2 p3)) hs.step hiter
    | iterator3Create ctx params => exact wp_ok (hadd _ (create_live hstart ctx params)) hs.step hiter
    | _ => exact absurd hnew (by simp [SystemAction.NewIterator])

/-- Take any state that a thread reaches, an iterator that it creates there to go along an arc list,
and any run of calls of `next`, creations and deletions that spare the fixed elements. If every call
of `next` is made where the iterator can be moved on, then every call returns, also one more, and its
result is a live arc of the anchor that matches. -/
theorem iteration_safe_under_mutation (evs0 : List SystemEvent) (s0 : ScSystem)
    (hr0 : Run (SystemStep thread) ScSystem.empty evs0 s0) (e : SystemEvent) (s1 : ScSystem)
    (hs : SystemStep thread s0 e s1) (hnew : e.action.NewIterator) (it0 : ScIterator3)
    (hiter : s1.iterators3 = s0.iterators3 ++ [it0]) (d : Dir) (anchor : ScAddr)
    (hp : it0.params.arcs = some (d, anchor)) (evs : List SystemEvent) (s : ScSystem)
    (hr : Run (SafeStep thread s0.iterators3.length) s1 evs s) :
    ∃ it, s.iterators3[s0.iterators3.length]? = some it ∧
      ((it.finished = false → it.CanGoOn s.store d anchor) → ∀ env : ScEnv, env.thread = thread →
        ∀ unset, ∃ r st, scIterator3Next env unset it s.store = .ok (r, st) ∧
          (r.1 = true → it0.params.RightResult it0.ctx st.cell d anchor r.2)) := by
  have hstart := inUse_new (systemRun_ok evs0 s0 hr0) hs hnew hiter
  have huse := run_invariant _ (inUse_step hp) evs s1 s hstart hr
  obtain ⟨it, hit, _, _⟩ := huse.iterator
  refine ⟨it, hit, ?_⟩
  intro hgo env henv unset
  obtain ⟨r, st, hrun, hq⟩ := wp_returns (huse.next hp hit hgo env henv unset)
  exact ⟨r, st, hrun, hq.2.2.2⟩

end

/-! Two arcs of one node, and an iterator over them. -/

def freeEvent (a : ScAddr) : SystemEvent :=
  ⟨exampleEnv, .call (.elementFree exampleContext tableOrder a)⟩

def nextEvent : SystemEvent := ⟨exampleEnv, .iterator3Next (fun _ => 0) 0⟩

def newIteratorEvent : SystemEvent :=
  ⟨exampleEnv, .iterator3Create exampleContext (.faa ⟨0, 1⟩ 0 0)⟩

def twoArcEvents : List SystemEvent :=
  [⟨exampleEnv, .call (.nodeNew exampleContext 0)⟩, ⟨exampleEnv, .call (.nodeNew exampleContext 0)⟩,
    ⟨exampleEnv, .call (.arcNew exampleContext scTypeArcCommon ⟨0, 1⟩ ⟨0, 33⟩)⟩,
    ⟨exampleEnv, .call (.arcNew exampleContext scTypeArcCommon ⟨0, 1⟩ ⟨0, 33⟩)⟩]

def twoArcs : ScSystem := systemAfter twoArcEvents ScSystem.empty

/-- The iterator has been created. -/
def twoArcsIterated : ScSystem := systemAfter [newIteratorEvent] twoArcs

/-- Whether a deletion is a step that spares the fixed elements of the iterator. -/
def sparing (thread i : ℕ) (s : ScSystem) (a : ScAddr) : Bool :=
  systemEvents thread [freeEvent a] s && s.iterators3[i]?.all fun it =>
    it.params.fixed.all fun x => decide (Live (systemAfter [freeEvent a] s).store.cell x)

theorem systemStep_of_events {thread : ℕ} {s : ScSystem} {e : SystemEvent}
    (h : systemEvents thread [e] s = true) : SystemStep thread s e (systemAfter [e] s) := by
  obtain ⟨s', hs, hend⟩ := systemRun_of_events [e] s h
  have hend' : systemAfter [e] s = s' := hend
  rw [hend']
  exact hs

theorem mutationStep_free {thread i : ℕ} {s : ScSystem} {a : ScAddr}
    (h : sparing thread i s a = true) :
    MutationStep thread i s (freeEvent a) (systemAfter [freeEvent a] s) := by
  unfold sparing at h
  rw [Bool.and_eq_true, Option.all_eq_true] at h
  refine ⟨systemStep_of_events h.1, trivial, ?_⟩
  intro _ _ _ _ it hit x hx
  have hall := List.all_eq_true.mp (h.2 it hit) x hx
  exact of_decide_eq_true hall

theorem mutationStep_next {thread : ℕ} {s : ScSystem}
    (h : systemEvents thread [nextEvent] s = true) :
    MutationStep thread 0 s nextEvent (systemAfter [nextEvent] s) := by
  refine ⟨systemStep_of_events h, rfl, ?_⟩
  intro _ _ _ he
  exact absurd he (by simp [nextEvent])

/-- The iterator stands on the first arc of the list, which has been deleted. -/
def firstArcDeleted : ScSystem :=
  systemAfter [freeEvent ⟨0, 97⟩] (systemAfter [nextEvent] twoArcsIterated)

/-- Then the second one has been deleted as well. -/
def bothArcsDeleted : ScSystem := systemAfter [freeEvent ⟨0, 65⟩] firstArcDeleted

theorem room_of_list {thread : ℕ} {s : ScSystem} {d : Dir} {anchor : ScAddr}
    (h : SystemOk thread s) (ha : Live s.store.cell anchor)
    (hroom : ∀ y ∈ arcList s.store.cell d anchor, HasRoom s.store y) (y : ScAddr)
    (hy : LiveArc s.store.cell y) (howner : ownerOf s.store.cell d y = anchor) :
    HasRoom s.store y :=
  hroom y (((h.store.cells.arcs.arcList ha).mem y).mpr ⟨hy, howner⟩)

deriving instance DecidableEq for ScContext, ScIterator3

instance (st : ScStorage) (y : ScAddr) : Decidable (HasRoom st y) :=
  inferInstanceAs (Decidable (_ < _))

/-- The iterator before its first call and after it. -/
def freshIterator : ScIterator3 := (Iterator3Params.faa ⟨0, 1⟩ 0 0).fresh exampleContext

def movedIterator : ScIterator3 :=
  { freshIterator with result0 := ⟨0, 1⟩, result1 := ⟨0, 97⟩, result2 := ⟨0, 33⟩ }

/-- The two arcs are made, the iterator is created and moved on, and the arcs are deleted. -/
theorem twoArcs_steps :
    Run (SystemStep 1) ScSystem.empty twoArcEvents twoArcs ∧
      SystemStep 1 twoArcs newIteratorEvent twoArcsIterated ∧
      MutationStep 1 0 twoArcsIterated nextEvent (systemAfter [nextEvent] twoArcsIterated) ∧
      MutationStep 1 0 (systemAfter [nextEvent] twoArcsIterated) (freeEvent ⟨0, 97⟩) firstArcDeleted ∧
      MutationStep 1 0 firstArcDeleted (freeEvent ⟨0, 65⟩) bothArcsDeleted :=
  ⟨systemRun_of_events twoArcEvents _ (by decide +kernel), systemStep_of_events (by decide +kernel),
    mutationStep_next (by decide +kernel), mutationStep_free (by decide +kernel),
    mutationStep_free (by decide +kernel)⟩

/-- There is one iterator, before its first call and behind the deleted arc. -/
theorem twoArcs_iterators :
    twoArcs.iterators3 = [] ∧ twoArcsIterated.iterators3 = [freshIterator] ∧
      firstArcDeleted.iterators3[0]? = some movedIterator ∧
      bothArcsDeleted.iterators3[0]? = some movedIterator := by
  decide +kernel

/-- The arc that the iterator stands on is deleted, and the next call goes on behind it. -/
theorem iteration_safe_firstArcDeleted :
    firstArcDeleted.iterators3[0]? = some movedIterator ∧
      ∃ r st, scIterator3Next exampleEnv (fun _ => 0) movedIterator firstArcDeleted.store =
        .ok (r, st) ∧ (r.1 = true →
          (Iterator3Params.faa ⟨0, 1⟩ 0 0).RightResult exampleContext st.cell .out ⟨0, 1⟩ r.2) := by
  obtain ⟨hrun0, hstep1, hstep2, hstep3, _⟩ := twoArcs_steps
  obtain ⟨hnone, hone, hmoved, _⟩ := twoArcs_iterators
  have hlen : twoArcs.iterators3.length = 0 := by rw [hnone, List.length_nil]
  have hok0 := systemRun_ok twoArcEvents _ hrun0
  have hok1 := systemOk_step _ _ _ hok0 hstep1
  have hok2 := systemOk_step _ _ _ hok1 hstep2.step
  have hok3 := systemOk_step _ _ _ hok2 hstep3.step
  have hfirst : SafeStep 1 0 twoArcsIterated nextEvent (systemAfter [nextEvent] twoArcsIterated) := by
    refine ⟨hstep2, ?_⟩
    intro unset _ it hit d anchor hp _
    obtain rfl : freshIterator = it := by
      have hget : twoArcsIterated.iterators3[0]? = some freshIterator := by rw [hone]; rfl
      exact Option.some.inj (hget.symm.trans hit)
    obtain ⟨rfl, rfl⟩ : Dir.out = d ∧ (⟨0, 1⟩ : ScAddr) = anchor := by
      simpa using Option.some.inj hp
    refine ⟨room_of_list hok1 (by decide +kernel) (by decide +kernel), ?_⟩
    exact fun hne => absurd rfl hne
  have hsecond : SafeStep 1 0 (systemAfter [nextEvent] twoArcsIterated) (freeEvent ⟨0, 97⟩)
      firstArcDeleted := by
    refine ⟨hstep3, ?_⟩
    intro _ he
    exact absurd he (by simp [freeEvent])
  have hrun : Run (SafeStep 1 twoArcs.iterators3.length) twoArcsIterated
      [nextEvent, freeEvent ⟨0, 97⟩] firstArcDeleted := by
    rw [hlen]
    exact ⟨_, hfirst, _, hsecond, rfl⟩
  obtain ⟨it, hit, hnext⟩ := iteration_safe_under_mutation twoArcEvents twoArcs hrun0
    newIteratorEvent twoArcsIterated hstep1 trivial freshIterator (by rw [hnone, hone]; rfl) .out ⟨0, 1⟩
    rfl [nextEvent, freeEvent ⟨0, 97⟩] firstArcDeleted hrun
  rw [hlen] at hit
  obtain rfl : movedIterator = it := Option.some.inj (hmoved.symm.trans hit)
  refine ⟨hmoved, hnext ?_ exampleEnv rfl (fun _ => 0)⟩
  intro _
  refine ⟨room_of_list hok3 (by decide +kernel) (by decide +kernel), ?_⟩
  exact fun _ => Leads.arc _ _ (by decide +kernel) (by decide +kernel)

def aborts {α : Type} (x : StoreM α) (st : ScStorage) : Bool :=
  match x st with
  | .error .abort => true
  | _ => false

theorem aborts_eq {α : Type} {x : StoreM α} {st : ScStorage} (h : aborts x st = true) :
    x st = .error .abort := by
  unfold aborts at h
  split at h
  · assumption
  · exact absurd h Bool.false_ne_true

/-- With the arc behind it deleted too, the link of the deleted arc leads to a free cell. -/
theorem next_aborts_behind_deleted_arcs :
    Run (SystemStep 1) ScSystem.empty twoArcEvents twoArcs ∧
      SystemStep 1 twoArcs newIteratorEvent twoArcsIterated ∧
      twoArcsIterated.iterators3 = twoArcs.iterators3 ++ [freshIterator] ∧
      freshIterator.params.arcs = some (.out, ⟨0, 1⟩) ∧
      Run (MutationStep 1 0) twoArcsIterated [nextEvent, freeEvent ⟨0, 97⟩, freeEvent ⟨0, 65⟩]
        bothArcsDeleted ∧
      bothArcsDeleted.iterators3[0]? = some movedIterator ∧
      scIterator3Next exampleEnv (fun _ => 0) movedIterator bothArcsDeleted.store =
        .error .abort := by
  obtain ⟨hrun0, hstep1, hstep2, hstep3, hstep4⟩ := twoArcs_steps
  obtain ⟨hnone, hone, _, hmoved⟩ := twoArcs_iterators
  refine ⟨hrun0, hstep1, by rw [hnone, hone]; rfl, rfl, ⟨_, hstep2, _, hstep3, _, hstep4, rfl⟩, hmoved, ?_⟩
  apply aborts_eq
  decide +kernel

end ScMachine.Store
