import ScMachine.IteratorJoin

/-! What is left of the references that an iterator takes when it has been released. -/
namespace ScMachine.Store
open ScMachine.StateExcept ScMachine.Runs ScMachine.DoublyLinked ScMachine.Enumeration

/-- Creation, one call of `next` for each entry of `unsets`, and release. For a null pointer there
is nothing to be done. -/
def session3 (env : ScEnv) (create : StoreM (Option ScIterator3)) (unsets : List (ScAddr → ScType)) :
    StoreM Unit := do
  match ← create with
  | none => return ()
  | some it =>
    let (_, it) ← callEach (nextTriple env) unsets it
    scIterator3Free env it

def session5 (env : ScEnv) (create : StoreM (Option ScIterator5)) (unsets : List (ScAddr → ScType)) :
    StoreM Unit := do
  match ← create with
  | none => return ()
  | some it =>
    let (_, it) ← callEach (nextFive env) unsets it
    scIterator5Free env it

/-- All counts are the same, and an element that is deleted afterwards gives up its cell if it had
no other references before. -/
structure Conserved (thread : ℕ) (st st' : ScStorage) : Prop where
  refCount : st'.refCount = st.refCount
  reclaimed : ∀ env ctx order a r st'', env.thread = thread →
    scStorageElementFree env ctx order a st' = .ok (r, st'') →
    ∀ x, Live st'.cell x → ¬ Live st''.cell x → st.refCount x = 1 → st''.cell x = ScElement.zero

/-- The condition is enough for every session that returns; with enough room for references all
sessions return, and it is necessary. -/
structure ConservesIff (thread : ℕ) (session : List (ScAddr → ScType) → StoreM Unit)
    (st : ScStorage) (room condition : Prop) : Prop where
  conserves : condition → ∀ unsets st', session unsets st = .ok ((), st') → Conserved thread st st'
  iff : room →
    ((∀ unsets, ∃ st', session unsets st = .ok ((), st') ∧ Conserved thread st st') ↔ condition)

/-- The arcs that a kind goes along; those with a fixed arc have no list. -/
def Iterator3Params.walked (c : Cells) (params : Iterator3Params) : List ScAddr :=
  match params.arcs with
  | some (d, anchor) => arcList c d anchor
  | none => []

/-- If the fixed parameters are elements, every arc of the list matches; otherwise the first of
them is none. -/
def Iterator3Params.Conserving (st : ScStorage) (ctx : ScContext) (params : Iterator3Params) : Prop :=
  params.Readable st ctx →
    ((∀ a ∈ params.fixed, Live st.cell a) ∧
      ∀ x ∈ params.walked st.cell, params.Matches st.cell ctx x) ∨
    ∃ a ∈ params.fixed.head?, ¬ Live st.cell a

/-- Besides, every arc that ends in a first arc matches, if an inner iterator can be created. -/
def Iterator5Params.Conserving (st : ScStorage) (ctx : ScContext) (params : Iterator5Params) : Prop :=
  params.main.Conserving st ctx ∧
    (params.main.Creatable st.cell ctx → ∀ x ∈ params.main.walked st.cell,
      (params.attr.params x).Creatable st.cell ctx →
        ∀ y ∈ arcList st.cell .inp x, (params.attr.params x).Matches st.cell ctx y)

instance (st : ScStorage) (a : ScAddr) : Decidable (Loaded st a) :=
  decidable_of_iff ((st.segmentOf a).isSome = true ∧ a.offset.toNat < 65535)
    (and_congr_left fun _ => Option.isSome_iff_exists)

instance (st : ScStorage) (ctx : ScContext) (params : Iterator3Params) :
    Decidable (params.Readable st ctx) :=
  inferInstanceAs (Decidable (∀ a ∈ params.fixed, Loaded st a ∧ CanRead ctx st.cell a))

/-- The references that are never given back: of the arcs that were passed over, or of the
parameters before one that is no element. -/
def Iterator3Params.leaked (st : ScStorage) (ctx : ScContext) (params : Iterator3Params) :
    List ScAddr :=
  if params.Creatable st.cell ctx then params.skipped st.cell ctx (params.walked st.cell)
  else if params.Readable st ctx then takenRefs st.cell params.fixed else []

def Iterator5Params.leaked (st : ScStorage) (ctx : ScContext) (params : Iterator5Params) :
    List ScAddr :=
  params.main.leaked st ctx ++
    if params.main.Creatable st.cell ctx then
      params.innerSkipped st.cell ctx (params.main.walked st.cell)
    else []

/-- After `k` calls and the release some of `leaked` is left, and all of it after `n` of them. -/
def Leaving (env : ScEnv) (st : ScStorage) (leaked : List ScAddr) (n k : ℕ) (s : ScStorage) : Prop :=
  ∃ l, Iterating env st.locks [] st.cell st.refCount l s ∧ (∀ y, l.count y ≤ leaked.count y) ∧
    (n ≤ k → ∀ y, l.count y = leaked.count y)

section
variable {env : ScEnv} {L : SectionKey → LockWord} {c : Cells} {base : ScAddr → ℤ}
  {st s : ScStorage} {ctx : ScContext} {E : ScStop → Prop} {d : Dir} {anchor : ScAddr}

theorem eq_nil_of_count {l : List ScAddr} (h : ∀ y, l.count y = 0) : l = [] :=
  List.eq_nil_iff_forall_not_mem.mpr fun y => List.count_eq_zero.mp (h y)

theorem conserved_of_iterating {thread : ℕ} (henv : env.thread = thread)
    (h : Iterating env L [] st.cell st.refCount [] s) : Conserved thread st s := by
  subst henv
  have href : s.refCount = st.refCount := by
    funext y
    simpa using h.refCount y
  refine ⟨href, ?_⟩
  intro env' ctx order a r st'' henv' hrun x hx hdead hone
  have hholds : Holds env'.thread L [] s := by
    rw [henv']
    exact h.holds
  obtain ⟨_, hout⟩ := wp_ok (elementFree_wp hholds h.cells ctx order a) hrun
  cases hout with
  | dead _ _ hu =>
    rw [cell_of_unlocked hu] at hdead
    exact absurd hx hdead
  | denied _ _ _ hu =>
    rw [cell_of_unlocked hu] at hdead
    exact absurd hx hdead
  | freed _ hl _ he =>
    have hmem : x ∈ erasedList order s.cell a := by
      by_contra hnot
      exact hdead ((he.cells.same x hnot).live.mpr hx)
    apply he.cells.zero x hmem
    rw [href]
    exact hone

/-- The condition says that nothing is leaked. -/
theorem conservesIff_of_leaving {session : List (ScAddr → ScType) → StoreM Unit}
    {room condition : Prop} {leaked : List ScAddr} {n : ℕ}
    (h : ∀ unsets, Wp (session unsets) (fun _ s => Leaving env st leaked n unsets.length s)
      (fun _ => ¬ room) st) (hcond : condition ↔ leaked = []) :
    ConservesIff env.thread session st room condition := by
  have hkept : condition → ∀ unsets s, Leaving env st leaked n unsets s →
      Conserved env.thread st s := by
    intro hc k s ⟨l, hit, hle, _⟩
    rw [hcond.mp hc] at hle
    have hl : l = [] := by
      apply eq_nil_of_count
      intro y
      have hy := hle y
      simpa using hy
    rw [hl] at hit
    exact conserved_of_iterating rfl hit
  constructor
  · intro hc unsets st' hrun
    have hleave : Leaving env st leaked n unsets.length st' :=
      wp_ok (Q := fun _ s => Leaving env st leaked n unsets.length s) (h unsets) hrun
    exact hkept hc _ st' hleave
  · intro hroom
    have hreturns (unsets : List (ScAddr → ScType)) : ∃ st', session unsets st = .ok ((), st') ∧
        Leaving env st leaked n unsets.length st' := by
      have hwp := wp_mono (h unsets) (fun _ _ hq => hq) (fun _ hn => hn hroom)
      obtain ⟨_, st', hrun, hleave⟩ := wp_returns hwp
      exact ⟨st', hrun, hleave⟩
    constructor
    · intro hall
      -- enough calls to come to the end
      obtain ⟨st', hrun, hkeep⟩ := hall (List.replicate n fun _ => 0)
      obtain ⟨st2, hrun2, l, hit, _, hfull⟩ := hreturns (List.replicate n fun _ => 0)
      obtain rfl : st' = st2 := by
        rw [hrun] at hrun2
        simpa using hrun2
      apply hcond.mpr
      apply eq_nil_of_count
      intro y
      have hcount := hit.refCount y
      rw [hkeep.refCount, hfull (by simp) y] at hcount
      omega
    · intro hc unsets
      obtain ⟨st', hrun, hleave⟩ := hreturns unsets
      exact ⟨st', hrun, hkept hc _ st' hleave⟩

theorem walked_of_some {params : Iterator3Params} (hp : params.arcs = some (d, anchor)) :
    params.walked c = arcList c d anchor := by
  unfold Iterator3Params.walked
  rw [hp]

theorem walked_of_none {params : Iterator3Params} (hp : params.arcs = none) :
    params.walked c = [] := by
  unfold Iterator3Params.walked
  rw [hp]

theorem skipped_append (params : Iterator3Params) (l l' : List ScAddr) :
    params.skipped c ctx (l ++ l') = params.skipped c ctx l ++ params.skipped c ctx l' :=
  List.filter_append ..

/-! Iterators over three elements. -/

/-- An iterator with at most `n` arcs before it. -/
def SessionAt (env : ScEnv) (L : SectionKey → LockWord) (c : Cells) (base : ScAddr → ℤ)
    (ctx : ScContext) (params : Iterator3Params) (n : ℕ) (it : ScIterator3) (s : ScStorage) : Prop :=
  ∃ done rest, Standing c ctx params it done rest ∧ params.walked c = done ++ rest ∧
    rest.length ≤ n ∧ Iterating env L [] c base (it.held ++ params.skipped c ctx done) s

theorem sessionAt_fresh (params : Iterator3Params)
    (h : Iterating env L [] c base (params.fixed ++ []) s) :
    SessionAt env L c base ctx params (params.walked c).length (params.fresh ctx) s := by
  rw [← held_fresh params ctx] at h
  refine ⟨[], params.walked c, ?_, rfl, le_rfl, h⟩
  cases hp : params.arcs with
  | some da =>
    obtain ⟨d, anchor⟩ := da
    rw [walked_of_some hp]
    exact standing_fresh hp
  | none =>
    rw [walked_of_none hp]
    refine ⟨rfl, rfl, ?_, fun _ => rfl, fun _ => rfl⟩
    intro d anchor hsome
    rw [hp] at hsome
    simp at hsome

theorem sessionAt_next {params : Iterator3Params} (hset : Undisturbed env L c base)
    (harcs : ArcsOk c) (hlive : ∀ a ∈ params.fixed, Live c a)
    (hE : ∀ x, 4294967295 ≤ base x+3 → ∀ e, E e) (unset : ScAddr → ScType) (n : ℕ)
    (it : ScIterator3) (s : ScStorage) (h : SessionAt env L c base ctx params n it s) :
    Wp (nextTriple env unset it) (fun r s' => SessionAt env L c base ctx params (n-1) r.2 s') E s := by
  obtain ⟨done, rest, hst, hwalk, hn, hit⟩ := h
  unfold nextTriple
  rw [wp_bind]
  cases hp : params.arcs with
  | some da =>
    obtain ⟨d, anchor⟩ := da
    have hlimit : ∀ x ∈ rest, 4294967295 ≤ base x+(params.fixed ++ []).count x+1 → ∀ e, E e := by
      intro x _ hlarge
      apply hE x
      have htwo := count_fixed_le_two hp x
      rw [List.append_nil] at hlarge
      omega
    rw [← List.append_nil (params.skipped c ctx done)] at hit
    apply wp_mono (next_wp hset harcs hp (hlive anchor (mem_fixed_anchor hp)) hst hlimit hit unset) _
      (fun _ he => he)
    intro r s' hadv
    rw [wp_pure]
    refine ⟨_, _, hadv.standing, ?_, ?_, ?_⟩
    · rw [List.append_assoc, visited_append_behind]
      exact hwalk
    · cases hfind : rest.find? (params.matching c ctx) with
      | none =>
        rw [(visited_of_none hfind).2]
        exact Nat.zero_le _
      | some x =>
        have hlen := length_behind_lt hfind
        omega
    · have hcounts := hadv.counts
      rwa [List.append_nil] at hcounts
  | none =>
    rw [walked_of_none hp] at hwalk
    obtain ⟨rfl, rfl⟩ := List.append_eq_nil_iff.mp hwalk.symm
    apply wp_mono (next_edge_wp hset hp hlive hst hit unset) _ (fun _ he => he)
    intro r s' ⟨hst', hit'⟩
    rw [wp_pure]
    exact ⟨[], [], hst', walked_of_none hp, Nat.zero_le _, hit'⟩

/-- The release gives back what the iterator holds, and nothing that it passed over. -/
theorem sessionAt_free {params : Iterator3Params} (hset : Undisturbed env L c base)
    (harcs : ArcsOk c) (hlive : ∀ a ∈ params.fixed, Live c a) {n : ℕ} {it : ScIterator3}
    (h : SessionAt env L c base ctx params n it s) :
    Wp (scIterator3Free env it)
      (fun _ s' => ∃ done rest, params.walked c = done ++ rest ∧ rest.length ≤ n ∧
        Iterating env L [] c base (params.skipped c ctx done) s') E s := by
  obtain ⟨done, rest, hst, hwalk, hn, hit⟩ := h
  have hheld : ∀ a ∈ it.held, Live c a := by
    cases hp : params.arcs with
    | some da =>
      obtain ⟨d, anchor⟩ := da
      have hchain := harcs.arcList (hlive anchor (mem_fixed_anchor hp)) (d := d)
      rw [hst.list d anchor hp] at hchain
      exact held_live hchain hst hlive
    | none =>
      rw [walked_of_none hp] at hwalk
      obtain ⟨rfl, rfl⟩ := List.append_eq_nil_iff.mp hwalk.symm
      intro a ha
      unfold ScIterator3.held ScIterator3.currentArc at ha
      rw [if_neg (fun hcur => hcur.2 (hst.current hcur.1)), hst.params_eq] at ha
      apply hlive a
      simpa using ha
  apply wp_mono (free_wp hset hheld hit) _ (fun _ he => he)
  intro _ s' hs'
  exact ⟨done, rest, hwalk, hn, hs'⟩

theorem session3_leaving (hok : StoreOk env.thread st) (ctx : ScContext)
    (params : Iterator3Params) (unsets : List (ScAddr → ScType)) :
    Wp (session3 env (params.create env ctx) unsets)
      (fun _ s => Leaving env st (params.leaked st ctx) (params.walked st.cell).length
        unsets.length s)
      (fun _ => ¬ (RefRoom st 3 ∧ ∀ a ∈ params.fixed, a.offset.toNat < 65535)) st := by
  have hset := undisturbed_of_storeOk hok
  set room := RefRoom st 3 ∧ ∀ a ∈ params.fixed, a.offset.toNat < 65535
  have hoffset : ∀ a ∈ params.fixed, 65535 ≤ a.offset.toNat → ∀ _ : ScStop, ¬ room := by
    intro a ha hoff _ hroom
    have hlt := hroom.2 a ha
    omega
  have hlarge : ∀ x, 4294967295 ≤ st.refCount x+3 → ∀ _ : ScStop, ¬ room := by
    intro x hlimit _ hroom
    have hlt := hroom.1 x
    omega
  have hlimit : ∀ a ∈ params.fixed, 4294967295 ≤ st.refCount a+(params.fixed ++ []).count a →
      ∀ _ : ScStop, ¬ room := by
    intro a _ hlimit
    apply hlarge a
    have hle := count_fixed_le params a
    rw [List.append_nil] at hlimit
    omega
  unfold session3 Iterator3Params.leaked
  rw [wp_bind]
  apply wp_mono (create_wp hset params hoffset hlimit (iterating_start hok)) _ (fun _ he => he)
  intro r s1 ⟨hr, h1⟩
  subst hr
  by_cases hc : params.Creatable st.cell ctx
  · have hread : params.Readable st ctx := by
      intro a ha
      exact ⟨hok.cells.loaded hok.wf.2 (type_of_live (hc a ha).1), (hc a ha).2⟩
    have hlive : ∀ a ∈ params.fixed, Live st.cell a := fun a ha => (hc a ha).1
    rw [if_pos hread, takenRefs_live hlive] at h1
    simp only [if_pos hc, wp_bind]
    have hstart : SessionAt env st.locks st.cell st.refCount ctx params
        (params.walked st.cell).length (params.fresh ctx) s1 := sessionAt_fresh params h1
    have hcalls := callEach_countdown (sessionAt_next hset hok.cells.arcs hlive hlarge) unsets _ _ _
      hstart
    apply wp_mono hcalls _ (fun _ he => he)
    intro r s2 h2
    apply wp_mono (sessionAt_free hset hok.cells.arcs hlive h2) _ (fun _ he => he)
    intro _ s3 ⟨done, rest, hwalk, hn, h3⟩
    refine ⟨_, h3, ?_, ?_⟩
    · intro y
      rw [hwalk, skipped_append, List.count_append]
      exact Nat.le_add_right _ _
    · intro hcalled y
      have hrest : rest = [] := List.eq_nil_of_length_eq_zero (by omega)
      rw [hwalk, hrest, List.append_nil]
  · simp only [if_neg hc, wp_pure]
    refine ⟨_, h1, ?_, ?_⟩
    · intro y
      by_cases hread : params.Readable st ctx
      · rw [if_pos hread, if_pos hread, List.append_nil]
      · rw [if_neg hread, if_neg hread, List.append_nil]
    · intro _ y
      by_cases hread : params.Readable st ctx
      · rw [if_pos hread, if_pos hread, List.append_nil]
      · rw [if_neg hread, if_neg hread, List.append_nil]

theorem skipped_eq_nil_iff (params : Iterator3Params) (l : List ScAddr) :
    params.skipped c ctx l = [] ↔ ∀ x ∈ l, params.Matches c ctx x := by
  unfold Iterator3Params.skipped Iterator3Params.matching
  rw [List.filter_eq_nil_iff]
  simp

theorem fixed_ne_nil (params : Iterator3Params) : params.fixed ≠ [] := by
  cases params <;> simp [Iterator3Params.fixed]

theorem takenRefs_eq_nil_iff {a : ScAddr} {l : List ScAddr} :
    takenRefs c (a :: l) = [] ↔ ¬ Live c a := by
  unfold takenRefs Live
  rw [List.takeWhile_cons]
  split_ifs with ha <;> simp [ha]

theorem conserving_iff (hok : StoreOk env.thread st) (params : Iterator3Params) :
    params.Conserving st ctx ↔ params.leaked st ctx = [] := by
  obtain ⟨a, l, hfixed⟩ := List.exists_cons_of_ne_nil (fixed_ne_nil params)
  have hhead : (∃ b ∈ params.fixed.head?, ¬ Live st.cell b) ↔ ¬ Live st.cell a := by
    rw [hfixed]
    simp
  have hmem : a ∈ params.fixed := by
    rw [hfixed]
    exact List.mem_cons_self
  unfold Iterator3Params.Conserving Iterator3Params.leaked
  rw [hhead]
  by_cases hc : params.Creatable st.cell ctx
  · have hread : params.Readable st ctx := by
      intro a ha
      exact ⟨hok.cells.loaded hok.wf.2 (type_of_live (hc a ha).1), (hc a ha).2⟩
    have hlive : ∀ a ∈ params.fixed, Live st.cell a := fun a ha => (hc a ha).1
    rw [if_pos hc, skipped_eq_nil_iff]
    constructor
    · intro h
      rcases h hread with h | hdead
      · exact h.2
      · exact absurd (hlive a hmem) hdead
    · intro h _
      exact Or.inl ⟨hlive, h⟩
  · rw [if_neg hc]
    by_cases hread : params.Readable st ctx
    · -- some parameter is no element
      have hnot : ¬ ∀ a ∈ params.fixed, Live st.cell a := by
        intro hlive
        apply hc
        intro b hb
        exact ⟨hlive b hb, (hread b hb).2⟩
      rw [if_pos hread, hfixed, takenRefs_eq_nil_iff, ← hfixed]
      constructor
      · intro h
        rcases h hread with h | hdead
        · exact absurd h.1 hnot
        · exact hdead
      · intro hdead _
        exact Or.inr hdead
    · rw [if_neg hread]
      simp only [hread, false_implies]

/-! Iterators over five elements. -/

theorem innerSkipped_append (params : Iterator5Params) (l l' : List ScAddr) :
    params.innerSkipped c ctx (l ++ l') =
      params.innerSkipped c ctx l ++ params.innerSkipped c ctx l' := by
  unfold Iterator5Params.innerSkipped
  rw [List.filter_append, List.flatMap_append]

/-- The release of both iterators. -/
theorem JoinSetting.free {params : Iterator5Params} {it : ScIterator5}
    (hset : JoinSetting env L c base params d anchor E) (hlive : ∀ a ∈ params.main.fixed, Live c a)
    {n : ℕ} {l : List FiveAddrs} (h : JoinAt env L c base ctx params n l it s) :
    Wp (scIterator5Free env it)
      (fun _ s' => ∃ left, Iterating env L [] c base left s' ∧
        (∀ z, left.count z ≤ (params.main.skipped c ctx (params.main.walked c) ++
          params.innerSkipped c ctx (params.main.walked c)).count z) ∧
        (n = 0 → ∀ z, left.count z = (params.main.skipped c ctx (params.main.walked c) ++
          params.innerSkipped c ctx (params.main.walked c)).count z)) E s := by
  have hmainLive {main : ScIterator3} {done rest : List ScAddr}
      (hst : Standing c ctx params.main main done rest) : ∀ a ∈ main.held, Live c a := by
    have hchain := hset.arcs.arcList hset.anchorLive (d := d)
    rw [hst.list d anchor hset.list] at hchain
    exact held_live hchain hst hlive
  unfold scIterator5Free
  rw [wp_bind]
  cases h with
  | outer _ _ done rest _ _ _ hattr hst hn hit =>
    have hwalk : params.main.walked c = done ++ rest :=
      (walked_of_some hset.list).trans (hst.list d anchor hset.list)
    rw [hattr]
    simp only [freeAttr, wp_pure]
    apply wp_mono (free_wp hset.undisturbed (hmainLive hst) hit) _ (fun _ he => he)
    intro _ s' hs'
    refine ⟨_, hs', ?_, ?_⟩
    · intro z
      rw [hwalk, skipped_append, innerSkipped_append]
      simp only [List.count_append]
      omega
    · intro hzero z
      have hrest : rest = [] := List.eq_nil_of_length_eq_zero (by omega)
      rw [hwalk, hrest, List.append_nil]
  | inner _ _ done rest attr x attrDone attrRest before _ _ _ hattr hst _ _ _ hc hast hn hbefore
      hit =>
    have hwalk : params.main.walked c = done ++ rest :=
      (walked_of_some hset.list).trans (hst.list d anchor hset.list)
    have hattrLive := attr_held_live hset.arcs hc hast
    rw [hattr]
    simp only [freeAttr]
    apply wp_mono (free_wp hset.undisturbed hattrLive hit) _ (fun _ he => he)
    intro _ s1 h1
    have hswap : ∀ z, (it.main.held ++ ((params.attr.params x).skipped c ctx attrDone ++
        (params.main.skipped c ctx done ++ before))).count z =
        ((params.attr.params x).skipped c ctx attrDone ++
          (it.main.held ++ (params.main.skipped c ctx done ++ before))).count z := by
      intro z
      simp only [List.count_append]
      omega
    apply wp_mono (free_wp hset.undisturbed (hmainLive hst) (h1.congr hswap)) _ (fun _ he => he)
    intro _ s2 h2
    refine ⟨_, h2, ?_, ?_⟩
    · intro z
      have hblock : params.blockSkipped c ctx x =
          (params.attr.params x).skipped c ctx attrDone ++
            (params.attr.params x).skipped c ctx attrRest := by
        unfold Iterator5Params.blockSkipped
        rw [if_pos hc, hast.list .inp x (attr_arcs params.attr x), skipped_append]
      have hb := hbefore z
      rw [hblock] at hb
      rw [hwalk, skipped_append, innerSkipped_append]
      simp only [List.count_append] at hb ⊢
      omega
    · intro hzero
      -- with an inner iterator open there is still a call to come
      omega

theorem session5_leaving (hok : StoreOk env.thread st) (ctx : ScContext)
    (params : Iterator5Params) : ∃ n, ∀ unsets,
    Wp (session5 env (params.create env ctx) unsets)
      (fun _ s => Leaving env st (params.leaked st ctx) n unsets.length s)
      (fun _ => ¬ (RefRoom st 9 ∧ (∀ a ∈ params.main.fixed, a.offset.toNat < 65535) ∧
        ∀ p5, params.attr.beg = .addr p5 → p5.offset.toNat < 65535)) st := by
  obtain ⟨d, anchor, hp⟩ := main_arcs params
  have hund := undisturbed_of_storeOk hok
  set room : Prop := RefRoom st 9 ∧ (∀ a ∈ params.main.fixed, a.offset.toNat < 65535) ∧
    ∀ p5, params.attr.beg = .addr p5 → p5.offset.toNat < 65535
  have hoffset : ∀ a ∈ params.main.fixed, 65535 ≤ a.offset.toNat → ∀ _ : ScStop, ¬ room := by
    intro a ha hoff _ hroom
    have hlt := hroom.2.1 a ha
    omega
  have hlimit : ∀ a ∈ params.main.fixed,
      4294967295 ≤ st.refCount a+(params.main.fixed ++ []).count a → ∀ _ : ScStop, ¬ room := by
    intro a _ hlimit _ hroom
    have hlt := hroom.1 a
    have hle := count_fixed_le params.main a
    rw [List.append_nil] at hlimit
    omega
  refine ⟨(arcList st.cell d anchor).length+
    (params.joined st.cell ctx (arcList st.cell d anchor)).length, fun unsets => ?_⟩
  unfold session5 Iterator5Params.create Iterator5Params.leaked Iterator3Params.leaked
  simp only [wp_bind]
  apply wp_mono (create_wp hund params.main hoffset hlimit (iterating_start hok)) _ (fun _ he => he)
  intro r s1 ⟨hr, h1⟩
  subst hr
  by_cases hc : params.main.Creatable st.cell ctx
  · have hlive : ∀ a ∈ params.main.fixed, Live st.cell a := fun a ha => (hc a ha).1
    have hread : params.main.Readable st ctx := by
      intro a ha
      exact ⟨hok.cells.loaded hok.wf.2 (type_of_live (hc a ha).1), (hc a ha).2⟩
    rw [if_pos hread, takenRefs_live hlive] at h1
    simp only [if_pos hc, wp_bind, wp_pure]
    have hset : JoinSetting env st.locks st.cell st.refCount params d anchor (fun _ => ¬ room) := by
      refine ⟨hund, hok.cells.arcs, hp, (hc anchor (mem_fixed_anchor hp)).1, ?_, ?_⟩
      · intro x hlarge _ hroom
        have hlt := hroom.1 x
        omega
      · intro p5 hbeg hoff _ hroom
        have hlt := hroom.2.2 p5 hbeg
        omega
    have hnext (unset : ScAddr → ScType) (n : ℕ) (it : ScIterator5) (s : ScStorage)
        (h : ∃ l, JoinAt env st.locks st.cell st.refCount ctx params n l it s) :
        Wp (nextFive env unset it) (fun r s' => ∃ l,
          JoinAt env st.locks st.cell st.refCount ctx params (n-1) l r.2 s') (fun _ => ¬ room) s := by
      obtain ⟨l, h⟩ := h
      apply wp_mono (hset.nextFive unset h) _ (fun _ he => he)
      intro r s' ⟨_, h'⟩
      exact ⟨_, h'⟩
    apply wp_mono (callEach_countdown hnext unsets _ _ _ ⟨_, joinAt_start hp h1⟩) _ (fun _ he => he)
    intro r s2 ⟨l, h2⟩
    apply wp_mono (hset.free hlive h2) _ (fun _ he => he)
    intro _ s3 ⟨left, h3, hle, hall⟩
    refine ⟨left, h3, hle, ?_⟩
    intro hcalled
    exact hall (by omega)
  · simp only [if_neg hc, wp_pure, List.append_nil] at h1 ⊢
    refine ⟨_, h1, ?_, ?_⟩
    · intro y
      by_cases hread : params.main.Readable st ctx
      · rw [if_pos hread, if_pos hread]
      · rw [if_neg hread, if_neg hread]
    · intro _ y
      by_cases hread : params.main.Readable st ctx
      · rw [if_pos hread, if_pos hread]
      · rw [if_neg hread, if_neg hread]

theorem conserving_iff_five (hok : StoreOk env.thread st) (params : Iterator5Params) :
    params.Conserving st ctx ↔ params.leaked st ctx = [] := by
  unfold Iterator5Params.Conserving Iterator5Params.leaked
  rw [List.append_eq_nil_iff, conserving_iff hok]
  apply and_congr_right
  intro hmain
  by_cases hc : params.main.Creatable st.cell ctx
  · unfold Iterator3Params.leaked at hmain
    rw [if_pos hc, skipped_eq_nil_iff] at hmain
    simp only [hc, true_implies, if_true]
    unfold Iterator5Params.innerSkipped
    rw [List.flatMap_eq_nil_iff]
    -- all first arcs match
    have hfilter : (params.main.walked st.cell).filter (params.main.matching st.cell ctx) =
        params.main.walked st.cell := by
      apply List.filter_eq_self.mpr
      intro x hx
      exact decide_eq_true (hmain x hx)
    rw [hfilter]
    apply forall₂_congr
    intro x _
    unfold Iterator5Params.blockSkipped
    split_ifs with hin
    · simp only [hin, true_implies]
      exact (skipped_eq_nil_iff _ _).symm
    · simp only [hin, false_implies]
  · simp only [hc, false_implies, if_false]

end

/-- Iteration conserves the counts exactly if no arc is passed over and no parameter is taken for
an iterator that is not created. -/
theorem iteration_conserves_iff (thread : ℕ) (evs : List StoreEvent) (st : ScStorage)
    (hr : Run (OwnStep thread) ScStorage.empty evs st) (env : ScEnv) (henv : env.thread = thread)
    (ctx : ScContext) :
    (∀ params : Iterator3Params, ConservesIff thread (session3 env (params.create env ctx)) st
      (RefRoom st 3 ∧ ∀ a ∈ params.fixed, a.offset.toNat < 65535) (params.Conserving st ctx)) ∧
    ∀ params : Iterator5Params, ConservesIff thread (session5 env (params.create env ctx)) st
      (RefRoom st 9 ∧ (∀ a ∈ params.main.fixed, a.offset.toNat < 65535) ∧
        ∀ p5, params.attr.beg = .addr p5 → p5.offset.toNat < 65535) (params.Conserving st ctx) := by
  subst henv
  have hok := ownRun_storeOk evs st hr
  constructor
  · intro params
    exact conservesIff_of_leaving (session3_leaving hok ctx params) (conserving_iff hok params)
  · intro params
    obtain ⟨n, hleaving⟩ := session5_leaving hok ctx params
    exact conservesIff_of_leaving hleaving (conserving_iff_five hok params)

/-- An iterator over all arcs of a node: nothing is passed over. -/
theorem iteration_conserves_iff_storeWithArc :
    (Iterator3Params.faa ⟨0, 1⟩ 0 0).Conserving storeWithArc exampleContext ∧
      ConservesIff 1 (session3 exampleEnv ((Iterator3Params.faa ⟨0, 1⟩ 0 0).create exampleEnv
        exampleContext)) storeWithArc
        (RefRoom storeWithArc 3 ∧ ∀ a ∈ (Iterator3Params.faa ⟨0, 1⟩ 0 0).fixed,
          a.offset.toNat < 65535)
        ((Iterator3Params.faa ⟨0, 1⟩ 0 0).Conserving storeWithArc exampleContext) := by
  constructor
  · intro _
    left
    constructor
    · unfold Live
      decide +kernel
    · decide +kernel
  · exact (iteration_conserves_iff 1 arcEvents storeWithArc storeWithArc_run exampleEnv rfl
      exampleContext).1 (.faa ⟨0, 1⟩ 0 0)

/-- The session of an iterator that asks for arcs of another type. -/
def passingSession : StoreM Unit :=
  session3 exampleEnv (scIterator3FAANew exampleEnv exampleContext ⟨0, 1⟩ scTypeNode 0) [fun _ => 0]

def storeAfterPassing : ScStorage := stateAfter passingSession storeWithArc

def storeAfterDeletion : ScStorage :=
  stateAfter ((StorageCall.elementFree exampleContext tableOrder ⟨0, 65⟩).run exampleEnv)
    storeAfterPassing

/-- The arc that was passed over keeps a reference, and when it is deleted its cell is not given
back. -/
theorem passed_over_arc_leaks :
    Run (OwnStep 1) ScStorage.empty arcEvents storeWithArc ∧
      passingSession storeWithArc = .ok ((), storeAfterPassing) ∧
      storeWithArc.refCount ⟨0, 65⟩ = 1 ∧ storeAfterPassing.refCount ⟨0, 65⟩ = 2 ∧
      (StorageCall.elementFree exampleContext tableOrder ⟨0, 65⟩).run exampleEnv storeAfterPassing =
        .ok ((), storeAfterDeletion) ∧
      ¬ Live storeAfterDeletion.cell ⟨0, 65⟩ ∧
      storeAfterDeletion.cell ⟨0, 65⟩ ≠ ScElement.zero := by
  refine ⟨storeWithArc_run, stateAfter_eq ?_, ?_, ?_, stateAfter_eq ?_, ?_, ?_⟩
  · decide +kernel
  · decide +kernel
  · decide +kernel
  · decide +kernel
  · unfold Live
    decide +kernel
  · intro hzero
    have htype : (storeAfterDeletion.cell ⟨0, 65⟩).type ≠ ScElement.zero.type := by decide +kernel
    exact htype (congrArg ScElement.type hzero)

end ScMachine.Store
