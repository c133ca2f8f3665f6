import ScMachine.ScTemplateSearch

/-! The order of a search: every triple is taken up once, whatever the library leaves open. -/
namespace ScMachine.Template
open ScMachine.Store

section
variable {lib : LibraryOrder} {triples : List (Triple ScTemplateArg)} {s : OrderState} {idx : ℕ}

/-- A packed entry belongs to a place of a triple. -/
theorem replDepend_place {name : String} (h : idx ∈ replDepend triples name) :
    ∃ t, triples[idx/4]? = some t ∧ ∃ value ∈ t.toList, value.kind ≠ .addr ∧
      value.hasReplacementName = true ∧ value.replacementName = name := by
  unfold replDepend at h
  obtain ⟨l, hl, hidx⟩ := List.mem_flatten.mp h
  obtain ⟨⟨t, i⟩, ht, rfl⟩ := List.mem_map.mp hl
  obtain ⟨⟨value, pos⟩, hv, rfl⟩ := List.mem_map.mp hidx
  obtain ⟨hmem, hcond⟩ := List.mem_filter.mp hv
  have hi : triples[i]? = some t := by simpa using List.mk_mem_zipIdx_iff_getElem?.mp ht
  have hpos : t.toList[pos]? = some value := by
    simpa using List.mk_mem_zipIdx_iff_getElem?.mp hmem
  have hlt : pos < 3 := (List.getElem?_eq_some_iff.mp hpos).1
  have hdiv : (i*4+pos)/4 = i := by omega
  simp only [Bool.and_eq_true, bne_iff_ne, beq_iff_eq] at hcond
  refine ⟨t, by rw [hdiv]; exact hi, value, List.mem_of_getElem? hpos, hcond.1.1, hcond.1.2,
    hcond.2⟩

theorem mem_resolvedTriples {names used : List String} (h : idx ∈ (resolvedTriples triples names used).1) :
    ∃ name ∈ names, idx ∈ replDepend triples name := by
  induction names generalizing used with
  | nil => exact absurd h List.not_mem_nil
  | cons name names ih =>
    unfold resolvedTriples at h
    split_ifs at h with hused
    · obtain ⟨n, hn, hi⟩ := ih h
      exact ⟨n, List.mem_cons_of_mem _ hn, hi⟩
    · rcases List.mem_append.mp h with h | h
      · exact ⟨name, List.mem_cons_self, h⟩
      · obtain ⟨n, hn, hi⟩ := ih h
        exact ⟨n, List.mem_cons_of_mem _ hn, hi⟩

/-- The best triple is the one to begin with or one that is raised. -/
theorem raiseScores_best (cache l : List ℕ) (scores : ℕ → BitVec 8) (best : ℕ) :
    (raiseScores cache l scores best).2 = best ∨
      ∃ idx ∈ l, idx/4 ∉ cache ∧ (raiseScores cache l scores best).2 = idx/4 := by
  induction l generalizing scores best with
  | nil => exact Or.inl rfl
  | cons idx l ih =>
    unfold raiseScores
    dsimp only
    by_cases hc : idx/4 ∈ cache
    · rw [if_pos hc]
      rcases ih scores best with h | ⟨idx', hmem, hnot, h⟩
      · exact Or.inl h
      · exact Or.inr ⟨idx', List.mem_cons_of_mem _ hmem, hnot, h⟩
    · rw [if_neg hc]
      generalize hraised : Function.update scores (idx/4)
        (scores (idx/4)+(if idx = 1 then kScoreEdge else kScoreOther)) = raised
      rcases ih raised (if raised best < raised (idx/4) then idx/4 else best) with
        h | ⟨idx', hmem, hnot, h⟩
      · by_cases hbetter : raised best < raised (idx/4)
        · rw [if_pos hbetter] at h ⊢
          exact Or.inr ⟨idx, List.mem_cons_self, hc, h⟩
        · rw [if_neg hbetter] at h ⊢
          exact Or.inl h
      · exact Or.inr ⟨idx', List.mem_cons_of_mem _ hmem, hnot, h⟩

/-- The names of the triple that was taken up last. -/
def lastNames (triples : List (Triple ScTemplateArg)) (s : OrderState) : List String :=
  ((triples[s.cache.headD 0]?.map fun t => t.toList.map (·.replacementName)).getD []).filter (· != "")

/-- `preCacheIdx` after its loop. -/
def OrderState.left (s : OrderState) : List ℕ := s.preCache.dropWhile (· ∈ s.cache)

/-- What is taken up is the first triple that is left, or one that depends on a name that the last
triple has resolved. -/
theorem orderRound_best (lib : LibraryOrder) (triples : List (Triple ScTemplateArg)) (s : OrderState) :
    ∃ best, (orderRound lib triples s).cache = best :: s.cache ∧
      (orderRound lib triples s).preCache = s.left ∧
      (best = s.left.headD 0 ∨ best ∉ s.cache ∧ ∃ idx ∈ (resolvedTriples triples (lastNames triples s)
        s.usedReplacements).1, best = idx/4) := by
  refine ⟨_, rfl, rfl, ?_⟩
  rcases raiseScores_best s.cache (lib.setOrder (resolvedTriples triples (lastNames triples s)
      s.usedReplacements).1) s.tripleScores (s.left.headD 0) with h | ⟨idx, hmem, hnot, h⟩
  · exact Or.inl h
  · refine Or.inr ⟨?_, idx, List.mem_dedup.mp ((lib.setOrder_perm _).mem_iff.mp hmem), h⟩
    exact fun hc => hnot (h ▸ hc)

/-- `k` triples have been taken up. -/
structure OrderInv (triples : List (Triple ScTemplateArg)) (k : ℕ) (s : OrderState) : Prop where
  length : s.cache.length = k
  nodup : s.cache.Nodup
  range : ∀ i ∈ s.cache, i < triples.length
  left : ∀ i < triples.length, i ∉ s.cache → i ∈ s.preCache
  preRange : ∀ i ∈ s.preCache, i < triples.length

theorem OrderInv.left_cons {k : ℕ} (h : OrderInv triples k s) (hk : k < triples.length) :
    ∃ head rest, s.left = head :: rest ∧ head ∉ s.cache ∧ head < triples.length := by
  -- one of the triples has not been taken up
  obtain ⟨i, hi, hnot⟩ : ∃ i < triples.length, i ∉ s.cache := by
    by_contra hall
    push Not at hall
    have hsub : List.range triples.length ⊆ s.cache := by
      intro i hi
      exact hall i (List.mem_range.mp hi)
    have hle := (List.subperm_of_subset List.nodup_range hsub).length_le
    rw [List.length_range, h.length] at hle
    omega
  have hmem := h.left i hi hnot
  cases hl : s.left with
  | nil =>
    have hall := List.dropWhile_eq_nil_iff.mp hl i hmem
    exact absurd (by simpa using hall) hnot
  | cons head rest =>
    have hhead : head ∉ s.cache := by
      have hne : s.left ≠ [] := by
        rw [hl]
        exact List.cons_ne_nil _ _
      have hnot' := List.head_dropWhile_not (fun i => decide (i ∈ s.cache)) hne
      have heq : (s.preCache.dropWhile fun i => decide (i ∈ s.cache)).head hne = head := by
        have hl' : (s.preCache.dropWhile fun i => decide (i ∈ s.cache)) = head :: rest := hl
        simp only [hl', List.head_cons]
      rw [heq] at hnot'
      simpa using hnot'
    refine ⟨head, rest, rfl, hhead, ?_⟩
    apply h.preRange
    have hsub : s.left.Sublist s.preCache := List.dropWhile_sublist _
    exact hsub.subset (by rw [hl]; exact List.mem_cons_self)

theorem OrderInv.cache_ne {k : ℕ} (h : OrderInv triples (k+1) s) : s.cache ≠ [] := by
  intro hnil
  have hlen := h.length
  rw [hnil, List.length_nil] at hlen
  omega

theorem OrderInv.round {k : ℕ} (h : OrderInv triples k s) (hk : k < triples.length) :
    OrderInv triples (k+1) (orderRound lib triples s) := by
  obtain ⟨head, rest, hl, hnot, hlt⟩ := h.left_cons hk
  obtain ⟨best, hcache, hpre, hbest⟩ := orderRound_best lib triples s
  have hb : best ∉ s.cache ∧ best < triples.length := by
    rcases hbest with rfl | ⟨hnb, idx, hidx, rfl⟩
    · rw [hl]
      exact ⟨hnot, hlt⟩
    · obtain ⟨name, _, hdep⟩ := mem_resolvedTriples hidx
      obtain ⟨t, ht, _⟩ := replDepend_place hdep
      exact ⟨hnb, (List.getElem?_eq_some_iff.mp ht).1⟩
  refine ⟨?_, ?_, ?_, ?_, ?_⟩
  · rw [hcache, List.length_cons, h.length]
  · rw [hcache]
    exact List.nodup_cons.mpr ⟨hb.1, h.nodup⟩
  · rw [hcache]
    intro i hi
    rcases List.mem_cons.mp hi with rfl | hi
    · exact hb.2
    · exact h.range i hi
  · rw [hcache, hpre]
    intro i hi hnoti
    have hmem := h.left i hi (fun hc => hnoti (List.mem_cons_of_mem _ hc))
    have happ := List.takeWhile_append_dropWhile (p := fun i => decide (i ∈ s.cache)) (l := s.preCache)
    rw [← happ] at hmem
    rcases List.mem_append.mp hmem with htake | hdrop
    · have hin := List.mem_takeWhile_imp htake
      exact absurd (List.mem_cons_of_mem _ (by simpa using hin)) hnoti
    · exact hdrop
  · rw [hpre]
    intro i hi
    exact h.preRange i ((List.dropWhile_sublist _).subset hi)

theorem OrderInv.rounds {k : ℕ} (h : OrderInv triples k s) (m : ℕ) (hm : k+m ≤ triples.length) :
    OrderInv triples (k+m) ((orderRound lib triples)^[m] s) := by
  induction m with
  | zero => exact h
  | succ m ih =>
    rw [Function.iterate_succ_apply']
    exact (ih (by omega)).round (by omega)

/-- The state before the loop. -/
def orderStart (triples : List (Triple ScTemplateArg)) (first : ℕ) (rest : List ℕ) : OrderState :=
  ⟨[first], first :: rest, fun i => (triples[i]?.map calculateScore).getD 0, []⟩

theorem orderStart_inv {first : ℕ} {rest : List ℕ}
    (hsort : lib.sort (fun i => (triples[i]?.map calculateScore).getD 0)
      (List.range triples.length) = first :: rest) : OrderInv triples 1 (orderStart triples first rest) := by
  have hperm := lib.sort_perm (fun i => (triples[i]?.map calculateScore).getD 0)
    (List.range triples.length)
  rw [hsort] at hperm
  have hmem (i : ℕ) : i ∈ first :: rest ↔ i < triples.length := by
    rw [hperm.mem_iff, List.mem_range]
  refine ⟨rfl, List.nodup_singleton first, ?_, ?_, ?_⟩
  · intro i hi
    rw [List.mem_singleton.mp hi]
    exact (hmem first).mp List.mem_cons_self
  · intro i hi _
    exact (hmem i).mpr hi
  · intro i hi
    exact (hmem i).mp hi

/-- The order has every triple once. -/
theorem updateSearchCache_perm (lib : LibraryOrder) (triples : List (Triple ScTemplateArg)) :
    (updateSearchCache lib triples).Perm (List.range triples.length) := by
  have hperm := lib.sort_perm (fun i => (triples[i]?.map calculateScore).getD 0)
    (List.range triples.length)
  unfold updateSearchCache
  dsimp only
  cases hsort : lib.sort (fun i => (triples[i]?.map calculateScore).getD 0)
      (List.range triples.length) with
  | nil =>
    rw [hsort] at hperm
    exact hperm
  | cons first rest =>
    have hlen := hperm.length_eq
    rw [hsort, List.length_cons, List.length_range] at hlen
    have hinv : OrderInv triples (1+(triples.length-1)) _ :=
      @OrderInv.rounds lib _ _ _ (orderStart_inv hsort) (triples.length-1) (by omega)
    have hone : 1+(triples.length-1) = triples.length := by omega
    rw [hone] at hinv
    have hsub : ((orderRound lib triples)^[triples.length-1] (orderStart triples first rest)).cache ⊆
        List.range triples.length := fun i hi => List.mem_range.mpr (hinv.range i hi)
    have hsp := List.subperm_of_subset hinv.nodup hsub
    have hp := hsp.perm_of_length_le (by rw [List.length_range, hinv.length])
    exact (List.reverse_perm _).trans hp

end

end ScMachine.Template
