import ScMachine.SearchComplete

/-! Whether a search can go on. A triple is matched from an item that is known, and the greedy order of
the triples may come to one that has none although another order does not. -/
namespace ScMachine.Template
open ScMachine.Store ScMachine.Backtracking ScMachine.Runs

/-- The triple has an address, or a name of one of the triples of `cached`. -/
def Anchored (triples : List (Triple ScTemplateArg)) (cached : List ℕ) (i : ℕ) : Prop :=
  ∃ t, triples[i]? = some t ∧ ∃ value ∈ t.toList, value.kind = .addr ∨
    value.hasReplacementName = true ∧ ∃ j ∈ cached, ∃ u, triples[j]? = some u ∧
      ∃ other ∈ u.toList, other.replacementName = value.replacementName

/-- In the order every triple is anchored when it is reached. -/
def AnchoredInOrder (triples : List (Triple ScTemplateArg)) (order : List ℕ) : Prop :=
  ∀ k < triples.length, Anchored triples (order.take k) (order.getD k 0)

def Solvable (triples : List (Triple ScTemplateArg)) : Prop :=
  ∃ order : List ℕ, order.Perm (List.range triples.length) ∧ AnchoredInOrder triples order

/-- The packed entries of the names that the last triple has resolved. -/
def OrderState.resolved (triples : List (Triple ScTemplateArg)) (s : OrderState) : List ℕ :=
  (resolvedTriples triples (lastNames triples s) s.usedReplacements).1

def raiseOf (idx : ℕ) : ℕ := if idx = 1 then 5 else 1

/-- What the entries add to the score of a triple. -/
def totalRaise (l : List ℕ) (i : ℕ) : ℕ := ((l.filter fun idx => idx/4 = i).map raiseOf).sum

/-- What must hold before a round of the loop that orders the triples: the first triple that is left is
anchored, or one that is left depends on a name that the last triple has resolved. -/
def OrderState.RoundOk (triples : List (Triple ScTemplateArg)) (s : OrderState) : Prop :=
  Anchored triples s.cache (s.left.headD 0) ∨ ∃ idx ∈ s.resolved triples, idx/4 ∉ s.cache

section
variable {lib : LibraryOrder} {triples : List (Triple ScTemplateArg)} {s : OrderState} {idx i : ℕ}
  {cache l : List ℕ} {scores : ℕ → BitVec 8} {best : ℕ}

theorem mem_replDepend {name : String} (h : idx ∈ replDepend triples name) :
    ∃ t value, triples[idx/4]? = some t ∧ t.toList[idx%4]? = some value ∧
      value.hasReplacementName = true ∧ value.replacementName = name := by
  unfold replDepend at h
  obtain ⟨l, hl, hidx⟩ := List.mem_flatten.mp h
  obtain ⟨⟨t, i⟩, ht, rfl⟩ := List.mem_map.mp hl
  obtain ⟨⟨value, pos⟩, hv, rfl⟩ := List.mem_map.mp hidx
  obtain ⟨hmem, hcond⟩ := List.mem_filter.mp hv
  have hi : triples[i]? = some t := by simpa using List.mk_mem_zipIdx_iff_getElem?.mp ht
  have hpos : t.toList[pos]? = some value := by
    simpa using List.mk_mem_zipIdx_iff_getElem?.mp hmem
  have hlt : pos < 3 := (List.getElem?_eq_some_iff.mp hpos).1
  have hdiv : (i*4+pos)/4 = i := by omega
  have hmod : (i*4+pos)%4 = pos := by omega
  simp only [Bool.and_eq_true, bne_iff_ne, beq_iff_eq] at hcond
  exact ⟨t, value, hdiv.symm ▸ hi, hmod.symm ▸ hpos, hcond.1.2, hcond.2⟩

theorem replDepend_name {name name' : String} (h : idx ∈ replDepend triples name)
    (h' : idx ∈ replDepend triples name') : name = name' := by
  obtain ⟨t, value, ht, hv, _, rfl⟩ := mem_replDepend h
  obtain ⟨t', value', ht', hv', _, rfl⟩ := mem_replDepend h'
  obtain rfl := Option.some.inj (ht.symm.trans ht')
  rw [Option.some.inj (hv.symm.trans hv')]

/-- What is resolved depends on names that were not used before and are now. -/
theorem resolvedTriples_spec (names used : List String) :
    used ⊆ (resolvedTriples triples names used).2 ∧
      ∀ idx ∈ (resolvedTriples triples names used).1, ∃ name ∈ (resolvedTriples triples names used).2,
        name ∉ used ∧ idx ∈ replDepend triples name := by
  induction names generalizing used with
  | nil => exact ⟨List.Subset.refl used, fun _ h => absurd h List.not_mem_nil⟩
  | cons name names ih =>
    unfold resolvedTriples
    by_cases hused : name ∈ used
    · rw [if_pos hused]
      exact ih used
    · rw [if_neg hused]
      obtain ⟨hsub, hnew⟩ := ih (name :: used)
      refine ⟨fun x hx => hsub (List.mem_cons_of_mem _ hx), ?_⟩
      intro idx hidx
      rcases List.mem_append.mp hidx with hidx | hidx
      · exact ⟨name, hsub List.mem_cons_self, hused, hidx⟩
      · obtain ⟨n, hn, hnot, hdep⟩ := hnew idx hidx
        exact ⟨n, hn, fun hh => hnot (List.mem_cons_of_mem _ hh), hdep⟩

theorem totalRaise_cons (idx : ℕ) (l : List ℕ) (i : ℕ) :
    totalRaise (idx :: l) i = (if idx/4 = i then raiseOf idx else 0)+totalRaise l i := by
  unfold totalRaise
  by_cases h : idx/4 = i
  · rw [List.filter_cons_of_pos (by simpa using h), if_pos h, List.map_cons, List.sum_cons]
  · rw [List.filter_cons_of_neg (by simpa using h), if_neg h, Nat.zero_add]

theorem totalRaise_pos (h : idx ∈ l) : 0 < totalRaise l (idx/4) := by
  unfold totalRaise
  have hmem : raiseOf idx ∈ (l.filter fun j => j/4 = idx/4).map raiseOf :=
    List.mem_map_of_mem (List.mem_filter.mpr ⟨h, decide_eq_true rfl⟩)
  have hone : 0 < raiseOf idx := by
    unfold raiseOf
    split_ifs <;> omega
  exact lt_of_lt_of_le hone (List.le_sum_of_mem hmem)

theorem totalRaise_le (l : List ℕ) (i : ℕ) :
    totalRaise l i ≤ 5*(l.filter fun idx => idx/4 = i).length := by
  unfold totalRaise
  have hle := List.sum_le_card_nsmul ((l.filter fun idx => idx/4 = i).map raiseOf) 5 (by
    intro x hx
    obtain ⟨idx, _, rfl⟩ := List.mem_map.mp hx
    unfold raiseOf
    split_ifs <;> omega)
  rw [List.length_map, smul_eq_mul, Nat.mul_comm] at hle
  exact hle

/-- No byte overflows while there is room for the rest. -/
theorem raised_toNat {x : BitVec 8} (h : x.toNat+raiseOf idx ≤ 255) :
    (x+(if idx = 1 then kScoreEdge else kScoreOther)).toNat = x.toNat+raiseOf idx := by
  unfold raiseOf at h ⊢
  rw [BitVec.toNat_add]
  split_ifs at h ⊢
  · have h5 : kScoreEdge.toNat = 5 := rfl
    rw [h5, Nat.mod_eq_of_lt (by omega)]
  · have h1 : kScoreOther.toNat = 1 := rfl
    rw [h1, Nat.mod_eq_of_lt (by omega)]

/-- The scores after one entry, and what the rest still adds to them. -/
theorem update_room (h : ∀ i, (scores i).toNat+totalRaise (idx :: l) i ≤ 255) (i : ℕ) :
    (Function.update scores (idx/4) (scores (idx/4)+
      (if idx = 1 then kScoreEdge else kScoreOther)) i).toNat+totalRaise l i =
      (scores i).toNat+totalRaise (idx :: l) i := by
  have hi := h i
  rw [totalRaise_cons] at hi ⊢
  by_cases he : i = idx/4
  · subst he
    rw [if_pos rfl] at hi ⊢
    rw [Function.update_self, raised_toNat (by omega)]
    omega
  · rw [Function.update_of_ne he, if_neg (fun hh => he hh.symm), Nat.zero_add]

theorem raiseScores_le (cache l : List ℕ) (scores : ℕ → BitVec 8) (best i : ℕ)
    (h : ∀ i, (scores i).toNat+totalRaise l i ≤ 255) :
    ((raiseScores cache l scores best).1 i).toNat ≤ (scores i).toNat+totalRaise l i := by
  induction l generalizing scores best with
  | nil => exact Nat.le_add_right _ _
  | cons idx l ih =>
    unfold raiseScores
    dsimp only
    by_cases hc : idx/4 ∈ cache
    · rw [if_pos hc]
      have hle (j : ℕ) : totalRaise l j ≤ totalRaise (idx :: l) j := by
        rw [totalRaise_cons]
        exact Nat.le_add_left _ _
      have hrest := ih scores best (fun j => by have := h j; have := hle j; omega)
      have hi := hle i
      omega
    · rw [if_neg hc, ← update_room h i]
      apply ih
      intro j
      rw [update_room h j]
      exact h j

theorem raiseScores_other (cache l : List ℕ) (scores : ℕ → BitVec 8) (best : ℕ)
    (h : ∀ idx ∈ l, idx/4 ≠ i) : (raiseScores cache l scores best).1 i = scores i := by
  induction l generalizing scores best with
  | nil => rfl
  | cons idx l ih =>
    have hrest := fun j hj => h j (List.mem_cons_of_mem idx hj)
    unfold raiseScores
    dsimp only
    by_cases hc : idx/4 ∈ cache
    · rw [if_pos hc]
      exact ih scores best hrest
    · rw [if_neg hc, ih _ _ hrest, Function.update_of_ne (h idx List.mem_cons_self).symm]

/-- A triple that comes to a higher score than the one to begin with is better. -/
theorem raiseScores_better (cache l : List ℕ) (scores : ℕ → BitVec 8) (best : ℕ) {head : ℕ}
    (h : ∀ i, (scores i).toNat+totalRaise l i ≤ 255) (hhead : ∀ idx ∈ l, idx/4 ≠ head)
    (hbetter : best ≠ head ∨ ∃ idx ∈ l, idx/4 ∉ cache ∧
      (scores head).toNat < (scores (idx/4)).toNat+totalRaise l (idx/4)) :
    (raiseScores cache l scores best).2 ≠ head := by
  induction l generalizing scores best with
  | nil =>
    rcases hbetter with hne | ⟨idx, hidx, _⟩
    · exact hne
    · exact absurd hidx List.not_mem_nil
  | cons idx l ih =>
    have hrest (j : ℕ) (hj : j ∈ l) : j/4 ≠ head := hhead j (List.mem_cons_of_mem _ hj)
    have hidx := hhead idx List.mem_cons_self
    unfold raiseScores
    dsimp only
    by_cases hc : idx/4 ∈ cache
    · rw [if_pos hc]
      have hle (j : ℕ) : totalRaise l j ≤ totalRaise (idx :: l) j := by
        rw [totalRaise_cons]
        exact Nat.le_add_left _ _
      apply ih scores best (fun j => by have := h j; have := hle j; omega) hrest
      apply hbetter.imp_right
      rintro ⟨j, hj, hjc, hlt⟩
      have hne : idx/4 ≠ j/4 := fun he => hjc (he ▸ hc)
      rw [totalRaise_cons, if_neg hne, Nat.zero_add] at hlt
      rcases List.mem_cons.mp hj with rfl | hj
      · exact absurd rfl hne
      · exact ⟨j, hj, hjc, hlt⟩
    · rw [if_neg hc]
      have hroom := update_room h
      generalize Function.update scores (idx/4) (scores (idx/4)+
        (if idx = 1 then kScoreEdge else kScoreOther)) = scores' at hroom ⊢
      have hsame : (scores' head).toNat = (scores head).toNat := by
        have hh := hroom head
        rw [totalRaise_cons, if_neg hidx] at hh
        omega
      apply ih scores' _ (fun j => by rw [hroom j]; exact h j) hrest
      by_cases hlt : scores' best < scores' (idx/4)
      · rw [if_pos hlt]
        exact Or.inl hidx
      · rw [if_neg hlt]
        by_cases hb : best = head
        · right
          obtain ⟨j, hj, hjc, hjlt⟩ := hbetter.resolve_left (fun hne => hne hb)
          rw [← hroom (j/4), ← hsame] at hjlt
          -- the triple has another entry in the rest, or it would be better now
          by_cases hmore : ∃ j' ∈ l, j'/4 = j/4
          · obtain ⟨j', hj', he⟩ := hmore
            exact ⟨j', hj', he ▸ hjc, he ▸ hjlt⟩
          · have hzero : totalRaise l (j/4) = 0 := by
              have hnil : (l.filter fun idx => idx/4 = j/4) = [] := by
                apply List.filter_eq_nil_iff.mpr
                intro j' hj' he
                exact hmore ⟨j', hj', of_decide_eq_true he⟩
              unfold totalRaise
              rw [hnil]
              rfl
            have hje : j = idx := by
              rcases List.mem_cons.mp hj with rfl | hj
              · rfl
              · exact absurd ⟨j, hj, rfl⟩ hmore
            rw [hzero, Nat.add_zero, hje, ← hb] at hjlt
            exact absurd (BitVec.lt_def.mpr hjlt) hlt
        · exact Or.inl hb

/-- The places of a triple whose names have been used. -/
def usedPlaces (triples : List (Triple ScTemplateArg)) (used : List String) (i : ℕ) : Finset ℕ :=
  ({4*i, 4*i+1, 4*i+2} : Finset ℕ).filter fun idx => ∃ name ∈ used, idx ∈ replDepend triples name

/-- A score has grown only by the places whose names have been used. -/
def OrderState.ScoresOk (triples : List (Triple ScTemplateArg)) (s : OrderState) : Prop :=
  ∀ i, (s.tripleScores i).toNat ≤ 5+5*(usedPlaces triples s.usedReplacements i).card

theorem usedPlaces_card (triples : List (Triple ScTemplateArg)) (used : List String) (i : ℕ) :
    (usedPlaces triples used i).card ≤ 3 :=
  (Finset.card_filter_le _ _).trans Finset.card_le_three

theorem calculateScore_le (t : Triple ScTemplateArg) : (calculateScore t).toNat ≤ 5 := by
  unfold calculateScore
  split_ifs <;> decide

/-- The new entries of a triple are places that become used. -/
theorem resolved_places (names used : List String) (i : ℕ) :
    ((resolvedTriples triples names used).1.dedup.filter fun idx => idx/4 = i).length+
      (usedPlaces triples used i).card ≤
      (usedPlaces triples (resolvedTriples triples names used).2 i).card := by
  obtain ⟨hsub, hnew⟩ := @resolvedTriples_spec triples names used
  have hnodup : ((resolvedTriples triples names used).1.dedup.filter fun idx => idx/4 = i).Nodup :=
    (List.nodup_dedup _).filter _
  rw [← List.toFinset_card_of_nodup hnodup, ← Finset.card_union_of_disjoint]
  · apply Finset.card_le_card
    intro idx hidx
    rcases Finset.mem_union.mp hidx with hidx | hidx
    · obtain ⟨hmem, hi⟩ := List.mem_filter.mp (List.mem_toFinset.mp hidx)
      obtain ⟨name, hname, _, hdep⟩ := hnew idx (List.mem_dedup.mp hmem)
      obtain ⟨t, value, _, hv, _⟩ := mem_replDepend hdep
      have hlt : idx%4 < 3 := (List.getElem?_eq_some_iff.mp hv).1
      have hdiv : idx/4 = i := of_decide_eq_true hi
      apply Finset.mem_filter.mpr
      refine ⟨?_, name, hname, hdep⟩
      simp only [Finset.mem_insert, Finset.mem_singleton]
      omega
    · obtain ⟨hmem, name, hname, hdep⟩ := Finset.mem_filter.mp hidx
      exact Finset.mem_filter.mpr ⟨hmem, name, hsub hname, hdep⟩
  · rw [Finset.disjoint_left]
    intro idx hidx hused
    obtain ⟨hmem, _⟩ := List.mem_filter.mp (List.mem_toFinset.mp hidx)
    obtain ⟨name, _, hnot, hdep⟩ := hnew idx (List.mem_dedup.mp hmem)
    obtain ⟨_, name', hname', hdep'⟩ := Finset.mem_filter.mp hused
    exact hnot (replDepend_name hdep hdep' ▸ hname')

theorem totalRaise_perm {l l' : List ℕ} (h : l.Perm l') (i : ℕ) : totalRaise l i = totalRaise l' i :=
  ((h.filter _).map _).sum_eq

/-- Before a round there is room for what it adds. -/
theorem OrderState.ScoresOk.room (h : s.ScoresOk triples) (i : ℕ) :
    (s.tripleScores i).toNat+totalRaise (s.resolved triples).dedup i ≤
      5+5*(usedPlaces triples (resolvedTriples triples (lastNames triples s)
        s.usedReplacements).2 i).card := by
  have hi := h i
  have hplaces := @resolved_places triples (lastNames triples s) s.usedReplacements i
  have hraise := totalRaise_le (s.resolved triples).dedup i
  unfold OrderState.resolved at hraise ⊢
  omega

theorem OrderState.ScoresOk.round (h : s.ScoresOk triples) :
    (orderRound lib triples s).ScoresOk triples := by
  intro i
  have hroom (j : ℕ) : (s.tripleScores j).toNat+
      totalRaise (lib.setOrder (s.resolved triples)) j ≤ 255 := by
    have hj := h.room j
    have hcard := usedPlaces_card triples (resolvedTriples triples (lastNames triples s)
      s.usedReplacements).2 j
    rw [totalRaise_perm (lib.setOrder_perm _)]
    omega
  have hle := raiseScores_le s.cache (lib.setOrder (s.resolved triples)) s.tripleScores
    (s.left.headD 0) i hroom
  rw [totalRaise_perm (lib.setOrder_perm _)] at hle
  exact hle.trans (h.room i)

/-- What depends on a name of the last triple is anchored. -/
theorem anchored_of_resolved (hcache : s.cache ≠ []) (hidx : idx ∈ s.resolved triples) :
    Anchored triples s.cache (idx/4) := by
  obtain ⟨name, hname, hdep⟩ := mem_resolvedTriples hidx
  obtain ⟨t, value, ht, hv, hnamed, rfl⟩ := mem_replDepend hdep
  refine ⟨t, ht, value, List.mem_of_getElem? hv, Or.inr ⟨hnamed, s.cache.headD 0, ?_, ?_⟩⟩
  · cases hc : s.cache with
    | nil => exact absurd hc hcache
    | cons i rest => exact List.mem_cons_self
  · unfold lastNames at hname
    obtain ⟨hmem, _⟩ := List.mem_filter.mp hname
    cases hu : triples[s.cache.headD 0]? with
    | none =>
      rw [hu] at hmem
      exact absurd hmem List.not_mem_nil
    | some u =>
      rw [hu] at hmem
      obtain ⟨other, hother, he⟩ := List.mem_map.mp hmem
      exact ⟨u, rfl, other, hother, he⟩

/-- A triple that has nothing known has the score zero: it has no address, and it has not been raised. -/
def OrderState.Unraised (triples : List (Triple ScTemplateArg)) (s : OrderState) : Prop :=
  ∀ i, ¬ Anchored triples s.cache i → s.tripleScores i = 0

theorem Anchored.mono {l l' : List ℕ} (h : Anchored triples l i) (hsub : l ⊆ l') :
    Anchored triples l' i := by
  obtain ⟨t, ht, value, hv, hcase⟩ := h
  refine ⟨t, ht, value, hv, hcase.imp_right ?_⟩
  rintro ⟨hname, j, hj, hrest⟩
  exact ⟨hname, j, hsub hj, hrest⟩

theorem mem_setOrder (lib : LibraryOrder) (l : List ℕ) : idx ∈ lib.setOrder l ↔ idx ∈ l := by
  rw [(lib.setOrder_perm _).mem_iff, List.mem_dedup]

theorem OrderState.Unraised.round (h : s.Unraised triples) (hcache : s.cache ≠ []) :
    (orderRound lib triples s).Unraised triples := by
  intro i hi
  obtain ⟨best, hc, _, _⟩ := orderRound_best lib triples s
  rw [hc] at hi
  have hold : ¬ Anchored triples s.cache i := fun ha => hi (ha.mono (List.subset_cons_self _ _))
  -- what is raised depends on a name of the last triple
  have hother : ∀ idx ∈ lib.setOrder (s.resolved triples), idx/4 ≠ i := by
    intro idx hidx he
    exact hold (he ▸ anchored_of_resolved hcache ((mem_setOrder lib _).mp hidx))
  exact (raiseScores_other _ _ _ _ hother).trans (h i hold)

/-- A round takes up a triple that is anchored exactly when its condition holds. -/
theorem OrderState.roundOk_iff (lib : LibraryOrder) (hscores : s.ScoresOk triples)
    (hunraised : s.Unraised triples) (hcache : s.cache ≠ []) :
    s.RoundOk triples ↔ Anchored triples s.cache ((orderRound lib triples s).cache.headD 0) := by
  obtain ⟨best, hc, _, hbest⟩ := orderRound_best lib triples s
  rw [hc]
  show s.RoundOk triples ↔ Anchored triples s.cache best
  constructor
  · intro h
    rcases hbest with hhead | ⟨_, idx, hidx, rfl⟩
    · by_contra hnone
      rw [hhead] at hnone
      obtain ⟨idx, hidx, hnot⟩ := h.resolve_left hnone
      -- the dependent triple is raised above the head, which has the score zero
      have hroom (j : ℕ) : (s.tripleScores j).toNat+
          totalRaise (lib.setOrder (s.resolved triples)) j ≤ 255 := by
        have hj := hscores.room j
        have hcard := usedPlaces_card triples (resolvedTriples triples (lastNames triples s)
          s.usedReplacements).2 j
        rw [totalRaise_perm (lib.setOrder_perm _)]
        omega
      have hzero : (s.tripleScores (s.left.headD 0)).toNat = 0 := by
        rw [hunraised _ hnone]
        rfl
      have hpos := totalRaise_pos ((mem_setOrder lib _).mpr hidx)
      have hlt : (s.tripleScores (s.left.headD 0)).toNat < (s.tripleScores (idx/4)).toNat+
          totalRaise (lib.setOrder (s.resolved triples)) (idx/4) := by omega
      have hne : ∀ j ∈ lib.setOrder (s.resolved triples), j/4 ≠ s.left.headD 0 := fun j hj he =>
        hnone (he ▸ anchored_of_resolved hcache ((mem_setOrder lib _).mp hj))
      have hbetter := raiseScores_better s.cache (lib.setOrder (s.resolved triples)) s.tripleScores
        (s.left.headD 0) hroom hne (Or.inr ⟨idx, (mem_setOrder lib _).mpr hidx, hnot, hlt⟩)
      have hround : (orderRound lib triples s).cache = (raiseScores s.cache
          (lib.setOrder (s.resolved triples)) s.tripleScores (s.left.headD 0)).2 :: s.cache := rfl
      rw [hround] at hc
      exact hbetter ((List.cons.inj hc).1.trans hhead)
    · exact anchored_of_resolved hcache hidx
  · intro hanch
    rcases hbest with hhead | ⟨hnot, idx, hidx, rfl⟩
    · exact Or.inl (hhead ▸ hanch)
    · exact Or.inr ⟨idx, hidx, hnot⟩

/-- The state of the loop after `k` rounds. -/
def orderAfter (lib : LibraryOrder) (triples : List (Triple ScTemplateArg)) (k : ℕ) : OrderState :=
  (orderRound lib triples)^[k] (match lib.sort (fun i => (triples[i]?.map calculateScore).getD 0)
    (List.range triples.length) with
    | [] => ⟨[], [], fun _ => 0, []⟩
    | first :: rest => orderStart triples first rest)

theorem exists_first (lib : LibraryOrder) (hne : 0 < triples.length) : ∃ first rest,
    lib.sort (fun i => (triples[i]?.map calculateScore).getD 0) (List.range triples.length) =
      first :: rest := by
  cases hs : lib.sort (fun i => (triples[i]?.map calculateScore).getD 0)
      (List.range triples.length) with
  | nil =>
    have hlen := (lib.sort_perm (fun i => (triples[i]?.map calculateScore).getD 0)
      (List.range triples.length)).length_eq
    rw [hs, List.length_nil, List.length_range] at hlen
    omega
  | cons first rest => exact ⟨first, rest, rfl⟩

theorem updateSearchCache_eq (lib : LibraryOrder) (hne : 0 < triples.length) :
    updateSearchCache lib triples = (orderAfter lib triples (triples.length-1)).cache.reverse := by
  obtain ⟨first, rest, hs⟩ := exists_first lib hne
  unfold updateSearchCache orderAfter
  dsimp only
  rw [hs]
  rfl

theorem calculateScore_zero {t : Triple ScTemplateArg} (h : ∀ value ∈ t.toList, value.kind ≠ .addr) :
    calculateScore t = 0 := by
  have hs := h t.source (by simp [Triple.toList])
  have he := h t.edge (by simp [Triple.toList])
  have ht := h t.target (by simp [Triple.toList])
  unfold calculateScore
  rw [if_neg (fun hh => he hh.1), if_neg (fun hh => hs hh.1), if_neg (fun hh => hh.elim hs ht)]

theorem calculateScore_pos {t : Triple ScTemplateArg} (hkind : ∀ value ∈ t.toList, value.kind ≠ .replace)
    (h : ∃ value ∈ t.toList, value.kind = .addr) : 0 < (calculateScore t).toNat := by
  have htype (value : ScTemplateArg) (hv : value ∈ t.toList) (ha : value.kind ≠ .addr) :
      value.kind = .type := by
    cases hk : value.kind with
    | type => rfl
    | addr => exact absurd hk ha
    | replace => exact absurd hk (hkind value hv)
  unfold calculateScore
  split_ifs with h1 h2 h3
  · decide
  · decide
  · decide
  · -- without an address at the ends the edge would have the first score
    obtain ⟨hs, ht⟩ := not_or.mp h3
    obtain ⟨value, hv, ha⟩ := h
    have hends := And.intro (htype t.source (by simp [Triple.toList]) hs)
      (htype t.target (by simp [Triple.toList]) ht)
    simp only [Triple.toList, List.mem_cons, List.not_mem_nil, or_false] at hv
    rcases hv with rfl | rfl | rfl
    · exact absurd ha hs
    · exact absurd ⟨ha, hends⟩ h1
    · exact absurd ha ht

/-- The first triple has an address when some order can begin. -/
theorem first_anchored (hkind : ∀ t ∈ triples, ∀ value ∈ t.toList, value.kind ≠ .replace)
    (hsolv : Solvable triples) (hne : 0 < triples.length) {first : ℕ} {rest : List ℕ}
    (hs : lib.sort (fun i => (triples[i]?.map calculateScore).getD 0) (List.range triples.length) =
      first :: rest) : Anchored triples [] first := by
  obtain ⟨order, hperm, horder⟩ := hsolv
  have hzero := horder 0 hne
  rw [List.take_zero] at hzero
  obtain ⟨t0, ht0, value0, hv0, h0⟩ := hzero
  have haddr0 : value0.kind = .addr := by
    rcases h0 with h0 | ⟨_, j, hj, _⟩
    · exact h0
    · exact absurd hj List.not_mem_nil
  have hpos := calculateScore_pos (hkind t0 (List.mem_of_getElem? ht0)) ⟨value0, hv0, haddr0⟩
  -- the first triple of the sort has a score that is no lower
  have hp := lib.sort_perm (fun i => (triples[i]?.map calculateScore).getD 0)
    (List.range triples.length)
  have hsorted := lib.sort_sorted (fun i => (triples[i]?.map calculateScore).getD 0)
    (List.range triples.length)
  rw [hs] at hp hsorted
  have hmem0 : order.getD 0 0 ∈ first :: rest :=
    hp.mem_iff.mpr (List.mem_range.mpr (List.getElem?_eq_some_iff.mp ht0).1)
  have hfirst : first < triples.length :=
    List.mem_range.mp (hp.mem_iff.mp List.mem_cons_self)
  have hle : ((triples[order.getD 0 0]?.map calculateScore).getD 0 : BitVec 8) ≤
      (triples[first]?.map calculateScore).getD 0 := by
    rcases List.mem_cons.mp hmem0 with he | hr
    · rw [he]
      exact BitVec.le_refl _
    · exact (List.pairwise_cons.mp hsorted).1 _ hr
  have hget : triples[first]? = some triples[first] := List.getElem?_eq_getElem hfirst
  rw [ht0, hget] at hle
  have hscore : 0 < (calculateScore triples[first]).toNat :=
    lt_of_lt_of_le hpos (BitVec.le_def.mp hle)
  refine ⟨triples[first], hget, ?_⟩
  by_contra hno
  push Not at hno
  rw [calculateScore_zero fun value hv => (hno value hv).1] at hscore
  exact absurd hscore (lt_irrefl 0)

/-- What holds before each round. -/
theorem orderAfter_inv (lib : LibraryOrder) (hne : 0 < triples.length) (k : ℕ) (hk : k < triples.length) :
    OrderInv triples (k+1) (orderAfter lib triples k) ∧ (orderAfter lib triples k).ScoresOk triples ∧
      (orderAfter lib triples k).Unraised triples := by
  obtain ⟨first, rest, hs⟩ := exists_first lib hne
  induction k with
  | zero =>
    have hstart : orderAfter lib triples 0 = orderStart triples first rest := by
      show (match lib.sort _ _ with
        | [] => _
        | first :: rest => orderStart triples first rest) = _
      rw [hs]
    rw [hstart]
    refine ⟨orderStart_inv hs, ?_, ?_⟩
    · intro i
      have hle : (((triples[i]?.map calculateScore).getD 0 : BitVec 8)).toNat ≤ 5 := by
        cases triples[i]? with
        | none => exact Nat.zero_le _
        | some t => exact calculateScore_le t
      exact hle.trans (Nat.le_add_right _ _)
    · intro i hno
      show (triples[i]?.map calculateScore).getD 0 = 0
      cases ht : triples[i]? with
      | none => rfl
      | some t => exact calculateScore_zero fun value hv ha => hno ⟨t, ht, value, hv, Or.inl ha⟩
  | succ k ih =>
    obtain ⟨hinv, hscores, hunraised⟩ := ih (by omega)
    have hnext : orderAfter lib triples (k+1) = orderRound lib triples (orderAfter lib triples k) :=
      Function.iterate_succ_apply' _ _ _
    rw [hnext]
    exact ⟨hinv.round (by omega), hscores.round, hunraised.round hinv.cache_ne⟩

theorem orderAfter_suffix (lib : LibraryOrder) (triples : List (Triple ScTemplateArg)) {k j : ℕ}
    (h : k ≤ j) : (orderAfter lib triples k).cache <:+ (orderAfter lib triples j).cache := by
  induction j, h using Nat.le_induction with
  | base => exact List.suffix_refl _
  | succ j _ ih =>
    have hnext : orderAfter lib triples (j+1) = orderRound lib triples (orderAfter lib triples j) :=
      Function.iterate_succ_apply' _ _ _
    obtain ⟨best, hc, _, _⟩ := orderRound_best lib triples (orderAfter lib triples j)
    rw [hnext, hc]
    exact ih.trans (List.suffix_cons _ _)

/-- What a round takes up comes in the order behind what was taken up before. -/
theorem order_level (lib : LibraryOrder) {k : ℕ} (hk : k+1 < triples.length) :
    (updateSearchCache lib triples).take (k+1) = (orderAfter lib triples k).cache.reverse ∧
      (updateSearchCache lib triples).getD (k+1) 0 =
        (orderRound lib triples (orderAfter lib triples k)).cache.headD 0 := by
  have hlen := (orderAfter_inv lib (show 0 < triples.length by omega) k (by omega)).1.length
  have hnext : orderAfter lib triples (k+1) = orderRound lib triples (orderAfter lib triples k) :=
    Function.iterate_succ_apply' _ _ _
  obtain ⟨best, hc, _, _⟩ := orderRound_best lib triples (orderAfter lib triples k)
  obtain ⟨above, habove⟩ := @orderAfter_suffix lib triples (k+1) (triples.length-1) (by omega)
  rw [hnext, hc] at habove
  rw [updateSearchCache_eq lib (by omega), ← habove, hc]
  generalize (orderAfter lib triples k).cache = below at hlen ⊢
  have hrev : (above ++ best :: below).reverse = below.reverse ++ best :: above.reverse := by simp
  have hlen' : below.reverse.length = k+1 := by rw [List.length_reverse, hlen]
  rw [hrev]
  constructor
  · rw [List.take_append_of_le_length hlen'.ge, List.take_of_length_le hlen'.le]
  · rw [List.getD_append_right _ _ _ _ hlen'.le, hlen', Nat.sub_self]
    rfl

/-- The order reaches every triple with something known exactly when every round meets its condition. -/
theorem anchoredInOrder_iff (lib : LibraryOrder)
    (hkind : ∀ t ∈ triples, ∀ value ∈ t.toList, value.kind ≠ .replace) (hsolv : Solvable triples)
    (hne : 0 < triples.length) : AnchoredInOrder triples (updateSearchCache lib triples) ↔
      ∀ k, k+1 < triples.length → (orderAfter lib triples k).RoundOk triples := by
  have hround (k : ℕ) (hk : k+1 < triples.length) : (orderAfter lib triples k).RoundOk triples ↔
      Anchored triples ((updateSearchCache lib triples).take (k+1))
        ((updateSearchCache lib triples).getD (k+1) 0) := by
    obtain ⟨hinv, hscores, hunraised⟩ := orderAfter_inv lib hne k (by omega)
    obtain ⟨htake, hget⟩ := order_level lib hk
    rw [OrderState.roundOk_iff lib hscores hunraised hinv.cache_ne, htake, hget]
    exact ⟨fun h => h.mono fun x hx => List.mem_reverse.mpr hx,
      fun h => h.mono fun x hx => List.mem_reverse.mp hx⟩
  constructor
  · intro h k hk
    exact (hround k hk).mpr (h (k+1) hk)
  · intro h k hk
    cases k with
    | succ k => exact (hround k hk).mp (h k hk)
    | zero =>
      obtain ⟨first, rest, hs⟩ := exists_first lib hne
      have hfirst := first_anchored hkind hsolv hne hs
      have hget : (updateSearchCache lib triples).getD 0 0 = first := by
        have hstart : (orderAfter lib triples 0).cache = [first] := by
          show (match lib.sort _ _ with
            | [] => (⟨[], [], fun _ => 0, []⟩ : OrderState)
            | first :: rest => orderStart triples first rest).cache = _
          rw [hs]
          rfl
        obtain ⟨above, habove⟩ := @orderAfter_suffix lib triples 0 (triples.length-1) (by omega)
        rw [updateSearchCache_eq lib hne, ← habove, hstart]
        simp
      rw [List.take_zero, hget]
      exact hfirst

variable {m : SearchSetup} {path : List (Triple ScAddr)} {R : String → Option ReplCounter}
  {item : ScTemplateArg} {a : ScAddr} {ps : List ℕ}

theorem refReplacement_isSome {name : String} (h : (R name).isSome = true ∨
    item.hasReplacementName = true ∧ item.replacementName = name) :
    (refReplacement item a R name).isSome = true := by
  by_cases hn : item.hasReplacementName = true ∧ item.replacementName = name
  · obtain ⟨hname, rfl⟩ := hn
    rw [refReplacement_self hname]
    cases R item.replacementName with
    | none => rfl
    | some r => rfl
  · rw [refReplacement_other hn]
    exact h.resolve_right hn

theorem refTriple_isSome {t : Triple ScTemplateArg} {f : Triple ScAddr} {name : String}
    (h : (R name).isSome = true ∨
      ∃ value ∈ t.toList, value.hasReplacementName = true ∧ value.replacementName = name) :
    (refTriple t f R name).isSome = true := by
  rcases h with h | ⟨value, hv, hn⟩
  · exact refReplacement_isSome (Or.inl (refReplacement_isSome (Or.inl (refReplacement_isSome
      (Or.inl h)))))
  · simp only [Triple.toList, List.mem_cons, List.not_mem_nil, or_false] at hv
    rcases hv with rfl | rfl | rfl
    · exact refReplacement_isSome (Or.inl (refReplacement_isSome (Or.inl (refReplacement_isSome
        (Or.inr hn)))))
    · exact refReplacement_isSome (Or.inl (refReplacement_isSome (Or.inr hn)))
    · exact refReplacement_isSome (Or.inr hn)

/-- The names of the levels of a path are known. -/
theorem replsOf_isSome {level : ℕ} (hl : level < path.length) {value : ScTemplateArg}
    (hv : value ∈ (m.itemsAt level).toList) (hname : value.hasReplacementName = true) :
    (m.replsOf path value.replacementName).isSome = true := by
  induction path with
  | nil => exact absurd hl (Nat.not_lt_zero level)
  | cons f path ih =>
    apply refTriple_isSome
    rcases Nat.lt_succ_iff_lt_or_eq.mp hl with hl | rfl
    · exact Or.inl (ih hl)
    · exact Or.inr ⟨value, hv, hname, rfl⟩

theorem createIterator_none {t : Triple ScTemplateArg} (h : createIterator R t = none) :
    ∀ value ∈ t.toList, searchResolveAddr R value = ScAddr.empty := by
  unfold createIterator at h
  dsimp only at h
  split_ifs at h with hs he hd hd hd he he
  intro value hv
  simp only [Triple.toList, List.mem_cons, List.not_mem_nil, or_false] at hv
  rcases hv with rfl | rfl | rfl
  · exact not_not.mp hs
  · exact not_not.mp he
  · exact not_not.mp hd

theorem SearchSetup.Ordered.items (hord : m.Ordered) {level : ℕ} (hl : level < m.data.triples.length) :
    (m.data.triples.map m.data.items)[m.processOrder.getD level 0]? = some (m.itemsAt level) := by
  rw [List.getElem?_map, (hord.triple hl).1]
  rfl

/-- The names stand for elements. -/
def NamesLive (c : Cells) (R : String → Option ReplCounter) : Prop :=
  ∀ name r, R name = some r → Live c r.addr

theorem NamesLive.ref {c : Cells} (h : NamesLive c R) (ha : Live c a) :
    NamesLive c (refReplacement item a R) := by
  intro name r hr
  rcases refReplacement_cases hr with ⟨r0, hr0, he⟩ | ⟨_, _, he⟩
  · exact he ▸ h name r0 hr0
  · exact he ▸ ha

/-- An element that is known as the edge of the triple to be matched is an arc. -/
def SearchSetup.ArcEdge (m : SearchSetup) (R : String → Option ReplCounter) (level : ℕ) : Prop :=
  let edge := searchResolveAddr R (m.itemsAt level).edge
  Live m.cells edge → (m.cells edge).isArc = true

/-- The condition of a run, for the path of a state. -/
def SearchSetup.ArcPath (m : SearchSetup) (path : List (Triple ScAddr)) : Prop :=
  m.asserts = false → m.ArcEdge (m.replsOf path) path.length

/-- The condition of a run, for the state before a round. It matters where assertions are left out. -/
def SearchSetup.ArcStep (m : SearchSetup) (s : SearchState) : Prop :=
  m.asserts = false → s.newIteration = true → m.ArcEdge s.repls s.iterators.length

theorem arcPath_of_arcStep (s : SearchState) (k : Machine (Triple ScAddr)) (hm : m.Matches s k)
    (hf : k.fresh = true) (h : m.ArcStep s) : m.ArcPath k.choices := by
  intro hasserts
  have harc := h hasserts (hm.newIteration.trans hf)
  rw [hm.repls, hm.iterators, List.length_map] at harc
  unfold Machine.choices at harc ⊢
  rwa [List.length_map]

/-- By induction on the levels: what is found are arcs and their ends. -/
theorem namesLive_of_frames (hc : ArcsOk m.cells) (hasserts : m.asserts = false)
    {frames : List (Triple ScAddr × List (Triple ScAddr))} (h : m.problem.FramesOk m.ArcPath frames) :
    NamesLive m.cells (m.replsOf (frames.map Prod.fst)) := by
  induction h with
  | nil => exact fun name r hr => by cases hr
  | @cons below f it cs _ hopen harc hmem _ _ ih =>
    have hfound := foundBy_of_opens hc hopen hmem
    have hedge : LiveArc m.cells f.edge := by
      by_cases he : searchResolveAddr (m.replsOf (below.map Prod.fst))
          (m.itemsAt (below.map Prod.fst).length).edge = ScAddr.empty
      · exact (hfound.arc he).1
      · obtain ⟨hf, hlive, _⟩ := hfound.edge he
        rw [hf]
        exact ⟨hlive, harc hasserts hlive⟩
    have hsource : Live m.cells f.source := hfound.ends.1 ▸ hc.endpoint f.edge .out hedge
    have htarget : Live m.cells f.target := hfound.ends.2 ▸ hc.endpoint f.edge .inp hedge
    exact ((ih.ref hsource).ref hedge.1).ref htarget

/-- A level whose triple is anchored by the levels below it is stopped only by an assertion. -/
theorem opens_anchored (hc : ArcsOk m.cells) (hord : m.Ordered) (hdata : ItemsOk m.data ps)
    (hn : path.length < m.data.triples.length)
    (hanch : Anchored (m.data.triples.map m.data.items) (m.processOrder.take path.length)
      (m.processOrder.getD path.length 0))
    (hlive : m.asserts = false → NamesLive m.cells (m.replsOf path)) {e : SearchStop}
    (hopen : m.problem.opens path = .error e) : m.asserts = true ∧ e = .thrown .assertion := by
  obtain ⟨t, ht, value, hv, hcase⟩ := hanch
  obtain rfl := Option.some.inj ((hord.items hn).symm.trans ht)
  have hitem : ∃ i, value = m.data.element i := by
    unfold SearchSetup.itemsAt ScTemplateData.items Triple.map Triple.toList at hv
    simp only [List.mem_cons, List.not_mem_nil, or_false] at hv
    rcases hv with rfl | rfl | rfl <;> exact ⟨_, rfl⟩
  obtain ⟨i, rfl⟩ := hitem
  have hopen' : m.openIterator (m.replsOf path) (m.itemsAt path.length) = .error e := hopen
  unfold SearchSetup.openIterator at hopen'
  by_cases hfails : m.asserts = true ∧
      (m.itemsAt path.length).toList.any (resolveFails (m.replsOf path)) = true
  · rw [if_pos hfails] at hopen'
    exact ⟨hfails.1, (Except.error.inj hopen').symm⟩
  rw [if_neg hfails] at hopen'
  cases hparams : createIterator (m.replsOf path) (m.itemsAt path.length) with
  | none =>
    exfalso
    have hempty := createIterator_none hparams _ hv
    have haddr (hk : (m.data.element i).kind = .addr) : False := by
      rw [resolve_addr hk] at hempty
      exact (hdata.addrs i hk).1 hempty
    rcases hcase with hk | ⟨hname, j, hj, u, hu, other, hother, hsame⟩
    · exact haddr hk
    · -- the name is known from the level of the other triple
      obtain ⟨level, hlt, rfl⟩ := List.mem_iff_getElem.mp hj
      have hlen : level < path.length := by
        rw [List.length_take] at hlt
        omega
      have hget : (m.processOrder.take path.length)[level] = m.processOrder.getD level 0 := by
        rw [List.getElem_take, List.getD_eq_getElem]
      rw [hget, hord.items (lt_trans hlen hn)] at hu
      obtain rfl := Option.some.inj hu
      have hothername : other.hasReplacementName = true := by
        unfold ScTemplateArg.hasReplacementName at hname ⊢
        rw [hsame]
        exact hname
      have hknown := replsOf_isSome hlen hother hothername
      rw [hsame] at hknown
      obtain ⟨r, hr⟩ := Option.isSome_iff_exists.mp hknown
      cases hk : (m.data.element i).kind with
      | addr => exact haddr hk
      | replace => exact hdata.kinds i hk
      | type =>
        unfold searchResolveAddr at hempty
        rw [hk] at hempty
        simp only [hname, if_true, hr, Option.map_some, Option.getD_some] at hempty
        cases hasserts : m.asserts with
        | true =>
          apply hfails
          refine ⟨hasserts, List.any_eq_true.mpr ⟨_, hv, ?_⟩⟩
          unfold resolveFails isInvalid
          rw [hk, hname, hr]
          simpa using hempty
        | false => exact hc.notEmpty (hempty ▸ hlive hasserts _ r hr)
  | some params =>
    rw [hparams] at hopen'
    simp only at hopen'
    cases hit : iterator3 m.cells m.ctx params with
    | none =>
      rw [hit] at hopen'
      simp only at hopen'
      cases hasserts : m.asserts with
      | true =>
        rw [hasserts] at hopen'
        exact ⟨rfl, (Except.error.inj hopen').symm⟩
      | false =>
        rw [hasserts] at hopen'
        cases hopen'
    | some it =>
      rw [hit] at hopen'
      cases hopen'

/-- A round of a search over an anchored order is stopped only by an assertion. -/
theorem round_anchored (hc : ArcsOk m.cells) (hord : m.Ordered) (hdata : ItemsOk m.data ps)
    (hanch : AnchoredInOrder (m.data.triples.map m.data.items) m.processOrder)
    {s : SearchState} {k : Machine (Triple ScAddr)} (hm : m.Matches s k) (hrun : k.Running)
    (hlive : m.asserts = false → NamesLive m.cells (m.replsOf k.choices)) {e : SearchStop}
    (hround : m.round s = .error e) : m.asserts = true ∧ e = .thrown .assertion := by
  have hsim := hm.round hord hrun
  cases hk : m.problem.round k with
  | ok r =>
    rw [hk] at hsim
    obtain ⟨s', hs', _⟩ := hsim
    rw [hround] at hs'
    cases hs'
  | error e' =>
    rw [hk] at hsim
    obtain rfl := Except.error.inj (hround.symm.trans hsim)
    -- the round has opened a level
    unfold Problem.round at hk
    split_ifs at hk with hfresh
    · cases hopen : m.problem.opens k.choices with
      | ok it =>
        rw [hopen] at hk
        cases hk
      | error e =>
        rw [hopen] at hk
        obtain rfl := Except.error.inj hk
        have hroom : k.choices.length < m.data.triples.length := by
          unfold Machine.choices
          rw [List.length_map]
          exact hm.room hfresh
        exact opens_anchored hc hord hdata hroom
          (hanch _ (by rw [List.length_map]; exact hroom)) hlive hopen
    · split at hk <;> cases hk

/-- In every memory state and for every template that can be arranged: the order reaches every triple with
something known exactly when the rounds that make it meet their condition. Then they stay inside their
vectors, and the search stops at nothing but an assertion; without assertions, as long as what it takes
for an edge is an arc. -/
theorem search_anchored {thread : ℕ} {st : ScStorage} (evs : List StoreEvent)
    (hr : Run (OwnStep thread) ScStorage.empty evs st) (asserts : Bool) (lib : LibraryOrder) (ctx : ScContext)
    {data : ScTemplateData} (hdata : Built data) (hsolv : Solvable (data.triples.map data.items))
    (hne : 0 < data.triples.length) (struct : ScAddr) {m : SearchSetup}
    (hm : m = searchSetup asserts lib st.cell ctx data struct) :
    (AnchoredInOrder (data.triples.map data.items) m.processOrder ↔ ∀ k, k+1 < data.triples.length →
      (orderAfter lib (data.triples.map data.items) k).RoundOk (data.triples.map data.items)) ∧
    ((∀ k, k+1 < data.triples.length →
      (orderAfter lib (data.triples.map data.items) k).RoundOk (data.triples.map data.items)) →
      (∀ k, k+1 < data.triples.length →
        (orderAfter lib (data.triples.map data.items) k).left ≠ []) ∧
      ((∀ founds s, Run m.Step m.reset founds s → m.ArcStep s) →
        ∀ rounds calls e, (m.results rounds calls m.reset).2 = .stopped e →
          asserts = true ∧ e = .thrown .assertion)) := by
  subst hm
  have hc := (ownRun_storeOk evs st hr).cells.arcs
  have hlen : (data.triples.map data.items).length = data.triples.length := List.length_map _
  have hkind : ∀ t ∈ data.triples.map data.items, ∀ value ∈ t.toList, value.kind ≠ .replace := by
    intro t ht value hv
    obtain ⟨ids, _, rfl⟩ := List.mem_map.mp ht
    simp only [ScTemplateData.items, Triple.map, Triple.toList, List.mem_cons, List.not_mem_nil,
      or_false] at hv
    rcases hv with rfl | rfl | rfl <;> exact hdata.itemsOk.kinds _
  have hiff := anchoredInOrder_iff lib hkind hsolv (hlen ▸ hne)
  rw [hlen] at hiff
  refine ⟨hiff, fun hrounds => ⟨?_, ?_⟩⟩
  · intro k hk
    obtain ⟨hinv, _⟩ := orderAfter_inv lib (hlen ▸ hne) k (by rw [hlen]; omega)
    obtain ⟨head, rest, hl, _⟩ := hinv.left_cons (by rw [hlen]; exact hk)
    rw [hl]
    exact List.cons_ne_nil _ _
  · intro hedges rounds calls e hend
    have hord : (searchSetup asserts lib st.cell ctx data struct).Ordered := searchSetup_ordered lib struct hne
    obtain ⟨founds, s, hrun, hstop⟩ := results_stopped hord (matches_reset hord) (Or.inr rfl) hend
    rcases hstop with ⟨hrunning, hround⟩ | hmake
    · obtain ⟨k, hmatch, hframes⟩ := run_matches hord _ _ arcPath_of_arcStep founds
        (run_with _ founds _ _ hedges hrun)
      exact round_anchored hc hord hdata.itemsOk (hiff.mpr hrounds) hmatch (hmatch.running.mp hrunning)
        (fun hasserts => namesLive_of_frames hc hasserts hframes) hround
    · exact makeResult_stopped hmake

end

def nodeItem (name : String) : ScTemplateArg := .ofType scTypeNodeVar name

def arcItem : ScTemplateArg := .ofType scTypeEdgeAccessVarPosPerm ""

/-- A chain of two triples. -/
def chainTriples : Except ScException ScTemplateData :=
  ScTemplateData.empty.addTriples [⟨.ofAddr ⟨0, 1⟩ "", arcItem, nodeItem "_x"⟩,
    ⟨.ofName "_x", arcItem, nodeItem "_y"⟩]

theorem built_addTriples {d d' : ScTemplateData} (h : Built d) (l : List (Triple ScTemplateArg))
    (hadd : d.addTriples l = .ok d') : Built d' := by
  induction l generalizing d with
  | nil =>
    obtain rfl := Except.ok.inj hadd
    exact h
  | cons args l ih =>
    obtain ⟨d1, h1, h2⟩ := StateExcept.bind_ok hadd
    exact ih (Built.triple args h h1) h2

theorem search_anchored_chain :
    (orderAfter insertionLibrary ((templateOf chainTriples).triples.map
      (templateOf chainTriples).items) 0).left ≠ [] ∧
    ((exampleSearch (templateOf chainTriples)).results 3 2
      (exampleSearch (templateOf chainTriples)).reset).2 ≠ .stopped .outOfRange := by
  have htriples : (templateOf chainTriples).triples.map (templateOf chainTriples).items =
      [⟨.ofAddr ⟨0, 1⟩ "", arcItem, nodeItem "_x"⟩, ⟨nodeItem "_x", arcItem, nodeItem "_y"⟩] := by
    decide +kernel
  have hlen : (templateOf chainTriples).triples.length = 2 := by decide +kernel
  have hfirst : Anchored ((templateOf chainTriples).triples.map (templateOf chainTriples).items) [] 0 := by
    rw [htriples]
    exact ⟨_, rfl, _, List.mem_cons_self, Or.inl rfl⟩
  have hsecond :
      Anchored ((templateOf chainTriples).triples.map (templateOf chainTriples).items) [0] 1 := by
    rw [htriples]
    exact ⟨_, rfl, _, List.mem_cons_self, Or.inr ⟨by decide, 0, List.mem_cons_self, _, rfl, _,
      List.mem_cons_of_mem _ (List.mem_cons_of_mem _ List.mem_cons_self), rfl⟩⟩
  have hsolv : Solvable ((templateOf chainTriples).triples.map (templateOf chainTriples).items) := by
    refine ⟨[0, 1], ?_, ?_⟩
    · rw [List.length_map, hlen]
      exact List.Perm.refl _
    · intro k hk
      rw [List.length_map, hlen] at hk
      interval_cases k
      · exact hfirst
      · exact hsecond
  have hbuilt : Built (templateOf chainTriples) :=
    built_addTriples Built.empty _ (templateOf_ok (by decide +kernel))
  have hround : ∀ k, k+1 < (templateOf chainTriples).triples.length →
      (orderAfter insertionLibrary ((templateOf chainTriples).triples.map
        (templateOf chainTriples).items) k).RoundOk
          ((templateOf chainTriples).triples.map (templateOf chainTriples).items) := by
    intro k hk
    rw [hlen] at hk
    obtain rfl : k = 0 := by omega
    have hcache : (orderAfter insertionLibrary ((templateOf chainTriples).triples.map
        (templateOf chainTriples).items) 0).cache = [0] := by decide +kernel
    have hleft : (orderAfter insertionLibrary ((templateOf chainTriples).triples.map
        (templateOf chainTriples).items) 0).left.headD 0 = 1 := by decide +kernel
    left
    rw [hcache, hleft]
    exact hsecond
  obtain ⟨hrange, hstop⟩ := (search_anchored nodesWithArc nodesWithArc_run true insertionLibrary
    exampleContext hbuilt hsolv (by rw [hlen]; decide) ScAddr.empty rfl).2 hround
  have harcs : ∀ founds s, Run (exampleSearch (templateOf chainTriples)).Step
      (exampleSearch (templateOf chainTriples)).reset founds s →
        (exampleSearch (templateOf chainTriples)).ArcStep s :=
    fun _ _ _ hasserts => Bool.noConfusion hasserts
  refine ⟨hrange 0 (by rw [hlen]; decide), fun h => ?_⟩
  exact absurd (hstop harcs 3 2 _ h).2 (by decide)

/-- Two ends of arcs that begin at nodes which two branches from `_x` lead to, and then the branches. -/
def branchTriples : Except ScException ScTemplateData :=
  ScTemplateData.empty.addTriples [⟨.ofAddr ⟨0, 1⟩ "", arcItem, nodeItem "_x"⟩,
    ⟨nodeItem "_p", arcItem, nodeItem "_q"⟩, ⟨nodeItem "_r", arcItem, nodeItem "_s"⟩,
    ⟨.ofName "_x", arcItem, .ofName "_p"⟩, ⟨.ofName "_x", arcItem, .ofName "_r"⟩]

/-- Four nodes and an arc from each to the next. -/
def chainOfNodes : List StoreEvent :=
  [⟨exampleEnv, .call (.nodeNew exampleContext (scTypeNode ||| scTypeConst))⟩,
    ⟨exampleEnv, .call (.nodeNew exampleContext (scTypeNode ||| scTypeConst))⟩,
    ⟨exampleEnv, .call (.nodeNew exampleContext (scTypeNode ||| scTypeConst))⟩,
    ⟨exampleEnv, .call (.nodeNew exampleContext (scTypeNode ||| scTypeConst))⟩,
    ⟨exampleEnv, .call (.arcNew exampleContext scTypeEdgeAccessConstPosPerm ⟨0, 1⟩ ⟨0, 33⟩)⟩,
    ⟨exampleEnv, .call (.arcNew exampleContext scTypeEdgeAccessConstPosPerm ⟨0, 33⟩ ⟨0, 65⟩)⟩,
    ⟨exampleEnv, .call (.arcNew exampleContext scTypeEdgeAccessConstPosPerm ⟨0, 65⟩ ⟨0, 97⟩)⟩]

/-- A round in which the set is iterated in the order of the list. -/
def roundWith (triples : List (Triple ScTemplateArg)) (set : List ℕ) (s : OrderState) : OrderState :=
  let r := raiseScores s.cache set s.tripleScores (s.left.headD 0)
  ⟨r.2 :: s.cache, s.left, r.1, (resolvedTriples triples (lastNames triples s) s.usedReplacements).2⟩

/-- What `n` rounds can take up, for all orders in which the sets can be iterated. -/
def cachesAfter (triples : List (Triple ScTemplateArg)) : ℕ → OrderState → List (List ℕ)
  | 0, s => [s.cache]
  | n + 1, s => (s.resolved triples).dedup.permutations'.flatMap fun set =>
      cachesAfter triples n (roundWith triples set s)

theorem mem_cachesAfter (lib : LibraryOrder) (triples : List (Triple ScTemplateArg)) (n : ℕ)
    (s : OrderState) : ((orderRound lib triples)^[n] s).cache ∈ cachesAfter triples n s := by
  induction n generalizing s with
  | zero => exact List.mem_singleton_self _
  | succ n ih =>
    have hset : lib.setOrder (s.resolved triples) ∈ (s.resolved triples).dedup.permutations' :=
      List.mem_permutations'.mpr (lib.setOrder_perm _)
    exact List.mem_flatMap.mpr ⟨_, hset, ih (orderRound lib triples s)⟩

/-- After either branch nothing is raised but what it leads to, and the next triple in the order has
nothing known. -/
theorem branch_not_anchored : ∃ (evs : List StoreEvent) (st : ScStorage) (ctx : ScContext)
    (data : ScTemplateData), Run (OwnStep 1) ScStorage.empty evs st ∧ Built data ∧
      Solvable (data.triples.map data.items) ∧ ∀ (asserts : Bool) (lib : LibraryOrder),
        lib.sort = insertionLibrary.sort →
        ((searchSetup asserts lib st.cell ctx data ScAddr.empty).results 4 1
          (searchSetup asserts lib st.cell ctx data ScAddr.empty).reset).2 =
            .stopped (.thrown (.invalidState "Invalid state during template search")) := by
  have hrun : Run (OwnStep 1) ScStorage.empty chainOfNodes
      (stateAfterEvents chainOfNodes ScStorage.empty) :=
    ownRun_of_ownEvents chainOfNodes ScStorage.empty (by decide +kernel)
  have hbuilt : Built (templateOf branchTriples) :=
    built_addTriples Built.empty _ (templateOf_ok (by decide +kernel))
  have htriples : (templateOf branchTriples).triples.map (templateOf branchTriples).items =
      [⟨.ofAddr ⟨0, 1⟩ "", arcItem, nodeItem "_x"⟩, ⟨nodeItem "_p", arcItem, nodeItem "_q"⟩,
        ⟨nodeItem "_r", arcItem, nodeItem "_s"⟩, ⟨nodeItem "_x", arcItem, nodeItem "_p"⟩,
        ⟨nodeItem "_x", arcItem, nodeItem "_r"⟩] := by
    decide +kernel
  have hsolv : Solvable ((templateOf branchTriples).triples.map (templateOf branchTriples).items) := by
    rw [htriples]
    refine ⟨[0, 3, 4, 1, 2], by decide, ?_⟩
    intro k hk
    have hlast {x : ScTemplateArg} (y z : ScTemplateArg) : x ∈ [y, z, x] := by simp
    have hk : k < 5 := hk
    interval_cases k
    · exact ⟨_, rfl, _, List.mem_cons_self, Or.inl rfl⟩
    · exact ⟨_, rfl, _, List.mem_cons_self, Or.inr ⟨by decide, 0, by decide, _, rfl, _, hlast _ _, rfl⟩⟩
    · exact ⟨_, rfl, _, List.mem_cons_self, Or.inr ⟨by decide, 0, by decide, _, rfl, _, hlast _ _, rfl⟩⟩
    · exact ⟨_, rfl, _, List.mem_cons_self, Or.inr ⟨by decide, 3, by decide, _, rfl, _, hlast _ _, rfl⟩⟩
    · exact ⟨_, rfl, _, List.mem_cons_self, Or.inr ⟨by decide, 4, by decide, _, rfl, _, hlast _ _, rfl⟩⟩
  refine ⟨chainOfNodes, _, exampleContext, templateOf branchTriples, hrun, hbuilt, hsolv, ?_⟩
  intro asserts lib hsort
  -- whichever branch is taken up first, the end of the other one comes before it
  have horder : updateSearchCache lib ((templateOf branchTriples).triples.map
      (templateOf branchTriples).items) = [0, 3, 1, 2, 4] ∨
      updateSearchCache lib ((templateOf branchTriples).triples.map
        (templateOf branchTriples).items) = [0, 4, 2, 1, 3] := by
    have hcaches : ∀ cache ∈ cachesAfter ((templateOf branchTriples).triples.map
        (templateOf branchTriples).items) 4 (orderStart ((templateOf branchTriples).triples.map
          (templateOf branchTriples).items) 0 [1, 2, 3, 4]),
        cache.reverse = [0, 3, 1, 2, 4] ∨ cache.reverse = [0, 4, 2, 1, 3] := by decide +kernel
    have hsorted : lib.sort (fun i => (((templateOf branchTriples).triples.map
        (templateOf branchTriples).items)[i]?.map calculateScore).getD 0) (List.range
          ((templateOf branchTriples).triples.map (templateOf branchTriples).items).length) =
        [0, 1, 2, 3, 4] := by
      rw [hsort]
      decide +kernel
    have hlen : ((templateOf branchTriples).triples.map (templateOf branchTriples).items).length = 5 := by
      rw [htriples]
      rfl
    have hmem := mem_cachesAfter lib ((templateOf branchTriples).triples.map
      (templateOf branchTriples).items) 4 (orderStart ((templateOf branchTriples).triples.map
        (templateOf branchTriples).items) 0 [1, 2, 3, 4])
    unfold updateSearchCache
    dsimp only
    rw [hsorted, hlen]
    exact hcaches _ hmem
  unfold searchSetup
  rcases horder with horder | horder
  · rw [horder]
    cases asserts <;> decide +kernel
  · rw [horder]
    cases asserts <;> decide +kernel

end ScMachine.Template
