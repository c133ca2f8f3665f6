import ScMachine.ScTemplate
import ScMachine.StateExcept

/-! What holds of every template that is built triple by triple: its names and the addresses of its
items stand for one item each, and an item without a name has one place. -/
namespace ScMachine.Template
open ScMachine.Store ScMachine.StateExcept

/-- The templates that calls of `Triple`, `TripleWithRelation` and `SetupReplAlias` build. -/
inductive Built : ScTemplateData → Prop
  | empty : Built ScTemplateData.empty
  | triple {d d' : ScTemplateData} (args : Triple ScTemplateArg) :
      Built d → d.addTriple args = .ok d' → Built d'
  | replAlias {asserts : Bool} {d d' : ScTemplateData} (replName newAlias : String) :
      Built d → d.setupReplAlias asserts replName newAlias = .ok d' → Built d'

/-- An item that nothing but its place tells from the others. -/
def ScTemplateArg.isAnonymous (arg : ScTemplateArg) : Bool :=
  arg.kind == .type && !arg.hasReplacementName

/-- The items at the places of the triples. -/
def places (triples : List (Triple ℕ)) : List ℕ := triples.flatMap Triple.toList

/-- `ps` are the places that have been given items. -/
structure ItemsOk (d : ScTemplateData) (ps : List ℕ) : Prop where
  range : ∀ i ∈ ps, i < d.elements.length
  kinds : ∀ i, (d.element i).kind ≠ .replace
  addrs : ∀ i, (d.element i).kind = .addr → (d.element i).addrValue ≠ ScAddr.empty ∧
    d.repl (d.element i).addrValue.toString = some i
  named : ∀ i, (d.element i).hasReplacementName = true → d.repl (d.element i).replacementName = some i
  target : ∀ name i, d.repl name = some i → i < d.elements.length ∧
    (d.element i).isAnonymous = false
  notConst : ∀ i, (d.element i).kind = .type → (d.element i).typeValue.isConst = false
  once : (ps.filter fun i => (d.element i).isAnonymous).Nodup

/-- A name is that of one item. -/
def NamesUnique (data : ScTemplateData) : Prop :=
  ∀ i j, (data.element i).hasReplacementName = true →
    (data.element j).replacementName = (data.element i).replacementName → i = j

section
variable {d d' : ScTemplateData} {ps : List ℕ} {i j : ℕ} {name : String} {value : ScTemplateArg}

theorem insertName_mono (repl : String → Option ℕ) (m : String) (j : ℕ) (h : repl name = some i) :
    insertName repl m j name = some i := by
  unfold insertName
  split_ifs with hm
  · exact h
  · have hne : name ≠ m := by
      rintro rfl
      rw [h] at hm
      exact hm rfl
    rw [Function.update_of_ne hne]
    exact h

theorem insertName_self (repl : String → Option ℕ) (m : String) (j : ℕ) (h : repl m = none) :
    insertName repl m j m = some j := by
  unfold insertName
  rw [h]
  simp

theorem insertName_some (repl : String → Option ℕ) (m : String) (j : ℕ)
    (h : insertName repl m j name = some i) : repl name = some i ∨ i = j := by
  unfold insertName at h
  split_ifs at h with hm
  · exact Or.inl h
  · by_cases hne : name = m
    · rw [hne, Function.update_self] at h
      exact Or.inr (Option.some.inj h).symm
    · rw [Function.update_of_ne hne] at h
      exact Or.inl h

theorem insertReplacementName_mono (repl : String → Option ℕ) (j : ℕ) (h : repl name = some i) :
    insertReplacementName value repl j name = some i := by
  unfold insertReplacementName
  split_ifs
  · exact insertName_mono repl _ j h
  · exact h

theorem insertReplacementName_some (repl : String → Option ℕ) (j : ℕ)
    (h : insertReplacementName value repl j name = some i) : repl name = some i ∨ i = j := by
  unfold insertReplacementName at h
  split_ifs at h
  · exact insertName_some repl _ j h
  · exact Or.inl h

theorem element_append_lt (l : List ScTemplateArg) (repl : String → Option ℕ) (t : List (Triple ℕ))
    (h : i < d.elements.length) :
    ScTemplateData.element ⟨repl, d.elements ++ l, t⟩ i = d.element i := by
  unfold ScTemplateData.element
  rw [List.getD_append _ _ _ _ h]

theorem element_append_self (repl : String → Option ℕ) (t : List (Triple ℕ)) :
    ScTemplateData.element ⟨repl, d.elements ++ [value], t⟩ d.elements.length = value := by
  unfold ScTemplateData.element
  rw [List.getD_append_right _ _ _ _ (le_refl _)]
  simp

/-- Behind the end there is an item without a name. -/
theorem element_of_le (h : d.elements.length ≤ i) : d.element i = .ofType 0 "" := by
  unfold ScTemplateData.element
  rw [List.getD_eq_default _ _ h]

theorem itemsOk_empty : ItemsOk ScTemplateData.empty [] := by
  have hel (i : ℕ) : ScTemplateData.empty.element i = .ofType 0 "" := element_of_le (Nat.zero_le i)
  refine ⟨by simp, ?_, ?_, ?_, ?_, ?_, by simp⟩
  · intro i
    rw [hel]
    decide
  · intro i h
    rw [hel] at h
    exact absurd h (by decide)
  · intro i h
    rw [hel] at h
    exact absurd h (by decide)
  · intro name i h
    exact absurd h (by simp [ScTemplateData.empty])
  · intro i _
    rw [hel]
    decide

/-- An item is put behind the others, and new names are entered for it. -/
theorem ItemsOk.push (h : ItemsOk d ps) (repl : String → Option ℕ)
    (hmono : ∀ name i, d.repl name = some i → repl name = some i)
    (hnew : ∀ name i, repl name = some i → d.repl name = some i ∨
      i = d.elements.length ∧ value.isAnonymous = false)
    (hkind : value.kind ≠ .replace)
    (haddr : value.kind = .addr → value.addrValue ≠ ScAddr.empty ∧
      repl value.addrValue.toString = some d.elements.length)
    (hname : value.hasReplacementName = true →
      repl value.replacementName = some d.elements.length)
    (hconst : value.kind = .type → value.typeValue.isConst = false) :
    ItemsOk ⟨repl, d.elements ++ [value], d.triples⟩ (ps ++ [d.elements.length]) := by
  have hlt (i : ℕ) (hi : i < d.elements.length) :
      ScTemplateData.element ⟨repl, d.elements ++ [value], d.triples⟩ i = d.element i :=
    element_append_lt _ _ _ hi
  have hself : ScTemplateData.element ⟨repl, d.elements ++ [value], d.triples⟩ d.elements.length =
      value := element_append_self _ _
  have hgt (i : ℕ) (hi : d.elements.length < i) :
      ScTemplateData.element ⟨repl, d.elements ++ [value], d.triples⟩ i = d.element i := by
    rw [element_of_le hi.le, element_of_le]
    simpa using hi
  -- an item is the new one or one of the old ones
  have hcases (P : ℕ → ScTemplateArg → Prop) (hold : ∀ i, P i (d.element i))
      (hv : P d.elements.length value) (i : ℕ) :
      P i (ScTemplateData.element ⟨repl, d.elements ++ [value], d.triples⟩ i) := by
    rcases lt_trichotomy i d.elements.length with hi | rfl | hi
    · rw [hlt i hi]
      exact hold i
    · rw [hself]
      exact hv
    · rw [hgt i hi]
      exact hold i
  refine ⟨?_, ?_, ?_, ?_, ?_, ?_, ?_⟩
  · intro i hi
    rw [List.length_append, List.length_singleton]
    rcases List.mem_append.mp hi with hi | hi
    · exact lt_trans (h.range i hi) (Nat.lt_succ_self _)
    · rw [List.mem_singleton.mp hi]
      exact Nat.lt_succ_self _
  · exact hcases (fun _ v => v.kind ≠ .replace) h.kinds hkind
  · apply hcases (fun i v => v.kind = .addr → v.addrValue ≠ ScAddr.empty ∧
      repl v.addrValue.toString = some i) _ haddr
    intro i hi
    exact ⟨(h.addrs i hi).1, hmono _ _ (h.addrs i hi).2⟩
  · apply hcases (fun i v => v.hasReplacementName = true → repl v.replacementName = some i) _ hname
    intro i hi
    exact hmono _ _ (h.named i hi)
  · intro name i hi
    rw [List.length_append, List.length_singleton]
    rcases hnew name i hi with hi | ⟨rfl, hv⟩
    · obtain ⟨hr, ha⟩ := h.target name i hi
      rw [hlt i hr]
      exact ⟨lt_trans hr (Nat.lt_succ_self _), ha⟩
    · rw [hself]
      exact ⟨Nat.lt_succ_self _, hv⟩
  · exact hcases (fun _ v => v.kind = .type → v.typeValue.isConst = false) h.notConst hconst
  · have hold : (ps.filter fun i =>
        (ScTemplateData.element ⟨repl, d.elements ++ [value], d.triples⟩ i).isAnonymous) =
        ps.filter fun i => (d.element i).isAnonymous := by
      apply List.filter_congr
      intro i hi
      rw [hlt i (h.range i hi)]
    rw [List.filter_append, hold]
    apply List.Nodup.append h.once (List.Nodup.filter _ (List.nodup_singleton _))
    intro i hi hi'
    have hlen := List.mem_singleton.mp (List.mem_filter.mp hi').1
    have hr := h.range i (List.mem_filter.mp hi).1
    omega

theorem ItemsOk.use (h : ItemsOk d ps) (hi : d.repl name = some i) : ItemsOk d (ps ++ [i]) := by
  obtain ⟨hr, ha⟩ := h.target name i hi
  refine ⟨?_, h.kinds, h.addrs, h.named, h.target, h.notConst, ?_⟩
  · intro j hj
    rcases List.mem_append.mp hj with hj | hj
    · exact h.range j hj
    · rw [List.mem_singleton.mp hj]
      exact hr
  · rw [List.filter_append, List.filter_singleton, ha]
    simpa using h.once

/-- What the item of a call becomes: it is put behind the others and entered under its names, or it is
one that was entered before. -/
inductive AddedItem (d : ScTemplateData) (value : ScTemplateArg) : ℕ → ScTemplateData → Prop
  | addr : value.kind = .addr → value.addrValue ≠ ScAddr.empty →
      d.repl value.addrValue.toString = none →
      (value.hasReplacementName = true → d.repl value.replacementName = none) →
      AddedItem d value d.elements.length
        ⟨insertReplacementName value (insertName d.repl value.addrValue.toString d.elements.length)
          d.elements.length, d.elements ++ [value], d.triples⟩
  | type : value.kind = .type → value.typeValue.isConst = false →
      (value.hasReplacementName = true → d.repl value.replacementName = none) →
      AddedItem d value d.elements.length
        ⟨insertReplacementName value d.repl d.elements.length, d.elements ++ [value], d.triples⟩
  | knownAddr (i : ℕ) : value.kind = .addr → d.repl value.addrValue.toString = some i →
      (value.hasReplacementName = true → d.repl value.replacementName = none) → AddedItem d value i d
  | knownName (i : ℕ) : value.kind = .replace → d.repl value.replacementName = some i →
      AddedItem d value i d

theorem addItem_added (hadd : d.addItem value = .ok (i, d')) : AddedItem d value i d' := by
  unfold ScTemplateData.addItem at hadd
  split_ifs at hadd with hconst hempty hrepl
  have hname (hk : value.kind ≠ .replace) (hv : value.hasReplacementName = true) :
      d.repl value.replacementName = none := by
    by_contra hne
    exact hrepl ⟨hk, hv, Option.isSome_iff_ne_none.mpr hne⟩
  cases hk : value.kind with
  | addr =>
    rw [hk] at hadd
    simp only at hadd
    have hnew := hname (by rw [hk]; decide)
    cases hreg : d.repl value.addrValue.toString with
    | some j =>
      rw [hreg] at hadd
      obtain ⟨rfl, rfl⟩ := Prod.mk.inj (Except.ok.inj hadd)
      exact AddedItem.knownAddr _ hk hreg hnew
    | none =>
      rw [hreg] at hadd
      obtain ⟨rfl, rfl⟩ := Prod.mk.inj (Except.ok.inj hadd)
      exact AddedItem.addr hk (fun he => hempty ⟨hk, he⟩) hreg hnew
  | type =>
    rw [hk] at hadd
    obtain ⟨rfl, rfl⟩ := Prod.mk.inj (Except.ok.inj hadd)
    refine AddedItem.type hk ?_ (hname (by rw [hk]; decide))
    by_contra hc
    exact hconst ⟨hk, by simpa using hc⟩
  | replace =>
    rw [hk] at hadd
    simp only at hadd
    cases hreg : d.repl value.replacementName with
    | none =>
      rw [hreg] at hadd
      cases hadd
    | some j =>
      rw [hreg] at hadd
      obtain ⟨rfl, rfl⟩ := Prod.mk.inj (Except.ok.inj hadd)
      exact AddedItem.knownName _ hk hreg

theorem ItemsOk.addItem (h : ItemsOk d ps) (hadd : d.addItem value = .ok (i, d')) :
    ItemsOk d' (ps ++ [i]) ∧ d'.triples = d.triples := by
  cases addItem_added hadd with
  | knownAddr _ _ hreg _ => exact ⟨h.use hreg, rfl⟩
  | knownName _ _ hreg => exact ⟨h.use hreg, rfl⟩
  | addr hk hne hreg hname =>
    have hanon : value.isAnonymous = false := by
      unfold ScTemplateArg.isAnonymous
      rw [hk]
      rfl
    have hins := insertName_self d.repl value.addrValue.toString d.elements.length hreg
    refine ⟨h.push _ ?_ ?_ ?_ ?_ ?_ ?_, rfl⟩
    · intro name i hi
      exact insertReplacementName_mono _ _ (insertName_mono _ _ _ hi)
    · intro name i hi
      rcases insertReplacementName_some _ _ hi with hi | hi
      · exact (insertName_some _ _ _ hi).imp_right fun he => ⟨he, hanon⟩
      · exact Or.inr ⟨hi, hanon⟩
    · rw [hk]
      decide
    · exact fun _ => ⟨hne, insertReplacementName_mono _ _ hins⟩
    · intro hv
      unfold insertReplacementName
      rw [if_pos hv]
      by_cases he : value.replacementName = value.addrValue.toString
      · rw [he]
        exact insertName_mono _ _ _ hins
      · apply insertName_self
        have hnone := hname hv
        unfold insertName
        rw [hreg]
        simpa [Function.update_of_ne he] using hnone
    · intro ht
      rw [hk] at ht
      cases ht
  | type hk hconst hname =>
    refine ⟨h.push _ ?_ ?_ ?_ ?_ ?_ (fun _ => hconst), rfl⟩
    · intro name i hi
      exact insertReplacementName_mono _ _ hi
    · intro name i hi
      unfold insertReplacementName at hi
      split_ifs at hi with hv
      · refine (insertName_some _ _ _ hi).imp_right fun he => ⟨he, ?_⟩
        unfold ScTemplateArg.isAnonymous
        rw [hv]
        simp
      · exact Or.inl hi
    · rw [hk]
      decide
    · intro ht
      rw [hk] at ht
      cases ht
    · intro hv
      unfold insertReplacementName
      rw [if_pos hv]
      exact insertName_self _ _ _ (hname hv)

theorem ItemsOk.addTriple (h : ItemsOk d (places d.triples)) {args : Triple ScTemplateArg}
    (hadd : d.addTriple args = .ok d') : ItemsOk d' (places d'.triples) := by
  unfold ScTemplateData.addTriple at hadd
  split_ifs at hadd
  obtain ⟨⟨source, d1⟩, h1, hadd⟩ := bind_ok hadd
  obtain ⟨⟨edge, d2⟩, h2, hadd⟩ := bind_ok hadd
  obtain ⟨⟨target, d3⟩, h3, hadd⟩ := bind_ok hadd
  obtain rfl := Except.ok.inj hadd
  obtain ⟨hok1, ht1⟩ := h.addItem h1
  obtain ⟨hok2, ht2⟩ := hok1.addItem h2
  obtain ⟨hok3, ht3⟩ := hok2.addItem h3
  have hplaces : places (d3.triples ++ [⟨source, edge, target⟩]) =
      places d.triples ++ [source] ++ [edge] ++ [target] := by
    rw [ht3, ht2, ht1]
    simp [places, Triple.toList]
  rw [← hplaces] at hok3
  exact ⟨hok3.range, hok3.kinds, hok3.addrs, hok3.named, hok3.target, hok3.notConst, hok3.once⟩

theorem ItemsOk.setupReplAlias (h : ItemsOk d ps) {asserts : Bool} {replName newAlias : String}
    (hset : d.setupReplAlias asserts replName newAlias = .ok d') :
    ItemsOk d' ps ∧ d'.triples = d.triples := by
  unfold ScTemplateData.setupReplAlias at hset
  split_ifs at hset with hfails
  cases hi : d.repl replName with
  | none =>
    rw [hi] at hset
    obtain rfl := Except.ok.inj hset
    exact ⟨h, rfl⟩
  | some i =>
    rw [hi] at hset
    obtain rfl := Except.ok.inj hset
    refine ⟨⟨h.range, h.kinds, ?_, ?_, ?_, h.notConst, h.once⟩, rfl⟩
    · intro j hj
      exact ⟨(h.addrs j hj).1, insertName_mono _ _ _ (h.addrs j hj).2⟩
    · intro j hj
      exact insertName_mono _ _ _ (h.named j hj)
    · intro name j hj
      rcases insertName_some _ _ _ hj with hold | he
      · exact h.target name j hold
      · rw [he]
        exact h.target replName i hi

/-- Every template that is built is well formed. -/
theorem Built.itemsOk (h : Built d) : ItemsOk d (places d.triples) := by
  induction h with
  | empty => exact itemsOk_empty
  | triple args _ hadd ih => exact ih.addTriple hadd
  | replAlias replName newAlias _ hset ih =>
    obtain ⟨hok, ht⟩ := ih.setupReplAlias hset
    rw [ht]
    exact hok

/-- A name belongs to one item. -/
theorem ItemsOk.name_injective (h : ItemsOk d ps) (hi : (d.element i).hasReplacementName = true)
    (hij : (d.element j).replacementName = (d.element i).replacementName) : i = j := by
  have hj : (d.element j).hasReplacementName = true := by
    unfold ScTemplateArg.hasReplacementName at hi ⊢
    rw [hij]
    exact hi
  have hni := h.named i hi
  have hnj := h.named j hj
  rw [hij] at hnj
  exact Option.some.inj (hni.symm.trans hnj)

theorem ItemsOk.namesUnique (h : ItemsOk d ps) : NamesUnique d :=
  fun _ _ hi hij => h.name_injective hi hij

end

end ScMachine.Template
