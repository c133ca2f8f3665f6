import ScMachine.SearchRuns
import ScMachine.GenerateParameters

/-! What holds of the results of a search. An element that an item has already is never compared with
the one that is found again, so much rests on the kind of iterator. -/
namespace ScMachine.Template
open ScMachine.Store ScMachine.Backtracking ScMachine.Runs

/-- The indices of the items on a level. -/
def SearchSetup.indicesAt (m : SearchSetup) (level : ℕ) : Triple ℕ :=
  m.data.triples.getD (m.processOrder.getD level 0) ⟨0, 0, 0⟩

section
variable {m : SearchSetup} {path : List (Triple ScAddr)} {cs : List (Triple ScAddr)}
  {f : Triple ScAddr} {repls : String → Option ReplCounter} {t : Triple ScTemplateArg}
  {params : Iterator3Params} {ctx : ScContext} {c : Cells}

theorem SearchSetup.itemsAt_eq (m : SearchSetup) (level : ℕ) :
    m.itemsAt level = (m.indicesAt level).map m.data.element := rfl

/-- What an iterator returns for the three places, when what is resolved is `s`, `e` and `d`, the empty
address standing for nothing. -/
structure FoundBy (c : Cells) (ctx : ScContext) (s e d : ScAddr) (t : Triple ScTemplateArg)
    (f : Triple ScAddr) : Prop where
  source : s ≠ ScAddr.empty → f.source = s ∧ Live c s ∧ CanRead ctx c s
  edge : e ≠ ScAddr.empty → f.edge = e ∧ Live c e ∧ CanRead ctx c e
  target : d ≠ ScAddr.empty → f.target = d ∧ Live c d ∧ CanRead ctx c d
  ends : f.source = ownerOf c .out f.edge ∧ f.target = ownerOf c .inp f.edge
  arc : e = ScAddr.empty → LiveArc c f.edge ∧ HasType c f.edge (prepareType t.edge.typeValue) ∧
    (s = ScAddr.empty → HasType c f.source (prepareType t.source.typeValue)) ∧
    (d = ScAddr.empty → HasType c f.target (prepareType t.target.typeValue))
  resolved : e = ScAddr.empty → s ≠ ScAddr.empty ∨ d ≠ ScAddr.empty

/-- The arcs of a list that an iterator yields. -/
theorem mem_arcList_map {l : List ScAddr} {P : ScAddr → Bool}
    (h : f ∈ (l.filter P).map fun x => (⟨ownerOf c .out x, x, ownerOf c .inp x⟩ : Triple ScAddr)) :
    f.edge ∈ l ∧ P f.edge = true ∧ f.source = ownerOf c .out f.edge ∧
      f.target = ownerOf c .inp f.edge := by
  obtain ⟨x, hx, rfl⟩ := List.mem_map.mp h
  obtain ⟨hl, hp⟩ := List.mem_filter.mp hx
  exact ⟨hl, hp, rfl, rfl⟩

/-- The kind of iterator, for what is resolved. -/
inductive IteratorKind (s e d : ScAddr) (t : Triple ScTemplateArg) : Iterator3Params → Prop
  | afa : s = ScAddr.empty → e ≠ ScAddr.empty → d = ScAddr.empty →
      IteratorKind s e d t (.afa (prepareType t.source.typeValue) e (prepareType t.target.typeValue))
  | aaf : s = ScAddr.empty → e = ScAddr.empty → d ≠ ScAddr.empty →
      IteratorKind s e d t (.aaf (prepareType t.source.typeValue) (prepareType t.edge.typeValue) d)
  | aff : s = ScAddr.empty → e ≠ ScAddr.empty → d ≠ ScAddr.empty →
      IteratorKind s e d t (.aff (prepareType t.source.typeValue) e d)
  | faa : s ≠ ScAddr.empty → e = ScAddr.empty → d = ScAddr.empty →
      IteratorKind s e d t (.faa s (prepareType t.edge.typeValue) (prepareType t.target.typeValue))
  | ffa : s ≠ ScAddr.empty → e ≠ ScAddr.empty → d = ScAddr.empty →
      IteratorKind s e d t (.ffa s e (prepareType t.target.typeValue))
  | faf : s ≠ ScAddr.empty → e = ScAddr.empty → d ≠ ScAddr.empty →
      IteratorKind s e d t (.faf s (prepareType t.edge.typeValue) d)
  | fff : s ≠ ScAddr.empty → e ≠ ScAddr.empty → d ≠ ScAddr.empty →
      IteratorKind s e d t (.fff s e d)

theorem iteratorKind_of_create (h : createIterator repls t = some params) :
    IteratorKind (searchResolveAddr repls t.source) (searchResolveAddr repls t.edge)
      (searchResolveAddr repls t.target) t params := by
  unfold createIterator at h
  dsimp only at h
  generalize searchResolveAddr repls t.source = s at h ⊢
  generalize searchResolveAddr repls t.edge = e at h ⊢
  generalize searchResolveAddr repls t.target = d at h ⊢
  split_ifs at h with hs he hd hd hd he he
  · obtain rfl := Option.some.inj h
    exact .faf hs he hd
  · obtain rfl := Option.some.inj h
    exact .faa hs he (not_not.mp hd)
  · obtain rfl := Option.some.inj h
    exact .fff hs he hd
  · obtain rfl := Option.some.inj h
    exact .ffa hs he (not_not.mp hd)
  · obtain rfl := Option.some.inj h
    exact .aff (not_not.mp hs) he hd
  · obtain rfl := Option.some.inj h
    exact .aaf (not_not.mp hs) (not_not.mp he) hd
  · obtain rfl := Option.some.inj h
    exact .afa (not_not.mp hs) he (not_not.mp hd)

theorem foundBy_of_iterator (hc : ArcsOk c)
    (hparams : createIterator repls t = some params) {it : List (Triple ScAddr)}
    (hit : iterator3 c ctx params = some it) (hf : f ∈ it) :
    FoundBy c ctx (searchResolveAddr repls t.source) (searchResolveAddr repls t.edge)
      (searchResolveAddr repls t.target) t f := by
  unfold iterator3 at hit
  dsimp only at hit
  split_ifs at hit with hfixed
  obtain rfl := Option.some.inj hit
  have hkind := iteratorKind_of_create hparams
  generalize searchResolveAddr repls t.source = s at hkind ⊢
  generalize searchResolveAddr repls t.edge = e at hkind ⊢
  generalize searchResolveAddr repls t.target = d at hkind ⊢
  cases hkind with
  | afa hs he hd =>
    have hfe := hfixed e (by simp [Iterator3Params.fixed])
    obtain rfl := List.mem_singleton.mp hf
    exact ⟨fun h => absurd hs h, fun _ => ⟨rfl, hfe⟩, fun h => absurd hd h, ⟨rfl, rfl⟩,
      fun h => absurd h he, fun h => absurd h he⟩
  | aaf hs he hd =>
    have hfd := hfixed d (by simp [Iterator3Params.fixed])
    obtain ⟨hl, hp, hso, hto⟩ := mem_arcList_map hf
    obtain ⟨harc, hown⟩ := ((hc.arcList hfd.1).mem _).mp hl
    obtain ⟨ht1, ht2, _, _⟩ := of_decide_eq_true hp
    exact ⟨fun h => absurd hs h, fun h => absurd he h, fun _ => ⟨hto.trans hown, hfd⟩, ⟨hso, hto⟩,
      fun _ => ⟨harc, ht1, fun _ => hso ▸ ht2, fun h => absurd h hd⟩, fun _ => Or.inr hd⟩
  | aff hs he hd =>
    have hfe := hfixed e (by simp [Iterator3Params.fixed])
    have hfd := hfixed d (by simp [Iterator3Params.fixed])
    dsimp only at hf
    split_ifs at hf with hown
    · obtain rfl := List.mem_singleton.mp hf
      exact ⟨fun h => absurd hs h, fun _ => ⟨rfl, hfe⟩, fun _ => ⟨hown.symm, hfd⟩, ⟨rfl, rfl⟩,
        fun h => absurd h he, fun h => absurd h he⟩
    · exact absurd hf List.not_mem_nil
  | faa hs he hd =>
    have hfs := hfixed s (by simp [Iterator3Params.fixed])
    obtain ⟨hl, hp, hso, hto⟩ := mem_arcList_map hf
    obtain ⟨harc, hown⟩ := ((hc.arcList hfs.1).mem _).mp hl
    obtain ⟨ht1, ht2, _, _⟩ := of_decide_eq_true hp
    exact ⟨fun _ => ⟨hso.trans hown, hfs⟩, fun h => absurd he h, fun h => absurd hd h, ⟨hso, hto⟩,
      fun _ => ⟨harc, ht1, fun h => absurd h hs, fun _ => hto ▸ ht2⟩, fun _ => Or.inl hs⟩
  | ffa hs he hd =>
    have hfs := hfixed s (by simp [Iterator3Params.fixed])
    have hfe := hfixed e (by simp [Iterator3Params.fixed])
    dsimp only at hf
    split_ifs at hf with hown
    · obtain rfl := List.mem_singleton.mp hf
      exact ⟨fun _ => ⟨hown.symm, hfs⟩, fun _ => ⟨rfl, hfe⟩, fun h => absurd hd h, ⟨rfl, rfl⟩,
        fun h => absurd h he, fun h => absurd h he⟩
    · exact absurd hf List.not_mem_nil
  | faf hs he hd =>
    have hfs := hfixed s (by simp [Iterator3Params.fixed])
    have hfd := hfixed d (by simp [Iterator3Params.fixed])
    obtain ⟨hl, hp, hso, hto⟩ := mem_arcList_map hf
    obtain ⟨harc, hown⟩ := ((hc.arcList hfd.1).mem _).mp hl
    obtain ⟨hbeg, ht1, _⟩ := of_decide_eq_true hp
    exact ⟨fun _ => ⟨hso.trans hbeg, hfs⟩, fun h => absurd he h, fun _ => ⟨hto.trans hown, hfd⟩,
      ⟨hso, hto⟩, fun _ => ⟨harc, ht1, fun h => absurd h hs, fun h => absurd h hd⟩,
      fun _ => Or.inl hs⟩
  | fff hs he hd =>
    have hfs := hfixed s (by simp [Iterator3Params.fixed])
    have hfe := hfixed e (by simp [Iterator3Params.fixed])
    have hfd := hfixed d (by simp [Iterator3Params.fixed])
    dsimp only at hf
    split_ifs at hf with hown
    · obtain rfl := List.mem_singleton.mp hf
      exact ⟨fun _ => ⟨hown.1.symm, hfs⟩, fun _ => ⟨rfl, hfe⟩, fun _ => ⟨hown.2.symm, hfd⟩, ⟨rfl, rfl⟩,
        fun h => absurd h he, fun h => absurd h he⟩
    · exact absurd hf List.not_mem_nil

/-- A level that opens has an iterator, or finds nothing for want of one. -/
theorem openIterator_ok (h : m.openIterator repls t = .ok cs) :
    ∃ params, createIterator repls t = some params ∧ (iterator3 m.cells m.ctx params = some cs ∨
      m.asserts = false ∧ cs = [] ∧ iterator3 m.cells m.ctx params = none) := by
  unfold SearchSetup.openIterator at h
  by_cases hfails : m.asserts = true ∧ t.toList.any (resolveFails repls) = true
  · rw [if_pos hfails] at h
    cases h
  rw [if_neg hfails] at h
  cases hparams : createIterator repls t with
  | none =>
    rw [hparams] at h
    cases h
  | some params =>
    rw [hparams] at h
    simp only at h
    cases hit : iterator3 m.cells m.ctx params with
    | none =>
      rw [hit] at h
      simp only at h
      split_ifs at h with hasserts
      obtain rfl := Except.ok.inj h
      exact ⟨params, rfl, Or.inr ⟨by simpa using hasserts, rfl, hit⟩⟩
    | some it =>
      rw [hit] at h
      obtain rfl := Except.ok.inj h
      exact ⟨params, rfl, Or.inl hit⟩

/-- What is found on a level. -/
theorem foundBy_of_opens (hc : ArcsOk m.cells) (hopen : m.problem.opens path = .ok cs) (hf : f ∈ cs) :
    FoundBy m.cells m.ctx (searchResolveAddr (m.replsOf path) (m.itemsAt path.length).source)
      (searchResolveAddr (m.replsOf path) (m.itemsAt path.length).edge)
      (searchResolveAddr (m.replsOf path) (m.itemsAt path.length).target) (m.itemsAt path.length) f := by
  obtain ⟨params, hparams, hit | ⟨_, rfl, _⟩⟩ := openIterator_ok hopen
  · exact foundBy_of_iterator hc hparams hit hf
  · exact absurd hf List.not_mem_nil

/-- The items of the levels below `n`. -/
def SearchSetup.itemsBelow (m : SearchSetup) (n : ℕ) : Set ℕ :=
  {i | ∃ level < n, i ∈ (m.indicesAt level).toList}

/-- Exactly the names of the items of `S` are known, with their elements. -/
structure NamesKnown (data : ScTemplateData) (S : Set ℕ) (el : ℕ → ScAddr)
    (R : String → Option ReplCounter) : Prop where
  named : ∀ i ∈ S, (data.element i).hasReplacementName = true →
    ∃ r, R (data.element i).replacementName = some r ∧ r.addr = el i
  only : ∀ name r, R name = some r → ∃ i ∈ S, (data.element i).hasReplacementName = true ∧
    (data.element i).replacementName = name

variable {S : Set ℕ} {el el' : ℕ → ScAddr} {R : String → Option ReplCounter} {i j : ℕ} {a : ScAddr}
  {ps : List ℕ} {asserts : Bool}

theorem NamesKnown.congr (h : NamesKnown m.data S el R) (hel : ∀ i ∈ S, el' i = el i) :
    NamesKnown m.data S el' R := by
  refine ⟨?_, h.only⟩
  intro i hi hname
  obtain ⟨r, hr, ha⟩ := h.named i hi hname
  exact ⟨r, hr, ha.trans (hel i hi).symm⟩

/-- A name of a path has what its first item has found. -/
theorem refReplacement_cases {item : ScTemplateArg} {name : String} {r : ReplCounter}
    (h : refReplacement item a R name = some r) : (∃ r0, R name = some r0 ∧ r0.addr = r.addr) ∨
      item.hasReplacementName = true ∧ item.replacementName = name ∧ r.addr = a := by
  by_cases hn : item.hasReplacementName = true ∧ item.replacementName = name
  · obtain ⟨hname, rfl⟩ := hn
    rw [refReplacement_self hname] at h
    cases hr : R item.replacementName with
    | none =>
      rw [hr] at h
      obtain rfl := Option.some.inj h
      exact Or.inr ⟨hname, rfl, rfl⟩
    | some r0 =>
      rw [hr] at h
      obtain rfl := Option.some.inj h
      exact Or.inl ⟨r0, rfl, rfl⟩
  · rw [refReplacement_other hn] at h
    exact Or.inl ⟨r, h, rfl⟩

theorem NamesKnown.ref (hnames : NamesUnique m.data) (h : NamesKnown m.data S el R) (ha : el i = a) :
    NamesKnown m.data (insert i S) el (refReplacement (m.data.element i) a R) := by
  by_cases hname : (m.data.element i).hasReplacementName = true
  · have hself : ∃ r, refReplacement (m.data.element i) a R (m.data.element i).replacementName =
        some r ∧ r.addr = el i := by
      rw [refReplacement_self hname]
      cases hr : R (m.data.element i).replacementName with
      | none => exact ⟨_, rfl, ha.symm⟩
      | some r =>
        -- the name is there already, for the only item that has it
        obtain ⟨k, hk, hkn, hkr⟩ := h.only _ r hr
        obtain rfl := hnames _ _ hname hkr
        obtain ⟨r', hr', ha'⟩ := h.named i hk hname
        obtain rfl := Option.some.inj (hr.symm.trans hr')
        exact ⟨_, rfl, ha'⟩
    refine ⟨?_, ?_⟩
    · rintro j (rfl | hj) hjn
      · exact hself
      · by_cases he : (m.data.element i).replacementName = (m.data.element j).replacementName
        · obtain rfl := hnames _ _ hjn he
          exact hself
        · rw [refReplacement_other fun hh => he hh.2]
          exact h.named j hj hjn
    · intro name r hr
      by_cases he : (m.data.element i).replacementName = name
      · exact ⟨i, Set.mem_insert i S, hname, he⟩
      · rw [refReplacement_other fun hh => he hh.2] at hr
        obtain ⟨j, hj, hjn⟩ := h.only name r hr
        exact ⟨j, Set.mem_insert_of_mem i hj, hjn⟩
  · have hR : refReplacement (m.data.element i) a R = R := by
      unfold refReplacement
      rw [if_neg hname]
    rw [hR]
    refine ⟨?_, ?_⟩
    · rintro j (rfl | hj) hjn
      · exact absurd hjn hname
      · exact h.named j hj hjn
    · intro name r hr
      obtain ⟨j, hj, hjn⟩ := h.only name r hr
      exact ⟨j, Set.mem_insert_of_mem i hj, hjn⟩

/-- The three places of a triple become known with it. -/
theorem NamesKnown.refTriple (hnames : NamesUnique m.data) (h : NamesKnown m.data S el R)
    (ids : Triple ℕ) :
    NamesKnown m.data (S ∪ {i | i ∈ ids.toList}) el (refTriple (ids.map m.data.element) (ids.map el) R) := by
  have hset : S ∪ {i | i ∈ ids.toList} = insert ids.target (insert ids.edge (insert ids.source S)) := by
    ext i
    simp only [Triple.toList, List.mem_cons, List.not_mem_nil, or_false, Set.mem_union,
      Set.mem_ofPred_eq, Set.mem_insert_iff]
    tauto
  rw [hset]
  exact ((h.ref hnames rfl).ref hnames rfl).ref hnames rfl

theorem SearchSetup.itemsBelow_succ (m : SearchSetup) (n : ℕ) :
    m.itemsBelow (n+1) = m.itemsBelow n ∪ {i | i ∈ (m.indicesAt n).toList} := by
  ext i
  constructor
  · rintro ⟨level, hl, hi⟩
    rcases Nat.lt_succ_iff_lt_or_eq.mp hl with hl | rfl
    · exact Or.inl ⟨level, hl, hi⟩
    · exact Or.inr hi
  · rintro (⟨level, hl, hi⟩ | hi)
    · exact ⟨level, Nat.lt_succ_of_lt hl, hi⟩
    · exact ⟨n, Nat.lt_succ_self n, hi⟩

theorem NamesKnown.resolve_known (h : NamesKnown m.data S el R) (hk : (m.data.element i).kind = .type)
    (hi : i ∈ S) (hname : (m.data.element i).hasReplacementName = true) :
    searchResolveAddr R (m.data.element i) = el i := by
  obtain ⟨r, hr, ha⟩ := h.named i hi hname
  unfold searchResolveAddr
  rw [hk]
  simp only [hname, if_true, hr, Option.map_some, Option.getD_some, ha]

theorem NamesKnown.resolve_unknown (hnames : NamesUnique m.data) (h : NamesKnown m.data S el R)
    (hk : (m.data.element i).kind = .type) (hi : i ∉ S) :
    searchResolveAddr R (m.data.element i) = ScAddr.empty := by
  unfold searchResolveAddr
  rw [hk]
  by_cases hname : (m.data.element i).hasReplacementName = true
  · cases hr : R (m.data.element i).replacementName with
    | none => simp only [hname, if_true, Option.map_none, Option.getD_none]
    | some r =>
      obtain ⟨j, hj, _, hjn⟩ := h.only _ r hr
      obtain rfl := hnames _ _ hname hjn
      exact absurd hj hi
  · exact if_neg hname

theorem resolve_addr (hk : (m.data.element i).kind = .addr) :
    searchResolveAddr R (m.data.element i) = (m.data.element i).addrValue := by
  unfold searchResolveAddr
  rw [hk]

theorem isAnonymous_iff {item : ScTemplateArg} :
    item.isAnonymous = true ↔ item.kind = .type ∧ item.hasReplacementName = false := by
  unfold ScTemplateArg.isAnonymous
  cases item.hasReplacementName <;> simp

/-- An item that two triples share has a name or an address. -/
theorem ItemsOk.shared {data : ScTemplateData} (hdata : ItemsOk data (places data.triples)) {k l : ℕ}
    {t u : Triple ℕ} (ht : data.triples[k]? = some t) (hu : data.triples[l]? = some u) (hkl : k ≠ l)
    (hit : i ∈ t.toList) (hiu : i ∈ u.toList) : (data.element i).isAnonymous = false := by
  by_contra hanon
  have honce := hdata.once
  unfold places at honce
  rw [List.filter_flatMap, List.nodup_flatMap, List.pairwise_iff_getElem] at honce
  obtain ⟨hk, rfl⟩ := List.getElem?_eq_some_iff.mp ht
  obtain ⟨hl, rfl⟩ := List.getElem?_eq_some_iff.mp hu
  have hmem {v : Triple ℕ} (hi : i ∈ v.toList) :
      i ∈ v.toList.filter fun i => (data.element i).isAnonymous :=
    List.mem_filter.mpr ⟨hi, by simpa using hanon⟩
  rcases Nat.lt_or_gt_of_ne hkl with hlt | hlt
  · exact honce.2 k l hk hl hlt (hmem hit) (hmem hiu)
  · exact honce.2 l k hl hk hlt (hmem hiu) (hmem hit)

/-- An item with two places in a triple has a name or an address. -/
theorem ItemsOk.twice {data : ScTemplateData} (hdata : ItemsOk data (places data.triples))
    {t : Triple ℕ} (ht : t ∈ data.triples)
    (hsame : t.source = i ∧ t.edge = i ∨ t.source = i ∧ t.target = i ∨ t.edge = i ∧ t.target = i) :
    (data.element i).isAnonymous = false := by
  by_contra hanon
  have honce := hdata.once
  unfold places at honce
  rw [List.filter_flatMap, List.nodup_flatMap] at honce
  have hnodup := honce.1 t ht
  have htrue : (data.element i).isAnonymous = true := by simpa using hanon
  have hle := List.nodup_iff_count_le_one.mp hnodup i
  have hcount : List.count i (t.toList.filter fun i => (data.element i).isAnonymous) =
      List.count i t.toList := List.count_filter htrue
  rw [hcount] at hle
  have htwo : 2 ≤ List.count i t.toList := by
    unfold Triple.toList
    rcases hsame with ⟨h1, h2⟩ | ⟨h1, h2⟩ | ⟨h1, h2⟩ <;> simp [List.count_cons, h1, h2]
  omega

/-- Elements for the places of one triple, when equal items have found equal elements. -/
theorem exists_assignment (ids : Triple ℕ) (f : Triple ScAddr) (el : ℕ → ScAddr)
    (hse : ids.source = ids.edge → f.source = f.edge)
    (hst : ids.source = ids.target → f.source = f.target)
    (het : ids.edge = ids.target → f.edge = f.target) :
    ∃ el', f = ids.map el' ∧ ∀ i ∉ ids.toList, el' i = el i := by
  refine ⟨Function.update (Function.update (Function.update el ids.target f.target) ids.edge f.edge)
    ids.source f.source, ?_, ?_⟩
  · obtain ⟨s, e, d⟩ := ids
    obtain ⟨fs, fe, fd⟩ := f
    simp only at hse hst het ⊢
    unfold Triple.map
    simp only [Function.update_apply]
    by_cases h1 : e = s <;> by_cases h2 : d = s <;> by_cases h3 : d = e <;> simp_all
  · intro i hi
    simp only [Triple.toList, List.mem_cons, List.not_mem_nil, or_false, not_or] at hi
    rw [Function.update_of_ne hi.1, Function.update_of_ne hi.2.1, Function.update_of_ne hi.2.2]

/-- On the levels of the path every item has been given its element. -/
structure SearchSetup.Assigns (m : SearchSetup) (path : List (Triple ScAddr)) (el : ℕ → ScAddr) :
    Prop where
  found : ∀ f below, f :: below <:+ path → f = (m.indicesAt below.length).map el
  names : NamesKnown m.data (m.itemsBelow path.length) el (m.replsOf path)
  fixed : ∀ i ∈ m.itemsBelow path.length, (m.data.element i).kind = .addr →
    el i = (m.data.element i).addrValue
  nonempty : ∀ i ∈ m.itemsBelow path.length, el i ≠ ScAddr.empty

/-- What must hold before a triple is matched. An edge that is known already is an arc, and a triple
that joins an unknown item to itself has a loop for it; an edge that is not known is no end. -/
def SearchSetup.PlainEdge (m : SearchSetup) (R : String → Option ReplCounter) (level : ℕ) : Prop :=
  let ids := m.indicesAt level
  let edge := searchResolveAddr R (m.data.element ids.edge)
  (edge ≠ ScAddr.empty → LiveArc m.cells edge ∧ (ids.source = ids.target →
    searchResolveAddr R (m.data.element ids.source) = ScAddr.empty →
      ownerOf m.cells .out edge = ownerOf m.cells .inp edge)) ∧
  (edge = ScAddr.empty → ids.edge ≠ ids.source ∧ ids.edge ≠ ids.target)

/-- What is found for the places of a triple is one element for each item. -/
theorem FoundBy.agrees {ids : Triple ℕ} {level : ℕ} (hids : m.indicesAt level = ids)
    (h : FoundBy m.cells m.ctx (searchResolveAddr R (m.data.element ids.source))
      (searchResolveAddr R (m.data.element ids.edge)) (searchResolveAddr R (m.data.element ids.target))
      t f) (hplain : m.PlainEdge R level) :
    LiveArc m.cells f.edge ∧ (ids.source = ids.edge → f.source = f.edge) ∧
      (ids.source = ids.target → f.source = f.target) ∧ (ids.edge = ids.target → f.edge = f.target) := by
  obtain ⟨hknown, hnew⟩ := hplain
  rw [hids] at hknown hnew
  by_cases he : searchResolveAddr R (m.data.element ids.edge) = ScAddr.empty
  · obtain ⟨hes, het⟩ := hnew he
    refine ⟨(h.arc he).1, fun hh => absurd hh.symm hes, fun hh => ?_, fun hh => absurd hh het⟩
    -- the two ends are one item, and one of them is known
    rcases h.resolved he with hs | hd
    · rw [(h.source hs).1, (h.target (hh ▸ hs)).1, hh]
    · rw [(h.source (hh ▸ hd)).1, (h.target hd).1, hh]
  · obtain ⟨harc, hloop⟩ := hknown he
    have hedge := (h.edge he).1
    refine ⟨hedge ▸ harc, fun hh => ?_, fun hh => ?_, fun hh => ?_⟩
    · rw [(h.source (hh ▸ he)).1, hedge, hh]
    · by_cases hs : searchResolveAddr R (m.data.element ids.source) = ScAddr.empty
      · rw [h.ends.1, h.ends.2, hedge]
        exact hloop hh hs
      · rw [(h.source hs).1, (h.target (hh ▸ hs)).1, hh]
    · rw [(h.target (hh ▸ he)).1, hedge, hh]

theorem mem_toList_iff {ids : Triple ℕ} :
    i ∈ ids.toList ↔ i = ids.source ∨ i = ids.edge ∨ i = ids.target := by
  simp [Triple.toList]

/-- A place that is resolved has what is resolved. -/
theorem FoundBy.resolve_eq {ids : Triple ℕ}
    (h : FoundBy c ctx (searchResolveAddr R (m.data.element ids.source))
      (searchResolveAddr R (m.data.element ids.edge)) (searchResolveAddr R (m.data.element ids.target))
      t (ids.map el)) (hi : i ∈ ids.toList)
    (hne : searchResolveAddr R (m.data.element i) ≠ ScAddr.empty) :
    el i = searchResolveAddr R (m.data.element i) := by
  rcases mem_toList_iff.mp hi with rfl | rfl | rfl
  · exact (h.source hne).1
  · exact (h.edge hne).1
  · exact (h.target hne).1

/-- The triple of a level is one of the template. -/
theorem SearchSetup.Ordered.triple (hord : m.Ordered) {level : ℕ}
    (hl : level < m.data.triples.length) :
    m.data.triples[m.processOrder.getD level 0]? = some (m.indicesAt level) ∧
      m.indicesAt level ∈ m.data.triples := by
  obtain ⟨j, _, hj, _, ht⟩ := hord.index hl
  have hget : m.data.triples[m.processOrder.getD level 0]? = some (m.indicesAt level) := by
    unfold SearchSetup.indicesAt
    rw [hj]
    exact ht
  exact ⟨hget, List.mem_of_getElem? hget⟩

/-- An item that is met again has a name or an address. -/
theorem SearchSetup.Ordered.again (hord : m.Ordered) (hdata : ItemsOk m.data (places m.data.triples))
    {n : ℕ} (hn : n < m.data.triples.length) (hi : i ∈ m.itemsBelow n)
    (hin : i ∈ (m.indicesAt n).toList) : (m.data.element i).isAnonymous = false := by
  obtain ⟨level, hl, him⟩ := hi
  have hlen : level < m.data.triples.length := lt_trans hl hn
  apply hdata.shared (hord.triple hlen).1 (hord.triple hn).1 _ him hin
  intro he
  exact absurd (hord.index_injective hlen hn he) (Nat.ne_of_lt hl)

/-- An item that has been met is resolved to its element. -/
theorem SearchSetup.Assigns.resolve (hdata : ItemsOk m.data ps) (h : m.Assigns path el)
    (hi : i ∈ m.itemsBelow path.length) (hanon : (m.data.element i).isAnonymous = false) :
    searchResolveAddr (m.replsOf path) (m.data.element i) = el i := by
  cases hk : (m.data.element i).kind with
  | addr => rw [resolve_addr hk, h.fixed i hi hk]
  | type =>
    apply h.names.resolve_known hk hi
    by_contra hname
    rw [isAnonymous_iff.mpr ⟨hk, by simpa using hname⟩] at hanon
    cases hanon
  | replace => exact absurd hk (hdata.kinds i)

/-- A match goes on with the assignment of the path. -/
theorem SearchSetup.Assigns.cons (hc : ArcsOk m.cells) (hord : m.Ordered)
    (hdata : ItemsOk m.data (places m.data.triples)) (h : m.Assigns path el)
    (hn : path.length < m.data.triples.length) (hopen : m.problem.opens path = .ok cs) (hf : f ∈ cs)
    (hplain : m.PlainEdge (m.replsOf path) path.length) :
    LiveArc m.cells f.edge ∧ f.source = ownerOf m.cells .out f.edge ∧
      f.target = ownerOf m.cells .inp f.edge ∧ ∃ el', m.Assigns (f :: path) el' := by
  have hfound := foundBy_of_opens hc hopen hf
  obtain ⟨harc, hse, hst, het⟩ := FoundBy.agrees rfl hfound hplain
  refine ⟨harc, hfound.ends.1, hfound.ends.2, ?_⟩
  obtain ⟨el', hf', hother⟩ := exists_assignment (m.indicesAt path.length) f el hse hst het
  have hfound' := hfound
  rw [hf'] at hfound'
  have hold (i : ℕ) (hi : i ∈ m.itemsBelow path.length) : el' i = el i := by
    by_cases hin : i ∈ (m.indicesAt path.length).toList
    · have hres := h.resolve hdata hi (hord.again hdata hn hi hin)
      rw [hfound'.resolve_eq hin (hres ▸ h.nonempty i hi), hres]
    · exact hother i hin
  refine ⟨el', ?_, ?_, ?_, ?_⟩
  · intro f' below hs
    rcases List.suffix_cons_iff.mp hs with he | hs
    · obtain ⟨rfl, rfl⟩ := List.cons.inj he
      exact hf'
    · rw [h.found f' below hs]
      have hlt : below.length < path.length := hs.length_le
      have hmem (i : ℕ) (hi : i ∈ (m.indicesAt below.length).toList) : el' i = el i :=
        hold i ⟨below.length, hlt, hi⟩
      unfold Triple.map
      rw [hmem _ (mem_toList_iff.mpr (Or.inl rfl)), hmem _ (mem_toList_iff.mpr (Or.inr (Or.inl rfl))),
        hmem _ (mem_toList_iff.mpr (Or.inr (Or.inr rfl)))]
  · rw [List.length_cons, m.itemsBelow_succ]
    have hnames := (h.names.congr hold).refTriple hdata.namesUnique (m.indicesAt path.length)
    rw [← hf'] at hnames
    exact hnames
  · rw [List.length_cons, m.itemsBelow_succ]
    rintro i (hi | hi) hk
    · rw [hold i hi]
      exact h.fixed i hi hk
    · rw [hfound'.resolve_eq hi, resolve_addr hk]
      rw [resolve_addr hk]
      exact (hdata.addrs i hk).1
  · have hlive (a : ScAddr) (ha : Live m.cells a) : a ≠ ScAddr.empty := fun he => hc.notEmpty (he ▸ ha)
    rw [List.length_cons, m.itemsBelow_succ]
    rintro i (hi | hi)
    · rw [hold i hi]
      exact h.nonempty i hi
    · have hs := hc.endpoint f.edge .out harc
      have ht := hc.endpoint f.edge .inp harc
      rw [← hfound.ends.1] at hs
      rw [← hfound.ends.2] at ht
      rcases mem_toList_iff.mp hi with rfl | rfl | rfl
      · have he : f.source = el' (m.indicesAt path.length).source := by rw [hf']; rfl
        exact he ▸ hlive _ hs
      · have he : f.edge = el' (m.indicesAt path.length).edge := by rw [hf']; rfl
        exact he ▸ hlive _ harc.1
      · have he : f.target = el' (m.indicesAt path.length).target := by rw [hf']; rfl
        exact he ▸ hlive _ ht

theorem exists_suffix {α : Type} {q : List α} {level : ℕ} (h : level < q.length) :
    ∃ f below, f :: below <:+ q ∧ below.length = level := by
  induction q with
  | nil => exact absurd h (Nat.not_lt_zero level)
  | cons f below ih =>
    rcases Nat.lt_succ_iff_lt_or_eq.mp h with hl | rfl
    · obtain ⟨f', below', hs, hlen⟩ := ih hl
      exact ⟨f', below', hs.trans (List.suffix_cons _ _), hlen⟩
    · exact ⟨f, below, List.suffix_refl _, rfl⟩

/-- Each triple has its level. -/
theorem SearchSetup.Ordered.level (hord : m.Ordered) {k : ℕ} (hk : k < m.data.triples.length) :
    ∃ level < m.data.triples.length, m.processOrder.getD level 0 = k := by
  have hmem : k ∈ m.processOrder := hord.perm.mem_iff.mpr (List.mem_range.mpr hk)
  obtain ⟨level, hl, he⟩ := List.mem_iff_getElem.mp hmem
  have hlen : m.processOrder.length = m.data.triples.length := by
    rw [hord.perm.length_eq, List.length_range]
  exact ⟨level, hlen ▸ hl, by rw [List.getD_eq_getElem _ _ hl, he]⟩

theorem SearchSetup.Ordered.below (hord : m.Ordered) {ids : Triple ℕ} (ht : ids ∈ m.data.triples)
    (hi : i ∈ ids.toList) : i ∈ m.itemsBelow m.data.triples.length := by
  obtain ⟨k, hk, rfl⟩ := List.mem_iff_getElem.mp ht
  obtain ⟨level, hl, he⟩ := hord.level hk
  refine ⟨level, hl, ?_⟩
  unfold SearchSetup.indicesAt
  rw [he, List.getD_eq_getElem _ _ hk]
  exact hi

theorem map_getD_range {α : Type} (l : List α) (d : α) :
    (List.range l.length).map (fun k => l.getD k d) = l := by
  apply List.ext_getElem
  · simp
  · intro k h1 h2
    simp [h2]

/-- The path on which the levels below `n` get what `el` gives their items. -/
def SearchSetup.pathOf (m : SearchSetup) (el : ℕ → ScAddr) : ℕ → List (Triple ScAddr)
  | 0 => []
  | n + 1 => (m.indicesAt n).map el :: m.pathOf el n

theorem pathOf_length (m : SearchSetup) (el : ℕ → ScAddr) (n : ℕ) : (m.pathOf el n).length = n := by
  induction n with
  | zero => rfl
  | succ n ih => exact congrArg (· + 1) ih

theorem pathOf_reverse (m : SearchSetup) (el : ℕ → ScAddr) (n : ℕ) :
    (m.pathOf el n).reverse = (List.range n).map fun level => (m.indicesAt level).map el := by
  induction n with
  | zero => rfl
  | succ n ih =>
    unfold SearchSetup.pathOf
    rw [List.reverse_cons, ih, List.range_succ, List.map_append]
    rfl

theorem eq_pathOf (hfound : ∀ f below, f :: below <:+ path → f = (m.indicesAt below.length).map el) :
    path = m.pathOf el path.length := by
  induction path with
  | nil => rfl
  | cons f path ih =>
    have hrest := ih fun f' below hs => hfound f' below (hs.trans (List.suffix_cons _ _))
    rw [hfound f path (List.suffix_refl _), List.length_cons]
    exact congrArg (_ :: ·) hrest

theorem pathOf_found (m : SearchSetup) (el : ℕ → ScAddr) (n : ℕ) {below : List (Triple ScAddr)}
    (hs : f :: below <:+ m.pathOf el n) : f = (m.indicesAt below.length).map el := by
  induction n with
  | zero => exact absurd (List.suffix_nil.mp hs) (List.cons_ne_nil _ _)
  | succ n ih =>
    rcases List.suffix_cons_iff.mp hs with he | hs
    · obtain ⟨rfl, rfl⟩ := List.cons.inj he
      rw [pathOf_length]
    · exact ih hs

/-- A full path has the triples with their elements, in the order of the search. -/
theorem pathOf_perm (hord : m.Ordered) (el : ℕ → ScAddr) :
    (m.pathOf el m.data.triples.length).Perm (m.data.triples.map fun t => t.map el) := by
  have horder : (List.range m.data.triples.length).map (fun level => m.processOrder.getD level 0) =
      m.processOrder := by
    have hl : m.processOrder.length = m.data.triples.length := by
      rw [hord.perm.length_eq, List.length_range]
    rw [← hl]
    exact map_getD_range _ 0
  have hmap : (List.range m.data.triples.length).map (fun level => (m.indicesAt level).map el) =
      (m.processOrder.map fun k => m.data.triples.getD k ⟨0, 0, 0⟩).map fun t => t.map el := by
    rw [← horder, List.map_map, List.map_map]
    rfl
  apply (List.reverse_perm _).symm.trans
  rw [pathOf_reverse, hmap]
  apply List.Perm.map
  have hp := hord.perm.map fun k => m.data.triples.getD k ⟨0, 0, 0⟩
  rw [map_getD_range] at hp
  exact hp

/-- The addresses of a result are those of the path, triple by triple. -/
theorem SearchSetup.IsResult.addrs_eq {r : SearchResult} (hord : m.Ordered) (h : m.IsResult path r)
    (hfound : ∀ f below, f :: below <:+ path → f = (m.indicesAt below.length).map el) :
    r.addrs = m.data.triples.map fun t => t.map el := by
  apply List.ext_getElem?
  intro k
  by_cases hk : k < m.data.triples.length
  · obtain ⟨level, hl, he⟩ := hord.level hk
    have hlt : level < path.length := by
      rw [h.length]
      exact hl
    obtain ⟨f, below, hs, rfl⟩ := exists_suffix hlt
    have haddr := h.addrs f below hs
    rw [he] at haddr
    have htriple := (hord.triple hl).1
    rw [he] at htriple
    rw [haddr, hfound f below hs, List.getElem?_map, htriple]
    rfl
  · rw [List.getElem?_eq_none (by rw [h.addrsLength]; omega),
      List.getElem?_eq_none (by rw [List.length_map]; omega)]

/-- There is a permanent positive access arc from the structure to the element. -/
def SearchSetup.Belongs (m : SearchSetup) (a : ScAddr) : Prop :=
  ∃ x, LiveArc m.cells x ∧ ownerOf m.cells .out x = m.struct ∧ ownerOf m.cells .inp x = a ∧
    HasType m.cells x scTypeEdgeAccessConstPosPerm

/-- The result gives every item its one element. -/
structure SearchSetup.Sound (m : SearchSetup) (r : SearchResult) (el : ℕ → ScAddr) : Prop where
  addrs : r.addrs = m.data.triples.map fun t => t.map el
  names : ∀ t ∈ m.data.triples, ∀ i ∈ t.toList, (m.data.element i).hasReplacementName = true →
    r.names (m.data.element i).replacementName = some (el i)
  arcs : ∀ t ∈ m.data.triples, LiveArc m.cells (el t.edge) ∧
    ownerOf m.cells .out (el t.edge) = el t.source ∧ ownerOf m.cells .inp (el t.edge) = el t.target
  fixed : ∀ t ∈ m.data.triples, ∀ i ∈ t.toList, (m.data.element i).kind = .addr →
    el i = (m.data.element i).addrValue
  edges : (m.data.triples.map fun t => el t.edge).Nodup
  struct : m.struct ≠ ScAddr.empty → ∀ t ∈ m.data.triples, ∀ i ∈ t.toList, m.Belongs (el i)

theorem belongs_of_check (hc : ArcsOk m.cells) (h : m.checkInStruct a = true) : m.Belongs a := by
  unfold SearchSetup.checkInStruct helperCheckEdge at h
  cases hit : iterator3 m.cells m.ctx (.faf m.struct scTypeEdgeAccessConstPosPerm a) with
  | none =>
    rw [hit] at h
    cases h
  | some found =>
    rw [hit] at h
    unfold iterator3 at hit
    dsimp only at hit
    split_ifs at hit with hfixed
    obtain rfl := Option.some.inj hit
    have hne : ∃ x, x ∈ arcList m.cells .inp a ∧ Iterator3Params.matching m.cells m.ctx
        (.faf m.struct scTypeEdgeAccessConstPosPerm a) x = true := by simpa using h
    obtain ⟨x, hl, hp⟩ := hne
    have hlive := (hfixed a (by simp [Iterator3Params.fixed])).1
    obtain ⟨harc, hown⟩ := ((hc.arcList hlive).mem _).mp hl
    obtain ⟨hbeg, htype, _⟩ := of_decide_eq_true hp
    exact ⟨x, harc, hbeg, hown, htype⟩

/-- A match that is accepted is in the structure, and its edge is not used by the path. -/
theorem SearchSetup.accepts_spec (hc : ArcsOk m.cells) {used : List ScAddr}
    (h : m.accepts used f = true) : f.edge ∉ used ∧ (m.struct ≠ ScAddr.empty →
      m.Belongs f.source ∧ m.Belongs f.edge ∧ m.Belongs f.target) := by
  unfold SearchSetup.accepts at h
  rw [Bool.and_eq_true, Bool.or_eq_true, Bool.and_eq_true, Bool.and_eq_true] at h
  refine ⟨of_decide_eq_true h.2, fun hne => ?_⟩
  obtain ⟨⟨hs, he⟩, hd⟩ := h.1.resolve_left (by simpa using hne)
  exact ⟨belongs_of_check hc hs, belongs_of_check hc he, belongs_of_check hc hd⟩

/-- The condition of a run, for the path of a state. -/
def SearchSetup.PlainPath (m : SearchSetup) (path : List (Triple ScAddr)) : Prop :=
  m.PlainEdge (m.replsOf path) path.length

/-- What the matches of a path have in common. -/
structure SearchSetup.Matched (m : SearchSetup) (path : List (Triple ScAddr)) : Prop where
  arcs : ∀ f ∈ path, LiveArc m.cells f.edge ∧ f.source = ownerOf m.cells .out f.edge ∧
    f.target = ownerOf m.cells .inp f.edge
  struct : m.struct ≠ ScAddr.empty → ∀ f ∈ path,
    m.Belongs f.source ∧ m.Belongs f.edge ∧ m.Belongs f.target
  edges : (path.map Triple.edge).Nodup

theorem assigns_nil (m : SearchSetup) : m.Assigns [] fun _ => ScAddr.empty := by
  have hnone (i : ℕ) : i ∉ m.itemsBelow 0 := by
    rintro ⟨level, hl, _⟩
    exact absurd hl (Nat.not_lt_zero level)
  refine ⟨?_, ⟨fun i hi => absurd hi (hnone i), fun _ _ h => by cases h⟩,
    fun i hi => absurd hi (hnone i), fun i hi => absurd hi (hnone i)⟩
  intro f below hs
  exact absurd (List.suffix_nil.mp hs) (List.cons_ne_nil _ _)

/-- By induction on the levels: their matches fit together. -/
theorem assigns_of_frames (hc : ArcsOk m.cells) (hord : m.Ordered)
    (hdata : ItemsOk m.data (places m.data.triples))
    {frames : List (Triple ScAddr × List (Triple ScAddr))}
    (h : m.problem.FramesOk m.PlainPath frames) (hlen : frames.length ≤ m.data.triples.length) :
    m.Matched (frames.map Prod.fst) ∧ ∃ el, m.Assigns (frames.map Prod.fst) el := by
  induction h with
  | nil =>
    refine ⟨⟨fun _ hf => absurd hf List.not_mem_nil, fun _ _ hf => absurd hf List.not_mem_nil,
      List.nodup_nil⟩, _, assigns_nil m⟩
  | cons hbelow hopen hplain hmem _ hacc ih =>
    rename_i below f it cs _
    have hlt : below.length < m.data.triples.length := hlen
    obtain ⟨hmatched, el, hassigns⟩ := ih hlt.le
    obtain ⟨harc, hs, ht, hnext⟩ := hassigns.cons hc hord hdata (by rwa [List.length_map]) hopen hmem
      hplain
    obtain ⟨hnot, hstruct⟩ := m.accepts_spec hc hacc
    refine ⟨⟨?_, ?_, List.nodup_cons.mpr ⟨hnot, hmatched.edges⟩⟩, hnext⟩
    · intro g hg
      rcases List.mem_cons.mp hg with rfl | hg
      · exact ⟨harc, hs, ht⟩
      · exact hmatched.arcs g hg
    · intro hne g hg
      rcases List.mem_cons.mp hg with rfl | hg
      · exact hstruct hne
      · exact hmatched.struct hne g hg

/-- A full path of matches that fit together is a sound result. -/
theorem SearchSetup.IsResult.sound (hord : m.Ordered) {r : SearchResult} (hres : m.IsResult path r)
    (hmatched : m.Matched path) (hassigns : m.Assigns path el) : m.Sound r el := by
  have hperm : path.Perm (m.data.triples.map fun t => t.map el) := by
    rw [eq_pathOf hassigns.found, hres.length]
    exact pathOf_perm hord el
  have hmem (t : Triple ℕ) (ht : t ∈ m.data.triples) : t.map el ∈ path :=
    hperm.mem_iff.mpr (List.mem_map.mpr ⟨t, ht, rfl⟩)
  have hbelow (t : Triple ℕ) (ht : t ∈ m.data.triples) (i : ℕ) (hi : i ∈ t.toList) :
      i ∈ m.itemsBelow path.length := by
    rw [hres.length]
    exact hord.below ht hi
  refine ⟨hres.addrs_eq hord hassigns.found, ?_, ?_, ?_, ?_, ?_⟩
  · intro t ht i hi hname
    obtain ⟨c, hc, ha⟩ := hassigns.names.named i (hbelow t ht i hi) hname
    rw [hres.names]
    beta_reduce
    rw [hc, Option.map_some, ha]
  · intro t ht
    obtain ⟨harc, hs, hd⟩ := hmatched.arcs _ (hmem t ht)
    exact ⟨harc, hs.symm, hd.symm⟩
  · intro t ht i hi hk
    exact hassigns.fixed i (hbelow t ht i hi) hk
  · have hp := hperm.map Triple.edge
    rw [List.map_map] at hp
    exact hp.nodup_iff.mp hmatched.edges
  · intro hne t ht i hi
    obtain ⟨hs, he, hd⟩ := hmatched.struct hne _ (hmem t ht)
    rcases mem_toList_iff.mp hi with rfl | rfl | rfl
    · exact hs
    · exact he
    · exact hd

/-- The condition of a run, for the state before a round. -/
def SearchSetup.PlainStep (m : SearchSetup) (s : SearchState) : Prop :=
  s.newIteration = true → m.PlainEdge s.repls s.iterators.length

theorem plainPath_of_plainStep (s : SearchState) (k : Machine (Triple ScAddr)) (hm : m.Matches s k)
    (hf : k.fresh = true) (h : m.PlainStep s) : m.PlainPath k.choices := by
  have hplain := h (hm.newIteration.trans hf)
  rw [hm.repls, hm.iterators, List.length_map] at hplain
  unfold SearchSetup.PlainPath Machine.choices
  rw [List.length_map]
  exact hplain

theorem searchSetup_ordered (lib : LibraryOrder) {data : ScTemplateData} (struct : ScAddr)
    (h : 0 < data.triples.length) : (searchSetup asserts lib c ctx data struct).Ordered := by
  have hperm := updateSearchCache_perm lib (data.triples.map data.items)
  rw [List.length_map] at hperm
  exact ⟨hperm, h⟩

/-- A search without triples reads behind the end of the order. -/
theorem round_of_no_triples (lib : LibraryOrder) {data : ScTemplateData} (struct : ScAddr)
    (h : ¬ 0 < data.triples.length) :
    (searchSetup asserts lib c ctx data struct).round (searchSetup asserts lib c ctx data struct).reset =
      .error .outOfRange := by
  have hlen := (updateSearchCache_perm lib (data.triples.map data.items)).length_eq
  rw [List.length_map, List.length_range, Nat.eq_zero_of_not_pos h] at hlen
  have hnil : (searchSetup asserts lib c ctx data struct).processOrder = [] := List.length_eq_zero_iff.mp hlen
  unfold SearchSetup.round
  rw [hnil]
  rfl

theorem ordered_of_step {lib : LibraryOrder} {struct : ScAddr} {data : ScTemplateData} {found : Bool}
    {s : SearchState}
    (h : (searchSetup asserts lib c ctx data struct).Step (searchSetup asserts lib c ctx data struct).reset found s) :
    (searchSetup asserts lib c ctx data struct).Ordered := by
  apply searchSetup_ordered
  by_contra hzero
  have hround := h.2
  rw [round_of_no_triples lib struct hzero] at hround
  cases hround

theorem results_of_no_triples (lib : LibraryOrder) {data : ScTemplateData} (struct : ScAddr)
    (h : ¬ 0 < data.triples.length) (rounds calls : ℕ) :
    ∃ e, e ≠ SearchEnd.finished ∧ (searchSetup asserts lib c ctx data struct).results rounds calls
      (searchSetup asserts lib c ctx data struct).reset = ([], e) := by
  have hround : (searchSetup asserts lib c ctx data struct).round (searchSetup asserts lib c ctx data struct).reset =
      .error .outOfRange := round_of_no_triples lib struct h
  cases calls with
  | zero => exact ⟨.running, by decide, rfl⟩
  | succ calls =>
    unfold SearchSetup.results SearchSetup.doIter
    rw [if_neg (by exact Bool.false_ne_true)]
    cases rounds with
    | zero => exact ⟨.running, by decide, rfl⟩
    | succ rounds =>
      unfold SearchSetup.doIterLoop
      rw [hround]
      exact ⟨.stopped .outOfRange, by decide, rfl⟩

theorem ordered_of_result {lib : LibraryOrder} {struct : ScAddr} {data : ScTemplateData}
    {rounds calls : ℕ} {r : SearchResult} (h : r ∈ ((searchSetup asserts lib c ctx data struct).results rounds calls
      (searchSetup asserts lib c ctx data struct).reset).1) : (searchSetup asserts lib c ctx data struct).Ordered := by
  apply searchSetup_ordered
  by_contra hzero
  obtain ⟨e, _, hres⟩ := @results_of_no_triples ctx c asserts lib data struct hzero rounds calls
  rw [hres] at h
  exact absurd h List.not_mem_nil

theorem ordered_of_finished {lib : LibraryOrder} {struct : ScAddr} {data : ScTemplateData}
    {rounds calls : ℕ} (h : ((searchSetup asserts lib c ctx data struct).results rounds calls
      (searchSetup asserts lib c ctx data struct).reset).2 = .finished) :
    (searchSetup asserts lib c ctx data struct).Ordered := by
  apply searchSetup_ordered
  by_contra hzero
  obtain ⟨e, he, hres⟩ := @results_of_no_triples ctx c asserts lib data struct hzero rounds calls
  rw [hres] at h
  exact he h

/-- In every memory state and for every template and structure: a search whose rounds all meet the
condition gives only sound results, and what it gives are the results of its rounds. -/
theorem search_sound {thread : ℕ} {st : ScStorage} (evs : List StoreEvent)
    (hr : Run (OwnStep thread) ScStorage.empty evs st) (asserts : Bool) (lib : LibraryOrder) (ctx : ScContext)
    {data : ScTemplateData} (hdata : Built data) (struct : ScAddr) {m : SearchSetup}
    (hm : m = searchSetup asserts lib st.cell ctx data struct) :
    (∀ rounds calls, ∀ r ∈ (m.results rounds calls m.reset).1,
      ∃ founds s, Run m.Step m.reset (founds ++ [true]) s ∧ m.makeResult s = .ok r) ∧
    ∀ founds s r, Run (fun s found s' => m.PlainStep s ∧ m.Step s found s') m.reset (founds ++ [true]) s →
      m.makeResult s = .ok r → ∃ el, m.Sound r el := by
  subst hm
  have hc := (ownRun_storeOk evs st hr).cells.arcs
  refine ⟨?_, ?_⟩
  · intro rounds calls r hres
    have hord := ordered_of_result hres
    exact results_run hord (matches_reset hord) (Or.inr rfl) hres
  · intro founds s r hrun hmake
    have hord : (searchSetup asserts lib st.cell ctx data struct).Ordered := by
      cases founds with
      | nil =>
        obtain ⟨_, hstep, _⟩ := hrun
        exact ordered_of_step hstep.2
      | cons b founds =>
        obtain ⟨_, hstep, _⟩ := hrun
        exact ordered_of_step hstep.2
    obtain ⟨k, hres, hok⟩ := run_result hord _ _ plainPath_of_plainStep founds hrun hmake
    have hlen : k.frames.length ≤ data.triples.length := by
      have hl := hres.length
      unfold Machine.choices at hl
      rw [List.length_map] at hl
      exact hl.le
    obtain ⟨hmatched, el, hassigns⟩ := assigns_of_frames hc hord hdata.itemsOk hok hlen
    exact ⟨el, hres.sound hord hmatched hassigns⟩

end

/-- Insertion sort, and a set that is iterated in the order of its list. -/
def insertionLibrary : LibraryOrder where
  sort score l := l.insertionSort fun a b => score b ≤ score a
  sort_perm score l := List.perm_insertionSort _ l
  sort_sorted score l := by
    have htotal : Std.Total fun a b : ℕ => score b ≤ score a := ⟨fun a b => BitVec.le_total _ _⟩
    have htrans : IsTrans ℕ fun a b : ℕ => score b ≤ score a :=
      ⟨fun a b c h h' => BitVec.le_trans h' h⟩
    exact List.pairwise_insertionSort _ l
  setOrder := List.dedup
  setOrder_perm l := List.Perm.refl _

/-- Two nodes and an arc from the first to the second. -/
def nodesWithArc : List StoreEvent :=
  twoNodes ++ [⟨exampleEnv,
    .call (.arcNew exampleContext scTypeEdgeAccessConstPosPerm ⟨0, 1⟩ ⟨0, 33⟩)⟩]

theorem nodesWithArc_run :
    Run (OwnStep 1) ScStorage.empty nodesWithArc (stateAfterEvents nodesWithArc ScStorage.empty) :=
  ownRun_of_ownEvents nodesWithArc ScStorage.empty (by decide +kernel)

/-- A search of the debug build. -/
def exampleSearch (data : ScTemplateData) : SearchSetup :=
  searchSetup true insertionLibrary (stateAfterEvents nodesWithArc ScStorage.empty).cell exampleContext data
    ScAddr.empty

/-- What is there before the second node. -/
def sourceTriple : Except ScException ScTemplateData :=
  ScTemplateData.empty.addTriple
    ⟨.ofType scTypeNodeVar "_x", .ofType scTypeEdgeAccessVarPosPerm "", .ofAddr ⟨0, 33⟩ ""⟩

theorem sourceTriple_built : Built (templateOf sourceTriple) :=
  Built.triple _ Built.empty (templateOf_ok (by decide +kernel))

/-- The first round and its result. -/
def firstResult (m : SearchSetup) : Except SearchStop (Bool × SearchState × SearchResult) := do
  let (found, s) ← m.round m.reset
  let r ← m.makeResult s
  .ok (found, s, r)

theorem exists_of_firstResult {m : SearchSetup}
    (h : (firstResult m).toOption.map Prod.fst = some true) :
    ∃ s r, m.round m.reset = .ok (true, s) ∧ m.makeResult s = .ok r := by
  cases hf : firstResult m with
  | error e =>
    rw [hf] at h
    cases h
  | ok p =>
    rw [hf] at h
    obtain ⟨⟨found, s⟩, hround, hf⟩ := StateExcept.bind_ok hf
    obtain ⟨r, hmake, hf⟩ := StateExcept.bind_ok hf
    obtain rfl := Except.ok.inj hf
    obtain rfl : found = true := Option.some.inj h
    exact ⟨s, r, hround, hmake⟩

theorem search_sound_source : ∃ s r el,
    (exampleSearch (templateOf sourceTriple)).round (exampleSearch (templateOf sourceTriple)).reset =
      .ok (true, s) ∧ (exampleSearch (templateOf sourceTriple)).makeResult s = .ok r ∧
        (exampleSearch (templateOf sourceTriple)).Sound r el := by
  obtain ⟨s, r, hround, hmake⟩ := @exists_of_firstResult (exampleSearch (templateOf sourceTriple))
    (by decide +kernel)
  have hplain : (exampleSearch (templateOf sourceTriple)).PlainStep
      (exampleSearch (templateOf sourceTriple)).reset := by
    intro _
    refine ⟨fun h => absurd ?_ h, fun _ => ?_⟩
    · decide +kernel
    · decide +kernel
  obtain ⟨el, hsound⟩ := (search_sound nodesWithArc nodesWithArc_run true insertionLibrary exampleContext
    sourceTriple_built ScAddr.empty rfl).2 [] s r ⟨s, ⟨hplain, Or.inr rfl, hround⟩, rfl⟩ hmake
  exact ⟨s, r, el, hround, hmake, hsound⟩

/-- `_x` is joined to itself by an arc that is known. -/
def loopByEdge : Except ScException ScTemplateData :=
  ScTemplateData.empty.addTriple
    ⟨.ofType scTypeNodeVar "_x", .ofAddr ⟨0, 65⟩ "", .ofName "_x"⟩

/-- The ends of the arc are not compared. -/
theorem loop_not_sound : ¬ ∀ (asserts : Bool) (evs : List StoreEvent) (st : ScStorage)
    (lib : LibraryOrder) (ctx : ScContext) (data : ScTemplateData) (struct : ScAddr) (rounds calls : ℕ) (r : SearchResult),
    Run (OwnStep 1) ScStorage.empty evs st → Built data →
      r ∈ ((searchSetup asserts lib st.cell ctx data struct).results rounds calls
        (searchSetup asserts lib st.cell ctx data struct).reset).1 →
      ∃ el, (searchSetup asserts lib st.cell ctx data struct).Sound r el := by
  intro hall
  have hbuilt : Built (templateOf loopByEdge) :=
    Built.triple _ Built.empty (templateOf_ok (by decide +kernel))
  have haddrs : ((exampleSearch (templateOf loopByEdge)).results 1 1
      (exampleSearch (templateOf loopByEdge)).reset).1.map (·.addrs) =
        [[⟨⟨0, 1⟩, ⟨0, 65⟩, ⟨0, 33⟩⟩]] := by decide +kernel
  cases hres : ((exampleSearch (templateOf loopByEdge)).results 1 1
      (exampleSearch (templateOf loopByEdge)).reset).1 with
  | nil =>
    rw [hres] at haddrs
    cases haddrs
  | cons r rest =>
    rw [hres] at haddrs
    have hr : r.addrs = [⟨⟨0, 1⟩, ⟨0, 65⟩, ⟨0, 33⟩⟩] := (List.cons.inj haddrs).1
    obtain ⟨el, hsound⟩ := hall true nodesWithArc _ insertionLibrary exampleContext (templateOf loopByEdge)
      ScAddr.empty 1 1 r nodesWithArc_run hbuilt (hres ▸ List.mem_cons_self)
    have htriples : (templateOf loopByEdge).triples = [⟨0, 1, 0⟩] := by decide +kernel
    have hel : r.addrs = (templateOf loopByEdge).triples.map fun t => t.map el := hsound.addrs
    rw [hr, htriples] at hel
    obtain ⟨hs, _, ht⟩ := Triple.mk.inj (List.cons.inj hel).1
    rw [← ht] at hs
    exact absurd hs (by decide)

end ScMachine.Template
