import ScMachine.GenerateParameters

/-! A generation realises its template: one element for each item, one new arc for each triple, and
nothing else. -/
namespace ScMachine.Template
open ScMachine.Store ScMachine.StateExcept ScMachine.Runs

def IsEdgeItem (data : ScTemplateData) (i : ℕ) : Prop := ∃ t ∈ data.triples, t.edge = i

def IsEndItem (data : ScTemplateData) (i : ℕ) : Prop :=
  ∃ t ∈ data.triples, t.source = i ∨ t.target = i

/-- The items that get a new element: the edges, and the ends without an element of their own. -/
def NewItem (data : ScTemplateData) (params : ScTemplateParams) (i : ℕ) : Prop :=
  IsEdgeItem data i ∨ IsEndItem data i ∧ givenAddr params (data.element i) = ScAddr.empty

/-- The type of the node or link that is created for an item of a type. -/
def EndType (type created : ScType) : Prop :=
  type.isNode = true ∧ created = scFlagsRemove type.upConstType ∨
    type.isNode = false ∧ type.isLink = true ∧ created = scTypeLink ||| scTypeConst

/-- `el` is the element of each item. -/
structure Realises (data : ScTemplateData) (params : ScTemplateParams) (st st' : ScStorage)
    (r : ScTemplateNamedStruct) (arcs : List ScAddr) (el : ℕ → ScAddr) : Prop where
  names : ∀ t ∈ data.triples, ∀ i ∈ t.toList, (data.element i).hasReplacementName = true →
    r.names (data.element i).replacementName = some (el i)
  arcs_eq : arcs = data.triples.map fun t => el t.edge
  arc : ∀ t ∈ data.triples,
    ArcBetween st' (data.element t.edge).typeValue.upConstType (t.map el)
  given : ∀ i, IsEndItem data i → givenAddr params (data.element i) ≠ ScAddr.empty →
    el i = givenAddr params (data.element i)
  ends : ∀ i, IsEndItem data i → ¬ IsEdgeItem data i →
    givenAddr params (data.element i) = ScAddr.empty →
      EndType (data.element i).typeValue (st'.cell (el i)).type
  distinct : ∀ i j, NewItem data params i → NewItem data params j → el i = el j → i = j
  grown : GrownBy st {x | ∃ i, NewItem data params i ∧ el i = x} st'

/-- No item is joined to itself before it has an element, no item is the edge of two triples, and no
parameter stands for an edge that is also an end. -/
structure Unshared (data : ScTemplateData) (params : ScTemplateParams) : Prop where
  loops : ∀ before t after, data.triples = before ++ t :: after → t.source = t.target →
    givenAddr params (data.element t.source) = ScAddr.empty → t.source ∈ places before
  edges : (data.triples.map Triple.edge).Nodup
  ends : ∀ i, IsEdgeItem data i → IsEndItem data i →
    givenAddr params (data.element i) = ScAddr.empty

/-- The items of `S` have elements, and `E` are the edges among them. -/
structure Assigned (data : ScTemplateData) (params : ScTemplateParams) (st0 : ScStorage) (S E : Set ℕ)
    (el : ℕ → ScAddr) (st : ScStorage) : Prop where
  places : ∀ i ∈ S, IsEdgeItem data i ∨ IsEndItem data i
  edges : ∀ i ∈ S, IsEdgeItem data i → i ∈ E
  given : ∀ i ∈ S, ¬ NewItem data params i → el i = givenAddr params (data.element i)
  ends : ∀ i ∈ S, NewItem data params i → ¬ IsEdgeItem data i →
    EndType (data.element i).typeValue (st.cell (el i)).type
  distinct : ∀ i ∈ S, ∀ j ∈ S, NewItem data params i → NewItem data params j → el i = el j → i = j
  grown : GrownBy st0 {x | ∃ i ∈ S, NewItem data params i ∧ el i = x} st

/-- The result has the names of the items of `S`, with their elements. -/
structure Recorded (data : ScTemplateData) (S : Set ℕ) (el : ℕ → ScAddr)
    (result : ScTemplateNamedStruct) : Prop where
  named : ∀ i ∈ S, (data.element i).hasReplacementName = true →
    result.names (data.element i).replacementName = some (el i)
  only : ∀ name a, result.names name = some a → ∃ i ∈ S, (data.element i).replacementName = name

section
variable {ctx : ScContext} {data : ScTemplateData} {params : ScTemplateParams}
  {st0 st s st' : ScStorage} {g g' : GenerateState} {S E : Set ℕ} {i : ℕ} {a : ScAddr}
  {el : ℕ → ScAddr} {result : ScTemplateNamedStruct}

theorem Assigned.new_live (h : Assigned data params st0 S E el st) (hi : i ∈ S)
    (hn : NewItem data params i) : Live st.cell (el i) :=
  h.grown.live _ ⟨i, hi, hn, rfl⟩

/-- An item that has its element keeps it. -/
theorem Assigned.again (h : Assigned data params st0 S E el st) (hi : i ∈ S) (ha : el i = a) :
    Assigned data params st0 (insert i S) E (Function.update el i a) st := by
  rw [← ha, Function.update_eq_self, Set.insert_eq_of_mem hi]
  exact h

theorem Assigned.insert_given (h : Assigned data params st0 S E el st) (hi : i ∉ S)
    (hend : IsEndItem data i) (hn : ¬ NewItem data params i) :
    Assigned data params st0 (insert i S) E
      (Function.update el i (givenAddr params (data.element i))) st := by
  have hother (j : ℕ) (hj : j ∈ S) :
      Function.update el i (givenAddr params (data.element i)) j = el j := by
    rw [Function.update_of_ne]
    rintro rfl
    exact hi hj
  have hin (j : ℕ) (hj : j ∈ insert i S) (hnj : NewItem data params j) : j ∈ S := by
    rcases hj with rfl | hj
    · exact absurd hnj hn
    · exact hj
  refine ⟨?_, ?_, ?_, ?_, ?_, ?_⟩
  · rintro j (rfl | hj)
    · exact Or.inr hend
    · exact h.places j hj
  · rintro j hj hedge
    exact h.edges j (hin j hj (Or.inl hedge)) hedge
  · rintro j (rfl | hj) hnj
    · rw [Function.update_self]
    · rw [hother j hj]
      exact h.given j hj hnj
  · intro j hj hnj hedge
    rw [hother j (hin j hj hnj)]
    exact h.ends j (hin j hj hnj) hnj hedge
  · intro j hj k hk hnj hnk he
    rw [hother j (hin j hj hnj), hother k (hin k hk hnk)] at he
    exact h.distinct j (hin j hj hnj) k (hin k hk hnk) hnj hnk he
  · have hset : {x | ∃ j ∈ insert i S, NewItem data params j ∧
        Function.update el i (givenAddr params (data.element i)) j = x} =
        {x | ∃ j ∈ S, NewItem data params j ∧ el j = x} := by
      ext x
      constructor
      · rintro ⟨j, hj, hnj, rfl⟩
        exact ⟨j, hin j hj hnj, hnj, (hother j (hin j hj hnj)).symm⟩
      · rintro ⟨j, hj, hnj, rfl⟩
        exact ⟨j, Set.mem_insert_of_mem i hj, hnj, hother j hj⟩
    rw [hset]
    exact h.grown

/-- A new element is created for an item. -/
theorem Assigned.insert_new (h : Assigned data params st0 S E el st) (hi : i ∉ S)
    (hn : NewItem data params i) (hg : GrownBy st {a} st')
    (htype : ¬ IsEdgeItem data i → EndType (data.element i).typeValue (st'.cell a).type)
    {E' : Set ℕ} (hE : E ⊆ E') (hiE : IsEdgeItem data i → i ∈ E') :
    Assigned data params st0 (insert i S) E' (Function.update el i a) st' := by
  have hother (j : ℕ) (hj : j ∈ S) : Function.update el i a j = el j := by
    rw [Function.update_of_ne]
    rintro rfl
    exact hi hj
  have hne (j : ℕ) (hj : j ∈ S) (hnj : NewItem data params j) : el j ≠ a := by
    rintro rfl
    exact type_of_live (h.new_live hj hnj) (hg.free _ rfl)
  refine ⟨?_, ?_, ?_, ?_, ?_, ?_⟩
  · rintro j (rfl | hj)
    · exact hn.imp_right And.left
    · exact h.places j hj
  · rintro j (rfl | hj) hedge
    · exact hiE hedge
    · exact hE (h.edges j hj hedge)
  · rintro j (rfl | hj) hnj
    · exact absurd hn hnj
    · rw [hother j hj]
      exact h.given j hj hnj
  · rintro j (rfl | hj) hnj hedge
    · rw [Function.update_self]
      exact htype hedge
    · rw [hother j hj, (hg.others _ (hne j hj hnj)).same.type]
      exact h.ends j hj hnj hedge
  · rintro j (rfl | hj) k (rfl | hk) hnj hnk he
    · rfl
    · rw [Function.update_self, hother k hk] at he
      exact absurd he.symm (hne k hk hnk)
    · rw [Function.update_self, hother j hj] at he
      exact absurd he (hne j hj hnj)
    · rw [hother j hj, hother k hk] at he
      exact h.distinct j hj k hk hnj hnk he
  · have hset : {x | ∃ j ∈ insert i S, NewItem data params j ∧ Function.update el i a j = x} =
        {x | ∃ j ∈ S, NewItem data params j ∧ el j = x} ∪ {a} := by
      ext x
      constructor
      · rintro ⟨j, rfl | hj, hnj, rfl⟩
        · exact Or.inr (Function.update_self _ _ _)
        · exact Or.inl ⟨j, hj, hnj, (hother j hj).symm⟩
      · rintro (⟨j, hj, hnj, rfl⟩ | rfl)
        · exact ⟨j, Set.mem_insert_of_mem i hj, hnj, hother j hj⟩
        · exact ⟨i, Set.mem_insert i S, hn, Function.update_self _ _ _⟩
    rw [hset]
    exact h.grown.trans hg

theorem isNode_or (x : ScType) (h : x.isNode = true) : scTypeNode ||| x = x := by
  have h0 : x &&& 1#16 ≠ 0 := by simpa [ScType.isNode, scTypeNode] using h
  have hbit : x.getLsbD 0 = true := by
    by_contra hb
    apply h0
    apply BitVec.eq_of_getLsbD_eq
    intro i hi
    rw [BitVec.getLsbD_and, BitVec.getLsbD_one]
    by_cases hi0 : i = 0
    · subst hi0
      simpa using hb
    · simp [hi0]
  apply BitVec.eq_of_getLsbD_eq
  intro i hi
  show (1#16 ||| x).getLsbD i = x.getLsbD i
  rw [BitVec.getLsbD_or, BitVec.getLsbD_one]
  by_cases hi0 : i = 0
  · subst hi0
    simp [hbit]
  · simp [hi0]

theorem EndCreated.endType {type : ScType} (h : EndCreated ctx type.upConstType st a st') :
    EndType type (st'.cell a).type := by
  have hnode : type.upConstType.isNode = type.isNode := by
    unfold ScType.isNode
    rw [upConstType_node]
  have hlink : type.upConstType.isLink = type.isLink := by
    unfold ScType.isLink
    rw [upConstType_link]
  have hcell : (st'.cell a).type = (endCell ctx type.upConstType).type := by
    rw [h.created.refCount.2.2.2, Function.update_self]
  rw [hcell]
  unfold endCell
  rcases h.isEnd with ⟨hn, _⟩ | ⟨hn, hl⟩
  · left
    rw [if_pos hn]
    refine ⟨hnode ▸ hn, ?_⟩
    show scFlagsRemove (scTypeNode ||| type.upConstType) = _
    rw [isNode_or _ hn]
  · right
    rw [if_neg (by rw [hn]; decide)]
    exact ⟨hnode ▸ hn, hlink ▸ hl, rfl⟩

/-- No end is created for the item of an arc. -/
theorem EndCreated.not_edge {type : ScType} (h : EndCreated ctx type.upConstType st a st')
    (hedge : type.isEdge = true) (hlink : type &&& scTypeLink = 0) : False := by
  rcases h.isEnd with ⟨_, harc⟩ | ⟨_, hl⟩
  · rw [BitVec.and_comm, upConstType_arc] at harc
    unfold ScType.isEdge at hedge
    rw [harc] at hedge
    exact absurd hedge (by decide)
  · unfold ScType.isLink at hl
    rw [upConstType_link, hlink] at hl
    exact absurd hl (by decide)

/-- What a run keeps to for the types of the edges. -/
def EdgesTyped (data : ScTemplateData) : Prop :=
  ∀ t ∈ data.triples, (data.element t.edge).typeValue.isEdge = true ∧
    (data.element t.edge).typeValue &&& scTypeLink = 0

theorem Recorded.addResult {ps : List ℕ} (hdata : ItemsOk data ps) (h : Recorded data S el result)
    (hi : el i = a) :
    Recorded data (insert i S) el (addResult (data.element i).replacementName a result) := by
  unfold Template.addResult
  split_ifs with hskip
  · refine ⟨?_, ?_⟩
    · rintro j (rfl | hj) hname
      · -- the name is there already, for the only item that has it
        have hhas : result.has (data.element j).replacementName = true := by
          rcases hskip with h0 | hhas
          · unfold ScTemplateArg.hasReplacementName at hname
            simp [h0] at hname
          · exact hhas
        obtain ⟨b, hb⟩ := Option.isSome_iff_exists.mp hhas
        obtain ⟨k, hk, hkn⟩ := h.only _ b hb
        obtain rfl := hdata.name_injective hname hkn
        exact h.named j hk hname
      · exact h.named j hj hname
    · intro name b hb
      obtain ⟨j, hj, hjn⟩ := h.only name b hb
      exact ⟨j, Set.mem_insert_of_mem i hj, hjn⟩
  · have hnew : result.has (data.element i).replacementName = false := by
      by_contra hhas
      exact hskip (Or.inr (by simpa using hhas))
    unfold ScTemplateNamedStruct.add
    refine ⟨?_, ?_⟩
    · rintro j (rfl | hj) hname
      · show Function.update result.names _ _ _ = _
        rw [Function.update_self, hi]
      · show Function.update result.names _ _ _ = _
        have hrec := h.named j hj hname
        rw [Function.update_of_ne, hrec]
        intro he
        unfold ScTemplateNamedStruct.has at hnew
        rw [← he, hrec] at hnew
        cases hnew
    · intro name b hb
      by_cases he : name = (data.element i).replacementName
      · exact ⟨i, Set.mem_insert i S, he.symm⟩
      · obtain ⟨j, hj, hjn⟩ := h.only name b
          ((Function.update_of_ne he (some a) result.names).symm.trans hb)
        exact ⟨j, Set.mem_insert_of_mem i hj, hjn⟩

theorem Recorded.congr {el' : ℕ → ScAddr} (h : Recorded data S el result)
    (hel : ∀ i ∈ S, el' i = el i) : Recorded data S el' result := by
  refine ⟨?_, h.only⟩
  intro i hi hname
  rw [hel i hi]
  exact h.named i hi hname

/-- One end of a triple is resolved. An item that has an element already is recorded, or it has the
element by itself. -/
theorem Assigned.resolve {ps : List ℕ} (hdata : ItemsOk data ps) (hedges : EdgesTyped data)
    (hun : Unshared data params) (h : Assigned data params st0 S E el st) (hend : IsEndItem data i)
    (hres : ItemResolved ctx params (data.element i) st g a st' g') (hc : CellsOk st')
    (hin : i ∈ S → NewItem data params i → (data.element i).hasReplacementName = true ∧
      g.result.names (data.element i).replacementName = some (el i))
    (hout : i ∉ S → (data.element i).hasReplacementName = true →
      g.result.names (data.element i).replacementName = none) :
    Assigned data params st0 (insert i S) E (Function.update el i a) st' ∧
      ∀ j ∈ S, Function.update el i a j = el j := by
  have hother (hi : i ∉ S) (j : ℕ) (hj : j ∈ S) : Function.update el i a j = el j := by
    rw [Function.update_of_ne]
    rintro rfl
    exact hi hj
  by_cases hnew : NewItem data params i
  · have hg : givenAddr params (data.element i) = ScAddr.empty := by
      rcases hnew with hedge | ⟨_, hg⟩
      · exact hun.ends i hedge hend
      · exact hg
    have hcases := hres.type_cases hg (hdata.type_of_given hg)
    by_cases hi : i ∈ S
    · obtain ⟨hname, hrec⟩ := hin hi hnew
      have hlive := h.new_live hi hnew
      rcases hcases with ⟨_, hfound, rfl⟩ | ⟨hunknown, hcr⟩
      · have ha : el i = a := Option.some.inj (hrec.symm.trans hfound)
        refine ⟨h.again hi ha, ?_⟩
        intro j _
        rw [← ha, Function.update_eq_self]
      · have hempty : el i = ScAddr.empty := by
          have hget := hunknown hname
          unfold ScTemplateNamedStruct.get at hget
          rw [hrec] at hget
          exact hget
        have hnot : el i ∉ ({a} : Set ScAddr) := fun hn => type_of_live hlive (hcr.grown.free _ hn)
        rw [hempty] at hlive hnot
        exact absurd ((hcr.grown.others _ hnot).same.live.mpr hlive) hc.arcs.notEmpty
    · rcases hcases with ⟨hname, hfound, _⟩ | ⟨_, hcr⟩
      · rw [hout hi hname] at hfound
        cases hfound
      · have hedge : ¬ IsEdgeItem data i := by
          rintro ⟨t, ht, rfl⟩
          exact hcr.not_edge (hedges t ht).1 (hedges t ht).2
        exact ⟨h.insert_new hi hnew hcr.grown (fun _ => hcr.endType) (le_refl E)
          (fun he => absurd he hedge), hother hi⟩
  · have hg : givenAddr params (data.element i) ≠ ScAddr.empty :=
      fun h0 => hnew (Or.inr ⟨hend, h0⟩)
    obtain ⟨ha, rfl⟩ := hres.given hg
    by_cases hi : i ∈ S
    · have ha' : el i = a := (h.given i hi hnew).trans ha.symm
      refine ⟨h.again hi ha', ?_⟩
      intro j _
      rw [← ha', Function.update_eq_self]
    · rw [ha]
      refine ⟨h.insert_given hi hend hnew, ?_⟩
      rw [← ha]
      exact hother hi

/-- The state before a triple: its places and the edges so far are those of `before`. -/
structure Progress (data : ScTemplateData) (params : ScTemplateParams) (st0 : ScStorage)
    (before : List (Triple ℕ)) (el : ℕ → ScAddr) (st : ScStorage)
    (result : ScTemplateNamedStruct) : Prop where
  assigned : Assigned data params st0 {i | i ∈ places before} {i | i ∈ before.map Triple.edge} el st
  recorded : Recorded data {i | i ∈ places before} el result

theorem places_append (l l' : List (Triple ℕ)) : places (l ++ l') = places l ++ places l' :=
  List.flatMap_append

theorem mem_places_snoc (before : List (Triple ℕ)) (t : Triple ℕ) :
    {i | i ∈ places (before ++ [t])} =
      insert t.target (insert t.edge (insert t.source {i | i ∈ places before})) := by
  have hplaces : places (before ++ [t]) = places before ++ [t.source, t.edge, t.target] := by
    rw [places_append]
    rfl
  ext i
  show i ∈ places (before ++ [t]) ↔ i = t.target ∨ i = t.edge ∨ i = t.source ∨ i ∈ places before
  rw [hplaces, List.mem_append]
  simp only [List.mem_cons, List.not_mem_nil, or_false]
  tauto

/-- A place of an anonymous item is its only one. -/
theorem ItemsOk.anonymous_once {before after : List (Triple ℕ)} {t : Triple ℕ}
    (hdata : ItemsOk data (places data.triples)) (hsplit : data.triples = before ++ t :: after)
    (hi : i ∈ t.toList) (hanon : (data.element i).isAnonymous = true) :
    i ∉ places before ∧ t.toList.count i = 1 := by
  have honce := hdata.once
  have hcount : (places data.triples).count i ≤ 1 := by
    rw [← List.count_filter (p := fun i => (data.element i).isAnonymous) hanon]
    exact List.nodup_iff_count_le_one.mp honce i
  have hpos : 1 ≤ t.toList.count i := List.count_pos_iff.mpr hi
  rw [hsplit, places_append, List.count_append] at hcount
  have hcons : places (t :: after) = t.toList ++ places after := List.flatMap_cons
  rw [hcons, List.count_append] at hcount
  refine ⟨?_, by omega⟩
  intro hmem
  have hbefore : 1 ≤ (places before).count i := List.count_pos_iff.mpr hmem
  omega

theorem Progress.step (hdata : ItemsOk data (places data.triples)) (hedges : EdgesTyped data)
    (hun : Unshared data params) {before after : List (Triple ℕ)} {t : Triple ℕ}
    (hsplit : data.triples = before ++ t :: after)
    (h : Progress data params st0 before el st g.result) {ends : Triple ScAddr}
    (hgen : TripleGenerated ctx params (data.items t) st g ends st' g') :
    ∃ el', (∀ i ∈ places before, el' i = el i) ∧ ends = t.map el' ∧
      Progress data params st0 (before ++ [t]) el' st' g'.result := by
  obtain ⟨s1, g1, s2, g2, hres1, hres2, hc1, hc2, hcr⟩ := hgen.resolved
  have ht : t ∈ data.triples := by
    rw [hsplit]
    exact List.mem_append_right _ List.mem_cons_self
  have hunrec (r : ScTemplateNamedStruct) (hr : Recorded data {i | i ∈ places before} el r) (i : ℕ)
      (hi : i ∉ places before) (hname : (data.element i).hasReplacementName = true) :
      r.names (data.element i).replacementName = none := by
    cases hn : r.names (data.element i).replacementName with
    | none => rfl
    | some b =>
      obtain ⟨j, hj, hjn⟩ := hr.only _ b hn
      obtain rfl := hdata.name_injective hname hjn
      exact absurd hj hi
  have hnamed (i : ℕ) (hi : i ∈ t.toList) (hend : IsEndItem data i) (hn : NewItem data params i)
      (hmult : i ∈ places before ∨ t.toList.count i ≠ 1) :
      (data.element i).hasReplacementName = true := by
    by_contra hname
    have hg : givenAddr params (data.element i) = ScAddr.empty := by
      rcases hn with hedge | ⟨_, hg⟩
      · exact hun.ends i hedge hend
      · exact hg
    have hanon : (data.element i).isAnonymous = true := by
      unfold ScTemplateArg.isAnonymous
      rw [hdata.type_of_given hg]
      simpa using hname
    obtain ⟨h1, h2⟩ := hdata.anonymous_once hsplit hi hanon
    exact hmult.elim h1 (fun h3 => h3 h2)
  have hsend : IsEndItem data t.source := ⟨t, ht, Or.inl rfl⟩
  have htend : IsEndItem data t.target := ⟨t, ht, Or.inr rfl⟩
  have hsmem : t.source ∈ t.toList := by simp [Triple.toList]
  have htmem : t.target ∈ t.toList := by simp [Triple.toList]
  -- the source
  obtain ⟨h1, hkeep1⟩ := h.assigned.resolve hdata hedges hun hsend hres1 hc1
    (fun hi hn => by
      have hname := hnamed t.source hsmem hsend hn (Or.inl hi)
      exact ⟨hname, h.recorded.named _ hi hname⟩)
    (fun hi hname => hunrec _ h.recorded t.source hi hname)
  set el1 := Function.update el t.source ends.source with hel1
  -- the target, which is the source only when that has been there before
  obtain ⟨h2, hkeep2⟩ := h1.resolve hdata hedges hun htend hres2 hc2
    (fun hi hn => by
      have hbefore : t.target ∈ places before := by
        rcases hi with he | hi
        · rw [he]
          refine hun.loops before t after hsplit he.symm ?_
          rw [← he]
          rcases hn with hedge | ⟨_, hg⟩
          · exact hun.ends _ hedge htend
          · exact hg
        · exact hi
      have hname := hnamed t.target htmem htend hn (Or.inl hbefore)
      refine ⟨hname, ?_⟩
      rw [hres1.result_eq, hkeep1 _ hbefore]
      exact h.recorded.named _ hbefore hname)
    (fun hi hname => by
      rw [hres1.result_eq]
      exact hunrec _ h.recorded t.target (fun hb => hi (Or.inr hb)) hname)
  set el2 := Function.update el1 t.target ends.target with hel2
  -- the arc, whose item has not been met before
  have hedgeItem : IsEdgeItem data t.edge := ⟨t, ht, rfl⟩
  have hnot : t.edge ∉ insert t.target (insert t.source {i | i ∈ places before}) := by
    intro hi
    have hE := h2.edges _ hi hedgeItem
    have hnodup := hun.edges
    rw [hsplit, List.map_append, List.map_cons] at hnodup
    have hdisj := List.disjoint_of_nodup_append hnodup
    exact hdisj hE List.mem_cons_self
  have hE : {i | i ∈ before.map Triple.edge} ⊆ {i | i ∈ (before ++ [t]).map Triple.edge} := by
    intro i hi
    show i ∈ (before ++ [t]).map Triple.edge
    rw [List.map_append]
    exact List.mem_append_left _ hi
  have htE : t.edge ∈ {i | i ∈ (before ++ [t]).map Triple.edge} := by
    show t.edge ∈ (before ++ [t]).map Triple.edge
    rw [List.map_append]
    exact List.mem_append_right _ List.mem_cons_self
  have h3 := h2.insert_new hnot (Or.inl hedgeItem) (hcr.grown hc2)
    (fun hne => absurd hedgeItem hne) hE (fun _ => htE)
  set el3 := Function.update el2 t.edge ends.edge with hel3
  have hkeep3 (j : ℕ) (hj : j ∈ insert t.target (insert t.source {i | i ∈ places before})) :
      el3 j = el2 j := by
    rw [hel3, Function.update_of_ne]
    rintro rfl
    exact hnot hj
  have hset : insert t.edge (insert t.target (insert t.source {i | i ∈ places before})) =
      {i | i ∈ places (before ++ [t])} := by
    rw [mem_places_snoc, Set.insert_comm]
  have hall (i : ℕ) (hi : i ∈ places before) : el3 i = el i := by
    rw [hkeep3 i (Or.inr (Or.inr hi)), hkeep2 i (Or.inr hi), hkeep1 i hi]
  have hsource : el3 t.source = ends.source := by
    rw [hkeep3 _ (Or.inr (Set.mem_insert _ _)), hkeep2 _ (Set.mem_insert _ _), hel1,
      Function.update_self]
  have htarget : el3 t.target = ends.target := by
    rw [hkeep3 _ (Set.mem_insert _ _), hel2, Function.update_self]
  have hedge : el3 t.edge = ends.edge := by
    rw [hel3, Function.update_self]
  refine ⟨el3, hall, ?_, ⟨?_, ?_⟩⟩
  · unfold Triple.map
    rw [hsource, hedge, htarget]
  · rw [← hset]
    exact h3
  · rw [mem_places_snoc, hgen.result]
    have hr := ((h.recorded.congr hall).addResult hdata hsource).addResult hdata hedge
    exact hr.addResult hdata htarget

theorem map_congr_places {t : Triple ℕ} {el' : ℕ → ScAddr} (h : ∀ i ∈ t.toList, el' i = el i) :
    t.map el' = t.map el := by
  unfold Triple.map
  rw [h t.source (by simp [Triple.toList]), h t.edge (by simp [Triple.toList]),
    h t.target (by simp [Triple.toList])]

/-- All the triples that are left. -/
theorem Progress.run (hdata : ItemsOk data (places data.triples)) (hedges : EdgesTyped data)
    (hun : Unshared data params) {before after : List (Triple ℕ)}
    (hsplit : data.triples = before ++ after) (h : Progress data params st0 before el st g.result)
    {ends : List (Triple ScAddr)}
    (hgen : TriplesGenerated ctx params (after.map data.items) st g ends st' g') :
    ∃ el', (∀ i ∈ places before, el' i = el i) ∧ ends = after.map (fun t => t.map el') ∧
      Progress data params st0 data.triples el' st' g'.result := by
  induction after generalizing before el st g ends with
  | nil =>
    cases hgen with
    | nil _ _ =>
      rw [List.append_nil] at hsplit
      rw [hsplit]
      exact ⟨el, fun _ _ => rfl, rfl, h⟩
  | cons t after ih =>
    rw [List.map_cons] at hgen
    cases hgen with
    | cons h1 h2 =>
      obtain ⟨el1, hkeep1, hends1, hp1⟩ := h.step hdata hedges hun hsplit h1
      have hsplit' : data.triples = (before ++ [t]) ++ after := by
        rw [hsplit, List.append_assoc]
        rfl
      obtain ⟨el2, hkeep2, hends2, hp2⟩ := ih hsplit' hp1 h2
      have hplaces : places (before ++ [t]) = places before ++ t.toList := by
        rw [places_append]
        simp [places]
      rw [hplaces] at hkeep2
      refine ⟨el2, ?_, ?_, hp2⟩
      · intro i hi
        rw [hkeep2 i (List.mem_append_left _ hi), hkeep1 i hi]
      · rw [List.map_cons, hends1, hends2,
          map_congr_places fun i hi => hkeep2 i (List.mem_append_right _ hi)]

theorem TriplesGenerated.edge_types {ts : List (Triple ScTemplateArg)}
    {ends : List (Triple ScAddr)} (h : TriplesGenerated ctx params ts st g ends st' g') :
    ∀ t ∈ ts, t.edge.kind = .type ∧ t.edge.typeValue.isEdge = true := by
  induction h with
  | nil st g => simp
  | cons h1 _ ih =>
    rintro t ht
    rcases List.mem_cons.mp ht with rfl | ht
    · exact h1.edgeType
    · exact ih t ht

theorem mem_places {t : Triple ℕ} (ht : t ∈ data.triples) (hi : i ∈ t.toList) :
    i ∈ places data.triples :=
  List.mem_flatMap.mpr ⟨t, ht, hi⟩

theorem NewItem.mem_places (h : NewItem data params i) : i ∈ places data.triples := by
  rcases h with ⟨t, ht, rfl⟩ | ⟨⟨t, ht, rfl | rfl⟩, _⟩
  · exact Template.mem_places ht (by simp [Triple.toList])
  · exact Template.mem_places ht (by simp [Triple.toList])
  · exact Template.mem_places ht (by simp [Triple.toList])

theorem progress_start (data : ScTemplateData) (params : ScTemplateParams) (st : ScStorage) :
    Progress data params st [] (fun _ => ScAddr.empty) st ScTemplateNamedStruct.empty := by
  have hnone : {i | i ∈ places []} = (∅ : Set ℕ) := by simp [places]
  refine ⟨?_, ?_⟩
  · rw [hnone]
    have hset : {x : ScAddr | ∃ i ∈ (∅ : Set ℕ), NewItem data params i ∧ ScAddr.empty = x} = ∅ := by
      simp
    exact ⟨fun _ h => h.elim, fun _ h => h.elim, fun _ h => h.elim, fun _ h => h.elim,
      fun _ h => h.elim, hset ▸ GrownBy.refl st⟩
  · rw [hnone]
    exact ⟨fun _ h => h.elim, fun _ _ h => absurd h (by simp [ScTemplateNamedStruct.empty])⟩

theorem TriplesGenerated.realises {asserts : Bool} (hdata : ItemsOk data (places data.triples))
    (harc : ∀ t ∈ data.triples, ArcTyped asserts (data.items t)) (hun : Unshared data params)
    {ends : List (Triple ScAddr)}
    (h : TriplesGenerated ctx params (data.triples.map data.items) st
      ⟨ScTemplateNamedStruct.empty, []⟩ ends st' g') :
    ∃ el, Realises data params st st' g'.result (ends.map Triple.edge) el := by
  have hedges : EdgesTyped data :=
    fun t ht => ⟨(h.edge_types _ (List.mem_map_of_mem ht)).2, (harc t ht).1⟩
  have hsplit : data.triples = [] ++ data.triples := rfl
  obtain ⟨el, _, hends, hp⟩ := Progress.run hdata hedges hun hsplit (progress_start data params st) h
  have hend (i : ℕ) (hi : IsEndItem data i) : i ∈ places data.triples := by
    obtain ⟨t, ht, rfl | rfl⟩ := hi
    · exact Template.mem_places ht (by simp [Triple.toList])
    · exact Template.mem_places ht (by simp [Triple.toList])
  refine ⟨el, ?_, ?_, ?_, ?_, ?_, ?_, ?_⟩
  · intro t ht i hi hname
    exact hp.recorded.named i (Template.mem_places ht hi) hname
  · rw [hends, List.map_map]
    rfl
  · intro t ht
    obtain ⟨n, hn⟩ := List.mem_iff_getElem?.mp ht
    exact (h.arcs n (by rw [List.getElem?_map, hn]; rfl)
      (by rw [hends, List.getElem?_map, hn]; rfl)).1
  · intro i hi hg
    apply hp.assigned.given i (hend i hi)
    rintro (hedge | ⟨_, h0⟩)
    · exact hg (hun.ends i hedge hi)
    · exact hg h0
  · intro i hi hedge hg
    exact hp.assigned.ends i (hend i hi) (Or.inr ⟨hi, hg⟩) hedge
  · intro i j hi hj
    exact hp.assigned.distinct i hi.mem_places j hj.mem_places hi hj
  · have hset : {x | ∃ i, NewItem data params i ∧ el i = x} =
        {x | ∃ i ∈ {i | i ∈ places data.triples}, NewItem data params i ∧ el i = x} := by
      ext x
      constructor
      · rintro ⟨i, hi, rfl⟩
        exact ⟨i, hi.mem_places, hi, rfl⟩
      · rintro ⟨i, _, hi, rfl⟩
        exact ⟨i, hi, rfl⟩
    rw [hset]
    exact hp.assigned.grown

theorem TriplesGenerated.split {before after : List (Triple ScTemplateArg)}
    {t : Triple ScTemplateArg} {ends : List (Triple ScAddr)}
    (h : TriplesGenerated ctx params (before ++ t :: after) st g ends st' g') :
    ∃ ends1 e ends2 s1 g1 s2 g2, ends = ends1 ++ e :: ends2 ∧
      TriplesGenerated ctx params before st g ends1 s1 g1 ∧
      TripleGenerated ctx params t s1 g1 e s2 g2 ∧
      TriplesGenerated ctx params after s2 g2 ends2 st' g' := by
  induction before generalizing st g ends with
  | nil =>
    cases h with
    | cons h1 h2 => exact ⟨[], _, _, st, g, _, _, rfl, TriplesGenerated.nil st g, h1, h2⟩
  | cons t1 before ih =>
    cases h with
    | cons h1 h2 =>
      obtain ⟨ends1, e, ends2, s1, g1, s2, g2, rfl, hb, ht, ha⟩ := ih h2
      exact ⟨_ :: ends1, e, ends2, s1, g1, s2, g2, rfl, TriplesGenerated.cons h1 hb, ht, ha⟩

theorem TriplesGenerated.namesFrom {ps qs : List ℕ} (hdata : ItemsOk data ps) {new : Set ScAddr}
    (hg : GrownBy st0 new st) (hn : NamesFrom data params st0 qs g.result) {ts : List (Triple ℕ)}
    {ends : List (Triple ScAddr)}
    (h : TriplesGenerated ctx params (ts.map data.items) st g ends st' g') :
    NamesFrom data params st0 (qs ++ places ts) g'.result := by
  induction ts generalizing st g ends qs new with
  | nil =>
    cases h with
    | nil _ _ => simpa [places] using hn
  | cons t ts ih =>
    rw [List.map_cons] at h
    cases h with
    | cons h1 h2 =>
      obtain ⟨_, _, hn1⟩ := h1.names hdata hg hn
      obtain ⟨n1, hg1, _⟩ := h1.grown
      have hrest := ih (hg.trans hg1) hn1 h2
      rw [List.append_assoc] at hrest
      exact hrest

/-- An item that is met for the first time, twice in one triple, gets two elements. -/
theorem TripleGenerated.loop_two {ps qs : List ℕ} (hdata : ItemsOk data ps)
    (hn : NamesFrom data params st0 qs g.result) {t : Triple ℕ} {e : Triple ScAddr}
    (h : TripleGenerated ctx params (data.items t) st g e st' g') (hloop : t.source = t.target)
    (hgiven : givenAddr params (data.element t.source) = ScAddr.empty) (hnot : t.source ∉ qs) :
    e.source ≠ e.target := by
  obtain ⟨s1, g1, s2, g2, hres1, hres2, _, _, _⟩ := h.resolved
  have htype := hdata.type_of_given hgiven
  have hfresh (s : ScStorage) (g3 : GenerateState) (hr : g3.result = g.result) (a : ScAddr)
      (s3 : ScStorage) (g4 : GenerateState)
      (hres : ItemResolved ctx params (data.element t.source) s g3 a s3 g4) : GrownBy s {a} s3 := by
    rcases hres.type_cases hgiven htype with ⟨hname, hfound, _⟩ | ⟨_, hcr⟩
    · rw [hr] at hfound
      obtain ⟨j, hj, hjn, _⟩ := hn _ _ hfound
      obtain rfl := hdata.name_injective hname hjn
      exact absurd hj hnot
    · exact hcr.grown
  have hg1 := hfresh _ _ rfl _ _ _ hres1
  have hres2' : ItemResolved ctx params (data.element t.source) s1 g1 e.target s2 g2 := by
    rw [hloop]
    exact hres2
  have hg2 := hfresh _ _ hres1.result_eq _ _ _ hres2'
  intro he
  exact type_of_live (hg1.live _ rfl) (hg2.free _ he)

theorem ownParam_mem (i : ℕ) (h : ownParam params (data.element i) ≠ ScAddr.empty) :
    (data.element i).hasReplacementName = true ∧ ∃ p ∈ params.values,
      p.1 = (data.element i).replacementName ∧ p.2 = ownParam params (data.element i) := by
  unfold ownParam at h ⊢
  split_ifs at h ⊢ with hname
  · refine ⟨hname, ?_⟩
    unfold ScTemplateParams.tryGet at h ⊢
    cases hf : params.values.find? fun p => p.1 == (data.element i).replacementName with
    | none =>
      rw [hf] at h
      exact absurd rfl h
    | some p => exact ⟨p, List.mem_of_find?_eq_some hf, by simpa using List.find?_some hf, rfl⟩
  · exact absurd rfl h

/-- A template that is realised has shared nothing. -/
theorem TriplesGenerated.unshared (hdata : ItemsOk data (places data.triples))
    (hlive : ∀ p ∈ params.values, Live st.cell p.2) {ends : List (Triple ScAddr)}
    (h : TriplesGenerated ctx params (data.triples.map data.items) st
      ⟨ScTemplateNamedStruct.empty, []⟩ ends st' g')
    (hreal : Realises data params st st' g'.result (ends.map Triple.edge) el) :
    Unshared data params := by
  have harcs := hreal.arcs_eq
  have hend (n : ℕ) (t : Triple ℕ) (e : Triple ScAddr) (ht : data.triples[n]? = some t)
      (he : ends[n]? = some e) : e.edge = el t.edge := by
    have hn := congrArg (fun l => l[n]?) harcs
    simp only [List.getElem?_map, ht, he, Option.map_some] at hn
    exact Option.some.inj hn
  refine ⟨?_, ?_, ?_⟩
  · intro before t after hsplit hloop hgiven
    by_contra hnot
    have h' := h
    rw [hsplit, List.map_append, List.map_cons] at h'
    obtain ⟨ends1, e, ends2, s1, g1, s2, g2, rfl, hb, ht, _⟩ := h'.split
    have hnames := hb.namesFrom hdata (GrownBy.refl st) (namesFrom_empty data params st)
    rw [List.nil_append] at hnames
    have htwo := ht.loop_two hdata hnames hloop hgiven hnot
    -- the arc of the triple ends in one element
    have hlen : ends1.length = before.length := by
      rw [hb.length_eq, List.length_map]
    have htn : data.triples[before.length]? = some t := by
      rw [hsplit, List.getElem?_append_right (le_refl _)]
      simp
    have hen : (ends1 ++ e :: ends2)[before.length]? = some e := by
      rw [← hlen, List.getElem?_append_right (le_refl _)]
      simp
    obtain ⟨hbetween, _⟩ := h.arcs before.length (by rw [List.getElem?_map, htn]; rfl) hen
    have hel := hreal.arc t (List.mem_of_getElem? htn)
    have hedge := hend _ _ _ htn hen
    apply htwo
    rw [← hbetween.source, ← hbetween.target, hedge]
    have hs : ownerOf st'.cell .out (el t.edge) = el t.source := hel.source
    have ht : ownerOf st'.cell .inp (el t.edge) = el t.target := hel.target
    rw [hs, ht, hloop]
  · have hnodup := h.arcs_nodup
    have hcomp : (data.triples.map fun t => el t.edge) = (data.triples.map Triple.edge).map el := by
      rw [List.map_map]
      rfl
    rw [harcs, hcomp] at hnodup
    exact hnodup.of_map
  · rintro i ⟨t, ht, rfl⟩ hi
    by_contra hne
    have hel := hreal.given _ hi hne
    obtain ⟨n, hn⟩ := List.mem_iff_getElem?.mp ht
    have hlt : n < ends.length := by
      rw [h.length_eq, List.length_map]
      exact (List.getElem?_eq_some_iff.mp hn).1
    have he : ends[n]? = some ends[n] := List.getElem?_eq_getElem hlt
    obtain ⟨_, hfree⟩ := h.arcs n (by rw [List.getElem?_map, hn]; rfl) he
    rw [hend n t _ hn he, hel] at hfree
    -- what an edge has by itself can only be a parameter
    have htype : (data.element t.edge).kind = .type :=
      (h.edge_types _ (List.mem_map_of_mem ht)).1
    have hown : ownParam params (data.element t.edge) = givenAddr params (data.element t.edge) := by
      unfold givenAddr at hne ⊢
      by_cases h0 : ownParam params (data.element t.edge) = ScAddr.empty
      · rw [if_neg (not_not.mpr h0), htype] at hne
        exact absurd rfl hne
      · rw [if_pos h0]
    obtain ⟨_, p, hp, _, hpv⟩ := ownParam_mem t.edge (hown ▸ hne)
    rw [← hown, ← hpv] at hfree
    exact type_of_live (hlive p hp) hfree

/-- In every memory state and for every template: a generation that returns a result realises the
template when nothing is shared, and only then when the parameters are elements. -/
theorem generate_realises {asserts : Bool} {thread : ℕ} {env : ScEnv} (evs : List StoreEvent)
    (hr : Run (OwnStep thread) ScStorage.empty evs st) (henv : env.thread = thread)
    (order : HashOrder) (hdata : Built data)
    (harc : ∀ t ∈ data.triples, ArcTyped asserts (data.items t))
    {r : ScTemplateNamedStruct}
    (hdo : scTemplateGenerateDo asserts env ctx order data params st = .ok (.generated r, st')) :
    ∃ arcs g, generateTriples asserts env ctx params (data.triples.map data.items)
        ⟨ScTemplateNamedStruct.empty, []⟩ st = .ok (.ok (some arcs, g), st') ∧ g.result = r ∧
      (Unshared data params → ∃ el, Realises data params st st' r arcs el) ∧
      ((∀ p ∈ params.values, Live st.cell p.2) →
        (∃ el, Realises data params st st' r arcs el) → Unshared data params) := by
  subst henv
  have hok := ownRun_storeOk evs st hr
  obtain ⟨_, _, g', arcs, hgen, rfl, ends, rfl, hrun⟩ :=
    scTemplateGenerateDo_generated hok order harc hdo
  exact ⟨_, g', hgen, rfl, hrun.realises hdata.itemsOk harc,
    fun hlive ⟨_, hreal⟩ => hrun.unshared hdata.itemsOk hlive hreal⟩

end

theorem exampleAlias_triples (t : Triple ℕ) (ht : t ∈ (templateOf exampleAlias).triples) :
    t = ⟨0, 1, 2⟩ := by
  have hall : ∀ t ∈ (templateOf exampleAlias).triples, t = ⟨0, 1, 2⟩ := by decide
  exact hall t ht

theorem exampleAlias_unshared (params : ScTemplateParams) :
    Unshared (templateOf exampleAlias) params := by
  refine ⟨?_, by decide, ?_⟩
  · intro before t after hsplit hloop
    have ht := exampleAlias_triples t (by rw [hsplit]; simp)
    rw [ht] at hloop
    cases hloop
  · rintro i ⟨t, ht, rfl⟩ ⟨t', ht', he⟩
    rw [exampleAlias_triples t ht, exampleAlias_triples t' ht'] at he
    exact absurd he (by decide)

theorem generate_realises_one : ∃ r st',
    exampleDo true (templateOf exampleAlias) (oneParam "_y") = .ok (.generated r, st') ∧ ∃ arcs el,
      Realises (templateOf exampleAlias) (oneParam "_y")
        (stateAfterEvents twoNodes ScStorage.empty) st' r arcs el := by
  have hgen : isGenerated (exampleDo true (templateOf exampleAlias) (oneParam "_y")) = true := by
    decide +kernel
  obtain ⟨r, st', hdo⟩ := exists_of_isGenerated hgen
  obtain ⟨arcs, g, _, _, hreal, _⟩ := generate_realises twoNodes twoNodes_run rfl listedOrder
    exampleAlias_built (exampleAlias_arcTyped true) hdo
  exact ⟨r, st', hdo, arcs, hreal (exampleAlias_unshared _)⟩

/-- `_x` is joined to itself. -/
def exampleLoop : Except ScException ScTemplateData :=
  ScTemplateData.empty.addTriple
    ⟨.ofType scTypeNodeVar "_x", .ofType scTypeEdgeAccessVarPosPerm "", .ofName "_x"⟩

/-- Two nodes are created for `_x`. -/
theorem loop_not_realised : ¬ ∀ (asserts : Bool) (evs : List StoreEvent) (st st' : ScStorage)
    (data : ScTemplateData) (params : ScTemplateParams) (r : ScTemplateNamedStruct)
    (arcs : List ScAddr) (g : GenerateState), Run (OwnStep 1) ScStorage.empty evs st → Built data →
      (∀ t ∈ data.triples, ArcTyped asserts (data.items t)) →
      scTemplateGenerateDo asserts exampleEnv exampleContext listedOrder data params st =
        .ok (.generated r, st') →
      generateTriples asserts exampleEnv exampleContext params (data.triples.map data.items)
        ⟨ScTemplateNamedStruct.empty, []⟩ st = .ok (.ok (some arcs, g), st') →
      ∃ el, Realises data params st st' r arcs el := by
  intro hall
  have hbuilt : Built (templateOf exampleLoop) :=
    Built.triple _ Built.empty (templateOf_ok (by decide))
  have harc : ∀ t ∈ (templateOf exampleLoop).triples, ArcTyped true ((templateOf exampleLoop).items t) := by
    unfold ArcTyped
    decide
  have hgen : isGenerated (exampleDo true (templateOf exampleLoop) ScTemplateParams.empty) = true := by
    decide +kernel
  obtain ⟨r, st', hdo⟩ := exists_of_isGenerated hgen
  have hok := ownRun_storeOk twoNodes _ twoNodes_run
  obtain ⟨_, _, g, arcs, hrun, _⟩ := scTemplateGenerateDo_generated hok listedOrder harc hdo
  obtain ⟨el, hreal⟩ := hall true twoNodes _ st' _ _ r arcs g twoNodes_run hbuilt harc hdo hrun
  have hmem : (⟨0, 1, 0⟩ : Triple ℕ) ∈ (templateOf exampleLoop).triples := by decide
  have hends : endsOf (generateTriples true exampleEnv exampleContext ScTemplateParams.empty
      ((templateOf exampleLoop).triples.map (templateOf exampleLoop).items)
      ⟨ScTemplateNamedStruct.empty, []⟩ (stateAfterEvents twoNodes ScStorage.empty)) =
        [⟨⟨0, 65⟩, ⟨0, 129⟩, ⟨0, 97⟩⟩] := by decide +kernel
  rw [hrun] at hends
  have hsource : ownerOf st'.cell .out (el 1) = el 0 := (hreal.arc _ hmem).source
  have htarget : ownerOf st'.cell .inp (el 1) = el 0 := (hreal.arc _ hmem).target
  have harcs : arcs = [el 1] := by
    rw [hreal.arcs_eq]
    have htriples : (templateOf exampleLoop).triples = [⟨0, 1, 0⟩] := by decide
    rw [htriples]
    rfl
  subst harcs
  have hend : (⟨ownerOf st'.cell .out (el 1), el 1, ownerOf st'.cell .inp (el 1)⟩ : Triple ScAddr) =
      ⟨⟨0, 65⟩, ⟨0, 129⟩, ⟨0, 97⟩⟩ := (List.cons.inj hends).1
  rw [hsource, htarget] at hend
  obtain ⟨hs, _, ht⟩ := Triple.mk.inj hend
  rw [hs] at ht
  exact absurd ht (by decide)

end ScMachine.Template
