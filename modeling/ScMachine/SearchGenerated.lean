import ScMachine.GenerateExact
import ScMachine.SearchAnchors
import ScMachine.SearchComplete
import ScMachine.SearchTypes

/-! What a generation has made is found by a search with the same template and parameters, when every
arc has an item of its own and creation keeps the types that the search asks for. -/
namespace ScMachine.Template
open ScMachine.Store ScMachine.StateExcept ScMachine.Runs ScMachine.Backtracking

/-- One of the results of a search binds the name of every item as the generation has. -/
def FoundAgain (data : ScTemplateData) (r : ScTemplateNamedStruct) (results : List SearchResult) :
    Prop :=
  ∃ res ∈ results, ∀ t ∈ data.triples, ∀ i ∈ t.toList, (data.element i).hasReplacementName = true →
    res.names (data.element i).replacementName = r.names (data.element i).replacementName

/-- Every key is the name of an item. -/
def KeysNamed (data : ScTemplateData) (params : ScTemplateParams) : Prop :=
  ∀ p ∈ params.values, ∃ i, (data.element i).hasReplacementName = true ∧
    (data.element i).replacementName = p.1

/-- No parameter stands for an edge, and what is created for an item has the type that a search asks
for. -/
structure Kept (asserts : Bool) (data : ScTemplateData) (params : ScTemplateParams) : Prop where
  arcTyped : ∀ t ∈ data.triples, ArcTyped asserts (data.items t)
  noParam : ∀ t ∈ data.triples, ownParam params (data.element t.edge) = ScAddr.empty
  keptEdges : ∀ t ∈ data.triples, let type := (data.element t.edge).typeValue
    prepareType type &&& arcTypeOf type.upConstType = prepareType type
  keptEnds : ∀ i, IsEndItem data i → ¬ IsEdgeItem data i →
    givenAddr params (data.element i) = ScAddr.empty → ∀ created,
      EndType (data.element i).typeValue created →
        prepareType (data.element i).typeValue &&& created = prepareType (data.element i).typeValue

/-- The context may read the elements that are given for the ends of the triples. -/
def GivenReadable (ctx : ScContext) (data : ScTemplateData) (params : ScTemplateParams) (st : ScStorage) :
    Prop :=
  ∀ i, IsEndItem data i → Live st.cell (givenAddr params (data.element i)) →
    CanRead ctx st.cell (givenAddr params (data.element i))

section
variable {asserts : Bool} {ctx : ScContext} {data data' : ScTemplateData} {params : ScTemplateParams}
  {st s st' : ScStorage} {g g' : GenerateState} {i : ℕ} {a x : ScAddr} {el : ℕ → ScAddr}
  {r : ScTemplateNamedStruct} {type : ScType}

/-- Every element is as it was, or it has the access levels of the context. -/
def NewLevels (ctx : ScContext) (st st' : ScStorage) : Prop :=
  ∀ x, Untouched st st' x ∨ (st'.cell x).accessLevels = ctx.accessLevels

theorem NewLevels.refl (ctx : ScContext) (st : ScStorage) : NewLevels ctx st st :=
  fun x => Or.inl (Untouched.of_unlocked rfl x)

theorem NewLevels.trans (h : NewLevels ctx st s) (h' : NewLevels ctx s st') :
    NewLevels ctx st st' := by
  intro x
  rcases h' x with hun' | hl'
  · rcases h x with hun | hl
    · exact Or.inl (hun.trans hun')
    · exact Or.inr (hun'.same.accessLevels.trans hl)
  · exact Or.inr hl'

theorem EndCreated.newLevels (h : EndCreated ctx type st a st') : NewLevels ctx st st' := by
  intro x
  by_cases hx : x = a
  · right
    rw [hx, h.created.refCount.2.2.2, Function.update_self]
    unfold endCell
    split_ifs <;> rfl
  · exact Or.inl (h.created.untouched hx)

theorem ItemResolved.newLevels {item : ScTemplateArg}
    (h : ItemResolved ctx params item st g a st' g') : NewLevels ctx st st' := by
  cases h with
  | known _ => exact NewLevels.refl ctx st
  | fresh _ _ _ _ hcr => exact hcr.newLevels

theorem TripleGenerated.newLevels {t : Triple ScTemplateArg} {ends : Triple ScAddr}
    (h : TripleGenerated ctx params t st g ends st' g') : NewLevels ctx st st' := by
  obtain ⟨s1, g1, s2, g2, hres1, hres2, _, hc2, hcr⟩ := h.resolved
  have harc : NewLevels ctx s2 st' := by
    intro x
    by_cases hx : x = ends.edge
    · exact Or.inr (hx ▸ hcr.typeOf.2)
    · exact Or.inl (hcr.untouched hc2 hx)
  exact (hres1.newLevels.trans hres2.newLevels).trans harc

theorem TriplesGenerated.newLevels {ts : List (Triple ScTemplateArg)} {ends : List (Triple ScAddr)}
    (h : TriplesGenerated ctx params ts st g ends st' g') : NewLevels ctx st st' := by
  induction h with
  | nil st g => exact NewLevels.refl ctx st
  | cons h1 _ ih => exact h1.newLevels.trans ih

/-- What is new can be read by the context that has created it. -/
theorem NewLevels.canRead (h : NewLevels ctx st st') (hfree : (st.cell x).type = 0)
    (hlive : Live st'.cell x) : CanRead ctx st'.cell x := by
  rcases h x with hun | hl
  · exact absurd hfree (type_of_live (hun.same.live.mp hlive))
  · unfold CanRead scAccessLvlCheckRead
    rw [hl]
    exact decide_eq_true (le_refl _)

theorem EndType.scFlagsRemove_eq {created : ScType} (h : EndType type created) :
    scFlagsRemove created = created := by
  rcases h with ⟨_, rfl⟩ | ⟨_, _, rfl⟩
  · exact flagsRemove_idem _
  · decide

/-- An item of an edge or of a new end has a class of elements. -/
theorem EndType.elementMask {created : ScType} (h : EndType type created) :
    type &&& scTypeElementMask ≠ 0 := by
  have hsub (mask : ScType) (hm : type &&& mask ≠ 0) (he : scTypeElementMask &&& mask = mask) :
      type &&& scTypeElementMask ≠ 0 := by
    intro h0
    apply hm
    rw [← he, ← BitVec.and_assoc, h0]
    exact BitVec.zero_and
  rcases h with ⟨hn, _⟩ | ⟨_, hl, _⟩
  · exact hsub scTypeNode (by simpa [ScType.isNode] using hn) (by decide)
  · exact hsub scTypeLink (by simpa [ScType.isLink] using hl) (by decide)

theorem ownParam_of_key {ps : List ℕ} (hdata : ItemsOk data ps) (hkeys : KeysNamed data params)
    {p : String × ScAddr} (hp : p ∈ params.values) (hi : data.repl p.1 = some i) :
    ownParam params (data.element i) = p.2 := by
  obtain ⟨j, hname, hkey⟩ := hkeys p hp
  have hj := hdata.named j hname
  rw [hkey, hi] at hj
  obtain rfl := Option.some.inj hj
  unfold ownParam
  rw [if_pos hname, hkey, tryGet_mem hp]

/-- The parameters leave an item that has nothing by itself, and fix the others to what they have. -/
theorem applied_cases {ps : List ℕ} {typeOf : ScAddr → ScType} (hdata : ItemsOk data ps)
    (hkeys : KeysNamed data params) (hempty : typeOf ScAddr.empty = 0)
    (happly : applyParameters typeOf data params.values = .ok data') (i : ℕ) :
    ((data'.element i).kind = .addr ∧ (data'.element i).addrValue = givenAddr params (data.element i) ∧
      (givenAddr params (data.element i) = ScAddr.empty →
        (data.element i).typeValue &&& scTypeElementMask = 0)) ∨
    (data'.element i = data.element i ∧ (data.element i).kind = .type ∧
      givenAddr params (data.element i) = ScAddr.empty) := by
  obtain ⟨_, _, hitems⟩ := applyParameters_items happly
  obtain ⟨_, _, hfix⟩ := applyParameters_fixes happly
  rcases hitems i with he | ⟨p, hp, hi, hk, hassign, he⟩
  · by_cases hown : ownParam params (data.element i) = ScAddr.empty
    · have hgiven : givenAddr params (data.element i) =
          if (data.element i).kind = .addr then (data.element i).addrValue else ScAddr.empty := by
        unfold givenAddr
        rw [if_neg (not_not.mpr hown)]
      cases hk : (data.element i).kind with
      | addr =>
        rw [if_pos hk] at hgiven
        left
        rw [he]
        exact ⟨hk, hgiven.symm, fun h0 => absurd (hgiven.symm.trans h0) (hdata.addrs i hk).1⟩
      | type =>
        rw [hk, if_neg Kind.noConfusion] at hgiven
        right
        exact ⟨he, rfl, hgiven⟩
      | replace => exact absurd hk (hdata.kinds i)
    · -- its own name is a key
      have hgiven : givenAddr params (data.element i) = ownParam params (data.element i) := if_pos hown
      obtain ⟨hname, p, hp, hkey, hvalue⟩ := ownParam_mem i hown
      obtain ⟨j, hj, hkind, haddr⟩ := hfix p hp
      rw [hkey, hdata.named i hname] at hj
      obtain rfl := Option.some.inj hj
      refine Or.inl ⟨hkind, haddr.trans (hvalue.trans hgiven.symm), fun h0 => ?_⟩
      exact absurd (hgiven.symm.trans h0) hown
  · have hown := ownParam_of_key hdata hkeys hp hi
    have hgiven : givenAddr params (data.element i) = p.2 := by
      unfold givenAddr
      rw [hown, hk]
      split_ifs with h0 haddr
      · rfl
      · cases haddr
      · exact (not_not.mp h0).symm
    refine Or.inl ⟨by rw [he], by rw [he, hgiven], fun h0 => ?_⟩
    rw [hgiven] at h0
    rw [h0, hempty] at hassign
    unfold canAssignParam at hassign
    dsimp only at hassign
    split_ifs at hassign with hclass
    have hmask : (data.element i).typeValue &&& scTypeElementMask = 0 &&& scTypeElementMask := by
      simpa using hclass
    exact hmask

theorem isEdge_elementMask (h : type.isEdge = true) : type &&& scTypeElementMask ≠ 0 := by
  intro h0
  have hedge : type &&& scTypeArcMask ≠ 0 := by simpa [ScType.isEdge] using h
  apply hedge
  have hand : type &&& scTypeArcMask = (type &&& scTypeElementMask) &&& scTypeArcMask := by
    rw [BitVec.and_assoc]
    rfl
  rw [hand, h0]
  exact BitVec.zero_and

/-- An edge has nothing by itself. -/
theorem Kept.edge_given (hkept : Kept asserts data params)
    (hedges : ∀ t ∈ data.triples, (data.element t.edge).kind = .type ∧
      (data.element t.edge).typeValue.isEdge = true) (hi : IsEdgeItem data i) :
    givenAddr params (data.element i) = ScAddr.empty := by
  obtain ⟨t, ht, rfl⟩ := hi
  unfold givenAddr
  rw [if_neg (not_not.mpr (hkept.noParam t ht)), (hedges t ht).1]
  exact if_neg Kind.noConfusion

/-- A template that joins no item to itself by name shares nothing when its edges are different. -/
theorem Kept.unshared (hdata : ItemsOk data (places data.triples)) (hkept : Kept asserts data params)
    (hedges : ∀ t ∈ data.triples, (data.element t.edge).kind = .type ∧
      (data.element t.edge).typeValue.isEdge = true)
    (hnames : ∀ t ∈ data.triples, (data.element t.source).hasReplacementName = true →
      t.source ≠ t.target) (hnodup : (data.triples.map Triple.edge).Nodup) :
    Unshared data params := by
  refine ⟨?_, hnodup, fun i hi _ => hkept.edge_given hedges hi⟩
  intro before t after hsplit hloop hgiven
  have ht : t ∈ data.triples := by
    rw [hsplit]
    exact List.mem_append_right _ List.mem_cons_self
  have hname : ¬ (data.element t.source).hasReplacementName = true := fun h => hnames t ht h hloop
  have hanon := isAnonymous_iff.mpr ⟨hdata.type_of_given hgiven, by simpa using hname⟩
  rw [hdata.twice ht (Or.inr (Or.inl ⟨rfl, hloop.symm⟩))] at hanon
  cases hanon

theorem place_cases {t : Triple ℕ} (ht : t ∈ data.triples) (hi : i ∈ t.toList) :
    IsEdgeItem data i ∨ IsEndItem data i := by
  rcases mem_toList_iff.mp hi with rfl | rfl | rfl
  · exact Or.inr ⟨t, ht, Or.inl rfl⟩
  · exact Or.inl ⟨t, ht, rfl⟩
  · exact Or.inr ⟨t, ht, Or.inr rfl⟩

/-- An item that the search has fixed is an end that is given. -/
theorem Realises.end_of_addr {arcs : List ScAddr} (hdata : ItemsOk data (places data.triples))
    (hkeys : KeysNamed data params) (hkept : Kept asserts data params) (hc : ArcsOk st'.cell)
    (hedges : ∀ t ∈ data.triples, (data.element t.edge).kind = .type ∧
      (data.element t.edge).typeValue.isEdge = true)
    (happly : applyParameters (getElementType st'.cell ctx) data params.values = .ok data')
    (hreal : Realises data params st st' r arcs el) {t : Triple ℕ} (ht : t ∈ data.triples)
    (hi : i ∈ t.toList) (hk : (data'.element i).kind = .addr) :
    IsEndItem data i ∧ givenAddr params (data.element i) ≠ ScAddr.empty ∧
      (data'.element i).addrValue = givenAddr params (data.element i) := by
  have htypeOf : getElementType st'.cell ctx ScAddr.empty = 0 := if_neg fun h => hc.notEmpty h.1
  have hclass (hgiven : givenAddr params (data.element i) = ScAddr.empty) :
      (data.element i).typeValue &&& scTypeElementMask ≠ 0 := by
    by_cases hedge : IsEdgeItem data i
    · obtain ⟨t, ht, rfl⟩ := hedge
      exact isEdge_elementMask (hedges t ht).2
    · exact (hreal.ends i ((place_cases ht hi).resolve_left hedge) hedge hgiven).elementMask
  rcases applied_cases hdata hkeys htypeOf happly i with ⟨_, haddr, hmask⟩ | ⟨he, htype, _⟩
  · have hgiven : givenAddr params (data.element i) ≠ ScAddr.empty := fun h0 => hclass h0 (hmask h0)
    exact ⟨(place_cases ht hi).resolve_left fun hedge => hgiven (hkept.edge_given hedges hedge), hgiven,
      haddr⟩
  · rw [he, htype] at hk
    cases hk

/-- What the generation takes for each item is what the search asks for. -/
theorem Realises.satisfies {arcs : List ScAddr} (lib : LibraryOrder)
    (hdata : ItemsOk data (places data.triples)) (hkeys : KeysNamed data params)
    (hkept : Kept asserts data params) (hun : Unshared data params) (hc : ArcsOk st'.cell)
    (hedges : ∀ t ∈ data.triples, (data.element t.edge).kind = .type ∧
      (data.element t.edge).typeValue.isEdge = true)
    (happly : applyParameters (getElementType st'.cell ctx) data params.values = .ok data')
    (hreal : Realises data params st st' r arcs el) :
    (searchSetup asserts lib st'.cell ctx data' ScAddr.empty).Satisfies el := by
  obtain ⟨_, htriples, _⟩ := applyParameters_items happly
  have htypeOf : getElementType st'.cell ctx ScAddr.empty = 0 := if_neg fun h => hc.notEmpty h.1
  have hcases := applied_cases hdata hkeys htypeOf happly
  refine ⟨?_, ?_, ?_, ?_, fun h => absurd rfl h⟩
  · intro t ht
    have hb := hreal.arc t (htriples ▸ ht)
    exact ⟨hb.arc, hb.source, hb.target⟩
  · intro t ht i hi hk
    have hp := place_cases (htriples ▸ ht) hi
    rcases hcases i with ⟨haddr, _⟩ | ⟨he, _, hgiven⟩
    · exact absurd (haddr.symm.trans hk) Kind.noConfusion
    · show prepareType (data'.element i).typeValue &&& _ = prepareType (data'.element i).typeValue
      rw [he]
      by_cases hedge : IsEdgeItem data i
      · obtain ⟨t', ht', rfl⟩ := hedge
        have htype : (st'.cell (el t'.edge)).type = arcTypeOf _ := (hreal.arc t' ht').type
        show _ &&& scFlagsRemove (st'.cell (el t'.edge)).type = _
        rw [htype]
        unfold arcTypeOf
        rw [flagsRemove_idem]
        exact hkept.keptEdges t' ht'
      · have hend := hreal.ends i (hp.resolve_left hedge) hedge hgiven
        show _ &&& scFlagsRemove (st'.cell (el i)).type = _
        rw [hend.scFlagsRemove_eq]
        exact hkept.keptEnds i (hp.resolve_left hedge) hedge hgiven _ hend
  · intro t ht i hi hk
    obtain ⟨hend, hgiven, haddr⟩ :=
      hreal.end_of_addr hdata hkeys hkept hc hedges happly (htriples ▸ ht) hi hk
    exact (hreal.given i hend hgiven).trans haddr.symm
  · show (data'.triples.map fun t => el t.edge).Nodup
    rw [htriples]
    have hcomp : (data.triples.map fun t => el t.edge) = (data.triples.map Triple.edge).map el := by
      rw [List.map_map]
      rfl
    rw [hcomp]
    apply hun.edges.map_on
    intro i hi j hj he
    obtain ⟨t, ht, rfl⟩ := List.mem_map.mp hi
    obtain ⟨t', ht', rfl⟩ := List.mem_map.mp hj
    exact hreal.distinct _ _ (Or.inl ⟨t, ht, rfl⟩) (Or.inl ⟨t', ht', rfl⟩) he

/-- What was there before is as it was, and what is new has the access levels of the context. -/
theorem canRead_of_given {new : Set ScAddr} (hg : GrownBy st new st') (hlevels : NewLevels ctx st st')
    (hread : Live st.cell x → CanRead ctx st.cell x) (hlive : Live st'.cell x) : CanRead ctx st'.cell x := by
  by_cases hold : Live st.cell x
  · have hnot : x ∉ new := fun hn => type_of_live hold (hg.free x hn)
    unfold CanRead
    rw [(hg.others x hnot).same.accessLevels]
    exact hread hold
  · rcases hlevels x with hun | hl
    · exact absurd (hun.same.live.mp hlive) hold
    · unfold CanRead scAccessLvlCheckRead
      rw [hl]
      exact decide_eq_true (le_refl _)

/-- The elements of the items with a type are new, so they can be read. -/
theorem Realises.visible {arcs : List ScAddr} (lib : LibraryOrder)
    (hdata : ItemsOk data (places data.triples)) (hkeys : KeysNamed data params)
    (hc : ArcsOk st'.cell)
    (happly : applyParameters (getElementType st'.cell ctx) data params.values = .ok data')
    (hkept : Kept asserts data params)
    (hedges : ∀ t ∈ data.triples, (data.element t.edge).kind = .type ∧
      (data.element t.edge).typeValue.isEdge = true)
    (hreal : Realises data params st st' r arcs el) (hlevels : NewLevels ctx st st')
    (hread : asserts = false → GivenReadable ctx data params st) :
    (searchSetup asserts lib st'.cell ctx data' ScAddr.empty).Visible el := by
  obtain ⟨_, htriples, _⟩ := applyParameters_items happly
  have htypeOf : getElementType st'.cell ctx ScAddr.empty = 0 := if_neg fun h => hc.notEmpty h.1
  refine ⟨?_, ?_, fun h => absurd rfl h, fun h => absurd rfl h⟩
  · intro t ht i hi hk
    have ht' : t ∈ data.triples := htriples ▸ ht
    rcases applied_cases hdata hkeys htypeOf happly i with ⟨haddr, _⟩ | ⟨_, _, hgiven⟩
    · exact absurd (haddr.symm.trans hk) Kind.noConfusion
    have hnew : NewItem data params i := by
      rcases mem_toList_iff.mp hi with rfl | rfl | rfl
      · exact Or.inr ⟨⟨t, ht', Or.inl rfl⟩, hgiven⟩
      · exact Or.inl ⟨t, ht', rfl⟩
      · exact Or.inr ⟨⟨t, ht', Or.inr rfl⟩, hgiven⟩
    exact hlevels.canRead (hreal.grown.free _ ⟨i, hnew, rfl⟩) (hreal.grown.live _ ⟨i, hnew, rfl⟩)
  · intro hasserts t ht i hi hk
    have ht' : t ∈ data.triples := htriples ▸ ht
    obtain ⟨hend, hgiven, _⟩ := hreal.end_of_addr hdata hkeys hkept hc hedges happly ht' hi hk
    have hlive : Live st'.cell (el i) := by
      obtain ⟨u, hu, hplace⟩ := hend
      have harc := hreal.arc u hu
      rcases hplace with rfl | rfl
      · have hend := hc.endpoint _ .out harc.arc
        rwa [harc.source] at hend
      · have hend := hc.endpoint _ .inp harc.arc
        rwa [harc.target] at hend
    apply canRead_of_given hreal.grown hlevels _ hlive
    rw [hreal.given i hend hgiven]
    exact hread hasserts i hend

/-! A search does not find one element for the edges of two triples. -/

variable {m : SearchSetup} {path cs : List (Triple ScAddr)} {f : Triple ScAddr}
  {R : String → Option ReplCounter}

/-- On the path the name of the edge of every level stands for the edge that the level has found. -/
def SearchSetup.EdgesNamed (m : SearchSetup) (path : List (Triple ScAddr)) : Prop :=
  ∀ f below, f :: below <:+ path → (m.itemsAt below.length).edge.hasReplacementName = true →
    ∃ r, m.replsOf path (m.itemsAt below.length).edge.replacementName = some r ∧ r.addr = f.edge

theorem refReplacement_keeps {item : ScTemplateArg} {name : String} {r : ReplCounter}
    (h : R name = some r) :
    ∃ r', refReplacement item a R name = some r' ∧ r'.addr = r.addr := by
  by_cases hn : item.hasReplacementName = true ∧ item.replacementName = name
  · obtain ⟨hname, rfl⟩ := hn
    rw [refReplacement_self hname, h]
    exact ⟨_, rfl, rfl⟩
  · rw [refReplacement_other hn]
    exact ⟨r, h, rfl⟩

theorem refTriple_keeps {t : Triple ScTemplateArg} {name : String} {r : ReplCounter}
    (h : R name = some r) : ∃ r', refTriple t f R name = some r' ∧ r'.addr = r.addr := by
  obtain ⟨r1, h1, ha1⟩ := @refReplacement_keeps f.source R t.source name r h
  obtain ⟨r2, h2, ha2⟩ := @refReplacement_keeps f.edge _ t.edge name r1 h1
  obtain ⟨r3, h3, ha3⟩ := @refReplacement_keeps f.target _ t.target name r2 h2
  exact ⟨r3, h3, ha3.trans (ha2.trans ha1)⟩

/-- No name stands for the empty address. -/
def NamesValid (R : String → Option ReplCounter) : Prop :=
  ∀ name r, R name = some r → r.addr ≠ ScAddr.empty

theorem NamesValid.below {t : Triple ScTemplateArg} (h : NamesValid (refTriple t f R)) : NamesValid R := by
  intro name r hr
  obtain ⟨r', hr', ha⟩ := @refTriple_keeps f R t name r hr
  exact ha ▸ h name r' hr'

/-- A name of a path is that of an item of one of its levels. -/
theorem replsOf_named {name : String} {r : ReplCounter} (h : m.replsOf path name = some r) :
    ∃ level < path.length, ∃ i ∈ (m.indicesAt level).toList,
      (m.data.element i).hasReplacementName = true ∧ (m.data.element i).replacementName = name := by
  induction path generalizing r with
  | nil => cases h
  | cons f path ih =>
    have hitem {i : ℕ} (hi : i ∈ (m.indicesAt path.length).toList)
        (hn : (m.data.element i).hasReplacementName = true ∧ (m.data.element i).replacementName = name) :
        ∃ level < (f :: path).length, ∃ i ∈ (m.indicesAt level).toList,
          (m.data.element i).hasReplacementName = true ∧ (m.data.element i).replacementName = name :=
      ⟨path.length, Nat.lt_succ_self _, i, hi, hn⟩
    rcases refReplacement_cases h with ⟨r1, h1, _⟩ | ⟨hn, hname, _⟩
    · rcases refReplacement_cases h1 with ⟨r2, h2, _⟩ | ⟨hn, hname, _⟩
      · rcases refReplacement_cases h2 with ⟨r3, h3, _⟩ | ⟨hn, hname, _⟩
        · obtain ⟨level, hl, hrest⟩ := ih h3
          exact ⟨level, Nat.lt_succ_of_lt hl, hrest⟩
        · exact hitem (mem_toList_iff.mpr (Or.inl rfl)) ⟨hn, hname⟩
      · exact hitem (mem_toList_iff.mpr (Or.inr (Or.inl rfl))) ⟨hn, hname⟩
    · exact hitem (mem_toList_iff.mpr (Or.inr (Or.inr rfl))) ⟨hn, hname⟩

/-- A level takes the edge that its name stands for, or names the one that it has found. -/
theorem SearchSetup.EdgesNamed.cons (hc : ArcsOk m.cells) (h : m.EdgesNamed path)
    (hkind : (m.itemsAt path.length).edge.kind = .type)
    (hself : (m.itemsAt path.length).source.replacementName ≠
      (m.itemsAt path.length).edge.replacementName ∨
        (m.itemsAt path.length).edge.hasReplacementName = false)
    (hvalid : NamesValid (m.replsOf path)) (hopen : m.problem.opens path = .ok cs) (hf : f ∈ cs) : m.EdgesNamed (f :: path) := by
  intro f' below hs hname
  rcases List.suffix_cons_iff.mp hs with he | hs
  · obtain ⟨rfl, rfl⟩ := List.cons.inj he
    have hne := hself.resolve_right (by rw [hname]; exact Bool.noConfusion)
    show ∃ r, refTriple (m.itemsAt below.length) f' (m.replsOf below) _ = some r ∧ r.addr = f'.edge
    cases hr : m.replsOf below (m.itemsAt below.length).edge.replacementName with
    | some r =>
      obtain ⟨r', hr', ha⟩ := @refTriple_keeps f' _ (m.itemsAt below.length) _ r hr
      refine ⟨r', hr', ha.trans ?_⟩
      have hres : searchResolveAddr (m.replsOf below) (m.itemsAt below.length).edge = r.addr := by
        unfold searchResolveAddr
        rw [hkind]
        simp only [hname, if_true, hr, Option.map_some, Option.getD_some]
      have hfound := foundBy_of_opens hc hopen hf
      have hedge := (hfound.edge (by
        show searchResolveAddr (m.replsOf below) (m.itemsAt below.length).edge ≠ ScAddr.empty
        rw [hres]
        exact hvalid _ r hr)).1
      exact (hedge.trans hres).symm
    | none =>
      have hsource : refReplacement (m.itemsAt below.length).source f'.source (m.replsOf below)
          (m.itemsAt below.length).edge.replacementName = none := by
        rw [refReplacement_other fun hh => hne hh.2, hr]
      have hedge : refReplacement (m.itemsAt below.length).edge f'.edge
          (refReplacement (m.itemsAt below.length).source f'.source (m.replsOf below))
          (m.itemsAt below.length).edge.replacementName = some ⟨f'.edge, 1⟩ := by
        rw [refReplacement_self hname, hsource]
      exact @refReplacement_keeps f'.target _ (m.itemsAt below.length).target _ _ hedge
  · obtain ⟨r, hr, ha⟩ := h f' below hs hname
    obtain ⟨r', hr', ha'⟩ := @refTriple_keeps f _ (m.itemsAt path.length) _ r hr
    exact ⟨r', hr', ha'.trans ha⟩

/-- By induction on the levels: the edges are named, and they are different ones. -/
theorem edgesNamed_of_frames (hc : ArcsOk m.cells) (hord : m.Ordered) (hnames : NamesUnique m.data)
    (hkinds : ∀ t ∈ m.data.triples, (m.data.element t.edge).kind = .type)
    (hself : ∀ t ∈ m.data.triples, t.edge ≠ t.source) {Q : List (Triple ScAddr) → Prop}
    {frames : List (Triple ScAddr × List (Triple ScAddr))} (h : m.problem.FramesOk Q frames)
    (hvalid : NamesValid (m.replsOf (frames.map Prod.fst)))
    (hlen : frames.length ≤ m.data.triples.length) :
    m.EdgesNamed (frames.map Prod.fst) ∧ ((frames.map Prod.fst).map Triple.edge).Nodup := by
  induction h with
  | nil =>
    refine ⟨?_, List.nodup_nil⟩
    intro f below hs
    exact absurd (List.suffix_nil.mp hs) (List.cons_ne_nil _ _)
  | cons hbelow hopen hq hmem _ hacc ih =>
    rename_i below f it cs _
    have hlt : below.length < m.data.triples.length := hlen
    have hvalid' : NamesValid (m.replsOf (below.map Prod.fst)) := NamesValid.below hvalid
    obtain ⟨hnamed, hnodup⟩ := ih hvalid' hlt.le
    have hpath : (below.map Prod.fst).length = below.length := List.length_map _
    have ht := (hord.triple hlt).2
    refine ⟨hnamed.cons hc ?_ ?_ hvalid' hopen hmem, ?_⟩
    · rw [m.itemsAt_eq, hpath]
      exact hkinds _ ht
    · rw [m.itemsAt_eq, hpath]
      by_cases hname : (m.data.element (m.indicesAt below.length).edge).hasReplacementName = true
      · exact Or.inl fun he => hself _ ht (hnames _ _ hname he)
      · right
        show (m.data.element (m.indicesAt below.length).edge).hasReplacementName = false
        simpa using hname
    · exact List.nodup_cons.mpr ⟨(m.accepts_spec hc hacc).1, hnodup⟩

/-- Two levels with one edge item would have found one edge. -/
theorem edges_nodup_of_path (hord : m.Ordered)
    (hname : ∀ (k l : ℕ) (t u : Triple ℕ), m.data.triples[k]? = some t → m.data.triples[l]? = some u →
      k ≠ l → t.edge = u.edge → (m.data.element t.edge).hasReplacementName = true)
    (hlen : path.length = m.data.triples.length) (hnamed : m.EdgesNamed path)
    (hnodup : (path.map Triple.edge).Nodup) : (m.data.triples.map Triple.edge).Nodup := by
  have hframe (k : ℕ) (t : Triple ℕ) (ht : m.data.triples[k]? = some t) :
      ∃ f below, f :: below <:+ path ∧ m.processOrder.getD below.length 0 = k ∧
        m.indicesAt below.length = t := by
    obtain ⟨level, hl, rfl⟩ := hord.level (List.getElem?_eq_some_iff.mp ht).1
    obtain ⟨f, below, hs, rfl⟩ := exists_suffix (hlen ▸ hl)
    exact ⟨f, below, hs, rfl, Option.some.inj ((hord.triple hl).1.symm.trans ht)⟩
  -- of two levels the one below is on the path of the other
  have hapart (f g : Triple ScAddr) (b b' : List (Triple ScAddr)) (hf : f :: b <:+ path)
      (hg : g :: b' <:+ path) (hlt : b.length < b'.length) : f.edge ≠ g.edge := by
    have hsub : f :: b <:+ b' := by
      apply List.suffix_of_suffix_length_le hf ((List.suffix_cons g b').trans hg)
      exact hlt
    have hfb : f.edge ∈ b'.map Triple.edge := List.mem_map_of_mem (hsub.subset List.mem_cons_self)
    have hnd : ((g :: b').map Triple.edge).Nodup := hnodup.sublist (hg.sublist.map _)
    intro he
    exact (List.nodup_cons.mp hnd).1 (he ▸ hfb)
  rw [List.nodup_iff_injective_getElem]
  rintro ⟨k, hk⟩ ⟨l, hl⟩ he
  rw [List.length_map] at hk hl
  simp only [List.getElem_map] at he
  by_contra hne
  have hkl : k ≠ l := fun h => hne (Fin.ext h)
  have htk := List.getElem?_eq_getElem hk
  have htl := List.getElem?_eq_getElem hl
  have hn := hname k l _ _ htk htl hkl he
  obtain ⟨f, b, hf, hbk, hbt⟩ := hframe k _ htk
  obtain ⟨g, b', hg, hbl, hbu⟩ := hframe l _ htl
  have hitem (n : ℕ) : (m.itemsAt n).edge = m.data.element (m.indicesAt n).edge := by
    rw [m.itemsAt_eq]
    rfl
  obtain ⟨r, hr, ha⟩ := hnamed f b hf (by rw [hitem, hbt]; exact hn)
  obtain ⟨r', hr', ha'⟩ := hnamed g b' hg (by rw [hitem, hbu, ← he]; exact hn)
  rw [hitem, hbt] at hr
  rw [hitem, hbu, ← he, hr] at hr'
  obtain rfl := Option.some.inj hr'
  have hedge : f.edge = g.edge := ha.symm.trans ha'
  rcases lt_trichotomy b.length b'.length with hlt | heq | hlt
  · exact hapart f g b b' hf hg hlt hedge
  · rw [heq] at hbk
    exact hkl (hbk.symm.trans hbl)
  · exact hapart g f b' b hg hf hlt hedge.symm

theorem Kept.edge_item {ps : List ℕ} {typeOf : ScAddr → ScType} (hdata : ItemsOk data ps)
    (hkept : Kept asserts data params) (hkeys : KeysNamed data params) (hempty : typeOf ScAddr.empty = 0)
    (hedges : ∀ t ∈ data.triples, (data.element t.edge).kind = .type ∧
      (data.element t.edge).typeValue.isEdge = true)
    (happly : applyParameters typeOf data params.values = .ok data') {t : Triple ℕ}
    (ht : t ∈ data.triples) : data'.element t.edge = data.element t.edge := by
  rcases applied_cases hdata hkeys hempty happly t.edge with ⟨_, _, hmask⟩ | ⟨he, _, _⟩
  · exact absurd (hmask (hkept.edge_given hedges ⟨t, ht, rfl⟩)) (isEdge_elementMask (hedges t ht).2)
  · exact he

/-- A result belongs to a full path of levels that have been opened. -/
theorem frames_of_result (hord : m.Ordered) {rounds calls : ℕ} {res : SearchResult}
    (hres : res ∈ (m.results rounds calls m.reset).1) :
    ∃ k : Machine (Triple ScAddr), m.IsResult k.choices res ∧
      m.problem.FramesOk (fun _ => True) k.frames ∧ k.frames.length = m.data.triples.length := by
  obtain ⟨founds, s, hrun, hmake⟩ := results_run hord (matches_reset hord) (Or.inr rfl) hres
  obtain ⟨k, hpath, hok⟩ := run_result hord (fun _ => True) (fun _ => True)
    (fun _ _ _ _ _ => trivial) founds (run_mono (fun _ _ _ h => ⟨trivial, h⟩) _ _ _ hrun) hmake
  refine ⟨k, hpath, hok, ?_⟩
  have hl := hpath.length
  unfold Machine.choices at hl
  rwa [List.length_map] at hl

/-- The elements that the search is given on a level that has found something can be read. -/
theorem given_of_frames {Q : List (Triple ScAddr) → Prop}
    {frames : List (Triple ScAddr × List (Triple ScAddr))} (h : m.problem.FramesOk Q frames) :
    ∀ level < frames.length, ∀ i ∈ (m.indicesAt level).toList, (m.data.element i).kind = .addr →
      (m.data.element i).addrValue ≠ ScAddr.empty → CanRead m.ctx m.cells (m.data.element i).addrValue := by
  induction h with
  | nil => exact fun level hl => absurd hl (Nat.not_lt_zero level)
  | @cons below f it cs _ hopen _ hmem _ _ ih =>
    intro level hl i hi hk hne
    rcases Nat.lt_succ_iff_lt_or_eq.mp hl with hl | rfl
    · exact ih level hl i hi hk hne
    -- something is found, so there is an iterator
    obtain ⟨params, hparams, hit | ⟨_, rfl, _⟩⟩ := openIterator_ok hopen
    · rw [List.length_map] at hparams
      have hv : m.data.element i ∈ (m.itemsAt below.length).toList := by
        rcases mem_toList_iff.mp hi with rfl | rfl | rfl <;>
          simp [SearchSetup.itemsAt_eq, Triple.map, Triple.toList]
      have hfixed := fixed_of_create hparams hv (by rw [resolve_addr hk]; exact hne)
      rw [resolve_addr hk] at hfixed
      unfold iterator3 at hit
      dsimp only at hit
      split_ifs at hit with hall
      exact (hall _ hfixed).2
    · exact absurd hmem List.not_mem_nil

/-- A result that has the names of the generation is only given when the edges are different items, and
when what is given can be read. -/
theorem edges_nodup_of_result {lib : LibraryOrder} {struct : ScAddr}
    (hdata : ItemsOk data (places data.triples)) (hkept : Kept asserts data params)
    (hkeys : KeysNamed data params) (hc : ArcsOk st'.cell)
    (hedges : ∀ t ∈ data.triples, (data.element t.edge).kind = .type ∧
      (data.element t.edge).typeValue.isEdge = true)
    (happly : applyParameters (getElementType st'.cell ctx) data params.values = .ok data')
    (hself : ∀ t ∈ data.triples, t.edge ≠ t.source) (hm : m = searchSetup asserts lib st'.cell ctx data' struct)
    {rounds calls : ℕ} {res : SearchResult} (hres : res ∈ (m.results rounds calls m.reset).1)
    (hvalid : ∀ t ∈ data.triples, ∀ i ∈ t.toList, (data.element i).hasReplacementName = true →
      res.names (data.element i).replacementName ≠ some ScAddr.empty) :
    (data.triples.map Triple.edge).Nodup ∧ ∀ i, IsEndItem data i →
      givenAddr params (data.element i) ≠ ScAddr.empty →
        CanRead ctx st'.cell (givenAddr params (data.element i)) := by
  subst hm
  have hord := ordered_of_result hres
  obtain ⟨_, htriples, hitems⟩ := applyParameters_items happly
  have htypeOf : getElementType st'.cell ctx ScAddr.empty = 0 := if_neg fun h => hc.notEmpty h.1
  have hitem {t : Triple ℕ} (ht : t ∈ data.triples) : data'.element t.edge = data.element t.edge :=
    hkept.edge_item hdata hkeys htypeOf hedges happly ht
  have hnameOf (i : ℕ) : (data'.element i).replacementName = (data.element i).replacementName := by
    rcases hitems i with he | ⟨_, _, _, _, _, he⟩ <;> rw [he]
  obtain ⟨k, hpath, hok, hlen⟩ := frames_of_result hord hres
  constructor
  · have hself' : ∀ t ∈ data'.triples, t.edge ≠ t.source := by
      rw [htriples]
      exact hself
    have hnamesValid : NamesValid ((searchSetup asserts lib st'.cell ctx data' struct).replsOf
        (k.frames.map Prod.fst)) := by
      intro name r hr h0
      obtain ⟨level, hl, i, hi, hn, rfl⟩ := replsOf_named hr
      rw [List.length_map, hlen] at hl
      have ht := (hord.triple hl).2
      have hnames := congrFun hpath.names (data'.element i).replacementName
      have hr' : ((searchSetup asserts lib st'.cell ctx data' struct).replsOf k.choices)
          (data'.element i).replacementName = some r := hr
      rw [hr', Option.map_some, h0] at hnames
      refine hvalid _ (htriples ▸ ht) i hi ?_ (by rw [← hnameOf]; exact hnames)
      have hn' : (data'.element i).hasReplacementName = true := hn
      unfold ScTemplateArg.hasReplacementName at hn' ⊢
      rwa [← hnameOf]
    obtain ⟨hnamed, hnodup⟩ := edgesNamed_of_frames hc hord
      (namesUnique_of_applied hdata.namesUnique hitems) (fun t ht => by
        show (data'.element t.edge).kind = .type
        rw [hitem (htriples ▸ ht)]
        exact (hedges t (htriples ▸ ht)).1) hself' hok hnamesValid hlen.le
    rw [← htriples]
    apply edges_nodup_of_path hord _ hpath.length hnamed hnodup
    intro k l t u ht hu hkl he
    show (data'.element t.edge).hasReplacementName = true
    have ht' : data.triples[k]? = some t := htriples ▸ ht
    have hu' : data.triples[l]? = some u := htriples ▸ hu
    rw [hitem (List.mem_of_getElem? ht')]
    have hshared := hdata.shared ht' hu' hkl (mem_toList_iff.mpr (Or.inr (Or.inl rfl)))
      (mem_toList_iff.mpr (Or.inr (Or.inl he)))
    by_contra hname
    rw [isAnonymous_iff.mpr ⟨(hedges t (List.mem_of_getElem? ht')).1, by simpa using hname⟩] at hshared
    cases hshared
  · rintro i ⟨t, ht, hplace⟩ hgiven
    rcases applied_cases hdata hkeys htypeOf happly i with ⟨hk, haddr, _⟩ | ⟨_, _, h0⟩
    · have hmem : i ∈ t.toList := by
        rcases hplace with rfl | rfl
        · exact mem_toList_iff.mpr (Or.inl rfl)
        · exact mem_toList_iff.mpr (Or.inr (Or.inr rfl))
      obtain ⟨level, hl, hi⟩ := hord.below (htriples ▸ ht) hmem
      have hread := given_of_frames hok level (hlen ▸ hl) i hi hk (haddr ▸ hgiven)
      rw [← haddr]
      exact hread
    · exact absurd h0 hgiven

/-- No name of a generation stands for the empty address. -/
theorem TriplesGenerated.names_valid {ts : List (Triple ScTemplateArg)} {ends : List (Triple ScAddr)}
    (h : TriplesGenerated ctx params ts st g ends st' g')
    (hg : ∀ name, g.result.names name ≠ some ScAddr.empty) (name : String) :
    g'.result.names name ≠ some ScAddr.empty := by
  have hadd {result : ScTemplateNamedStruct} {a : ScAddr} (other : String)
      (hr : ∀ name, result.names name ≠ some ScAddr.empty) (ha : a ≠ ScAddr.empty) (name : String) :
      (addResult other a result).names name ≠ some ScAddr.empty := by
    unfold addResult
    split_ifs
    · exact hr name
    · by_cases he : name = other
      · rw [he]
        simpa [ScTemplateNamedStruct.add] using ha
      · simpa [ScTemplateNamedStruct.add, Function.update_of_ne he] using hr name
  induction h with
  | nil st g => exact hg name
  | cons h1 _ ih =>
    apply ih
    obtain ⟨s1, g1, s2, g2, hres1, hres2, _, _, hcr⟩ := h1.resolved
    rw [h1.result]
    exact hadd _ (hadd _ (hadd _ hg hres1.notEmpty) hcr.created.notEmpty) hres2.notEmpty

/-- In every memory state, for every template that joins no item to itself by name and parameters that
are given by item name, and when creation keeps the types: what a generation returns is among the results of
a search right afterwards that runs to its end when the edges are different items and, without assertions,
the given elements can be read; and that has to be so, when no triple has its own edge as its source. -/
theorem generated_found {thread : ℕ} {env : ScEnv} (evs : List StoreEvent)
    (hr : Run (OwnStep thread) ScStorage.empty evs st) (henv : env.thread = thread)
    (order : HashOrder) (hdata : Built data)
    (hnames : ∀ t ∈ data.triples, (data.element t.source).hasReplacementName = true →
      t.source ≠ t.target) (hkeys : KeysNamed data params)
    (hdo : scTemplateGenerateDo asserts env ctx order data params st = .ok (.generated r, st'))
    (lib : LibraryOrder)
    (hsearch : scTemplateSearch asserts lib st'.cell ctx data params ScAddr.empty = .ok m) {rounds calls : ℕ}
    (hend : (m.results rounds calls m.reset).2 = .finished) (hkept : Kept asserts data params) :
    (((data.triples.map Triple.edge).Nodup ∧ (asserts = false → GivenReadable ctx data params st)) →
      FoundAgain data r (m.results rounds calls m.reset).1) ∧
    ((∀ t ∈ data.triples, t.edge ≠ t.source) → FoundAgain data r (m.results rounds calls m.reset).1 →
      (data.triples.map Triple.edge).Nodup ∧ (asserts = false → GivenReadable ctx data params st)) := by
  subst henv
  have hok := ownRun_storeOk evs st hr
  obtain ⟨_, hok', g', arcs, _, rfl, ends, rfl, hgen⟩ :=
    scTemplateGenerateDo_generated hok order hkept.arcTyped hdo
  obtain ⟨data', happly, hm⟩ := bind_ok hsearch
  obtain rfl := Except.ok.inj hm
  have hc := hok'.cells.arcs
  have hedges : ∀ t ∈ data.triples, (data.element t.edge).kind = .type ∧
      (data.element t.edge).typeValue.isEdge = true :=
    fun t ht => hgen.edge_types _ (List.mem_map_of_mem ht)
  obtain ⟨_, htriples, hitems⟩ := applyParameters_items happly
  obtain ⟨new, hgrown⟩ := hgen.grown
  refine ⟨fun hcond => ?_, fun hself hfound => ?_⟩
  · obtain ⟨hnodup, hread⟩ := hcond
    have hun := hkept.unshared hdata.itemsOk hedges hnames hnodup
    obtain ⟨el, hreal⟩ := hgen.realises hdata.itemsOk hkept.arcTyped hun
    have hsat := hreal.satisfies lib hdata.itemsOk hkeys hkept hun hc hedges happly
    have hvis := hreal.visible lib hdata.itemsOk hkeys hc happly hkept hedges hgen.newLevels hread
    have hkinds (i : ℕ) : (data'.element i).kind ≠ .replace := by
      rcases hitems i with he | ⟨_, _, _, _, _, he⟩
      · rw [he]
        exact hdata.itemsOk.kinds i
      · rw [he]
        exact fun h => by cases h
    obtain ⟨res, hgives, hfilter⟩ := hsat.given hc (ordered_of_finished hend)
      (namesUnique_of_applied hdata.itemsOk.namesUnique hitems) hkinds hvis hend
    refine ⟨res, (List.mem_filter.mp (hfilter ▸ List.mem_singleton_self res)).1, ?_⟩
    intro t ht i hi hname
    have hsame : (data'.element i).replacementName = (data.element i).replacementName := by
      rcases hitems i with he | ⟨_, _, _, _, _, he⟩ <;> rw [he]
    have hgive := hgives.names t (htriples ▸ ht) i hi (by
      show (data'.element i).hasReplacementName = true
      unfold ScTemplateArg.hasReplacementName at hname ⊢
      rw [hsame]
      exact hname)
    rw [hreal.names t ht i hi hname, ← hsame]
    exact hgive
  · obtain ⟨res, hres, hsame⟩ := hfound
    have hvalid (name : String) : g'.result.names name ≠ some ScAddr.empty :=
      hgen.names_valid (fun _ h => by cases h) name
    obtain ⟨hnodup, hread⟩ := edges_nodup_of_result hdata.itemsOk hkept hkeys hc hedges happly hself rfl hres
      (fun t ht i hi hname => by rw [hsame t ht i hi hname]; exact hvalid _)
    refine ⟨hnodup, fun _ i hi hlive => ?_⟩
    have hnot : givenAddr params (data.element i) ∉ new := fun hn => type_of_live hlive (hgrown.free _ hn)
    have hgiven : givenAddr params (data.element i) ≠ ScAddr.empty :=
      fun h0 => hok.cells.arcs.notEmpty (h0 ▸ hlive)
    have hafter := hread i hi hgiven
    unfold CanRead at hafter ⊢
    rwa [(hgrown.others _ hnot).same.accessLevels] at hafter

end

/-- The search right after the generation. -/
def searchAfter (data : ScTemplateData) (params : ScTemplateParams) : Option SearchSetup :=
  match exampleDo true data params with
  | .ok (_, st') =>
    (scTemplateSearch true insertionLibrary st'.cell exampleContext data params ScAddr.empty).toOption
  | .error _ => none

/-- A search that runs to its end, with the number of its results. -/
def resultsAfter (data : ScTemplateData) (params : ScTemplateParams) : Option ℕ :=
  (searchAfter data params).bind fun m =>
    if (m.results 5 2 m.reset).2 = .finished then some (m.results 5 2 m.reset).1.length else none

theorem exists_of_resultsAfter {data : ScTemplateData} {params : ScTemplateParams} {n : ℕ}
    (hgen : isGenerated (exampleDo true data params) = true) (h : resultsAfter data params = some n) :
    ∃ r st' m, exampleDo true data params = .ok (.generated r, st') ∧
      scTemplateSearch true insertionLibrary st'.cell exampleContext data params ScAddr.empty = .ok m ∧
      (m.results 5 2 m.reset).2 = .finished ∧ (m.results 5 2 m.reset).1.length = n := by
  obtain ⟨r, st', hdo⟩ := exists_of_isGenerated hgen
  unfold resultsAfter searchAfter at h
  rw [hdo] at h
  simp only at h
  obtain ⟨m, hm, hn⟩ := Option.bind_eq_some_iff.mp h
  split_ifs at hn with hend
  refine ⟨r, st', m, hdo, ?_, hend, Option.some.inj hn⟩
  cases hs : scTemplateSearch true insertionLibrary st'.cell exampleContext data params ScAddr.empty with
  | error e =>
    rw [hs] at hm
    cases hm
  | ok m' =>
    rw [hs] at hm
    exact congrArg Except.ok (Option.some.inj hm)

/-- The source of `exampleTriple` is given, and the arc and the node behind it are made and found. -/
theorem generated_found_param : ∃ r st' m,
    exampleDo true (templateOf exampleTriple) (oneParam "_x") = .ok (.generated r, st') ∧
      scTemplateSearch true insertionLibrary st'.cell exampleContext (templateOf exampleTriple)
        (oneParam "_x") ScAddr.empty = .ok m ∧
      FoundAgain (templateOf exampleTriple) r (m.results 5 2 m.reset).1 := by
  obtain ⟨r, st', m, hdo, hsearch, hend, _⟩ := @exists_of_resultsAfter (templateOf exampleTriple)
    (oneParam "_x") 1 (by decide +kernel) (by decide +kernel)
  have htriples : (templateOf exampleTriple).triples = [⟨0, 1, 2⟩] := by decide +kernel
  have hone (t : Triple ℕ) (ht : t ∈ (templateOf exampleTriple).triples) : t = ⟨0, 1, 2⟩ := by
    rw [htriples] at ht
    exact List.mem_singleton.mp ht
  have hkeys : KeysNamed (templateOf exampleTriple) (oneParam "_x") := by
    intro p hp
    obtain rfl := List.mem_singleton.mp hp
    exact ⟨0, by decide +kernel, by decide +kernel⟩
  have hkept : Kept true (templateOf exampleTriple) (oneParam "_x") := by
    refine ⟨?_, by decide +kernel, by decide +kernel, ?_⟩
    · unfold ArcTyped
      decide +kernel
    · rintro i ⟨t, ht, hi⟩ _ hgiven created htype
      obtain rfl := hone t ht
      rcases hi with rfl | rfl
      · exact absurd hgiven (by decide +kernel)
      · rcases htype with ⟨_, rfl⟩ | ⟨hn, _⟩
        · decide +kernel
        · exact absurd hn (by decide +kernel)
  exact ⟨r, st', m, hdo, hsearch, (generated_found twoNodes twoNodes_run rfl listedOrder
    exampleTriple_built (fun t ht _ => by rw [hone t ht]; decide) hkeys hdo insertionLibrary hsearch
      hend hkept).1 ⟨by decide +kernel, fun h => Bool.noConfusion h⟩⟩

/-- The arc `_e` stands in two triples. -/
def sharedEdge : Except ScException ScTemplateData :=
  ScTemplateData.empty.addTriples
    [⟨.ofAddr ⟨0, 1⟩ "", .ofType scTypeEdgeAccessVarPosPerm "_e", .ofType scTypeNodeVar "_x"⟩,
      ⟨.ofAddr ⟨0, 1⟩ "", .ofName "_e", .ofName "_x"⟩]

/-- Two arcs are made for `_e`, and nothing is found. -/
theorem shared_edge_not_found : ¬ ∀ (asserts : Bool) (evs : List StoreEvent) (st st' : ScStorage)
    (data : ScTemplateData) (params : ScTemplateParams) (r : ScTemplateNamedStruct)
    (lib : LibraryOrder) (m : SearchSetup) (rounds calls : ℕ), Run (OwnStep 1) ScStorage.empty evs st →
      Built data → (∀ t ∈ data.triples, (data.element t.source).hasReplacementName = true →
        t.source ≠ t.target) → KeysNamed data params →
      scTemplateGenerateDo asserts exampleEnv exampleContext listedOrder data params st =
        .ok (.generated r, st') →
      scTemplateSearch asserts lib st'.cell exampleContext data params ScAddr.empty = .ok m →
      (m.results rounds calls m.reset).2 = .finished →
      FoundAgain data r (m.results rounds calls m.reset).1 := by
  intro hall
  obtain ⟨r, st', m, hdo, hsearch, hend, hnone⟩ := @exists_of_resultsAfter (templateOf sharedEdge)
    ScTemplateParams.empty 0 (by decide +kernel) (by decide +kernel)
  obtain ⟨res, hres, _⟩ := hall true twoNodes _ st' _ _ r insertionLibrary m 5 2 twoNodes_run
    (built_addTriples Built.empty _ (templateOf_ok (by decide +kernel))) (by decide +kernel)
    (fun p hp => absurd hp List.not_mem_nil) hdo hsearch hend
  rw [List.length_eq_zero_iff.mp hnone] at hres
  exact absurd hres List.not_mem_nil

end ScMachine.Template
