import ScMachine.SearchSound

/-! A search that runs to its end has found every assignment once, when it can be seen. -/
namespace ScMachine.Template
open ScMachine.Store ScMachine.Backtracking ScMachine.Runs

/-- The elements fit the items, and the arcs of the triples are different ones. -/
structure SearchSetup.Satisfies (m : SearchSetup) (el : ℕ → ScAddr) : Prop where
  arcs : ∀ t ∈ m.data.triples, LiveArc m.cells (el t.edge) ∧
    ownerOf m.cells .out (el t.edge) = el t.source ∧ ownerOf m.cells .inp (el t.edge) = el t.target
  types : ∀ t ∈ m.data.triples, ∀ i ∈ t.toList, (m.data.element i).kind = .type →
    HasType m.cells (el i) (prepareType (m.data.element i).typeValue)
  fixed : ∀ t ∈ m.data.triples, ∀ i ∈ t.toList, (m.data.element i).kind = .addr →
    el i = (m.data.element i).addrValue
  edges : (m.data.triples.map fun t => el t.edge).Nodup
  struct : m.struct ≠ ScAddr.empty → ∀ t ∈ m.data.triples, ∀ i ∈ t.toList, m.Belongs (el i)

/-- The context may read the elements of the items with a type, the structure and the arcs of the
membership. A given element that it may not read ends the search with an exception where assertions throw, and
hides what is there where they do not. -/
structure SearchSetup.Visible (m : SearchSetup) (el : ℕ → ScAddr) : Prop where
  elements : ∀ t ∈ m.data.triples, ∀ i ∈ t.toList, (m.data.element i).kind = .type →
    CanRead m.ctx m.cells (el i)
  given : m.asserts = false → ∀ t ∈ m.data.triples, ∀ i ∈ t.toList, (m.data.element i).kind = .addr →
    CanRead m.ctx m.cells (el i)
  struct : m.struct ≠ ScAddr.empty → CanRead m.ctx m.cells m.struct
  members : m.struct ≠ ScAddr.empty → ∀ t ∈ m.data.triples, ∀ i ∈ t.toList,
    ∃ x, LiveArc m.cells x ∧ ownerOf m.cells .out x = m.struct ∧ ownerOf m.cells .inp x = el i ∧
      HasType m.cells x scTypeEdgeAccessConstPosPerm ∧ CanRead m.ctx m.cells x

/-- The result gives the items their elements. -/
structure SearchSetup.Gives (m : SearchSetup) (r : SearchResult) (el : ℕ → ScAddr) : Prop where
  addrs : r.addrs = m.data.triples.map fun t => t.map el
  names : ∀ t ∈ m.data.triples, ∀ i ∈ t.toList, (m.data.element i).hasReplacementName = true →
    r.names (m.data.element i).replacementName = some (el i)

section
variable {m : SearchSetup} {path : List (Triple ScAddr)} {cs : List (Triple ScAddr)}
  {f : Triple ScAddr} {R : String → Option ReplCounter} {t : Triple ScTemplateArg}
  {params : Iterator3Params} {ctx : ScContext} {c : Cells} {el : ℕ → ScAddr} {i : ℕ} {S : Set ℕ}

theorem mem_map_triple {l : List ScAddr} {P : ScAddr → Bool} (hl : f.edge ∈ l) (hp : P f.edge = true)
    (hs : f.source = ownerOf c .out f.edge) (ht : f.target = ownerOf c .inp f.edge) :
    f ∈ (l.filter P).map fun x => (⟨ownerOf c .out x, x, ownerOf c .inp x⟩ : Triple ScAddr) := by
  apply List.mem_map.mpr
  refine ⟨f.edge, List.mem_filter.mpr ⟨hl, hp⟩, ?_⟩
  rw [← hs, ← ht]

/-- What fits the places of a triple is found, when it can be read. -/
theorem mem_iterator_of_foundBy (hc : ArcsOk c) (hparams : createIterator R t = some params)
    {it : List (Triple ScAddr)} (hit : iterator3 c ctx params = some it)
    (h : FoundBy c ctx (searchResolveAddr R t.source) (searchResolveAddr R t.edge)
      (searchResolveAddr R t.target) t f)
    (hrs : CanRead ctx c f.source) (hre : CanRead ctx c f.edge) (hrt : CanRead ctx c f.target) :
    f ∈ it := by
  unfold iterator3 at hit
  dsimp only at hit
  split_ifs at hit with hfixed
  obtain rfl := Option.some.inj hit
  have hkind := iteratorKind_of_create hparams
  generalize searchResolveAddr R t.source = s at hkind h
  generalize searchResolveAddr R t.edge = e at hkind h
  generalize searchResolveAddr R t.target = d at hkind h
  obtain ⟨hso, hto⟩ := h.ends
  have htriple : f = ⟨ownerOf c .out f.edge, f.edge, ownerOf c .inp f.edge⟩ := by
    rw [← hso, ← hto]
  cases hkind with
  | afa hs he hd =>
    rw [(h.edge he).1] at htriple
    exact List.mem_singleton.mpr htriple
  | aaf hs he hd =>
    obtain ⟨harc, htype, hts, _⟩ := h.arc he
    obtain ⟨hd', hlive, _⟩ := h.target hd
    have hl := ((hc.arcList hlive).mem f.edge).mpr ⟨harc, hto.symm.trans hd'⟩
    apply mem_map_triple hl _ hso hto
    exact decide_eq_true ⟨htype, hso ▸ hts hs, hre, hso ▸ hrs⟩
  | aff hs he hd =>
    have hown : d = ownerOf c .inp e := by
      rw [← (h.target hd).1, hto, (h.edge he).1]
    rw [(h.edge he).1] at htriple
    dsimp only
    rw [if_pos hown]
    exact List.mem_singleton.mpr htriple
  | faa hs he hd =>
    obtain ⟨harc, htype, _, htt⟩ := h.arc he
    obtain ⟨hs', hlive, _⟩ := h.source hs
    have hl := ((hc.arcList hlive).mem f.edge).mpr ⟨harc, hso.symm.trans hs'⟩
    apply mem_map_triple hl _ hso hto
    exact decide_eq_true ⟨htype, hto ▸ htt hd, hre, hto ▸ hrt⟩
  | ffa hs he hd =>
    have hown : s = ownerOf c .out e := by
      rw [← (h.source hs).1, hso, (h.edge he).1]
    rw [(h.edge he).1] at htriple
    dsimp only
    rw [if_pos hown]
    exact List.mem_singleton.mpr htriple
  | faf hs he hd =>
    obtain ⟨harc, htype, _, _⟩ := h.arc he
    obtain ⟨hd', hlive, _⟩ := h.target hd
    have hl := ((hc.arcList hlive).mem f.edge).mpr ⟨harc, hto.symm.trans hd'⟩
    apply mem_map_triple hl _ hso hto
    exact decide_eq_true ⟨hso.symm.trans (h.source hs).1, htype, hre⟩
  | fff hs he hd =>
    have hown : s = ownerOf c .out e ∧ d = ownerOf c .inp e := by
      rw [← (h.source hs).1, hso, ← (h.target hd).1, hto, (h.edge he).1]
      exact ⟨rfl, rfl⟩
    rw [(h.edge he).1] at htriple
    dsimp only
    rw [if_pos hown]
    exact List.mem_singleton.mpr htriple

theorem iterator3_nodup (hc : ArcsOk c) {it : List (Triple ScAddr)}
    (hit : iterator3 c ctx params = some it) : it.Nodup := by
  unfold iterator3 at hit
  dsimp only at hit
  split_ifs at hit with hfixed
  obtain rfl := Option.some.inj hit
  have hlist (d : Dir) (a : ScAddr) (ha : a ∈ params.fixed) (P : ScAddr → Bool) :
      (((arcList c d a).filter P).map fun x =>
        (⟨ownerOf c .out x, x, ownerOf c .inp x⟩ : Triple ScAddr)).Nodup := by
    apply ((hc.arcList (hfixed a ha).1).nodup.filter _).map
    intro x y hxy
    exact congrArg Triple.edge hxy
  have hone (P : Prop) [Decidable P] (x : Triple ScAddr) : (if P then [x] else []).Nodup := by
    split_ifs
    · exact List.nodup_singleton x
    · exact List.nodup_nil
  cases params with
  | faa beg _ _ => exact hlist .out beg (by simp [Iterator3Params.fixed]) _
  | aaf _ _ end_ => exact hlist .inp end_ (by simp [Iterator3Params.fixed]) _
  | faf _ _ end_ => exact hlist .inp end_ (by simp [Iterator3Params.fixed]) _
  | afa _ _ _ => exact List.nodup_singleton _
  | ffa _ _ _ => exact hone _ _
  | aff _ _ _ => exact hone _ _
  | fff _ _ _ => exact hone _ _

theorem opens_nodup (hc : ArcsOk m.cells) (path : List (Triple ScAddr)) (cs : List (Triple ScAddr))
    (hopen : m.problem.opens path = .ok cs) : cs.Nodup := by
  obtain ⟨params, _, hit | ⟨_, rfl, _⟩⟩ := openIterator_ok hopen
  · exact iterator3_nodup hc hit
  · exact List.nodup_nil

/-- An item is resolved to its element, or it is not resolved. -/
theorem NamesKnown.resolve_or (hnames : NamesUnique m.data)
    (hkinds : ∀ i, (m.data.element i).kind ≠ .replace) (h : NamesKnown m.data S el R)
    (hfixed : (m.data.element i).kind = .addr → el i = (m.data.element i).addrValue) :
    searchResolveAddr R (m.data.element i) = el i ∨
      searchResolveAddr R (m.data.element i) = ScAddr.empty ∧ (m.data.element i).kind = .type := by
  cases hk : (m.data.element i).kind with
  | addr => exact Or.inl ((resolve_addr hk).trans (hfixed hk).symm)
  | type =>
    by_cases hi : i ∈ S
    · by_cases hname : (m.data.element i).hasReplacementName = true
      · exact Or.inl (h.resolve_known hk hi hname)
      · refine Or.inr ⟨?_, rfl⟩
        unfold searchResolveAddr
        rw [hk]
        exact if_neg hname
    · exact Or.inr ⟨h.resolve_unknown hnames hk hi, rfl⟩
  | replace => exact absurd hk (hkinds i)

/-- What is resolved is asked of the iterator. -/
theorem fixed_of_create (hparams : createIterator R t = some params) {value : ScTemplateArg}
    (hv : value ∈ t.toList) (hne : searchResolveAddr R value ≠ ScAddr.empty) :
    searchResolveAddr R value ∈ params.fixed := by
  have hkind := iteratorKind_of_create hparams
  simp only [Triple.toList, List.mem_cons, List.not_mem_nil, or_false] at hv
  generalize hs : searchResolveAddr R t.source = s at hkind
  generalize he : searchResolveAddr R t.edge = e at hkind
  generalize hd : searchResolveAddr R t.target = d at hkind
  rcases hv with rfl | rfl | rfl
  · rw [hs] at hne ⊢
    cases hkind <;> first | contradiction | simp [Iterator3Params.fixed]
  · rw [he] at hne ⊢
    cases hkind <;> first | contradiction | simp [Iterator3Params.fixed]
  · rw [hd] at hne ⊢
    cases hkind <;> first | contradiction | simp [Iterator3Params.fixed]

/-- What the iterator is asked for is what an item is resolved to. -/
theorem resolved_of_fixed (hparams : createIterator R t = some params) {a : ScAddr} (ha : a ∈ params.fixed) :
    a ≠ ScAddr.empty ∧ ∃ value ∈ t.toList, searchResolveAddr R value = a := by
  have hkind := iteratorKind_of_create hparams
  have hsource : t.source ∈ t.toList := List.mem_cons_self
  have hedge : t.edge ∈ t.toList := by simp [Triple.toList]
  have htarget : t.target ∈ t.toList := by simp [Triple.toList]
  have hplace (h : a ≠ ScAddr.empty ∧ (a = searchResolveAddr R t.source ∨ a = searchResolveAddr R t.edge ∨
      a = searchResolveAddr R t.target)) :
      a ≠ ScAddr.empty ∧ ∃ value ∈ t.toList, searchResolveAddr R value = a := by
    rcases h with ⟨hne, rfl | rfl | rfl⟩
    · exact ⟨hne, _, hsource, rfl⟩
    · exact ⟨hne, _, hedge, rfl⟩
    · exact ⟨hne, _, htarget, rfl⟩
  apply hplace
  generalize searchResolveAddr R t.source = s at hkind
  generalize searchResolveAddr R t.edge = e at hkind
  generalize searchResolveAddr R t.target = d at hkind
  cases hkind <;> simp only [Iterator3Params.fixed, List.mem_cons, List.not_mem_nil, or_false] at ha <;> aesop

/-- Every element of a level can be read: those with an address by the iterator that was made. -/
theorem SearchSetup.Satisfies.readable (hkinds : ∀ i, (m.data.element i).kind ≠ .replace)
    (h : m.Satisfies el) (hv : m.Visible el) {ids : Triple ℕ} (ht : ids ∈ m.data.triples)
    (hparams : createIterator R (m.data.items ids) = some params) {it : List (Triple ScAddr)}
    (hit : iterator3 m.cells m.ctx params = some it) (hi : i ∈ ids.toList)
    (hne : el i ≠ ScAddr.empty) :
    CanRead m.ctx m.cells (el i) := by
  cases hk : (m.data.element i).kind with
  | type => exact hv.elements ids ht i hi hk
  | replace => exact absurd hk (hkinds i)
  | addr =>
    have hres : searchResolveAddr R (m.data.element i) = el i :=
      (resolve_addr hk).trans (h.fixed ids ht i hi hk).symm
    have hmem : m.data.element i ∈ (m.data.items ids).toList := by
      rcases mem_toList_iff.mp hi with rfl | rfl | rfl <;>
        simp [ScTemplateData.items, Triple.map, Triple.toList]
    have hfixed := fixed_of_create hparams hmem (by rw [hres]; exact hne)
    unfold iterator3 at hit
    dsimp only at hit
    split_ifs at hit with hall
    rw [hres] at hfixed
    exact (hall _ hfixed).2

theorem SearchSetup.Satisfies.live (hc : ArcsOk m.cells) (h : m.Satisfies el) {ids : Triple ℕ}
    (ht : ids ∈ m.data.triples) (hi : i ∈ ids.toList) : Live m.cells (el i) := by
  obtain ⟨harc, hs, hd⟩ := h.arcs _ ht
  rcases mem_toList_iff.mp hi with rfl | rfl | rfl
  · exact hs ▸ hc.endpoint _ _ harc
  · exact harc.1
  · exact hd ▸ hc.endpoint _ _ harc

/-- A level of an assignment that can be read has an iterator. -/
theorem SearchSetup.Satisfies.iterator (hc : ArcsOk m.cells) (hnames : NamesUnique m.data)
    (hkinds : ∀ i, (m.data.element i).kind ≠ .replace) (h : m.Satisfies el) (hv : m.Visible el)
    (hknown : NamesKnown m.data S el R) {ids : Triple ℕ} (ht : ids ∈ m.data.triples)
    (hopen : m.openIterator R (m.data.items ids) = .ok cs) :
    ∃ params, createIterator R (m.data.items ids) = some params ∧
      iterator3 m.cells m.ctx params = some cs := by
  obtain ⟨params, hparams, hit | ⟨hasserts, _, hnone⟩⟩ := openIterator_ok hopen
  · exact ⟨params, hparams, hit⟩
  exfalso
  have hfixed : ∀ a ∈ params.fixed, Live m.cells a ∧ CanRead m.ctx m.cells a := by
    intro a ha
    obtain ⟨hne, value, hvalue, rfl⟩ := resolved_of_fixed hparams ha
    obtain ⟨i, hi, rfl⟩ : ∃ i ∈ ids.toList, m.data.element i = value := by
      simp only [ScTemplateData.items, Triple.map, Triple.toList, List.mem_cons, List.not_mem_nil,
        or_false] at hvalue
      rcases hvalue with rfl | rfl | rfl
      · exact ⟨_, mem_toList_iff.mpr (Or.inl rfl), rfl⟩
      · exact ⟨_, mem_toList_iff.mpr (Or.inr (Or.inl rfl)), rfl⟩
      · exact ⟨_, mem_toList_iff.mpr (Or.inr (Or.inr rfl)), rfl⟩
    have hel := (hknown.resolve_or hnames hkinds (h.fixed ids ht i hi)).resolve_right fun hh => hne hh.1
    rw [hel]
    refine ⟨h.live hc ht hi, ?_⟩
    cases hk : (m.data.element i).kind with
    | type => exact hv.elements ids ht i hi hk
    | addr => exact hv.given hasserts ids ht i hi hk
    | replace => exact absurd hk (hkinds i)
  unfold iterator3 at hnone
  dsimp only at hnone
  rw [if_pos hfixed] at hnone
  cases hnone

/-- What an assignment gives the triple of a level fits its places. -/
theorem SearchSetup.Satisfies.foundBy (hc : ArcsOk m.cells) (hnames : NamesUnique m.data)
    (hkinds : ∀ i, (m.data.element i).kind ≠ .replace) (h : m.Satisfies el)
    (hknown : NamesKnown m.data S el R) {ids : Triple ℕ} (ht : ids ∈ m.data.triples)
    (hread : ∀ i ∈ ids.toList, CanRead m.ctx m.cells (el i))
    (hparams : createIterator R (m.data.items ids) = some params) :
    FoundBy m.cells m.ctx (searchResolveAddr R (m.data.element ids.source))
      (searchResolveAddr R (m.data.element ids.edge)) (searchResolveAddr R (m.data.element ids.target))
      (m.data.items ids) (ids.map el) := by
  obtain ⟨harc, hs, hd⟩ := h.arcs ids ht
  have hls : Live m.cells (el ids.source) := hs ▸ hc.endpoint _ _ harc
  have hld : Live m.cells (el ids.target) := hd ▸ hc.endpoint _ _ harc
  have hsi : ids.source ∈ ids.toList := mem_toList_iff.mpr (Or.inl rfl)
  have hei : ids.edge ∈ ids.toList := mem_toList_iff.mpr (Or.inr (Or.inl rfl))
  have hdi : ids.target ∈ ids.toList := mem_toList_iff.mpr (Or.inr (Or.inr rfl))
  have hres (i : ℕ) (hi : i ∈ ids.toList) := hknown.resolve_or hnames hkinds (h.fixed ids ht i hi)
  have heq (i : ℕ) (hi : i ∈ ids.toList)
      (hne : searchResolveAddr R (m.data.element i) ≠ ScAddr.empty) :
      el i = searchResolveAddr R (m.data.element i) :=
    ((hres i hi).resolve_right fun hh => hne hh.1).symm
  -- what is not resolved is an item with a type, whatever its element is
  have htype (i : ℕ) (hi : i ∈ ids.toList) (hlive : Live m.cells (el i))
      (hempty : searchResolveAddr R (m.data.element i) = ScAddr.empty) :
      HasType m.cells (el i) (prepareType (m.data.element i).typeValue) := by
    rcases hres i hi with hel | ⟨_, hk⟩
    · rw [← hel, hempty] at hlive
      exact absurd hlive hc.notEmpty
    · exact h.types ids ht i hi hk
  refine ⟨fun hne => ?_, fun hne => ?_, fun hne => ?_, ⟨hs.symm, hd.symm⟩, fun he => ?_, fun he => ?_⟩
  · rw [← heq _ hsi hne]
    exact ⟨rfl, hls, hread _ hsi⟩
  · rw [← heq _ hei hne]
    exact ⟨rfl, harc.1, hread _ hei⟩
  · rw [← heq _ hdi hne]
    exact ⟨rfl, hld, hread _ hdi⟩
  · exact ⟨harc, htype _ hei harc.1 he, htype _ hsi hls, htype _ hdi hld⟩
  · cases iteratorKind_of_create hparams with
    | afa _ hne _ => exact absurd he hne
    | aaf _ _ hd => exact Or.inr hd
    | aff _ _ hd => exact Or.inr hd
    | faa hs _ _ => exact Or.inl hs
    | ffa hs _ _ => exact Or.inl hs
    | faf hs _ _ => exact Or.inl hs
    | fff hs _ _ => exact Or.inl hs

theorem SearchSetup.Visible.check (hc : ArcsOk m.cells) (hv : m.Visible el)
    (hne : m.struct ≠ ScAddr.empty) {ids : Triple ℕ} (ht : ids ∈ m.data.triples) (hi : i ∈ ids.toList)
    (hlive : Live m.cells (el i)) (hread : CanRead m.ctx m.cells (el i)) :
    m.checkInStruct (el i) = true := by
  obtain ⟨x, harc, hs, hd, htype, hreadx⟩ := hv.members hne ids ht i hi
  have hstruct : Live m.cells m.struct := hs ▸ hc.endpoint x .out harc
  have hfixed : ∀ a ∈ (Iterator3Params.faf m.struct scTypeEdgeAccessConstPosPerm (el i)).fixed,
      Live m.cells a ∧ CanRead m.ctx m.cells a := by
    intro a ha
    rcases List.mem_pair.mp ha with rfl | rfl
    · exact ⟨hstruct, hv.struct hne⟩
    · exact ⟨hlive, hread⟩
  have hmem : x ∈ (arcList m.cells .inp (el i)).filter (Iterator3Params.matching m.cells m.ctx
      (.faf m.struct scTypeEdgeAccessConstPosPerm (el i))) :=
    List.mem_filter.mpr ⟨((hc.arcList hlive).mem x).mpr ⟨harc, hd⟩, decide_eq_true ⟨hs, htype, hreadx⟩⟩
  unfold SearchSetup.checkInStruct helperCheckEdge iterator3
  dsimp only
  rw [if_pos hfixed]
  simpa using ⟨x, List.mem_filter.mp hmem⟩

/-- An arc is not used on the levels below its own. -/
theorem SearchSetup.Satisfies.edge_new (hord : m.Ordered) (h : m.Satisfies el) {n : ℕ}
    (hn : n < m.data.triples.length) :
    el (m.indicesAt n).edge ∉ (m.pathOf el n).map Triple.edge := by
  intro hmem
  obtain ⟨g, hg, he⟩ := List.mem_map.mp hmem
  have hrev := List.mem_reverse.mpr hg
  rw [pathOf_reverse] at hrev
  obtain ⟨level, hl, rfl⟩ := List.mem_map.mp hrev
  have hlt : level < n := List.mem_range.mp hl
  have hlen : level < m.data.triples.length := lt_trans hlt hn
  have hget (k : ℕ) (hk : k < m.data.triples.length) :
      (m.data.triples.map fun t => el t.edge)[m.processOrder.getD k 0]? =
        some (el (m.indicesAt k).edge) := by
    rw [List.getElem?_map, (hord.triple hk).1]
    rfl
  have hsame : (m.data.triples.map fun t => el t.edge)[m.processOrder.getD level 0]? =
      (m.data.triples.map fun t => el t.edge)[m.processOrder.getD n 0]? := by
    rw [hget level hlen, hget n hn]
    exact congrArg some he
  have hrange : m.processOrder.getD level 0 < (m.data.triples.map fun t => el t.edge).length :=
    (List.getElem?_eq_some_iff.mp (hget level hlen)).1
  have hidx := (List.getElem?_inj hrange h.edges).mp hsame
  exact absurd (hord.index_injective hlen hn hidx) (Nat.ne_of_lt hlt)

theorem SearchSetup.Satisfies.accepts (hc : ArcsOk m.cells) (hord : m.Ordered) (h : m.Satisfies el)
    (hv : m.Visible el) {n : ℕ} (hn : n < m.data.triples.length)
    (hread : ∀ i ∈ (m.indicesAt n).toList, CanRead m.ctx m.cells (el i)) :
    m.accepts ((m.pathOf el n).map Triple.edge) ((m.indicesAt n).map el) = true := by
  have ht := (hord.triple hn).2
  obtain ⟨harc, hs, hd⟩ := h.arcs _ ht
  have hcheck (hne : m.struct ≠ ScAddr.empty) (i : ℕ) (hi : i ∈ (m.indicesAt n).toList)
      (hlive : Live m.cells (el i)) : m.checkInStruct (el i) = true :=
    hv.check hc hne ht hi hlive (hread i hi)
  unfold SearchSetup.accepts
  rw [Bool.and_eq_true, Bool.or_eq_true, Bool.and_eq_true, Bool.and_eq_true]
  refine ⟨?_, decide_eq_true (h.edge_new hord hn)⟩
  by_cases hne : m.struct = ScAddr.empty
  · exact Or.inl (by simpa using hne)
  · refine Or.inr ⟨⟨hcheck hne _ (mem_toList_iff.mpr (Or.inl rfl)) (hs ▸ hc.endpoint _ _ harc),
      hcheck hne _ (mem_toList_iff.mpr (Or.inr (Or.inl rfl))) harc.1⟩,
      hcheck hne _ (mem_toList_iff.mpr (Or.inr (Or.inr rfl))) (hd ▸ hc.endpoint _ _ harc)⟩

/-- By induction on the levels: a search that has not stopped comes to the path of an assignment. -/
theorem SearchSetup.Satisfies.extends (hc : ArcsOk m.cells) (hord : m.Ordered)
    (hnames : NamesUnique m.data) (hkinds : ∀ i, (m.data.element i).kind ≠ .replace)
    (h : m.Satisfies el) (hv : m.Visible el)
    (hstop : (m.problem.explore m.data.triples.length []).2 = none) (n : ℕ)
    (hn : n ≤ m.data.triples.length) :
    m.problem.Extends [] (m.pathOf el n) ∧
      NamesKnown m.data (m.itemsBelow n) el (m.replsOf (m.pathOf el n)) := by
  induction n with
  | zero => exact ⟨Problem.Extends.start, (assigns_nil m).names.congr fun i hi =>
      absurd hi fun ⟨_, hl, _⟩ => Nat.not_lt_zero _ hl⟩
  | succ n ih =>
    obtain ⟨hext, hknown⟩ := ih (by omega)
    have hlt : n < m.data.triples.length := hn
    have ht := (hord.triple hlt).2
    obtain ⟨cs, hopen⟩ := Problem.opens_of_complete hstop hext (by
      rw [pathOf_length, List.length_nil]
      omega)
    have hopen' : m.openIterator (m.replsOf (m.pathOf el n)) (m.data.items (m.indicesAt n)) = .ok cs := by
      have hat := hopen
      unfold SearchSetup.problem at hat
      dsimp only at hat
      rw [pathOf_length] at hat
      exact hat
    obtain ⟨params, hparams, hit⟩ := h.iterator hc hnames hkinds hv hknown ht hopen'
    have hread (i : ℕ) (hi : i ∈ (m.indicesAt n).toList) : CanRead m.ctx m.cells (el i) :=
      h.readable hkinds hv ht hparams hit hi fun he => hc.notEmpty (he ▸ h.live hc ht hi)
    have hmem : (m.indicesAt n).map el ∈ cs := by
      apply mem_iterator_of_foundBy hc hparams hit
        (h.foundBy hc hnames hkinds hknown ht hread hparams)
      · exact hread _ (mem_toList_iff.mpr (Or.inl rfl))
      · exact hread _ (mem_toList_iff.mpr (Or.inr (Or.inl rfl)))
      · exact hread _ (mem_toList_iff.mpr (Or.inr (Or.inr rfl)))
    refine ⟨hext.choose hopen hmem (h.accepts hc hord hv hlt hread), ?_⟩
    rw [m.itemsBelow_succ]
    have hstep := hknown.refTriple hnames (m.indicesAt n)
    have hrepls : m.replsOf (m.pathOf el (n+1)) =
        refTriple (m.itemsAt n) ((m.indicesAt n).map el) (m.replsOf (m.pathOf el n)) := by
      show refTriple (m.itemsAt (m.pathOf el n).length) _ _ = _
      rw [pathOf_length]
    rw [hrepls]
    exact hstep

theorem filter_of_forall₂ {α β : Type} {P : α → β → Prop} {B : β → Bool} {l : List α} {rs : List β}
    {q : α} (h : List.Forall₂ P l rs) (hnodup : l.Nodup) (hq : q ∈ l)
    (hB : ∀ q' r, P q' r → (B r = true ↔ q' = q)) : ∃ r, P q r ∧ rs.filter B = [r] := by
  induction h with
  | nil => exact absurd hq List.not_mem_nil
  | cons hp hrest ih =>
    rename_i q' r l rs
    obtain ⟨hnot, hnodup⟩ := List.nodup_cons.mp hnodup
    by_cases he : q' = q
    · subst he
      refine ⟨r, hp, ?_⟩
      rw [List.filter_cons_of_pos ((hB q' r hp).mpr rfl)]
      -- no other path is the same one
      have hnone : rs.filter B = [] := by
        apply List.filter_eq_nil_iff.mpr
        intro r' hr' hb
        obtain ⟨n, hn, rfl⟩ := List.mem_iff_getElem.mp hr'
        have hln : n < l.length := hrest.length_eq ▸ hn
        have hpn := (List.forall₂_iff_get.mp hrest).2 n hln hn
        have he := (hB _ _ hpn).mp hb
        exact hnot (he ▸ List.get_mem l ⟨n, hln⟩)
      rw [hnone]
    · obtain ⟨r', hr', hf⟩ := ih hnodup ((List.mem_cons.mp hq).resolve_left fun hh => he hh.symm)
      refine ⟨r', hr', ?_⟩
      rw [List.filter_cons_of_neg (fun hb => he ((hB q' r hp).mp hb))]
      exact hf

/-- A result has the addresses of an assignment only on its path. -/
theorem SearchSetup.IsResult.eq_pathOf {r : SearchResult} (hord : m.Ordered) (h : m.IsResult path r)
    (haddrs : r.addrs = m.data.triples.map fun t => t.map el) :
    path = m.pathOf el m.data.triples.length := by
  rw [← h.length]
  apply Template.eq_pathOf
  intro f below hs
  have hlt : below.length < m.data.triples.length := by
    rw [← h.length]
    exact hs.length_le
  have hf := h.addrs f below hs
  rw [haddrs, List.getElem?_map, (hord.triple hlt).1] at hf
  exact (Option.some.inj hf).symm

/-- A search that has run to its end has given every assignment exactly once. -/
theorem SearchSetup.Satisfies.given (hc : ArcsOk m.cells) (hord : m.Ordered)
    (hnames : NamesUnique m.data) (hkinds : ∀ i, (m.data.element i).kind ≠ .replace)
    (hel : m.Satisfies el) (hv : m.Visible el) {rounds calls : ℕ}
    (hend : (m.results rounds calls m.reset).2 = .finished) :
    ∃ r, m.Gives r el ∧ ((m.results rounds calls m.reset).1.filter fun r =>
      r.addrs = m.data.triples.map fun t => t.map el) = [r] := by
  obtain ⟨N, rs, e, hN, hgiven⟩ := results_explore hord
  -- more rounds and calls would give the same
  have hsame : m.results rounds calls m.reset = (rs, e) := by
    have hmono := (@results_mono m rounds (max rounds N) calls (max calls N) m.reset
      (le_max_left _ _) (le_max_left _ _)).1 (by rw [hend]; exact fun h => SearchEnd.noConfusion h)
    rw [← hmono]
    exact hN _ _ (le_max_right _ _) (le_max_right _ _)
  have he : e = .finished := by
    rw [hsame] at hend
    exact hend
  obtain ⟨hstop, hrs⟩ := hgiven.finished he
  obtain ⟨hext, hknown⟩ := hel.extends hc hord hnames hkinds hv hstop m.data.triples.length (le_refl _)
  have hmem := Problem.explore_complete hstop hext (by
    rw [pathOf_length, List.length_nil, Nat.zero_add])
  have hnodup := Problem.explore_nodup (opens_nodup hc) m.data.triples.length []
  have hpath (f : Triple ScAddr) (below : List (Triple ScAddr))
      (hs : f :: below <:+ m.pathOf el m.data.triples.length) :
      f = (m.indicesAt below.length).map el := pathOf_found m el _ hs
  obtain ⟨r, hres, hfilter⟩ := @filter_of_forall₂ _ _ m.IsResult
    (fun r => decide (r.addrs = m.data.triples.map fun t => t.map el)) _ _ _ hrs hnodup hmem (by
      intro q r hq
      rw [decide_eq_true_iff]
      constructor
      · exact hq.eq_pathOf hord
      · rintro rfl
        exact hq.addrs_eq hord hpath)
  rw [hsame]
  refine ⟨r, ⟨hres.addrs_eq hord hpath, ?_⟩, hfilter⟩
  intro t ht i hi hname
  obtain ⟨n, hn, ha⟩ := hknown.named i (hord.below ht hi) hname
  rw [hres.names]
  beta_reduce
  rw [hn, Option.map_some, ha]

end

/-- The two nodes and the arc. -/
def arcAssignment (i : ℕ) : ScAddr := [⟨0, 1⟩, ⟨0, 65⟩, ⟨0, 33⟩].getD i ScAddr.empty

/-- It may not read what others have kept to themselves. -/
def lowContext : ScContext := ⟨1, 0⟩

/-- An arc to a node that only its owner may read. -/
def hiddenNode : List StoreEvent :=
  [⟨exampleEnv, .call (.nodeNew lowContext (scTypeNode ||| scTypeConst))⟩,
    ⟨exampleEnv, .call (.nodeNew exampleContext (scTypeNode ||| scTypeConst))⟩,
    ⟨exampleEnv, .call (.arcNew exampleContext scTypeEdgeAccessConstPosPerm ⟨0, 1⟩ ⟨0, 33⟩)⟩]

def targetTriple : Except ScException ScTemplateData :=
  ScTemplateData.empty.addTriple
    ⟨.ofAddr ⟨0, 1⟩ "", .ofType scTypeEdgeAccessVarPosPerm "", .ofType scTypeNodeVar "_y"⟩

end ScMachine.Template
