import ScMachine.StructTemplates
import ScMachine.SearchSound

/-! Which structures give a faithful template, whatever the order of their elements is and whatever
`std::sort` does with the arcs that its comparison does not tell apart. -/
namespace ScMachine.Template
open ScMachine.Store ScMachine.StateExcept ScMachine.Runs

section
variable {α : Type} {less : α → α → Bool}

theorem StrictWeak.total (h : StrictWeak less) (a b : α) : less b a = false ∨ less a b = false := by
  by_cases hab : less a b = true
  · exact Or.inl (h.asymm a b hab)
  · exact Or.inr (by simpa using hab)

theorem StrictWeak.trans (h : StrictWeak less) {a b c : α} (hab : less b a = false)
    (hbc : less c b = false) : less c a = false := by
  by_contra hca
  rcases h.cotrans c b a (by simpa using hca) with hh | hh
  · rw [hbc] at hh
    cases hh
  · rw [hab] at hh
    cases hh

def insertionStd (α : Type) : StdSort α where
  sort less l := l.insertionSort fun a b => less b a = false
  sort_perm _ l := List.perm_insertionSort _ l
  sort_sorted less l h := by
    have htotal : Std.Total fun a b : α => less b a = false := ⟨h.total⟩
    have htrans : IsTrans α fun a b : α => less b a = false := ⟨fun _ _ _ => h.trans⟩
    exact List.pairwise_insertionSort _ l

open Classical in
/-- Every sorted order of a list is the one of some `std::sort`. -/
theorem exists_stdSort (less : α → α → Bool) {l l' : List α} (hp : l'.Perm l)
    (hs : l'.Pairwise fun a b => less b a = false) : ∃ std : StdSort α, std.sort less l = l' := by
  refine ⟨⟨fun less1 l1 => if less1 = less ∧ l1 = l then l' else (insertionStd α).sort less1 l1, ?_, ?_⟩,
    if_pos ⟨rfl, rfl⟩⟩
  · intro less1 l1
    split_ifs with h
    · rw [h.2]
      exact hp
    · exact (insertionStd α).sort_perm less1 l1
  · intro less1 l1 hw
    split_ifs with h
    · rw [h.1]
      exact hs
    · exact (insertionStd α).sort_sorted less1 l1 hw

/-- What is less than an element of a sorted list stands before it. -/
theorem mem_before (h : StrictWeak less) {pre post : List α} {a b : α}
    (hs : (pre ++ b :: post).Pairwise fun a b => less b a = false) (ha : a ∈ pre ++ b :: post)
    (hless : less a b = true) : a ∈ pre := by
  rcases List.mem_append.mp ha with ha | ha
  · exact ha
  · exfalso
    rcases List.mem_cons.mp ha with rfl | ha
    · have hself := h.asymm a a hless
      rw [hless] at hself
      cases hself
    · have hrest := (List.pairwise_append.mp hs).2.1
      have hfalse := (List.pairwise_cons.mp hrest).1 a ha
      rw [hless] at hfalse
      cases hfalse

end

/-- An arc is not joined by an arc that is joined by another, and a loop comes after another arc of its
node. -/
structure TriplesOrderable (l : List (Triple ObjectInfo)) : Prop where
  flat : ∀ t ∈ l, ∀ u ∈ l, u.edge = t.source ∨ u.edge = t.target → depends u = false
  loops : ∀ t ∈ l, t.source = t.target → t.source.type.isEdge = false → ∃ u ∈ l,
    (u.source = t.source ∨ u.target = t.source) ∧ edgeLess (l.flatMap edgeDepends) u t = true

/-- The arcs of a list are those of the objects, once each. -/
structure ArcsListed (objects : List ObjectInfo) (l : List (Triple ObjectInfo)) : Prop where
  nodup : (l.map Triple.edge).Nodup
  addrs : ∀ t ∈ l, ∀ u ∈ l, t.edge.addr = u.edge.addr → t = u
  isEdge : ∀ t ∈ l, t.edge.type.isEdge = true
  valid : ∀ t ∈ l, t.source.addr ≠ ScAddr.empty
  mem : ∀ t ∈ l, ∀ o ∈ t.toList, o ∈ objects
  all : ∀ o ∈ objects, o.type.isEdge = true → ∃ t ∈ l, t.edge = o

section
variable {objects : List ObjectInfo} {l : List (Triple ObjectInfo)} {t u : Triple ObjectInfo}

theorem ArcsListed.less_iff (h : ArcsListed objects l) (ht : t ∈ l) (hu : u ∈ l) :
    edgeLess (l.flatMap edgeDepends) t u = true ↔ depends t = false ∧ (depends u = true ∨
      calculateEdgeRank u < calculateEdgeRank t ∨ calculateEdgeRank u = calculateEdgeRank t ∧
        t.edge.addr.hash < u.edge.addr.hash) :=
  edgeLess_iff h.addrs h.valid ht hu

theorem ArcsListed.eq_of_edge (h : ArcsListed objects l) (ht : t ∈ l) (hu : u ∈ l)
    (he : t.edge = u.edge) : t = u :=
  h.addrs t ht u hu (congrArg ObjectInfo.addr he)

theorem depends_of_end (ht : t.source.type.isEdge = true ∨ t.target.type.isEdge = true) :
    depends t = true := by
  unfold depends
  rcases ht with h | h <;> simp [h]

/-- Every sorted order is ready when the structure is flat and its loops come late. -/
theorem TriplesOrderable.ready (hl : ArcsListed objects l) (h : TriplesOrderable l)
    (std : StdSort (Triple ObjectInfo)) {pre post : List (Triple ObjectInfo)}
    (hsplit : std.sort (edgeLess (l.flatMap edgeDepends)) l = pre ++ t :: post) :
    ReadyAfter (metBy pre) t := by
  have hweak := edgeLess_strictWeak (l.flatMap edgeDepends)
  have hsorted := std.sort_sorted _ l hweak
  have hperm := std.sort_perm (edgeLess (l.flatMap edgeDepends)) l
  rw [hsplit] at hsorted hperm
  have hmem (u : Triple ObjectInfo) : u ∈ l ↔ u ∈ pre ++ t :: post := hperm.mem_iff.symm
  have ht : t ∈ l := (hmem t).mpr (by simp)
  have hbefore (u : Triple ObjectInfo) (hu : u ∈ l)
      (hless : edgeLess (l.flatMap edgeDepends) u t = true) : u ∈ pre :=
    mem_before hweak hsorted ((hmem u).mp hu) hless
  have hend (o : ObjectInfo) (ho : t.source = o ∨ t.target = o) (hedge : o.type.isEdge = true) :
      depends t = true := by
    apply depends_of_end
    rcases ho with rfl | rfl
    · exact Or.inl hedge
    · exact Or.inr hedge
  -- an arc is not joined to itself, since it would be joined by an arc that is joined
  have hself (ho : t.edge = t.source ∨ t.edge = t.target) : False := by
    have hflat := h.flat t ht t ht ho
    rw [hend t.edge (ho.imp Eq.symm Eq.symm) (hl.isEdge t ht)] at hflat
    cases hflat
  refine ⟨?_, fun he => hself (Or.inl he), fun he => hself (Or.inr he), ?_⟩
  · rintro ⟨u, hu, ho⟩
    have hul : u ∈ l := (hmem u).mpr (List.mem_append_left _ hu)
    simp only [Triple.toList, List.mem_cons, List.not_mem_nil, or_false] at ho
    by_cases hedge : t.edge = u.edge
    · have heq := hl.eq_of_edge ht hul hedge
      have hnodup := (hperm.map Triple.edge).nodup_iff.mpr hl.nodup
      rw [List.map_append, List.map_cons] at hnodup
      exact List.disjoint_of_nodup_append hnodup (List.mem_map_of_mem hu) (by simp [hedge])
    · -- the arc is an end of one that was before, which depends on it
      have ho' : t.edge = u.source ∨ t.edge = u.target := by tauto
      have hflat := h.flat u hul t ht ho'
      have hdep : depends u = true := by
        apply depends_of_end
        rcases ho' with he | he
        · exact Or.inl (he ▸ hl.isEdge t ht)
        · exact Or.inr (he ▸ hl.isEdge t ht)
      have hless := (hl.less_iff ht hul).mpr ⟨hflat, Or.inl hdep⟩
      have hfalse := (List.pairwise_append.mp hsorted).2.2 u hu t List.mem_cons_self
      rw [hless] at hfalse
      cases hfalse
  · intro hloop
    by_cases hedge : t.source.type.isEdge = true
    · obtain ⟨u, hu, hue⟩ := hl.all _ (hl.mem t ht _ (by simp [Triple.toList])) hedge
      have hless := (hl.less_iff hu ht).mpr ⟨h.flat t ht u hu (Or.inl hue),
        Or.inl (hend _ (Or.inl rfl) hedge)⟩
      exact ⟨u, hbefore u hu hless, by simp [Triple.toList, hue]⟩
    · obtain ⟨u, hu, hus, hless⟩ := h.loops t ht hloop (by simpa using hedge)
      refine ⟨u, hbefore u hu hless, ?_⟩
      rcases hus with he | he <;> simp [Triple.toList, he]

/-- The arcs that depend on none, then one of the others, then the rest: that is sorted. -/
theorem exists_sorted_first (hl : ArcsListed objects l) (hu : u ∈ l) (hdep : depends u = true) :
    ∃ std : StdSort (Triple ObjectInfo), ∃ pre post,
      std.sort (edgeLess (l.flatMap edgeDepends)) l = pre ++ u :: post ∧
        ∀ t ∈ l, depends t = true → t ∉ pre := by
  have hweak := edgeLess_strictWeak (l.flatMap edgeDepends)
  set less := edgeLess (l.flatMap edgeDepends) with hless
  set plain := (insertionStd (Triple ObjectInfo)).sort less (l.filter fun t => !depends t) with hplain
  set rest := (l.filter fun t => depends t).erase u with hrest
  have hplainMem (t : Triple ObjectInfo) : t ∈ plain ↔ t ∈ l ∧ depends t = false := by
    rw [hplain, ((insertionStd _).sort_perm _ _).mem_iff, List.mem_filter]
    simp
  have hudep : u ∈ l.filter fun t => depends t := List.mem_filter.mpr ⟨hu, by simpa using hdep⟩
  have hperm : (plain ++ u :: rest).Perm l := by
    have h1 : (u :: rest).Perm (l.filter fun t => depends t) := (List.perm_cons_erase hudep).symm
    have h2 : plain.Perm (l.filter fun t => !depends t) := (insertionStd _).sort_perm _ _
    have h3 := h2.append h1
    have h4 := List.filter_append_perm (fun t => depends t) l
    exact h3.trans (List.perm_append_comm.trans h4)
  have hlate (t : Triple ObjectInfo) (ht : t ∈ u :: rest) : t ∈ l ∧ depends t = true := by
    rcases List.mem_cons.mp ht with rfl | ht
    · exact ⟨hu, hdep⟩
    · have hf := List.mem_filter.mp (List.mem_of_mem_erase ht)
      exact ⟨hf.1, by simpa using hf.2⟩
  have hfalse (t s : Triple ObjectInfo) (ht : t ∈ l) (hs : s ∈ l) (hd : depends t = true) :
      less t s = false := by
    by_contra hh
    have hiff := ((hl.less_iff ht hs).mp (by simpa using hh)).1
    rw [hd] at hiff
    cases hiff
  have hsorted : (plain ++ u :: rest).Pairwise fun a b => less b a = false := by
    rw [List.pairwise_append]
    refine ⟨(insertionStd _).sort_sorted _ _ hweak, ?_, ?_⟩
    · apply List.pairwise_of_forall_mem_list
      intro a ha b hb
      exact hfalse b a (hlate b hb).1 (hlate a ha).1 (hlate b hb).2
    · intro a ha b hb
      exact hfalse b a (hlate b hb).1 ((hplainMem a).mp ha).1 (hlate b hb).2
  obtain ⟨std, hstd⟩ := exists_stdSort less hperm hsorted
  refine ⟨std, plain, rest, hstd, ?_⟩
  intro t _ ht hmem
  rw [((hplainMem t).mp hmem).2] at ht
  cases ht

/-- When every sorted order is ready, the structure is flat and its loops come late. -/
theorem orderable_of_ready (hl : ArcsListed objects l)
    (h : ∀ std : StdSort (Triple ObjectInfo), ∀ pre t post,
      std.sort (edgeLess (l.flatMap edgeDepends)) l = pre ++ t :: post → ReadyAfter (metBy pre) t) :
    TriplesOrderable l := by
  have hweak := edgeLess_strictWeak (l.flatMap edgeDepends)
  refine ⟨?_, ?_⟩
  · intro t ht u hu he
    by_contra hdep
    rw [Bool.not_eq_false] at hdep
    -- the arc on the dependent arc is put first among those that depend on others
    have hdept : depends t = true := by
      apply depends_of_end
      rcases he with he | he
      · exact Or.inl (he ▸ hl.isEdge u hu)
      · exact Or.inr (he ▸ hl.isEdge u hu)
    obtain ⟨std, pre, post, hstd, hpre⟩ := exists_sorted_first hl ht hdept
    have hready := h std pre t post hstd
    have hmem : u ∈ pre ++ t :: post := hstd ▸ (std.sort_perm _ l).mem_iff.mpr hu
    rcases List.mem_append.mp hmem with hp | hp
    · exact hpre u hu hdep hp
    · rcases List.mem_cons.mp hp with rfl | hp
      · rcases he with he | he
        · exact hready.source he
        · exact hready.target he
      · obtain ⟨post1, post2, rfl⟩ := List.append_of_mem hp
        have hlater := h std (pre ++ t :: post1) u post2 (by rw [hstd, List.append_assoc]; rfl)
        apply hlater.new
        refine ⟨t, by simp, ?_⟩
        rcases he with he | he <;> simp [Triple.toList, he]
  · intro t ht hloop hedge
    obtain ⟨pre, post, hsplit⟩ : ∃ pre post, (insertionStd (Triple ObjectInfo)).sort
        (edgeLess (l.flatMap edgeDepends)) l = pre ++ t :: post :=
      List.append_of_mem (((insertionStd _).sort_perm _ l).mem_iff.mpr ht)
    obtain ⟨u, hu, hmet⟩ := (h _ pre t post hsplit).loop hloop
    have hperm := (insertionStd (Triple ObjectInfo)).sort_perm (edgeLess (l.flatMap edgeDepends)) l
    have hsorted := (insertionStd _).sort_sorted _ l hweak
    rw [hsplit] at hperm hsorted
    have hul : u ∈ l := hperm.mem_iff.mp (List.mem_append_left _ hu)
    have hnodup := (hperm.map Triple.edge).nodup_iff.mpr hl.nodup
    rw [List.map_append, List.map_cons] at hnodup
    have hne : u.edge ≠ t.edge := by
      intro he
      exact List.disjoint_of_nodup_append hnodup (List.mem_map_of_mem hu) (by simp [he])
    have hends : u.source = t.source ∨ u.target = t.source := by
      simp only [Triple.toList, List.mem_cons, List.not_mem_nil, or_false] at hmet
      rcases hmet with hh | hh | hh
      · exact Or.inl hh.symm
      · rw [hh, hl.isEdge u hul] at hedge
        cases hedge
      · exact Or.inr hh.symm
    refine ⟨u, hul, hends, ?_⟩
    -- two arcs without dependence are told apart by their addresses
    have hnot := (List.pairwise_append.mp hsorted).2.2 u hu t List.mem_cons_self
    have hdept : depends t = false := by
      unfold depends
      rw [← hloop, hedge]
      rfl
    rw [hl.less_iff hul ht]
    have hnot' : ¬ edgeLess (l.flatMap edgeDepends) t u = true := by
      rw [hnot]
      exact Bool.false_ne_true
    rw [hl.less_iff ht hul] at hnot'
    have haddr : u.edge.addr.hash ≠ t.edge.addr.hash := by
      intro hh
      exact hne (congrArg Triple.edge (hl.addrs u hul t ht (hash_injective hh)))
    simp only [hdept, true_and, BitVec.lt_def, not_or, not_and, Bool.false_eq_true, false_or] at hnot' ⊢
    obtain ⟨hu1, hu2, hu3⟩ := hnot'
    have haddr' : u.edge.addr.hash.toNat ≠ t.edge.addr.hash.toNat :=
      fun hh => haddr (BitVec.eq_of_toNat_eq hh)
    refine ⟨by simpa using hu1, ?_⟩
    rcases Nat.lt_or_ge (calculateEdgeRank t) (calculateEdgeRank u) with hlt | hge
    · exact Or.inl hlt
    · right
      have heq : calculateEdgeRank t = calculateEdgeRank u := by omega
      refine ⟨heq, ?_⟩
      have := hu3 heq.symm
      omega

end

/-- The context sees an arc at the address. -/
def IsArc (c : Cells) (ctx : ScContext) (a : ScAddr) : Prop := (getElementType c ctx a).isEdge = true

/-- An arc that starts or ends at an arc. -/
def OnArc (c : Cells) (ctx : ScContext) (a : ScAddr) : Prop := ∃ d, IsArc c ctx (ownerOf c d a)

/-- How many ends of an arc are constants. -/
def constEnds (c : Cells) (ctx : ScContext) (a : ScAddr) : ℕ :=
  (if (getElementType c ctx (ownerOf c .out a)).isConst then 1 else 0)+
    (if (getElementType c ctx (ownerOf c .inp a)).isConst then 1 else 0)

/-- No arc joins an arc that joins an arc, and a loop of a node has another arc of the node before it:
one with more constant ends, or with as many and a lower address. -/
structure Orderable (c : Cells) (ctx : ScContext) (elements : List ScAddr) : Prop where
  flat : ∀ a ∈ elements, IsArc c ctx a → ∀ d, IsArc c ctx (ownerOf c d a) →
    ¬ OnArc c ctx (ownerOf c d a)
  loops : ∀ a ∈ elements, IsArc c ctx a → ownerOf c .out a = ownerOf c .inp a →
    ¬ IsArc c ctx (ownerOf c .out a) → ∃ b ∈ elements, IsArc c ctx b ∧ ¬ OnArc c ctx b ∧
      (∃ d, ownerOf c d b = ownerOf c .out a) ∧ (constEnds c ctx a < constEnds c ctx b ∨
        constEnds c ctx a = constEnds c ctx b ∧ b.hash < a.hash)

/-- The arcs of the structure with their ends. -/
def arcTriples (c : Cells) (ctx : ScContext) (elements : List ScAddr) : List (Triple ScAddr) :=
  (elements.dedup.filter fun a => (getElementType c ctx a).isEdge).map fun a =>
    ⟨ownerOf c .out a, a, ownerOf c .inp a⟩

/-- `Make` yields a template with one triple for each arc, in the order of the sorted arcs, in which two
positions have one item exactly when they have one element. -/
def Faithful (asserts : Bool) (std : StdSort (Triple ObjectInfo)) (c : Cells) (ctx : ScContext)
    (systemIdtf : ScAddr → String) (struct : ScAddr) (elements members : List ScAddr) : Prop :=
  ∃ (triples : List (Triple ObjectInfo)) (data : ScTemplateData) (item : ScAddr → ℕ),
    structTriples std c ctx systemIdtf struct members = .ok triples ∧
    scTemplateStructBuilderMake asserts std c ctx systemIdtf struct (some members) = .ok data ∧
    (triples.map fun t => t.map ObjectInfo.addr).Perm (arcTriples c ctx elements) ∧
    data.triples = triples.map (fun t => t.map fun o => item o.addr) ∧
    ∀ t ∈ triples, ∀ u ∈ triples, ∀ o ∈ t.toList, ∀ p ∈ u.toList,
      item o.addr = item p.addr → o.addr = p.addr

section
variable {c : Cells} {ctx : ScContext} {systemIdtf : ScAddr → String}
  {elements members : List ScAddr} {objects : List ObjectInfo} {index : ℕ} {struct : ScAddr}
  {l : List (Triple ObjectInfo)}

theorem generated_ne_addr (k : ℕ) (a : ScAddr) : "..obj_" ++ Nat.repr k ≠ a.toString := by
  intro h
  unfold ScAddr.toString at h
  have hl := congrArg String.toList h
  simp at hl

theorem Collected.namesOk (hid : IdtfsDistinct systemIdtf elements)
    (h : Collected c ctx systemIdtf elements objects index) (hvalid : ∀ a ∈ elements, a ≠ ScAddr.empty) :
    NamesOk objects := by
  have hne (o : ObjectInfo) (ho : o ∈ objects) : o.sysIdtf ≠ "" := by
    rcases h.origin o ho with ⟨hne, _⟩ | ⟨k, _, hk⟩
    · exact hne
    · rw [hk]
      intro he
      have hl := congrArg String.toList he
      simp at hl
  have hget (o : ObjectInfo) (ho : o ∈ objects) : o.getIdtf = o.sysIdtf := if_pos (hne o ho)
  refine ⟨?_, ?_, ?_, ?_, ?_⟩
  · intro o ho p hp he
    rw [hget o ho, hget p hp] at he
    exact List.inj_on_of_nodup_map h.idtfs ho hp he
  · intro o ho p hp
    rw [hget o ho]
    rcases h.origin o ho with ⟨_, hsys⟩ | ⟨k, _, hk⟩
    · rw [hsys]
      exact hid.notAddr _ (h.mem o ho) _ (h.mem p hp)
    · rw [hk]
      exact generated_ne_addr k p.addr
  · intro o ho
    rw [hget o ho]
    exact hne o ho
  · intro o ho p hp he
    exact List.inj_on_of_nodup_map h.addrs ho hp he
  · intro o ho
    exact hvalid _ (h.mem o ho)

theorem Listed.arcsListed (hn : NamesOk objects)
    (h : Listed c ctx systemIdtf elements objects l) : ArcsListed objects l := by
  obtain ⟨index, hcol⟩ := h.collected
  have hnodup : (l.map Triple.edge).Nodup :=
    h.edges.nodup_iff.mpr ((hcol.addrs.of_map).filter _)
  refine ⟨hnodup, ?_, fun t ht => (h.ends t ht).isEdge, ?_, fun t ht => (h.ends t ht).mem, ?_⟩
  · intro t ht u hu he
    have htm := (h.ends t ht).mem t.edge (by simp [Triple.toList])
    have hum := (h.ends u hu).mem u.edge (by simp [Triple.toList])
    exact List.inj_on_of_nodup_map hnodup ht hu (hn.addr _ htm _ hum he)
  · intro t ht
    exact hn.valid _ ((h.ends t ht).mem _ (by simp [Triple.toList]))
  · intro o ho hedge
    exact List.mem_map.mp (h.edges.mem_iff.mpr (List.mem_filter.mpr ⟨ho, by simpa using hedge⟩))

/-- What the objects of an arc say about its address. -/
theorem Listed.at_addr (h : Listed c ctx systemIdtf elements objects l) {t : Triple ObjectInfo}
    (ht : t ∈ l) : t.edge.addr ∈ elements ∧ IsArc c ctx t.edge.addr ∧
      (∀ o ∈ t.toList, o.type = getElementType c ctx o.addr) ∧
      t.source.addr = ownerOf c .out t.edge.addr ∧ t.target.addr = ownerOf c .inp t.edge.addr := by
  obtain ⟨index, hcol⟩ := h.collected
  have hends := h.ends t ht
  have htype (o : ObjectInfo) (ho : o ∈ t.toList) : o.type = getElementType c ctx o.addr :=
    hcol.types o (hends.mem o ho)
  have he : t.edge ∈ t.toList := by simp [Triple.toList]
  refine ⟨hcol.mem _ (hends.mem _ he), ?_, htype, hends.source, hends.target⟩
  unfold IsArc
  rw [← htype _ he]
  exact hends.isEdge

theorem Listed.exists_arc (hn : NamesOk objects) (h : Listed c ctx systemIdtf elements objects l)
    {a : ScAddr} (ha : a ∈ elements) (harc : IsArc c ctx a) : ∃ t ∈ l, t.edge.addr = a := by
  obtain ⟨index, hcol⟩ := h.collected
  obtain ⟨o, ho, rfl⟩ := h.all a ha
  obtain ⟨t, ht, rfl⟩ := (h.arcsListed hn).all o ho (by rw [hcol.types o ho]; exact harc)
  exact ⟨t, ht, rfl⟩

theorem Listed.depends_iff (h : Listed c ctx systemIdtf elements objects l) {t : Triple ObjectInfo}
    (ht : t ∈ l) : depends t = true ↔ OnArc c ctx t.edge.addr := by
  obtain ⟨_, _, htype, hs, hd⟩ := h.at_addr ht
  unfold depends OnArc IsArc
  rw [htype t.source (by simp [Triple.toList]), htype t.target (by simp [Triple.toList]), hs, hd,
    Bool.or_eq_true]
  constructor
  · rintro (hh | hh)
    · exact ⟨.out, hh⟩
    · exact ⟨.inp, hh⟩
  · rintro ⟨d, hh⟩
    cases d with
    | out => exact Or.inl hh
    | inp => exact Or.inr hh

theorem Listed.rank_eq (h : Listed c ctx systemIdtf elements objects l) {t : Triple ObjectInfo}
    (ht : t ∈ l) : calculateEdgeRank t = constEnds c ctx t.edge.addr := by
  obtain ⟨_, _, htype, hs, hd⟩ := h.at_addr ht
  unfold calculateEdgeRank constEnds
  rw [htype t.source (by simp [Triple.toList]), htype t.target (by simp [Triple.toList]), hs, hd]

/-- The two ways to put the condition. -/
theorem Listed.orderable_iff (hn : NamesOk objects)
    (h : Listed c ctx systemIdtf elements objects l) :
    TriplesOrderable l ↔ Orderable c ctx elements := by
  have hl := h.arcsListed hn
  have hobj {t : Triple ObjectInfo} (ht : t ∈ l) {o : ObjectInfo} (ho : o ∈ t.toList) : o ∈ objects :=
    (h.ends t ht).mem o ho
  constructor
  · intro ho
    refine ⟨?_, ?_⟩
    · intro a ha harc d hend honarc
      obtain ⟨t, ht, rfl⟩ := h.exists_arc hn ha harc
      obtain ⟨_, _, htype, hs, hd⟩ := h.at_addr ht
      -- the end of the arc is an arc of the structure
      obtain ⟨o, hot, hoa⟩ : ∃ o ∈ t.toList, (o = t.source ∨ o = t.target) ∧
          o.addr = ownerOf c d t.edge.addr := by
        cases d with
        | out => exact ⟨t.source, by simp [Triple.toList], Or.inl rfl, hs⟩
        | inp => exact ⟨t.target, by simp [Triple.toList], Or.inr rfl, hd⟩
      obtain ⟨u, hu, rfl⟩ := hl.all o (hobj ht hot) (by rw [htype o hot, hoa.2]; exact hend)
      have hflat := ho.flat t ht u hu hoa.1
      have hdep := (h.depends_iff hu).mpr (by rw [hoa.2]; exact honarc)
      rw [hdep] at hflat
      cases hflat
    · intro a ha harc hloop hnode
      obtain ⟨t, ht, rfl⟩ := h.exists_arc hn ha harc
      obtain ⟨_, _, htype, hs, hd⟩ := h.at_addr ht
      have hst : t.source = t.target :=
        hn.addr _ (hobj ht (by simp [Triple.toList])) _ (hobj ht (by simp [Triple.toList]))
          (by rw [hs, hd, hloop])
      have hedge : t.source.type.isEdge = false := by
        rw [htype t.source (by simp [Triple.toList]), hs]
        exact Bool.eq_false_iff.mpr hnode
      obtain ⟨u, hu, hus, hless⟩ := ho.loops t ht hst hedge
      obtain ⟨hum, huarc, _, hus', hud'⟩ := h.at_addr hu
      obtain ⟨hdep, hcmp⟩ := (hl.less_iff hu ht).mp hless
      have hdept : depends t = false := by
        unfold depends
        rw [← hst, hedge]
        rfl
      refine ⟨u.edge.addr, hum, huarc, ?_, ?_, ?_⟩
      · rw [← h.depends_iff hu, hdep]
        exact Bool.false_ne_true
      · rcases hus with he | he
        · exact ⟨.out, by rw [← hus', he, hs]⟩
        · exact ⟨.inp, by rw [← hud', he, hs]⟩
      · rw [← h.rank_eq ht, ← h.rank_eq hu]
        exact hcmp.resolve_left (by rw [hdept]; exact Bool.false_ne_true)
  · intro ho
    refine ⟨?_, ?_⟩
    · intro t ht u hu he
      obtain ⟨htm, htarc, htype, hs, hd⟩ := h.at_addr ht
      obtain ⟨_, huarc, _, _, _⟩ := h.at_addr hu
      obtain ⟨d, hda⟩ : ∃ d, ownerOf c d t.edge.addr = u.edge.addr := by
        rcases he with he | he
        · exact ⟨.out, by rw [he, hs]⟩
        · exact ⟨.inp, by rw [he, hd]⟩
      have hflat := ho.flat _ htm htarc d (by rw [hda]; exact huarc)
      rw [hda] at hflat
      exact Bool.eq_false_iff.mpr fun hh => hflat ((h.depends_iff hu).mp hh)
    · intro t ht hst hedge
      obtain ⟨htm, htarc, htype, hs, hd⟩ := h.at_addr ht
      have hnode : ¬ IsArc c ctx (ownerOf c .out t.edge.addr) := by
        unfold IsArc
        rw [← hs, ← htype t.source (by simp [Triple.toList]), hedge]
        exact Bool.false_ne_true
      obtain ⟨b, hb, hbarc, hbdep, ⟨d, hbd⟩, hcmp⟩ :=
        ho.loops _ htm htarc (by rw [← hs, ← hd, hst]) hnode
      obtain ⟨u, hu, rfl⟩ := h.exists_arc hn hb hbarc
      obtain ⟨_, _, _, hus, hud⟩ := h.at_addr hu
      refine ⟨u, hu, ?_, ?_⟩
      · cases d with
        | out => exact Or.inl (hn.addr _ (hobj hu (by simp [Triple.toList])) _
            (hobj ht (by simp [Triple.toList])) (by rw [hus, hbd, hs]))
        | inp => exact Or.inr (hn.addr _ (hobj hu (by simp [Triple.toList])) _
            (hobj ht (by simp [Triple.toList])) (by rw [hud, hbd, hs]))
      · rw [hl.less_iff hu ht, h.rank_eq hu, h.rank_eq ht]
        exact ⟨Bool.eq_false_iff.mpr fun hh => hbdep ((h.depends_iff hu).mp hh), Or.inr hcmp⟩

theorem findObject_self (hn : NamesOk objects) {o : ObjectInfo} (ho : o ∈ objects) :
    findObject objects o.addr = some o := by
  obtain ⟨p, hp, hf, hpa⟩ := @findObject_eq objects o.addr ⟨o, ho, rfl⟩
  rw [hf, hn.addr p hp o ho hpa]

/-- The listed arcs are the arcs of the structure. -/
theorem Listed.perm_arcTriples (h : Listed c ctx systemIdtf elements objects l) :
    (l.map fun t => t.map ObjectInfo.addr).Perm (arcTriples c ctx elements) := by
  obtain ⟨index, hcol⟩ := h.collected
  have htriple : (l.map fun t => t.map ObjectInfo.addr) =
      ((l.map Triple.edge).map ObjectInfo.addr).map fun a =>
        (⟨ownerOf c .out a, a, ownerOf c .inp a⟩ : Triple ScAddr) := by
    rw [List.map_map, List.map_map]
    apply List.map_congr_left
    intro t ht
    have hends := h.ends t ht
    show (⟨t.source.addr, t.edge.addr, t.target.addr⟩ : Triple ScAddr) = _
    rw [hends.source, hends.target]
    rfl
  have haddrs : (objects.map ObjectInfo.addr).Perm elements.dedup := by
    rw [List.perm_ext_iff_of_nodup hcol.addrs (List.nodup_dedup _)]
    intro a
    rw [List.mem_dedup]
    constructor
    · intro ha
      obtain ⟨o, ho, rfl⟩ := List.mem_map.mp ha
      exact hcol.mem o ho
    · intro ha
      obtain ⟨o, ho, hoa⟩ := h.all a ha
      exact List.mem_map.mpr ⟨o, ho, hoa⟩
  have hfilter : (objects.filter (·.type.isEdge)).map ObjectInfo.addr =
      (objects.map ObjectInfo.addr).filter fun a => (getElementType c ctx a).isEdge := by
    rw [List.filter_map]
    apply congrArg
    apply List.filter_congr
    intro o ho
    show o.type.isEdge = (getElementType c ctx o.addr).isEdge
    rw [hcol.types o ho]
  rw [htriple]
  unfold arcTriples
  apply List.Perm.map
  apply (h.edges.map ObjectInfo.addr).trans
  rw [hfilter]
  exact haddrs.filter _

/-- One order: the template is faithful exactly when every arc was ready in its turn. -/
theorem faithful_iff (asserts : Bool) (hstruct : VarStructure c ctx elements) (hn : NamesOk objects)
    (h : Listed c ctx systemIdtf elements objects l) (std : StdSort (Triple ObjectInfo))
    (hl : structTriples std c ctx systemIdtf struct members =
      .ok (std.sort (edgeLess (l.flatMap edgeDepends)) l)) :
    Faithful asserts std c ctx systemIdtf struct elements members ↔
      ∀ pre t post, std.sort (edgeLess (l.flatMap edgeDepends)) l = pre ++ t :: post →
        ReadyAfter (metBy pre) t := by
  set sorted := std.sort (edgeLess (l.flatMap edgeDepends)) l with hsorted
  have hlisted : Listed c ctx systemIdtf elements objects sorted := h.perm (std.sort_perm _ l)
  have hvars : ∀ t ∈ sorted, (∀ o ∈ t.toList, o ∈ objects) ∧ t.edge.type.isVar = true ∧
      t.edge.type.isConst = false := by
    intro t ht
    obtain ⟨hm, harc, htype, _, _⟩ := hlisted.at_addr ht
    have hvar := hstruct.vars _ hm harc
    rw [← htype t.edge (by simp [Triple.toList])] at hvar
    exact ⟨(hlisted.ends t ht).mem, hvar⟩
  rw [← @addEdges_iff _ asserts hn sorted hvars]
  have hmake (d : ScTemplateData) :
      scTemplateStructBuilderMake asserts std c ctx systemIdtf struct (some members) = .ok d ↔
        addEdges asserts ScTemplateData.empty sorted = .ok d := by
    have hbind {β : Type} (f : List (Triple ObjectInfo) → Except MakeStop β) :
        (Except.ok sorted >>= f) = f sorted := rfl
    simp only [scTemplateStructBuilderMake, reduceCtorEq, and_false, if_false, Option.getD_some, hl, hbind]
    cases addEdges asserts ScTemplateData.empty sorted with
    | error e => simp only [reduceCtorEq]
    | ok d' => simp only [Except.ok.injEq]
  constructor
  · rintro ⟨triples, data, item, htriples, hdata, _, hitems, hinj⟩
    rw [hl] at htriples
    obtain rfl := Except.ok.inj htriples
    refine ⟨data, fun o => item o.addr, (hmake data).mp hdata, hitems, ?_⟩
    · rintro o ⟨t, ht, ho⟩ p ⟨u, hu, hp⟩ he
      exact hn.addr o ((hlisted.ends t ht).mem o ho) p ((hlisted.ends u hu).mem p hp)
        (hinj t ht u hu o ho p hp he)
  · rintro ⟨data, item, hadd, hitems, hinj⟩
    have hitem (o : ObjectInfo) (ho : o ∈ objects) :
        ((findObject objects o.addr).map item).getD 0 = item o := by
      rw [findObject_self hn ho]
      rfl
    have hmem (t : Triple ObjectInfo) (ht : t ∈ sorted) (o : ObjectInfo) (ho : o ∈ t.toList) :
        o ∈ objects := (hlisted.ends t ht).mem o ho
    refine ⟨sorted, data, fun a => ((findObject objects a).map item).getD 0, hl, ?_,
      hlisted.perm_arcTriples, ?_, ?_⟩
    · exact (hmake data).mpr hadd
    · rw [hitems]
      apply List.map_congr_left
      intro t ht
      unfold Triple.map
      beta_reduce
      rw [hitem _ (hmem t ht _ (by simp [Triple.toList])),
        hitem _ (hmem t ht _ (by simp [Triple.toList])),
        hitem _ (hmem t ht _ (by simp [Triple.toList]))]
    · intro t ht u hu o ho p hp he
      beta_reduce at he
      rw [hitem o (hmem t ht o ho), hitem p (hmem u hu p hp)] at he
      rw [hinj o ⟨t, ht, ho⟩ p ⟨u, hu, hp⟩ he]

/-- In every memory state and for every structure of variables that contains the ends of its arcs: the
template is faithful for every order of the elements and every sort, exactly when no arc joins an arc
that joins an arc and no loop is the first arc of its node. -/
theorem struct_template_faithful {asserts : Bool} {thread : ℕ} {st : ScStorage} (evs : List StoreEvent)
    (hr : Run (OwnStep thread) ScStorage.empty evs st) (ctx : ScContext)
    (systemIdtf : ScAddr → String) (struct : ScAddr)
    (_ : structElements st.cell ctx struct = some elements)
    (hstruct : VarStructure st.cell ctx elements) (hid : IdtfsDistinct systemIdtf elements) :
    (∀ std members, members.Perm elements →
      Faithful asserts std st.cell ctx systemIdtf struct elements members) ↔
        Orderable st.cell ctx elements := by
  have hc := (ownRun_storeOk evs st hr).cells.arcs
  have hvalid : ∀ a ∈ elements, a ≠ ScAddr.empty := by
    rintro a ha rfl
    exact hstruct.readable _ ha (if_neg fun h => hc.notEmpty h.1)
  have hlist {members : List ScAddr} (hperm : members.Perm elements) :=
    @structTriples_spec st.cell ctx systemIdtf elements struct hstruct hid members hperm
  constructor
  · intro hall
    obtain ⟨objects, l, hl, hsorted⟩ := hlist (List.Perm.refl elements)
    obtain ⟨index, hcol⟩ := hl.collected
    have hn := hcol.namesOk hid hvalid
    rw [← hl.orderable_iff hn]
    apply orderable_of_ready (hl.arcsListed hn)
    intro std
    exact (faithful_iff asserts hstruct hn hl std (hsorted std)).mp (hall std elements (List.Perm.refl _))
  · intro horder std members hperm
    obtain ⟨objects, l, hl, hsorted⟩ := hlist hperm
    obtain ⟨index, hcol⟩ := hl.collected
    have hn := hcol.namesOk hid hvalid
    rw [faithful_iff asserts hstruct hn hl std (hsorted std)]
    intro pre t post hsplit
    exact ((hl.orderable_iff hn).mpr horder).ready (hl.arcsListed hn) std hsplit

end

/-- The node `(0, 1)`, two variables, variable arcs and the members of the node. -/
def structWith (arcs : List (ScAddr × ScAddr)) (members : List ScAddr) : List StoreEvent :=
  [⟨exampleEnv, .call (.nodeNew exampleContext (scTypeNode ||| scTypeConst))⟩,
    ⟨exampleEnv, .call (.nodeNew exampleContext scTypeNodeVar)⟩,
    ⟨exampleEnv, .call (.nodeNew exampleContext scTypeNodeVar)⟩] ++
  (arcs.map fun p =>
    ⟨exampleEnv, .call (.arcNew exampleContext scTypeEdgeAccessVarPosPerm p.1 p.2)⟩) ++
  members.map fun a =>
    ⟨exampleEnv, .call (.arcNew exampleContext scTypeEdgeAccessConstPosPerm ⟨0, 1⟩ a)⟩

def cellsAfter (evs : List StoreEvent) : Cells := (stateAfterEvents evs ScStorage.empty).cell

theorem blank_distinct (elements : List ScAddr) : IdtfsDistinct (fun _ => "") elements := by
  refine ⟨fun _ _ _ _ h _ => absurd rfl h, ?_, ?_⟩
  · intro a _ k h
    have hl := congrArg String.toList h
    simp at hl
  · intro a _ b _ h
    have hl := congrArg String.toList h
    simp [ScAddr.toString] at hl

/-- An arc on an arc. -/
def arcOnArc : List StoreEvent :=
  structWith [(⟨0, 33⟩, ⟨0, 65⟩), (⟨0, 97⟩, ⟨0, 65⟩)] [⟨0, 33⟩, ⟨0, 65⟩, ⟨0, 97⟩, ⟨0, 129⟩]

def arcOnArcElements : List ScAddr := [⟨0, 129⟩, ⟨0, 97⟩, ⟨0, 65⟩, ⟨0, 33⟩]

theorem arcOnArc_faithful : Faithful true (insertionStd _) (cellsAfter arcOnArc) exampleContext
    (fun _ => "") ⟨0, 1⟩ arcOnArcElements [⟨0, 33⟩, ⟨0, 129⟩, ⟨0, 97⟩, ⟨0, 65⟩] := by
  have hstruct : VarStructure (cellsAfter arcOnArc) exampleContext arcOnArcElements := by
    refine ⟨by decide +kernel, by decide +kernel, ?_⟩
    intro a ha harc d
    cases d with
    | out => revert a; decide +kernel
    | inp => revert a; decide +kernel
  have horder : Orderable (cellsAfter arcOnArc) exampleContext arcOnArcElements := by
    refine ⟨?_, ?_⟩
    · rintro a ha harc d hend ⟨d', honarc⟩
      unfold IsArc at harc hend honarc
      revert a
      cases d <;> cases d' <;> decide +kernel
    · intro a ha harc hloop
      exfalso
      unfold IsArc at harc
      revert a
      decide +kernel
  have hrun : Run (OwnStep 1) ScStorage.empty arcOnArc (stateAfterEvents arcOnArc ScStorage.empty) :=
    ownRun_of_ownEvents arcOnArc _ (by decide +kernel)
  exact (struct_template_faithful arcOnArc hrun exampleContext (fun _ => "") ⟨0, 1⟩
    (by decide +kernel) hstruct (blank_distinct _)).mpr horder _ _ (by decide +kernel)

/-- An arc on an arc on an arc, listed with the newest member first. -/
def nestedArcs : List StoreEvent :=
  structWith [(⟨0, 33⟩, ⟨0, 65⟩), (⟨0, 97⟩, ⟨0, 65⟩), (⟨0, 129⟩, ⟨0, 65⟩)]
    [⟨0, 33⟩, ⟨0, 65⟩, ⟨0, 97⟩, ⟨0, 129⟩, ⟨0, 161⟩]

def nestedElements : List ScAddr := [⟨0, 161⟩, ⟨0, 129⟩, ⟨0, 97⟩, ⟨0, 65⟩, ⟨0, 33⟩]

theorem nestedArcs_var : VarStructure (cellsAfter nestedArcs) exampleContext nestedElements := by
  refine ⟨by decide +kernel, by decide +kernel, ?_⟩
  intro a ha harc d
  cases d with
  | out => revert a; decide +kernel
  | inp => revert a; decide +kernel

theorem nestedArcs_triples :
    (structTriples (insertionStd _) (cellsAfter nestedArcs) exampleContext (fun _ => "") ⟨0, 1⟩
      nestedElements).toOption.map (fun l => l.map fun t => t.map ObjectInfo.addr) =
    some [⟨⟨0, 33⟩, ⟨0, 97⟩, ⟨0, 65⟩⟩, ⟨⟨0, 129⟩, ⟨0, 161⟩, ⟨0, 65⟩⟩, ⟨⟨0, 97⟩, ⟨0, 129⟩, ⟨0, 65⟩⟩] := by
  decide +kernel

theorem nestedArcs_made :
    (scTemplateStructBuilderMake true (insertionStd _) (cellsAfter nestedArcs) exampleContext (fun _ => "")
      ⟨0, 1⟩ (some nestedElements)).toOption.map ScTemplateData.triples =
    some [⟨0, 1, 2⟩, ⟨3, 4, 2⟩, ⟨1, 5, 2⟩] := by
  decide +kernel

/-- The third arc comes before the second, which gets one item as its source and another as itself. -/
theorem nested_arcs_unfaithful : ¬ ∀ (asserts : Bool) (thread : ℕ) (evs : List StoreEvent)
    (st : ScStorage) (ctx : ScContext) (systemIdtf : ScAddr → String) (struct : ScAddr) (elements : List ScAddr),
    Run (OwnStep thread) ScStorage.empty evs st → structElements st.cell ctx struct = some elements →
      VarStructure st.cell ctx elements → IdtfsDistinct systemIdtf elements →
      ∀ std members, members.Perm elements →
        Faithful asserts std st.cell ctx systemIdtf struct elements members := by
  intro hall
  obtain ⟨triples, data, item, htriples, hdata, _, hitems, _⟩ :=
    hall true 1 nestedArcs _ exampleContext (fun _ => "") ⟨0, 1⟩ nestedElements
      (ownRun_of_ownEvents nestedArcs _ (by decide +kernel)) (by decide +kernel) nestedArcs_var
      (blank_distinct _) (insertionStd _) _ (List.Perm.refl _)
  have htriples' := nestedArcs_triples
  unfold cellsAfter at htriples'
  rw [htriples] at htriples'
  have hmade := nestedArcs_made
  unfold cellsAfter at hmade
  rw [hdata] at hmade
  have haddrs : (triples.map fun t => t.map ObjectInfo.addr) = _ := Option.some.inj htriples'
  have hmap : data.triples = (triples.map fun t => t.map ObjectInfo.addr).map (Triple.map item) := by
    rw [hitems, List.map_map]
    rfl
  rw [haddrs, Option.some.inj hmade] at hmap
  have hsource : 3 = item ⟨0, 129⟩ := congrArg (fun l => (l.getD 1 ⟨0, 0, 0⟩).source) hmap
  have hedge : 5 = item ⟨0, 129⟩ := congrArg (fun l => (l.getD 2 ⟨0, 0, 0⟩).edge) hmap
  rw [← hsource] at hedge
  cases hedge

end ScMachine.Template
