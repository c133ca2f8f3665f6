import ScMachine.ScpProcessCopies

/-! Programs with a pattern for their processes, calls of them, and what the tables of
`create_scp_process` are filled with. -/
namespace ScMachine.Scp
open ScMachine.Store ScMachine.Template ScMachine.StateExcept ScMachine.Runs ScMachine.Agent

/-- `e` is an arc of the type between the two. -/
structure ArcBetween (c : Cells) (type : ScType) (beg e end_ : ScAddr) : Prop where
  arc : LiveArc c e
  source : ownerOf c .out e = beg
  target : ownerOf c .inp e = end_
  hasType : HasType c e type

/-- An arc of the type leads from `owner` to `x`, and one from `relation` to it. -/
def Marked (c : Cells) (type : ScType) (relation owner x : ScAddr) : Prop :=
  ∃ e a, ArcBetween c type owner e x ∧ ArcBetween c scpTypeArcPosConstPerm relation a e

section
variable (c : Cells) (kn : ProcessKeynodes) (procedure callParams : ScAddr)

/-- `x` is in the set that the relation gives the program. -/
def InMarkedSet (type : ScType) (relation x : ScAddr) : Prop :=
  ∃ set e, Marked c type relation procedure set ∧ ArcBetween c scpTypeArcPosConstPerm set e x

def IsParameter (x : ScAddr) : Prop := InMarkedSet c procedure scpTypeArcPosConstPerm kn.rrelParams x

def IsVariable (x : ScAddr) : Prop :=
  InMarkedSet c procedure commonArc.elementType kn.nrelScpProgramVar x

def IsConstant (x : ScAddr) : Prop :=
  InMarkedSet c procedure commonArc.elementType kn.nrelScpProgramConst x

def InTemplate (x : ScAddr) : Prop :=
  InMarkedSet c procedure commonArc.elementType kn.nrelTemplateOfScpProcessCreation x

def IsOperatorSet (x : ScAddr) : Prop :=
  Marked c scpTypeArcPosConstPerm kn.rrelOperators procedure x ∧ HasType c x defaultNode.elementType

/-- The order role relation `r` marks the arc. -/
def IsOrdinal (e r : ScAddr) : Prop :=
  (∃ a, ArcBetween c scpTypeArcPosConstPerm r a e) ∧ HasType c r defaultNode.elementType ∧
    ∃ a, ArcBetween c scpTypeArcPosConstPerm kn.orderRoleRelation a r

/-- The call has `v` at a place of the parameter `p`. -/
def Supplied (p v : ScAddr) : Prop :=
  ∃ set e r, Marked c scpTypeArcPosConstPerm kn.rrelParams procedure set ∧
    ArcBetween c scpTypeArcPosConstPerm set e p ∧ IsOrdinal c kn e r ∧
    Marked c scpTypeArcPosConstPerm r callParams v

/-- Something is said of what stands for `x`. -/
def IsPreset (x : ScAddr) : Prop :=
  IsOperatorSet c kn procedure x ∨ IsParameter c kn procedure x ∨ IsVariable c kn procedure x ∨
    IsConstant c kn procedure x

/-- The element of the pattern is to be copied. -/
def IsCopied (x : ScAddr) : Prop := InTemplate c kn procedure x ∧ ¬ IsPreset c kn procedure x

/-- The variable gets a node of its own. -/
def IsFreshVariable (x : ScAddr) : Prop :=
  IsVariable c kn procedure x ∧ ¬ IsParameter c kn procedure x ∧ ¬ IsOperatorSet c kn procedure x

/-- A program with at most one set of each kind and one set of operators. What is to be copied of its
pattern are nodes, and arcs between nodes and what the pattern or the tables have. -/
structure TemplateProgram : Prop where
  member : ∃ e, ArcBetween c scpTypeArcPosConstPerm kn.scpProgram e procedure
  oneSet : ∀ p ∈ [(commonArc.elementType, kn.nrelScpProgramVar),
    (commonArc.elementType, kn.nrelScpProgramConst), (scpTypeArcPosConstPerm, kn.rrelParams),
    (commonArc.elementType, kn.nrelTemplateOfScpProcessCreation)],
    ∀ set set', Marked c p.1 p.2 procedure set → Marked c p.1 p.2 procedure set' → set = set'
  operators : ∃ set, ∀ x, IsOperatorSet c kn procedure x ↔ x = set
  kinds : ∀ x, IsCopied c kn procedure x → HasType c x scTypeNode ∨ LiveArc c x
  ends : ∀ a, IsCopied c kn procedure a → LiveArc c a → ∀ d, IsPreset c kn procedure (ownerOf c d a) ∨
    HasType c (ownerOf c d a) scTypeNode ∨ IsCopied c kn procedure (ownerOf c d a)

/-- A question that asks for the program to be interpreted, with a value for each parameter. -/
structure ProgramCall (question : ScAddr) : Prop where
  node : HasType c question defaultNode.elementType
  request : ∃ e, ArcBetween c scpTypeArcPosConstPerm kn.questionScpInterpretationRequest e question
  program : ∀ x, Marked c scpTypeArcPosConstPerm kn.ordinalRrel1 question x ↔ x = procedure
  params : ∀ x, Marked c scpTypeArcPosConstPerm kn.ordinalRrel2 question x ∧
    HasType c x defaultNode.elementType ↔ x = callParams
  supplied : ∀ set e p, Marked c scpTypeArcPosConstPerm kn.rrelParams procedure set →
    ArcBetween c scpTypeArcPosConstPerm set e p → (∃ r, IsOrdinal c kn e r) ∧
      ∀ r, IsOrdinal c kn e r → ∃ v, Marked c scpTypeArcPosConstPerm r callParams v

end

section
variable {c c' : Cells} {ctx : ScContext} {kn : ProcessKeynodes} {type : ScType}
  {procedure callParams relation owner set e r x : ScAddr}

theorem ArcBetween.live (h : ArcBetween c type owner e x) (hc : ArcsOk c) : Live c owner ∧ Live c x :=
  ⟨h.source ▸ hc.endpoint e .out h.arc, h.target ▸ hc.endpoint e .inp h.arc⟩

theorem Marked.live (h : Marked c type relation owner x) (hc : ArcsOk c) :
    Live c owner ∧ Live c relation ∧ Live c x := by
  obtain ⟨e, a, he, ha⟩ := h
  exact ⟨(he.live hc).1, (ha.live hc).1, (he.live hc).2⟩

/-! What the searches find. -/

theorem mem_setElements (hc : ArcsOk c) (hread : ∀ y, Live c y → CanRead ctx c y) (t : Triple ScAddr) :
    t ∈ setElements c ctx set ↔
      t.source = set ∧ ArcBetween c scpTypeArcPosConstPerm set t.edge t.target := by
  refine (mem_iterator3_faa hc hread set scpTypeArcPosConstPerm 0 t).trans ?_
  constructor
  · intro h
    obtain ⟨hset, htype, _⟩ := h.fits
    exact ⟨hset, h.arc, h.source.trans hset, h.target, htype⟩
  · rintro ⟨hset, h⟩
    exact ⟨h.arc, h.source.trans hset.symm, h.target, hset, h.hasType, BitVec.zero_and⟩

theorem matches5_marked {arc elem : ScpOperand} (harc : arc.paramType = .assign)
    (helem : elem.paramType = .assign) (t : FiveAddrs) :
    Matches5 c (fixedOperand owner) arc elem defaultArc (fixedOperand relation) t ↔
      t.1 = owner ∧ t.2.2.2.2 = relation ∧ ArcBetween c arc.elementType owner t.2.1 t.2.2.1 ∧
        HasType c t.2.2.1 elem.elementType ∧ ArcBetween c scpTypeArcPosConstPerm relation t.2.2.2.1 t.2.1 := by
  obtain ⟨o, e, y, a, f⟩ := t
  unfold Matches5
  rw [param_assign harc, param_assign helem]
  constructor
  · rintro ⟨⟨he, hs, ht, ho, htype, helt⟩, ⟨ha, hf, hae, hn, hatype, _⟩⟩
    obtain rfl : o = owner := ho
    obtain rfl : f = relation := hn
    exact ⟨rfl, rfl, ⟨he, hs, ht, htype⟩, helt, ha, hf, hae, hatype⟩
  · rintro ⟨rfl, rfl, he, helt, ha⟩
    exact ⟨⟨he.arc, he.source, he.target, rfl, he.hasType, helt⟩,
      ⟨ha.arc, ha.source, ha.target, rfl, ha.hasType, he.hasType⟩⟩

/-- The search finds a marked element of the type if there is one, and else leaves the operand. -/
theorem searchMarked_spec (hc : ArcsOk c) (hread : ∀ y, Live c y → CanRead ctx c y) {arc elem : ScpOperand}
    (harc : arc.paramType = .assign) (helem : elem.paramType = .assign) (owner relation : ScAddr) :
    ((searchMarked c ctx owner arc elem relation).1 = .true ∧
        Marked c arc.elementType relation owner (searchMarked c ctx owner arc elem relation).2 ∧
        HasType c (searchMarked c ctx owner arc elem relation).2 elem.elementType) ∨
      (searchMarked c ctx owner arc elem relation).1 ≠ .true ∧
        (searchMarked c ctx owner arc elem relation).2 = elem.addr ∧
        ∀ x, Marked c arc.elementType relation owner x → ¬ HasType c x elem.elementType := by
  have hmarked (t : FiveAddrs) := @matches5_marked c relation owner arc elem harc helem t
  unfold searchMarked searchElStr5
  dsimp only
  split_ifs with hvalue
  · refine Or.inr ⟨fun h => ScpResult.noConfusion h, rfl, fun x hx _ => ?_⟩
    obtain ⟨ho, hr, _⟩ := hx.live hc
    have h1 : (fixedOperand owner).noValue c = false := noValue_of_hasValue fun _ => ho
    have h5 : (fixedOperand relation).noValue c = false := noValue_of_hasValue fun _ => hr
    have hno (p : ScpOperand) (hp : p.paramType = .assign) : p.noValue c = false ∧ p.noArc c ctx = false := by
      unfold ScpOperand.noValue ScpOperand.noArc
      simp [hp]
    rw [h1, h5, (hno arc harc).1, (hno arc harc).2, (hno elem helem).1,
      (hno defaultArc rfl).1, (hno defaultArc rfl).2] at hvalue
    exact absurd hvalue (by decide)
  · rw [harc, helem]
    have hagrees := @searchElStr5FAAAF_agrees c ctx (fixedOperand owner) arc elem defaultArc
      (fixedOperand relation) hc hread rfl harc helem rfl rfl
    change (searchElStr5FAAAF c ctx (fixedOperand owner) arc elem defaultArc (fixedOperand relation)).1 =
        .true ∧ _ ∨ _
    by_cases htrue : (searchElStr5FAAAF c ctx (fixedOperand owner) arc elem defaultArc
        (fixedOperand relation)).1 = .true
    · obtain ⟨_, _, he, helt, ha⟩ := (hmarked _).mp (hagrees.held htrue)
      exact Or.inl ⟨htrue, ⟨_, _, he, ha⟩, helt⟩
    · refine Or.inr ⟨htrue, ?_, ?_⟩
      · revert htrue
        show _ → (searchElStr5FAAAF c ctx (fixedOperand owner) arc elem defaultArc
          (fixedOperand relation)).2.2.2.1.addr = elem.addr
        unfold searchElStr5FAAAF
        split
        · exact fun htrue => absurd rfl htrue
        · exact fun _ => rfl
      · rintro x ⟨e, a, he, ha⟩ helt
        exact htrue (hagrees.found.mpr ⟨(owner, e, x, a, relation), (hmarked _).mpr ⟨rfl, rfl, he, helt, ha⟩⟩)

/-- The search for an arc between two given elements. -/
theorem searchElStr3_between (hc : ArcsOk c) (hread : ∀ y, Live c y → CanRead ctx c y) (owner x : ScAddr) :
    (searchElStr3 c ctx (fixedOperand owner) defaultArc (fixedOperand x)).1 = .true ↔
      ∃ e, ArcBetween c scpTypeArcPosConstPerm owner e x := by
  by_cases hlive : Live c owner ∧ Live c x
  · have hready : Dispatched3 c (fixedOperand owner) defaultArc (fixedOperand x) := by
      refine ⟨?_, fun _ => hlive.1, hasArc_assign c _, fun _ => hlive.2⟩
      rintro ⟨h, _⟩
      cases h
    have hagrees := (searchElStr3_agrees_iff hc hread hready).mpr trivial
    refine hagrees.found.trans ?_
    constructor
    · rintro ⟨⟨o, e, y⟩, he, hs, ht, ho, htype, hy⟩
      obtain rfl : o = owner := ho
      obtain rfl : y = x := hy
      exact ⟨e, he, hs, ht, htype⟩
    · rintro ⟨e, h⟩
      exact ⟨⟨owner, e, x⟩, h.arc, h.source, h.target, rfl, h.hasType, rfl⟩
  · have herror : (searchElStr3 c ctx (fixedOperand owner) defaultArc (fixedOperand x)).1 = .error := by
      unfold searchElStr3
      rw [noValue_fixed, noValue_fixed, if_pos]
      by_cases ho : Live c owner
      · have hx : ¬ Live c x := fun hx => hlive ⟨ho, hx⟩
        simp [hx]
      · simp [ho]
    rw [herror]
    refine iff_of_false (fun h => ScpResult.noConfusion h) ?_
    rintro ⟨e, h⟩
    exact hlive (h.live hc)

/-- Of nodes of which one is an order role relation such a one is found. -/
theorem resolveOrdinalAmong_found (hc : ArcsOk c) (hread : ∀ y, Live c y → CanRead ctx c y)
    (relation : ScAddr) (nodes : List ScAddr) (last : ScAddr)
    (h : ∃ r ∈ nodes, ∃ a, ArcBetween c scpTypeArcPosConstPerm relation a r) :
    (resolveOrdinalAmong c ctx relation nodes last).2 ∈ nodes ∧
      ∃ a, ArcBetween c scpTypeArcPosConstPerm relation a (resolveOrdinalAmong c ctx relation nodes last).2 := by
  induction nodes generalizing last with
  | nil =>
    obtain ⟨r, hr, _⟩ := h
    cases hr
  | cons node nodes ih =>
    unfold resolveOrdinalAmong
    split_ifs with hfound
    · exact ⟨List.mem_cons_self, (searchElStr3_between hc hread _ _).mp hfound⟩
    · obtain ⟨r, hr, hrel⟩ := h
      rcases List.mem_cons.mp hr with rfl | hr
      · exact absurd ((searchElStr3_between hc hread _ _).mpr hrel) hfound
      · obtain ⟨hmem, hrel'⟩ := ih node ⟨r, hr, hrel⟩
        exact ⟨List.mem_cons_of_mem _ hmem, hrel'⟩

theorem resolveOrdinalRrel_found (hc : ArcsOk c) (hread : ∀ y, Live c y → CanRead ctx c y)
    (h : ∃ r, IsOrdinal c kn e r) :
    IsOrdinal c kn e (resolveOrdinalRrel c ctx kn.orderRoleRelation e).2 := by
  have hmem (r : ScAddr) : r ∈ (iterated c ctx (.aaf defaultNode.elementType scpTypeArcPosConstPerm e)).map
      (·.source) ↔ (∃ a, ArcBetween c scpTypeArcPosConstPerm r a e) ∧ HasType c r defaultNode.elementType := by
    have htriple := mem_iterator3_aaf hc hread defaultNode.elementType scpTypeArcPosConstPerm e
    unfold iterated
    rw [List.mem_map]
    constructor
    · rintro ⟨t, ht, rfl⟩
      have h := (htriple t).mp ht
      obtain ⟨hnode, htype, he⟩ := h.fits
      exact ⟨⟨t.edge, h.arc, h.source, h.target.trans he, htype⟩, hnode⟩
    · rintro ⟨⟨a, ha⟩, hnode⟩
      exact ⟨⟨r, a, e⟩, (htriple _).mpr ⟨ha.arc, ha.source, ha.target, hnode, ha.hasType, rfl⟩, rfl⟩
  obtain ⟨r, harc, hnode, hrel⟩ := h
  obtain ⟨hin, hrel'⟩ := @resolveOrdinalAmong_found c ctx hc hread kn.orderRoleRelation _ ScAddr.empty
    ⟨r, (hmem r).mpr ⟨harc, hnode⟩, hrel⟩
  obtain ⟨harc', hnode'⟩ := (hmem _).mp hin
  exact ⟨harc', hnode', hrel'⟩

/-- The set that is found has the elements that the program has by the relation. -/
theorem mem_foundSet (hc : ArcsOk c) (hread : ∀ y, Live c y → CanRead ctx c y) {arc : ScpOperand}
    (harc : arc.paramType = .assign)
    (hone : ∀ set set', Marked c arc.elementType relation procedure set →
      Marked c arc.elementType relation procedure set' → set = set') (t : Triple ScAddr) :
    t ∈ setElements c ctx (searchMarked c ctx procedure arc varValue relation).2 ↔
      Marked c arc.elementType relation procedure t.source ∧
        ArcBetween c scpTypeArcPosConstPerm t.source t.edge t.target := by
  rw [mem_setElements hc hread]
  rcases searchMarked_spec hc hread harc (show varValue.paramType = .assign from rfl) procedure relation with
    ⟨_, hset, _⟩ | ⟨_, haddr, hnone⟩
  · constructor
    · rintro ⟨hs, h⟩
      rw [hs]
      exact ⟨hset, h⟩
    · rintro ⟨hs, h⟩
      have heq := hone _ _ hs hset
      exact ⟨heq, heq ▸ h⟩
  · constructor
    · rintro ⟨_, h⟩
      rw [haddr] at h
      exact absurd (h.live hc).1 hc.notEmpty
    · rintro ⟨hs, _⟩
      exact absurd BitVec.zero_and (hnone _ hs)

theorem mem_foundSet_map (hc : ArcsOk c) (hread : ∀ y, Live c y → CanRead ctx c y) {arc : ScpOperand}
    (harc : arc.paramType = .assign)
    (hone : ∀ set set', Marked c arc.elementType relation procedure set →
      Marked c arc.elementType relation procedure set' → set = set') (x : ScAddr) :
    x ∈ (setElements c ctx (searchMarked c ctx procedure arc varValue relation).2).map (·.target) ↔
      InMarkedSet c procedure arc.elementType relation x := by
  have hmem := mem_foundSet hc hread harc hone
  rw [List.mem_map]
  constructor
  · rintro ⟨t, ht, rfl⟩
    obtain ⟨hset, he⟩ := (hmem t).mp ht
    exact ⟨t.source, t.edge, hset, he⟩
  · rintro ⟨set, e, hset, he⟩
    exact ⟨⟨set, e, x⟩, (hmem _).mpr ⟨hset, he⟩, rfl⟩

end

/-! The tables. -/

/-- The pattern table has the elements of the pattern that the other one has not got. -/
structure Tracks (template : ScAddr → Prop) (tables : CopyTables) : Prop where
  nodup : tables.pattern.Nodup
  mem : ∀ x, x ∈ tables.pattern ↔ template x ∧ tables.copies[x]? = none

section
variable {c : Cells} {ctx : ScContext} {kn : ProcessKeynodes} {template : ScAddr → Prop}
  {tables : CopyTables} {callParams x y : ScAddr}

theorem put_get (tables : CopyTables) (x y w : ScAddr) :
    (tables.put x y).copies[w]? = if x = w then some y else tables.copies[w]? :=
  CopyBase.insert_get

theorem mem_copies_iff : x ∈ tables.copies ↔ (tables.copies[x]?).isSome :=
  Std.TreeMap.mem_iff_isSome_getElem?

theorem Tracks.put (h : Tracks template tables) : Tracks template (tables.put x y) := by
  refine ⟨h.nodup.erase x, fun w => ?_⟩
  rw [put_get]
  show w ∈ tables.pattern.erase x ↔ _
  rw [h.nodup.mem_erase_iff, h.mem]
  split_ifs with he
  · simp [he]
  · simp [Ne.symm he]

theorem tracks_load (set : ScAddr) :
    Tracks (fun x => x ∈ (setElements c ctx set).map (·.target)) ⟨∅, loadSetToHash c ctx set []⟩ := by
  have hfold (l : List (Triple ScAddr)) (table : List ScAddr) (hnodup : table.Nodup) :
      (l.foldl (fun table t => table.insert t.target) table).Nodup ∧
        ∀ x, x ∈ l.foldl (fun table t => table.insert t.target) table ↔ x ∈ table ∨ x ∈ l.map (·.target) := by
    induction l generalizing table with
    | nil => exact ⟨hnodup, fun x => by simp⟩
    | cons t l ih =>
      obtain ⟨hn, hm⟩ := ih (table.insert t.target) hnodup.insert
      refine ⟨hn, fun x => ?_⟩
      rw [List.foldl_cons, hm, List.mem_insert_iff, List.map_cons, List.mem_cons]
      tauto
  obtain ⟨hnodup, hmem⟩ := hfold (setElements c ctx set) [] List.nodup_nil
  refine ⟨hnodup, fun x => (hmem x).trans ?_⟩
  rw [Std.TreeMap.getElem?_emptyc]
  simp

/-- Each parameter gets a value that the call has for it. -/
theorem copyParameters_fills (hc : ArcsOk c) (hread : ∀ y, Live c y → CanRead ctx c y)
    (l : List (Triple ScAddr)) (tables : CopyTables) (h : Tracks template tables)
    (hsupplied : ∀ t ∈ l, (∃ r, IsOrdinal c kn t.edge r) ∧
      ∀ r, IsOrdinal c kn t.edge r → ∃ v, Marked c scpTypeArcPosConstPerm r callParams v) :
    ∃ tables', copyParameters c ctx kn.orderRoleRelation callParams l tables = some tables' ∧
      Tracks template tables' ∧
      (∀ x ∈ l.map (·.target), ∃ v, tables'.copies[x]? = some v ∧ ∃ t ∈ l, t.target = x ∧
        ∃ r, IsOrdinal c kn t.edge r ∧ Marked c scpTypeArcPosConstPerm r callParams v) ∧
      ∀ x, x ∉ l.map (·.target) → tables'.copies[x]? = tables.copies[x]? := by
  induction l generalizing tables with
  | nil => exact ⟨tables, rfl, h, fun x hx => (List.not_mem_nil hx).elim, fun _ _ => rfl⟩
  | cons t l ih =>
    obtain ⟨hordinal, hvalue⟩ := hsupplied t List.mem_cons_self
    have hfound := resolveOrdinalRrel_found hc hread hordinal
    obtain ⟨v, hv⟩ := hvalue _ hfound
    have hspec := searchMarked_spec hc hread (show defaultArc.paramType = .assign from rfl)
      (show varValue.paramType = .assign from rfl) callParams
      (resolveOrdinalRrel c ctx kn.orderRoleRelation t.edge).2
    unfold copyParameters
    cases hres : searchMarked c ctx callParams defaultArc varValue
        (resolveOrdinalRrel c ctx kn.orderRoleRelation t.edge).2 with
    | mk res newElem =>
      rw [hres] at hspec
      rcases hspec with ⟨rfl, hmarked, _⟩ | ⟨_, _, hnone⟩
      · obtain ⟨tables', heq, htracks, hin, hout⟩ := ih (tables.put t.target newElem) h.put
          fun t' ht' => hsupplied t' (List.mem_cons_of_mem t ht')
        refine ⟨tables', by simp only [hres, heq], htracks, fun x hx => ?_, fun x hx => ?_⟩
        · by_cases hrest : x ∈ l.map (·.target)
          · obtain ⟨w, hw, t', ht', hrest'⟩ := hin x hrest
            exact ⟨w, hw, t', List.mem_cons_of_mem t ht', hrest'⟩
          · rw [List.map_cons, List.mem_cons] at hx
            obtain rfl := hx.resolve_right hrest
            refine ⟨newElem, ?_, t, List.mem_cons_self, rfl, _, hfound, hmarked⟩
            rw [hout _ hrest, put_get, if_pos rfl]
        · rw [List.map_cons, List.mem_cons, not_or] at hx
          rw [hout x hx.2, put_get, if_neg (Ne.symm hx.1)]
      · exact absurd BitVec.zero_and (hnone v hv)

/-- A constant stands for itself, unless the table has something else. -/
theorem copyConsts_fills (l : List ScAddr) (tables : CopyTables) (h : Tracks template tables) :
    Tracks template (l.foldl copyConst tables) ∧ ∀ x, (l.foldl copyConst tables).copies[x]? =
      (tables.copies[x]?).or (if x ∈ l then some x else none) := by
  induction l generalizing tables with
  | nil => exact ⟨h, fun x => by simp⟩
  | cons v l ih =>
    have hstep : copyConst tables v = if v ∈ tables.copies then tables else tables.put v v := rfl
    rw [List.foldl_cons, hstep]
    split_ifs with hin
    · obtain ⟨htracks, hget⟩ := ih tables h
      refine ⟨htracks, fun x => ?_⟩
      simp only [hget, List.mem_cons]
      obtain ⟨y, hy⟩ := Option.isSome_iff_exists.mp (mem_copies_iff.mp hin)
      by_cases hxv : x = v
      · rw [hxv, hy]
        rfl
      · simp [hxv]
    · obtain ⟨htracks, hget⟩ := ih (tables.put v v) h.put
      have hnone : tables.copies[v]? = none := by
        rw [mem_copies_iff] at hin
        exact Option.not_isSome_iff_eq_none.mp hin
      refine ⟨htracks, fun x => ?_⟩
      rw [hget, put_get]
      by_cases he : v = x
      · subst he
        rw [if_pos rfl, hnone, if_pos List.mem_cons_self]
        rfl
      · simp only [he, if_false, List.mem_cons, Ne.symm he, false_or]

end

/-! The nodes of the variables. -/

/-- `MAKE_DEFAULT_NODE_ASSIGN` with `scp_type_var`. -/
def varNodeType : ScType := scTypeConst ||| scTypeNode ||| scTypeVar

/-- A new element is a node of a variable. -/
def IsVarNode (_ : ScTypeResult) (s : ScStorage) (_ x : ScAddr) : Prop :=
  scFlagsRemove (s.cell x).type = varNodeType

section
variable {m : CopyBase} {env : ScEnv} {ctx : ScContext} {st s s' : ScStorage} {n total : ℕ}
  {tables : CopyTables} {template : ScAddr → Prop} {new : Set ScAddr} {type : ScType} {x e y : ScAddr}

theorem copyNewElements_present (operand : ScpOperand) (l : List ScAddr) (tables : CopyTables)
    (h : ∀ v ∈ l, v ∈ tables.copies) : copyNewElements env ctx operand l tables = pure tables := by
  induction l with
  | nil => rfl
  | cons v l ih =>
    unfold copyNewElements
    rw [if_pos (h v List.mem_cons_self)]
    exact ih fun w hw => h w (List.mem_cons_of_mem v hw)

/-- Each variable that the table has not got yet gets a node, or the cells run out. -/
theorem copyNewElements_made (htotal : n+m.pattern.length ≤ total) (l : List ScAddr)
    (hin : ∀ v ∈ l, v ∈ m.pattern) (operand : ScpOperand) (hassign : operand.paramType = .assign)
    (htype : operand.elementType = varNodeType) (tables : CopyTables) (s : ScStorage)
    (h : m.Added IsVarNode env ctx st n tables.copies s) (htracks : Tracks template tables) :
    Wp (copyNewElements env ctx operand l tables) (fun tables' s' => OutOfCells env ctx total st ∨
        m.Added IsVarNode env ctx st n tables'.copies s' ∧ Tracks template tables' ∧
          Extends tables.copies tables'.copies ∧ ∀ v ∈ l, v ∈ tables'.copies)
      (fun _ => OutOfCells env ctx total st) s := by
  induction l generalizing operand tables s with
  | nil => exact Or.inr ⟨h, htracks, fun _ _ hx => hx, fun v hv => (List.not_mem_nil hv).elim⟩
  | cons v l ih =>
    have hrest (w : ScAddr) (hw : w ∈ l) : w ∈ m.pattern := hin w (List.mem_cons_of_mem v hw)
    unfold copyNewElements
    rw [wp_ite]
    constructor
    · intro hmem
      apply wp_mono (ih hrest operand hassign htype tables s h htracks) _ (fun _ he => he)
      rintro tables' s' (hno | ⟨h', htracks', hext, hall⟩)
      · exact Or.inl hno
      · refine Or.inr ⟨h', htracks', hext, fun w hw => ?_⟩
        rcases List.mem_cons.mp hw with rfl | hw
        · obtain ⟨y, hy⟩ := Option.isSome_iff_exists.mp (mem_copies_iff.mp hmem)
          exact mem_copies_iff.mpr (by rw [hext w y hy]; rfl)
        · exact hall w hw
    · intro hmem
      have hv := hin v List.mem_cons_self
      have hnone : tables.copies[v]? = none := by
        rw [mem_copies_iff] at hmem
        exact Option.not_isSome_iff_eq_none.mp hmem
      have htable : m.table[v]? = none := by
        cases ht : m.table[v]? with
        | none => rfl
        | some y => exact absurd (h.extends_ v y ht) (by rw [hnone]; exact (Option.some_ne_none y).symm)
      obtain ⟨k, hsize, hk, hmade⟩ := h.room hv hnone
      rw [wp_bind]
      unfold genEl
      rw [wp_ite]
      constructor
      · rintro (hfixed | hnode)
        · rw [hassign] at hfixed
          cases hfixed
        · rw [htype] at hnode
          exact absurd (by decide) hnode
      · intro _
        rw [wp_bind, htype]
        apply wp_mono (nodeNew_creation total h.store hmade (by omega) (by decide)) _ (fun _ he => he)
        rintro r s1 (⟨_, hout⟩ | ⟨hne, hok, hmade', hcr⟩)
        · exact wp_always (fun _ _ => wp_always (fun _ _ => Or.inl hout) (fun _ => hout)) (fun _ => hout)
        rw [wp_bind, wp_get, wp_pure]
        have hcell : s1.cell r = nodeCell ctx varNodeType := by
          rw [hcr.refCount.2.2.2, Function.update_self]
        have hgrown := hcr.grown (nodeCell_live ctx _ r)
        have hadded : m.Added IsVarNode env ctx st n (tables.put v r).copies s1 := by
          refine h.insert ?_ hv hnone htable hne hok hgrown (by rw [hcell]; rfl) hsize hmade' ?_
          · intro w x hw hx
            unfold IsVarNode at hw ⊢
            rw [(grown_same hgrown hx).same.type, hw]
          · show scFlagsRemove (s1.cell r).type = varNodeType
            rw [hcell]
            show scFlagsRemove (scFlagsRemove (scTypeNode ||| varNodeType)) = varNodeType
            decide
        show Wp (copyNewElements env ctx ⟨r, operand.paramType, varNodeType⟩ l (tables.put v r)) _ _ s1
        apply wp_mono (ih hrest ⟨r, operand.paramType, varNodeType⟩ hassign rfl (tables.put v r) s1 hadded
          htracks.put) _ (fun _ he => he)
        rintro tables' s' (hno | ⟨h', htracks', hext, hall⟩)
        · exact Or.inl hno
        have hfirst := @CopyBase.extends_insert tables.copies v r hnone
        refine Or.inr ⟨h', htracks', fun w y hw => hext w y (hfirst w y hw), fun w hw => ?_⟩
        rcases List.mem_cons.mp hw with rfl | hw
        · refine mem_copies_iff.mpr ?_
          rw [hext w r (by rw [put_get, if_pos rfl])]
          rfl
        · exact hall w hw

/-- Among the old elements no arc has come or gone. -/
theorem arcBetween_nodes (hgrown : GrownBy st new s) (hnodes : ∀ z ∈ new, ¬ LiveArc s.cell z) :
    ArcBetween s.cell type x e y ↔ ArcBetween st.cell type x e y := by
  have hold (z : ScAddr) (hz : z ∉ new) : ArcBetween s.cell type x z y ↔ ArcBetween st.cell type x z y := by
    have hun := hgrown.others z hz
    constructor
    · intro h
      exact ⟨hun.same.liveArc.mp h.arc, (hun.owner .out).symm.trans h.source,
        (hun.owner .inp).symm.trans h.target, (hasType_of_type hun.same.type).mp h.hasType⟩
    · intro h
      exact ⟨hun.same.liveArc.mpr h.arc, (hun.owner .out).trans h.source, (hun.owner .inp).trans h.target,
        (hasType_of_type hun.same.type).mpr h.hasType⟩
  constructor
  · intro h
    exact (hold e fun he => hnodes e he h.arc).mp h
  · intro h
    exact (hold e fun he => type_of_live h.arc.1 (hgrown.free e he)).mpr h

theorem Tracks.congr {template' : ScAddr → Prop} (h : Tracks template tables)
    (heq : ∀ x, template x ↔ template' x) : Tracks template' tables :=
  ⟨h.nodup, fun x => by rw [h.mem, heq]⟩

theorem not_arc_of_varNode (h : scFlagsRemove (s.cell x).type = varNodeType) : ¬ LiveArc s.cell x := by
  intro harc
  have hbits : (s.cell x).type &&& scTypeArcMask = 0 := by
    rw [← flagsRemove_and _ _ (by decide), h]
    decide
  exact bne_iff_ne.mp harc.2 hbits

end

/-- The tables as the sets of the program and the call fill them. Only nodes for variables have been made. -/
structure TablesFilled (env : ScEnv) (ctx : ScContext) (kn : ProcessKeynodes) (procedure callParams : ScAddr)
    (st : ScStorage) (tables : CopyTables) (s : ScStorage) : Prop where
  store : StoreOk env.thread s
  reads : ∀ x, Live s.cell x → CanRead ctx s.cell x
  made : ∃ k, k ≤ (setElements st.cell ctx (varsSet st.cell ctx kn procedure)).length ∧
    Creations env ctx st k s
  grown : GrownBy st {y | ∃ x : ScAddr, IsVariable st.cell kn procedure x ∧
    ¬ IsParameter st.cell kn procedure x ∧ tables.copies[x]? = some y} s
  tracks : Tracks (InTemplate st.cell kn procedure) tables
  parameter : ∀ x, IsParameter st.cell kn procedure x → ∃ y, tables.copies[x]? = some y ∧
    Supplied st.cell kn procedure callParams x y
  varNode : ∀ x, IsVariable st.cell kn procedure x → ¬ IsParameter st.cell kn procedure x →
    ∃ y, tables.copies[x]? = some y ∧ y ≠ ScAddr.empty ∧ scFlagsRemove (s.cell y).type = varNodeType
  distinct : ∀ x x' y, IsVariable st.cell kn procedure x → ¬ IsParameter st.cell kn procedure x →
    IsVariable st.cell kn procedure x' → ¬ IsParameter st.cell kn procedure x' →
    tables.copies[x]? = some y → tables.copies[x']? = some y → x = x'
  constant : ∀ x, IsConstant st.cell kn procedure x → ¬ IsVariable st.cell kn procedure x →
    ¬ IsParameter st.cell kn procedure x → tables.copies[x]? = some x
  other : ∀ x, ¬ IsConstant st.cell kn procedure x → ¬ IsVariable st.cell kn procedure x →
    ¬ IsParameter st.cell kn procedure x → tables.copies[x]? = none

section
variable {env : ScEnv} {ctx : ScContext} {kn : ProcessKeynodes} {procedure callParams question : ScAddr}
  {st : ScStorage} {total : ℕ}

/-- `processTables` fills the tables for a call that supplies all parameters, or the cells run out. -/
theorem processTables_fills (hok : StoreOk env.thread st) (hread : ∀ x, Live st.cell x → CanRead ctx st.cell x)
    (hprogram : TemplateProgram st.cell kn procedure)
    (hcall : ProgramCall st.cell kn procedure callParams question)
    (htotal : (setElements st.cell ctx (varsSet st.cell ctx kn procedure)).length ≤ total) :
    Wp (processTables env ctx kn procedure callParams) (fun r s => OutOfCells env ctx total st ∨
        ∃ tables, r = some tables ∧ TablesFilled env ctx kn procedure callParams st tables s)
      (fun _ => OutOfCells env ctx total st) st := by
  have hc := hok.cells.arcs
  have hset {arc : ScpOperand} {relation : ScAddr} (harc : arc.paramType = .assign)
      (hmem : (arc.elementType, relation) ∈ [(commonArc.elementType, kn.nrelScpProgramVar),
        (commonArc.elementType, kn.nrelScpProgramConst), (scpTypeArcPosConstPerm, kn.rrelParams),
        (commonArc.elementType, kn.nrelTemplateOfScpProcessCreation)]) :=
    @mem_foundSet_map st.cell ctx procedure relation hc hread arc harc (hprogram.oneSet _ hmem)
  have hvars := @hset commonArc kn.nrelScpProgramVar rfl (by simp)
  have hconsts := @hset commonArc kn.nrelScpProgramConst rfl (by simp)
  have hparams := @hset defaultArc kn.rrelParams rfl
    (by simp only [List.mem_cons]; exact Or.inr (Or.inr (Or.inl rfl)))
  have htemplate := @hset commonArc kn.nrelTemplateOfScpProcessCreation rfl (by simp)
  have hparamArc := @mem_foundSet st.cell ctx procedure kn.rrelParams hc hread defaultArc rfl
    (hprogram.oneSet (scpTypeArcPosConstPerm, kn.rrelParams) (by simp))
  have hstart : Tracks (InTemplate st.cell kn procedure)
      ⟨∅, loadSetToHash st.cell ctx (copyingPattern st.cell ctx kn procedure) []⟩ :=
    (tracks_load _).congr htemplate
  -- the parameters come first, and only a missing one ends the filling
  obtain ⟨tables1, heq, htracks1, hparam1, hother1⟩ := copyParameters_fills hc hread
    (setElements st.cell ctx (paramsSet st.cell ctx kn procedure)) _ hstart fun t ht => by
      obtain ⟨hset, harc⟩ := (hparamArc t).mp ht
      exact hcall.supplied _ _ _ hset harc
  have hparameter (x : ScAddr) (hx : IsParameter st.cell kn procedure x) :
      ∃ v, tables1.copies[x]? = some v ∧ Supplied st.cell kn procedure callParams x v := by
    obtain ⟨v, hv, t, ht, rfl, r, hr, hmark⟩ := hparam1 x ((hparams x).mpr hx)
    obtain ⟨hset, harc⟩ := (hparamArc t).mp ht
    exact ⟨v, hv, _, _, r, hset, harc, hr, hmark⟩
  have hnoParameter (x : ScAddr) (hx : ¬ IsParameter st.cell kn procedure x) :
      tables1.copies[x]? = none := by
    rw [hother1 x fun h => hx ((hparams x).mp h)]
    exact Std.TreeMap.getElem?_emptyc
  unfold processTables
  rw [wp_bind, wp_get]
  have hset1 : copyParameterSet st.cell ctx kn.orderRoleRelation (paramsSet st.cell ctx kn procedure)
      callParams ⟨∅, loadSetToHash st.cell ctx (copyingPattern st.cell ctx kn procedure) []⟩ = some tables1 :=
    heq
  simp only [hset1]
  unfold copyVarSet copyCopyingConstSet copyNewSet
  rw [wp_bind, wp_bind, wp_get]
  have hmade := @copyNewElements_made
    ⟨st, tables1.copies, (setElements st.cell ctx (varsSet st.cell ctx kn procedure)).map (·.target)⟩ env ctx st
    0 total (InTemplate st.cell kn procedure) (by simpa using htotal) _ (fun _ hv => hv)
    (assignOperand varNodeType) rfl rfl tables1 st (CopyBase.added_start hok hread .none) htracks1
  apply wp_mono hmade _ (fun _ he => he)
  rintro tables2 s2 (hout | ⟨hadded, htracks2, hext, hall⟩)
  · exact wp_always (fun _ _ => Or.inl hout) (fun _ => hout)
  have hvarOf (x y : ScAddr) (hx : CopyBase.NewPair
      ⟨st, tables1.copies, (setElements st.cell ctx (varsSet st.cell ctx kn procedure)).map (·.target)⟩
      tables2.copies x y) : IsVariable st.cell kn procedure x ∧ ¬ IsParameter st.cell kn procedure x := by
    refine ⟨(hvars x).mp (hadded.key x y hx).1, fun hp => ?_⟩
    obtain ⟨v, hv, _⟩ := hparameter x hp
    exact absurd (hx.2.symm.trans hv) (by simp)
  have hnodes (z : ScAddr) (hz : z ∈ {y | ∃ x, CopyBase.NewPair
      ⟨st, tables1.copies, (setElements st.cell ctx (varsSet st.cell ctx kn procedure)).map (·.target)⟩
      tables2.copies x y}) : ¬ LiveArc s2.cell z := by
    obtain ⟨x, hx⟩ := hz
    exact not_arc_of_varNode (hadded.stands x z hx)
  have hsame (set : ScAddr) (t : Triple ScAddr) :
      t ∈ setElements s2.cell ctx set ↔ t ∈ setElements st.cell ctx set := by
    rw [mem_setElements hadded.store.cells.arcs hadded.reads, mem_setElements hc hread,
      arcBetween_nodes hadded.grown hnodes]
  have hsameMap (set x : ScAddr) : x ∈ (setElements s2.cell ctx set).map (·.target) ↔
      x ∈ (setElements st.cell ctx set).map (·.target) := by
    simp only [List.mem_map, hsame]
  -- every variable has its node by now, so that the second pass over them makes none
  rw [wp_bind, wp_bind, wp_get, copyNewElements_present _ _ _ fun v hv => hall v ((hsameMap _ v).mp hv),
    wp_pure, wp_bind, wp_get, wp_pure]
  obtain ⟨htracks, hget⟩ := copyConsts_fills
    ((setElements s2.cell ctx (constsSet st.cell ctx kn procedure)).map (·.target)) tables2 htracks2
  refine Or.inr ⟨_, rfl, ?_⟩
  have hconst (x : ScAddr) : x ∈ (setElements s2.cell ctx (constsSet st.cell ctx kn procedure)).map
      (·.target) ↔ IsConstant st.cell kn procedure x := (hsameMap _ x).trans (hconsts x)
  have hold (x : ScAddr) (hx : ¬ IsVariable st.cell kn procedure x) :
      tables2.copies[x]? = tables1.copies[x]? := by
    cases h1 : tables1.copies[x]? with
    | some v => exact hext x v h1
    | none =>
      cases h2 : tables2.copies[x]? with
      | none => rfl
      | some y => exact absurd (hvarOf x y ⟨h2, h1⟩).1 hx
  have hvariable (x : ScAddr) (hx : IsVariable st.cell kn procedure x) :
      ∃ y, tables2.copies[x]? = some y :=
    Option.isSome_iff_exists.mp (mem_copies_iff.mp (hall x ((hvars x).mpr hx)))
  have hfinal {x y : ScAddr} (h2 : tables2.copies[x]? = some y) :
      (copyConstSet s2.cell ctx (constsSet st.cell ctx kn procedure) tables2).copies[x]? = some y := by
    refine (hget x).trans ?_
    rw [h2]
    rfl
  have hfresh {x y : ScAddr} (hx : IsVariable st.cell kn procedure x)
      (hxp : ¬ IsParameter st.cell kn procedure x)
      (hy : (copyConstSet s2.cell ctx (constsSet st.cell ctx kn procedure) tables2).copies[x]? = some y) :
      CopyBase.NewPair ⟨st, tables1.copies,
        (setElements st.cell ctx (varsSet st.cell ctx kn procedure)).map (·.target)⟩ tables2.copies x y := by
    obtain ⟨z, hz⟩ := hvariable x hx
    rw [hfinal hz] at hy
    exact ⟨hz.trans hy, hnoParameter x hxp⟩
  have hgrown : {y | ∃ x : ScAddr, IsVariable st.cell kn procedure x ∧
      ¬ IsParameter st.cell kn procedure x ∧
        (copyConstSet s2.cell ctx (constsSet st.cell ctx kn procedure) tables2).copies[x]? = some y} =
      {y | ∃ x, CopyBase.NewPair ⟨st, tables1.copies,
        (setElements st.cell ctx (varsSet st.cell ctx kn procedure)).map (·.target)⟩ tables2.copies x y} := by
    ext y
    constructor
    · rintro ⟨x, hx, hxp, hy⟩
      exact ⟨x, hfresh hx hxp hy⟩
    · rintro ⟨x, hx⟩
      exact ⟨x, (hvarOf x y hx).1, (hvarOf x y hx).2, hfinal hx.1⟩
  obtain ⟨k, hsize, hcreated⟩ := hadded.made
  refine ⟨hadded.store, hadded.reads, ?_, hgrown ▸ hadded.grown, htracks, ?_, ?_, ?_, ?_, ?_⟩
  · have hle := hadded.size_le
    replace hsize : tables2.copies.size = tables1.copies.size+k := hsize
    simp only [List.length_map] at hle
    exact ⟨k, by omega, by rwa [Nat.zero_add] at hcreated⟩
  · intro x hx
    obtain ⟨v, hv, hsupplied⟩ := hparameter x hx
    exact ⟨v, hfinal (hext x v hv), hsupplied⟩
  · intro x hx hxp
    obtain ⟨y, hy⟩ := hvariable x hx
    have hnew := hfresh hx hxp (hfinal hy)
    exact ⟨y, hfinal hy, (hadded.key x y hnew).2, hadded.stands x y hnew⟩
  · intro x x' y hx hxp hx' hxp' hy hy'
    exact hadded.distinct x x' y (hfresh hx hxp hy) (hfresh hx' hxp' hy')
  · intro x hx hxv hxp
    refine (hget x).trans ?_
    rw [hold x hxv, hnoParameter x hxp, if_pos ((hconst x).mpr hx)]
    rfl
  · intro x hx hxv hxp
    refine (hget x).trans ?_
    rw [hold x hxv, hnoParameter x hxp, if_neg fun h => hx ((hconst x).mp h)]
    rfl

end

end ScMachine.Scp
