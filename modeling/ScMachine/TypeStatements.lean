import ScMachine.ScsParser
import ScMachine.PartialMerge

/-! Type statements `keynode -> element` (`Parser::ProcessTriple`, `ScType::CanExtendTo`). For nodes
and links the outcome depends on the set of statements; an edge accepts none, not even one that
repeats its own type. -/
namespace ScMachine.Scs
open ScMachine.Store ScMachine.StateExcept ScMachine.PartialMerge

/-- What one type statement makes of the type of its element. -/
def mergeType (t : ScType) (keynode : String) : Option ScType :=
  if t.canExtendTo (t ||| getKeynodeType keynode) then some (t ||| getKeynodeType keynode) else none

structure IsNodeType (t : ScType) : Prop where
  element : t &&& scTypeElementMask = scTypeNode
  bits : t &&& (scTypeConstancyMask ||| scTypeNodeMask ||| scTypeNode) = t

structure IsLinkType (t : ScType) : Prop where
  element : t &&& scTypeElementMask = scTypeLink
  bits : t &&& (scTypeConstancyMask ||| scTypeLink) = t

/-- One of the three kinds of edges, with the bits that this kind may have. -/
structure IsEdgeType (t : ScType) : Prop where
  element : t &&& scTypeElementMask = scTypeEdgeCommon ∨
    t &&& scTypeElementMask = scTypeArcCommon ∨ t &&& scTypeElementMask = scTypeArcAccess
  bits : t &&& (scTypeConstancyMask ||| (t &&& scTypeElementMask) |||
    if t &&& scTypeElementMask = scTypeArcAccess then scTypePositivityMask ||| scTypePermanencyMask
    else 0) = t

/-- Nothing is known of the element but its constancy. -/
def IsUnknownType (t : ScType) : Prop := t &&& scTypeConstancyMask = t

/-- A node with the subtype bits `n` accepts a statement with the bits `s`. -/
def Accepts (n s : ScType) : Prop := n = 0 ∨ n ||| s = n

instance (n s : ScType) : Decidable (Accepts n s) := inferInstanceAs (Decidable (_ ∨ _))

section
variable {t : ScType}

theorem and_of_subset {m n : ScType} (h : n &&& m = m) : t &&& m = t &&& n &&& m := by
  rw [BitVec.and_assoc, h]

theorem keynodeType_mem (k : String) (h : isKeynodeType k = true) :
    (k, getKeynodeType k) ∈ keynodeToType := by
  obtain ⟨v, hv⟩ := Option.isSome_iff_exists.mp h
  obtain ⟨l₁, l₂, hl, _⟩ := List.lookup_eq_some_iff.mp hv
  rw [getKeynodeType, hv, Option.getD_some, hl]
  simp

/-- What holds of every type that a keynode stands for holds of the one of `k`. -/
theorem keynodeType_of_all {Q : ScType → Prop} (hall : ∀ p ∈ keynodeToType, Q p.2) (k : String)
    (h : isKeynodeType k = true) : Q (getKeynodeType k) :=
  hall _ (keynodeType_mem k h)

theorem IsNodeType.isNode (h : IsNodeType t) : t.isNode = true ∧ t.isLink = false := by
  have hn : t &&& scTypeNode = scTypeNode := by
    rw [and_of_subset (n := scTypeElementMask) (by decide), h.element]
    decide
  have hl : t &&& scTypeLink = 0 := by
    rw [and_of_subset (n := scTypeElementMask) (by decide), h.element]
    decide
  rw [ScType.isNode, ScType.isLink, hn, hl]
  decide

theorem keepsGroup_or (t v mask : ScType) :
    ScType.keepsGroup t (t ||| v) mask = true ↔
      t &&& mask = 0 ∨ t &&& mask ||| v &&& mask = t &&& mask := by
  simp only [ScType.keepsGroup, BitVec.and_or_distrib_right, Bool.or_eq_true, beq_iff_eq,
    @eq_comm _ (t &&& mask) (t &&& mask ||| v &&& mask)]

theorem checkMask_or (t v mask : ScType) (ht : t &&& mask = t) (hv : v &&& mask = v) :
    ScType.checkMask (t ||| v) mask = true := by
  simp [ScType.checkMask, BitVec.and_or_distrib_right, ht, hv]

/-- A type that speaks of another kind of element extends none. -/
theorem not_canExtendTo_or (t v : ScType) (hne : t &&& scTypeElementMask ≠ 0)
    (hv : t &&& scTypeElementMask ||| v &&& scTypeElementMask ≠ t &&& scTypeElementMask) :
    t.canExtendTo (t ||| v) = false := by
  have hgroup : ScType.keepsGroup t (t ||| v) scTypeElementMask = false := by
    rw [← Bool.not_eq_true, keepsGroup_or]
    exact fun h => h.elim hne hv
  simp [ScType.canExtendTo, hgroup]

/-- A statement extends a node exactly when it speaks of nodes and names no other subtype. -/
theorem mergeType_node (h : IsNodeType t) (k : String) (hk : isKeynodeType k = true) :
    mergeType t k =
      if getKeynodeType k &&& scTypeElementMask = scTypeNode ∧
        Accepts (t &&& scTypeNodeMask) (getKeynodeType k &&& scTypeNodeMask) then
        some (t ||| getKeynodeType k)
      else none := by
  have hv := keynodeType_of_all (Q := fun v =>
    (v &&& scTypeElementMask ≠ scTypeNode → scTypeNode ||| v &&& scTypeElementMask ≠ scTypeNode) ∧
      (v &&& scTypeElementMask = scTypeNode → v &&& scTypeConstancyMask = 0 ∧
        v &&& (scTypeConstancyMask ||| scTypeNodeMask ||| scTypeNode) = v)) (by decide) k hk
  unfold mergeType
  generalize getKeynodeType k = v at hv ⊢
  obtain ⟨hother, hsame⟩ := hv
  by_cases hnode : v &&& scTypeElementMask = scTypeNode
  · obtain ⟨hconst, hbits⟩ := hsame hnode
    have helement : ScType.keepsGroup t (t ||| v) scTypeElementMask = true := by
      rw [keepsGroup_or, h.element, hnode]
      exact Or.inr (by decide)
    have hconstancy : ScType.keepsGroup t (t ||| v) scTypeConstancyMask = true := by
      rw [keepsGroup_or, hconst]
      exact Or.inr BitVec.or_zero
    have hmask := checkMask_or t v _ h.bits hbits
    have hcan : t.canExtendTo (t ||| v) = true ↔
        Accepts (t &&& scTypeNodeMask) (v &&& scTypeNodeMask) := by
      rw [Accepts, ← keepsGroup_or]
      simp [ScType.canExtendTo, helement, hconstancy, h.isNode.1, h.isNode.2, hmask]
    simp only [hcan, hnode, true_and]
  · have hno := not_canExtendTo_or t v (by rw [h.element]; decide)
      (by rw [h.element]; exact hother hnode)
    simp [hno, hnode]

theorem IsLinkType.isLink (h : IsLinkType t) : t.isLink = true := by
  have hl : t &&& scTypeLink = scTypeLink := by
    rw [and_of_subset (n := scTypeElementMask) (by decide), h.element]
    decide
  rw [ScType.isLink, hl]
  decide

/-- A statement extends a link exactly when it says that it is one. -/
theorem mergeType_link (h : IsLinkType t) (k : String) (hk : isKeynodeType k = true) :
    mergeType t k = if getKeynodeType k = scTypeLink then some t else none := by
  have hv := keynodeType_of_all (Q := fun v =>
    v ≠ scTypeLink → scTypeLink ||| v &&& scTypeElementMask ≠ scTypeLink) (by decide) k hk
  unfold mergeType
  generalize getKeynodeType k = v at hv ⊢
  by_cases hlink : v = scTypeLink
  · subst hlink
    have hsame : t ||| scTypeLink = t := by
      calc t ||| scTypeLink = t ||| t &&& scTypeLink := by
            rw [and_of_subset (t := t) (n := scTypeElementMask) (by decide), h.element]
            congr 1
        _ = t := by
            apply BitVec.eq_of_getLsbD_eq
            intro i _
            rw [BitVec.getLsbD_or, BitVec.getLsbD_and]
            cases t.getLsbD i <;> rfl
    have hcan : t.canExtendTo t = true := by
      simp [ScType.canExtendTo, ScType.keepsGroup, ScType.checkMask, h.isLink, h.bits]
    rw [hsame, if_pos hcan, if_pos rfl]
  · have hno := not_canExtendTo_or t v (by rw [h.element]; decide)
      (by rw [h.element]; exact hv hlink)
    simp [hno, hlink]

/-- The three masks that `CanExtendTo` checks one after the other have no bit in common. -/
theorem edge_canExtendTo (x : ScType) (hedge : t.isEdge = true) (hlink : t.isLink = false)
    (hnode : t.isNode = false) (hx : x ≠ 0) : t.canExtendTo x = false := by
  by_contra hcan
  have hmasks : x &&& (scTypeArcCommon ||| scTypeConstancyMask) = x ∧
      x &&& (scTypeArcAccess ||| scTypeConstancyMask ||| scTypePositivityMask |||
        scTypePermanencyMask) = x ∧ x &&& scTypeEdgeCommon = x := by
    simp [ScType.canExtendTo, ScType.checkMask, hedge, hlink, hnode] at hcan
    exact ⟨hcan.2.2.1.symm, hcan.2.2.2.1.symm, hcan.2.2.2.2.1.symm⟩
  obtain ⟨hcommon, _, hucommon⟩ := hmasks
  apply hx
  calc x = x &&& (scTypeArcCommon ||| scTypeConstancyMask) &&& scTypeEdgeCommon := by
        rw [hcommon, hucommon]
    _ = x &&& (0 : ScType) := by
        rw [BitVec.and_assoc]
        congr 1
    _ = 0 := BitVec.and_zero

theorem IsEdgeType.isEdge (h : IsEdgeType t) :
    t.isEdge = true ∧ t.isLink = false ∧ t.isNode = false := by
  have hgroup (mask : ScType) (hm : scTypeElementMask &&& mask = mask) :
      t &&& mask = t &&& scTypeElementMask &&& mask := and_of_subset hm
  rw [ScType.isEdge, ScType.isLink, ScType.isNode, hgroup scTypeArcMask (by decide),
    hgroup scTypeLink (by decide), hgroup scTypeNode (by decide)]
  obtain hu | hd | ha := h.element
  · rw [hu]
    decide
  · rw [hd]
    decide
  · rw [ha]
    decide

/-- An edge accepts no type statement. -/
theorem mergeType_edge (h : IsEdgeType t) (k : String) : mergeType t k = none := by
  obtain ⟨hedge, hlink, hnode⟩ := h.isEdge
  have hne : t ||| getKeynodeType k ≠ 0 := by
    intro h0
    have ht : t = 0 := (BitVec.or_eq_zero_iff.mp h0).1
    rw [ht] at hedge
    exact absurd hedge (by decide)
  simp [mergeType, edge_canExtendTo _ hedge hlink hnode hne]

end

/-- Two subtypes that keynodes stand for accept each other in both orders or in none. -/
theorem keynode_accepts_comm (k k' : String) (hk : isKeynodeType k = true)
    (hk' : isKeynodeType k' = true) (hn : getKeynodeType k &&& scTypeElementMask = scTypeNode)
    (hn' : getKeynodeType k' &&& scTypeElementMask = scTypeNode) :
    Accepts (getKeynodeType k &&& scTypeNodeMask) (getKeynodeType k' &&& scTypeNodeMask) ↔
      Accepts (getKeynodeType k' &&& scTypeNodeMask) (getKeynodeType k &&& scTypeNodeMask) := by
  have hall : ∀ p ∈ keynodeToType, ∀ p' ∈ keynodeToType,
      p.2 &&& scTypeElementMask = scTypeNode → p'.2 &&& scTypeElementMask = scTypeNode →
      (Accepts (p.2 &&& scTypeNodeMask) (p'.2 &&& scTypeNodeMask) ↔
        Accepts (p'.2 &&& scTypeNodeMask) (p.2 &&& scTypeNodeMask)) := by decide
  exact hall _ (keynodeType_mem k hk) _ (keynodeType_mem k' hk') hn hn'

theorem accepts_comm (n s s' : ScType) (h : Accepts s s' ↔ Accepts s' s) :
    Accepts n s ∧ Accepts (n ||| s) s' ↔ Accepts n s' ∧ Accepts (n ||| s') s := by
  by_cases hn : n = 0
  · have hzero (x : ScType) : (0 : ScType) ||| x = x := BitVec.zero_or
    subst hn
    simp only [hzero]
    exact ⟨fun hs => ⟨Or.inl rfl, h.mp hs.2⟩, fun hs => ⟨Or.inl rfl, h.mpr hs.2⟩⟩
  · have hleft (s s' : ScType) : Accepts n s ∧ Accepts (n ||| s) s' ↔ n ||| s = n ∧ n ||| s' = n := by
      constructor
      · rintro ⟨hs | hs, hs'⟩
        · exact absurd hs hn
        · rw [hs] at hs'
          exact ⟨hs, hs'.resolve_left hn⟩
      · rintro ⟨hs, hs'⟩
        exact ⟨Or.inr hs, by rw [hs]; exact Or.inr hs'⟩
    rw [hleft, hleft, and_comm]

theorem IsNodeType.or {t v : ScType} (h : IsNodeType t) (hn : v &&& scTypeElementMask = scTypeNode)
    (hb : v &&& (scTypeConstancyMask ||| scTypeNodeMask ||| scTypeNode) = v) :
    IsNodeType (t ||| v) := by
  constructor
  · rw [BitVec.and_or_distrib_right, h.element, hn, BitVec.or_self]
  · rw [BitVec.and_or_distrib_right, h.bits, hb]

theorem keynode_bits (k : String) (hk : isKeynodeType k = true)
    (hn : getKeynodeType k &&& scTypeElementMask = scTypeNode) :
    getKeynodeType k &&& (scTypeConstancyMask ||| scTypeNodeMask ||| scTypeNode) =
      getKeynodeType k := by
  have hall : ∀ p ∈ keynodeToType, p.2 &&& scTypeElementMask = scTypeNode →
      p.2 &&& (scTypeConstancyMask ||| scTypeNodeMask ||| scTypeNode) = p.2 := by decide
  exact hall _ (keynodeType_mem k hk) hn

theorem node_consistent : Consistent mergeType IsNodeType (fun k => isKeynodeType k = true) where
  keeps t k u ht hk hm := by
    rw [mergeType_node ht k hk] at hm
    split_ifs at hm with hcond
    obtain rfl := Option.some.inj hm
    exact ht.or hcond.1 (keynode_bits k hk hcond.1)
  idem t k u ht hk hm := by
    rw [mergeType_node ht k hk] at hm
    split_ifs at hm with hcond
    obtain rfl := Option.some.inj hm
    rw [mergeType_node (ht.or hcond.1 (keynode_bits k hk hcond.1)) k hk, if_pos]
    · rw [BitVec.or_assoc, BitVec.or_self]
    · refine ⟨hcond.1, Or.inr ?_⟩
      rw [BitVec.and_or_distrib_right, BitVec.or_assoc, BitVec.or_self]
  comm t k k' ht hk hk' := by
    have hstep (k k' : String) (hk : isKeynodeType k = true) (hk' : isKeynodeType k' = true) :
        ((mergeType t k).bind fun u => mergeType u k') =
          if (getKeynodeType k &&& scTypeElementMask = scTypeNode ∧
              getKeynodeType k' &&& scTypeElementMask = scTypeNode) ∧
              Accepts (t &&& scTypeNodeMask) (getKeynodeType k &&& scTypeNodeMask) ∧
              Accepts (t &&& scTypeNodeMask ||| getKeynodeType k &&& scTypeNodeMask)
                (getKeynodeType k' &&& scTypeNodeMask) then
            some (t ||| getKeynodeType k ||| getKeynodeType k')
          else none := by
      rw [mergeType_node ht k hk]
      by_cases hn : getKeynodeType k &&& scTypeElementMask = scTypeNode
      · by_cases hacc : Accepts (t &&& scTypeNodeMask) (getKeynodeType k &&& scTypeNodeMask)
        · rw [if_pos ⟨hn, hacc⟩, Option.bind_some,
            mergeType_node (ht.or hn (keynode_bits k hk hn)) k' hk', BitVec.and_or_distrib_right]
          simp only [hn, hacc, true_and]
        · rw [if_neg (fun h => hacc h.2), if_neg (fun h => hacc h.2.1), Option.bind_none]
      · rw [if_neg (fun h => hn h.1), if_neg (fun h => hn h.1.1), Option.bind_none]
    rw [hstep k k' hk hk', hstep k' k hk' hk]
    by_cases hn : getKeynodeType k &&& scTypeElementMask = scTypeNode ∧
        getKeynodeType k' &&& scTypeElementMask = scTypeNode
    · have hcomm := accepts_comm (t &&& scTypeNodeMask) _ _
        (keynode_accepts_comm k k' hk hk' hn.1 hn.2)
      simp only [hn, and_self, true_and, hcomm]
      congr 1
      rw [BitVec.or_assoc, BitVec.or_assoc, BitVec.or_comm (getKeynodeType k)]
    · rw [if_neg (fun h => hn h.1), if_neg (fun h => hn h.1.symm)]

theorem link_consistent : Consistent mergeType IsLinkType (fun k => isKeynodeType k = true) where
  keeps t k u ht hk hm := by
    rw [mergeType_link ht k hk] at hm
    split_ifs at hm
    exact Option.some.inj hm ▸ ht
  idem t k u ht hk hm := by
    have hsame := hm
    rw [mergeType_link ht k hk] at hm
    split_ifs at hm
    obtain rfl := Option.some.inj hm
    exact hsame
  comm t k k' ht hk hk' := by
    rw [mergeType_link ht k hk, mergeType_link ht k' hk']
    split_ifs with hl hl'
    · rw [Option.bind_some, Option.bind_some, mergeType_link ht k' hk', mergeType_link ht k hk,
        if_pos hl, if_pos hl']
    · rw [Option.bind_some, mergeType_link ht k' hk', if_neg hl']
      rfl
    · rw [Option.bind_some, mergeType_link ht k hk, if_neg hl]
      rfl
    · rfl

/-- The triple `t` states of the element `trg` what the keynode with this identifier stands for. -/
structure TypeStatement (p : Parser) (trg : ElementHandle) (t : ParsedTriple) (keynode : String)
    (edgeEl srcEl : ParsedElement) : Prop where
  edge : p.element t.edge = some edgeEl
  edgeType : edgeEl.getType = ScType.edgeAccessConstPosPerm
  source : p.element (if edgeEl.isReversed then t.target else t.source) = some srcEl
  idtf : srcEl.idtf = keynode
  keynode : isKeynodeType keynode = true
  target : (if edgeEl.isReversed then t.source else t.target) = trg

def TypeStatements (p : Parser) (trg : ElementHandle) (l : List (ParsedTriple × String)) : Prop :=
  ∀ x ∈ l, ∃ edgeEl srcEl, TypeStatement p trg x.1 x.2 edgeEl srcEl

theorem element_setType (p : Parser) (trg h : ElementHandle) (u : ScType) :
    (p.setType trg u).element h =
      if h = trg then (p.element h).map (fun el => { el with type := u }) else p.element h := by
  have hcontainer (b : Bool) : (p.setType trg u).container b =
      if b = trg.isLocal then (p.container b).modify trg.id (fun el => { el with type := u })
      else p.container b := by
    cases b <;> cases hb : trg.isLocal <;> simp [Parser.setType, Parser.setContainer,
      Parser.container, hb]
  obtain ⟨i, b⟩ := h
  obtain ⟨j, c⟩ := trg
  rw [Parser.element, hcontainer, Parser.element]
  by_cases hb : b = c
  · subst hb
    by_cases hi : i = j
    · subst hi
      simp
    · have hij : j ≠ i := fun h => hi h.symm
      simp [hi, hij]
  · simp [hb]

/-- The state after a type statement that was merged to `u`. -/
def afterStatement (p : Parser) (trg src e : ElementHandle) (u : ScType) : Parser :=
  if p.contourTriplesStack ≠ [] then
    { p.setType trg u with parsedTriples := (p.setType trg u).parsedTriples ++ [⟨src, e, trg⟩] }
  else p.setType trg u

theorem element_afterStatement (p : Parser) (trg src e h : ElementHandle) (u : ScType) :
    (afterStatement p trg src e u).element h = (p.setType trg u).element h := by
  unfold afterStatement
  split_ifs <;> rfl

theorem setType_stack (p : Parser) (trg : ElementHandle) (u : ScType) :
    (p.setType trg u).contourTriplesStack = p.contourTriplesStack := by
  unfold Parser.setType Parser.setContainer
  split_ifs <;> rfl

theorem getParsedElement_run {p : Parser} {h : ElementHandle} {el : ParsedElement}
    (hel : p.element h = some el) : getParsedElement h p = .ok (el, p) := by
  simp only [getParsedElement, bind, StateT.bind, get, getThe, MonadStateOf.get, StateT.get, pure,
    Except.pure, Except.bind, hel]
  rfl

/-- `ProcessTriple` merges the type of the target, or raises an error. -/
theorem processTriple_statement (debug : Bool) (p : Parser) (trg : ElementHandle)
    (t : ParsedTriple) (keynode : String) (edgeEl srcEl el : ParsedElement)
    (h : TypeStatement p trg t keynode edgeEl srcEl) (hel : p.element trg = some el) :
    processTriple debug t.source t.edge t.target p =
      match mergeType el.type keynode with
      | some u => .ok ((), afterStatement p trg (if edgeEl.isReversed then t.target else t.source)
          t.edge u)
      | none => .error (.parseError ("Can't merge types for element " ++ el.idtf)) := by
  have hassert : scAssert debug edgeEl.getType.isEdge p = .ok ((), p) := by
    have hedge : edgeEl.getType.isEdge = true := by
      rw [h.edgeType]
      decide
    simp [scAssert, hedge]
    rfl
  have hadd (src : ElementHandle) (hsrc : p.element src = some srcEl) :
      addEdge edgeEl src t.edge trg p =
        match mergeType el.type keynode with
        | some u => .ok ((), afterStatement p trg src t.edge u)
        | none => .error (.parseError ("Can't merge types for element " ++ el.idtf)) := by
    unfold addEdge
    rw [run_bind_ok (getParsedElement_run hsrc), if_pos ⟨h.edgeType, by rw [h.idtf]; exact h.keynode⟩,
      run_bind_ok (getParsedElement_run hel), h.idtf]
    simp only [mergeType]
    by_cases hcan : el.type.canExtendTo (el.type ||| getKeynodeType keynode) = true
    · rw [if_pos hcan, if_pos hcan]
      set q := p.setType trg (el.type ||| getKeynodeType keynode) with hq
      have hset : (modify (fun p => p.setType trg (el.type ||| getKeynodeType keynode)) :
          ParserM PUnit) p = .ok (⟨⟩, q) := rfl
      have hread : (get : ParserM Parser) q = .ok (q, q) := rfl
      rw [run_bind_ok hset, run_bind_ok hread, hq, setType_stack, ← hq]
      simp only [afterStatement]
      split_ifs <;> rfl
    · rw [if_neg hcan, if_neg hcan]
      rfl
  unfold processTriple
  rw [run_bind_ok (getParsedElement_run h.edge), run_bind_ok hassert]
  have hsource := h.source
  have htarget := h.target
  by_cases hrev : edgeEl.isReversed = true
  · simp only [hrev, if_true] at hsource htarget ⊢
    rw [htarget]
    exact hadd _ hsource
  · rw [if_neg hrev] at hsource htarget
    rw [if_neg hrev, if_neg hrev, htarget]
    exact hadd _ hsource

/-- A statement that was merged leaves the others what they were: no edge has been changed. -/
theorem TypeStatement.after {p : Parser} {trg : ElementHandle} {t : ParsedTriple}
    {keynode : String} {edgeEl srcEl : ParsedElement}
    (h : TypeStatement p trg t keynode edgeEl srcEl) (el : ParsedElement)
    (hel : p.element trg = some el) (k : String) (u : ScType) (hm : mergeType el.type k = some u)
    (src e : ElementHandle) :
    ∃ srcEl', TypeStatement (afterStatement p trg src e u) trg t keynode edgeEl srcEl' := by
  have hother : t.edge ≠ trg := by
    rintro rfl
    obtain rfl := Option.some.inj (hel.symm.trans h.edge)
    have htype := h.edgeType
    unfold ParsedElement.getType at htype
    split_ifs at htype
    · have hedge : IsEdgeType el.type := by
        rw [htype]
        exact ⟨by decide, by decide⟩
      rw [mergeType_edge hedge] at hm
      cases hm
    · exact absurd htype (by decide)
    · exact absurd htype (by decide)
  have helement (x : ElementHandle) (d : ParsedElement) (hx : p.element x = some d) :
      (afterStatement p trg src e u).element x =
        some (if x = trg then { d with type := u } else d) := by
    rw [element_afterStatement, element_setType, hx]
    split_ifs <;> rfl
  refine ⟨_, ?_, h.edgeType, helement _ _ h.source, ?_, h.keynode, h.target⟩
  · rw [helement _ _ h.edge, if_neg hother]
  · split_ifs <;> exact h.idtf

def processTriples (debug : Bool) : List ParsedTriple → ParserM Unit
  | [] => pure ()
  | t :: l => do
    processTriple debug t.source t.edge t.target
    processTriples debug l

/-- The type of `trg` after the triples, or `none` if they raise an error. -/
def typeOutcome (debug : Bool) (p : Parser) (trg : ElementHandle) (l : List ParsedTriple) :
    Option ScType :=
  match processTriples debug l p with
  | .ok (_, p') => (p'.element trg).map (fun el => el.type)
  | .error _ => none

/-- The parser merges the types of the keynodes one after the other. -/
theorem typeOutcome_eq (debug : Bool) (p : Parser) (trg : ElementHandle) (el : ParsedElement)
    (hel : p.element trg = some el) (l : List (ParsedTriple × String))
    (hl : TypeStatements p trg l) :
    typeOutcome debug p trg (l.map (fun x => x.1)) =
      mergeAll mergeType el.type (l.map (fun x => x.2)) := by
  induction l generalizing p el with
  | nil => simp [typeOutcome, processTriples, hel, mergeAll, pure, StateT.pure, Except.pure]
  | cons x l ih =>
    obtain ⟨edgeEl, srcEl, hx⟩ := hl x List.mem_cons_self
    have hstep := processTriple_statement debug p trg x.1 x.2 edgeEl srcEl el hx hel
    simp only [List.map_cons, mergeAll, typeOutcome, processTriples]
    cases hm : mergeType el.type x.2 with
    | none =>
      rw [hm] at hstep
      rw [run_bind_error hstep]
      rfl
    | some u =>
      rw [hm] at hstep
      rw [run_bind_ok hstep]
      have hel' : (afterStatement p trg (if edgeEl.isReversed then x.1.target else x.1.source)
          x.1.edge u).element trg = some { el with type := u } := by
        rw [element_afterStatement, element_setType, if_pos rfl, hel]
        rfl
      refine ih _ { el with type := u } hel' (fun y hy => ?_)
      obtain ⟨edgeEl', srcEl', hy'⟩ := hl y (List.mem_cons_of_mem x hy)
      obtain ⟨srcEl'', hafter⟩ := hy'.after el hel x.2 u hm
        (if edgeEl.isReversed then x.1.target else x.1.source) x.1.edge
      exact ⟨edgeEl', srcEl'', hafter⟩

/-- The types that an element of an scs text can start with. -/
def InitialType (t : ScType) : Prop :=
  IsNodeType t ∨ IsLinkType t ∨ IsEdgeType t ∨ IsUnknownType t

/-- Statements about elements of type `t` merge consistently. -/
structure StatementsConsistent (t : ScType) : Prop where
  sets : ∀ debug p trg el l l', p.element trg = some el → el.type = t →
    TypeStatements p trg l → TypeStatements p trg l' →
    (∀ k, k ∈ l.map (fun x => x.2) ↔ k ∈ l'.map (fun x => x.2)) →
    typeOutcome debug p trg (l.map (fun x => x.1)) = typeOutcome debug p trg (l'.map (fun x => x.1))
  self : t.canExtendTo t = true
  trans : ∀ debug p trg el l u, p.element trg = some el → el.type = t → TypeStatements p trg l →
    typeOutcome debug p trg (l.map (fun x => x.1)) = some u → t.canExtendTo u = true

theorem statements_keynodes {p : Parser} {trg : ElementHandle} {l : List (ParsedTriple × String)}
    (hl : TypeStatements p trg l) : ∀ k ∈ l.map (fun x => x.2), isKeynodeType k = true := by
  intro k hk
  obtain ⟨x, hx, rfl⟩ := List.mem_map.mp hk
  obtain ⟨edgeEl, srcEl, h⟩ := hl x hx
  exact h.keynode

/-- Consistent merges that a type can always be extended to make its statements consistent. -/
theorem statementsConsistent_of {P : ScType → Prop} {t : ScType}
    (hP : Consistent mergeType P (fun k => isKeynodeType k = true)) (ht : P t)
    (hext : ∀ l u, (∀ k ∈ l, isKeynodeType k = true) → mergeAll mergeType t l = some u →
      t.canExtendTo u = true) : StatementsConsistent t where
  sets debug p trg el l l' hel helt hl hl' hset := by
    rw [typeOutcome_eq debug p trg el hel l hl, typeOutcome_eq debug p trg el hel l' hl', helt]
    exact mergeAll_congr hP t _ _ ht (statements_keynodes hl) hset
  self := hext [] t nofun rfl
  trans debug p trg el l u hel helt hl hout := by
    rw [typeOutcome_eq debug p trg el hel l hl, helt] at hout
    exact hext _ u (statements_keynodes hl) hout

theorem mergeAll_link {t u : ScType} (ht : IsLinkType t) (l : List String)
    (hl : ∀ k ∈ l, isKeynodeType k = true) (hm : mergeAll mergeType t l = some u) : u = t := by
  induction l with
  | nil => exact (Option.some.inj hm).symm
  | cons k l ih =>
    obtain ⟨c, hc, hrest⟩ := Option.bind_eq_some_iff.mp hm
    rw [mergeType_link ht k (hl k List.mem_cons_self)] at hc
    split_ifs at hc
    obtain rfl := Option.some.inj hc
    exact ih (fun x hx => hl x (List.mem_cons_of_mem k hx)) hrest

/-- Along its merges a node keeps its constancy, and its subtype once it has one. -/
theorem mergeAll_node {t u : ScType} (ht : IsNodeType t) (l : List String)
    (hl : ∀ k ∈ l, isKeynodeType k = true) (hm : mergeAll mergeType t l = some u) :
    IsNodeType u ∧ u &&& scTypeConstancyMask = t &&& scTypeConstancyMask ∧
      (t &&& scTypeNodeMask ≠ 0 → u &&& scTypeNodeMask = t &&& scTypeNodeMask) := by
  induction l generalizing t with
  | nil =>
    obtain rfl := Option.some.inj hm
    exact ⟨ht, rfl, fun _ => rfl⟩
  | cons k l ih =>
    obtain ⟨c, hc, hrest⟩ := Option.bind_eq_some_iff.mp hm
    have hk := hl k List.mem_cons_self
    rw [mergeType_node ht k hk] at hc
    split_ifs at hc with hcond
    obtain rfl := Option.some.inj hc
    have hbits := keynode_bits k hk hcond.1
    obtain ⟨hu, hconst, hsub⟩ := ih (ht.or hcond.1 hbits)
      (fun x hx => hl x (List.mem_cons_of_mem k hx)) hrest
    have hfree : getKeynodeType k &&& scTypeConstancyMask = 0 := by
      have hall : ∀ p ∈ keynodeToType, p.2 &&& scTypeElementMask = scTypeNode →
          p.2 &&& scTypeConstancyMask = 0 := by decide
      exact hall _ (keynodeType_mem k hk) hcond.1
    refine ⟨hu, ?_, fun hne => ?_⟩
    · rw [hconst, BitVec.and_or_distrib_right, hfree]
      exact BitVec.or_zero
    · have hkeep := hcond.2.resolve_left hne
      rw [BitVec.and_or_distrib_right, hkeep] at hsub
      exact hsub hne

theorem node_canExtendTo {t u : ScType} (ht : IsNodeType t) (hu : IsNodeType u)
    (hconst : u &&& scTypeConstancyMask = t &&& scTypeConstancyMask)
    (hsub : t &&& scTypeNodeMask ≠ 0 → u &&& scTypeNodeMask = t &&& scTypeNodeMask) :
    t.canExtendTo u = true := by
  have hgroup : t &&& scTypeNodeMask = 0 ∨ t &&& scTypeNodeMask = u &&& scTypeNodeMask := by
    by_cases h0 : t &&& scTypeNodeMask = 0
    · exact Or.inl h0
    · exact Or.inr (hsub h0).symm
  simp [ScType.canExtendTo, ScType.keepsGroup, ScType.checkMask, ht.element, hu.element, hconst,
    ht.isNode.1, ht.isNode.2, hu.bits]
  exact hgroup

/-- The scs text of the failing case of a type that is not known yet: an element, the keynode
`sc_edge_access` and a membership edge. -/
def unknownElement (t : ScType) : Parser :=
  { Parser.new with
    parsedElements := [⟨"x", t, .system, false, "", false⟩,
      ⟨"sc_edge_access", ScType.nodeConst, .system, false, "", false⟩]
    parsedElementsLocal := [⟨"..edge_0", ScType.edgeAccessConstPosPerm, .local, false, "", false⟩] }

def accessStatement : ParsedTriple × String :=
  (⟨⟨1, false⟩, ⟨0, true⟩, ⟨0, false⟩⟩, "sc_edge_access")

theorem accessStatement_states (t : ScType) (n : ℕ) :
    TypeStatements (unknownElement t) ⟨0, false⟩ (List.replicate n accessStatement) := by
  intro x hx
  rw [(List.mem_replicate.mp hx).2]
  exact ⟨_, _, rfl, by decide, rfl, rfl, by decide, rfl⟩

theorem unknown_access {t : ScType} (ht : IsUnknownType t) :
    mergeType t "sc_edge_access" = some (t ||| scTypeArcAccess) ∧
      IsEdgeType (t ||| scTypeArcAccess) := by
  have hgroup (mask : ScType) (hm : scTypeConstancyMask &&& mask = 0) : t &&& mask = 0 := by
    rw [← ht, BitVec.and_assoc, hm]
    exact BitVec.and_zero
  have hkeynode : getKeynodeType "sc_edge_access" = scTypeArcAccess := by decide
  have helement : t &&& scTypeElementMask = 0 := hgroup _ (by decide)
  have hkeep : ScType.keepsGroup t (t ||| scTypeArcAccess) scTypeElementMask = true ∧
      ScType.keepsGroup t (t ||| scTypeArcAccess) scTypeConstancyMask = true := by
    rw [keepsGroup_or, keepsGroup_or]
    exact ⟨Or.inl helement, Or.inr BitVec.or_zero⟩
  have hcan : t.canExtendTo (t ||| scTypeArcAccess) = true := by
    simp [ScType.canExtendTo, hkeep.1, hkeep.2, ScType.isLink, ScType.isNode, ScType.isEdge,
      hgroup scTypeLink (by decide), hgroup scTypeNode (by decide), hgroup scTypeArcMask (by decide)]
  have hafter : (t ||| scTypeArcAccess) &&& scTypeElementMask = scTypeArcAccess := by
    rw [BitVec.and_or_distrib_right, helement]
    decide
  refine ⟨by rw [mergeType, hkeynode, if_pos hcan], ⟨Or.inr (Or.inr hafter), ?_⟩⟩
  rw [hafter, if_pos rfl, BitVec.and_or_distrib_right]
  congr 1
  calc t &&& (scTypeConstancyMask ||| scTypeArcAccess |||
        (scTypePositivityMask ||| scTypePermanencyMask)) =
      t &&& scTypeConstancyMask &&& (scTypeConstancyMask ||| scTypeArcAccess |||
        (scTypePositivityMask ||| scTypePermanencyMask)) := by rw [ht]
    _ = t &&& scTypeConstancyMask := by
        rw [BitVec.and_assoc]
        congr 1
    _ = t := ht

/-- The first statement makes an unknown element an edge, and the same statement again is an
error. -/
theorem unknown_not_consistent {t : ScType} (ht : IsUnknownType t) : ¬ StatementsConsistent t := by
  intro h
  have hset := h.sets true (unknownElement t) ⟨0, false⟩ _ (List.replicate 1 accessStatement)
    (List.replicate 2 accessStatement) rfl rfl (accessStatement_states t 1)
    (accessStatement_states t 2) (by simp)
  rw [typeOutcome_eq true _ _ _ rfl _ (accessStatement_states t 1),
    typeOutcome_eq true _ _ _ rfl _ (accessStatement_states t 2)] at hset
  obtain ⟨hfirst, hedge⟩ := unknown_access ht
  have hagain := mergeType_edge hedge "sc_edge_access"
  simp [accessStatement, mergeAll, hfirst, hagain] at hset

/-- Type statements merge consistently exactly for nodes and links. -/
theorem statements_consistent_iff (t : ScType) (ht : InitialType t) :
    StatementsConsistent t ↔ IsNodeType t ∨ IsLinkType t := by
  constructor
  · intro h
    obtain hnode | hlink | hedge | hunknown := ht
    · exact Or.inl hnode
    · exact Or.inr hlink
    · obtain ⟨he, hl, hn⟩ := hedge.isEdge
      have hne : t ≠ 0 := by
        rintro rfl
        exact absurd he (by decide)
      have hself := h.self
      rw [edge_canExtendTo t he hl hn hne] at hself
      cases hself
    · exact absurd h (unknown_not_consistent hunknown)
  · rintro (hnode | hlink)
    · refine statementsConsistent_of node_consistent hnode (fun l u hl hm => ?_)
      obtain ⟨hu, hconst, hsub⟩ := mergeAll_node hnode l hl hm
      exact node_canExtendTo hnode hu hconst hsub
    · refine statementsConsistent_of link_consistent hlink (fun l u hl hm => ?_)
      rw [mergeAll_link hlink l hl hm]
      simp [ScType.canExtendTo, ScType.keepsGroup, ScType.checkMask, hlink.isLink, hlink.bits]

theorem statements_consistent_node_const :
    StatementsConsistent ScType.nodeConst ↔
      IsNodeType ScType.nodeConst ∨ IsLinkType ScType.nodeConst :=
  statements_consistent_iff _ (Or.inl ⟨by decide, by decide⟩)

/-- The calls for the text `sc_edge_main -> (a -> b);;`. -/
def edgeTypeStatement (debug : Bool) : ParserM Unit := do
  let keynode ← processIdentifier debug "sc_edge_main"
  let a ← processIdentifier debug "a"
  let b ← processIdentifier debug "b"
  let edge ← processConnector debug "->"
  processTriple debug a edge b
  let typeEdge ← processConnector debug "->"
  processTriple debug keynode typeEdge edge

def ScsError.ofRun {α : Type} : Except ScsError α → Option ScsError
  | .ok _ => none
  | .error e => some e

/-- The type that the statement names is the type that the edge has. -/
theorem edge_type_statement_fails :
    InitialType ScType.edgeAccessConstPosPerm ∧
      ScType.edgeAccessConstPosPerm.canExtendTo ScType.edgeAccessConstPosPerm = false ∧
      ScsError.ofRun (edgeTypeStatement true Parser.new) =
        some (.parseError "Can't merge types for element ..edge_0") ∧
      ¬ StatementsConsistent ScType.edgeAccessConstPosPerm := by
  have hself : ScType.edgeAccessConstPosPerm.canExtendTo ScType.edgeAccessConstPosPerm = false := by
    decide
  refine ⟨Or.inr (Or.inr (Or.inl ⟨by decide, by decide⟩)), hself, by decide +kernel, fun h => ?_⟩
  rw [h.self] at hself
  cases hself

end ScMachine.Scs
