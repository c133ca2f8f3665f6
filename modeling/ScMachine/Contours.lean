import ScMachine.ParserRuns

/-! What a contour contains: `ProcessContourEnd` adds a membership triple for each element that the
contour encloses. -/
namespace ScMachine.Scs
open ScMachine.Store ScMachine.StateExcept ScMachine.Runs

/-- The contour that began in `pb` encloses the element in `p`: the element is new, or occurs in a
triple that is. -/
def Enclosed (pb p : Parser) (el : ElementHandle) : Prop :=
  ((p.element el).isSome ∧ pb.element el = none) ∨
    ∃ t ∈ p.parsedTriples.drop pb.parsedTriples.length,
      el = t.source ∨ el = t.edge ∨ el = t.target

theorem lt_irrefl_handle (a : ElementHandle) : a.lt a = false := by
  simp [ElementHandle.lt]

theorem lt_trans_handle (a b c : ElementHandle) (hab : a.lt b = true) (hbc : b.lt c = true) :
    a.lt c = true := by
  obtain ⟨i, x⟩ := a
  obtain ⟨j, y⟩ := b
  obtain ⟨k, z⟩ := c
  simp only [ElementHandle.lt] at hab hbc ⊢
  split_ifs at hab hbc ⊢ with h1 h2 h3 h4 h5 h6
  all_goals simp_all
  all_goals omega

/-- Two handles are the same when neither is less. -/
theorem eq_of_not_lt (a b : ElementHandle) (hab : a.lt b = false) (hba : b.lt a = false) : a = b := by
  obtain ⟨i, x⟩ := a
  obtain ⟨j, y⟩ := b
  by_cases hij : i = j
  · subst hij
    cases x <;> cases y <;> simp_all [ElementHandle.lt]
  · have hji : j ≠ i := Ne.symm hij
    simp only [ElementHandle.lt, hij, hji, if_false, decide_eq_false_iff_not] at hab hba
    omega

theorem mem_setInsert (x h : ElementHandle) (l : List ElementHandle) :
    x ∈ setInsert h l ↔ x = h ∨ x ∈ l := by
  induction l with
  | nil => simp [setInsert]
  | cons a l ih =>
    rw [setInsert]
    split_ifs with hha hah
    · rw [List.mem_cons]
    · rw [List.mem_cons, ih, List.mem_cons]
      exact or_left_comm
    · have heq := eq_of_not_lt h a (Bool.eq_false_iff.mpr hha) (Bool.eq_false_iff.mpr hah)
      rw [heq, List.mem_cons]
      exact or_self_left.symm

theorem pairwise_setInsert (h : ElementHandle) (l : List ElementHandle)
    (hl : l.Pairwise (fun a b => a.lt b = true)) :
    (setInsert h l).Pairwise (fun a b => a.lt b = true) := by
  induction l with
  | nil => simp [setInsert]
  | cons a l ih =>
    obtain ⟨ha, htail⟩ := List.pairwise_cons.mp hl
    rw [setInsert]
    split_ifs with hha hah
    · refine List.pairwise_cons.mpr ⟨fun b hb => ?_, hl⟩
      obtain rfl | hb := List.mem_cons.mp hb
      · exact hha
      · exact lt_trans_handle h a b hha (ha b hb)
    · refine List.pairwise_cons.mpr ⟨fun b hb => ?_, ih htail⟩
      obtain rfl | hb := (mem_setInsert b h l).mp hb
      · exact hah
      · exact ha b hb
    · exact hl

/-- A `std::set` that is filled one by one holds what was inserted, each once. -/
theorem setInsert_all (els l : List ElementHandle) (hl : l.Pairwise (fun a b => a.lt b = true)) :
    (els.foldl (fun s h => setInsert h s) l).Nodup ∧
      ∀ x, x ∈ els.foldl (fun s h => setInsert h s) l ↔ x ∈ els ∨ x ∈ l := by
  induction els generalizing l with
  | nil =>
    refine ⟨hl.imp (fun {a b} hab he => ?_), fun x => by simp⟩
    rw [he, lt_irrefl_handle] at hab
    cases hab
  | cons h els ih =>
    obtain ⟨hnodup, hmem⟩ := ih (setInsert h l) (pairwise_setInsert h l hl)
    refine ⟨hnodup, fun x => ?_⟩
    rw [List.foldl_cons, hmem, mem_setInsert, List.mem_cons]
    exact or_left_comm.trans or_assoc.symm

/-- The sizes that the begin of the contour saved. -/
def Parser.sizes (p : Parser) : ℕ × ℕ := (p.parsedElements.length, p.parsedElementsLocal.length)

theorem newElements_nodup (p : Parser) (ind : ℕ × ℕ) (n : ℕ) : (newElements p ind n).Nodup :=
  (setInsert_all _ [] List.Pairwise.nil).1

theorem element_isSome (p : Parser) (h : ElementHandle) :
    (p.element h).isSome ↔ h.id < (p.container h.isLocal).length := by
  rw [Parser.element, Option.isSome_iff_ne_none, Ne, List.getElem?_eq_none_iff]
  omega

theorem element_none (p : Parser) (h : ElementHandle) :
    p.element h = none ↔ (p.container h.isLocal).length ≤ h.id := by
  rw [Parser.element, List.getElem?_eq_none_iff]

/-- The elements that `ProcessContourEnd` collects are those that the contour encloses. -/
theorem mem_newElements (pb p : Parser) (el : ElementHandle) :
    el ∈ newElements p pb.sizes pb.parsedTriples.length ↔ Enclosed pb p el := by
  rw [newElements, (setInsert_all _ [] List.Pairwise.nil).2]
  simp only [List.mem_append, List.mem_flatMap, List.mem_cons, List.not_mem_nil, or_false]
  refine or_congr ?_ Iff.rfl
  rw [element_isSome, element_none]
  obtain ⟨i, b⟩ := el
  cases b
  · simp [Parser.container, Parser.sizes, List.mem_range'_1]
    omega
  · simp [Parser.container, Parser.sizes, List.mem_range'_1]
    omega

/-- The edge of a membership of a contour. -/
def Parser.isMembershipEdge (p : Parser) (e : ElementHandle) : Bool :=
  (p.element e).any (fun d => d.getType = ScType.edgeAccessConstPosPerm)

/-- The triple says that `el` is a member of the contour. -/
def Parser.isMembership (p : Parser) (contour el : ElementHandle) (t : ParsedTriple) : Bool :=
  t.source = contour && t.target = el && p.isMembershipEdge t.edge

/-- The end of the contour leaves one membership triple for each element that the contour encloses
and none for the others. -/
structure ContourExact (contour : ElementHandle) (pb p p' : Parser) : Prop where
  triples : p.parsedTriples <+: p'.parsedTriples
  enclosed : ∀ el, Enclosed pb p el →
    (p'.parsedTriples.drop p.parsedTriples.length).countP (p'.isMembership contour el) = 1
  others : ∀ el, ¬ Enclosed pb p el →
    (p'.parsedTriples.drop p.parsedTriples.length).countP (p'.isMembership contour el) = 0
  contour : (¬ ∃ t ∈ p.parsedTriples.drop pb.parsedTriples.length,
      contour = t.source ∨ contour = t.edge ∨ contour = t.target) →
    (p'.parsedTriples.drop p.parsedTriples.length).countP (p'.isMembership contour contour) = 0

/-- If the name that a new connector would get leads to an element, that one is a membership edge. -/
def NameUsable (p : Parser) (n : ℕ) : Prop :=
  ∀ h, p.idtfToParsedElement (edgeIdtf n) = some h → p.isMembershipEdge h = true

/-- The membership triples of a contour. -/
def memberTriples (contour : ElementHandle) (members : List (ElementHandle × ElementHandle)) :
    List ParsedTriple := members.map (fun m => ⟨contour, m.1, m.2⟩)

theorem countP_memberTriples_le (p : Parser) (contour el : ElementHandle)
    (members : List (ElementHandle × ElementHandle)) :
    (memberTriples contour members).countP (p.isMembership contour el) ≤
      (members.map Prod.snd).count el := by
  rw [memberTriples, List.countP_map, List.count, List.countP_map]
  apply List.countP_mono_left
  intro m _ hm
  simp only [Function.comp, Parser.isMembership, Bool.and_eq_true, decide_eq_true_eq] at hm
  exact beq_iff_eq.mpr hm.1.2

theorem countP_memberTriples_cons (p : Parser) (contour el e x : ElementHandle)
    (members : List (ElementHandle × ElementHandle)) :
    (memberTriples contour ((e, x) :: members)).countP (p.isMembership contour el) =
      (memberTriples contour members).countP (p.isMembership contour el) +
        if x = el ∧ p.isMembershipEdge e = true then 1 else 0 := by
  rw [memberTriples, List.map_cons, List.countP_cons, ← memberTriples]
  simp [Parser.isMembership]

/-- Different elements are members once each if and only if all the edges are membership edges. -/
theorem memberTriples_exact (p : Parser) (contour : ElementHandle)
    (members : List (ElementHandle × ElementHandle)) (hnodup : (members.map Prod.snd).Nodup) :
    (∀ el ∈ members.map Prod.snd,
        (memberTriples contour members).countP (p.isMembership contour el) = 1) ↔
      ∀ m ∈ members, p.isMembershipEdge m.1 = true := by
  induction members with
  | nil => simp
  | cons m members ih =>
    obtain ⟨e, x⟩ := m
    obtain ⟨hx, htail⟩ := List.nodup_cons.mp hnodup
    have hnone : (memberTriples contour members).countP (p.isMembership contour x) = 0 := by
      have hle := countP_memberTriples_le p contour x members
      rw [List.count_eq_zero.mpr hx] at hle
      exact Nat.le_zero.mp hle
    have hhead : (memberTriples contour ((e, x) :: members)).countP (p.isMembership contour x) = 1 ↔
        p.isMembershipEdge e = true := by
      rw [countP_memberTriples_cons, hnone]
      simp
    have hrest (el : ElementHandle) (hel : el ∈ members.map Prod.snd) :
        (memberTriples contour ((e, x) :: members)).countP (p.isMembership contour el) =
          (memberTriples contour members).countP (p.isMembership contour el) := by
      have hne : x ≠ el := fun he => hx (he ▸ hel)
      rw [countP_memberTriples_cons, if_neg (fun h => hne h.1), Nat.add_zero]
    rw [List.map_cons, List.forall_mem_cons, List.forall_mem_cons, hhead, ← ih htail]
    exact and_congr_right (fun _ => forall₂_congr (fun el hel => by rw [hrest el hel]))

/-- The parser whose next generated name has the next number. -/
def Parser.next (p : Parser) : Parser := { p with idtfCounter := p.idtfCounter+1 }

/-- The connector that `ProcessConnector("->")` appends. -/
def arcElement (n : ℕ) : ParsedElement :=
  ⟨edgeIdtf n, ScType.edgeAccessConstPosPerm, .local, false, "", false⟩

theorem arcElement_getType (n : ℕ) : (arcElement n).getType = ScType.edgeAccessConstPosPerm := by
  have hknown : ScType.edgeAccessConstPosPerm ≠ ScType.unknown := by decide
  exact if_pos hknown

/-- A connector whose name is taken is the element that bears the name. -/
theorem processConnector_arc (debug : Bool) (p : Parser) :
    processConnector debug "->" p =
      match p.idtfToParsedElement (edgeIdtf p.idtfCounter) with
      | some h => .ok (h, p.next)
      | none => .ok (p.next.append (arcElement p.idtfCounter)) := by
  have htype : getConnectorType "->" = ScType.edgeAccessConstPosPerm := by decide
  have hreversed : isConnectorReversed "->" = false := by decide
  have hassert (q : Parser) : scAssert debug true q = .ok ((), q) := by
    rw [scAssert, Bool.not_true, Bool.and_false, if_neg Bool.false_ne_true]
    rfl
  have hedge : ScType.edgeAccessConstPosPerm.isEdge = true := by decide
  have hname : edgeIdtf p.idtfCounter ≠ "" := by
    intro h
    have hlist := congrArg String.toList h
    simp [edgeIdtf, String.toList_append] at hlist
  have hidtf : (pure (edgeIdtf p.idtfCounter) : ParserM String) p.next =
      .ok (edgeIdtf p.idtfCounter, p.next) := rfl
  have hread (q : Parser) : (get : ParserM Parser) q = .ok (q, q) := rfl
  have hparsed : parsedElement debug (edgeIdtf p.idtfCounter) ScType.edgeAccessConstPosPerm false ""
      false p.next = .ok (arcElement p.idtfCounter, p.next) := by
    unfold parsedElement
    rw [if_neg (not_not_intro rfl), Bool.not_false, Bool.true_or, run_bind_ok (hassert _), hedge]
    rfl
  unfold processConnector
  rw [htype, hedge, run_bind_ok (hassert p), hreversed, generateEdgeIdtf,
    run_bind_ok (generateIdtf_run "..edge_" p)]
  change appendElement debug (edgeIdtf p.idtfCounter) _ false "" false p.next = _
  unfold appendElement
  dsimp only
  rw [if_neg hname, unnamed_ne_edgeIdtf, if_neg Bool.false_ne_true, run_bind_ok hidtf,
    run_bind_ok (hread _)]
  have hmap : p.next.idtfToParsedElement = p.idtfToParsedElement := rfl
  rw [hmap]
  cases p.idtfToParsedElement (edgeIdtf p.idtfCounter) with
  | some h => rfl
  | none =>
    dsimp only
    rw [run_bind_ok hparsed, run_bind_ok (hread _)]
    rfl

/-- A contour is no type, so its triples are recorded as they are. -/
theorem processTriple_member (debug : Bool) (contour e el : ElementHandle) (p p' : Parser)
    (d c : ParsedElement) (hd : p.element e = some d) (hreversed : d.isReversed = false)
    (hc : p.element contour = some c) (hkeynode : isKeynodeType c.idtf = false)
    (hrun : processTriple debug contour e el p = .ok ((), p')) :
    p' = { p with parsedTriples := p.parsedTriples ++ [⟨contour, e, el⟩] } := by
  have hrule : IfReturns (processTriple debug contour e el)
      (fun _ q => q = { p with parsedTriples := p.parsedTriples ++ [⟨contour, e, el⟩] }) p := by
    rw [IfReturns, processTriple, wp_bind, wp_iff_of_eq (getParsedElement_run hd), wp_bind, scAssert]
    by_cases hassert : (debug && !d.getType.isEdge) = true
    · rw [if_pos hassert]
      trivial
    · rw [if_neg hassert, wp_pure, hreversed, if_neg Bool.false_ne_true, addEdge, wp_bind,
        wp_iff_of_eq (getParsedElement_run hc), hkeynode, if_neg (fun h => Bool.false_ne_true h.2)]
      exact (wp_modify _ _ _ _).mpr rfl
  have hdone := wp_ok hrule hrun
  exact hdone

/-- What the end of a contour does for one element. -/
structure MemberAdded (contour el e : ElementHandle) (p p' : Parser) : Prop where
  valid : p'.Valid
  triples : p'.parsedTriples = p.parsedTriples ++ [⟨contour, e, el⟩]
  element : ∀ h d, p.element h = some d → p'.element h = some d
  counter : p'.idtfCounter = p.idtfCounter+1
  edge : (p'.element e).isSome
  usable : p'.isMembershipEdge e = true ↔ NameUsable p p.idtfCounter
  names : ∀ n ≠ p.idtfCounter,
    p'.idtfToParsedElement (edgeIdtf n) = p.idtfToParsedElement (edgeIdtf n)

theorem addMember_added (debug : Bool) (contour el : ElementHandle) (p p' : Parser) (hp : p.Valid)
    (c : ParsedElement) (hc : p.element contour = some c) (hkeynode : isKeynodeType c.idtf = false)
    (hrun : addMember debug contour el p = .ok ((), p')) :
    ∃ e, MemberAdded contour el e p p' := by
  have hvalid : p.next.Valid :=
    (wp_ok (keeping_generateIdtf "..edge_" p hp) (generateIdtf_run "..edge_" p)).valid
  have hconnector := processConnector_arc debug p
  unfold addMember at hrun
  cases hname : p.idtfToParsedElement (edgeIdtf p.idtfCounter) with
  | some e =>
    rw [hname] at hconnector
    rw [run_bind_ok hconnector] at hrun
    obtain ⟨d, hd, hidtf⟩ := hp.named _ e hname
    -- only the connectors that were generated before can be reversed
    have hreversed : d.isReversed = false := by
      by_contra hrev
      obtain ⟨n, hn, hnidtf⟩ := hp.reversed e d hd (Bool.not_eq_false _ ▸ hrev)
      have heq : p.idtfCounter = n := edgeIdtf_injective (hidtf.symm.trans hnidtf)
      omega
    obtain rfl := processTriple_member debug contour e el p.next p' d c hd hreversed hc hkeynode hrun
    refine ⟨e, ⟨hvalid.named, hvalid.reversed⟩, rfl, fun _ _ h => h, rfl, ?_, ?_, fun _ _ => rfl⟩
    · exact Option.isSome_iff_exists.mpr ⟨d, hd⟩
    · refine ⟨fun h x hx => ?_, fun h => h e hname⟩
      rw [hname] at hx
      obtain rfl := Option.some.inj hx
      exact h
  | none =>
    rw [hname] at hconnector
    rw [run_bind_ok hconnector] at hrun
    set e := (p.next.append (arcElement p.idtfCounter)).1
    set q := (p.next.append (arcElement p.idtfCounter)).2 with hq
    obtain ⟨htriples, hcounter, _, _, hmap⟩ := append_fields p.next (arcElement p.idtfCounter)
    have hkept := Kept.append hvalid (arcElement p.idtfCounter) nofun
    have hold (x : ElementHandle) (d : ParsedElement) (hx : p.element x = some d) :
        q.element x = some d := by
      rw [hq, element_append, if_neg (append_fresh p.next _ x d hx)]
      exact hx
    have hnew : q.element e = some (arcElement p.idtfCounter) := by
      rw [hq, element_append, if_pos rfl]
    obtain rfl := processTriple_member debug contour e el q p' _ c hnew rfl (hold _ c hc) hkeynode
      hrun
    refine ⟨e, ⟨hkept.valid.named, hkept.valid.reversed⟩, ?_, hold, hcounter, ?_, ?_, fun n hn => ?_⟩
    · exact congrArg (· ++ _) htriples
    · exact Option.isSome_iff_exists.mpr ⟨_, hnew⟩
    · refine iff_of_true ?_ (fun x hx => ?_)
      · unfold Parser.isMembershipEdge
        change (q.element e).any _ = true
        rw [hnew]
        exact decide_eq_true (arcElement_getType p.idtfCounter)
      · rw [hname] at hx
        cases hx
    · change q.idtfToParsedElement (edgeIdtf n) = _
      have hne : edgeIdtf n ≠ (arcElement p.idtfCounter).idtf := fun h => hn (edgeIdtf_injective h)
      rw [hmap, Function.update_of_ne hne]
      rfl

theorem MemberAdded.isMembershipEdge {contour el e : ElementHandle} {p p' : Parser}
    (h : MemberAdded contour el e p p') (x : ElementHandle) (hx : (p.element x).isSome) :
    p'.isMembershipEdge x = p.isMembershipEdge x := by
  obtain ⟨d, hd⟩ := Option.isSome_iff_exists.mp hx
  rw [Parser.isMembershipEdge, Parser.isMembershipEdge, hd, h.element x d hd]

/-- The names of the connectors to come mean what they meant. -/
theorem MemberAdded.nameUsable {contour el e : ElementHandle} {p p' : Parser} (hp : p.Valid)
    (h : MemberAdded contour el e p p') (n : ℕ) (hn : n ≠ p.idtfCounter) :
    NameUsable p' n ↔ NameUsable p n := by
  unfold NameUsable
  rw [h.names n hn]
  refine forall₂_congr (fun x hx => ?_)
  obtain ⟨d, hd, _⟩ := hp.named _ x hx
  rw [h.isMembershipEdge x (Option.isSome_iff_exists.mpr ⟨d, hd⟩)]

/-- What the end of a contour does for a list of elements. -/
structure MembersAdded (contour : ElementHandle) (members : List (ElementHandle × ElementHandle))
    (p p' : Parser) : Prop where
  triples : p'.parsedTriples = p.parsedTriples ++ memberTriples contour members
  element : ∀ h d, p.element h = some d → p'.element h = some d
  usable : (∀ m ∈ members, p'.isMembershipEdge m.1 = true) ↔
    ∀ k < members.length, NameUsable p (p.idtfCounter+k)

theorem addMembers_added (debug : Bool) (contour : ElementHandle) (els : List ElementHandle)
    (p p' : Parser) (hp : p.Valid) (c : ParsedElement) (hc : p.element contour = some c)
    (hkeynode : isKeynodeType c.idtf = false)
    (hrun : addMembers debug contour els p = .ok ((), p')) :
    ∃ members, members.map Prod.snd = els ∧ MembersAdded contour members p p' := by
  induction els generalizing p with
  | nil =>
    obtain rfl : p = p' := congrArg Prod.snd (Except.ok.inj hrun)
    refine ⟨[], rfl, (List.append_nil _).symm, fun _ _ h => h, ?_⟩
    simp
  | cons el els ih =>
    obtain ⟨⟨_, q⟩, hadd, hrest⟩ := bind_ok hrun
    obtain ⟨e, hadded⟩ := addMember_added debug contour el p q hp c hc hkeynode hadd
    obtain ⟨members, rfl, hmembers⟩ := ih q hadded.valid (hadded.element contour c hc) hrest
    refine ⟨(e, el) :: members, rfl, ?_, fun h d hd => hmembers.element h d (hadded.element h d hd),
      ?_⟩
    · rw [hmembers.triples, hadded.triples, List.append_assoc]
      rfl
    · have hfirst : p'.isMembershipEdge e = true ↔ NameUsable p (p.idtfCounter+0) := by
        obtain ⟨d, hd⟩ := Option.isSome_iff_exists.mp hadded.edge
        have hlater : p'.isMembershipEdge e = q.isMembershipEdge e := by
          rw [Parser.isMembershipEdge, Parser.isMembershipEdge, hd, hmembers.element e d hd]
        rw [hlater]
        exact hadded.usable
      have hothers (k : ℕ) :
          NameUsable q (q.idtfCounter+k) ↔ NameUsable p (p.idtfCounter+(k+1)) := by
        have hnumber : q.idtfCounter+k = p.idtfCounter+(k+1) := by
          rw [hadded.counter]
          omega
        rw [hnumber, hadded.nameUsable hp _ (by omega)]
      rw [List.forall_mem_cons, hmembers.usable, hfirst, List.length_cons]
      simp only [hothers]
      exact (Nat.forall_lt_succ_left (p := fun k => NameUsable p (p.idtfCounter+k))).symm

/-- The number of elements that the end of a contour adds to it. -/
theorem ncard_enclosed (pb p : Parser) :
    {el | Enclosed pb p el}.ncard = (newElements p pb.sizes pb.parsedTriples.length).length := by
  have hset : {el | Enclosed pb p el} =
      ↑(newElements p pb.sizes pb.parsedTriples.length).toFinset := by
    ext el
    rw [Set.mem_ofPred_eq, List.coe_toFinset, Set.mem_ofPred_eq, mem_newElements]
  rw [hset, Set.ncard_coe_finset, List.toFinset_card_of_nodup (newElements_nodup _ _ _)]

/-- The name of a contour is not that of a type. -/
theorem contourIdtf_not_keynode (n : ℕ) : isKeynodeType (contourIdtf n) = false := by
  have hstart : ∀ e ∈ keynodeToType, e.1.toList.head? = some 's' := by decide
  by_contra hkeynode
  have hmem := hstart _ (keynodeType_mem (contourIdtf n) (Bool.not_eq_false _ ▸ hkeynode))
  simp [contourIdtf, String.toList_append] at hmem

/-- The triples that were added decide whether the contour is exact. -/
theorem contourExact_iff (contour : ElementHandle) (pb p p' : Parser)
    (members : List (ElementHandle × ElementHandle))
    (hmembers : members.map Prod.snd = newElements p pb.sizes pb.parsedTriples.length)
    (htriples : p'.parsedTriples = p.parsedTriples ++ memberTriples contour members)
    (hcontour : (pb.element contour).isSome) :
    ContourExact contour pb p p' ↔ ∀ m ∈ members, p'.isMembershipEdge m.1 = true := by
  have hadded : p'.parsedTriples.drop p.parsedTriples.length = memberTriples contour members := by
    rw [htriples, List.drop_left]
  have hmem (el : ElementHandle) : el ∈ members.map Prod.snd ↔ Enclosed pb p el := by
    rw [hmembers]
    exact mem_newElements pb p el
  have hnodup : (members.map Prod.snd).Nodup := by
    rw [hmembers]
    exact newElements_nodup _ _ _
  have hothers (el : ElementHandle) (hel : ¬ Enclosed pb p el) :
      (p'.parsedTriples.drop p.parsedTriples.length).countP (p'.isMembership contour el) = 0 := by
    have hle := countP_memberTriples_le p' contour el members
    rw [List.count_eq_zero.mpr (fun h => hel ((hmem el).mp h))] at hle
    rw [hadded]
    exact Nat.le_zero.mp hle
  rw [← memberTriples_exact p' contour members hnodup]
  constructor
  · intro hexact el hel
    rw [← hadded]
    exact hexact.enclosed el ((hmem el).mp hel)
  · intro honce
    refine ⟨⟨_, htriples.symm⟩, fun el hel => ?_, hothers, fun hnot => hothers contour ?_⟩
    · rw [hadded]
      exact honce el ((hmem el).mpr hel)
    · rintro (⟨_, hnew⟩ | hin)
      · rw [hnew] at hcontour
        cases hcontour
      · exact hnot hin

/-- A contour gets one membership of each element that it encloses, and no other, if and only if
no name that its memberships are given leads to another kind of element. -/
theorem contour_exact_iff (debug : Bool) (pre body : List ParserEvent) (h : ElementHandle)
    (p pb p1 p2 : Parser) (hpre : Run (ParserStep debug) Parser.new pre p)
    (hbegin : ParserStep debug p (.contourBegin h) pb)
    (hbody : Run (ParserStep debug) pb body p1) (hnested : Nested body)
    (hend : ParserStep debug p1 (.contourEnd h) p2) :
    ContourExact h pb p1 p2 ↔
      ∀ k < {el | Enclosed pb p1 el}.ncard, NameUsable p1 (p1.idtfCounter+k) := by
  have hp : p.Valid := run_invariant Parser.Valid (step_valid debug) pre Parser.new p valid_new hpre
  obtain ⟨q, rfl, hkept, el, n, hel, hidtf⟩ := step_contourBegin hp hbegin
  have hinside := nested_kept debug body hnested q.enter p1 (valid_enter hkept.valid) hbody
  obtain ⟨c, hc, hcidtf⟩ := hinside.grown.element h el hel
  have hkeynode : isKeynodeType c.idtf = false := by
    rw [hcidtf, hidtf]
    exact contourIdtf_not_keynode n
  have hrun := step_contourEnd hend
  rw [processContourEnd_rule debug h p1 _ _ _ _ hinside.elementsStack hinside.triplesStack] at hrun
  obtain ⟨members, hmembers, hadded⟩ := addMembers_added debug h _
    (p1.withStacks q.contourElementsStack q.contourTriplesStack) p2
    (valid_withStacks hinside.valid _ _) c hc hkeynode hrun
  have hcontour : (q.enter.element h).isSome := Option.isSome_iff_exists.mpr ⟨el, hel⟩
  rw [contourExact_iff h q.enter p1 p2 members hmembers hadded.triples hcontour, hadded.usable,
    ncard_enclosed]
  have hlength : members.length =
      (newElements p1 q.enter.sizes q.enter.parsedTriples.length).length := by
    rw [← List.length_map (f := Prod.snd), hmembers]
    rfl
  rw [hlength]
  exact Iff.rfl

/-- Every call returns with the handle of its event. -/
def callsReturn (debug : Bool) : List ParserEvent → Parser → Bool
  | [], _ => true
  | ev :: evs, p =>
    match ev.call debug p with
    | .ok (r, p') => r = ev.result && callsReturn debug evs p'
    | .error _ => false

/-- The state after the calls that return. -/
def afterCalls (debug : Bool) : List ParserEvent → Parser → Parser
  | [], p => p
  | ev :: evs, p =>
    match ev.call debug p with
    | .ok (_, p') => afterCalls debug evs p'
    | .error _ => p

theorem run_afterCalls (debug : Bool) (evs : List ParserEvent) (p : Parser)
    (h : callsReturn debug evs p = true) :
    Run (ParserStep debug) p evs (afterCalls debug evs p) := by
  induction evs generalizing p with
  | nil => rfl
  | cons ev evs ih =>
    rw [callsReturn] at h
    rw [afterCalls]
    cases hcall : ev.call debug p with
    | error e =>
      rw [hcall] at h
      cases h
    | ok a =>
      obtain ⟨r, p'⟩ := a
      rw [hcall] at h
      obtain ⟨hresult, hrest⟩ := Bool.and_eq_true_iff.mp h
      obtain rfl := of_decide_eq_true hresult
      exact ⟨p', hcall, ih p' hrest⟩

theorem step_afterCalls (debug : Bool) (ev : ParserEvent) (p : Parser)
    (h : callsReturn debug [ev] p = true) : ParserStep debug p ev (afterCalls debug [ev] p) := by
  obtain ⟨p', hstep, rfl⟩ := run_afterCalls debug [ev] p h
  exact hstep

/-- The calls for the text `@c = [* @x = d;; *];;`. -/
theorem contour_exact_node :
    let pb := afterCalls true [.contourBegin ⟨0, true⟩] Parser.new
    let p1 := afterCalls true [.identifier "d" ⟨0, false⟩, .assign "@x" ⟨0, false⟩] pb
    let p2 := afterCalls true [.contourEnd ⟨0, true⟩] p1
    ContourExact ⟨0, true⟩ pb p1 p2 ↔
      ∀ k < {el | Enclosed pb p1 el}.ncard, NameUsable p1 (p1.idtfCounter+k) :=
  contour_exact_iff true [] [.identifier "d" ⟨0, false⟩, .assign "@x" ⟨0, false⟩] ⟨0, true⟩
    Parser.new _ _ _ rfl
    (step_afterCalls true _ _ (by decide +kernel))
    (run_afterCalls true _ _ (by decide +kernel))
    (.call _ _ nofun nofun (.call _ _ nofun nofun .nil))
    (step_afterCalls true _ _ (by decide +kernel))

def takenName : List ParserEvent :=
  [.identifierLevel1 "sc_node" "a" ⟨0, false⟩,
    .identifierLevel1 "sc_edge_dcommon" "..edge_1" ⟨0, true⟩,
    .identifierLevel1 "sc_node" "b" ⟨1, false⟩,
    .triple ⟨0, false⟩ ⟨0, true⟩ ⟨1, false⟩]

/-- The calls for the text `sc_node#a | sc_edge_dcommon#..edge_1 | sc_node#b;; @c = [* @x = d;; *];;`:
the edge from `a` to `b` becomes the edge of the membership. -/
theorem taken_name_is_no_membership :
    let p := afterCalls true takenName Parser.new
    let pb := afterCalls true [.contourBegin ⟨1, true⟩] p
    let p1 := afterCalls true [.identifier "d" ⟨2, false⟩, .assign "@x" ⟨2, false⟩] pb
    let p2 := afterCalls true [.contourEnd ⟨1, true⟩] p1
    Run (ParserStep true) Parser.new takenName p ∧
      ParserStep true p (.contourBegin ⟨1, true⟩) pb ∧
      Run (ParserStep true) pb [.identifier "d" ⟨2, false⟩, .assign "@x" ⟨2, false⟩] p1 ∧
      ParserStep true p1 (.contourEnd ⟨1, true⟩) p2 ∧
      p2.parsedTriples =
        [⟨⟨0, false⟩, ⟨0, true⟩, ⟨1, false⟩⟩, ⟨⟨1, true⟩, ⟨0, true⟩, ⟨2, false⟩⟩] ∧
      ¬ ContourExact ⟨1, true⟩ pb p1 p2 := by
  intro p pb p1 p2
  refine ⟨run_afterCalls true _ _ (by decide +kernel), step_afterCalls true _ _ (by decide +kernel),
    run_afterCalls true _ _ (by decide +kernel), step_afterCalls true _ _ (by decide +kernel),
    by decide +kernel, fun hexact => ?_⟩
  have hnew : Enclosed pb p1 ⟨2, false⟩ := Or.inl (by decide +kernel)
  have hnone : (p2.parsedTriples.drop p1.parsedTriples.length).countP
      (p2.isMembership ⟨1, true⟩ ⟨2, false⟩) = 0 := by decide +kernel
  have honce := hexact.enclosed _ hnew
  rw [hnone] at honce
  cases honce

end ScMachine.Scs
