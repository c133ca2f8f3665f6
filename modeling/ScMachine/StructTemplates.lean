import ScMachine.ScTemplateStructBuilder
import ScMachine.SearchAnchors
import ScMachine.TripleNames

/-! A template that is built from a structure has one item for each element when the arcs come after
the arcs that they join. The sorting puts all arcs on arcs into one class. -/
namespace ScMachine.Template
open ScMachine.Store ScMachine.StateExcept ScMachine.Runs

theorem hash_injective : Function.Injective ScAddr.hash := by
  intro a b h
  have hbit (i : ℕ) (hi : i < 32) :
      (a.seg ++ a.offset).getLsbD i = (b.seg ++ b.offset).getLsbD i := by
    have hb := congrArg (fun x : BitVec 64 => x.getLsbD i) h
    have h64 : i < 64 := by omega
    have hs (x : BitVec 32) : (x.signExtend 64).getLsbD i = x.getLsbD i := by
      rw [BitVec.getLsbD_signExtend, decide_eq_true h64, if_pos hi, Bool.true_and]
    exact (hs _).symm.trans (hb.trans (hs _))
  have hoffset : a.offset = b.offset := by
    apply BitVec.eq_of_getLsbD_eq
    intro i hi
    have hb := hbit i (by omega)
    rwa [BitVec.getLsbD_append, BitVec.getLsbD_append, if_pos hi, if_pos hi] at hb
  have hseg : a.seg = b.seg := by
    apply BitVec.eq_of_getLsbD_eq
    intro i hi
    have hb := hbit (i+16) (by omega)
    rwa [BitVec.getLsbD_append, BitVec.getLsbD_append, if_neg (by omega), if_neg (by omega),
      Nat.add_sub_cancel] at hb
  cases a
  cases b
  simp only [ScAddr.mk.injEq]
  exact ⟨hseg, hoffset⟩

theorem hash_beq {a b : ScAddr} : (a.hash == b.hash) = true ↔ a = b := by
  rw [beq_iff_eq]
  exact hash_injective.eq_iff

theorem hash_zero {a : ScAddr} (h : a.hash = 0) : a = ScAddr.empty := by
  apply hash_injective
  rw [h]
  decide

theorem toString_injective : Function.Injective ScAddr.toString := by
  intro a b h
  unfold ScAddr.toString at h
  have hrepr : Nat.repr a.hash.toNat = Nat.repr b.hash.toNat := String.append_right_inj _ |>.mp h
  exact hash_injective (BitVec.eq_of_toNat_eq (Nat.repr_inj.mp hrepr))

/-- An arc that starts or ends at an arc. -/
def depends (t : Triple ObjectInfo) : Bool := t.source.type.isEdge || t.target.type.isEdge

section
variable {t u : Triple ObjectInfo} {l : List (Triple ObjectInfo)}

theorem mem_edgeDepends {p : BitVec 64 × BitVec 64} :
    p ∈ edgeDepends t ↔ depends t = true ∧ p = (t.edge.addr.hash, t.source.addr.hash) := by
  unfold edgeDepends depends
  cases t.source.type.isEdge <;> cases t.target.type.isEdge <;> simp

/-- Every entry of the map is an address, so an arc depends on any other if it has an entry. -/
theorem isEdgeDependOnOther_eq (hedges : ∀ t ∈ l, ∀ u ∈ l, t.edge.addr = u.edge.addr → t = u)
    (haddr : ∀ t ∈ l, t.source.addr ≠ ScAddr.empty) (ht : t ∈ l) (depth : ℕ) (h : BitVec 64) :
    isEdgeDependOnOther (l.flatMap edgeDepends) (depth+1) t.edge.addr.hash h = depends t := by
  unfold isEdgeDependOnOther
  rw [Bool.eq_iff_iff, List.any_eq_true]
  constructor
  · rintro ⟨p, hp, hkey⟩
    obtain ⟨u, hu, hpu⟩ := List.mem_flatMap.mp hp
    obtain ⟨hdep, rfl⟩ := mem_edgeDepends.mp hpu
    rw [Bool.and_eq_true] at hkey
    rw [hedges t ht u hu (hash_beq.mp hkey.1).symm]
    exact hdep
  · intro hdep
    refine ⟨_, List.mem_flatMap.mpr ⟨t, ht, mem_edgeDepends.mpr ⟨hdep, rfl⟩⟩, ?_⟩
    have hne : t.source.addr.hash ≠ 0 := fun h0 => haddr t ht (hash_zero h0)
    simpa using Or.inl hne

theorem edgeLess_eq {dependMap : List (BitVec 64 × BitVec 64)} {b b' : Bool}
    (ht : isEdgeDependOnOther dependMap (dependMap.length+1) t.edge.addr.hash u.edge.addr.hash = b)
    (hu : isEdgeDependOnOther dependMap (dependMap.length+1) u.edge.addr.hash t.edge.addr.hash = b') :
    edgeLess dependMap t u = true ↔ b = false ∧ (b' = true ∨
      calculateEdgeRank u < calculateEdgeRank t ∨ calculateEdgeRank u = calculateEdgeRank t ∧
        t.edge.addr.hash < u.edge.addr.hash) := by
  unfold edgeLess
  simp only [ht, hu]
  cases b with
  | true => simp
  | false =>
    cases b' with
    | true => simp
    | false =>
      by_cases hrank : calculateEdgeRank t = calculateEdgeRank u
      · simp [hrank]
      · have hrank' : ¬ calculateEdgeRank u = calculateEdgeRank t := fun h => hrank h.symm
        simp [hrank, hrank']

/-- The comparison, when every arc has its own address. -/
theorem edgeLess_iff (hedges : ∀ t ∈ l, ∀ u ∈ l, t.edge.addr = u.edge.addr → t = u)
    (haddr : ∀ t ∈ l, t.source.addr ≠ ScAddr.empty) (ht : t ∈ l) (hu : u ∈ l) :
    edgeLess (l.flatMap edgeDepends) t u = true ↔ depends t = false ∧ (depends u = true ∨
      calculateEdgeRank u < calculateEdgeRank t ∨ calculateEdgeRank u = calculateEdgeRank t ∧
        t.edge.addr.hash < u.edge.addr.hash) :=
  edgeLess_eq (isEdgeDependOnOther_eq hedges haddr ht _ _) (isEdgeDependOnOther_eq hedges haddr hu _ _)

/-- What an arc is compared with does not matter for its dependence. -/
theorem isEdgeDependOnOther_other (dependMap : List (BitVec 64 × BitVec 64)) (depth : ℕ)
    (e h h' : BitVec 64) :
    isEdgeDependOnOther dependMap depth e h = isEdgeDependOnOther dependMap depth e h' := by
  induction depth generalizing e with
  | zero => rfl
  | succ depth ih =>
    unfold isEdgeDependOnOther
    apply congrArg (fun f => dependMap.any f)
    funext p
    exact congrArg (fun x => p.1 == e && (p.2 != 0 || x)) (ih p.2)

/-- The functor compares by a key: first no dependence, then the rank, then the address. -/
theorem edgeLess_strictWeak (dependMap : List (BitVec 64 × BitVec 64)) :
    StrictWeak (edgeLess dependMap) := by
  have hless (a b : Triple ObjectInfo) := @edgeLess_eq a b dependMap _ _
    (isEdgeDependOnOther_other dependMap _ a.edge.addr.hash _ 0)
    (isEdgeDependOnOther_other dependMap _ b.edge.addr.hash _ 0)
  refine ⟨?_, ?_⟩
  · intro a b hab
    rw [hless] at hab
    by_contra hba
    rw [Bool.not_eq_false, hless] at hba
    obtain ⟨ha, hab⟩ := hab
    obtain ⟨hb, hba⟩ := hba
    simp only [ha, hb, Bool.false_eq_true, false_or, BitVec.lt_def] at hab hba
    omega
  · intro a b c hac
    rw [hless] at hac
    rw [hless, hless]
    obtain ⟨ha, hac⟩ := hac
    by_cases hb : isEdgeDependOnOther dependMap (dependMap.length+1) b.edge.addr.hash 0 = true
    · exact Or.inl ⟨ha, Or.inl hb⟩
    · rw [Bool.not_eq_true] at hb
      rcases hac with hc | hac
      · exact Or.inr ⟨hb, Or.inl hc⟩
      · simp only [ha, hb, true_and, Bool.false_eq_true, false_or, BitVec.lt_def] at hac ⊢
        omega

end

/-- The system identifiers tell the elements apart, and none of them looks like a generated one or like
the printed address of an element. -/
structure IdtfsDistinct (systemIdtf : ScAddr → String) (elements : List ScAddr) : Prop where
  unique : ∀ a ∈ elements, ∀ b ∈ elements, systemIdtf a ≠ "" → systemIdtf a = systemIdtf b → a = b
  notGenerated : ∀ a ∈ elements, ∀ k, systemIdtf a ≠ "..obj_" ++ Nat.repr k
  notAddr : ∀ a ∈ elements, ∀ b ∈ elements, systemIdtf a ≠ b.toString

/-- What the loop over the elements has collected. -/
structure Collected (c : Cells) (ctx : ScContext) (systemIdtf : ScAddr → String)
    (elements : List ScAddr) (objects : List ObjectInfo) (index : ℕ) : Prop where
  mem : ∀ o ∈ objects, o.addr ∈ elements
  addrs : (objects.map ObjectInfo.addr).Nodup
  types : ∀ o ∈ objects, o.type = getElementType c ctx o.addr
  idtfs : (objects.map ObjectInfo.sysIdtf).Nodup
  origin : ∀ o ∈ objects, o.sysIdtf ≠ "" ∧ o.sysIdtf = systemIdtf o.addr ∨
    ∃ k < index, o.sysIdtf = "..obj_" ++ Nat.repr k

section
variable {c : Cells} {ctx : ScContext} {systemIdtf : ScAddr → String} {elements rest : List ScAddr}
  {objects : List ObjectInfo} {index : ℕ} {a : ScAddr} {o p : ObjectInfo} {struct : ScAddr}

theorem collected_nil : Collected c ctx systemIdtf elements [] 0 :=
  ⟨by simp, List.nodup_nil, by simp, List.nodup_nil, by simp⟩

theorem Collected.push (h : Collected c ctx systemIdtf elements objects index) (ha : a ∈ elements)
    (hnew : ∀ o ∈ objects, o.addr ≠ a) {name : String} {index' : ℕ} (hle : index ≤ index')
    (hname : ∀ o ∈ objects, o.sysIdtf ≠ name)
    (horigin : name ≠ "" ∧ name = systemIdtf a ∨ ∃ k < index', name = "..obj_" ++ Nat.repr k) :
    Collected c ctx systemIdtf elements (objects ++ [⟨a, getElementType c ctx a, name⟩]) index' := by
  have hcases (P : ObjectInfo → Prop) (hold : ∀ o ∈ objects, P o)
      (hv : P ⟨a, getElementType c ctx a, name⟩) (o : ObjectInfo)
      (ho : o ∈ objects ++ [⟨a, getElementType c ctx a, name⟩]) : P o := by
    rcases List.mem_append.mp ho with ho | ho
    · exact hold o ho
    · rw [List.mem_singleton.mp ho]
      exact hv
  refine ⟨hcases _ h.mem ha, ?_, hcases _ h.types rfl, ?_, hcases _ ?_ horigin⟩
  · rw [List.map_append]
    apply h.addrs.append (List.nodup_singleton a)
    intro b hb hb'
    obtain ⟨o, ho, rfl⟩ := List.mem_map.mp hb
    exact hnew o ho (List.mem_singleton.mp hb')
  · rw [List.map_append]
    apply h.idtfs.append (List.nodup_singleton name)
    intro b hb hb'
    obtain ⟨o, ho, rfl⟩ := List.mem_map.mp hb
    exact hname o ho (List.mem_singleton.mp hb')
  · intro o ho
    refine (h.origin o ho).imp_right ?_
    rintro ⟨k, hk, he⟩
    exact ⟨k, lt_of_lt_of_le hk hle, he⟩

/-- Readable elements are collected once each. -/
theorem Collected.run (hid : IdtfsDistinct systemIdtf elements)
    (h : Collected c ctx systemIdtf elements objects index) (hrest : rest ⊆ elements)
    (hread : ∀ a ∈ rest, getElementType c ctx a ≠ 0) :
    ∃ objects' index', collectObjects c ctx systemIdtf rest objects index = .ok objects' ∧
      Collected c ctx systemIdtf elements objects' index' ∧
      ∀ a, a ∈ objects'.map ObjectInfo.addr ↔ a ∈ objects.map ObjectInfo.addr ∨ a ∈ rest := by
  induction rest generalizing objects index with
  | nil => exact ⟨objects, index, rfl, h, by simp⟩
  | cons a rest ih =>
    have ha : a ∈ elements := hrest List.mem_cons_self
    have hrest' : rest ⊆ elements := fun b hb => hrest (List.mem_cons_of_mem a hb)
    have hread' : ∀ b ∈ rest, getElementType c ctx b ≠ 0 :=
      fun b hb => hread b (List.mem_cons_of_mem a hb)
    unfold collectObjects
    by_cases hin : objects.any (fun o => o.addr.hash == a.hash) = true
    · rw [if_pos hin]
      obtain ⟨objects', index', hok, hcol, hmem⟩ := ih h hrest' hread'
      refine ⟨objects', index', hok, hcol, ?_⟩
      obtain ⟨o, ho, hoa⟩ := List.any_eq_true.mp hin
      have hold : a ∈ objects.map ObjectInfo.addr :=
        List.mem_map.mpr ⟨o, ho, hash_beq.mp hoa⟩
      intro b
      rw [hmem, List.mem_cons]
      constructor
      · rintro (hb | hb)
        · exact Or.inl hb
        · exact Or.inr (Or.inr hb)
      · rintro (hb | rfl | hb)
        · exact Or.inl hb
        · exact Or.inl hold
        · exact Or.inr hb
    · have hnew : ∀ o ∈ objects, o.addr ≠ a := by
        intro o ho he
        exact hin (List.any_eq_true.mpr ⟨o, ho, hash_beq.mpr he⟩)
      have hgo (name : String) (index1 : ℕ)
          (hcol : Collected c ctx systemIdtf elements
            (objects ++ [⟨a, getElementType c ctx a, name⟩]) index1) :
          ∃ objects' index', collectObjects c ctx systemIdtf rest
              (objects ++ [⟨a, getElementType c ctx a, name⟩]) index1 = .ok objects' ∧
            Collected c ctx systemIdtf elements objects' index' ∧
            ∀ b, b ∈ objects'.map ObjectInfo.addr ↔ b ∈ objects.map ObjectInfo.addr ∨ b ∈ a :: rest := by
        obtain ⟨objects', index', hok, hcol', hmem⟩ := ih hcol hrest' hread'
        refine ⟨objects', index', hok, hcol', ?_⟩
        intro b
        rw [hmem, List.map_append, List.mem_append, List.mem_cons, or_assoc]
        simp
      rw [if_neg hin]
      dsimp only
      rw [if_neg (hread a List.mem_cons_self)]
      by_cases hempty : systemIdtf a = ""
      · rw [if_pos hempty]
        apply hgo
        apply h.push ha hnew (Nat.le_succ index) _ (Or.inr ⟨index, Nat.lt_succ_self index, rfl⟩)
        intro o ho he
        rcases h.origin o ho with ⟨_, hsys⟩ | ⟨k, hk, hgen⟩
        · exact hid.notGenerated o.addr (h.mem o ho) index (hsys.symm.trans he)
        · -- the numbers go up
          have hrepr := (String.append_right_inj _).mp (hgen.symm.trans he)
          exact absurd (Nat.repr_inj.mp hrepr) (Nat.ne_of_lt hk)
      · rw [if_neg hempty]
        apply hgo
        apply h.push ha hnew (le_refl index) _ (Or.inl ⟨hempty, rfl⟩)
        intro o ho he
        rcases h.origin o ho with ⟨_, hsys⟩ | ⟨k, _, hgen⟩
        · have hsame := hid.unique a ha o.addr (h.mem o ho) hempty (he.symm.trans hsys)
          exact hnew o ho hsame.symm
        · exact hid.notGenerated a ha k (he.symm.trans hgen)

/-- A structure that the context can read, with variable arcs whose ends belong to it. -/
structure VarStructure (c : Cells) (ctx : ScContext) (elements : List ScAddr) : Prop where
  readable : ∀ a ∈ elements, getElementType c ctx a ≠ 0
  vars : ∀ a ∈ elements, (getElementType c ctx a).isEdge = true →
    (getElementType c ctx a).isVar = true ∧ (getElementType c ctx a).isConst = false
  closed : ∀ a ∈ elements, (getElementType c ctx a).isEdge = true → ∀ d, ownerOf c d a ∈ elements

/-- The objects at the places of an arc. -/
structure EndsOf (c : Cells) (objects : List ObjectInfo) (t : Triple ObjectInfo) : Prop where
  mem : ∀ o ∈ t.toList, o ∈ objects
  isEdge : t.edge.type.isEdge = true
  source : t.source.addr = ownerOf c .out t.edge.addr
  target : t.target.addr = ownerOf c .inp t.edge.addr

/-- The objects of the structure and its arcs, in some order. -/
structure Listed (c : Cells) (ctx : ScContext) (systemIdtf : ScAddr → String)
    (elements : List ScAddr) (objects : List ObjectInfo) (l : List (Triple ObjectInfo)) : Prop where
  collected : ∃ index, Collected c ctx systemIdtf elements objects index
  all : ∀ a ∈ elements, ∃ o ∈ objects, o.addr = a
  edges : (l.map Triple.edge).Perm (objects.filter (·.type.isEdge))
  ends : ∀ t ∈ l, EndsOf c objects t

theorem getEdgeInfo_eq (h : getElementType c ctx a ≠ 0) (hedge : (getElementType c ctx a).isEdge = true) :
    getEdgeInfo c ctx a = some (ownerOf c .out a, ownerOf c .inp a) := by
  unfold getElementType at h hedge
  split_ifs at h hedge with hread
  · unfold getEdgeInfo
    rw [if_pos]
    refine ⟨hread.1, hread.2, ?_⟩
    have hmask : scFlagsRemove (c a).type &&& scTypeArcMask = (c a).type &&& scTypeArcMask := by
      unfold scFlagsRemove
      rw [BitVec.and_assoc]
      rfl
    unfold ScType.isEdge at hedge
    rw [hmask] at hedge
    exact hedge
  · exact absurd rfl h

theorem findObject_eq (hall : ∃ o ∈ objects, o.addr = a) :
    ∃ o ∈ objects, findObject objects a = some o ∧ o.addr = a := by
  obtain ⟨o, ho, hoa⟩ := hall
  unfold findObject
  cases hf : objects.find? fun o => o.addr.hash == a.hash with
  | none => exact absurd (hash_beq.mpr hoa) (List.find?_eq_none.mp hf o ho)
  | some p =>
    have hp := List.find?_some hf
    exact ⟨p, List.mem_of_find?_eq_some hf, rfl, hash_beq.mp hp⟩

/-- By induction on the arcs: the ends of all of them are found. -/
theorem resolveEnds_spec (hstruct : VarStructure c ctx elements)
    (hcol : Collected c ctx systemIdtf elements objects index)
    (hall : ∀ a ∈ elements, ∃ o ∈ objects, o.addr = a) (edges : List ObjectInfo)
    (hedges : ∀ o ∈ edges, o ∈ objects ∧ o.type.isEdge = true) :
    ∃ l, resolveEnds c ctx struct objects edges = .ok l ∧ l.map Triple.edge = edges ∧
      ∀ t ∈ l, EndsOf c objects t := by
  induction edges with
  | nil => exact ⟨[], rfl, rfl, by simp⟩
  | cons o edges ih =>
    obtain ⟨l, hl, hle, hlt⟩ := ih fun p hp => hedges p (List.mem_cons_of_mem o hp)
    obtain ⟨ho, hedge⟩ := hedges o List.mem_cons_self
    have hmem := hcol.mem o ho
    have htype := hcol.types o ho
    rw [htype] at hedge
    obtain ⟨src, hsrc, hfs, hsa⟩ := findObject_eq (hall _ (hstruct.closed _ hmem hedge .out))
    obtain ⟨trg, htrg, hft, hta⟩ := findObject_eq (hall _ (hstruct.closed _ hmem hedge .inp))
    refine ⟨⟨src, o, trg⟩ :: l, ?_, by rw [List.map_cons, hle], ?_⟩
    · unfold resolveEnds
      rw [getEdgeInfo_eq (hstruct.readable _ hmem) hedge]
      simp only [hfs, hft, hl]
      rfl
    · intro t ht
      rcases List.mem_cons.mp ht with rfl | ht
      · refine ⟨?_, htype ▸ hedge, hsa, hta⟩
        intro p hp
        simp only [Triple.toList, List.mem_cons, List.not_mem_nil, or_false] at hp
        rcases hp with rfl | rfl | rfl
        · exact hsrc
        · exact ho
        · exact htrg
      · exact hlt t ht

/-- The arcs of a readable structure are listed before they are sorted, and sorted. -/
theorem structTriples_spec (hstruct : VarStructure c ctx elements)
    (hid : IdtfsDistinct systemIdtf elements) {members : List ScAddr} (hperm : members.Perm elements) :
    ∃ objects l, Listed c ctx systemIdtf elements objects l ∧
      ∀ std : StdSort (Triple ObjectInfo), structTriples std c ctx systemIdtf struct members =
        .ok (std.sort (edgeLess (l.flatMap edgeDepends)) l) := by
  obtain ⟨objects, index, hok, hcol, hmem⟩ := collected_nil.run hid hperm.subset
    (fun a ha => hstruct.readable a (hperm.subset ha))
  have hall (a : ScAddr) (ha : a ∈ elements) : ∃ o ∈ objects, o.addr = a :=
    List.mem_map.mp ((hmem a).mpr (Or.inr (hperm.symm.subset ha)))
  obtain ⟨l, hl, hle, hlt⟩ := @resolveEnds_spec c ctx systemIdtf elements objects index struct hstruct hcol
    hall (objects.filter (·.type.isEdge)) (fun o ho => by simpa using ho)
  refine ⟨objects, l, ⟨⟨index, hcol⟩, hall, List.Perm.of_eq hle, hlt⟩, ?_⟩
  intro std
  unfold structTriples
  rw [hok]
  show (resolveEnds c ctx struct objects (objects.filter (·.type.isEdge)) >>= fun triples =>
    Except.ok (std.sort (edgeLess (triples.flatMap edgeDepends)) triples)) = _
  rw [hl]
  rfl

theorem Listed.perm {l l' : List (Triple ObjectInfo)}
    (h : Listed c ctx systemIdtf elements objects l) (hp : l'.Perm l) :
    Listed c ctx systemIdtf elements objects l' :=
  ⟨h.collected, h.all, (hp.map _).trans h.edges, fun t ht => h.ends t (hp.subset ht)⟩

end

/-- The names under which objects are entered: identifiers and printed addresses, all different. -/
structure NamesOk (objects : List ObjectInfo) : Prop where
  idtf : ∀ o ∈ objects, ∀ p ∈ objects, o.getIdtf = p.getIdtf → o = p
  notAddr : ∀ o ∈ objects, ∀ p ∈ objects, o.getIdtf ≠ p.addr.toString
  nonempty : ∀ o ∈ objects, o.getIdtf ≠ ""
  addr : ∀ o ∈ objects, ∀ p ∈ objects, o.addr = p.addr → o = p
  valid : ∀ o ∈ objects, o.addr ≠ ScAddr.empty

/-- The objects of `S` have items and are entered under their identifiers, those of `A` under their
addresses, and no other object is entered. -/
structure Entered (objects : List ObjectInfo) (S A : Set ObjectInfo) (item : ObjectInfo → ℕ)
    (d : ScTemplateData) : Prop where
  listed : ∀ o ∈ S, o ∈ objects
  idtf : ∀ o ∈ S, d.repl o.getIdtf = some (item o)
  addr : ∀ o ∈ A, o ∈ S ∧ d.repl o.addr.toString = some (item o)
  noIdtf : ∀ o ∈ objects, o ∉ S → d.repl o.getIdtf = none
  noAddr : ∀ o ∈ objects, o ∉ A → d.repl o.addr.toString = none
  range : ∀ o ∈ S, item o < d.elements.length
  inj : ∀ o ∈ S, ∀ p ∈ S, item o = item p → o = p

section
variable {objects : List ObjectInfo} {S S0 A : Set ObjectInfo} {item item0 : ObjectInfo → ℕ}
  {d d0 d' : ScTemplateData} {o p : ObjectInfo} {t : Triple ObjectInfo} {name : String}

theorem addItem_type {type : ScType} (hconst : type.isConst = false) (hname : name ≠ "")
    (hnew : d.repl name = none) : d.addItem (.ofType type name) = .ok (d.elements.length,
      ⟨Function.update d.repl name (some d.elements.length), d.elements ++ [.ofType type name],
        d.triples⟩) := by
  unfold ScTemplateData.addItem ScTemplateArg.ofType
  rw [if_neg (by rintro ⟨_, h⟩; rw [hconst] at h; cases h), if_neg (by rintro ⟨h, _⟩; cases h),
    if_neg (by rintro ⟨_, _, h⟩; rw [hnew] at h; cases h)]
  simp only [insertReplacementName, ScTemplateArg.hasReplacementName, insertName, hnew, bne_iff_ne, ne_eq,
    hname, not_false_eq_true, if_true, Option.isSome_none, Bool.false_eq_true, if_false]

theorem addItem_addr {a : ScAddr} (ha : a ≠ ScAddr.empty) (hname : name ≠ "")
    (hnew : d.repl name = none) (haddr : d.repl a.toString = none) (hne : name ≠ a.toString) :
    d.addItem (.ofAddr a name) = .ok (d.elements.length,
      ⟨Function.update (Function.update d.repl a.toString (some d.elements.length)) name
        (some d.elements.length), d.elements ++ [.ofAddr a name], d.triples⟩) := by
  unfold ScTemplateData.addItem ScTemplateArg.ofAddr
  rw [if_neg (by rintro ⟨h, _⟩; cases h), if_neg (by rintro ⟨_, h⟩; exact ha h),
    if_neg (by rintro ⟨_, _, h⟩; rw [hnew] at h; cases h)]
  simp only [haddr, insertReplacementName, ScTemplateArg.hasReplacementName, insertName, bne_iff_ne,
    ne_eq, hname, not_false_eq_true, if_true, Option.isSome_none, Bool.false_eq_true, if_false,
    Function.update_of_ne hne, hnew]

theorem addItem_addr_known {a : ScAddr} {i : ℕ} (ha : a ≠ ScAddr.empty)
    (hi : d.repl a.toString = some i) : d.addItem (.ofAddr a "") = .ok (i, d) := by
  unfold ScTemplateData.addItem ScTemplateArg.ofAddr
  rw [if_neg (by rintro ⟨h, _⟩; cases h), if_neg (by rintro ⟨_, h⟩; exact ha h),
    if_neg (by rintro ⟨_, h, _⟩; cases h)]
  simp only [hi]

theorem addItem_name {i : ℕ} (hi : d.repl name = some i) : d.addItem (.ofName name) = .ok (i, d) := by
  unfold ScTemplateData.addItem ScTemplateArg.ofName
  rw [if_neg (by rintro ⟨h, _⟩; cases h), if_neg (by rintro ⟨h, _⟩; cases h),
    if_neg (by rintro ⟨h, _⟩; exact h rfl)]
  simp only [hi]

/-- What a new object and one that is entered already are given as. -/
def freshArg (o : ObjectInfo) : ScTemplateArg :=
  if o.type.isConst then .ofAddr o.addr o.getIdtf else .ofType o.type o.getIdtf

def knownArg (o : ObjectInfo) : ScTemplateArg :=
  if o.type.isConst then .ofAddr o.addr "" else .ofName o.getIdtf

theorem Entered.endArg_known (h : Entered objects S A item d) (ho : o ∈ S) :
    endArg d o = knownArg o := by
  unfold endArg knownArg wrapIdtf ScTemplateData.hasReplacement
  rw [h.idtf o ho]
  simp

theorem Entered.endArg_fresh (h : Entered objects S A item d) (ho : o ∈ objects) (hoS : o ∉ S) :
    endArg d o = freshArg o := by
  unfold endArg freshArg wrapIdtf ScTemplateData.hasReplacement
  rw [h.noIdtf o ho hoS]
  simp

/-- A new object is entered under one name or under both. -/
theorem Entered.push (hn : NamesOk objects) (h : Entered objects S A item d) (ho : o ∈ objects)
    (hoS : o ∉ S) (both : Prop) [Decidable both]
    (hlen : d'.elements.length = d.elements.length+1)
    (hidtf : d'.repl o.getIdtf = some d.elements.length)
    (haddr : d'.repl o.addr.toString = if both then some d.elements.length else none)
    (hothers : ∀ name, name ≠ o.getIdtf → name ≠ o.addr.toString → d'.repl name = d.repl name) :
    Entered objects (insert o S) (if both then insert o A else A)
      (Function.update item o d.elements.length) d' := by
  have hitem (p : ObjectInfo) (hp : p ∈ S) :
      Function.update item o d.elements.length p = item p := by
    rw [Function.update_of_ne]
    rintro rfl
    exact hoS hp
  have hidtfs (p : ObjectInfo) (hp : p ∈ objects) (hne : p ≠ o) :
      d'.repl p.getIdtf = d.repl p.getIdtf :=
    hothers _ (fun he => hne (hn.idtf p hp o ho he)) (hn.notAddr p hp o ho)
  have haddrs (p : ObjectInfo) (hp : p ∈ objects) (hne : p ≠ o) :
      d'.repl p.addr.toString = d.repl p.addr.toString :=
    hothers _ (fun he => hn.notAddr o ho p hp he.symm)
      (fun he => hne (hn.addr p hp o ho (toString_injective he)))
  have hmem (p : ObjectInfo) (hp : p ∈ S) : p ∈ objects ∧ p ≠ o :=
    ⟨h.listed p hp, fun he => hoS (he ▸ hp)⟩
  have hsub (p : ObjectInfo) (hp : p ∈ A) : p ∈ if both then insert o A else A := by
    split_ifs
    · exact Or.inr hp
    · exact hp
  refine ⟨?_, ?_, ?_, ?_, ?_, ?_, ?_⟩
  · rintro p (rfl | hp)
    · exact ho
    · exact h.listed p hp
  · rintro p (rfl | hp)
    · rw [Function.update_self, hidtf]
    · rw [hitem p hp, hidtfs p (hmem p hp).1 (hmem p hp).2]
      exact h.idtf p hp
  · intro p hp
    by_cases he : p = o
    · subst he
      refine ⟨Or.inl rfl, ?_⟩
      rw [Function.update_self, haddr, if_pos]
      by_contra hb
      rw [if_neg hb] at hp
      exact hoS (h.addr p hp).1
    · have hpA : p ∈ A := by
        split_ifs at hp
        · exact hp.resolve_left he
        · exact hp
      obtain ⟨hpS, hpi⟩ := h.addr p hpA
      rw [hitem p hpS, haddrs p (hmem p hpS).1 he]
      exact ⟨Or.inr hpS, hpi⟩
  · intro p hp hpS
    rw [hidtfs p hp fun he => hpS (Or.inl he)]
    exact h.noIdtf p hp fun hh => hpS (Or.inr hh)
  · intro p hp hpA
    by_cases he : p = o
    · subst he
      rw [haddr, if_neg]
      intro hb
      rw [if_pos hb] at hpA
      exact hpA (Or.inl rfl)
    · rw [haddrs p hp he]
      exact h.noAddr p hp fun hh => hpA (hsub p hh)
  · rw [hlen]
    rintro p (rfl | hp)
    · rw [Function.update_self]
      exact Nat.lt_succ_self _
    · rw [hitem p hp]
      exact Nat.lt_succ_of_lt (h.range p hp)
  · rintro p (rfl | hp) q (rfl | hq) he
    · rfl
    · rw [Function.update_self, hitem q hq] at he
      exact absurd he.symm (Nat.ne_of_lt (h.range q hq))
    · rw [Function.update_self, hitem p hp] at he
      exact absurd he (Nat.ne_of_lt (h.range p hp))
    · rw [hitem p hp, hitem q hq] at he
      exact h.inj p hp q hq he

/-- What an item of a triple is entered as: the objects of `S0` had items before the triple. -/
structure ItemAdded (objects : List ObjectInfo) (S A : Set ObjectInfo) (item : ObjectInfo → ℕ)
    (d : ScTemplateData) (o : ObjectInfo) (A' : Set ObjectInfo) (item' : ObjectInfo → ℕ)
    (d' : ScTemplateData) : Prop where
  entered : Entered objects (insert o S) A' item' d'
  addrs : A ⊆ A'
  keeps : ∀ p ∈ S, item' p = item p
  triples : d'.triples = d.triples

theorem Entered.addItem_fresh (hn : NamesOk objects) (h : Entered objects S A item d)
    (ho : o ∈ objects) (hoS : o ∉ S) :
    ∃ A' item' d', d.addItem (freshArg o) = .ok (item' o, d') ∧
      ItemAdded objects S A item d o A' item' d' := by
  have hkeeps (p : ObjectInfo) (hp : p ∈ S) :
      Function.update item o d.elements.length p = item p := by
    rw [Function.update_of_ne]
    rintro rfl
    exact hoS hp
  have hne := hn.notAddr o ho o ho
  have hidtf := h.noIdtf o ho hoS
  have haddr := h.noAddr o ho fun hh => hoS (h.addr o hh).1
  have hself : Function.update item o d.elements.length o = d.elements.length :=
    Function.update_self _ _ _
  unfold freshArg
  by_cases hconst : o.type.isConst = true
  · rw [if_pos hconst, addItem_addr (hn.valid o ho) (hn.nonempty o ho) hidtf haddr hne]
    have hpush : Entered objects (insert o S) (if True then insert o A else A)
        (Function.update item o d.elements.length)
        ⟨Function.update (Function.update d.repl o.addr.toString (some d.elements.length)) o.getIdtf
          (some d.elements.length), d.elements ++ [.ofAddr o.addr o.getIdtf], d.triples⟩ :=
      h.push hn ho hoS True List.length_append (Function.update_self _ _ _)
      ((Function.update_of_ne hne.symm _ _).trans (Function.update_self _ _ _))
      (fun name h1 h2 => (Function.update_of_ne h1 _ _).trans (Function.update_of_ne h2 _ _))
    exact ⟨_, _, _, by rw [hself], hpush, Set.subset_insert o A, hkeeps, rfl⟩
  · rw [if_neg hconst, addItem_type (by simpa using hconst) (hn.nonempty o ho) hidtf]
    have hpush : Entered objects (insert o S) (if False then insert o A else A)
        (Function.update item o d.elements.length)
        ⟨Function.update d.repl o.getIdtf (some d.elements.length),
          d.elements ++ [.ofType o.type o.getIdtf], d.triples⟩ :=
      h.push hn ho hoS False List.length_append (Function.update_self _ _ _)
      ((Function.update_of_ne hne.symm _ _).trans haddr)
      (fun name h1 _ => Function.update_of_ne h1 _ _)
    exact ⟨_, _, _, by rw [hself], hpush, le_refl A, hkeeps, rfl⟩

theorem Entered.addItem_known (hn : NamesOk objects) (h : Entered objects S A item d)
    (ho : o ∈ A) :
    ∃ A' item' d', d.addItem (knownArg o) = .ok (item' o, d') ∧
      ItemAdded objects S A item d o A' item' d' := by
  obtain ⟨hoS, haddr⟩ := h.addr o ho
  refine ⟨A, item, d, ?_, ?_, le_refl A, fun _ _ => rfl, rfl⟩
  · unfold knownArg
    split_ifs
    · exact addItem_addr_known (hn.valid o (h.listed o hoS)) haddr
    · exact addItem_name (h.idtf o hoS)
  · rw [Set.insert_eq_of_mem hoS]
    exact h

/-- An end that was entered before the triple, or that the triple has not entered yet. -/
theorem Entered.addEnd (hn : NamesOk objects) (h0 : Entered objects S0 S0 item0 d0)
    (h : Entered objects S A item d) (hA : S0 ⊆ A) (ho : o ∈ objects) (hoS : o ∈ S0 ∨ o ∉ S) :
    ∃ A' item' d', d.addItem (endArg d0 o) = .ok (item' o, d') ∧
      ItemAdded objects S A item d o A' item' d' := by
  rcases hoS with hoS | hoS
  · rw [h0.endArg_known hoS]
    exact h.addItem_known hn (hA hoS)
  · have hoS0 : o ∉ S0 := fun hh => hoS (h.addr o (hA hh)).1
    rw [h0.endArg_fresh ho hoS0]
    exact h.addItem_fresh hn ho hoS

theorem Entered.withTriples (h : Entered objects S A item d) (triples : List (Triple ℕ)) :
    Entered objects S A item { d with triples := triples } :=
  ⟨h.listed, h.idtf, h.addr, h.noIdtf, h.noAddr, h.range, h.inj⟩

theorem Entered.addAlias (asserts : Bool) (hn : NamesOk objects) (h : Entered objects S A item d) (ho : o ∈ S) :
    ∃ d', addAlias asserts d o = .ok d' ∧ Entered objects S (insert o A) item d' ∧ d'.triples = d.triples := by
  have hoo := h.listed o ho
  unfold Template.addAlias ScTemplateData.hasReplacement
  rw [if_neg fun hempty => hn.valid o hoo hempty.2]
  by_cases hA : o ∈ A
  · rw [(h.addr o hA).2, Option.isSome_some, if_pos rfl, Set.insert_eq_of_mem hA]
    exact ⟨d, rfl, h, rfl⟩
  · have hnone := h.noAddr o hoo hA
    rw [hnone, if_neg (by simp)]
    unfold ScTemplateData.setupReplAlias
    have hinsert : insertName d.repl o.addr.toString (item o) =
        Function.update d.repl o.addr.toString (some (item o)) := by
      unfold insertName
      rw [hnone, if_neg (by simp)]
    rw [hnone, if_neg (by simp), h.idtf o ho]
    refine ⟨_, rfl, ?_, rfl⟩
    rw [hinsert]
    have hkeep (p : ObjectInfo) (hp : p ∈ objects) :
        Function.update d.repl o.addr.toString (some (item o)) p.getIdtf = d.repl p.getIdtf :=
      Function.update_of_ne (hn.notAddr p hp o hoo) _ _
    have hkeepAddr (p : ObjectInfo) (hp : p ∈ objects) (hne : p ≠ o) :
        Function.update d.repl o.addr.toString (some (item o)) p.addr.toString =
          d.repl p.addr.toString :=
      Function.update_of_ne (fun he => hne (hn.addr p hp o hoo (toString_injective he))) _ _
    refine ⟨h.listed, ?_, ?_, ?_, ?_, h.range, h.inj⟩
    · intro p hp
      exact (hkeep p (h.listed p hp)).trans (h.idtf p hp)
    · intro p hp
      by_cases he : p = o
      · subst he
        exact ⟨ho, Function.update_self _ _ _⟩
      · obtain ⟨hpS, hpa⟩ := h.addr p (hp.resolve_left he)
        exact ⟨hpS, (hkeepAddr p (h.listed p hpS) he).trans hpa⟩
    · intro p hp hpS
      exact (hkeep p hp).trans (h.noIdtf p hp hpS)
    · intro p hp hpA
      exact (hkeepAddr p hp fun he => hpA (Or.inl he)).trans (h.noAddr p hp fun hh => hpA (Or.inr hh))

/-- The objects at the places of the arcs. -/
def metBy (l : List (Triple ObjectInfo)) : Set ObjectInfo := {o | ∃ t ∈ l, o ∈ t.toList}

/-- An arc that can be entered behind these: it has not been met, and a loop joins what has been. -/
structure ReadyAfter (S : Set ObjectInfo) (t : Triple ObjectInfo) : Prop where
  new : t.edge ∉ S
  source : t.edge ≠ t.source
  target : t.edge ≠ t.target
  loop : t.source = t.target → t.source ∈ S

theorem Entered.addEdge (hn : NamesOk objects) (h : Entered objects S S item d)
    (ht : ∀ o ∈ t.toList, o ∈ objects) (hvar : t.edge.type.isVar = true)
    (hconst : t.edge.type.isConst = false) (hready : ReadyAfter S t) :
    ∃ item' d', addEdge asserts d t = .ok d' ∧ Entered objects (S ∪ {o | o ∈ t.toList})
      (S ∪ {o | o ∈ t.toList}) item' d' ∧ (∀ o ∈ S, item' o = item o) ∧
        d'.triples = d.triples ++ [t.map item'] := by
  have hs : t.source ∈ objects := ht _ (by simp [Triple.toList])
  have he : t.edge ∈ objects := ht _ (by simp [Triple.toList])
  have hd : t.target ∈ objects := ht _ (by simp [Triple.toList])
  -- the source
  obtain ⟨A1, item1, d1, hadd1, h1⟩ := h.addEnd hn h (le_refl S) hs (em _)
  -- the arc
  have hnew1 : t.edge ∉ insert t.source S := by
    rintro (hh | hh)
    · exact hready.source hh
    · exact hready.new hh
  obtain ⟨A2, item2, d2, hadd2, h2⟩ := h1.entered.addItem_fresh hn he hnew1
  have hedgeArg : ScTemplateArg.ofType t.edge.type (wrapIdtf d t.edge) = freshArg t.edge := by
    unfold freshArg wrapIdtf ScTemplateData.hasReplacement
    rw [hconst, h.noIdtf _ he hready.new]
    simp
  -- the target, which is the source only when that has been met
  have hnew2 : t.target ∈ S ∨ t.target ∉ insert t.edge (insert t.source S) := by
    by_cases hin : t.target ∈ S
    · exact Or.inl hin
    · right
      rintro (hh | hh | hh)
      · exact hready.target hh.symm
      · exact hin (hh ▸ hready.loop hh.symm)
      · exact hin hh
  obtain ⟨A3, item3, d3, hadd3, h3⟩ := h.addEnd hn h2.entered (h1.addrs.trans h2.addrs) hd hnew2
  set S3 := insert t.target (insert t.edge (insert t.source S)) with hS3
  have hsource : item3 t.source = item1 t.source := by
    rw [h3.keeps _ (Or.inr (Or.inl rfl)), h2.keeps _ (Or.inl rfl)]
  have hedge : item3 t.edge = item2 t.edge := h3.keeps _ (Or.inl rfl)
  have hkeep (o : ObjectInfo) (ho : o ∈ S) : item3 o = item o := by
    rw [h3.keeps _ (Or.inr (Or.inr ho)), h2.keeps _ (Or.inr ho), h1.keeps _ ho]
  -- the name of the arc is not that of an end
  have hguard (o : ObjectInfo) (ho : o ∈ objects) (hne : t.edge ≠ o) :
      (freshArg t.edge).replacementName ≠ (endArg d o).replacementName := by
    have hname : (freshArg t.edge).replacementName = t.edge.getIdtf := by
      unfold freshArg
      rw [hconst]
      rfl
    rw [hname]
    by_cases hoS : o ∈ S
    · rw [h.endArg_known hoS]
      unfold knownArg
      split_ifs
      · exact hn.nonempty _ he
      · exact fun hh => hne (hn.idtf _ he _ ho hh)
    · rw [h.endArg_fresh ho hoS]
      unfold freshArg
      split_ifs <;> exact fun hh => hne (hn.idtf _ he _ ho hh)
  have htriple : d.addTriple
      ⟨endArg d t.source, .ofType t.edge.type (wrapIdtf d t.edge), endArg d t.target⟩ =
        .ok { d3 with triples := d3.triples ++ [t.map item3] } := by
    unfold ScTemplateData.addTriple
    rw [hedgeArg, if_neg]
    · simp only [hadd1, hadd2, hadd3, bind, Except.bind]
      unfold Triple.map
      rw [hsource, hedge]
    · rintro ⟨_, hh | hh⟩
      · exact hguard _ hs hready.source hh
      · exact hguard _ hd hready.target hh
  have hset : S3 = S ∪ {o | o ∈ t.toList} := by
    ext o
    simp only [hS3, Triple.toList, List.mem_cons, List.not_mem_nil, or_false, Set.mem_insert_iff,
      Set.mem_union, Set.mem_ofPred_eq]
    tauto
  have h4 := h3.entered.withTriples (d3.triples ++ [t.map item3])
  obtain ⟨d5, ha5, h5, ht5⟩ := h4.addAlias asserts hn (o := t.source) (Or.inr (Or.inr (Or.inl rfl)))
  obtain ⟨d6, ha6, h6, ht6⟩ := h5.addAlias asserts hn (o := t.edge) (Or.inr (Or.inl rfl))
  obtain ⟨d7, ha7, h7, ht7⟩ := h6.addAlias asserts hn (o := t.target) (Or.inl rfl)
  have hall : insert t.target (insert t.edge (insert t.source A3)) = S3 := by
    apply Set.Subset.antisymm
    · rintro o (rfl | rfl | rfl | ho)
      · exact Or.inl rfl
      · exact Or.inr (Or.inl rfl)
      · exact Or.inr (Or.inr (Or.inl rfl))
      · exact (h3.entered.addr o ho).1
    · rintro o (rfl | rfl | rfl | ho)
      · exact Or.inl rfl
      · exact Or.inr (Or.inl rfl)
      · exact Or.inr (Or.inr (Or.inl rfl))
      · exact Or.inr (Or.inr (Or.inr (h3.addrs (h2.addrs (h1.addrs ho)))))
  rw [hall] at h7
  refine ⟨item3, d7, ?_, by rw [← hset]; exact h7, hkeep, ?_⟩
  · unfold Template.addEdge
    rw [if_neg (fun hnot => by rw [hvar] at hnot; cases hnot.2), htriple]
    simp only [bind, Except.bind, ha5, ha6, ha7]
  · rw [ht7, ht6, ht5]
    show d3.triples ++ [t.map item3] = _
    rw [h3.triples, h2.triples, h1.triples]

theorem metBy_cons (t : Triple ObjectInfo) (l : List (Triple ObjectInfo)) :
    metBy (t :: l) = {o | o ∈ t.toList} ∪ metBy l := by
  ext o
  constructor
  · rintro ⟨u, hu, ho⟩
    rcases List.mem_cons.mp hu with rfl | hu
    · exact Or.inl ho
    · exact Or.inr ⟨u, hu, ho⟩
  · rintro (ho | ⟨u, hu, ho⟩)
    · exact ⟨t, List.mem_cons_self, ho⟩
    · exact ⟨u, List.mem_cons_of_mem t hu, ho⟩

/-- By induction on the arcs: when each is ready behind those before it, every object gets one item. -/
theorem Entered.addEdges (hn : NamesOk objects) (l : List (Triple ObjectInfo))
    (h : Entered objects S S item d) (hl : ∀ t ∈ l, (∀ o ∈ t.toList, o ∈ objects) ∧
      t.edge.type.isVar = true ∧ t.edge.type.isConst = false)
    (hready : ∀ pre t post, l = pre ++ t :: post → ReadyAfter (S ∪ metBy pre) t) :
    ∃ item' d', addEdges asserts d l = .ok d' ∧ Entered objects (S ∪ metBy l) (S ∪ metBy l) item' d' ∧
      (∀ o ∈ S, item' o = item o) ∧ d'.triples = d.triples ++ l.map fun t => t.map item' := by
  have hnone (S : Set ObjectInfo) : S ∪ metBy [] = S := by simp [metBy]
  induction l generalizing S item d with
  | nil =>
    refine ⟨item, d, rfl, ?_, fun _ _ => rfl, by simp⟩
    rw [hnone]
    exact h
  | cons t l ih =>
    obtain ⟨ht, hvar, hconst⟩ := hl t List.mem_cons_self
    have hfirst : ReadyAfter S t := by
      have hr := hready [] t l rfl
      rwa [hnone] at hr
    obtain ⟨item1, d1, hadd, h1, hkeep1, ht1⟩ := h.addEdge hn ht hvar hconst hfirst
    have hunion (pre : List (Triple ObjectInfo)) :
        S ∪ {o | o ∈ t.toList} ∪ metBy pre = S ∪ metBy (t :: pre) := by
      rw [metBy_cons, Set.union_assoc]
    obtain ⟨item2, d2, hadds, h2, hkeep2, ht2⟩ := ih h1 (fun u hu => hl u (List.mem_cons_of_mem t hu))
      (fun pre u post he => by
        rw [hunion]
        exact hready (t :: pre) u post (by rw [he]; rfl))
    rw [hunion] at h2
    refine ⟨item2, d2, ?_, h2, ?_, ?_⟩
    · unfold Template.addEdges
      rw [hadd]
      exact hadds
    · intro o ho
      rw [hkeep2 o (Or.inl ho), hkeep1 o ho]
    · have hsame : t.map item2 = t.map item1 := by
        unfold Triple.map
        rw [hkeep2 _ (Or.inr (by simp [Triple.toList])), hkeep2 _ (Or.inr (by simp [Triple.toList])),
          hkeep2 _ (Or.inr (by simp [Triple.toList]))]
      rw [ht2, ht1, List.map_cons, hsame, List.append_assoc]
      rfl

theorem entered_empty (objects : List ObjectInfo) (item : ObjectInfo → ℕ) :
    Entered objects ∅ ∅ item ScTemplateData.empty :=
  ⟨fun _ h => h.elim, fun _ h => h.elim, fun _ h => h.elim, fun _ _ _ => rfl, fun _ _ _ => rfl,
    fun _ h => h.elim, fun _ h => h.elim⟩

/-! What a template that was built tells, whatever the order was. -/

variable {value : ScTemplateArg} {i : ℕ}

theorem AddedItem.elements_le (h : AddedItem d value i d') :
    d.elements.length ≤ d'.elements.length := h.kept.length_le

theorem insertName_isSome {repl : String → Option ℕ} {m : String} {j : ℕ}
    (h : (insertName repl m j name).isSome = true) : (repl name).isSome = true ∨ name = m := by
  unfold insertName at h
  split_ifs at h
  · exact Or.inl h
  · by_cases he : name = m
    · exact Or.inr he
    · rw [Function.update_of_ne he] at h
      exact Or.inl h

theorem insertReplacementName_isSome {repl : String → Option ℕ} {j : ℕ}
    (h : (insertReplacementName value repl j name).isSome = true) :
    (repl name).isSome = true ∨ value.hasReplacementName = true ∧ name = value.replacementName := by
  unfold insertReplacementName at h
  split_ifs at h with hv
  · exact (insertName_isSome h).imp_right fun he => ⟨hv, he⟩
  · exact Or.inl h

/-- Only names of the item are new. -/
theorem AddedItem.names (h : AddedItem d value i d') (hname : (d'.repl name).isSome = true) :
    (d.repl name).isSome = true ∨ value.hasReplacementName = true ∧ name = value.replacementName ∨
      value.kind = .addr ∧ name = value.addrValue.toString := by
  cases h with
  | addr hk _ _ _ =>
    rcases insertReplacementName_isSome hname with hh | hh
    · exact (insertName_isSome hh).imp_right fun he => Or.inr ⟨hk, he⟩
    · exact Or.inr (Or.inl hh)
  | type _ _ _ => exact (insertReplacementName_isSome hname).imp_right Or.inl
  | knownAddr _ _ _ _ => exact Or.inl hname
  | knownName _ _ _ => exact Or.inl hname

theorem AddedItem.ofType {type : ScType} (h : AddedItem d (.ofType type name) i d') :
    i = d.elements.length ∧ d'.elements.length = d.elements.length+1 := by
  cases h with
  | addr hk _ _ _ => cases hk
  | type _ _ _ => exact ⟨rfl, List.length_append⟩
  | knownAddr _ hk _ _ => cases hk
  | knownName _ hk _ => cases hk

theorem addAlias_spec (h : addAlias asserts d o = .ok d') : d'.triples = d.triples ∧ d'.elements = d.elements ∧
    (Built d → Built d') ∧
      ∀ name, (d'.repl name).isSome = true → (d.repl name).isSome = true ∨ name = o.addr.toString := by
  unfold addAlias at h
  split_ifs at h with hempty hhas
  · obtain rfl := Except.ok.inj h
    exact ⟨rfl, rfl, id, fun _ hname => Or.inl hname⟩
  · have hbuilt (hb : Built d) : Built d' := Built.replAlias _ _ hb h
    unfold ScTemplateData.setupReplAlias at h
    split_ifs at h
    cases hr : d.repl o.getIdtf with
    | none =>
      rw [hr] at h
      obtain rfl := Except.ok.inj h
      exact ⟨rfl, rfl, hbuilt, fun _ hname => Or.inl hname⟩
    | some j =>
      rw [hr] at h
      obtain rfl := Except.ok.inj h
      refine ⟨rfl, rfl, hbuilt, ?_⟩
      intro name hname
      exact insertName_isSome hname

/-- A call of `Triple` and the aliases behind it. -/
structure EdgeAdded (d : ScTemplateData) (t : Triple ObjectInfo) (ids : Triple ℕ)
    (d' : ScTemplateData) : Prop where
  items : ∃ d1 d2 d3, AddedItem d (endArg d t.source) ids.source d1 ∧
    AddedItem d1 (.ofType t.edge.type (wrapIdtf d t.edge)) ids.edge d2 ∧
    AddedItem d2 (endArg d t.target) ids.target d3 ∧ d'.elements = d3.elements ∧
    ∀ name, (d'.repl name).isSome = true →
      (d3.repl name).isSome = true ∨ ∃ o ∈ t.toList, name = o.addr.toString
  guard : wrapIdtf d t.edge ≠ "" → wrapIdtf d t.edge ≠ (endArg d t.target).replacementName
  triples : d'.triples = d.triples ++ [ids]
  built : Built d → Built d'

theorem addEdge_added (h : addEdge asserts d t = .ok d') : ∃ ids, EdgeAdded d t ids d' := by
  unfold addEdge at h
  split_ifs at h with hvar
  obtain ⟨e1, hadd, h⟩ := bind_ok h
  obtain ⟨e2, ha1, h⟩ := bind_ok h
  obtain ⟨e3, ha2, ha3⟩ := bind_ok h
  obtain ⟨ht1, hel1, hb1, hn1⟩ := addAlias_spec ha1
  obtain ⟨ht2, hel2, hb2, hn2⟩ := addAlias_spec ha2
  obtain ⟨ht3, hel3, hb3, hn3⟩ := addAlias_spec ha3
  have hbuilt (hb : Built d) : Built d' := hb3 (hb2 (hb1 (Built.triple _ hb hadd)))
  unfold ScTemplateData.addTriple at hadd
  split_ifs at hadd with hguard
  obtain ⟨⟨i1, d1⟩, h1, hadd⟩ := bind_ok hadd
  obtain ⟨⟨i2, d2⟩, h2, hadd⟩ := bind_ok hadd
  obtain ⟨⟨i3, d3⟩, h3, hadd⟩ := bind_ok hadd
  obtain rfl := Except.ok.inj hadd
  have hadd1 := addItem_added h1
  have hadd2 := addItem_added h2
  have hadd3 := addItem_added h3
  refine ⟨⟨i1, i2, i3⟩, ⟨d1, d2, d3, hadd1, hadd2, hadd3, ?_, ?_⟩, ?_, ?_, hbuilt⟩
  · rw [hel3, hel2, hel1]
  · intro name hname
    rcases hn3 name hname with hname | rfl
    · rcases hn2 name hname with hname | rfl
      · rcases hn1 name hname with hname | rfl
        · exact Or.inl hname
        · exact Or.inr ⟨_, by simp [Triple.toList], rfl⟩
      · exact Or.inr ⟨_, by simp [Triple.toList], rfl⟩
    · exact Or.inr ⟨_, by simp [Triple.toList], rfl⟩
  · intro hne he
    apply hguard
    refine ⟨?_, Or.inr he⟩
    unfold ScTemplateArg.hasReplacementName ScTemplateArg.ofType
    simpa using hne
  · rw [ht3, ht2, ht1]
    show d3.triples ++ [_] = _
    rw [hadd3.triples_eq, hadd2.triples_eq, hadd1.triples_eq]

/-- The item of the arc is behind all the items that were there before. -/
theorem EdgeAdded.fresh {ids : Triple ℕ} (hd : Built d) (h : EdgeAdded d t ids d') :
    d.elements.length ≤ ids.edge ∧ ids.source < ids.edge := by
  obtain ⟨d1, d2, d3, h1, h2, _, _, _⟩ := h.items
  rw [h2.ofType.1]
  exact ⟨h1.elements_le, h1.lt hd.itemsOk⟩

/-- An arc that is its own target does not get one item. -/
theorem EdgeAdded.target_ne {ids : Triple ℕ} (hd : Built d) (h : EdgeAdded d t ids d')
    (hself : t.target = t.edge) (hconst : t.edge.type.isConst = false) (hne : t.edge.getIdtf ≠ "") :
    ids.target ≠ ids.edge := by
  obtain ⟨d1, d2, d3, h1, h2, h3, _, _⟩ := h.items
  have hguard := h.guard
  rw [hself] at h3 hguard
  unfold endArg at h3 hguard
  rw [hconst, if_neg Bool.false_ne_true] at h3 hguard
  unfold wrapIdtf ScTemplateData.hasReplacement at hguard
  unfold ScTemplateData.hasReplacement at h3
  cases hr : d.repl t.edge.getIdtf with
  | none =>
    -- the call of `Triple` refuses the name
    rw [hr] at hguard
    exact absurd rfl (hguard hne)
  | some j =>
    rw [hr, Option.isSome_some, if_pos rfl] at h3
    have hj := h2.mono (h1.mono hr)
    have hlt : j < d.elements.length := (hd.itemsOk.target _ _ hr).1
    have hle := h1.elements_le
    rw [h2.ofType.1]
    generalize ids.target = i at h3
    cases h3 with
    | addr hk _ _ _ => cases hk
    | type hk _ _ => cases hk
    | knownAddr _ hk _ _ => cases hk
    | knownName _ _ hreg =>
      have hreg' : d2.repl t.edge.getIdtf = some i := hreg
      rw [hj] at hreg'
      obtain rfl := Option.some.inj hreg'
      omega

theorem insertName_isSome_self (repl : String → Option ℕ) (m : String) (j : ℕ) :
    (insertName repl m j m).isSome = true := by
  unfold insertName
  split_ifs with h
  · exact h
  · rw [Function.update_self]
    rfl

/-- An object that was not met cannot be entered twice by one triple. -/
theorem EdgeAdded.no_loop {ids : Triple ℕ} (h : EdgeAdded d t ids d') (hloop : t.source = t.target)
    (hidtf : d.repl t.source.getIdtf = none) (haddr : d.repl t.source.addr.toString = none)
    (hne : t.source.getIdtf ≠ "") : False := by
  obtain ⟨d1, d2, d3, h1, h2, h3, _, _⟩ := h.items
  rw [← hloop] at h3
  have harg : endArg d t.source = freshArg t.source := by
    unfold endArg freshArg wrapIdtf ScTemplateData.hasReplacement
    rw [hidtf]
    simp
  have hname : (freshArg t.source).replacementName = t.source.getIdtf := by
    unfold freshArg
    split_ifs <;> rfl
  have hhas : (freshArg t.source).hasReplacementName = true := by
    unfold ScTemplateArg.hasReplacementName
    rw [hname]
    simpa using hne
  have hkind : (freshArg t.source).kind ≠ .replace := by
    unfold freshArg
    split_ifs <;> exact Kind.noConfusion
  rw [harg] at h1 h3
  have hentered : (d1.repl t.source.getIdtf).isSome = true := by
    rw [← hname]
    generalize ids.source = i at h1
    cases h1 with
    | addr _ _ _ _ =>
      unfold insertReplacementName
      rw [if_pos hhas]
      exact insertName_isSome_self _ _ _
    | type _ _ _ =>
      unfold insertReplacementName
      rw [if_pos hhas]
      exact insertName_isSome_self _ _ _
    | knownAddr _ hk hreg _ =>
      have ha : (freshArg t.source).addrValue = t.source.addr := by
        unfold freshArg at hk ⊢
        split_ifs at hk ⊢
        · rfl
        · cases hk
      rw [ha, haddr] at hreg
      cases hreg
    | knownName _ hk _ => exact absurd hk hkind
  obtain ⟨j, hj⟩ := Option.isSome_iff_exists.mp hentered
  have hj2 := h2.mono hj
  have hnone : d2.repl t.source.getIdtf = none := by
    rw [← hname]
    generalize ids.target = i at h3
    cases h3 with
    | addr _ _ _ hnew => exact hnew hhas
    | type _ _ hnew => exact hnew hhas
    | knownAddr _ _ _ hnew => exact hnew hhas
    | knownName _ hk _ => exact absurd hk hkind
  rw [hj2] at hnone
  cases hnone

/-- Only objects of `S` are entered. -/
def EnteredOnly (S : Set ObjectInfo) (d : ScTemplateData) : Prop :=
  ∀ name, (d.repl name).isSome = true → ∃ o ∈ S, name = o.getIdtf ∨ name = o.addr.toString

theorem endArg_names (h : AddedItem d0 (endArg d o) i d') (hname : (d'.repl name).isSome = true) :
    (d0.repl name).isSome = true ∨ name = o.getIdtf ∨ name = o.addr.toString := by
  rcases h.names hname with hh | ⟨hhas, rfl⟩ | ⟨hk, rfl⟩
  · exact Or.inl hh
  · right
    left
    unfold endArg wrapIdtf at hhas ⊢
    split_ifs at hhas ⊢
    · exact absurd hhas Bool.false_ne_true
    · rfl
    · rfl
    · rfl
  · right
    right
    unfold endArg at hk ⊢
    split_ifs at hk ⊢
    · rfl
    · cases hk
    · cases hk

theorem EdgeAdded.only {ids : Triple ℕ} (h : EdgeAdded d t ids d') (hd : EnteredOnly S d) :
    EnteredOnly (S ∪ {o | o ∈ t.toList}) d' := by
  obtain ⟨d1, d2, d3, h1, h2, h3, _, hnames⟩ := h.items
  intro name hname
  rcases hnames name hname with hname | ⟨o, ho, rfl⟩
  · rcases endArg_names h3 hname with hname | hname
    · rcases h2.names hname with hname | ⟨hhas, rfl⟩ | ⟨hk, _⟩
      · rcases endArg_names h1 hname with hname | hname
        · obtain ⟨o, ho, hname⟩ := hd name hname
          exact ⟨o, Or.inl ho, hname⟩
        · exact ⟨t.source, Or.inr (by simp [Triple.toList]), hname⟩
      · refine ⟨t.edge, Or.inr (by simp [Triple.toList]), Or.inl ?_⟩
        unfold wrapIdtf at hhas ⊢
        split_ifs at hhas ⊢
        · exact absurd hhas Bool.false_ne_true
        · rfl
      · cases hk
    · exact ⟨t.target, Or.inr (by simp [Triple.toList]), hname⟩
  · exact ⟨o, Or.inr ho, Or.inr rfl⟩

/-- What is known in the middle of a build. -/
theorem addEdges_split {pre post : List (Triple ObjectInfo)} {data : ScTemplateData}
    (h : addEdges asserts d (pre ++ t :: post) = .ok data) (hd : Built d) (hS : EnteredOnly S d) :
    ∃ d1 d2 ids ids1 ids2, Built d1 ∧ EnteredOnly (S ∪ metBy pre) d1 ∧ EdgeAdded d1 t ids d2 ∧
      ids1.length = pre.length ∧ d1.triples = d.triples ++ ids1 ∧
        data.triples = d.triples ++ ids1 ++ ids :: ids2 := by
  induction pre generalizing S d with
  | nil =>
    obtain ⟨d2, hadd, hrest⟩ := bind_ok h
    obtain ⟨ids, hadded⟩ := addEdge_added hadd
    have hnone : S ∪ metBy [] = S := by simp [metBy]
    have htriples (l : List (Triple ObjectInfo)) (d d' : ScTemplateData)
        (h : addEdges asserts d l = .ok d') : ∃ ids2, d'.triples = d.triples ++ ids2 := by
      induction l generalizing d with
      | nil =>
        obtain rfl := Except.ok.inj h
        exact ⟨[], by simp⟩
      | cons u l ih =>
        obtain ⟨d1, hadd, hrest⟩ := bind_ok h
        obtain ⟨ids, hadded⟩ := addEdge_added hadd
        obtain ⟨ids2, h2⟩ := ih d1 hrest
        exact ⟨ids :: ids2, by rw [h2, hadded.triples, List.append_assoc]; rfl⟩
    obtain ⟨ids2, h2⟩ := htriples post d2 data hrest
    refine ⟨d, d2, ids, [], ids2, hd, by rw [hnone]; exact hS, hadded, rfl, by simp, ?_⟩
    rw [h2, hadded.triples, List.append_assoc, List.append_nil]
    rfl
  | cons u pre ih =>
    obtain ⟨d0, hadd, hrest⟩ := bind_ok h
    obtain ⟨ids0, hadded⟩ := addEdge_added hadd
    obtain ⟨d1, d2, ids, ids1, ids2, hd1, hS1, hadd1, hlen, ht1, ht2⟩ :=
      ih hrest (hadded.built hd) (hadded.only hS)
    refine ⟨d1, d2, ids, ids0 :: ids1, ids2, hd1, ?_, hadd1, by rw [List.length_cons, hlen]; rfl, ?_, ?_⟩
    · rw [metBy_cons, ← Set.union_assoc]
      exact hS1
    · rw [ht1, hadded.triples, List.append_assoc]
      rfl
    · rw [ht2, hadded.triples, List.append_assoc, List.append_assoc, List.append_assoc]
      rfl

/-- A template has one item for each object exactly when every arc was ready in its turn. -/
theorem addEdges_iff (hn : NamesOk objects) (l : List (Triple ObjectInfo))
    (hl : ∀ t ∈ l, (∀ o ∈ t.toList, o ∈ objects) ∧ t.edge.type.isVar = true ∧
      t.edge.type.isConst = false) :
    (∃ data item, addEdges asserts ScTemplateData.empty l = .ok data ∧
      data.triples = l.map (fun t => t.map item) ∧
        ∀ o ∈ metBy l, ∀ p ∈ metBy l, item o = item p → o = p) ↔
      ∀ pre t post, l = pre ++ t :: post → ReadyAfter (metBy pre) t := by
  constructor
  · rintro ⟨data, item, hadd, htriples, _⟩ pre t post rfl
    obtain ⟨ht, _, hconst⟩ := hl t (by simp)
    have hsome : EnteredOnly ∅ ScTemplateData.empty := fun _ h => by cases h
    obtain ⟨d1, d2, ids, ids1, ids2, hd1, hS1, hadded, hlen, ht1, ht2⟩ :=
      addEdges_split hadd Built.empty hsome
    have hparts : ids1 = pre.map (fun t => t.map item) ∧ ids = t.map item := by
      rw [htriples, List.map_append, List.map_cons] at ht2
      have hinj := List.append_inj (show _ = ids1 ++ ids :: ids2 from ht2) (by simp [hlen])
      exact ⟨hinj.1.symm, (List.cons.inj hinj.2).1.symm⟩
    obtain ⟨rfl, rfl⟩ := hparts
    obtain ⟨hfresh, hsource⟩ := hadded.fresh hd1
    have hmem (o : ObjectInfo) (ho : o ∈ t.toList) : o ∈ objects := ht o ho
    refine ⟨?_, ?_, ?_, ?_⟩
    · rintro ⟨u, hu, ho⟩
      have hplace : item t.edge ∈ places d1.triples := by
        rw [ht1]
        refine List.mem_flatMap.mpr ⟨u.map item, List.mem_map_of_mem hu, ?_⟩
        simp only [Triple.toList, List.mem_cons, List.not_mem_nil, or_false] at ho
        rcases ho with he | he | he <;> simp [Triple.toList, Triple.map, he]
      have hlt : item t.edge < d1.elements.length := hd1.itemsOk.range _ hplace
      have hge : d1.elements.length ≤ item t.edge := hfresh
      omega
    · intro he
      have hlt : item t.source < item t.edge := hsource
      rw [he] at hlt
      exact absurd hlt (Nat.lt_irrefl _)
    · intro he
      apply hadded.target_ne hd1 he.symm hconst (hn.nonempty _ (hmem _ (by simp [Triple.toList])))
      show item t.target = item t.edge
      rw [he]
    · intro hloop
      by_contra hnot
      have hs : t.source ∈ objects := hmem _ (by simp [Triple.toList])
      have hnone (name : String)
          (hname : ∀ o ∈ objects, o ≠ t.source → name ≠ o.getIdtf ∧ name ≠ o.addr.toString) :
          d1.repl name = none := by
        by_contra hne
        obtain ⟨o, ho, hoo⟩ := hS1 name (Option.isSome_iff_ne_none.mpr hne)
        have hpre : o ∈ metBy pre := ho.resolve_left id
        obtain ⟨u, hu, hou⟩ := hpre
        have hobj := (hl u (List.mem_append_left _ hu)).1 o hou
        have hneq : o ≠ t.source := fun he => hnot ⟨u, hu, he ▸ hou⟩
        exact hoo.elim (hname o hobj hneq).1 (hname o hobj hneq).2
      exact hadded.no_loop hloop
        (hnone _ fun o ho hne => ⟨fun he => hne (hn.idtf _ hs _ ho he).symm, hn.notAddr _ hs _ ho⟩)
        (hnone _ fun o ho hne => ⟨fun he => hn.notAddr _ ho _ hs he.symm,
          fun he => hne (hn.addr _ hs _ ho (toString_injective he)).symm⟩)
        (hn.nonempty _ hs)
  · intro hready
    have hunion (pre : List (Triple ObjectInfo)) : (∅ : Set ObjectInfo) ∪ metBy pre = metBy pre :=
      Set.empty_union _
    obtain ⟨item, data, hadd, hent, _, htriples⟩ := (entered_empty objects fun _ => 0).addEdges hn l hl
      (fun pre t post he => by rw [hunion]; exact hready pre t post he)
    rw [hunion] at hent
    exact ⟨data, item, hadd, htriples, hent.inj⟩

end

end ScMachine.Template
