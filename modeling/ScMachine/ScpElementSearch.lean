import ScMachine.ScpLib
import ScMachine.CommandMarks

/-! The searches of three and five elements against the relation between elements that their operands
stand for. -/
namespace ScMachine.Scp
open ScMachine.Store ScMachine.Template ScMachine.Runs

/-- What the operand asks of the element at its position. -/
def ScpOperand.param (operand : ScpOperand) : ScIteratorParam :=
  match operand.paramType with
  | .fixed => .addr operand.addr
  | .assign => .type operand.elementType

/-- The result is true exactly if there is what is asked for, the operands then hold it, and else the
result is false. -/
structure Agrees {T : Type} (Spec : T → Prop) (result : ScpResult) (held : T) : Prop where
  found : result = .true ↔ ∃ t, Spec t
  held : result = .true → Spec held
  otherwise : result ≠ .true → result = .false

/-- The edge is an arc from the source to the target, and the three agree with the operands. -/
def Matches3 (c : Cells) (param1 param2 param3 : ScpOperand) (t : Triple ScAddr) : Prop :=
  IsTriple c param1.param param2.param param3.param t

/-- The second element is an arc from the first to the third, the fourth one from the fifth to the
second, and the five agree with the operands. -/
def Matches5 (c : Cells) (param1 param2 param3 param4 param5 : ScpOperand) : FiveAddrs → Prop
  | (a, e1, b, e2, f) => IsTriple c param1.param param2.param param3.param ⟨a, e1, b⟩ ∧
      IsTriple c param5.param param4.param param2.param ⟨f, e2, e1⟩

def Agrees3 (c : Cells) (param1 param2 param3 : ScpOperand) (found : Found3) : Prop :=
  Agrees (Matches3 c param1 param2 param3) found.1
    ⟨found.2.1.addr, found.2.2.1.addr, found.2.2.2.addr⟩

def Agrees5 (c : Cells) (param1 param2 param3 param4 param5 : ScpOperand) (found : Found5) : Prop :=
  Agrees (Matches5 c param1 param2 param3 param4 param5) found.1
    (found.2.1.addr, found.2.2.1.addr, found.2.2.2.1.addr, found.2.2.2.2.1.addr, found.2.2.2.2.2.addr)

section
variable {T : Type} {Spec : T → Prop} {result : ScpResult} {held : T}

theorem agrees_true (h : Spec held) : Agrees Spec .true held :=
  ⟨iff_of_true rfl ⟨held, h⟩, fun _ => h, fun hno => absurd rfl hno⟩

theorem agrees_false (h : ∀ t, ¬ Spec t) : Agrees Spec .false held :=
  ⟨iff_of_false nofun fun ⟨t, ht⟩ => h t ht, nofun, fun _ => rfl⟩

/-- A search that misses something. -/
theorem not_agrees_false {t : T} (h : Spec t) : ¬ Agrees Spec .false held := by
  intro hag
  have htrue := hag.found.mpr ⟨t, h⟩
  cases htrue

/-- A search that takes the first of the elements that are asked for. -/
theorem agrees_first {l : List T} (hl : ∀ t, t ∈ l ↔ Spec t)
    (hsome : ∀ t, l.head? = some t → result = .true ∧ (Spec t → held = t))
    (hnone : l.head? = none → result = .false) : Agrees Spec result held := by
  cases hfirst : l.head? with
  | none =>
    rw [hnone hfirst]
    apply agrees_false
    intro t
    rw [← hl, List.head?_eq_none_iff.mp hfirst]
    exact List.not_mem_nil
  | some t =>
    obtain ⟨htrue, hheld⟩ := hsome t hfirst
    have ht : Spec t := (hl t).mp (List.mem_of_mem_head? hfirst)
    rw [htrue, hheld ht]
    exact agrees_true ht

end

section
variable {c : Cells} {ctx : ScContext} {param1 param2 param3 param4 param5 : ScpOperand} {x : ScAddr}
  {type : ScType}

theorem param_fixed {param : ScpOperand} (h : param.paramType = .fixed) : param.param = .addr param.addr := by
  unfold ScpOperand.param
  rw [h]

theorem param_assign {param : ScpOperand} (h : param.paramType = .assign) :
    param.param = .type param.elementType := by
  unfold ScpOperand.param
  rw [h]

theorem fits_fixed {param : ScpOperand} (h : param.paramType = .fixed) :
    param.param.Fits c x ↔ x = param.addr := by
  rw [param_fixed h]
  rfl

theorem fits_assign {param : ScpOperand} (h : param.paramType = .assign) :
    param.param.Fits c x ↔ HasType c x param.elementType := by
  rw [param_assign h]
  rfl

theorem checkType_iff (hread : ∀ x, Live c x → CanRead ctx c x) (hx : Live c x) :
    checkType c ctx x type = .true ↔ HasType c x type := by
  unfold checkType scMemoryGetElementType hasBits HasType
  rw [if_pos ⟨hx, hread x hx⟩]
  simp only [beq_iff_eq]
  split_ifs with h
  · exact iff_of_true rfl h
  · exact iff_of_false nofun h

theorem arcOwner_some (hread : ∀ x, Live c x → CanRead ctx c x) (hx : LiveArc c x) (d : Dir) :
    scMemoryGetArcOwner c ctx d x = some (ownerOf c d x) :=
  if_pos ⟨hx, hread x hx.1⟩

/-- The constructions of five elements are two triples that share an arc. -/
theorem isJoin_iff (hc : ArcsOk c) (hread : ∀ x, Live c x → CanRead ctx c x)
    (p1 p2 p3 p4 p5 : ScIteratorParam) (a e1 b e2 f : ScAddr) :
    IsJoin c ctx p1 p2 p3 p4 p5 a e1 b e2 f ↔
      IsTriple c p1 p2 p3 ⟨a, e1, b⟩ ∧ IsTriple c p5 p4 p2 ⟨f, e2, e1⟩ := by
  constructor
  · intro h
    obtain ⟨_, hl1, _, hl2, _⟩ := h.live
    obtain ⟨ha1, ho1, hi1⟩ := h.first
    obtain ⟨ha2, ho2, hi2⟩ := h.second
    obtain ⟨hf1, hf2, hf3, hf4, hf5⟩ := h.fits
    exact ⟨⟨⟨hl1, ha1⟩, ho1, hi1, hf1, hf2, hf3⟩, ⟨⟨hl2, ha2⟩, ho2, hi2, hf5, hf4, hf2⟩⟩
  · rintro ⟨⟨harc1, ho1, hi1, hf1, hf2, hf3⟩, ⟨harc2, ho2, hi2, hf5, hf4, _⟩⟩
    dsimp only at ho1 hi1 ho2 hi2
    have ha : Live c a := ho1 ▸ hc.endpoint e1 .out harc1
    have hb : Live c b := hi1 ▸ hc.endpoint e1 .inp harc1
    have hf : Live c f := ho2 ▸ hc.endpoint e2 .out harc2
    exact {
      live := ⟨ha, harc1.1, hb, harc2.1, hf⟩
      first := ⟨harc1.2, ho1, hi1⟩
      second := ⟨harc2.2, ho2, hi2⟩
      readable := ⟨hread a ha, hread e1 harc1.1, hread b hb, hread e2 harc2.1, hread f hf⟩
      fits := ⟨hf1, hf2, hf3, hf4, hf5⟩ }

theorem mem_iterated5 (hc : ArcsOk c) (hread : ∀ x, Live c x → CanRead ctx c x) {params : Iterator5Params}
    {type : ScIterator5Type}
    (htype : Iterator5Params.ofType type param1.param param2.param param3.param param4.param param5.param =
      some params) (t : FiveAddrs) :
    t ∈ iterated5 c ctx params ↔ Matches5 c param1 param2 param3 param4 param5 t := by
  obtain ⟨a, e1, b, e2, f⟩ := t
  unfold iterated5
  rw [mem_iterator5 hc htype, isJoin_iff hc hread]
  rfl

/-! One lemma for each way to search. -/

theorem searchElStr3FAA_agrees (hc : ArcsOk c) (hread : ∀ x, Live c x → CanRead ctx c x)
    (h1 : param1.paramType = .fixed) (h2 : param2.paramType = .assign) (h3 : param3.paramType = .assign) :
    Agrees3 c param1 param2 param3 (searchElStr3FAA c ctx param1 param2 param3) := by
  have hmem := mem_iterator3_faa hc hread param1.addr param2.elementType param3.elementType
  rw [← param_fixed h1, ← param_assign h2, ← param_assign h3] at hmem
  refine agrees_first hmem (fun t ht => ?_) (fun hno => ?_)
  · unfold searchElStr3FAA iterated
    rw [ht]
    refine ⟨rfl, fun hm => ?_⟩
    dsimp only
    rw [← (fits_fixed h1).mp hm.fits.1]
  · unfold searchElStr3FAA iterated
    rw [hno]

theorem searchElStr3AAF_agrees (hc : ArcsOk c) (hread : ∀ x, Live c x → CanRead ctx c x)
    (h1 : param1.paramType = .assign) (h2 : param2.paramType = .assign) (h3 : param3.paramType = .fixed) :
    Agrees3 c param1 param2 param3 (searchElStr3AAF c ctx param1 param2 param3) := by
  have hmem := mem_iterator3_aaf hc hread param1.elementType param2.elementType param3.addr
  rw [← param_assign h1, ← param_assign h2, ← param_fixed h3] at hmem
  refine agrees_first hmem (fun t ht => ?_) (fun hno => ?_)
  · unfold searchElStr3AAF iterated
    rw [ht]
    refine ⟨rfl, fun hm => ?_⟩
    dsimp only
    rw [← (fits_fixed h3).mp hm.fits.2.2]
  · unfold searchElStr3AAF iterated
    rw [hno]

theorem searchElStr3FAF_agrees (hc : ArcsOk c) (hread : ∀ x, Live c x → CanRead ctx c x)
    (h1 : param1.paramType = .fixed) (h2 : param2.paramType = .assign) (h3 : param3.paramType = .fixed) :
    Agrees3 c param1 param2 param3 (searchElStr3FAF c ctx param1 param2 param3) := by
  have hmem := mem_iterator3_faf hc hread param1.addr param2.elementType param3.addr
  rw [← param_fixed h1, ← param_assign h2, ← param_fixed h3] at hmem
  refine agrees_first hmem (fun t ht => ?_) (fun hno => ?_)
  · unfold searchElStr3FAF iterated
    rw [ht]
    refine ⟨rfl, fun hm => ?_⟩
    dsimp only
    rw [← (fits_fixed h1).mp hm.fits.1, ← (fits_fixed h3).mp hm.fits.2.2]
  · unfold searchElStr3FAF iterated
    rw [hno]

/-- With a fixed arc only one triple can match. -/
theorem matches3_fixed (h2 : param2.paramType = .fixed) (harc : LiveArc c param2.addr) (t : Triple ScAddr) :
    Matches3 c param1 param2 param3 t ↔
      t = ⟨ownerOf c .out param2.addr, param2.addr, ownerOf c .inp param2.addr⟩ ∧
        param1.param.Fits c (ownerOf c .out param2.addr) ∧ param3.param.Fits c (ownerOf c .inp param2.addr) := by
  constructor
  · intro hm
    obtain ⟨source, edge, target⟩ := t
    obtain ⟨_, hs, ht, hf1, hf2, hf3⟩ := hm
    dsimp only at hs ht hf1 hf2 hf3
    have hedge := (fits_fixed h2).mp hf2
    subst hedge hs ht
    exact ⟨rfl, hf1, hf3⟩
  · rintro ⟨rfl, hf1, hf3⟩
    exact ⟨harc, rfl, rfl, hf1, (fits_fixed h2).mpr rfl, hf3⟩

theorem searchElStr3AFA_agrees (hc : ArcsOk c) (hread : ∀ x, Live c x → CanRead ctx c x)
    (h1 : param1.paramType = .assign) (h2 : param2.paramType = .fixed) (h3 : param3.paramType = .assign)
    (harc : LiveArc c param2.addr) :
    Agrees3 c param1 param2 param3 (searchElStr3AFA c ctx param1 param2 param3) := by
  have hbeg := hc.endpoint _ .out harc
  have hend := hc.endpoint _ .inp harc
  unfold searchElStr3AFA scMemoryGetArcBegin scMemoryGetArcEnd
  simp only [arcOwner_some hread harc, checkType_iff hread hbeg, checkType_iff hread hend]
  have hone := @matches3_fixed c param1 param2 param3 h2 harc
  simp only [fits_assign h1, fits_assign h3] at hone
  split_ifs with htypes
  · exact agrees_true ((hone _).mpr ⟨rfl, htypes⟩)
  · exact agrees_false fun t ht => htypes ((hone t).mp ht).2

theorem searchElStr3FFF_agrees (hread : ∀ x, Live c x → CanRead ctx c x)
    (h1 : param1.paramType = .fixed) (h2 : param2.paramType = .fixed) (h3 : param3.paramType = .fixed)
    (harc : LiveArc c param2.addr) :
    Agrees3 c param1 param2 param3 (searchElStr3FFF c ctx param1 param2 param3) := by
  have hone := @matches3_fixed c param1 param2 param3 h2 harc
  simp only [fits_fixed h1, fits_fixed h3] at hone
  unfold searchElStr3FFF scMemoryGetArcBegin scMemoryGetArcEnd
  simp only [arcOwner_some hread harc]
  split_ifs with hends
  · refine agrees_true ((hone _).mpr ⟨?_, hends.1.symm, hends.2.symm⟩)
    rw [← hends.1, ← hends.2]
  · exact agrees_false fun t ht => hends ⟨((hone t).mp ht).2.1.symm, ((hone t).mp ht).2.2.symm⟩

/-! The inverted tests of the types. -/

theorem searchElStr3FFA_agrees_iff (hc : ArcsOk c) (hread : ∀ x, Live c x → CanRead ctx c x)
    (h1 : param1.paramType = .fixed) (h2 : param2.paramType = .fixed) (h3 : param3.paramType = .assign)
    (harc : LiveArc c param2.addr) :
    Agrees3 c param1 param2 param3 (searchElStr3FFA c ctx param1 param2 param3) ↔
      param1.addr ≠ ownerOf c .out param2.addr := by
  have hone := @matches3_fixed c param1 param2 param3 h2 harc
  simp only [fits_fixed h1, fits_assign h3] at hone
  unfold searchElStr3FFA scMemoryGetArcBegin scMemoryGetArcEnd
  simp only [arcOwner_some hread harc, checkType_iff hread (hc.endpoint _ .inp harc)]
  split_ifs with hbeg htype
  · -- the triple is there, and is refused
    exact iff_of_false (not_agrees_false ((hone _).mpr ⟨rfl, hbeg.symm, htype⟩)) fun hne => hne hbeg
  · -- the end has another type, and is taken
    exact iff_of_false (fun hag => htype ((hone _).mp (hag.held rfl)).2.2) fun hne => hne hbeg
  · exact iff_of_true (agrees_false fun t ht => hbeg ((hone t).mp ht).2.1.symm) hbeg

theorem searchElStr3AFF_agrees_iff (hc : ArcsOk c) (hread : ∀ x, Live c x → CanRead ctx c x)
    (h1 : param1.paramType = .assign) (h2 : param2.paramType = .fixed) (h3 : param3.paramType = .fixed)
    (harc : LiveArc c param2.addr) :
    Agrees3 c param1 param2 param3 (searchElStr3AFF c ctx param1 param2 param3) ↔
      param3.addr ≠ ownerOf c .inp param2.addr := by
  have hone := @matches3_fixed c param1 param2 param3 h2 harc
  simp only [fits_assign h1, fits_fixed h3] at hone
  unfold searchElStr3AFF scMemoryGetArcBegin scMemoryGetArcEnd
  simp only [arcOwner_some hread harc, checkType_iff hread (hc.endpoint _ .out harc)]
  split_ifs with hend htype
  · exact iff_of_false (not_agrees_false ((hone _).mpr ⟨rfl, htype, hend.symm⟩)) fun hne => hne hend
  · exact iff_of_false (fun hag => htype ((hone _).mp (hag.held rfl)).2.1) fun hne => hne hend
  · exact iff_of_true (agrees_false fun t ht => hend ((hone t).mp ht).2.2.symm) hend

/-! The constructions of five elements. -/

/-- With two fixed arcs only one construction can match. -/
theorem matches5_fixed (h1 : param1.paramType = .fixed) (h2 : param2.paramType = .fixed)
    (h3 : param3.paramType = .fixed) (h4 : param4.paramType = .fixed) (h5 : param5.paramType = .fixed)
    (harc1 : LiveArc c param2.addr) (harc2 : LiveArc c param4.addr) (t : FiveAddrs) :
    Matches5 c param1 param2 param3 param4 param5 t ↔
      t = (param1.addr, param2.addr, param3.addr, param4.addr, param5.addr) ∧
        param1.addr = ownerOf c .out param2.addr ∧ param3.addr = ownerOf c .inp param2.addr ∧
        param5.addr = ownerOf c .out param4.addr ∧ param2.addr = ownerOf c .inp param4.addr := by
  constructor
  · intro hm
    obtain ⟨a, e1, b, e2, f⟩ := t
    obtain ⟨⟨_, ho1, hi1, hf1, hf2, hf3⟩, ⟨_, ho2, hi2, hf5, hf4, _⟩⟩ := hm
    dsimp only at ho1 hi1 hf1 hf2 hf3 ho2 hi2 hf5 hf4
    rw [fits_fixed h1] at hf1
    rw [fits_fixed h2] at hf2
    rw [fits_fixed h3] at hf3
    rw [fits_fixed h4] at hf4
    rw [fits_fixed h5] at hf5
    subst hf1 hf2 hf3 hf4 hf5
    exact ⟨rfl, ho1.symm, hi1.symm, ho2.symm, hi2.symm⟩
  · rintro ⟨rfl, ho1, hi1, ho2, hi2⟩
    have hf2 := (fits_fixed (c := c) h2).mpr rfl
    exact ⟨⟨harc1, ho1.symm, hi1.symm, (fits_fixed h1).mpr rfl, hf2, (fits_fixed h3).mpr rfl⟩,
      ⟨harc2, ho2.symm, hi2.symm, (fits_fixed h5).mpr rfl, (fits_fixed h4).mpr rfl, hf2⟩⟩

theorem searchElStr5FFFFF_agrees_iff (hread : ∀ x, Live c x → CanRead ctx c x)
    (h1 : param1.paramType = .fixed) (h2 : param2.paramType = .fixed)
    (h3 : param3.paramType = .fixed) (h4 : param4.paramType = .fixed) (h5 : param5.paramType = .fixed)
    (harc1 : LiveArc c param2.addr) (harc2 : LiveArc c param4.addr) :
    Agrees5 c param1 param2 param3 param4 param5
        (searchElStr5FFFFF c ctx param1 param2 param3 param4 param5) ↔
      (param1.addr = ownerOf c .out param2.addr → param5.addr = ownerOf c .out param4.addr →
        param2.addr = ownerOf c .inp param4.addr →
        (param3.addr = ownerOf c .inp param4.addr ↔ param3.addr = ownerOf c .inp param2.addr)) := by
  have hone := matches5_fixed h1 h2 h3 h4 h5 harc1 harc2
  unfold searchElStr5FFFFF scMemoryGetArcBegin scMemoryGetArcEnd
  simp only [arcOwner_some hread harc1, arcOwner_some hread harc2]
  split_ifs with htest
  · obtain ⟨hbeg1, hend, hbeg2, harc⟩ := htest
    constructor
    · intro hag _ _ _
      exact iff_of_true hend ((hone _).mp (hag.held rfl)).2.2.1
    · intro hsame
      exact agrees_true ((hone _).mpr ⟨rfl, hbeg1, (hsame hbeg1 hbeg2 harc).mp hend, hbeg2, harc⟩)
  · constructor
    · intro hag hbeg1 hbeg2 harc
      apply iff_of_false
      · intro hend
        exact htest ⟨hbeg1, hend, hbeg2, harc⟩
      · intro hend
        exact not_agrees_false ((hone _).mpr ⟨rfl, hbeg1, hend, hbeg2, harc⟩) hag
    · intro hsame
      apply agrees_false
      intro t ht
      obtain ⟨_, hbeg1, hend, hbeg2, harc⟩ := (hone t).mp ht
      exact htest ⟨hbeg1, (hsame hbeg1 hbeg2 harc).mpr hend, hbeg2, harc⟩

/-- The first arc that the second one leads to is an arc with ends of the types. -/
def FirstArcFits (c : Cells) (ctx : ScContext) (param1 param2 param3 param4 param5 : ScpOperand) : Prop :=
  ∀ t ∈ (iterated c ctx (.faa param5.addr param4.elementType param2.elementType)).head?,
    LiveArc c t.target ∧ HasType c (ownerOf c .out t.target) param1.elementType ∧
      HasType c (ownerOf c .inp t.target) param3.elementType

theorem searchElStr5AAAAF_agrees_iff (hc : ArcsOk c) (hread : ∀ x, Live c x → CanRead ctx c x)
    (h1 : param1.paramType = .assign) (h2 : param2.paramType = .assign)
    (h3 : param3.paramType = .assign) (h4 : param4.paramType = .assign) (h5 : param5.paramType = .fixed) :
    Agrees5 c param1 param2 param3 param4 param5
        (searchElStr5AAAAF c ctx param1 param2 param3 param4 param5) ↔
      FirstArcFits c ctx param1 param2 param3 param4 param5 := by
  have hmem := mem_iterator3_faa hc hread param5.addr param4.elementType param2.elementType
  rw [← param_fixed h5, ← param_assign h4, ← param_assign h2] at hmem
  unfold searchElStr5AAAAF FirstArcFits iterated
  cases hfirst : ((iterator3 c ctx (.faa param5.addr param4.elementType param2.elementType)).getD []).head? with
  | none =>
    refine iff_of_true (agrees_false ?_) nofun
    rintro ⟨a, e1, b, e2, f⟩ ⟨_, htriple⟩
    have hin := (hmem _).mpr htriple
    rw [List.head?_eq_none_iff.mp hfirst] at hin
    cases hin
  | some t =>
    have htriple := (hmem t).mp (List.mem_of_mem_head? hfirst)
    simp only [Option.mem_def, Option.some.injEq, forall_eq']
    constructor
    · intro hag
      obtain ⟨⟨harc, ho, hi, hf1, _, hf3⟩, _⟩ := hag.held rfl
      dsimp only at harc ho hi hf1 hf3
      rw [← ho] at hf1
      rw [← hi] at hf3
      exact ⟨harc, (fits_assign h1).mp hf1, (fits_assign h3).mp hf3⟩
    · rintro ⟨harc, htype1, htype3⟩
      apply agrees_true
      unfold scMemoryGetArcBegin scMemoryGetArcEnd
      rw [arcOwner_some hread harc, arcOwner_some hread harc]
      have hf5 : param5.addr = t.source := ((fits_fixed h5).mp htriple.fits.1).symm
      rw [hf5]
      exact ⟨⟨harc, rfl, rfl, (fits_assign h1).mpr htype1, htriple.fits.2.2, (fits_assign h3).mpr htype3⟩,
        htriple⟩

theorem searchElStr5FAAAA_agrees (hc : ArcsOk c) (hread : ∀ x, Live c x → CanRead ctx c x)
    (h1 : param1.paramType = .fixed) (h2 : param2.paramType = .assign)
    (h3 : param3.paramType = .assign) (h4 : param4.paramType = .assign)
    (h5 : param5.paramType = .assign) :
    Agrees5 c param1 param2 param3 param4 param5
      (searchElStr5FAAAA c ctx param1 param2 param3 param4 param5) := by
  have htype : Iterator5Params.ofType .faaaa param1.param param2.param param3.param param4.param
      param5.param = some (.faa param1.addr param2.elementType param3.elementType
        ⟨param4.elementType, .type param5.elementType⟩) := by
    rw [param_fixed h1, param_assign h2, param_assign h3, param_assign h4, param_assign h5]
    rfl
  refine agrees_first (mem_iterated5 hc hread htype) (fun t ht => ?_) (fun hno => ?_)
  · unfold searchElStr5FAAAA
    rw [ht]
    refine ⟨rfl, fun hm => ?_⟩
    obtain ⟨a, e1, b, e2, f⟩ := t
    dsimp only [Matches5] at hm ⊢
    rw [← (fits_fixed h1).mp hm.1.fits.1]
  · unfold searchElStr5FAAAA
    rw [hno]

theorem searchElStr5AAFAA_agrees (hc : ArcsOk c) (hread : ∀ x, Live c x → CanRead ctx c x)
    (h1 : param1.paramType = .assign) (h2 : param2.paramType = .assign)
    (h3 : param3.paramType = .fixed) (h4 : param4.paramType = .assign)
    (h5 : param5.paramType = .assign) :
    Agrees5 c param1 param2 param3 param4 param5
      (searchElStr5AAFAA c ctx param1 param2 param3 param4 param5) := by
  have htype : Iterator5Params.ofType .aafaa param1.param param2.param param3.param param4.param
      param5.param = some (.aaf param1.elementType param2.elementType param3.addr
        ⟨param4.elementType, .type param5.elementType⟩) := by
    rw [param_assign h1, param_assign h2, param_fixed h3, param_assign h4, param_assign h5]
    rfl
  refine agrees_first (mem_iterated5 hc hread htype) (fun t ht => ?_) (fun hno => ?_)
  · unfold searchElStr5AAFAA
    rw [ht]
    refine ⟨rfl, fun hm => ?_⟩
    obtain ⟨a, e1, b, e2, f⟩ := t
    dsimp only [Matches5] at hm ⊢
    rw [← (fits_fixed h3).mp hm.1.fits.2.2]
  · unfold searchElStr5AAFAA
    rw [hno]

theorem searchElStr5FAFAA_agrees (hc : ArcsOk c) (hread : ∀ x, Live c x → CanRead ctx c x)
    (h1 : param1.paramType = .fixed) (h2 : param2.paramType = .assign)
    (h3 : param3.paramType = .fixed) (h4 : param4.paramType = .assign)
    (h5 : param5.paramType = .assign) :
    Agrees5 c param1 param2 param3 param4 param5
      (searchElStr5FAFAA c ctx param1 param2 param3 param4 param5) := by
  have htype : Iterator5Params.ofType .fafaa param1.param param2.param param3.param param4.param
      param5.param = some (.faf param1.addr param2.elementType param3.addr
        ⟨param4.elementType, .type param5.elementType⟩) := by
    rw [param_fixed h1, param_assign h2, param_fixed h3, param_assign h4, param_assign h5]
    rfl
  refine agrees_first (mem_iterated5 hc hread htype) (fun t ht => ?_) (fun hno => ?_)
  · unfold searchElStr5FAFAA
    rw [ht]
    refine ⟨rfl, fun hm => ?_⟩
    obtain ⟨a, e1, b, e2, f⟩ := t
    dsimp only [Matches5] at hm ⊢
    rw [← (fits_fixed h1).mp hm.1.fits.1, ← (fits_fixed h3).mp hm.1.fits.2.2]
  · unfold searchElStr5FAFAA
    rw [hno]

theorem searchElStr5FAAAF_agrees (hc : ArcsOk c) (hread : ∀ x, Live c x → CanRead ctx c x)
    (h1 : param1.paramType = .fixed) (h2 : param2.paramType = .assign)
    (h3 : param3.paramType = .assign) (h4 : param4.paramType = .assign)
    (h5 : param5.paramType = .fixed) :
    Agrees5 c param1 param2 param3 param4 param5
      (searchElStr5FAAAF c ctx param1 param2 param3 param4 param5) := by
  have htype : Iterator5Params.ofType .faaaf param1.param param2.param param3.param param4.param
      param5.param = some (.faa param1.addr param2.elementType param3.elementType
        ⟨param4.elementType, .addr param5.addr⟩) := by
    rw [param_fixed h1, param_assign h2, param_assign h3, param_assign h4, param_fixed h5]
    rfl
  refine agrees_first (mem_iterated5 hc hread htype) (fun t ht => ?_) (fun hno => ?_)
  · unfold searchElStr5FAAAF
    rw [ht]
    refine ⟨rfl, fun hm => ?_⟩
    obtain ⟨a, e1, b, e2, f⟩ := t
    dsimp only [Matches5] at hm ⊢
    rw [← (fits_fixed h1).mp hm.1.fits.1, ← (fits_fixed h5).mp hm.2.fits.1]
  · unfold searchElStr5FAAAF
    rw [hno]

theorem searchElStr5AAFAF_agrees (hc : ArcsOk c) (hread : ∀ x, Live c x → CanRead ctx c x)
    (h1 : param1.paramType = .assign) (h2 : param2.paramType = .assign)
    (h3 : param3.paramType = .fixed) (h4 : param4.paramType = .assign)
    (h5 : param5.paramType = .fixed) :
    Agrees5 c param1 param2 param3 param4 param5
      (searchElStr5AAFAF c ctx param1 param2 param3 param4 param5) := by
  have htype : Iterator5Params.ofType .aafaf param1.param param2.param param3.param param4.param
      param5.param = some (.aaf param1.elementType param2.elementType param3.addr
        ⟨param4.elementType, .addr param5.addr⟩) := by
    rw [param_assign h1, param_assign h2, param_fixed h3, param_assign h4, param_fixed h5]
    rfl
  refine agrees_first (mem_iterated5 hc hread htype) (fun t ht => ?_) (fun hno => ?_)
  · unfold searchElStr5AAFAF
    rw [ht]
    refine ⟨rfl, fun hm => ?_⟩
    obtain ⟨a, e1, b, e2, f⟩ := t
    dsimp only [Matches5] at hm ⊢
    rw [← (fits_fixed h3).mp hm.1.fits.2.2, ← (fits_fixed h5).mp hm.2.fits.1]
  · unfold searchElStr5AAFAF
    rw [hno]

theorem searchElStr5FAFAF_agrees (hc : ArcsOk c) (hread : ∀ x, Live c x → CanRead ctx c x)
    (h1 : param1.paramType = .fixed) (h2 : param2.paramType = .assign)
    (h3 : param3.paramType = .fixed) (h4 : param4.paramType = .assign)
    (h5 : param5.paramType = .fixed) :
    Agrees5 c param1 param2 param3 param4 param5
      (searchElStr5FAFAF c ctx param1 param2 param3 param4 param5) := by
  have htype : Iterator5Params.ofType .fafaf param1.param param2.param param3.param param4.param
      param5.param = some (.faf param1.addr param2.elementType param3.addr
        ⟨param4.elementType, .addr param5.addr⟩) := by
    rw [param_fixed h1, param_assign h2, param_fixed h3, param_assign h4, param_fixed h5]
    rfl
  refine agrees_first (mem_iterated5 hc hread htype) (fun t ht => ?_) (fun hno => ?_)
  · unfold searchElStr5FAFAF
    rw [ht]
    refine ⟨rfl, fun hm => ?_⟩
    obtain ⟨a, e1, b, e2, f⟩ := t
    dsimp only [Matches5] at hm ⊢
    rw [← (fits_fixed h1).mp hm.1.fits.1, ← (fits_fixed h3).mp hm.1.fits.2.2, ← (fits_fixed h5).mp hm.2.fits.1]
  · unfold searchElStr5FAFAF
    rw [hno]

/-! The operators. -/

/-- A fixed operand has an element. -/
def ScpOperand.HasValue (c : Cells) (param : ScpOperand) : Prop := param.paramType = .fixed → Live c param.addr

/-- A fixed operand has an arc. -/
def ScpOperand.HasArc (c : Cells) (param : ScpOperand) : Prop :=
  param.paramType = .fixed → LiveArc c param.addr ∧ ¬ HasType c param.addr scTypeNode

/-- The operands that `searchElStr3` has a function for. -/
def Dispatched3 (c : Cells) (param1 param2 param3 : ScpOperand) : Prop :=
  ¬ (param1.paramType = .assign ∧ param2.paramType = .assign ∧ param3.paramType = .assign) ∧
    param1.HasValue c ∧ param2.HasArc c ∧ param3.HasValue c

/-- The combinations that `searchElStr5` has a function for. -/
def supported5 : List (List ScpParamType) :=
  [[.fixed, .fixed, .fixed, .fixed, .fixed], [.fixed, .assign, .fixed, .assign, .fixed],
    [.fixed, .assign, .assign, .assign, .fixed], [.fixed, .assign, .fixed, .assign, .assign],
    [.assign, .assign, .fixed, .assign, .fixed], [.assign, .assign, .fixed, .assign, .assign],
    [.fixed, .assign, .assign, .assign, .assign], [.assign, .assign, .assign, .assign, .fixed]]

/-- The operands that `searchElStr5` has a function for. -/
def Dispatched5 (c : Cells) (param1 param2 param3 param4 param5 : ScpOperand) : Prop :=
  [param1.paramType, param2.paramType, param3.paramType, param4.paramType, param5.paramType] ∈ supported5 ∧
    param1.HasValue c ∧ param2.HasArc c ∧ param3.HasValue c ∧ param4.HasArc c ∧ param5.HasValue c

/-- The end that is fixed beside a fixed arc is not the end of this arc, when the other one is assigned. -/
def TypesTested3 (c : Cells) (param1 param2 param3 : ScpOperand) : Prop :=
  match param1.paramType, param2.paramType, param3.paramType with
  | .fixed, .fixed, .assign => param1.addr ≠ ownerOf c .out param2.addr
  | .assign, .fixed, .fixed => param3.addr ≠ ownerOf c .inp param2.addr
  | _, _, _ => True

/-- With five fixed operands of which all but the third agree, the third is the end of both arcs or of
neither; with only the fifth one fixed, the first arc that is found fits the first three. -/
def EndsTested5 (c : Cells) (ctx : ScContext) (param1 param2 param3 param4 param5 : ScpOperand) : Prop :=
  match param1.paramType, param2.paramType, param3.paramType, param4.paramType, param5.paramType with
  | .fixed, .fixed, .fixed, .fixed, .fixed =>
    param1.addr = ownerOf c .out param2.addr → param5.addr = ownerOf c .out param4.addr →
      param2.addr = ownerOf c .inp param4.addr →
      (param3.addr = ownerOf c .inp param4.addr ↔ param3.addr = ownerOf c .inp param2.addr)
  | .assign, .assign, .assign, .assign, .fixed => FirstArcFits c ctx param1 param2 param3 param4 param5
  | _, _, _, _, _ => True

theorem noValue_of_hasValue {param : ScpOperand} (h : param.HasValue c) : param.noValue c = false := by
  unfold ScpOperand.noValue
  rw [decide_eq_false_iff_not, not_and_not_right]
  exact h

theorem noArc_of_hasArc (hread : ∀ x, Live c x → CanRead ctx c x) {param : ScpOperand} (h : param.HasArc c) :
    param.noValue c = false ∧ param.noArc c ctx = false := by
  constructor
  · exact noValue_of_hasValue fun hfixed => (h hfixed).1.1
  · unfold ScpOperand.noArc
    rw [decide_eq_false_iff_not, not_and]
    intro hfixed
    rw [checkType_iff hread (h hfixed).1.1]
    exact (h hfixed).2

theorem searchElStr3_agrees_iff (hc : ArcsOk c) (hread : ∀ x, Live c x → CanRead ctx c x)
    (hready : Dispatched3 c param1 param2 param3) :
    Agrees3 c param1 param2 param3 (searchElStr3 c ctx param1 param2 param3) ↔
      TypesTested3 c param1 param2 param3 := by
  obtain ⟨hsome, hv1, hv2, hv3⟩ := hready
  obtain ⟨hn2, ha2⟩ := noArc_of_hasArc hread hv2
  unfold searchElStr3 TypesTested3
  rw [noValue_of_hasValue hv1, hn2, ha2, noValue_of_hasValue hv3]
  simp only [Bool.or_self, Bool.false_eq_true, if_false]
  rcases h1 : param1.paramType with _ | _ <;> rcases h2 : param2.paramType with _ | _ <;>
    rcases h3 : param3.paramType with _ | _
  · exact absurd ⟨h1, h2, h3⟩ hsome
  · exact iff_true_intro (searchElStr3AAF_agrees hc hread h1 h2 h3)
  · exact iff_true_intro (searchElStr3AFA_agrees hc hread h1 h2 h3 (hv2 h2).1)
  · exact searchElStr3AFF_agrees_iff hc hread h1 h2 h3 (hv2 h2).1
  · exact iff_true_intro (searchElStr3FAA_agrees hc hread h1 h2 h3)
  · exact iff_true_intro (searchElStr3FAF_agrees hc hread h1 h2 h3)
  · exact searchElStr3FFA_agrees_iff hc hread h1 h2 h3 (hv2 h2).1
  · exact iff_true_intro (searchElStr3FFF_agrees hread h1 h2 h3 (hv2 h2).1)

theorem searchElStr5_agrees_iff (hc : ArcsOk c) (hread : ∀ x, Live c x → CanRead ctx c x)
    (hready : Dispatched5 c param1 param2 param3 param4 param5) :
    Agrees5 c param1 param2 param3 param4 param5 (searchElStr5 c ctx param1 param2 param3 param4 param5) ↔
      EndsTested5 c ctx param1 param2 param3 param4 param5 := by
  obtain ⟨hkind, hv1, hv2, hv3, hv4, hv5⟩ := hready
  obtain ⟨hn2, ha2⟩ := noArc_of_hasArc hread hv2
  obtain ⟨hn4, ha4⟩ := noArc_of_hasArc hread hv4
  unfold searchElStr5 EndsTested5
  rw [noValue_of_hasValue hv1, hn2, ha2, noValue_of_hasValue hv3, hn4, ha4, noValue_of_hasValue hv5]
  simp only [Bool.or_self, Bool.false_eq_true, if_false]
  simp only [supported5, List.mem_cons, List.cons.injEq, List.not_mem_nil, and_true, or_false] at hkind
  rcases hkind with ⟨h1, h2, h3, h4, h5⟩ | ⟨h1, h2, h3, h4, h5⟩ | ⟨h1, h2, h3, h4, h5⟩ |
    ⟨h1, h2, h3, h4, h5⟩ | ⟨h1, h2, h3, h4, h5⟩ | ⟨h1, h2, h3, h4, h5⟩ | ⟨h1, h2, h3, h4, h5⟩ |
    ⟨h1, h2, h3, h4, h5⟩ <;> rw [h1, h2, h3, h4, h5]
  · exact searchElStr5FFFFF_agrees_iff hread h1 h2 h3 h4 h5 (hv2 h2).1 (hv4 h4).1
  · exact iff_true_intro (searchElStr5FAFAF_agrees hc hread h1 h2 h3 h4 h5)
  · exact iff_true_intro (searchElStr5FAAAF_agrees hc hread h1 h2 h3 h4 h5)
  · exact iff_true_intro (searchElStr5FAFAA_agrees hc hread h1 h2 h3 h4 h5)
  · exact iff_true_intro (searchElStr5AAFAF_agrees hc hread h1 h2 h3 h4 h5)
  · exact iff_true_intro (searchElStr5AAFAA_agrees hc hread h1 h2 h3 h4 h5)
  · exact iff_true_intro (searchElStr5FAAAA_agrees hc hread h1 h2 h3 h4 h5)
  · exact searchElStr5AAAAF_agrees_iff hc hread h1 h2 h3 h4 h5

end

/-- In every reachable state, for a context that may read everything: the searches agree with what their
operands stand for exactly outside the wrong tests. -/
theorem element_search_exact_iff (thread : ℕ) (evs : List StoreEvent) (st : ScStorage)
    (hr : Run (OwnStep thread) ScStorage.empty evs st) (ctx : ScContext)
    (hread : ∀ x, Live st.cell x → CanRead ctx st.cell x) :
    (∀ param1 param2 param3, Dispatched3 st.cell param1 param2 param3 →
      (Agrees3 st.cell param1 param2 param3 (searchElStr3 st.cell ctx param1 param2 param3) ↔
        TypesTested3 st.cell param1 param2 param3)) ∧
    ∀ param1 param2 param3 param4 param5, Dispatched5 st.cell param1 param2 param3 param4 param5 →
      (Agrees5 st.cell param1 param2 param3 param4 param5
          (searchElStr5 st.cell ctx param1 param2 param3 param4 param5) ↔
        EndsTested5 st.cell ctx param1 param2 param3 param4 param5) := by
  have hc := (ownRun_storeOk evs st hr).cells.arcs
  constructor
  · intro param1 param2 param3 hready
    exact searchElStr3_agrees_iff hc hread hready
  · intro param1 param2 param3 param4 param5 hready
    exact searchElStr5_agrees_iff hc hread hready

/-- A fixed operand, and one that is to be assigned. -/
def fixedOperand (a : ScAddr) : ScpOperand := ⟨a, .fixed, 0⟩

def assignOperand (type : ScType) : ScpOperand := ⟨ScAddr.empty, .assign, type⟩

theorem everything_readable (c : Cells) (x : ScAddr) (_ : Live c x) : CanRead exampleContext c x :=
  Agent.canRead_full (show exampleContext.accessLevels = scAccessLvlMakeMax from rfl) c x

theorem element_search_exact_storeWithAttribute :
    (Agrees3 storeWithAttribute.cell (fixedOperand ⟨0, 33⟩) (fixedOperand ⟨0, 65⟩) (assignOperand scTypeNode)
        (searchElStr3 storeWithAttribute.cell exampleContext (fixedOperand ⟨0, 33⟩) (fixedOperand ⟨0, 65⟩)
          (assignOperand scTypeNode)) ↔
      TypesTested3 storeWithAttribute.cell (fixedOperand ⟨0, 33⟩) (fixedOperand ⟨0, 65⟩)
        (assignOperand scTypeNode)) ∧
    (Agrees5 storeWithAttribute.cell (fixedOperand ⟨0, 1⟩) (assignOperand 0) (assignOperand scTypeNode)
        (assignOperand 0) (assignOperand scTypeNode)
        (searchElStr5 storeWithAttribute.cell exampleContext (fixedOperand ⟨0, 1⟩) (assignOperand 0)
          (assignOperand scTypeNode) (assignOperand 0) (assignOperand scTypeNode)) ↔
      EndsTested5 storeWithAttribute.cell exampleContext (fixedOperand ⟨0, 1⟩) (assignOperand 0)
        (assignOperand scTypeNode) (assignOperand 0) (assignOperand scTypeNode)) := by
  have harc : LiveArc storeWithAttribute.cell ⟨0, 65⟩ ∧ ¬ HasType storeWithAttribute.cell ⟨0, 65⟩ scTypeNode := by
    decide +kernel
  have hlive : Live storeWithAttribute.cell ⟨0, 1⟩ ∧ Live storeWithAttribute.cell ⟨0, 33⟩ := by
    decide +kernel
  obtain ⟨h3, h5⟩ := element_search_exact_iff 1 attributeEvents storeWithAttribute storeWithAttribute_run
    exampleContext (everything_readable _)
  refine ⟨h3 _ _ _ ⟨nofun, fun _ => hlive.2, fun _ => harc, nofun⟩,
    h5 _ _ _ _ _ ⟨by decide, fun _ => hlive.1, nofun, nofun, nofun, nofun⟩⟩

/-- With its begin fixed the arc is not found, for all that its end is a node; with all five elements of a
construction fixed it is not found; and a node is taken for the first arc. -/
theorem element_search_wrong :
    (Dispatched3 storeWithAttribute.cell (fixedOperand ⟨0, 1⟩) (fixedOperand ⟨0, 65⟩) (assignOperand scTypeNode) ∧
      ¬ Agrees3 storeWithAttribute.cell (fixedOperand ⟨0, 1⟩) (fixedOperand ⟨0, 65⟩) (assignOperand scTypeNode)
        (searchElStr3 storeWithAttribute.cell exampleContext (fixedOperand ⟨0, 1⟩) (fixedOperand ⟨0, 65⟩)
          (assignOperand scTypeNode))) ∧
    (Dispatched5 storeWithAttribute.cell (fixedOperand ⟨0, 1⟩) (fixedOperand ⟨0, 65⟩) (fixedOperand ⟨0, 33⟩)
        (fixedOperand ⟨0, 97⟩) (fixedOperand ⟨0, 33⟩) ∧
      ¬ Agrees5 storeWithAttribute.cell (fixedOperand ⟨0, 1⟩) (fixedOperand ⟨0, 65⟩) (fixedOperand ⟨0, 33⟩)
        (fixedOperand ⟨0, 97⟩) (fixedOperand ⟨0, 33⟩)
        (searchElStr5 storeWithAttribute.cell exampleContext (fixedOperand ⟨0, 1⟩) (fixedOperand ⟨0, 65⟩)
          (fixedOperand ⟨0, 33⟩) (fixedOperand ⟨0, 97⟩) (fixedOperand ⟨0, 33⟩))) ∧
    Dispatched5 storeWithAttribute.cell (assignOperand 0) (assignOperand 0) (assignOperand 0) (assignOperand 0)
        (fixedOperand ⟨0, 1⟩) ∧
      ¬ Agrees5 storeWithAttribute.cell (assignOperand 0) (assignOperand 0) (assignOperand 0)
        (assignOperand 0) (fixedOperand ⟨0, 1⟩)
        (searchElStr5 storeWithAttribute.cell exampleContext (assignOperand 0) (assignOperand 0)
          (assignOperand 0) (assignOperand 0) (fixedOperand ⟨0, 1⟩)) := by
  have hc := (ownRun_storeOk _ _ storeWithAttribute_run).cells.arcs
  have hread := everything_readable storeWithAttribute.cell
  have harc1 : LiveArc storeWithAttribute.cell ⟨0, 65⟩ ∧ ¬ HasType storeWithAttribute.cell ⟨0, 65⟩ scTypeNode := by
    decide +kernel
  have harc2 : LiveArc storeWithAttribute.cell ⟨0, 97⟩ ∧ ¬ HasType storeWithAttribute.cell ⟨0, 97⟩ scTypeNode := by
    decide +kernel
  have hlive : Live storeWithAttribute.cell ⟨0, 1⟩ ∧ Live storeWithAttribute.cell ⟨0, 33⟩ := by
    decide +kernel
  have hends : ownerOf storeWithAttribute.cell .out ⟨0, 65⟩ = ⟨0, 1⟩ ∧
      ownerOf storeWithAttribute.cell .inp ⟨0, 65⟩ = ⟨0, 33⟩ ∧
      ownerOf storeWithAttribute.cell .out ⟨0, 97⟩ = ⟨0, 33⟩ ∧
      ownerOf storeWithAttribute.cell .inp ⟨0, 97⟩ = ⟨0, 65⟩ := by
    decide +kernel
  obtain ⟨hout1, hinp1, hout2, hinp2⟩ := hends
  have hfirst : (iterated storeWithAttribute.cell exampleContext (.faa ⟨0, 1⟩ 0 0)).head? =
      some ⟨⟨0, 1⟩, ⟨0, 65⟩, ⟨0, 33⟩⟩ := by
    decide +kernel
  have hnode : ¬ LiveArc storeWithAttribute.cell ⟨0, 33⟩ := by
    decide +kernel
  have h3 : Dispatched3 storeWithAttribute.cell (fixedOperand ⟨0, 1⟩) (fixedOperand ⟨0, 65⟩)
      (assignOperand scTypeNode) := ⟨nofun, fun _ => hlive.1, fun _ => harc1, nofun⟩
  have h5 : Dispatched5 storeWithAttribute.cell (fixedOperand ⟨0, 1⟩) (fixedOperand ⟨0, 65⟩)
      (fixedOperand ⟨0, 33⟩) (fixedOperand ⟨0, 97⟩) (fixedOperand ⟨0, 33⟩) :=
    ⟨by decide, fun _ => hlive.1, fun _ => harc1, fun _ => hlive.2, fun _ => harc2, fun _ => hlive.2⟩
  have h1 : Dispatched5 storeWithAttribute.cell (assignOperand 0) (assignOperand 0) (assignOperand 0)
      (assignOperand 0) (fixedOperand ⟨0, 1⟩) := ⟨by decide, nofun, nofun, nofun, nofun, fun _ => hlive.1⟩
  refine ⟨⟨h3, fun hag => ?_⟩, ⟨h5, fun hag => ?_⟩, h1, fun hag => ?_⟩
  · have htest := (searchElStr3_agrees_iff hc hread h3).mp hag
    exact htest hout1.symm
  · have htest := (searchElStr5_agrees_iff hc hread h5).mp hag hout1.symm hout2.symm hinp2.symm
    have hthird : (⟨0, 33⟩ : ScAddr) = ⟨0, 65⟩ := (htest.mpr hinp1.symm).trans hinp2
    exact absurd hthird (by decide)
  · have htest := (searchElStr5_agrees_iff hc hread h1).mp hag
    exact hnode (htest ⟨⟨0, 1⟩, ⟨0, 65⟩, ⟨0, 33⟩⟩ hfirst).1

end ScMachine.Scp
