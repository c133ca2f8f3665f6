import ScMachine.ScpOperands

/-! What the operands of an scp operator are evaluated to, when the old values of some variables are erased
while those of others are read. -/
namespace ScMachine.Scp
open ScMachine.Store ScMachine.Template ScMachine.StateExcept ScMachine.Runs ScMachine.Agent

/-- The arc `e` leads from the variable to its value `v`, and the arc `a` from the relation to `e`. -/
structure ValueArc (c : Cells) (nrelValue x e v a : ScAddr) : Prop where
  arc : LiveArc c e
  source : ownerOf c .out e = x
  target : ownerOf c .inp e = v
  type : HasType c e (scTypeArcCommon ||| scTypeConst)
  mark : LiveArc c a
  markSource : ownerOf c .out a = nrelValue
  markTarget : ownerOf c .inp a = e
  markType : HasType c a scpTypeArcPosConstPerm

/-- The value is the only one, by one construction. -/
def OnlyValue (c : Cells) (nrelValue x v : ScAddr) : Prop :=
  ∃ e a, ∀ e' v' a', ValueArc c nrelValue x e' v' a' ↔ e' = e ∧ v' = v ∧ a' = a

/-- A variable has at most one value, by one construction. -/
def ValueUnique (c : Cells) (nrelValue x : ScAddr) : Prop :=
  ∀ e v a e' v' a', ValueArc c nrelValue x e v a → ValueArc c nrelValue x e' v' a' → e = e' ∧ v = v' ∧ a = a'

/-- No constant is to be assigned, and each variable that is to be read has a value. -/
def Evaluable (c : Cells) (nrelValue : ScAddr) (operands : List OperatorOperand) : Prop :=
  ∀ operand ∈ operands, (operand.paramType = .assign → operand.operandType = .var) ∧
    (operand.paramType = .fixed → operand.operandType = .var → ∃ e v a, ValueArc c nrelValue operand.addr e v a)

/-- A fixed variable is replaced by its value, the other operands are as they are. -/
def Evaluated (c : Cells) (nrelValue : ScAddr) (operand value : OperatorOperand) : Prop :=
  if operand.paramType = .fixed ∧ operand.operandType = .var then
    ∃ e v a, ValueArc c nrelValue operand.addr e v a ∧ value = { operand with addr := v }
  else value = operand

/-- For an assigned variable the arc to its value is erased, if its construction has not gone with one that
has been erased before. -/
def eraseStep (c : Cells) (nrelValue : ScAddr) (es : Set ScAddr) (operand : OperatorOperand) : Set ScAddr :=
  if operand.paramType = .assign then
    es ∪ {e | ∃ v a, ValueArc c nrelValue operand.addr e v a ∧ ∀ e' ∈ es, ¬ InClosure c e' a}
  else es

def erasedArcs (c : Cells) (nrelValue : ScAddr) (operands : List OperatorOperand) (es : Set ScAddr) :
    Set ScAddr := operands.foldl (eraseStep c nrelValue) es

/-- No variable that is read has its value construction in the closure of an arc that is erased before. -/
def FixedKept (c : Cells) (nrelValue : ScAddr) (es : Set ScAddr) (operands : List OperatorOperand) : Prop :=
  ∀ before operand after, operands = before ++ operand :: after → operand.paramType = .fixed →
    operand.operandType = .var → ∀ e v a, ValueArc c nrelValue operand.addr e v a →
      ∀ e' ∈ erasedArcs c nrelValue before es, ¬ InClosure c e' a

/-- From `c` exactly the closures of `es` have been erased. -/
structure Without (c : Cells) (es : Set ScAddr) (c' : Cells) : Prop where
  part : PartOf c c'
  live : ∀ y, Live c' y ↔ Live c y ∧ ∀ e ∈ es, ¬ InClosure c e y

section
variable {env : ScEnv} {ctx : ScContext} {order : HashOrder} {nrelValue x e v a y : ScAddr}
  {c c' c2 : Cells} {es : Set ScAddr} {st s s' : ScStorage} {n total : ℕ}

/-! Values in a store of which something has been erased. -/

theorem without_nothing (c : Cells) : Without c ∅ c :=
  ⟨PartOf.refl c, fun y => by simp⟩

theorem Without.erase (h : Without c es c') (hc' : ArcsOk c') (hpart : PartOf c' c2)
    (hlive : ∀ y, Live c2 y ↔ Live c' y ∧ ¬ InClosure c' e y) : Without c (es ∪ {e}) c2 := by
  refine ⟨h.part.trans hpart, fun y => ?_⟩
  constructor
  · intro hy
    obtain ⟨hy', hno⟩ := (hlive y).mp hy
    obtain ⟨hy0, hall⟩ := (h.live y).mp hy'
    refine ⟨hy0, ?_⟩
    rintro e' (he' | rfl)
    · exact hall e' he'
    · rwa [← h.part.inClosure hc' hy']
  · rintro ⟨hy0, hall⟩
    have hy' : Live c' y := (h.live y).mpr ⟨hy0, fun e' he' => hall e' (Or.inl he')⟩
    refine (hlive y).mpr ⟨hy', ?_⟩
    rw [h.part.inClosure hc' hy']
    exact hall e (Or.inr rfl)

theorem hasType_of_type {type : ScType} (h : (c' y).type = (c y).type) :
    HasType c' y type ↔ HasType c y type := by
  unfold HasType
  rw [h]

/-- A value is left when the arc of the relation is. -/
theorem Without.valueArc (h : Without c es c') : ValueArc c' nrelValue x e v a ↔
    ValueArc c nrelValue x e v a ∧ ∀ e' ∈ es, ¬ InClosure c e' a := by
  constructor
  · intro hv
    obtain ⟨_, hte, _, hoe⟩ := h.part e hv.arc.1
    obtain ⟨_, hta, _, hoa⟩ := h.part a hv.mark.1
    refine ⟨⟨(h.part.liveArc hv.arc.1).mp hv.arc, ?_, ?_, (hasType_of_type hte).mp hv.type,
      (h.part.liveArc hv.mark.1).mp hv.mark, ?_, ?_, (hasType_of_type hta).mp hv.markType⟩,
      ((h.live a).mp hv.mark.1).2⟩
    · rw [← hoe]
      exact hv.source
    · rw [← hoe]
      exact hv.target
    · rw [← hoa]
      exact hv.markSource
    · rw [← hoa]
      exact hv.markTarget
  · rintro ⟨hv, hall⟩
    have ha : Live c' a := (h.live a).mpr ⟨hv.mark.1, hall⟩
    -- with its end the arc of the relation would have gone
    have he : Live c' e := by
      refine (h.live e).mpr ⟨hv.arc.1, fun e' he' hcl => hall e' he' ?_⟩
      refine .arc a .inp hv.mark ?_
      rw [hv.markTarget]
      exact hcl
    obtain ⟨_, hte, _, hoe⟩ := h.part e he
    obtain ⟨_, hta, _, hoa⟩ := h.part a ha
    exact ⟨(h.part.liveArc he).mpr hv.arc, (hoe .out).trans hv.source, (hoe .inp).trans hv.target,
      (hasType_of_type hte).mpr hv.type, (h.part.liveArc ha).mpr hv.mark, (hoa .out).trans hv.markSource,
      (hoa .inp).trans hv.markTarget, (hasType_of_type hta).mpr hv.markType⟩

/-! Finding a value. -/

theorem matches5_value (t : FiveAddrs) :
    Matches5 c (fixedOperand x) commonArc varValue defaultArc (fixedOperand nrelValue) t ↔
      t.1 = x ∧ t.2.2.2.2 = nrelValue ∧ ValueArc c nrelValue x t.2.1 t.2.2.1 t.2.2.2.1 := by
  obtain ⟨x', e, v, a, f⟩ := t
  constructor
  · rintro ⟨⟨harc, hs, ht, hx, htype, _⟩, ⟨hmark, hf, he, hn, hmtype, _⟩⟩
    obtain rfl : x' = x := hx
    obtain rfl : f = nrelValue := hn
    exact ⟨rfl, rfl, harc, hs, ht, htype, hmark, hf, he, hmtype⟩
  · rintro ⟨rfl, rfl, hv⟩
    have hany : HasType c v 0 := BitVec.zero_and
    exact ⟨⟨hv.arc, hv.source, hv.target, rfl, hv.type, hany⟩,
      ⟨hv.mark, hv.markSource, hv.markTarget, rfl, hv.markType, hv.type⟩⟩

theorem ValueArc.live (h : ValueArc c nrelValue x e v a) (hc : ArcsOk c) : Live c x ∧ Live c v ∧ Live c nrelValue :=
  ⟨h.source ▸ hc.endpoint e .out h.arc, h.target ▸ hc.endpoint e .inp h.arc,
    h.markSource ▸ hc.endpoint a .out h.mark⟩

theorem noValue_fixed (c : Cells) (x : ScAddr) : (fixedOperand x).noValue c = decide (¬ Live c x) := by
  unfold ScpOperand.noValue fixedOperand
  simp

theorem noValue_assign (c : Cells) (type : ScType) : (assignOperand type).noValue c = false := rfl

theorem hasArc_assign (c : Cells) (type : ScType) : (assignOperand type).HasArc c := nofun

theorem hasValue_assign (c : Cells) (type : ScType) : (assignOperand type).HasValue c := nofun

/-- `searchElStr5` finds a value of the variable if there is one. -/
theorem searchElStr5_value (hc : ArcsOk c) (hread : ∀ y, Live c y → CanRead ctx c y) (nrelValue x : ScAddr) :
    let found := searchElStr5 c ctx (fixedOperand x) commonArc varValue defaultArc (fixedOperand nrelValue)
    (found.1 = .true → ∃ e a, ValueArc c nrelValue x e found.2.2.2.1.addr a) ∧
      (found.1 ≠ .true → ∀ e v a, ¬ ValueArc c nrelValue x e v a) := by
  intro found
  by_cases hlive : Live c x ∧ Live c nrelValue
  · have hkind : [ScpParamType.fixed, .assign, .assign, .assign, .fixed] ∈ supported5 := by decide
    have hready : Dispatched5 c (fixedOperand x) commonArc varValue defaultArc (fixedOperand nrelValue) :=
      ⟨hkind, fun _ => hlive.1, hasArc_assign c _, hasValue_assign c _, hasArc_assign c _, fun _ => hlive.2⟩
    have hagrees : Agrees5 c (fixedOperand x) commonArc varValue defaultArc (fixedOperand nrelValue) found :=
      (searchElStr5_agrees_iff hc hread hready).mpr trivial
    refine ⟨fun htrue => ?_, fun hno e v a hv => ?_⟩
    · obtain ⟨_, _, hv⟩ := (matches5_value _).mp (hagrees.held htrue)
      exact ⟨_, _, hv⟩
    · exact hno (hagrees.found.mpr ⟨(x, e, v, a, nrelValue), (matches5_value _).mpr ⟨rfl, rfl, hv⟩⟩)
  · have herror : found.1 = .error := by
      show (searchElStr5 c ctx (fixedOperand x) commonArc varValue defaultArc (fixedOperand nrelValue)).1 = _
      unfold searchElStr5
      rw [noValue_fixed, noValue_fixed, if_pos]
      by_cases hx : Live c x
      · have hn : ¬ Live c nrelValue := fun hn => hlive ⟨hx, hn⟩
        simp [hn]
      · simp [hx]
    refine ⟨fun htrue => ?_, fun _ e v a hv => ?_⟩
    · rw [herror] at htrue
      cases htrue
    · obtain ⟨hx, _, hn⟩ := hv.live hc
      exact hlive ⟨hx, hn⟩

/-! Erasing a value. -/

/-- A deletion by a context that may write the closure returns. -/
theorem elementFree_erases (hok : StoreOk env.thread s) (order : HashOrder) (he : Live s.cell e)
    (hwrite : ∀ y, InClosure s.cell e y → CanWrite ctx s.cell y) :
    Wp (scStorageElementFree env ctx order e) (fun _ s' => StoreOk env.thread s' ∧
      PartOf s.cell s'.cell ∧ ∀ y, Live s'.cell y ↔ Live s.cell y ∧ ¬ InClosure s.cell e y)
      (fun _ => False) s := by
  obtain ⟨r, s', hrun, _⟩ := elementFree_returns hok he ctx order
  have hfree := elementFree_closure hok order he hwrite
  have h := wp_ok hfree hrun
  unfold Wp
  rw [hrun]
  exact h

/-- The operands by which the value of a variable is erased. -/
def eraseValue (env : ScEnv) (ctx : ScContext) (order : HashOrder) (nrelValue x : ScAddr) : StoreM ScpResult :=
  eraseElStr5 env ctx order (constOperand (fixedOperand x)) { constOperand commonArc with erase := true }
    (constOperand varValue) (constOperand defaultArc) (constOperand (fixedOperand nrelValue))

theorem eraseElStr5With_wp {search : Cells → ScContext → ScpOperand → ScpOperand → ScpOperand → ScpOperand →
    ScpOperand → Found5} {p1 p2 p3 p4 p5 : OperatorOperand} {Q : ScpResult → ScStorage → Prop}
    {E : ScStop → Prop} (found : Found5) (hfound : search s.cell ctx p1.toScpOperand p2.toScpOperand
      p3.toScpOperand p4.toScpOperand p5.toScpOperand = found)
    (htrue : found.1 = .true → Wp (eraseElStr5F env ctx order { p1 with toScpOperand := found.2.1 }
      { p2 with toScpOperand := found.2.2.1 } { p3 with toScpOperand := found.2.2.2.1 }
      { p4 with toScpOperand := found.2.2.2.2.1 } { p5 with toScpOperand := found.2.2.2.2.2 }) Q E s)
    (hfalse : found.1 ≠ .true → Wp (do
      eraseMarkedFixed env ctx order p1
      eraseMarkedFixed env ctx order p3
      eraseMarkedFixed env ctx order p5
      return .false) Q E s) :
    Wp (eraseElStr5With env ctx order search p1 p2 p3 p4 p5) Q E s := by
  unfold eraseElStr5With
  rw [wp_bind, wp_get, hfound]
  obtain ⟨r, q1, q2, q3, q4, q5⟩ := found
  cases r with
  | true => exact htrue rfl
  | false => exact hfalse (by simp)
  | error => exact hfalse (by simp)

theorem eraseMarked_unmarked {param : OperatorOperand} (h : param.erase = false) {Q : Unit → ScStorage → Prop}
    {E : ScStop → Prop} (hq : Q () s) : Wp (eraseMarked env ctx order param) Q E s := by
  unfold eraseMarked
  rw [h]
  exact hq

/-- Nothing is erased where the variable has no value, and else the closure of the arc to its value. -/
theorem eraseElStr5_value (hok : StoreOk env.thread s) (hread : ∀ y, Live s.cell y → CanRead ctx s.cell y)
    (hwrite : ∀ y, Live s.cell y → CanWrite ctx s.cell y) (nrelValue x : ScAddr) :
    Wp (eraseValue env ctx order nrelValue x) (fun _ s' => StoreOk env.thread s' ∧
      ((∀ e v a, ¬ ValueArc s.cell nrelValue x e v a) ∧ s' = s ∨
        ∃ e v a, ValueArc s.cell nrelValue x e v a ∧ PartOf s.cell s'.cell ∧
          ∀ y, Live s'.cell y ↔ Live s.cell y ∧ ¬ InClosure s.cell e y)) (fun _ => False) s := by
  have hc := hok.cells.arcs
  unfold eraseValue eraseElStr5
  rw [wp_bind, wp_get, wp_ite]
  constructor
  · intro hnone
    refine ⟨hok, Or.inl ⟨fun e v a hv => ?_, rfl⟩⟩
    obtain ⟨hx, _, hn⟩ := hv.live hc
    have h1 : (constOperand (fixedOperand x)).noValue s.cell = false :=
      noValue_of_hasValue fun _ => hx
    have h5 : (constOperand (fixedOperand nrelValue)).noValue s.cell = false :=
      noValue_of_hasValue fun _ => hn
    rw [h1, h5] at hnone
    exact absurd hnone Bool.false_ne_true
  · intro _
    set found := searchElStr5FAAAF s.cell ctx (fixedOperand x) commonArc varValue defaultArc
      (fixedOperand nrelValue) with hfound
    have hagrees : Agrees5 s.cell (fixedOperand x) commonArc varValue defaultArc (fixedOperand nrelValue) found :=
      searchElStr5FAAAF_agrees hc hread rfl rfl rfl rfl rfl
    refine eraseElStr5With_wp found hfound.symm (fun htrue => ?_) (fun hno => ?_)
    · -- of the marks only that of the arc to the value is set
      obtain ⟨_, _, hv⟩ := (matches5_value _).mp (hagrees.held htrue)
      unfold eraseElStr5F
      rw [wp_bind]
      refine eraseMarked_unmarked rfl ?_
      rw [wp_bind]
      refine eraseMarked_unmarked rfl ?_
      rw [wp_bind]
      refine eraseMarked_unmarked rfl ?_
      unfold eraseMarkedArc
      rw [wp_bind, wp_bind, wp_get, if_pos hv.arc.1]
      unfold eraseMarked
      rw [if_pos rfl, wp_bind]
      apply wp_mono (elementFree_erases hok order hv.arc.1 fun y hy => hwrite y (hy.live hv.arc.1)) _
        (fun _ hs => hs)
      intro _ s' ⟨hok', hpart, hlive⟩
      rw [wp_pure, wp_bind, wp_bind, wp_get, wp_ite]
      have hdone : StoreOk env.thread s' ∧
          ((∀ e v a, ¬ ValueArc s.cell nrelValue x e v a) ∧ s' = s ∨
            ∃ e v a, ValueArc s.cell nrelValue x e v a ∧ PartOf s.cell s'.cell ∧
              ∀ y, Live s'.cell y ↔ Live s.cell y ∧ ¬ InClosure s.cell e y) :=
        ⟨hok', Or.inr ⟨_, _, _, hv, hpart, hlive⟩⟩
      exact ⟨fun _ => hdone, fun _ => hdone⟩
    · refine ⟨hok, Or.inl ⟨fun e v a hv => hno (hagrees.found.mpr ⟨(x, e, v, a, nrelValue), ?_⟩), rfl⟩⟩
      exact (matches5_value _).mpr ⟨rfl, rfl, hv⟩

/-! Making a value. -/

theorem hasType_created {type wanted : ScType} (h : (c y).type = arcTypeOf type)
    (htype : wanted &&& scFlagsRemove (arcTypeOf type) = wanted) : HasType c y wanted := by
  unfold HasType
  rw [h]
  exact htype

theorem not_hasType_created {type wanted : ScType} (h : (c y).type = arcTypeOf type)
    (htype : wanted &&& scFlagsRemove (arcTypeOf type) ≠ wanted) : ¬ HasType c y wanted := by
  unfold HasType
  rw [h]
  exact htype

theorem ValueArc.grown {new : Set ScAddr} (h : ValueArc s.cell nrelValue x e v a) (hg : GrownBy s new s') :
    ValueArc s'.cell nrelValue x e v a := by
  obtain ⟨harc, htype, hown⟩ := hg.liveArc h.arc
  obtain ⟨hmark, hmtype, hmown⟩ := hg.liveArc h.mark
  exact ⟨harc, (hown .out).trans h.source, (hown .inp).trans h.target, (hasType_of_type htype).mpr h.type,
    hmark, (hmown .out).trans h.markSource, (hmown .inp).trans h.markTarget,
    (hasType_of_type hmtype).mpr h.markType⟩

/-- A value of a store that has grown, without a part that is new. -/
theorem ValueArc.of_grown {new : Set ScAddr} (h : ValueArc s'.cell nrelValue x e v a) (hg : GrownBy s new s')
    (he : LiveArc s.cell e) (ha : LiveArc s.cell a) : ValueArc s.cell nrelValue x e v a := by
  obtain ⟨_, htype, hown⟩ := hg.liveArc he
  obtain ⟨_, hmtype, hmown⟩ := hg.liveArc ha
  exact ⟨he, (hown .out).symm.trans h.source, (hown .inp).symm.trans h.target,
    (hasType_of_type htype).mp h.type, ha, (hmown .out).symm.trans h.markSource,
    (hmown .inp).symm.trans h.markTarget, (hasType_of_type hmtype).mp h.markType⟩

/-- The two arcs that have been made are the only new value. -/
theorem valueArc_made {levels : ScAccessLevels} {s1 : ScStorage} (hok : StoreOk env.thread s)
    (hok1 : StoreOk env.thread s1)
    (hedge : ArcCreated s (scTypeArcCommon ||| scTypeConst) x v levels e s1)
    (hmark : ArcCreated s1 scpTypeArcPosConstPerm nrelValue e levels a s') (y e' v' a' : ScAddr) :
    ValueArc s'.cell nrelValue y e' v' a' ↔
      ValueArc s.cell nrelValue y e' v' a' ∨ y = x ∧ e' = e ∧ v' = v ∧ a' = a := by
  have hadd1 := hedge.added hok.cells
  have hadd2 := hmark.added hok1.cells
  have hg1 := hedge.grown hok.cells
  have hg2 := hmark.grown hok1.cells
  have hdead : ¬ Live s.cell e := dead_of_arcCreated hedge
  have hcases {z : ScAddr} (hz : LiveArc s'.cell z) : z = a ∨ z = e ∨ LiveArc s.cell z := by
    rcases (hadd2.liveArc z).mp hz with rfl | hz
    · exact Or.inl rfl
    · exact Or.inr ((hadd1.liveArc z).mp hz)
  obtain ⟨hearc, hetype, heown⟩ := hg2.liveArc hadd1.arc
  have heout : ownerOf s'.cell .out e = x := by rw [heown, hadd1.owner, if_pos rfl]
  have heinp : ownerOf s'.cell .inp e = v := by rw [heown, hadd1.owner, if_pos rfl]
  have hatype := hmark.typeOf.1
  have hainp : ownerOf s'.cell .inp a = e := by rw [hadd2.owner, if_pos rfl]
  have haout : ownerOf s'.cell .out a = nrelValue := by rw [hadd2.owner, if_pos rfl]
  have hetype' : (s'.cell e).type = arcTypeOf (scTypeArcCommon ||| scTypeConst) := hetype.trans hedge.typeOf.1
  constructor
  · intro h
    rcases hcases h.arc with rfl | rfl | hold
    · exact absurd h.type (not_hasType_created hatype (by decide))
    · rcases hcases h.mark with rfl | rfl | hold
      · exact Or.inr ⟨h.source.symm.trans heout, rfl, h.target.symm.trans heinp, rfl⟩
      · exact absurd h.markType (not_hasType_created hetype' (by decide))
      · have hinp := h.markTarget
        rw [((hg1.trans hg2).liveArc hold).2.2] at hinp
        exact absurd hinp (owner_ne_of_dead hok.cells hold hdead)
    · rcases hcases h.mark with rfl | rfl | hold'
      · have heq := h.markTarget.symm.trans hainp
        exact absurd (heq ▸ hold.1) hdead
      · exact absurd h.markType (not_hasType_created hetype' (by decide))
      · exact Or.inl (h.of_grown (hg1.trans hg2) hold hold')
  · rintro (h | ⟨rfl, rfl, rfl, rfl⟩)
    · exact h.grown (hg1.trans hg2)
    · exact ⟨hearc, heout, heinp, hasType_created hetype' (by decide), hadd2.arc, haout, hainp,
        hasType_created hatype (by decide)⟩

/-- The operands by which a value is made. -/
def makeValue (env : ScEnv) (ctx : ScContext) (nrelValue x : ScAddr) (value : ScpOperand) : StoreM Found5 :=
  genElStr5 env ctx (fixedOperand x) commonArc { value with paramType := .fixed } defaultArc
    (fixedOperand nrelValue)

/-- A variable gets the value that is given, or the cells run out. -/
theorem genElStr5_value (hok : StoreOk env.thread s) (hmade : Creations env ctx st n s) (hn : n+1 < total)
    (hx : Live s.cell x) (value : ScpOperand) (hv : Live s.cell value.addr) (hnrel : Live s.cell nrelValue) :
    Wp (makeValue env ctx nrelValue x value) (fun _ s' => StoreOk env.thread s' ∧
      Creations env ctx st (n+2) s' ∧ (∃ new, GrownBy s new s') ∧ ∃ e a, ∀ y e' v' a',
        ValueArc s'.cell nrelValue y e' v' a' ↔
          ValueArc s.cell nrelValue y e' v' a' ∨ y = x ∧ e' = e ∧ v' = value.addr ∧ a' = a)
      (fun _ => OutOfCells env ctx total st) s := by
  unfold makeValue genElStr5
  rw [wp_bind, wp_get, if_neg]
  · show Wp (genElStr5With env ctx true true true _ _ _ _ _) _ _ _
    unfold genElStr5With genEnd
    simp only [if_true, wp_bind, wp_pure]
    apply wp_mono (arcNew_creation total hok hmade (by omega) (by decide) (by decide) hx hv) _ (fun _ he => he)
    intro e s1 ⟨hok1, hmade1, hedge, _⟩
    have hg1 := hedge.grown hok.cells
    apply wp_mono (arcNew_creation total hok1 hmade1 (by omega) (by decide) (by decide)
      ((grown_same hg1 hnrel).same.live.mpr hnrel) (hedge.added hok.cells).arc.1) _ (fun _ he => he)
    intro a s2 ⟨hok2, hmade2, hmark, _⟩
    exact ⟨hok2, hmade2, ⟨_, hg1.trans (hmark.grown hok1.cells)⟩, e, a, valueArc_made hok hok1 hedge hmark⟩
  · have h1 : (fixedOperand x).noValue s.cell = false := noValue_of_hasValue fun _ => hx
    have h3 : ({ value with paramType := .fixed } : ScpOperand).noValue s.cell = false :=
      noValue_of_hasValue fun _ => hv
    have h5 : (fixedOperand nrelValue).noValue s.cell = false := noValue_of_hasValue fun _ => hnrel
    rw [h1, h3, h5]
    simp [commonArc, defaultArc, assignOperand]

/-- Without the relation nothing is made. -/
theorem genElStr5_noRelation (hnrel : ¬ Live s.cell nrelValue) (value : ScpOperand)
    {Q : Found5 → ScStorage → Prop} {E : ScStop → Prop} (hq : ∀ r, Q r s) :
    Wp (makeValue env ctx nrelValue x value) Q E s := by
  unfold makeValue genElStr5
  rw [wp_bind, wp_get, if_pos]
  · exact hq _
  · have h5 : (fixedOperand nrelValue).noValue s.cell = true := by
      rw [noValue_fixed]
      exact decide_eq_true hnrel
    rw [h5]
    simp

/-! The loop over the operands. -/

variable {operand : OperatorOperand} {operands : List OperatorOperand}

theorem evaluable_cons : Evaluable c nrelValue (operand :: operands) ↔
    ((operand.paramType = .assign → operand.operandType = .var) ∧
      (operand.paramType = .fixed → operand.operandType = .var →
        ∃ e v a, ValueArc c nrelValue operand.addr e v a)) ∧ Evaluable c nrelValue operands :=
  List.forall_mem_cons

theorem fixedKept_cons : FixedKept c nrelValue es (operand :: operands) ↔
    (operand.paramType = .fixed → operand.operandType = .var → ∀ e v a,
      ValueArc c nrelValue operand.addr e v a → ∀ e' ∈ es, ¬ InClosure c e' a) ∧
      FixedKept c nrelValue (eraseStep c nrelValue es operand) operands := by
  constructor
  · intro h
    refine ⟨fun hf hv => h [] operand operands rfl hf hv, fun before op after hops => ?_⟩
    exact h (operand :: before) op after (by rw [hops]; rfl)
  · rintro ⟨hhead, htail⟩ before op after hops
    cases before with
    | nil =>
      obtain ⟨rfl, rfl⟩ := List.cons.inj hops
      exact hhead
    | cons first before =>
      obtain ⟨rfl, hrest⟩ := List.cons.inj hops
      exact htail before op after hrest

theorem eraseStep_fixed (h : operand.paramType = .fixed) : eraseStep c nrelValue es operand = es := by
  unfold eraseStep
  rw [h]
  exact if_neg (by decide)

theorem Without.rights (h : Without c es c') (hread : ∀ y, Live c y → CanRead ctx c y)
    (hwrite : ∀ y, Live c y → CanWrite ctx c y) :
    (∀ y, Live c' y → CanRead ctx c' y) ∧ ∀ y, Live c' y → CanWrite ctx c' y := by
  constructor
  · intro y hy
    obtain ⟨hy0, _, hlevels, _⟩ := h.part y hy
    unfold CanRead
    rw [hlevels]
    exact hread y hy0
  · intro y hy
    obtain ⟨hy0, _, hlevels, _⟩ := h.part y hy
    unfold CanWrite
    rw [hlevels]
    exact hwrite y hy0

/-- What the erasure for an assigned variable comes to, seen from the state before the operator. -/
theorem Without.assigned (h : Without c es s.cell) (hc : ArcsOk s.cell)
    (hunique : ValueUnique c nrelValue operand.addr) (hassign : operand.paramType = .assign)
    (herase : (∀ e v a, ¬ ValueArc s.cell nrelValue operand.addr e v a) ∧ s' = s ∨
      ∃ e v a, ValueArc s.cell nrelValue operand.addr e v a ∧ PartOf s.cell s'.cell ∧
        ∀ y, Live s'.cell y ↔ Live s.cell y ∧ ¬ InClosure s.cell e y) :
    Without c (eraseStep c nrelValue es operand) s'.cell := by
  unfold eraseStep
  rw [if_pos hassign]
  rcases herase with ⟨hnone, rfl⟩ | ⟨e, v, a, hv, hpart, hlive⟩
  · have hempty : {e | ∃ v a, ValueArc c nrelValue operand.addr e v a ∧ ∀ e' ∈ es, ¬ InClosure c e' a} =
        (∅ : Set ScAddr) := by
      ext e
      refine ⟨fun ⟨v, a, hv⟩ => hnone e v a (h.valueArc.mpr hv), fun hno => hno.elim⟩
    rw [hempty, Set.union_empty]
    exact h
  · have hone : {e | ∃ v a, ValueArc c nrelValue operand.addr e v a ∧ ∀ e' ∈ es, ¬ InClosure c e' a} =
        ({e} : Set ScAddr) := by
      ext e2
      constructor
      · rintro ⟨v2, a2, hv2, _⟩
        exact (hunique _ _ _ _ _ _ hv2 (h.valueArc.mp hv).1).1
      · rintro rfl
        exact ⟨v, a, h.valueArc.mp hv⟩
    rw [hone]
    exact h.erase hc hpart hlive

/-- What is left to do behind an operand that has been evaluated. -/
theorem getOperandsValues_next {operand value : OperatorOperand} {operands : List OperatorOperand}
    (hrest : Wp (getOperandsValues env ctx order nrelValue operands) (fun r s' => StoreOk env.thread s' ∧
      (r.1 = .true ↔ Evaluable c nrelValue operands ∧
        FixedKept c nrelValue (eraseStep c nrelValue es operand) operands) ∧
      (r.1 = .true → Without c (erasedArcs c nrelValue operands (eraseStep c nrelValue es operand)) s'.cell ∧
        List.Forall₂ (Evaluated c nrelValue) operands r.2)) (fun _ => False) s)
    (hvalue : Evaluated c nrelValue operand value)
    (hhead : (operand.paramType = .assign → operand.operandType = .var) ∧
      (operand.paramType = .fixed → operand.operandType = .var →
        ∃ e v a, ValueArc c nrelValue operand.addr e v a))
    (hkept : operand.paramType = .fixed → operand.operandType = .var → ∀ e v a,
      ValueArc c nrelValue operand.addr e v a → ∀ e' ∈ es, ¬ InClosure c e' a) :
    Wp (do
        let (result, values) ← getOperandsValues env ctx order nrelValue operands
        return (result, value :: values)) (fun r s' => StoreOk env.thread s' ∧
      (r.1 = .true ↔ Evaluable c nrelValue (operand :: operands) ∧
        FixedKept c nrelValue es (operand :: operands)) ∧
      (r.1 = .true → Without c (erasedArcs c nrelValue (operand :: operands) es) s'.cell ∧
        List.Forall₂ (Evaluated c nrelValue) (operand :: operands) r.2)) (fun _ => False) s := by
  rw [wp_bind]
  apply wp_mono hrest _ (fun _ hs => hs)
  rintro ⟨result, values⟩ s2 ⟨hok2, hiff, hdone⟩
  refine ⟨hok2, ?_, fun htrue => ?_⟩
  · rw [evaluable_cons, fixedKept_cons]
    constructor
    · intro htrue
      obtain ⟨heval, hfixed⟩ := hiff.mp htrue
      exact ⟨⟨hhead, heval⟩, hkept, hfixed⟩
    · rintro ⟨⟨_, heval⟩, _, hfixed⟩
      exact hiff.mpr ⟨heval, hfixed⟩
  · obtain ⟨hwithout, hall⟩ := hdone htrue
    exact ⟨hwithout, .cons hvalue hall⟩

/-- `getOperandsValues` succeeds exactly if all can be evaluated and no value that it reads has gone before,
and erases the arcs to the values of the assigned variables. -/
theorem getOperandsValues_wp (hread : ∀ y, Live c y → CanRead ctx c y)
    (hwrite : ∀ y, Live c y → CanWrite ctx c y) (operands : List OperatorOperand)
    (hunique : ∀ op ∈ operands, op.operandType = .var → ValueUnique c nrelValue op.addr)
    (hok : StoreOk env.thread s) (h : Without c es s.cell) :
    Wp (getOperandsValues env ctx order nrelValue operands) (fun r s' => StoreOk env.thread s' ∧
      (r.1 = .true ↔ Evaluable c nrelValue operands ∧ FixedKept c nrelValue es operands) ∧
      (r.1 = .true → Without c (erasedArcs c nrelValue operands es) s'.cell ∧
        List.Forall₂ (Evaluated c nrelValue) operands r.2)) (fun _ => False) s := by
  induction operands generalizing s es with
  | nil =>
    refine ⟨hok, iff_of_true rfl ⟨by simp [Evaluable], ?_⟩, fun _ => ⟨h, .nil⟩⟩
    intro before op after hops
    simp at hops
  | cons operand operands ih =>
    have hunique' : ∀ op ∈ operands, op.operandType = .var → ValueUnique c nrelValue op.addr :=
      fun op hop => hunique op (List.mem_cons_of_mem _ hop)
    have hnext {s1 : ScStorage} (hok1 : StoreOk env.thread s1)
        (h1 : Without c (eraseStep c nrelValue es operand) s1.cell) :=
      ih hunique' hok1 h1
    have hstop {r : ScpResult × List OperatorOperand} (hr : r.1 = .error)
        (hno : ¬ (Evaluable c nrelValue (operand :: operands) ∧ FixedKept c nrelValue es (operand :: operands))) :
        StoreOk env.thread s ∧ (r.1 = .true ↔ Evaluable c nrelValue (operand :: operands) ∧
            FixedKept c nrelValue es (operand :: operands)) ∧
          (r.1 = .true → Without c (erasedArcs c nrelValue (operand :: operands) es) s.cell ∧
            List.Forall₂ (Evaluated c nrelValue) (operand :: operands) r.2) := by
      have hne : r.1 ≠ .true := by
        rw [hr]
        decide
      exact ⟨hok, iff_of_false hne hno, fun htrue => absurd htrue hne⟩
    obtain ⟨hread', hwrite'⟩ := h.rights hread hwrite
    unfold getOperandsValues
    cases hparam : operand.paramType with
    | fixed =>
      have hsame : Without c (eraseStep c nrelValue es operand) s.cell := by rwa [eraseStep_fixed hparam]
      have hassign : operand.paramType = .assign → operand.operandType = .var := by
        rw [hparam]
        intro h
        cases h
      cases htype : operand.operandType with
      | const =>
        refine getOperandsValues_next (hnext hok hsame) ?_ ⟨hassign, ?_⟩ ?_
        · unfold Evaluated
          rw [htype, if_neg (by simp)]
        · rw [htype]
          intro _ h
          cases h
        · rw [htype]
          intro _ h
          cases h
      | var =>
        simp only
        rw [wp_bind, wp_get]
        have hvalue := searchElStr5_value hok.cells.arcs hread' nrelValue operand.addr
        revert hvalue
        generalize searchElStr5 s.cell ctx (fixedOperand operand.addr) commonArc varValue defaultArc
          (fixedOperand nrelValue) = found
        obtain ⟨r, p1, p2, p3, p4, p5⟩ := found
        rintro ⟨hfound, hnone⟩
        have hfail (hr : r ≠ .true) : ¬ (Evaluable c nrelValue (operand :: operands) ∧
            FixedKept c nrelValue es (operand :: operands)) := by
          rw [evaluable_cons, fixedKept_cons]
          rintro ⟨⟨⟨_, hex⟩, _⟩, hkept, _⟩
          obtain ⟨e, v, a, hv⟩ := hex hparam htype
          exact hnone hr e v a (h.valueArc.mpr ⟨hv, hkept hparam htype e v a hv⟩)
        cases r with
        | true =>
          obtain ⟨e, a, hv⟩ := hfound rfl
          obtain ⟨hv, hall⟩ := h.valueArc.mp hv
          refine getOperandsValues_next (hnext hok hsame) ?_ ⟨hassign, fun _ _ => ⟨_, _, _, hv⟩⟩ ?_
          · unfold Evaluated
            rw [if_pos ⟨hparam, htype⟩]
            exact ⟨_, _, _, hv, by rw [hparam, htype]⟩
          · intro _ _ e2 v2 a2 hv2
            obtain ⟨_, _, rfl⟩ := hunique operand List.mem_cons_self htype _ _ _ _ _ _ hv2 hv
            exact hall
        | false => exact hstop rfl (hfail (by decide))
        | error => exact hstop rfl (hfail (by decide))
    | assign =>
      cases htype : operand.operandType with
      | const =>
        refine hstop rfl ?_
        rw [evaluable_cons]
        rintro ⟨⟨⟨hvar, _⟩, _⟩, _⟩
        rw [htype] at hvar
        exact absurd (hvar hparam) (by decide)
      | var =>
        simp only
        rw [wp_bind]
        have herased := @eraseElStr5_value env ctx order _ hok hread' hwrite' nrelValue operand.addr
        apply wp_mono herased _ (fun _ hs => hs)
        rintro _ s1 ⟨hok1, herase⟩
        have hrest := hnext hok1
          (h.assigned hok.cells.arcs (hunique operand List.mem_cons_self htype) hparam herase)
        refine getOperandsValues_next hrest ?_ ⟨fun _ => htype, ?_⟩ ?_
        · unfold Evaluated
          rw [hparam, if_neg (by simp)]
        · rw [hparam]
          intro h
          cases h
        · rw [hparam]
          intro h
          cases h

/-- No variable is assigned twice. -/
def AssignedOnce (operands : List OperatorOperand) : Prop :=
  operands.Pairwise fun p q => p.paramType = .assign → q.paramType = .assign → p.addr ≠ q.addr

/-- `setOperandsValues` gives each assigned variable its value and no other element one. -/
theorem setOperandsValues_wp (pairs : List (OperatorOperand × OperatorOperand))
    (honce : AssignedOnce (pairs.map Prod.fst)) (hok : StoreOk env.thread s) (hmade : Creations env ctx st n s)
    (hn : n+2*pairs.length ≤ total) (hnrel : Live s.cell nrelValue)
    (hlive : ∀ p ∈ pairs, p.1.paramType = .assign → Live s.cell p.1.addr ∧ Live s.cell p.2.addr) :
    Wp (setOperandsValues env ctx nrelValue pairs) (fun _ s' =>
      (∀ p ∈ pairs, p.1.paramType = .assign → (∀ e v a, ¬ ValueArc s.cell nrelValue p.1.addr e v a) →
        OnlyValue s'.cell nrelValue p.1.addr p.2.addr) ∧
      ∀ x, (∀ p ∈ pairs, p.1.paramType = .assign → p.1.addr ≠ x) →
        ∀ e v a, ValueArc s'.cell nrelValue x e v a ↔ ValueArc s.cell nrelValue x e v a)
      (fun _ => OutOfCells env ctx total st) s := by
  induction pairs generalizing s n with
  | nil => exact ⟨by simp, fun _ _ _ _ _ => Iff.rfl⟩
  | cons pair pairs ih =>
    obtain ⟨operand, value⟩ := pair
    unfold AssignedOnce at honce
    rw [List.map_cons, List.pairwise_cons] at honce
    obtain ⟨hhead, honce⟩ := honce
    rw [List.length_cons] at hn
    unfold setOperandsValues
    simp only
    rw [wp_ite]
    constructor
    · intro hassign
      obtain ⟨hx, hv⟩ := hlive _ List.mem_cons_self hassign
      rw [wp_bind]
      apply wp_mono (genElStr5_value hok hmade (by omega) hx value.toScpOperand hv hnrel) _ (fun _ he => he)
      intro _ s1 ⟨hok1, hmade1, ⟨new, hg⟩, e, a, hnew⟩
      have hstill {y : ScAddr} (hy : Live s.cell y) : Live s1.cell y := (grown_same hg hy).same.live.mpr hy
      apply wp_mono (ih honce hok1 hmade1 (by omega) (hstill hnrel)
        (fun p hp hp' => (hlive p (List.mem_cons_of_mem _ hp) hp').imp hstill hstill)) _ (fun _ he => he)
      intro _ s2 ⟨hall, hothers⟩
      -- the rest of the list does not assign the variable again
      have hother (p : OperatorOperand × OperatorOperand) (hp : p ∈ pairs) (hp' : p.1.paramType = .assign) :
          operand.addr ≠ p.1.addr := hhead p.1 (List.mem_map_of_mem hp) hassign hp'
      constructor
      · intro p hp hp' hnone
        rcases List.mem_cons.mp hp with rfl | hp
        · refine ⟨e, a, fun e' v' a' => ?_⟩
          rw [hothers _ (fun q hq hq' => (hother q hq hq').symm), hnew]
          constructor
          · rintro (hold | ⟨_, he, hv', ha⟩)
            · exact absurd hold (hnone e' v' a')
            · exact ⟨he, hv', ha⟩
          · rintro ⟨he, hv', ha⟩
            exact Or.inr ⟨rfl, he, hv', ha⟩
        · refine hall p hp hp' fun e' v' a' hv' => ?_
          rcases (hnew _ _ _ _).mp hv' with hold | ⟨heq, _⟩
          · exact hnone _ _ _ hold
          · exact hother p hp hp' heq.symm
      · intro y hy e' v' a'
        rw [hothers y (fun p hp => hy p (List.mem_cons_of_mem _ hp)), hnew]
        constructor
        · rintro (hold | ⟨heq, _⟩)
          · exact hold
          · exact absurd heq.symm (hy _ List.mem_cons_self hassign)
        · exact Or.inl
    · intro hno
      apply wp_mono (ih honce hok hmade (by omega) hnrel
        (fun p hp => hlive p (List.mem_cons_of_mem _ hp))) _ (fun _ he => he)
      intro _ s2 ⟨hall, hothers⟩
      constructor
      · intro p hp hp' hnone
        rcases List.mem_cons.mp hp with rfl | hp
        · exact absurd hp' hno
        · exact hall p hp hp' hnone
      · intro y hy
        exact hothers y fun p hp => hy p (List.mem_cons_of_mem _ hp)

/-- Without the relation no value is set. -/
theorem setOperandsValues_noRelation (pairs : List (OperatorOperand × OperatorOperand))
    (hnrel : ¬ Live s.cell nrelValue) : ∃ r, setOperandsValues env ctx nrelValue pairs s = .ok (r, s) := by
  have hwp : Wp (setOperandsValues env ctx nrelValue pairs) (fun _ s' => s' = s) (fun _ => False) s := by
    induction pairs with
    | nil => rfl
    | cons pair pairs ih =>
      obtain ⟨operand, value⟩ := pair
      unfold setOperandsValues
      simp only
      rw [wp_ite]
      constructor
      · intro _
        rw [wp_bind]
        exact genElStr5_noRelation hnrel value.toScpOperand fun _ => ih
      · intro _
        exact ih
  obtain ⟨r, s', hrun, rfl⟩ := wp_returns hwp
  exact ⟨r, hrun⟩

theorem subset_erasedArcs (operands : List OperatorOperand) (he : e ∈ es) : e ∈ erasedArcs c nrelValue operands es := by
  induction operands generalizing es with
  | nil => exact he
  | cons operand operands ih =>
    refine ih ?_
    unfold eraseStep
    split_ifs
    · exact Or.inl he
    · exact he

theorem mem_erasedArcs (operands : List OperatorOperand) (he : e ∈ erasedArcs c nrelValue operands es) :
    e ∈ es ∨ ∃ operand ∈ operands, operand.paramType = .assign := by
  induction operands generalizing es with
  | nil => exact Or.inl he
  | cons operand operands ih =>
    rcases ih he with hes | ⟨op, hop, hassign⟩
    · unfold eraseStep at hes
      split_ifs at hes with hassign
      · exact Or.inr ⟨operand, List.mem_cons_self, hassign⟩
      · exact Or.inl hes
    · exact Or.inr ⟨op, List.mem_cons_of_mem _ hop, hassign⟩

/-- The construction of an assigned variable goes with one of the arcs. -/
theorem erasedArcs_assigned (operands : List OperatorOperand) (hop : operand ∈ operands)
    (hassign : operand.paramType = .assign) (hv : ValueArc c nrelValue operand.addr e v a) :
    ∃ e' ∈ erasedArcs c nrelValue operands es, InClosure c e' a := by
  induction operands generalizing es with
  | nil => cases hop
  | cons first operands ih =>
    rcases List.mem_cons.mp hop with rfl | hop
    · by_cases hgone : ∃ e' ∈ es, InClosure c e' a
      · obtain ⟨e', he', hcl⟩ := hgone
        exact ⟨e', subset_erasedArcs (operand :: operands) he', hcl⟩
      · refine ⟨e, subset_erasedArcs operands ?_, ?_⟩
        · unfold eraseStep
          rw [if_pos hassign]
          exact Or.inr ⟨v, a, hv, fun e' he' hcl => hgone ⟨e', he', hcl⟩⟩
        · refine .arc a .inp hv.mark ?_
          rw [hv.markTarget]
          exact .root
    · exact ih hop

end

/-- The variable is to be assigned by an operand. -/
def IsAssigned (operands : List OperatorOperand) (x : ScAddr) : Prop :=
  ∃ operand ∈ operands, operand.paramType = .assign ∧ operand.addr = x

/-- Besides the values that are read, the arcs that are erased take with them no value of another variable,
no variable that is to be assigned and not the relation. -/
structure ErasuresApart (c : Cells) (nrelValue : ScAddr) (vars : Set ScAddr) (operands : List OperatorOperand) :
    Prop where
  fixed : FixedKept c nrelValue ∅ operands
  others : ∀ x ∈ vars, ¬ IsAssigned operands x → ∀ e v a, ValueArc c nrelValue x e v a →
    ∀ e' ∈ erasedArcs c nrelValue operands ∅, ¬ InClosure c e' a
  assigned : ∀ x, IsAssigned operands x → ∀ e' ∈ erasedArcs c nrelValue operands ∅, ¬ InClosure c e' x
  relation : ∀ e' ∈ erasedArcs c nrelValue operands ∅, ¬ InClosure c e' nrelValue

/-- The call has evaluated the operands in the state before it: what it returns, what it leaves, and what
`setOperandsValues` comes to with any live elements as the values of the assigned variables. -/
structure EvaluatedBefore (env : ScEnv) (ctx : ScContext) (nrelValue : ScAddr) (vars : Set ScAddr)
    (operands : List OperatorOperand) (st : ScStorage) (r : ScpResult × List OperatorOperand) (s : ScStorage) :
    Prop where
  succeeds : r.1 = .true ↔ Evaluable st.cell nrelValue operands
  values : r.1 = .true → List.Forall₂ (Evaluated st.cell nrelValue) operands r.2
  assignable : r.1 = .true → ∀ x, IsAssigned operands x → Live s.cell x
  kept : r.1 = .true → ∀ x ∈ vars, ¬ IsAssigned operands x →
    ∀ e v a, ValueArc s.cell nrelValue x e v a ↔ ValueArc st.cell nrelValue x e v a
  set : r.1 = .true → ∀ values, values.length = operands.length →
    (∀ p ∈ operands.zip values, p.1.paramType = .assign → Live s.cell p.2.addr) →
    Wp (setOperandsValues env ctx nrelValue (operands.zip values)) (fun _ s' =>
      (∀ p ∈ operands.zip values, p.1.paramType = .assign → OnlyValue s'.cell nrelValue p.1.addr p.2.addr) ∧
      ∀ x ∈ vars, ¬ IsAssigned operands x →
        ∀ e v a, ValueArc s'.cell nrelValue x e v a ↔ ValueArc st.cell nrelValue x e v a)
      (fun _ => OutOfCells env ctx (2*operands.length) s) s

/-- In every reachable state in which each variable has at most one value, for a context that may read and
write everything: the operands are evaluated in the state before the operator exactly if they cannot be, or
the erasures keep apart from what is read and from what is to stay. -/
theorem operands_evaluated_before_iff (thread : ℕ) (evs : List StoreEvent) (st : ScStorage)
    (hr : Run (OwnStep thread) ScStorage.empty evs st) (env : ScEnv) (henv : env.thread = thread)
    (ctx : ScContext) (hread : ∀ x, Live st.cell x → CanRead ctx st.cell x)
    (hwrite : ∀ x, Live st.cell x → CanWrite ctx st.cell x) (order : HashOrder) (nrelValue : ScAddr)
    (hnrel : Live st.cell nrelValue) (vars : Set ScAddr) (hlive : ∀ x ∈ vars, Live st.cell x)
    (hunique : ∀ x ∈ vars, ValueUnique st.cell nrelValue x) (operands : List OperatorOperand)
    (hvars : ∀ operand ∈ operands, operand.operandType = .var → operand.addr ∈ vars)
    (honce : AssignedOnce operands) :
    ∃ r s, getOperandsValues env ctx order nrelValue operands st = .ok (r, s) ∧
      (EvaluatedBefore env ctx nrelValue vars operands st r s ↔
        ¬ Evaluable st.cell nrelValue operands ∨ ErasuresApart st.cell nrelValue vars operands) := by
  subst henv
  have hok := ownRun_storeOk evs st hr
  obtain ⟨r, s, hrun, hok1, hiff, hdone⟩ := wp_returns (@getOperandsValues_wp env ctx order nrelValue st.cell ∅ st hread hwrite operands
    (fun op hop hv => hunique _ (hvars op hop hv)) hok (without_nothing st.cell))
  refine ⟨r, s, hrun, ?_⟩
  by_cases heval : Evaluable st.cell nrelValue operands
  swap
  · have hno : r.1 ≠ .true := fun htrue => heval (hiff.mp htrue).1
    refine iff_of_true ?_ (Or.inl heval)
    exact ⟨iff_of_false hno heval, fun h => absurd h hno, fun h => absurd h hno, fun h => absurd h hno,
      fun h => absurd h hno⟩
  rw [or_iff_right (not_not_intro heval)]
  constructor
  · intro h
    have htrue := h.succeeds.mpr heval
    obtain ⟨hwithout, _⟩ := hdone htrue
    refine ⟨(hiff.mp htrue).2, ?_, ?_, ?_⟩
    · intro x hx hno e v a hv
      exact (hwithout.valueArc.mp ((h.kept htrue x hx hno e v a).mpr hv)).2
    · intro x hx
      exact ((hwithout.live x).mp (h.assignable htrue x hx)).2
    · intro e' he' hcl
      -- without the relation an assigned variable gets no value
      have hdead : ¬ Live s.cell nrelValue := fun hl => ((hwithout.live _).mp hl).2 e' he' hcl
      have hself {p : OperatorOperand × OperatorOperand} (hp : p ∈ operands.zip operands) :
          p.1 ∈ operands ∧ p.2 = p.1 := by
        rw [List.zip_eq_zipWith, List.zipWith_self] at hp
        obtain ⟨op, hop, rfl⟩ := List.mem_map.mp hp
        exact ⟨hop, rfl⟩
      obtain ⟨result, hrun⟩ := @setOperandsValues_noRelation env ctx nrelValue s (operands.zip operands) hdead
      have hset := wp_ok (h.set htrue operands rfl fun p hp hassign => by
        obtain ⟨hmem, heq⟩ := hself hp
        rw [heq]
        exact h.assignable htrue _ ⟨p.1, hmem, hassign, rfl⟩) hrun
      rcases mem_erasedArcs operands he' with hno | ⟨op, hop, hassign⟩
      · exact hno
      · have hzip : (op, op) ∈ operands.zip operands := by
          rw [List.zip_eq_zipWith, List.zipWith_self]
          exact List.mem_map_of_mem hop
        obtain ⟨e, a, honly⟩ := hset.1 (op, op) hzip hassign
        have hv := (honly e op.addr a).mpr ⟨rfl, rfl, rfl⟩
        exact hdead (hv.live hok1.cells.arcs).2.2
  · intro h
    have htrue := hiff.mpr ⟨heval, h.fixed⟩
    obtain ⟨hwithout, hall⟩ := hdone htrue
    have hassignable (x : ScAddr) (hx : IsAssigned operands x) : Live s.cell x := by
      obtain ⟨op, hop, hassign, rfl⟩ := hx
      refine (hwithout.live _).mpr ⟨hlive _ (hvars op hop ((heval op hop).1 hassign)), ?_⟩
      exact h.assigned _ ⟨op, hop, hassign, rfl⟩
    have hkept (x : ScAddr) (hx : x ∈ vars) (hno : ¬ IsAssigned operands x) (e v a : ScAddr) :
        ValueArc s.cell nrelValue x e v a ↔ ValueArc st.cell nrelValue x e v a := by
      rw [hwithout.valueArc, and_iff_left_iff_imp]
      exact h.others x hx hno e v a
    refine ⟨iff_of_true htrue heval, fun _ => hall, fun _ => hassignable, fun _ => hkept, ?_⟩
    intro _ values hlength hvalues
    have hfst : (operands.zip values).map Prod.fst = operands := List.map_fst_zip (le_of_eq hlength.symm)
    have hmem {p : OperatorOperand × OperatorOperand} (hp : p ∈ operands.zip values) : p.1 ∈ operands := by
      rw [← hfst]
      exact List.mem_map_of_mem hp
    have hlen : (operands.zip values).length = operands.length := by
      rw [List.length_zip, hlength, min_self]
    have hcall := @setOperandsValues_wp env ctx nrelValue s s 0 (2*operands.length) (operands.zip values)
      (by rwa [hfst]) hok1 .none (by omega) ((hwithout.live _).mpr ⟨hnrel, h.relation⟩)
      (fun p hp hassign => ⟨hassignable _ ⟨p.1, hmem hp, hassign, rfl⟩, hvalues p hp hassign⟩)
    apply wp_mono hcall _ (fun _ he => he)
    intro _ s' ⟨hset, hothers⟩
    refine ⟨fun p hp hassign => hset p hp hassign fun e v a hv => ?_, fun x hx hno e v a => ?_⟩
    · obtain ⟨hv0, hall0⟩ := hwithout.valueArc.mp hv
      obtain ⟨e', he', hcl⟩ := erasedArcs_assigned operands (hmem hp) hassign hv0
      exact hall0 e' he' hcl
    · rw [hothers x fun p hp hassign heq => hno ⟨p.1, hmem hp, hassign, heq⟩]
      exact hkept x hx hno e v a

/-! A store with the relation, a variable and its value. -/

def valueEvents : List StoreEvent :=
  [⟨exampleEnv, .call (.nodeNew exampleContext scTypeConst)⟩,
    ⟨exampleEnv, .call (.nodeNew exampleContext scTypeConst)⟩,
    ⟨exampleEnv, .call (.nodeNew exampleContext scTypeConst)⟩,
    ⟨exampleEnv, .call (.arcNew exampleContext (scTypeArcCommon ||| scTypeConst) ⟨0, 33⟩ ⟨0, 65⟩)⟩,
    ⟨exampleEnv, .call (.arcNew exampleContext scpTypeArcPosConstPerm ⟨0, 1⟩ ⟨0, 97⟩)⟩]

def storeWithValue : ScStorage := stateAfterEvents valueEvents ScStorage.empty

theorem storeWithValue_run : Run (OwnStep 1) ScStorage.empty valueEvents storeWithValue :=
  ownRun_of_ownEvents valueEvents _ (by decide +kernel)

/-- The operand of the variable. -/
def variableOperand (paramType : ScpParamType) : OperatorOperand := ⟨⟨⟨0, 33⟩, paramType, 0⟩, .var, false⟩

theorem storeWithValue_value : ValueArc storeWithValue.cell ⟨0, 1⟩ ⟨0, 33⟩ ⟨0, 97⟩ ⟨0, 65⟩ ⟨0, 129⟩ := by
  have h : LiveArc storeWithValue.cell ⟨0, 97⟩ ∧ ownerOf storeWithValue.cell .out ⟨0, 97⟩ = ⟨0, 33⟩ ∧
      ownerOf storeWithValue.cell .inp ⟨0, 97⟩ = ⟨0, 65⟩ ∧
      HasType storeWithValue.cell ⟨0, 97⟩ (scTypeArcCommon ||| scTypeConst) ∧
      LiveArc storeWithValue.cell ⟨0, 129⟩ ∧ ownerOf storeWithValue.cell .out ⟨0, 129⟩ = ⟨0, 1⟩ ∧
      ownerOf storeWithValue.cell .inp ⟨0, 129⟩ = ⟨0, 97⟩ ∧
      HasType storeWithValue.cell ⟨0, 129⟩ scpTypeArcPosConstPerm := by
    decide +kernel
  obtain ⟨h1, h2, h3, h4, h5, h6, h7, h8⟩ := h
  exact ⟨h1, h2, h3, h4, h5, h6, h7, h8⟩

theorem storeWithValue_unique : ValueUnique storeWithValue.cell ⟨0, 1⟩ ⟨0, 33⟩ := by
  have hc := (ownRun_storeOk _ _ storeWithValue_run).cells.arcs
  have hlive : Live storeWithValue.cell ⟨0, 33⟩ ∧ Live storeWithValue.cell ⟨0, 97⟩ := by decide +kernel
  have hlists : arcList storeWithValue.cell .out ⟨0, 33⟩ = [⟨0, 97⟩] ∧
      arcList storeWithValue.cell .inp ⟨0, 97⟩ = [⟨0, 129⟩] := by
    decide +kernel
  have hone {e v a : ScAddr} (h : ValueArc storeWithValue.cell ⟨0, 1⟩ ⟨0, 33⟩ e v a) :
      e = ⟨0, 97⟩ ∧ v = ⟨0, 65⟩ ∧ a = ⟨0, 129⟩ := by
    have he := ((hc.arcList hlive.1).mem e).mpr ⟨h.arc, h.source⟩
    rw [hlists.1] at he
    obtain rfl := List.mem_singleton.mp he
    have ha := ((hc.arcList hlive.2).mem a).mpr ⟨h.mark, h.markTarget⟩
    rw [hlists.2] at ha
    exact ⟨rfl, h.target.symm.trans storeWithValue_value.target, List.mem_singleton.mp ha⟩
  intro e v a e' v' a' h h'
  obtain ⟨rfl, rfl, rfl⟩ := hone h
  obtain ⟨rfl, rfl, rfl⟩ := hone h'
  exact ⟨rfl, rfl, rfl⟩

/-- The variable is read and then assigned. -/
theorem operands_evaluated_before_variable :
    ∃ r s, getOperandsValues exampleEnv exampleContext tableOrder ⟨0, 1⟩
        [variableOperand .fixed, variableOperand .assign] storeWithValue = .ok (r, s) ∧
      (EvaluatedBefore exampleEnv exampleContext ⟨0, 1⟩ {⟨0, 33⟩}
          [variableOperand .fixed, variableOperand .assign] storeWithValue r s ↔
        ¬ Evaluable storeWithValue.cell ⟨0, 1⟩ [variableOperand .fixed, variableOperand .assign] ∨
          ErasuresApart storeWithValue.cell ⟨0, 1⟩ {⟨0, 33⟩}
            [variableOperand .fixed, variableOperand .assign]) := by
  have hlive : Live storeWithValue.cell ⟨0, 1⟩ ∧ Live storeWithValue.cell ⟨0, 33⟩ := by decide +kernel
  have hvars : ∀ x ∈ ({⟨0, 33⟩} : Set ScAddr), Live storeWithValue.cell x := by
    rintro x rfl
    exact hlive.2
  have hunique : ∀ x ∈ ({⟨0, 33⟩} : Set ScAddr), ValueUnique storeWithValue.cell ⟨0, 1⟩ x := by
    rintro x rfl
    exact storeWithValue_unique
  have hops : ∀ operand ∈ [variableOperand .fixed, variableOperand .assign],
      operand.operandType = .var → operand.addr ∈ ({⟨0, 33⟩} : Set ScAddr) := by
    intro operand hop _
    rcases List.mem_cons.mp hop with rfl | hop
    · rfl
    · obtain rfl := List.mem_singleton.mp hop
      rfl
  have honce : AssignedOnce [variableOperand .fixed, variableOperand .assign] := by
    unfold AssignedOnce variableOperand
    decide
  exact operands_evaluated_before_iff 1 valueEvents storeWithValue storeWithValue_run exampleEnv rfl
    exampleContext (everything_readable storeWithValue.cell)
    (fun x _ => canWrite_exampleContext storeWithValue.cell x) tableOrder ⟨0, 1⟩ hlive.1
    {⟨0, 33⟩} hvars hunique [variableOperand .fixed, variableOperand .assign] hops honce

/-- What the call returns. -/
def resultOf (x : Except ScStop ((ScpResult × List OperatorOperand) × ScStorage)) : Option ScpResult :=
  match x with
  | .ok (r, _) => some r.1
  | .error _ => none

/-- Assigned first, the variable has lost its value when it is read. -/
theorem assigned_before_read :
    Run (OwnStep 1) ScStorage.empty valueEvents storeWithValue ∧
      ValueUnique storeWithValue.cell ⟨0, 1⟩ ⟨0, 33⟩ ∧
      AssignedOnce [variableOperand .assign, variableOperand .fixed] ∧
      Evaluable storeWithValue.cell ⟨0, 1⟩ [variableOperand .assign, variableOperand .fixed] ∧
      ∃ r s, getOperandsValues exampleEnv exampleContext tableOrder ⟨0, 1⟩
          [variableOperand .assign, variableOperand .fixed] storeWithValue = .ok (r, s) ∧ r.1 = .error ∧
        ¬ EvaluatedBefore exampleEnv exampleContext ⟨0, 1⟩ {⟨0, 33⟩}
          [variableOperand .assign, variableOperand .fixed] storeWithValue r s := by
  have heval : Evaluable storeWithValue.cell ⟨0, 1⟩ [variableOperand .assign, variableOperand .fixed] := by
    intro op hop
    rcases List.mem_cons.mp hop with rfl | hop
    · exact ⟨fun _ => rfl, nofun⟩
    · obtain rfl := List.mem_singleton.mp hop
      exact ⟨nofun, fun _ _ => ⟨_, _, _, storeWithValue_value⟩⟩
  have honce : AssignedOnce [variableOperand .assign, variableOperand .fixed] := by
    unfold AssignedOnce variableOperand
    decide
  refine ⟨storeWithValue_run, storeWithValue_unique, honce, heval, ?_⟩
  have hresult : resultOf (getOperandsValues exampleEnv exampleContext tableOrder ⟨0, 1⟩
      [variableOperand .assign, variableOperand .fixed] storeWithValue) = some .error := by
    decide +kernel
  cases hrun : getOperandsValues exampleEnv exampleContext tableOrder ⟨0, 1⟩
      [variableOperand .assign, variableOperand .fixed] storeWithValue with
  | error stop =>
    rw [hrun] at hresult
    cases hresult
  | ok q =>
    obtain ⟨r, s⟩ := q
    rw [hrun] at hresult
    have herror : r.1 = .error := Option.some.inj hresult
    refine ⟨r, s, rfl, herror, fun h => ?_⟩
    have htrue := h.succeeds.mpr heval
    rw [herror] at htrue
    cases htrue

end ScMachine.Scp
