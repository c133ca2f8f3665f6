import ScMachine.IteratorsAtRest
import ScMachine.ScpSearch

/-! Search for constructions of three and five elements by the operands of an scp operator
(`scp_functions.c`, `scp_searchElStr3.c`, `scp_searchElStr5.c`) in a store at rest. -/
namespace ScMachine.Scp
open ScMachine.Store ScMachine.Template

/-- `scp_result` -/
inductive ScpResult where
  | false
  | true
  | error
  deriving DecidableEq, Repr

/-- `scp_param_type` -/
inductive ScpParamType where
  | assign
  | fixed
  deriving DecidableEq, Repr

/-- `scp_operand`, as far as a search uses it. -/
structure ScpOperand where
  addr : ScAddr
  paramType : ScpParamType
  elementType : ScType
  deriving DecidableEq

/-- The operands as a search leaves them. -/
abbrev Found3 := ScpResult × ScpOperand × ScpOperand × ScpOperand

abbrev Found5 := ScpResult × ScpOperand × ScpOperand × ScpOperand × ScpOperand × ScpOperand

section
variable (c : Cells) (ctx : ScContext)

def checkType (element : ScAddr) (inputType : ScType) : ScpResult :=
  match scMemoryGetElementType c ctx element with
  | none => .error
  | some type => if hasBits type inputType then .true else .false

def iterated5 (params : Iterator5Params) : List FiveAddrs := (iterator5 c ctx params).getD []

def searchElStr3AAF (param1 param2 param3 : ScpOperand) : Found3 :=
  match (iterated c ctx (.aaf param1.elementType param2.elementType param3.addr)).head? with
  | some t => (.true, { param1 with addr := t.source }, { param2 with addr := t.edge }, param3)
  | none => (.false, param1, param2, param3)

def searchElStr3FAA (param1 param2 param3 : ScpOperand) : Found3 :=
  match (iterated c ctx (.faa param1.addr param2.elementType param3.elementType)).head? with
  | some t => (.true, param1, { param2 with addr := t.edge }, { param3 with addr := t.target })
  | none => (.false, param1, param2, param3)

def searchElStr3FAF (param1 param2 param3 : ScpOperand) : Found3 :=
  match (iterated c ctx (.faf param1.addr param2.elementType param3.addr)).head? with
  | some t => (.true, param1, { param2 with addr := t.edge }, param3)
  | none => (.false, param1, param2, param3)

def searchElStr3AFA (param1 param2 param3 : ScpOperand) : Found3 :=
  match scMemoryGetArcBegin c ctx param2.addr, scMemoryGetArcEnd c ctx param2.addr with
  | some beg, some end_ =>
    if checkType c ctx beg param1.elementType = .true ∧ checkType c ctx end_ param3.elementType = .true then
      (.true, { param1 with addr := beg }, param2, { param3 with addr := end_ })
    else (.false, param1, param2, param3)
  | _, _ => (.error, param1, param2, param3)

/-- An end with the type is refused. -/
def searchElStr3FFA (param1 param2 param3 : ScpOperand) : Found3 :=
  match scMemoryGetArcBegin c ctx param2.addr with
  | none => (.error, param1, param2, param3)
  | some beg =>
    if param1.addr = beg then
      match scMemoryGetArcEnd c ctx param2.addr with
      | none => (.error, param1, param2, param3)
      | some end_ =>
        if checkType c ctx end_ param3.elementType = .true then (.false, param1, param2, param3)
        else (.true, param1, param2, { param3 with addr := end_ })
    else (.false, param1, param2, param3)

/-- A begin with the type is refused. -/
def searchElStr3AFF (param1 param2 param3 : ScpOperand) : Found3 :=
  match scMemoryGetArcEnd c ctx param2.addr with
  | none => (.error, param1, param2, param3)
  | some end_ =>
    if param3.addr = end_ then
      match scMemoryGetArcBegin c ctx param2.addr with
      | none => (.error, param1, param2, param3)
      | some beg =>
        if checkType c ctx beg param1.elementType = .true then (.false, param1, param2, param3)
        else (.true, { param1 with addr := beg }, param2, param3)
    else (.false, param1, param2, param3)

def searchElStr3FFF (param1 param2 param3 : ScpOperand) : Found3 :=
  match scMemoryGetArcBegin c ctx param2.addr, scMemoryGetArcEnd c ctx param2.addr with
  | some beg, some end_ =>
    (if param1.addr = beg ∧ param3.addr = end_ then .true else .false, param1, param2, param3)
  | _, _ => (.error, param1, param2, param3)

/-- A fixed operand without an element. -/
def ScpOperand.noValue (param : ScpOperand) : Bool :=
  param.paramType = .fixed ∧ ¬ Live c param.addr

/-- A fixed operand that should be an arc and is a node. -/
def ScpOperand.noArc (param : ScpOperand) : Bool :=
  param.paramType = .fixed ∧ checkType c ctx param.addr scTypeNode = .true

def searchElStr3 (param1 param2 param3 : ScpOperand) : Found3 :=
  if param1.noValue c || param2.noValue c || param2.noArc c ctx || param3.noValue c then
    (.error, param1, param2, param3)
  else
    match param1.paramType, param2.paramType, param3.paramType with
    | .assign, .assign, .assign => (.error, param1, param2, param3)
    | .fixed, .assign, .assign => searchElStr3FAA c ctx param1 param2 param3
    | .assign, .fixed, .assign => searchElStr3AFA c ctx param1 param2 param3
    | .assign, .assign, .fixed => searchElStr3AAF c ctx param1 param2 param3
    | .fixed, .fixed, .assign => searchElStr3FFA c ctx param1 param2 param3
    | .fixed, .assign, .fixed => searchElStr3FAF c ctx param1 param2 param3
    | .assign, .fixed, .fixed => searchElStr3AFF c ctx param1 param2 param3
    | .fixed, .fixed, .fixed => searchElStr3FFF c ctx param1 param2 param3

def searchElStr5FAAAA (param1 param2 param3 param4 param5 : ScpOperand) : Found5 :=
  match (iterated5 c ctx (.faa param1.addr param2.elementType param3.elementType
    ⟨param4.elementType, .type param5.elementType⟩)).head? with
  | some (_, arc1, end_, arc2, beg2) => (.true, param1, { param2 with addr := arc1 },
    { param3 with addr := end_ }, { param4 with addr := arc2 }, { param5 with addr := beg2 })
  | none => (.false, param1, param2, param3, param4, param5)

def searchElStr5AAFAA (param1 param2 param3 param4 param5 : ScpOperand) : Found5 :=
  match (iterated5 c ctx (.aaf param1.elementType param2.elementType param3.addr
    ⟨param4.elementType, .type param5.elementType⟩)).head? with
  | some (beg, arc1, _, arc2, beg2) => (.true, { param1 with addr := beg }, { param2 with addr := arc1 },
    param3, { param4 with addr := arc2 }, { param5 with addr := beg2 })
  | none => (.false, param1, param2, param3, param4, param5)

/-- The ends of the first arc keep what the operand has when there is no such arc. -/
def searchElStr5AAAAF (param1 param2 param3 param4 param5 : ScpOperand) : Found5 :=
  match (iterated c ctx (.faa param5.addr param4.elementType param2.elementType)).head? with
  | some t => (.true,
    { param1 with addr := (scMemoryGetArcBegin c ctx t.target).getD param1.addr },
    { param2 with addr := t.target },
    { param3 with addr := (scMemoryGetArcEnd c ctx t.target).getD param3.addr },
    { param4 with addr := t.edge }, param5)
  | none => (.false, param1, param2, param3, param4, param5)

def searchElStr5FAFAA (param1 param2 param3 param4 param5 : ScpOperand) : Found5 :=
  match (iterated5 c ctx (.faf param1.addr param2.elementType param3.addr
    ⟨param4.elementType, .type param5.elementType⟩)).head? with
  | some (_, arc1, _, arc2, beg2) => (.true, param1, { param2 with addr := arc1 }, param3,
    { param4 with addr := arc2 }, { param5 with addr := beg2 })
  | none => (.false, param1, param2, param3, param4, param5)

def searchElStr5FAAAF (param1 param2 param3 param4 param5 : ScpOperand) : Found5 :=
  match (iterated5 c ctx (.faa param1.addr param2.elementType param3.elementType
    ⟨param4.elementType, .addr param5.addr⟩)).head? with
  | some (_, arc1, end_, arc2, _) => (.true, param1, { param2 with addr := arc1 },
    { param3 with addr := end_ }, { param4 with addr := arc2 }, param5)
  | none => (.false, param1, param2, param3, param4, param5)

def searchElStr5AAFAF (param1 param2 param3 param4 param5 : ScpOperand) : Found5 :=
  match (iterated5 c ctx (.aaf param1.elementType param2.elementType param3.addr
    ⟨param4.elementType, .addr param5.addr⟩)).head? with
  | some (beg, arc1, _, arc2, _) => (.true, { param1 with addr := beg }, { param2 with addr := arc1 },
    param3, { param4 with addr := arc2 }, param5)
  | none => (.false, param1, param2, param3, param4, param5)

def searchElStr5FAFAF (param1 param2 param3 param4 param5 : ScpOperand) : Found5 :=
  match (iterated5 c ctx (.faf param1.addr param2.elementType param3.addr
    ⟨param4.elementType, .addr param5.addr⟩)).head? with
  | some (_, arc1, _, arc2, _) => (.true, param1, { param2 with addr := arc1 }, param3,
    { param4 with addr := arc2 }, param5)
  | none => (.false, param1, param2, param3, param4, param5)

/-- The third operand is compared with the end of the second arc. -/
def searchElStr5FFFFF (param1 param2 param3 param4 param5 : ScpOperand) : Found5 :=
  match scMemoryGetArcBegin c ctx param2.addr, scMemoryGetArcEnd c ctx param2.addr,
    scMemoryGetArcBegin c ctx param4.addr, scMemoryGetArcEnd c ctx param4.addr with
  | some begin1, some _, some begin2, some end2 =>
    (if param1.addr = begin1 ∧ param3.addr = end2 ∧ param5.addr = begin2 ∧ param2.addr = end2 then .true
      else .false, param1, param2, param3, param4, param5)
  | _, _, _, _ => (.error, param1, param2, param3, param4, param5)

def searchElStr5 (param1 param2 param3 param4 param5 : ScpOperand) : Found5 :=
  if param1.noValue c || param2.noValue c || param2.noArc c ctx || param3.noValue c ||
      param4.noValue c || param4.noArc c ctx || param5.noValue c then
    (.error, param1, param2, param3, param4, param5)
  else
    match param1.paramType, param2.paramType, param3.paramType, param4.paramType, param5.paramType with
    | .fixed, .fixed, .fixed, .fixed, .fixed => searchElStr5FFFFF c ctx param1 param2 param3 param4 param5
    | .fixed, .assign, .fixed, .assign, .fixed => searchElStr5FAFAF c ctx param1 param2 param3 param4 param5
    | .fixed, .assign, .assign, .assign, .fixed => searchElStr5FAAAF c ctx param1 param2 param3 param4 param5
    | .fixed, .assign, .fixed, .assign, .assign => searchElStr5FAFAA c ctx param1 param2 param3 param4 param5
    | .assign, .assign, .fixed, .assign, .fixed => searchElStr5AAFAF c ctx param1 param2 param3 param4 param5
    | .assign, .assign, .fixed, .assign, .assign => searchElStr5AAFAA c ctx param1 param2 param3 param4 param5
    | .fixed, .assign, .assign, .assign, .assign => searchElStr5FAAAA c ctx param1 param2 param3 param4 param5
    | .assign, .assign, .assign, .assign, .fixed => searchElStr5AAAAF c ctx param1 param2 param3 param4 param5
    | _, _, _, _, _ => (.error, param1, param2, param3, param4, param5)

end

end ScMachine.Scp
