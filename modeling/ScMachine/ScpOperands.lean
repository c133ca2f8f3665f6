import ScMachine.CommandParameters
import ScMachine.GenerateCleanup
import ScMachine.ScpElementSearch

/-! Erasing and generating constructions of five elements, and the operands of scp operators with the values
of variables (`scp_functions.c`, `scp_eraseElStr5.c`, `scp_genElStr5.c`,
`scp_operator_interpreter_functions.c`). -/
namespace ScMachine.Scp
open ScMachine.Store ScMachine.Template

/-- `scp_operand_type` -/
inductive ScpOperandType where
  | const
  | var
  deriving DecidableEq, Repr

/-- `scp_operand`, with the marks that erasing and interpreting look at. -/
structure OperatorOperand extends ScpOperand where
  operandType : ScpOperandType
  erase : Bool
  deriving DecidableEq

section
variable (env : ScEnv) (ctx : ScContext) (order : HashOrder)

def eraseMarked (param : OperatorOperand) : StoreM Unit := do
  if param.erase then
    let _ ← scStorageElementFree env ctx order param.addr

/-- An arc may have gone with its ends. -/
def eraseMarkedArc (param : OperatorOperand) : StoreM Unit := do
  let s ← get
  if Live s.cell param.addr then eraseMarked env ctx order param

def eraseElStr5F (param1 param2 param3 param4 param5 : OperatorOperand) : StoreM ScpResult := do
  eraseMarked env ctx order param1
  eraseMarked env ctx order param3
  eraseMarked env ctx order param5
  eraseMarkedArc env ctx order param2
  eraseMarkedArc env ctx order param4
  return .true

def eraseMarkedFixed (param : OperatorOperand) : StoreM Unit := do
  if param.paramType = .fixed then eraseMarked env ctx order param

/-- The iterator of `search` is freed behind the erasure, so that what it stands on keeps its cell until
then and the rest of the store is as without it. -/
def eraseElStr5With (search : Cells → ScContext → ScpOperand → ScpOperand → ScpOperand → ScpOperand →
    ScpOperand → Found5) (param1 param2 param3 param4 param5 : OperatorOperand) : StoreM ScpResult := do
  let s ← get
  match search s.cell ctx param1.toScpOperand param2.toScpOperand param3.toScpOperand param4.toScpOperand
    param5.toScpOperand with
  | (.true, p1, p2, p3, p4, p5) =>
    eraseElStr5F env ctx order { param1 with toScpOperand := p1 } { param2 with toScpOperand := p2 }
      { param3 with toScpOperand := p3 } { param4 with toScpOperand := p4 }
      { param5 with toScpOperand := p5 }
  | _ =>
    eraseMarkedFixed env ctx order param1
    eraseMarkedFixed env ctx order param3
    eraseMarkedFixed env ctx order param5
    return .false

def eraseElStr5FAAAA := eraseElStr5With env ctx order searchElStr5FAAAA
def eraseElStr5AAFAA := eraseElStr5With env ctx order searchElStr5AAFAA
def eraseElStr5AAAAF := eraseElStr5With env ctx order searchElStr5AAAAF
def eraseElStr5FAFAA := eraseElStr5With env ctx order searchElStr5FAFAA
def eraseElStr5FAAAF := eraseElStr5With env ctx order searchElStr5FAAAF
def eraseElStr5AAFAF := eraseElStr5With env ctx order searchElStr5AAFAF
def eraseElStr5FAFAF := eraseElStr5With env ctx order searchElStr5FAFAF

def eraseElStr5 (param1 param2 param3 param4 param5 : OperatorOperand) : StoreM ScpResult := do
  let s ← get
  if param1.noValue s.cell || param2.noValue s.cell || param2.noArc s.cell ctx || param3.noValue s.cell ||
      param4.noValue s.cell || param4.noArc s.cell ctx || param5.noValue s.cell then
    return .error
  else
    match param1.paramType, param2.paramType, param3.paramType, param4.paramType, param5.paramType with
    | .fixed, .assign, .fixed, .assign, .fixed =>
      eraseElStr5FAFAF env ctx order param1 param2 param3 param4 param5
    | .fixed, .assign, .assign, .assign, .fixed =>
      eraseElStr5FAAAF env ctx order param1 param2 param3 param4 param5
    | .fixed, .assign, .fixed, .assign, .assign =>
      eraseElStr5FAFAA env ctx order param1 param2 param3 param4 param5
    | .assign, .assign, .fixed, .assign, .fixed =>
      eraseElStr5AAFAF env ctx order param1 param2 param3 param4 param5
    | .assign, .assign, .fixed, .assign, .assign =>
      eraseElStr5AAFAA env ctx order param1 param2 param3 param4 param5
    | .fixed, .assign, .assign, .assign, .assign =>
      eraseElStr5FAAAA env ctx order param1 param2 param3 param4 param5
    | .assign, .assign, .assign, .assign, .fixed =>
      eraseElStr5AAAAF env ctx order param1 param2 param3 param4 param5
    | _, _, _, _, _ => return .error

/-- A fixed end is taken, for an assigned one a node is made. -/
def genEnd (fixed : Bool) (param : ScpOperand) : StoreM ScAddr := do
  if fixed then return param.addr
  else scStorageNodeNew env ctx param.elementType

/-- The two arcs come behind the ends that are made. -/
def genElStr5With (fixed1 fixed3 fixed5 : Bool) (param1 param2 param3 param4 param5 : ScpOperand) :
    StoreM Found5 := do
  let addr1 ← genEnd env ctx fixed1 param1
  let addr3 ← genEnd env ctx fixed3 param3
  let addr5 ← genEnd env ctx fixed5 param5
  let addr2 ← scStorageArcNew env ctx param2.elementType addr1 addr3
  let addr4 ← scStorageArcNew env ctx param4.elementType addr5 addr2
  return (.true, { param1 with addr := addr1 }, { param2 with addr := addr2 }, { param3 with addr := addr3 },
    { param4 with addr := addr4 }, { param5 with addr := addr5 })

def genElStr5AAAAA := genElStr5With env ctx false false false
def genElStr5FAAAA := genElStr5With env ctx true false false
def genElStr5AAFAA := genElStr5With env ctx false true false
def genElStr5AAAAF := genElStr5With env ctx false false true
def genElStr5FAFAA := genElStr5With env ctx true true false
def genElStr5FAAAF := genElStr5With env ctx true false true
def genElStr5AAFAF := genElStr5With env ctx false true true
def genElStr5FAFAF := genElStr5With env ctx true true true

def genElStr5 (param1 param2 param3 param4 param5 : ScpOperand) : StoreM Found5 := do
  let s ← get
  if param2.paramType = .fixed ∨ param4.paramType = .fixed ∨ param1.noValue s.cell ∨ param3.noValue s.cell ∨
      param5.noValue s.cell then
    return (.error, param1, param2, param3, param4, param5)
  else
    match param1.paramType, param3.paramType, param5.paramType with
    | .fixed, .fixed, .fixed => genElStr5FAFAF env ctx param1 param2 param3 param4 param5
    | .fixed, .fixed, .assign => genElStr5FAFAA env ctx param1 param2 param3 param4 param5
    | .fixed, .assign, .fixed => genElStr5FAAAF env ctx param1 param2 param3 param4 param5
    | .assign, .fixed, .fixed => genElStr5AAFAF env ctx param1 param2 param3 param4 param5
    | .assign, .assign, .fixed => genElStr5AAAAF env ctx param1 param2 param3 param4 param5
    | .assign, .fixed, .assign => genElStr5AAFAA env ctx param1 param2 param3 param4 param5
    | .fixed, .assign, .assign => genElStr5FAAAA env ctx param1 param2 param3 param4 param5
    | .assign, .assign, .assign => genElStr5AAAAA env ctx param1 param2 param3 param4 param5

end

def scpTypeArcPosConstPerm : ScType := scTypeEdgeAccessConstPosPerm

/-- The operands by which the value of a variable is found, erased and made: `MAKE_DEFAULT_OPERAND_FIXED`,
`MAKE_COMMON_ARC_ASSIGN`, `MAKE_DEFAULT_OPERAND_ASSIGN` and `MAKE_DEFAULT_ARC_ASSIGN`. -/
def constOperand (param : ScpOperand) : OperatorOperand := { param with operandType := .const, erase := false }

def commonArc : ScpOperand := assignOperand (scTypeArcCommon ||| scTypeConst)

def varValue : ScpOperand := assignOperand 0

def defaultArc : ScpOperand := assignOperand scpTypeArcPosConstPerm

section
variable (env : ScEnv) (ctx : ScContext) (order : HashOrder) (nrelValue : ScAddr)

/-- The addresses that a search leaves in its operands are not looked at by the next one. An operand that
stops the loop has been copied before. -/
def getOperandsValues : List OperatorOperand → StoreM (ScpResult × List OperatorOperand)
  | [] => return (.true, [])
  | operand :: operands => do
    let next (value : OperatorOperand) : StoreM (ScpResult × List OperatorOperand) := do
      let (result, values) ← getOperandsValues operands
      return (result, value :: values)
    match operand.paramType, operand.operandType with
    | .fixed, .const => next operand
    | .fixed, .var =>
      let s ← get
      match searchElStr5 s.cell ctx (fixedOperand operand.addr) commonArc varValue defaultArc
        (fixedOperand nrelValue) with
      | (.true, _, _, value, _, _) => next { operand with addr := value.addr }
      | _ => return (.error, [operand])
    | .assign, .const => return (.error, [operand])
    | .assign, .var =>
      let _ ← eraseElStr5 env ctx order (constOperand (fixedOperand operand.addr))
        { constOperand commonArc with erase := true } (constOperand varValue) (constOperand defaultArc)
        (constOperand (fixedOperand nrelValue))
      next operand

/-- Each operand comes with its value. -/
def setOperandsValues : List (OperatorOperand × OperatorOperand) → StoreM ScpResult
  | [] => return .true
  | (operand, value) :: operands => do
    if operand.paramType = .assign then
      let _ ← genElStr5 env ctx (fixedOperand operand.addr) commonArc
        { value.toScpOperand with paramType := .fixed } defaultArc (fixedOperand nrelValue)
    setOperandsValues operands

end

end ScMachine.Scp
