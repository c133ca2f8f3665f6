import ScMachine.ScpOperands
import ScMachine.ScpSystemGen

/-! Creation of an scp process by the pattern of its program (`scp_process_creator.c`,
`scp_interpreter_utils.c`, `scp_genElStr3.c`). -/
namespace ScMachine.Scp
open ScMachine.Store ScMachine.Template

/-- The keynodes that `create_scp_process` goes by. -/
structure ProcessKeynodes where
  questionInitiated : ScAddr
  questionScpInterpretationRequest : ScAddr
  ordinalRrel1 : ScAddr
  ordinalRrel2 : ScAddr
  orderRoleRelation : ScAddr
  scpProgram : ScAddr
  nrelScpProgramVar : ScAddr
  nrelScpProgramConst : ScAddr
  rrelParams : ScAddr
  nrelTemplateOfScpProcessCreation : ScAddr
  nrelScpProcess : ScAddr
  scpProcess : ScAddr
  rrelOperators : ScAddr
  rrelInit : ScAddr
  activeScpOperator : ScAddr
  uselessScpProcess : ScAddr

/-- `copies_hash` and `pattern_hash`. -/
structure CopyTables where
  copies : ScTypeResult
  pattern : List ScAddr

def CopyTables.put (tables : CopyTables) (elem copy : ScAddr) : CopyTables :=
  ⟨tables.copies.insert elem copy, tables.pattern.erase elem⟩

/-- `MAKE_DEFAULT_NODE_ASSIGN` -/
def defaultNode : ScpOperand := assignOperand (scTypeConst ||| scTypeNode)

section
variable (c : Cells) (ctx : ScContext)

/-- The arcs of a set with their elements, as an scp iterator yields them. -/
def setElements (set : ScAddr) : List (Triple ScAddr) :=
  iterated c ctx (.faa set scpTypeArcPosConstPerm 0)

def loadSetToHash (set : ScAddr) (table : List ScAddr) : List ScAddr :=
  (setElements c ctx set).foldl (fun table t => table.insert t.target) table

/-- The loop of `resolve_ordinal_rrel`: without an order role relation the last node is left. -/
def resolveOrdinalAmong (orderRoleRelation : ScAddr) : List ScAddr → ScAddr → ScpResult × ScAddr
  | [], result => (.false, result)
  | node :: nodes, _ =>
    if (searchElStr3 c ctx (fixedOperand orderRoleRelation) defaultArc (fixedOperand node)).1 = .true then
      (.true, node)
    else resolveOrdinalAmong orderRoleRelation nodes node

def resolveOrdinalRrel (orderRoleRelation arcParam : ScAddr) : ScpResult × ScAddr :=
  resolveOrdinalAmong c ctx orderRoleRelation
    ((iterated c ctx (.aaf defaultNode.elementType scpTypeArcPosConstPerm arcParam)).map (·.source))
    ScAddr.empty

/-- `searchElStr5` for the element that a role relation or an attribute marks among those of `owner`. -/
def searchMarked (owner : ScAddr) (arc elem : ScpOperand) (relation : ScAddr) : ScpResult × ScAddr :=
  let found := searchElStr5 c ctx (fixedOperand owner) arc elem defaultArc (fixedOperand relation)
  (found.1, found.2.2.2.1.addr)

/-- A set of the program, if it is found. -/
def programSet (procedure : ScAddr) (arc : ScpOperand) (relation : ScAddr) : ScAddr :=
  (searchMarked c ctx procedure arc varValue relation).2

def varsSet (kn : ProcessKeynodes) (procedure : ScAddr) : ScAddr :=
  programSet c ctx procedure commonArc kn.nrelScpProgramVar

def constsSet (kn : ProcessKeynodes) (procedure : ScAddr) : ScAddr :=
  programSet c ctx procedure commonArc kn.nrelScpProgramConst

def paramsSet (kn : ProcessKeynodes) (procedure : ScAddr) : ScAddr :=
  programSet c ctx procedure defaultArc kn.rrelParams

def copyingPattern (kn : ProcessKeynodes) (procedure : ScAddr) : ScAddr :=
  programSet c ctx procedure commonArc kn.nrelTemplateOfScpProcessCreation

/-- The loop of `copy_parameter_set`; nothing is given back when a parameter is missed. What
`resolve_ordinal_rrel` returns is not looked at. -/
def copyParameters (orderRoleRelation callParams : ScAddr) :
    List (Triple ScAddr) → CopyTables → Option CopyTables
  | [], tables => some tables
  | t :: elements, tables =>
    let ordinal := (resolveOrdinalRrel c ctx orderRoleRelation t.edge).2
    match searchMarked c ctx callParams defaultArc varValue ordinal with
    | (.true, newElem) =>
      copyParameters orderRoleRelation callParams elements (tables.put t.target newElem)
    | _ => none

def copyParameterSet (orderRoleRelation set callParams : ScAddr) (tables : CopyTables) :
    Option CopyTables :=
  copyParameters c ctx orderRoleRelation callParams (setElements c ctx set) tables

/-- What `copy_const_set` does with one element. -/
def copyConst (tables : CopyTables) (elem : ScAddr) : CopyTables :=
  if elem ∈ tables.copies then tables else tables.put elem elem

def copyConstSet (set : ScAddr) (tables : CopyTables) : CopyTables :=
  ((setElements c ctx set).map (·.target)).foldl copyConst tables

end

/-- The elements behind the arcs of `owner` that the relation marks, as the iterator comes to them. -/
def markedElements (c : Cells) (ctx : ScContext) (type : ScType) (relation owner : ScAddr) : List ScAddr :=
  (iterated5 c ctx (.faa owner type 0 ⟨scpTypeArcPosConstPerm, .addr relation⟩)).map (·.2.2.1)

/-- The operators to begin with. -/
def initOperators (c : Cells) (ctx : ScContext) (kn : ProcessKeynodes) (process : ScAddr) : List ScAddr :=
  markedElements c ctx scpTypeArcPosConstPerm kn.rrelInit process

section
variable (env : ScEnv) (ctx : ScContext)

/-- The element is made, or the operand keeps its address. -/
def genEl (param : ScpOperand) : StoreM (ScpResult × ScpOperand) := do
  if param.paramType = .fixed ∨ param.elementType &&& scTypeNode ≠ scTypeNode then return (.error, param)
  else
    let addr ← scStorageNodeNew env ctx param.elementType
    let s ← get
    return (if Live s.cell addr then .true else .error, { param with addr := addr })

/-- The loop of `copy_var_set` and of `copy_copying_const_set`. -/
def copyNewElements (newElem : ScpOperand) : List ScAddr → CopyTables → StoreM CopyTables
  | [], tables => return tables
  | elem :: elements, tables =>
    if elem ∈ tables.copies then copyNewElements newElem elements tables
    else do
      let (_, newElem) ← genEl env ctx newElem
      copyNewElements newElem elements (tables.put elem newElem.addr)

/-- No arc comes into the set while the nodes are made. -/
def copyNewSet (type : ScType) (set : ScAddr) (tables : CopyTables) : StoreM CopyTables := do
  let s ← get
  copyNewElements env ctx (assignOperand type) ((setElements s.cell ctx set).map (·.target)) tables

def copyVarSet := copyNewSet env ctx (scTypeConst ||| scTypeNode ||| scTypeVar)

def copyCopyingConstSet := copyNewSet env ctx (scTypeConst ||| scTypeNode ||| scTypeConst)

/-- `g_hash_table_find` with `compare_keys`: an empty address is a null pointer. -/
def findCopy (copies : ScTypeResult) (elem : ScAddr) : Option ScAddr :=
  (copies[elem]?).filter (· ≠ ScAddr.empty)

/-- A copy of the type of the element comes into the table. -/
def copyElement (elem : ScAddr) (tables : CopyTables) (make : ScType → StoreM ScAddr) :
    StoreM (ScAddr × CopyTables) := do
  let s ← get
  match scMemoryGetElementType s.cell ctx elem with
  | none => throw ScStop.abort
  | some type => do
    let copy ← make type
    return (copy, { tables with copies := tables.copies.insert elem copy })

/-- `gen_copy` of at most as many calls inside each other. What is not a node is taken for an arc;
nothing is said of what is done with ends that have not been set. -/
def genCopy : ℕ → ScAddr → CopyTables → StoreM (ScAddr × CopyTables)
  | 0, _, _ => throw ScStop.diverge
  | fuel+1, elem, tables =>
    match findCopy tables.copies elem with
    | some copy => return (copy, tables)
    | none => do
      let s ← get
      if checkType s.cell ctx elem scTypeNode = .true then
        if elem ∉ tables.pattern then return ((findCopy tables.copies elem).getD elem, tables)
        else copyElement ctx elem tables (scStorageNodeNew env ctx)
      else
        match scMemoryGetArcBegin s.cell ctx elem, scMemoryGetArcEnd s.cell ctx elem with
        | some beg, some end_ => do
          let (newBegin, tables) ← genCopy fuel beg tables
          let (newEnd, tables) ← genCopy fuel end_ tables
          copyElement ctx elem tables fun type => scStorageArcNew env ctx type newBegin newEnd
        | _, _ => throw ScStop.abort

/-- The loop over `pattern_hash`. -/
def genCopies (fuel : ℕ) : List ScAddr → CopyTables → StoreM CopyTables
  | [], tables => return tables
  | elem :: elements, tables => do
    let (_, tables) ← genCopy env ctx fuel elem tables
    genCopies fuel elements tables

def genElStr3With (fixed1 fixed3 : Bool) (param1 param2 param3 : ScpOperand) : StoreM Found3 := do
  let addr1 ← genEnd env ctx fixed1 param1
  let addr3 ← genEnd env ctx fixed3 param3
  let addr2 ← scStorageArcNew env ctx param2.elementType addr1 addr3
  return (.true, { param1 with addr := addr1 }, { param2 with addr := addr2 },
    { param3 with addr := addr3 })

def genElStr3AAA := genElStr3With env ctx false false
def genElStr3FAA := genElStr3With env ctx true false
def genElStr3AAF := genElStr3With env ctx false true
def genElStr3FAF := genElStr3With env ctx true true

def genElStr3 (param1 param2 param3 : ScpOperand) : StoreM Found3 := do
  let s ← get
  if param2.paramType = .fixed ∨ param1.noValue s.cell ∨ param3.noValue s.cell then
    return (.error, param1, param2, param3)
  else
    match param1.paramType, param3.paramType with
    | .fixed, .fixed => genElStr3FAF env ctx param1 param2 param3
    | .assign, .fixed => genElStr3AAF env ctx param1 param2 param3
    | .fixed, .assign => genElStr3FAA env ctx param1 param2 param3
    | .assign, .assign => genElStr3AAA env ctx param1 param2 param3

/-- An arc from a keynode to an element, as `genElStr3` makes it. -/
def genMark (keynode elem : ScAddr) : StoreM Unit := do
  let _ ← genElStr3 env ctx (fixedOperand keynode) defaultArc (fixedOperand elem)

variable (order patternOrder : HashOrder) (kn : ProcessKeynodes)

def setActiveOperator (scpOperatorNode : ScAddr) : StoreM Unit :=
  genMark env ctx kn.activeScpOperator scpOperatorNode

def markScpProcessAsUseless (param : ScAddr) : StoreM Unit := genMark env ctx kn.uselessScpProcess param

def eraseEl (param : OperatorOperand) : StoreM ScpResult := do
  let s ← get
  if param.paramType = .assign ∨ param.erase = false ∨ ¬ Live s.cell param.addr then return .error
  else
    let _ ← scStorageElementFree env ctx order param.addr
    return .true

/-- The question that has been initiated by the arc, if it asks for an interpretation; else what the
agent returns. -/
def requestedQuestion (c : Cells) (ctx : ScContext) (arg : ScAddr) : Except ScResult (ScAddr × ScAddr) :=
  if ¬ Live c arg then .error .error
  else if checkType c ctx arg scpTypeArcPosConstPerm ≠ .true then .error .ok
  else
    match searchElStr3 c ctx defaultNode ⟨arg, .fixed, scpTypeArcPosConstPerm⟩ defaultNode with
    | (.true, node1, _, question) =>
      if (searchElStr3 c ctx (fixedOperand kn.questionScpInterpretationRequest) defaultArc
        (fixedOperand question.addr)).1 = .true then .ok (node1.addr, question.addr)
      else .error .error
    | _ => .error .error

/-- The program and the parameters that the question names. -/
def requestedProgram (c : Cells) (ctx : ScContext) (question : ScAddr) : Option (ScAddr × ScAddr) :=
  match searchMarked c ctx question defaultArc varValue kn.ordinalRrel1 with
  | (.true, procedure) =>
    match searchMarked c ctx question defaultArc defaultNode kn.ordinalRrel2 with
    | (.true, callParams) =>
      if (searchElStr3 c ctx (fixedOperand kn.scpProgram) defaultArc (fixedOperand procedure)).1 = .true then
        some (procedure, callParams)
      else none
    | _ => none
  | _ => none

/-- The tables are filled with what the sets of the program say; the sets are looked for first. -/
def processTables (procedure callParams : ScAddr) : StoreM (Option CopyTables) := do
  let s ← get
  let vars := varsSet s.cell ctx kn procedure
  let consts := constsSet s.cell ctx kn procedure
  let params := paramsSet s.cell ctx kn procedure
  let pattern := copyingPattern s.cell ctx kn procedure
  match copyParameterSet s.cell ctx kn.orderRoleRelation params callParams
    ⟨∅, loadSetToHash s.cell ctx pattern []⟩ with
  | none => return none
  | some tables => do
    let tables ← copyVarSet env ctx vars tables
    let tables ← copyCopyingConstSet env ctx vars tables
    let s ← get
    return some (copyConstSet s.cell ctx consts tables)

/-- The node of the process, and what stands for the set of operators: without one this is the element
`node1` that the question has been initiated by. -/
def makeProcess (node1 question procedure : ScAddr) (tables : CopyTables) :
    StoreM (ScAddr × CopyTables) := do
  let (_, _, _, process, _, _) ← genElStr5 env ctx (fixedOperand question) commonArc defaultNode defaultArc
    (fixedOperand kn.nrelScpProcess)
  genMark env ctx kn.scpProcess process.addr
  let s ← get
  let operators := (searchMarked s.cell ctx procedure defaultArc { defaultNode with addr := node1 }
    kn.rrelOperators).2
  return (process.addr, tables.put operators process.addr)

/-- The loop over the operators to start with. -/
def activateOperators : List ScAddr → StoreM Unit
  | [] => return ()
  | operator :: operators => do
    setActiveOperator env ctx kn operator
    activateOperators operators

/-- The arcs that mark the operators do not come from `rrel_init`, so the iterator does not see them. -/
def startProcess (process : ScAddr) : StoreM Unit := do
  let s ← get
  match initOperators s.cell ctx kn process with
  | [] => markScpProcessAsUseless env ctx kn process
  | operators => activateOperators env ctx kn operators

/-- What `create_scp_process` does with a program and its parameters. -/
def makeProcessOf (fuel : ℕ) (node1 question procedure callParams : ScAddr) : StoreM ScResult := do
  match ← processTables env ctx kn procedure callParams with
  | none => return .ok
  | some tables => do
    let (process, tables) ← makeProcess env ctx kn node1 question procedure tables
    let _ ← genCopies env ctx fuel (patternOrder.list tables.pattern) tables
    startProcess env ctx kn process
    return .ok

def createScpProcess (fuel : ℕ) (arg : ScAddr) : StoreM ScResult := do
  let s ← get
  match requestedQuestion kn s.cell ctx arg with
  | .error result => return result
  | .ok (node1, question) => do
    let _ ← eraseEl env ctx order ⟨fixedOperand arg, .const, true⟩
    let s ← get
    match requestedProgram kn s.cell ctx question with
    | none => return .error
    | some (procedure, callParams) => makeProcessOf env ctx patternOrder kn fuel node1 question procedure callParams

end

end ScMachine.Scp
