import ScMachine.ScTemplateSearch

/-! Commands and the agents that run them (`sc_agent.cpp`), in a build whose assertions throw. The iterators
are those of a store at rest. -/
namespace ScMachine.Agent
open ScMachine.Store ScMachine.Template

def scTypeNodeConst : ScType := scTypeNode ||| scTypeConst
def scTypeNodeConstStruct : ScType := scTypeNode ||| scTypeConst ||| 0x100
def scTypeNodeConstClass : ScType := scTypeNode ||| scTypeConst ||| 0x800
def scTypeEdgeDCommonConst : ScType := scTypeArcCommon ||| scTypeConst
def scTypeEdgeAccessConstPosTemp : ScType := scTypeConst ||| scTypeArcAccess ||| 0x400 ||| 0x80

/-- The keynodes that the code uses; `kKeynodeRrelList` has 20 of them. -/
structure ScKeynodes where
  kCommandState : ScAddr
  kCommandInitiated : ScAddr
  kCommandProgressd : ScAddr
  kCommandFinished : ScAddr
  kNrelResult : ScAddr
  getResultCodeAddr : ScResult → ScAddr
  kKeynodeRrelList : Fin 20 → ScAddr

/-- `ScAgentAction::State`. -/
inductive State where
  | unknown
  | initiated
  | progress
  | finished
  deriving DecidableEq, Repr

/-- The loop over the parameters from the index `i` on; there are fewer than 20 in all. -/
def createParams (env : ScEnv) (ctx : ScContext) (kn : ScKeynodes) (cmd : ScAddr) :
    ℕ → List ScAddr → StoreM (Except ScException Unit)
  | _, [] => return .ok ()
  | i, param :: params => do
    let edgeCommon ← scStorageArcNew env ctx scTypeEdgeAccessConstPosPerm cmd param
    if edgeCommon = ScAddr.empty then return .error .assertion
    if h : i < 20 then
      let _ ← scStorageArcNew env ctx scTypeEdgeAccessConstPosPerm (kn.kKeynodeRrelList ⟨i, h⟩) edgeCommon
      createParams env ctx kn cmd (i+1) params
    else return .error (.invalidParams "You should use index in range[0; 20]")

/-- `CreateCommand`. -/
def createCommand (env : ScEnv) (ctx : ScContext) (kn : ScKeynodes) (cmdClassAddr : ScAddr)
    (params : List ScAddr) : StoreM (Except ScException ScAddr) := do
  if 20 ≤ params.length then
    return .error (.invalidParams "You should use <= 20 params")
  if cmdClassAddr = ScAddr.empty then return .error .assertion
  let cmd ← scStorageNodeNew env ctx scTypeNodeConst
  if cmd = ScAddr.empty then return .error .assertion
  let _ ← scStorageArcNew env ctx scTypeEdgeAccessConstPosPerm cmdClassAddr cmd
  match ← createParams env ctx kn cmd 0 params with
  | .error e => return .error e
  | .ok _ => return .ok cmd

/-- `InitiateCommand`; the new arc is what the agents are told of, and without one the call returns
false. -/
def initiateCommand (env : ScEnv) (ctx : ScContext) (kn : ScKeynodes) (cmd : ScAddr) :
    StoreM (Option ScAddr) := do
  let c := (← get).cell
  if helperCheckEdge c ctx kn.kCommandProgressd cmd scTypeEdgeAccessConstPosTemp then return none
  if helperCheckEdge c ctx kn.kCommandInitiated cmd scTypeEdgeAccessConstPosTemp then return none
  let edge ← scStorageArcNew env ctx scTypeEdgeAccessConstPosTemp kn.kCommandInitiated cmd
  if edge = ScAddr.empty then return none
  return some edge

/-- The local variables of `ScAgentAction::Run` while `RunImpl` runs. -/
structure RunningCommand where
  cmdAddr : ScAddr
  progressAddr : ScAddr
  resultAddr : ScAddr
  deriving DecidableEq

/-- `ScAgentAction::Run` up to `RunImpl`; without a result it returns `SC_RESULT_ERROR`. -/
def runStart (env : ScEnv) (ctx : ScContext) (order : HashOrder) (kn : ScKeynodes)
    (cmdClassAddr edgeAddr : ScAddr) : StoreM (Option RunningCommand) := do
  match ← scStorageGetArcEnd env ctx edgeAddr with
  | (.ok, some cmd) =>
    if cmd = ScAddr.empty then return none
    let c := (← get).cell
    if !helperCheckEdge c ctx cmdClassAddr cmd scTypeEdgeAccessConstPosPerm then return none
    let _ ← scStorageElementFree env ctx order edgeAddr
    let progress ← scStorageArcNew env ctx scTypeEdgeAccessConstPosTemp kn.kCommandProgressd cmd
    scAssert (progress ≠ ScAddr.empty)
    let result ← scStorageNodeNew env ctx scTypeNodeConstStruct
    scAssert (result ≠ ScAddr.empty)
    return some ⟨cmd, progress, result⟩
  | _ => return none

/-- The rest of `ScAgentAction::Run`, when `RunImpl` has returned. The result is whether the arc of the
state has been made. -/
def runFinish (env : ScEnv) (ctx : ScContext) (order : HashOrder) (kn : ScKeynodes)
    (run : RunningCommand) (resCode : ScResult) : StoreM Bool := do
  let _ ← scStorageElementFree env ctx order run.progressAddr
  let commonEdge ← scStorageArcNew env ctx scTypeEdgeDCommonConst run.cmdAddr run.resultAddr
  let _ ← scStorageArcNew env ctx scTypeEdgeAccessConstPosPerm kn.kNrelResult commonEdge
  let _ ← scStorageArcNew env ctx scTypeEdgeAccessConstPosPerm (kn.getResultCodeAddr resCode)
    run.resultAddr
  let finished ← scStorageArcNew env ctx scTypeEdgeAccessConstPosTemp kn.kCommandFinished run.cmdAddr
  return finished ≠ ScAddr.empty

/-- The states that the loop of `GetCommandState` takes, one after the other; there may be no iterator. -/
def visitedStates (c : Cells) (ctx : ScContext) (kn : ScKeynodes) (cmd : ScAddr) : Option (List ScAddr) :=
  (iterator3 c ctx (.aaf scTypeNodeConstClass scTypeEdgeAccessConstPosTemp cmd)).map fun found =>
    (found.map Triple.source).filter fun a =>
      helperCheckEdge c ctx kn.kCommandState a scTypeEdgeAccessConstPosPerm

/-- What `GetCommandState` returns for `stateAddr`. -/
def ScKeynodes.stateOf (kn : ScKeynodes) (stateAddr : ScAddr) : State :=
  if stateAddr = kn.kCommandFinished then .finished
  else if stateAddr = kn.kCommandInitiated then .initiated
  else if stateAddr = kn.kCommandProgressd then .progress
  else .unknown

/-- `GetCommandState`: `stateAddr` is the last one that the loop has taken. `Next` of an iterator that could
not be created fails its assertion. -/
def getCommandState (c : Cells) (ctx : ScContext) (kn : ScKeynodes) (cmd : ScAddr) :
    Except ScException State :=
  match visitedStates c ctx kn cmd with
  | none => .error .assertion
  | some visited => .ok (kn.stateOf (visited.getLastD ScAddr.empty))

def isCommandFishined (c : Cells) (ctx : ScContext) (kn : ScKeynodes) (cmd : ScAddr) :
    Except ScException Bool := do
  return (← getCommandState c ctx kn cmd) = .finished

def isCommandInitiated (c : Cells) (ctx : ScContext) (kn : ScKeynodes) (cmd : ScAddr) :
    Except ScException Bool := do
  return (← getCommandState c ctx kn cmd) = .initiated

def isCommandInProgress (c : Cells) (ctx : ScContext) (kn : ScKeynodes) (cmd : ScAddr) :
    Except ScException Bool := do
  return (← getCommandState c ctx kn cmd) = .progress

end ScMachine.Agent
