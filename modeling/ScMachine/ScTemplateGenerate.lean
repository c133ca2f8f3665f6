import ScMachine.ScTemplate
import ScMachine.ElementFree

/-! Generation by a template (`sc_template_generate.cpp`) and parameters for a search
(`ScTemplateSearch::ApplyParameters`). `asserts` says whether `SC_ASSERT` throws, as in a debug build, or is
left out. -/
namespace ScMachine.Template
open ScMachine.Store ScMachine.StateExcept

/-- How a call of `Do` ends. -/
inductive GenerateOutcome where
  | thrown (e : ScException)
  | failed (errorMessage : String)
  | generated (result : ScTemplateNamedStruct)

/-- The result so far and `m_createdElements`. -/
structure GenerateState where
  result : ScTemplateNamedStruct
  createdElements : List ScAddr

def checkParams (data : ScTemplateData) (params : ScTemplateParams) : Bool :=
  params.values.all fun (key, value) =>
    key == value.toString ||
      match data.repl key with
      | none => false
      | some i =>
        let itemType := (data.element i).typeValue
        !(itemType.hasConstancyFlag && (!itemType.isVar || itemType.isEdge))

def createNodeLink (env : ScEnv) (ctx : ScContext) (type : ScType) (g : GenerateState) :
    StoreM (ScAddr × GenerateState) := do
  let addr ← if type.isNode then scStorageNodeNew env ctx type
    else if type.isLink then scStorageLinkNew env ctx true
    else pure ScAddr.empty
  if addr = ScAddr.empty then return (addr, g)
  return (addr, { g with createdElements := g.createdElements ++ [addr] })

/-- The address that an item stands for without an element being created. -/
def knownAddr (params : ScTemplateParams) (result : ScTemplateNamedStruct) (item : ScTemplateArg) :
    ScAddr :=
  let value := if item.hasReplacementName then params.tryGet item.replacementName else ScAddr.empty
  if value ≠ ScAddr.empty then value
  else
    match item.kind with
    | .addr => item.addrValue
    | .type => if item.hasReplacementName then result.get item.replacementName else ScAddr.empty
    | .replace => result.get item.replacementName

/-- `ScTemplateGenerateImpl::ResolveAddr`. -/
def resolveAddr (env : ScEnv) (ctx : ScContext) (params : ScTemplateParams) (item : ScTemplateArg)
    (g : GenerateState) : StoreM (ScAddr × GenerateState) :=
  if knownAddr params g.result item = ScAddr.empty ∧ item.kind = .type then
    createNodeLink env ctx item.typeValue.upConstType g
  else pure (knownAddr params g.result item, g)

/-- `AddResult`. -/
def addResult (name : String) (a : ScAddr) (result : ScTemplateNamedStruct) :
    ScTemplateNamedStruct :=
  if name = "" ∨ result.has name = true then result else result.add name a

/-- One round of the loop over the triples; `none` is an error. In a build without assertions an end
that is missing is one too. -/
def generateTriple (asserts : Bool) (env : ScEnv) (ctx : ScContext) (params : ScTemplateParams)
    (t : Triple ScTemplateArg) (g : GenerateState) :
    StoreM (Except ScException (Option ScAddr × GenerateState)) := do
  if asserts = true ∧ ¬ (t.edge.kind = .type ∧ t.edge.typeValue.isEdge = true) then
    return .error .assertion
  let (addr1, g) ← resolveAddr env ctx params t.source g
  if asserts = true ∧ addr1 = ScAddr.empty then return .error .assertion
  let (addr2, g) ← resolveAddr env ctx params t.target g
  if asserts = true ∧ addr2 = ScAddr.empty then return .error .assertion
  if addr1 = ScAddr.empty ∨ addr2 = ScAddr.empty then return .ok (none, g)
  let edge ← scStorageArcNew env ctx t.edge.typeValue.upConstType addr1 addr2
  if edge = ScAddr.empty then return .ok (none, g)
  return .ok (some edge, { g with
    result := addResult t.target.replacementName addr2
      (addResult t.edge.replacementName edge (addResult t.source.replacementName addr1 g.result)) })

/-- The arcs are those of the triples, in order, up to the first error. -/
def generateTriples (asserts : Bool) (env : ScEnv) (ctx : ScContext) (params : ScTemplateParams) :
    List (Triple ScTemplateArg) → GenerateState →
      StoreM (Except ScException (Option (List ScAddr) × GenerateState))
  | [], g => return .ok (some [], g)
  | t :: ts, g => do
    match ← generateTriple asserts env ctx params t g with
    | .error e => return .error e
    | .ok (none, g) => return .ok (none, g)
    | .ok (some edge, g) =>
      match ← generateTriples asserts env ctx params ts g with
      | .error e => return .error e
      | .ok (edges, g) => return .ok (edges.map (edge :: ·), g)

def cleanupCreated (env : ScEnv) (ctx : ScContext) (order : HashOrder) : List ScAddr → StoreM Unit
  | [] => return ()
  | a :: as => do
    let _ ← scStorageElementFree env ctx order a
    cleanupCreated env ctx order as

/-- `ScTemplateGenerateImpl::Do`. -/
def scTemplateGenerateDo (asserts : Bool) (env : ScEnv) (ctx : ScContext) (order : HashOrder)
    (data : ScTemplateData) (params : ScTemplateParams) : StoreM GenerateOutcome := do
  let triples := data.triples.map data.items
  if triples.any fun t => t.edge.isFixed then
    return .thrown (.invalidParams
      "You can't use fixed value for edge in triple for template generation")
  if !checkParams data params then return .failed "Invalid parameters"
  match ← generateTriples asserts env ctx params triples ⟨ScTemplateNamedStruct.empty, []⟩ with
  | .error e => return .thrown e
  | .ok (none, g) =>
    cleanupCreated env ctx order g.createdElements
    return .failed ""
  | .ok (some _, g) => return .generated g.result

/-- The body of the loop of `ApplyParameters`; `typeOf` is `GetElementType`. -/
def applyParameter (typeOf : ScAddr → ScType) (data : ScTemplateData) (key : String)
    (value : ScAddr) : Except ScException ScTemplateData :=
  match data.repl key with
  | none => .error (.itemNotFound ("Can't find replacement for the parameter " ++ key))
  | some i =>
    let item := data.element i
    if item.kind ≠ .type then
      .error (.invalidParams
        ("Please assign values just only to type items of template. Parameter: " ++ key))
    else if !item.typeValue.isVar then
      .error (.invalidParams ("Can't assign value to non variable item. Parameter: " ++ key))
    else if (typeOf value).isVar then
      .error (.invalidParams ("Do not use variable as parameter value. Parameter: " ++ key))
    else if !canAssignParam item.typeValue (typeOf value) then
      .error (.invalidParams ("Type of " ++ key ++ " is not compatible"))
    else
      .ok { data with
        elements := data.elements.set i { item with kind := .addr, typeValue := 0, addrValue := value } }

/-- `ScTemplateSearch::ApplyParameters`. -/
def applyParameters (typeOf : ScAddr → ScType) (data : ScTemplateData) :
    List (String × ScAddr) → Except ScException ScTemplateData
  | [] => .ok data
  | (key, value) :: rest => do
    let data ← applyParameter typeOf data key value
    applyParameters typeOf data rest

end ScMachine.Template
