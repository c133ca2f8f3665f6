import ScMachine.ScsTypes
import ScMachine.StateExcept
import ScMachine.Runs

/-! The part of the scs parser that builds elements and triples (`scs_parser.cpp`). The text itself
is read by a generated parser, which calls these functions from the rules of `scs.g4`. -/
namespace ScMachine.Scs
open ScMachine.Store ScMachine.StateExcept

/-- What ends a call early. `undefinedBehavior` is the top of an empty `std::stack`. -/
inductive ScsError where
  | assertion
  | parseError (message : String)
  | itemNotFound (message : String)
  | undefinedBehavior
  deriving DecidableEq, Repr

inductive Visibility where
  | local
  | global
  | system
  deriving DecidableEq, Repr

structure ParsedElement where
  idtf : String
  type : ScType
  visibility : Visibility
  isReversed : Bool
  value : String
  isURL : Bool
  deriving DecidableEq, Repr

/-- A handle that is valid; an invalid one is `none`. The vectors of elements are shorter than
`INVALID_ID`, so an index is a natural number. -/
structure ElementHandle where
  id : ℕ
  isLocal : Bool
  deriving DecidableEq, Repr

structure ParsedTriple where
  source : ElementHandle
  edge : ElementHandle
  target : ElementHandle
  deriving DecidableEq, Repr

/-- The stacks have their top first. -/
structure Parser where
  parsedElements : List ParsedElement
  parsedElementsLocal : List ParsedElement
  contourElementsStack : List (ℕ × ℕ)
  contourTriplesStack : List ℕ
  parsedTriples : List ParsedTriple
  idtfToParsedElement : String → Option ElementHandle
  aliasHandles : String → Option ElementHandle
  idtfCounter : ℕ

def Parser.new : Parser := ⟨[], [], [], [], [], fun _ => none, fun _ => none, 0⟩

abbrev ParserM := StateT Parser (Except ScsError)

/-- `SC_ASSERT` throws in a debug build and does nothing in a release build. -/
def scAssert (debug b : Bool) : ParserM Unit := if debug && !b then throw .assertion else pure ()

def ParsedElement.getType (el : ParsedElement) : ScType :=
  if el.type ≠ ScType.unknown then el.type
  else if isConst el.idtf then ScType.nodeConst else ScType.nodeVar

/-- `ResolveVisibility` for an identifier that is not empty. -/
def resolveVisibility (idtf : String) : Visibility :=
  match idtf.toList with
  | '.' :: '.' :: _ => .local
  | '.' :: _ => .global
  | _ => .system

/-- The constructor of `ParsedElement`. -/
def parsedElement (debug : Bool) (idtf : String) (type : ScType) (isReversed : Bool)
    (value : String) (isURL : Bool) : ParserM ParsedElement :=
  if value ≠ "" then do
    scAssert debug (type.isNode || type.isLink)
    pure ⟨idtf, type, .local, isReversed, value, isURL⟩
  else do
    scAssert debug (!isReversed || type.isEdge)
    pure ⟨idtf, type, if type.isEdge then .local else resolveVisibility idtf, isReversed, value,
      isURL⟩

def Parser.container (p : Parser) (isLocal : Bool) : List ParsedElement :=
  if isLocal then p.parsedElementsLocal else p.parsedElements

def Parser.setContainer (p : Parser) (isLocal : Bool) (els : List ParsedElement) : Parser :=
  if isLocal then { p with parsedElementsLocal := els } else { p with parsedElements := els }

def Parser.element (p : Parser) (h : ElementHandle) : Option ParsedElement :=
  (p.container h.isLocal)[h.id]?

def itemNotFoundMessage (h : ElementHandle) : String :=
  "ElementId\x7b" ++ Nat.repr h.id ++ ", " ++ (if h.isLocal then "1" else "0") ++ "\x7d"

/-- `GetParsedElement` and `GetParsedElementRef`. -/
def getParsedElement (h : ElementHandle) : ParserM ParsedElement := do
  let p ← get
  match p.element h with
  | some el => pure el
  | none => throw (.itemNotFound (itemNotFoundMessage h))

/-- `GenerateNodeIdtf`, `GenerateEdgeIdtf`, `GenerateLinkIdtf` and `GenerateContourIdtf`. -/
def generateIdtf (start : String) : ParserM String := do
  let p ← get
  modify (fun p => { p with idtfCounter := p.idtfCounter+1 })
  pure (start ++ Nat.repr p.idtfCounter)

def generateNodeIdtf : ParserM String := generateIdtf "..node_"
def generateEdgeIdtf : ParserM String := generateIdtf "..edge_"
def generateLinkIdtf : ParserM String := generateIdtf "..link_"
def generateContourIdtf : ParserM String := generateIdtf "..contour_"

/-- The new element at the end of its vector, and the name that leads to it. -/
def Parser.append (p : Parser) (el : ParsedElement) : ElementHandle × Parser :=
  let isLocal := el.visibility = .local
  let h : ElementHandle := ⟨(p.container isLocal).length, isLocal⟩
  let p' := p.setContainer isLocal (p.container isLocal ++ [el])
  (h, { p' with idtfToParsedElement := Function.update p.idtfToParsedElement el.idtf (some h) })

def appendElement (debug : Bool) (idtf : String) (type : ScType) (isConnectorReversed : Bool)
    (value : String) (isURL : Bool) : ParserM ElementHandle := do
  if idtf = "" then throw .assertion
  let idtf ← if isUnnamed idtf then generateNodeIdtf else pure idtf
  let p ← get
  match p.idtfToParsedElement idtf with
  | some h => pure h
  | none => do
    let el ← parsedElement debug idtf type isConnectorReversed value isURL
    let p ← get
    set (p.append el).2
    pure (p.append el).1

def resolveAlias (name : String) : ParserM (Option ElementHandle) := do
  let p ← get
  pure (p.aliasHandles name)

def processIdentifier (debug : Bool) (name : String) : ParserM ElementHandle := do
  scAssert debug (!name.toList.contains '#')
  appendElement debug name (if isConst name then ScType.nodeConst else ScType.nodeVar) false "" false

def processIdentifierLevel1 (debug : Bool) (type name : String) : ParserM ElementHandle :=
  let constancy := if isConst name then ScType.const else ScType.var
  appendElement debug name (getKeynodeType type ||| constancy) false "" false

def Parser.setType (p : Parser) (h : ElementHandle) (type : ScType) : Parser :=
  p.setContainer h.isLocal
    ((p.container h.isLocal).modify h.id (fun el => { el with type := type }))

def pushTriple (t : ParsedTriple) : ParserM Unit :=
  modify (fun p => { p with parsedTriples := p.parsedTriples ++ [t] })

/-- The lambda `addEdge` of `ProcessTriple`. -/
def addEdge (edgeEl : ParsedElement) (src e trg : ElementHandle) : ParserM Unit := do
  let srcEl ← getParsedElement src
  if edgeEl.getType = ScType.edgeAccessConstPosPerm ∧ isKeynodeType srcEl.idtf then do
    let targetEl ← getParsedElement trg
    let newType := targetEl.type ||| getKeynodeType srcEl.idtf
    if targetEl.type.canExtendTo newType then modify (fun p => p.setType trg newType)
    else throw (.parseError ("Can't merge types for element " ++ targetEl.idtf))
    let p ← get
    -- outside of a contour a type statement leaves no triple
    if p.contourTriplesStack ≠ [] then pushTriple ⟨src, e, trg⟩
  else pushTriple ⟨src, e, trg⟩

def processTriple (debug : Bool) (source edge target : ElementHandle) : ParserM Unit := do
  let edgeEl ← getParsedElement edge
  scAssert debug edgeEl.getType.isEdge
  if edgeEl.isReversed then addEdge edgeEl target edge source
  else addEdge edgeEl source edge target

def processAssign (name : String) (value : ElementHandle) : ParserM Unit :=
  modify (fun p => { p with aliasHandles := Function.update p.aliasHandles name (some value) })

def processConnector (debug : Bool) (connector : String) : ParserM ElementHandle := do
  let type := getConnectorType connector
  scAssert debug type.isEdge
  let idtf ← generateEdgeIdtf
  appendElement debug idtf type (isConnectorReversed connector) "" false

/-- `UnescapeContent`: a backslash before a backslash or a square bracket is dropped. -/
def unescapeContent : List Char → List Char
  | '\\' :: c :: cs =>
    if c = '\\' ∨ c = '[' ∨ c = ']' then c :: unescapeContent cs
    else '\\' :: unescapeContent (c :: cs)
  | c :: cs => c :: unescapeContent cs
  | [] => []

def processContent (debug : Bool) (content : String) (isVar : Bool) : ParserM ElementHandle := do
  let idtf ← generateLinkIdtf
  appendElement debug idtf (ScType.link ||| if isVar then ScType.var else ScType.const) false
    (String.ofList (unescapeContent content.toList)) false

def processFileURL (debug : Bool) (fileURL : String) : ParserM ElementHandle := do
  let idtf ← generateLinkIdtf
  appendElement debug idtf ScType.linkConst false fileURL true

def processContourBegin (debug : Bool) : ParserM ElementHandle := do
  let idtf ← generateContourIdtf
  let result ← appendElement debug idtf ScType.nodeConstStruct false "" false
  modify (fun p => { p with
    contourElementsStack :=
      (p.parsedElements.length, p.parsedElementsLocal.length) :: p.contourElementsStack
    contourTriplesStack := p.parsedTriples.length :: p.contourTriplesStack })
  pure result

/-- `ElementHandle::operator <`. -/
def ElementHandle.lt (a b : ElementHandle) : Bool :=
  if a.id = b.id then !a.isLocal && b.isLocal else a.id < b.id

/-- `std::set::insert`. -/
def setInsert (h : ElementHandle) : List ElementHandle → List ElementHandle
  | [] => [h]
  | x :: xs => if h.lt x then h :: x :: xs else if x.lt h then x :: setInsert h xs else x :: xs

/-- The elements that `ProcessContourEnd` appends to a contour that began when the vectors had the
given sizes. -/
def newElements (p : Parser) (ind : ℕ × ℕ) (tripleFirst : ℕ) : List ElementHandle :=
  let new := (List.range' ind.1 (p.parsedElements.length-ind.1)).map (fun i => ⟨i, false⟩)
  let newLocal := (List.range' ind.2 (p.parsedElementsLocal.length-ind.2)).map (fun i => ⟨i, true⟩)
  let ofTriples := (p.parsedTriples.drop tripleFirst).flatMap (fun t => [t.source, t.edge, t.target])
  (new ++ newLocal ++ ofTriples).foldl (fun s h => setInsert h s) []

/-- The body of the last loop of `ProcessContourEnd`. -/
def addMember (debug : Bool) (contourHandle el : ElementHandle) : ParserM Unit := do
  let edge ← processConnector debug "->"
  processTriple debug contourHandle edge el

def addMembers (debug : Bool) (contourHandle : ElementHandle) : List ElementHandle → ParserM Unit
  | [] => pure ()
  | el :: els => do
    addMember debug contourHandle el
    addMembers debug contourHandle els

def processContourEnd (debug : Bool) (contourHandle : ElementHandle) : ParserM Unit := do
  let p ← get
  scAssert debug (p.contourElementsStack ≠ [])
  scAssert debug (p.contourTriplesStack ≠ [])
  match p.contourElementsStack, p.contourTriplesStack with
  | ind :: elementsStack, tripleFirst :: triplesStack => do
    modify (fun p => { p with
      contourElementsStack := elementsStack
      contourTriplesStack := triplesStack })
    addMembers debug contourHandle (newElements p ind tripleFirst)
  | _, _ => throw .undefinedBehavior

end ScMachine.Scs
