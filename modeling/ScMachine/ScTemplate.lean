import ScMachine.ScTypes

/-! Templates (`sc_template_arg.hpp`, `sc_template_data.hpp`, `sc_template_builder_impl.cpp`,
`sc_template_params.cpp`, `sc_template_named_struct.cpp`). `asserts` says whether `SC_ASSERT` throws, as in a
debug build, or is left out. -/
namespace ScMachine.Store

def scTypeConstancyMask : ScType := scTypeConst ||| scTypeVar

def ScType.isEdge (t : ScType) : Bool := t &&& scTypeArcMask != 0
def ScType.isNode (t : ScType) : Bool := t &&& scTypeNode != 0
def ScType.isLink (t : ScType) : Bool := t &&& scTypeLink != 0
def ScType.isConst (t : ScType) : Bool := t &&& scTypeConst != 0
def ScType.isVar (t : ScType) : Bool := t &&& scTypeVar != 0
def ScType.hasConstancyFlag (t : ScType) : Bool := t &&& scTypeConstancyMask != 0
def ScType.upConstType (t : ScType) : ScType := (t &&& ~~~scTypeVar) ||| scTypeConst

/-- The segment is an `int` when it is shifted, so its highest bit is the sign. -/
def ScAddr.hash (a : ScAddr) : BitVec 64 := (a.seg ++ a.offset).signExtend 64

def ScAddr.toString (a : ScAddr) : String := "&" ++ Nat.repr a.hash.toNat

end ScMachine.Store

namespace ScMachine.Template
open ScMachine.Store

/-- An exception of `sc_debug.hpp` with its message. -/
inductive ScException where
  | assertion
  | invalidParams (message : String)
  | invalidState (message : String)
  | itemNotFound (message : String)
  deriving DecidableEq, Repr

/-- `ScTemplateArg::Kind`; no constructor leaves `None`. -/
inductive Kind where
  | type
  | addr
  | replace
  deriving DecidableEq, Repr

structure ScTemplateArg where
  kind : Kind
  addrValue : ScAddr
  typeValue : ScType
  replacementName : String
  deriving DecidableEq, Repr

/-- `ScType::Unknown` is zero. -/
def ScTemplateArg.ofAddr (a : ScAddr) (replName : String) : ScTemplateArg := ⟨.addr, a, 0, replName⟩

def ScTemplateArg.ofType (type : ScType) (replName : String) : ScTemplateArg :=
  ⟨.type, ScAddr.empty, type, replName⟩

def ScTemplateArg.ofName (name : String) : ScTemplateArg := ⟨.replace, ScAddr.empty, 0, name⟩

def ScTemplateArg.isFixed (arg : ScTemplateArg) : Bool :=
  arg.kind == .addr || arg.kind == .replace

def ScTemplateArg.hasReplacementName (arg : ScTemplateArg) : Bool := arg.replacementName != ""

/-- The three positions of a triple. -/
structure Triple (α : Type) where
  source : α
  edge : α
  target : α
  deriving DecidableEq, Repr

def Triple.map {α β : Type} (f : α → β) (t : Triple α) : Triple β :=
  ⟨f t.source, f t.edge, f t.target⟩

def Triple.toList {α : Type} (t : Triple α) : List α := [t.source, t.edge, t.target]

/-- The triples hold indices of the items. -/
structure ScTemplateData where
  repl : String → Option ℕ
  elements : List ScTemplateArg
  triples : List (Triple ℕ)

def ScTemplateData.empty : ScTemplateData := ⟨fun _ => none, [], []⟩

def ScTemplateData.hasReplacement (d : ScTemplateData) (name : String) : Bool :=
  (d.repl name).isSome

/-- The item with an index; one past the end of the vector has none. -/
def ScTemplateData.element (d : ScTemplateData) (i : ℕ) : ScTemplateArg :=
  d.elements.getD i (.ofType 0 "")

/-- `GetTriple`. -/
def ScTemplateData.items (d : ScTemplateData) (t : Triple ℕ) : Triple ScTemplateArg :=
  t.map d.element

/-- `m_repl.insert`, which leaves an entry as it is. -/
def insertName (repl : String → Option ℕ) (name : String) (i : ℕ) : String → Option ℕ :=
  if (repl name).isSome then repl else Function.update repl name (some i)

def ScTemplateData.setupReplAlias (asserts : Bool) (d : ScTemplateData) (replName newAlias : String) :
    Except ScException ScTemplateData :=
  if asserts = true ∧ (d.repl newAlias).isSome = true then .error .assertion
  else
    match d.repl replName with
    | some i => .ok { d with repl := insertName d.repl newAlias i }
    | none => .ok d

def insertReplacementName (value : ScTemplateArg) (repl : String → Option ℕ) (i : ℕ) :
    String → Option ℕ :=
  if value.hasReplacementName then insertName repl value.replacementName i else repl

/-- The body of the loop of `AddTriple`: the index of one item. -/
def ScTemplateData.addItem (d : ScTemplateData) (value : ScTemplateArg) :
    Except ScException (ℕ × ScTemplateData) :=
  if value.kind = .type ∧ value.typeValue.isConst = true then
    .error (.invalidParams "Using of constant types in template is restricted")
  else if value.kind = .addr ∧ value.addrValue = ScAddr.empty then
    .error (.invalidParams "ScAddr is empty")
  else if value.kind ≠ .replace ∧ value.hasReplacementName = true ∧
      (d.repl value.replacementName).isSome = true then
    .error (.invalidParams ("Replacement " ++ value.replacementName ++ " already exists"))
  else
    let index := d.elements.length
    match value.kind with
    | .addr =>
      match d.repl value.addrValue.toString with
      | none =>
        .ok (index, { d with
          repl := insertReplacementName value (insertName d.repl value.addrValue.toString index) index
          elements := d.elements ++ [value] })
      | some i => .ok (i, d)
    | .type =>
      .ok (index, { d with
        repl := insertReplacementName value d.repl index
        elements := d.elements ++ [value] })
    | .replace =>
      match d.repl value.replacementName with
      | none => .error (.invalidParams ("There are no parameter with name " ++ value.replacementName))
      | some i => .ok (i, d)

def ScTemplateData.addTriple (d : ScTemplateData) (args : Triple ScTemplateArg) :
    Except ScException ScTemplateData :=
  if args.edge.hasReplacementName = true ∧
      (args.edge.replacementName = args.source.replacementName ∨
        args.edge.replacementName = args.target.replacementName) then
    .error (.invalidParams "You can't use same replacement for an edge and source/target")
  else do
    let (source, d) ← d.addItem args.source
    let (edge, d) ← d.addItem args.edge
    let (target, d) ← d.addItem args.target
    .ok { d with triples := d.triples ++ [⟨source, edge, target⟩] }

def ScTemplateData.addTriples (d : ScTemplateData) :
    List (Triple ScTemplateArg) → Except ScException ScTemplateData
  | [] => .ok d
  | args :: rest => do
    let d ← d.addTriple args
    d.addTriples rest

def ScTemplateData.tripleWithRelation (d : ScTemplateData)
    (param1 param2 param3 param4 param5 : ScTemplateArg) : Except ScException ScTemplateData := do
  let name := if param2.replacementName = "" then "_generated_repl_" ++ Nat.repr d.triples.length
    else param2.replacementName
  let d ← d.addTriple ⟨param1, { param2 with replacementName := name }, param3⟩
  d.addTriple ⟨param5, param4, .ofName name⟩

/-- The entries in the order in which the hash table is iterated. -/
structure ScTemplateParams where
  values : List (String × ScAddr)
  nodup : (values.map Prod.fst).Nodup

def ScTemplateParams.empty : ScTemplateParams := ⟨[], by simp⟩

def ScTemplateParams.tryGet (params : ScTemplateParams) (name : String) : ScAddr :=
  ((params.values.find? fun p => p.1 == name).map Prod.snd).getD ScAddr.empty

def canAssignParam (varType paramType : ScType) : Bool :=
  let mask := ~~~(scTypeElementMask ||| scTypeConstancyMask)
  if varType &&& scTypeElementMask != paramType &&& scTypeElementMask then false
  else if !varType.isVar || paramType.isVar then false
  else if varType &&& mask != 0 && varType &&& mask != paramType &&& mask then false
  else true

/-- Names and the addresses that they stand for; the addresses without a name are left out. -/
structure ScTemplateNamedStruct where
  names : String → Option ScAddr

def ScTemplateNamedStruct.empty : ScTemplateNamedStruct := ⟨fun _ => none⟩

def ScTemplateNamedStruct.has (s : ScTemplateNamedStruct) (name : String) : Bool :=
  (s.names name).isSome

/-- `operator []`. -/
def ScTemplateNamedStruct.get (s : ScTemplateNamedStruct) (name : String) : ScAddr :=
  (s.names name).getD ScAddr.empty

/-- `Builder::Add` of a name that is not there yet. -/
def ScTemplateNamedStruct.add (s : ScTemplateNamedStruct) (name : String) (a : ScAddr) :
    ScTemplateNamedStruct :=
  ⟨Function.update s.names name (some a)⟩

end ScMachine.Template
