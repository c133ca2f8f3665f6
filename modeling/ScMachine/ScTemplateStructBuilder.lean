import ScMachine.ScTemplateSearch

/-! A template from a structure of variables (`sc_template_struct_builder.cpp`) in a store at rest. -/
namespace ScMachine.Template
open ScMachine.Store

/-- Two elements that are not less than each other are interchangeable for the others. -/
structure StrictWeak {α : Type} (less : α → α → Bool) : Prop where
  asymm : ∀ a b, less a b = true → less b a = false
  cotrans : ∀ a b c, less a c = true → less a b = true ∨ less b c = true

/-- `std::sort`, which leaves open in what order elements come that are not less than each other. -/
structure StdSort (α : Type) where
  sort : (α → α → Bool) → List α → List α
  sort_perm : ∀ less l, (sort less l).Perm l
  sort_sorted : ∀ less l, StrictWeak less → (sort less l).Pairwise fun a b => less b a = false

/-- An element of the structure; the ends of an arc are kept beside it. -/
structure ObjectInfo where
  addr : ScAddr
  type : ScType
  sysIdtf : String
  deriving DecidableEq, Repr

def ObjectInfo.getIdtf (o : ObjectInfo) : String :=
  if o.sysIdtf ≠ "" then o.sysIdtf
  else if o.addr ≠ ScAddr.empty then o.addr.toString
  else ""

def calculateEdgeRank (t : Triple ObjectInfo) : ℕ :=
  (if t.source.type.isConst then 1 else 0)+(if t.target.type.isConst then 1 else 0)

/-- What an arc adds to `edgeDependMap`: the source stands for the target, too. -/
def edgeDepends (t : Triple ObjectInfo) : List (BitVec 64 × BitVec 64) :=
  (if t.source.type.isEdge then [(t.edge.addr.hash, t.source.addr.hash)] else []) ++
    (if t.target.type.isEdge then [(t.edge.addr.hash, t.source.addr.hash)] else [])

/-- The other edge is never compared, only whether an entry is zero. -/
def isEdgeDependOnOther (dependMap : List (BitVec 64 × BitVec 64)) :
    ℕ → BitVec 64 → BitVec 64 → Bool
  | 0, _, _ => false
  | depth + 1, edge, otherEdge => dependMap.any fun (key, value) =>
      key == edge && (value != 0 || isEdgeDependOnOther dependMap depth value otherEdge)

/-- `EdgeLessFunctor`. -/
def edgeLess (dependMap : List (BitVec 64 × BitVec 64)) (a b : Triple ObjectInfo) : Bool :=
  let depends (x y : Triple ObjectInfo) :=
    isEdgeDependOnOther dependMap (dependMap.length+1) x.edge.addr.hash y.edge.addr.hash
  if depends a b then false
  else if depends b a then true
  else if calculateEdgeRank a ≠ calculateEdgeRank b then calculateEdgeRank b < calculateEdgeRank a
  else a.edge.addr.hash < b.edge.addr.hash

/-- No template: a message, or an exception. -/
inductive MakeStop where
  | failed (errorMessage : String)
  | thrown (e : ScException)
  deriving DecidableEq, Repr

/-- `GetEdgeInfo`. -/
def getEdgeInfo (c : Cells) (ctx : ScContext) (a : ScAddr) : Option (ScAddr × ScAddr) :=
  if Live c a ∧ CanRead ctx c a ∧ (c a).isArc = true then some (ownerOf c .out a, ownerOf c .inp a)
  else none

/-- What the iterator over the structure yields; there may be no iterator. -/
def structElements (c : Cells) (ctx : ScContext) (struct : ScAddr) : Option (List ScAddr) :=
  (iterator3 c ctx (.faa struct scTypeEdgeAccessConstPosPerm 0)).map fun l => l.map Triple.target

/-- The loop over the elements; `index` numbers those without a system identifier. -/
def collectObjects (c : Cells) (ctx : ScContext) (systemIdtf : ScAddr → String) :
    List ScAddr → List ObjectInfo → ℕ → Except MakeStop (List ObjectInfo)
  | [], objects, _ => .ok objects
  | a :: rest, objects, index =>
    if objects.any (·.addr.hash == a.hash) then collectObjects c ctx systemIdtf rest objects index
    else
      let objType := getElementType c ctx a
      if objType = 0 then
        .error (.failed ("Can't determine type of ScElement " ++ Nat.repr a.hash.toNat))
      else if systemIdtf a = "" then
        collectObjects c ctx systemIdtf rest
          (objects ++ [⟨a, objType, "..obj_" ++ Nat.repr index⟩]) (index+1)
      else collectObjects c ctx systemIdtf rest (objects ++ [⟨a, objType, systemIdtf a⟩]) index

/-- A lookup in `addrToObjectIndex`. -/
def findObject (objects : List ObjectInfo) (a : ScAddr) : Option ObjectInfo :=
  objects.find? (·.addr.hash == a.hash)

/-- The loop over the arcs, which looks for their ends. -/
def resolveEnds (c : Cells) (ctx : ScContext) (struct : ScAddr) (objects : List ObjectInfo) :
    List ObjectInfo → Except MakeStop (List (Triple ObjectInfo))
  | [] => .ok []
  | obj :: rest =>
    match getEdgeInfo c ctx obj.addr with
    | none => .error (.failed
        ("Can't get src/trg objects of edge " ++ Nat.repr obj.addr.hash.toNat))
    | some (src, trg) =>
      let outside (a : ScAddr) := Nat.repr a.hash.toNat ++ " of edge " ++
        Nat.repr obj.addr.hash.toNat ++ " is not a part of the same structure " ++
        Nat.repr struct.hash.toNat
      match findObject objects src with
      | none => .error (.failed ("Source element " ++ outside src))
      | some srcObj =>
        match findObject objects trg with
        | none => .error (.failed ("Target element " ++ outside trg))
        | some trgObj => do
          let triples ← resolveEnds c ctx struct objects rest
          .ok (⟨srcObj, obj, trgObj⟩ :: triples)

/-- The arcs with their ends, sorted. -/
def structTriples (std : StdSort (Triple ObjectInfo)) (c : Cells) (ctx : ScContext)
    (systemIdtf : ScAddr → String) (struct : ScAddr) (members : List ScAddr) :
    Except MakeStop (List (Triple ObjectInfo)) := do
  let objects ← collectObjects c ctx systemIdtf members [] 0
  let triples ← resolveEnds c ctx struct objects (objects.filter (·.type.isEdge))
  .ok (std.sort (edgeLess (triples.flatMap edgeDepends)) triples)

def wrapIdtf (d : ScTemplateData) (o : ObjectInfo) : String :=
  if d.hasReplacement o.getIdtf then "" else o.getIdtf

/-- The end of an arc in the call of `Triple`; every branch for the two ends writes it so. -/
def endArg (d : ScTemplateData) (o : ObjectInfo) : ScTemplateArg :=
  if o.type.isConst then .ofAddr o.addr (wrapIdtf d o)
  else if d.hasReplacement o.getIdtf then .ofName o.getIdtf
  else .ofType o.type (wrapIdtf d o)

def addAlias (asserts : Bool) (d : ScTemplateData) (o : ObjectInfo) :
    Except ScException ScTemplateData :=
  if asserts = true ∧ o.addr = ScAddr.empty then .error .assertion
  else if d.hasReplacement o.addr.toString then .ok d
  else d.setupReplAlias asserts o.getIdtf o.addr.toString

/-- The body of the loop that builds the template. -/
def addEdge (asserts : Bool) (d : ScTemplateData) (t : Triple ObjectInfo) :
    Except ScException ScTemplateData :=
  if asserts = true ∧ t.edge.type.isVar = false then .error .assertion
  else do
    let d ← d.addTriple
      ⟨endArg d t.source, .ofType t.edge.type (wrapIdtf d t.edge), endArg d t.target⟩
    let d ← addAlias asserts d t.source
    let d ← addAlias asserts d t.edge
    addAlias asserts d t.target

def addEdges (asserts : Bool) (d : ScTemplateData) :
    List (Triple ObjectInfo) → Except ScException ScTemplateData
  | [] => .ok d
  | t :: rest => do
    let d ← addEdge asserts d t
    addEdges asserts d rest

/-- `ScTemplateStructBuilder::Make` for the elements that the iterator yields. -/
def scTemplateStructBuilderMake (asserts : Bool) (std : StdSort (Triple ObjectInfo)) (c : Cells)
    (ctx : ScContext) (systemIdtf : ScAddr → String) (struct : ScAddr)
    (iter : Option (List ScAddr)) : Except MakeStop ScTemplateData :=
  -- without the assertion an iterator that was not created yields nothing
  if asserts = true ∧ iter = none then .error (.thrown .assertion)
  else do
    let triples ← structTriples std c ctx systemIdtf struct (iter.getD [])
    match addEdges asserts ScTemplateData.empty triples with
    | .error e => .error (.thrown e)
    | .ok d => .ok d

end ScMachine.Template
