import ScMachine.StoreGraph
import ScMachine.ScsTypes

/-! `ScSet` of `sc_struct.cpp`: the elements of a set are the ends of the membership arcs that leave
it, and a removal deletes these arcs while it iterates over them. `asserts` says whether a failing
`SC_ASSERT` throws, as it does where `SC_DEBUG` is set. -/
namespace ScMachine.Store
open ScMachine.StateExcept ScMachine.GraphMemory ScMachine.Template

structure ScSet where
  addr : ScAddr
  context : ScContext

/-- An iterator is asked once and released. -/
def nextOnce (env : ScEnv) (it : ScIterator3) : StoreM Bool := do
  let (found, it) ← scIterator3Next env (fun _ => 0) it
  scIterator3Free env it
  return found

def scHelperCheckArc (env : ScEnv) (ctx : ScContext) (begEl endEl : ScAddr) (arcType : ScType) :
    StoreM Bool := do
  match ← scIterator3FAFNew env ctx begEl arcType endEl with
  | none => return false
  | some it => nextOnce env it

/-- `Next` of an iterator that has not been made: the assertion throws, or nothing is found. -/
def nextOfNull (asserts found : Bool) : Except ScException Bool :=
  if asserts then .error .assertion else .ok found

namespace ScSet

def hasElement (env : ScEnv) (set : ScSet) (elAddr : ScAddr) : StoreM Bool :=
  scHelperCheckArc env set.context set.addr elAddr ScType.edgeAccessConstPosPerm

def append (env : ScEnv) (set : ScSet) (elAddr : ScAddr) : StoreM Bool := do
  if ← set.hasElement env elAddr then return false
  let edge ← scStorageArcNew env set.context ScType.edgeAccessConstPosPerm set.addr elAddr
  return decide (edge ≠ ScAddr.empty)

/-- `Append` with an attribute; `order` is that of the hash tables when the edge is erased again. -/
def appendWithAttr (env : ScEnv) (order : HashOrder) (set : ScSet) (elAddr attrAddr : ScAddr) :
    StoreM Bool := do
  if ← set.hasElement env elAddr then return false
  let edge ← scStorageArcNew env set.context ScType.edgeAccessConstPosPerm set.addr elAddr
  if edge = ScAddr.empty then return false
  let edge2 ← scStorageArcNew env set.context ScType.edgeAccessConstPosPerm attrAddr edge
  if edge2 ≠ ScAddr.empty then return true
  -- cleanup
  let _ ← scStorageElementFree env set.context order edge
  return false

/-- The loop of `Remove`: the arc that the iterator stands on is erased, and the iterator goes on. -/
def removeLoop (env : ScEnv) (order : ScAddr → HashOrder) (set : ScSet) :
    ℕ → Bool → ScIterator3 → StoreM (Bool × ScIterator3)
  | 0, _, _ => throw .diverge
  | fuel + 1, found, it => do
    let (more, it) ← scIterator3Next env (fun _ => 0) it
    if more then
      let _ ← scStorageElementFree env set.context (order it.result1) it.result1
      removeLoop env order set fuel true it
    else return (found, it)

def remove (env : ScEnv) (asserts : Bool) (order : ScAddr → HashOrder) (set : ScSet) (elAddr : ScAddr) :
    StoreM (Except ScException Bool) := do
  match ← scIterator3FAFNew env set.context set.addr ScType.edgeAccessConstPosPerm elAddr with
  | none => return nextOfNull asserts false
  | some it =>
    let (found, it) ← removeLoop env order set walkFuel false it
    scIterator3Free env it
    return .ok found

def isEmpty (env : ScEnv) (asserts : Bool) (set : ScSet) : StoreM (Except ScException Bool) := do
  match ← scIterator3FAANew env set.context set.addr ScType.edgeAccessConstPosPerm 0 with
  | none => return nextOfNull asserts true
  | some it =>
    let found ← nextOnce env it
    return .ok !found

end ScSet

/-! What the calls are for, in terms of the graph. -/

/-- The arcs that make `x` a member of the set `s`. -/
def membershipArcs (g : StoreGraph) (s x : ScAddr) : Set ScAddr :=
  {a | g.ends a = some (s, x) ∧
    ∃ l, g.label a = some l ∧ ScType.edgeAccessConstPosPerm &&& l.type = ScType.edgeAccessConstPosPerm}

def IsMember (g : StoreGraph) (s x : ScAddr) : Prop := (membershipArcs g s x).Nonempty

/-- The arc `a` from `b` to `e`, as the calls of a set make it. -/
def ScSet.addArc (set : ScSet) (g : StoreGraph) (a b e : ScAddr) : StoreGraph :=
  g.put a ⟨ScType.edgeAccessConstPosPerm, set.context.accessLevels⟩ (some (b, e))

/-- A new arc makes `x` a member; an attribute gets an arc to it. -/
def JoinsSet (g : StoreGraph) (set : ScSet) (x : ScAddr) : Option ScAddr → StoreGraph → Prop
  | none, g' => ∃ a, a ∉ g.elements ∧ g' = set.addArc g a set.addr x
  | some attr, g' => ∃ a, a ∉ g.elements ∧ ∃ b, b ∉ (set.addArc g a set.addr x).elements ∧
    g' = set.addArc (set.addArc g a set.addr x) b attr a

/-- `x` is put into the set if it is not in it and all the elements are there. -/
def Appends (g : StoreGraph) (set : ScSet) (x : ScAddr) (attr : Option ScAddr) (r : Bool)
    (g' : StoreGraph) : Prop :=
  (r = true ∧ ¬ IsMember g set.addr x ∧ set.addr ∈ g.elements ∧ x ∈ g.elements ∧
      JoinsSet g set x attr g') ∨
    (r = false ∧ g' = g ∧ (IsMember g set.addr x ∨ set.addr ∉ g.elements ∨ x ∉ g.elements ∨
      ∃ y ∈ attr, y ∉ g.elements))

/-- The calls of a set, with what they are given. -/
inductive SetCall where
  | hasElement (elAddr : ScAddr)
  | append (elAddr : ScAddr)
  | appendWithAttr (order : HashOrder) (elAddr attrAddr : ScAddr)
  | remove (order : ScAddr → HashOrder) (elAddr : ScAddr)
  | isEmpty

/-- A call that throws nothing. -/
def returned (call : StoreM Bool) : StoreM (Except ScException Bool) := do
  return .ok (← call)

def SetCall.run (env : ScEnv) (asserts : Bool) (set : ScSet) : SetCall → StoreM (Except ScException Bool)
  | .hasElement elAddr => returned (set.hasElement env elAddr)
  | .append elAddr => returned (set.append env elAddr)
  | .appendWithAttr order elAddr attrAddr => returned (set.appendWithAttr env order elAddr attrAddr)
  | .remove order elAddr => set.remove env asserts order elAddr
  | .isEmpty => set.isEmpty env asserts

/-- The answer `b` is as it should be, unless there is nothing to iterate over and this throws. -/
def Iterates (asserts : Bool) (there : Prop) (P : Bool → Prop) (r : Except ScException Bool) : Prop :=
  (asserts = true ∧ ¬ there ∧ r = .error .assertion) ∨ ((asserts = true → there) ∧ ∃ b, r = .ok b ∧ P b)

/-- What a call may answer and leave. -/
def SetSpecified (asserts : Bool) (g : StoreGraph) (set : ScSet) :
    SetCall → Except ScException Bool → StoreGraph → Prop
  | .hasElement x, r, g' => ∃ b, r = .ok b ∧ (b = true ↔ IsMember g set.addr x) ∧ g' = g
  | .append x, r, g' => ∃ b, r = .ok b ∧ Appends g set x none b g'
  | .appendWithAttr _ x attr, r, g' => ∃ b, r = .ok b ∧ Appends g set x (some attr) b g'
  | .remove _ x, r, g' =>
    Iterates asserts (set.addr ∈ g.elements ∧ x ∈ g.elements) (fun b => b = true ↔ IsMember g set.addr x) r ∧
      g' = g.deleteAll (membershipArcs g set.addr x)
  | .isEmpty, r, g' =>
    Iterates asserts (set.addr ∈ g.elements) (fun b => b = true ↔ ∀ x, ¬ IsMember g set.addr x) r ∧ g' = g

end ScMachine.Store
