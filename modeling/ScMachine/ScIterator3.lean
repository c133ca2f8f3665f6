import ScMachine.ElementFree

/-! Iterators over triples begin, arc, end (`sc_iterator3.c`). -/
namespace ScMachine.Store

/-- Each letter is a position of the triple: `f` is fixed, `a` is assigned and has a type. -/
inductive ScIterator3Type where
  | faa
  | aaf
  | faf
  | afa
  | ffa
  | aff
  | fff
  deriving DecidableEq, Repr

/-- `sc_iterator_param`; the constructor is `is_type`. -/
inductive ScIteratorParam where
  | type (t : ScType)
  | addr (a : ScAddr)
  deriving DecidableEq, Repr

/-- The kind of an iterator together with the parameters that fit it. -/
inductive Iterator3Params where
  | faa (beg : ScAddr) (arcType endType : ScType)
  | aaf (begType arcType : ScType) (end_ : ScAddr)
  | faf (beg : ScAddr) (arcType : ScType) (end_ : ScAddr)
  | afa (begType : ScType) (edge : ScAddr) (endType : ScType)
  | ffa (beg edge : ScAddr) (endType : ScType)
  | aff (begType : ScType) (edge end_ : ScAddr)
  | fff (beg edge end_ : ScAddr)
  deriving DecidableEq, Repr

/-- The fixed positions, in the order in which their references are taken and given back. -/
def Iterator3Params.fixed : Iterator3Params → List ScAddr
  | .faa beg _ _ => [beg]
  | .aaf _ _ end_ => [end_]
  | .faf beg _ end_ => [beg, end_]
  | .afa _ edge _ => [edge]
  | .ffa beg edge _ => [beg, edge]
  | .aff _ edge end_ => [edge, end_]
  | .fff beg edge end_ => [beg, edge, end_]

/-- `results[i]` is `result`i. -/
structure ScIterator3 where
  params : Iterator3Params
  ctx : ScContext
  result0 : ScAddr
  result1 : ScAddr
  result2 : ScAddr
  finished : Bool

def ScIterator3.results (it : ScIterator3) : ScAddr × ScAddr × ScAddr :=
  (it.result0, it.result1, it.result2)

/-- `sc_access_lvl_make_max`. -/
def scAccessLvlMakeMax : ScAccessLevels := 0xff

def scIteratorCompareType (elType itType : ScType) : Bool :=
  itType &&& scFlagsRemove elType == itType

/-- The loop of `_sc_iterator_ref_element` over the attempts that are left. -/
def refElementLoop (env : ScEnv) (a : ScAddr) : ℕ → StoreM Bool
  | 0 => return false
  | attempts + 1 => do
    -- a failed lock leaves `el` null, which is one more failed attempt
    if !(← scStorageElementLock env a) then return ← refElementLoop env a attempts
    if scElementIsValid (← readCell a) then
      scStorageElementRef env a
      scStorageElementUnlock env a
      return true
    scStorageElementUnlock env a
    refElementLoop env a attempts

def scIteratorRefElement (env : ScEnv) (a : ScAddr) : StoreM Bool := refElementLoop env a 1000

/-- The chain of `||` over the fixed parameters: what was taken before a failure is kept. -/
def refElements (env : ScEnv) : List ScAddr → StoreM Bool
  | [] => return true
  | a :: as => do
    if ← scIteratorRefElement env a then refElements env as
    else return false

def newWithParams (env : ScEnv) (ctx : ScContext) (params : Iterator3Params) :
    StoreM (Option ScIterator3) := do
  if ← refElements env params.fixed then
    return some ⟨params, ctx, ScAddr.empty, ScAddr.empty, ScAddr.empty, false⟩
  else return none

/-- Parameters that do not fit the kind give a null pointer. -/
def scIterator3New (env : ScEnv) (ctx : ScContext) (type : ScIterator3Type)
    (p1 p2 p3 : ScIteratorParam) : StoreM (Option ScIterator3) :=
  match type, p1, p2, p3 with
  | .faa, .addr beg, .type arcType, .type endType =>
    newWithParams env ctx (.faa beg arcType endType)
  | .aaf, .type begType, .type arcType, .addr end_ =>
    newWithParams env ctx (.aaf begType arcType end_)
  | .faf, .addr beg, .type arcType, .addr end_ => newWithParams env ctx (.faf beg arcType end_)
  | .afa, .type begType, .addr edge, .type endType =>
    newWithParams env ctx (.afa begType edge endType)
  | .ffa, .addr beg, .addr edge, .type endType => newWithParams env ctx (.ffa beg edge endType)
  | .aff, .type begType, .addr edge, .addr end_ => newWithParams env ctx (.aff begType edge end_)
  | .fff, .addr beg, .addr edge, .addr end_ => newWithParams env ctx (.fff beg edge end_)
  | _, _, _, _ => return none

/-- The chain of `||` over the access levels of the fixed parameters. -/
def checkReadable (env : ScEnv) (ctx : ScContext) : List ScAddr → StoreM Bool
  | [] => return true
  | a :: as => do
    match ← scStorageGetAccessLevels env ctx a with
    | (.ok, some levels) =>
      if scAccessLvlCheckRead ctx.accessLevels levels then checkReadable env ctx as
      else return false
    | _ => return false

def newIfReadable (env : ScEnv) (ctx : ScContext) (checked : List ScAddr) (type : ScIterator3Type)
    (p1 p2 p3 : ScIteratorParam) : StoreM (Option ScIterator3) := do
  if ← checkReadable env ctx checked then scIterator3New env ctx type p1 p2 p3
  else return none

def scIterator3FAANew (env : ScEnv) (ctx : ScContext) (el : ScAddr) (arcType endType : ScType) :
    StoreM (Option ScIterator3) :=
  newIfReadable env ctx [el] .faa (.addr el) (.type arcType) (.type endType)

def scIterator3AAFNew (env : ScEnv) (ctx : ScContext) (begType arcType : ScType) (el : ScAddr) :
    StoreM (Option ScIterator3) :=
  newIfReadable env ctx [el] .aaf (.type begType) (.type arcType) (.addr el)

def scIterator3FAFNew (env : ScEnv) (ctx : ScContext) (elBeg : ScAddr) (arcType : ScType)
    (elEnd : ScAddr) : StoreM (Option ScIterator3) :=
  newIfReadable env ctx [elBeg, elEnd] .faf (.addr elBeg) (.type arcType) (.addr elEnd)

def scIterator3AFANew (env : ScEnv) (ctx : ScContext) (begType : ScType) (arcAddr : ScAddr)
    (endType : ScType) : StoreM (Option ScIterator3) :=
  newIfReadable env ctx [arcAddr] .afa (.type begType) (.addr arcAddr) (.type endType)

def scIterator3FFANew (env : ScEnv) (ctx : ScContext) (begAddr edgeAddr : ScAddr)
    (endType : ScType) : StoreM (Option ScIterator3) :=
  newIfReadable env ctx [begAddr, edgeAddr] .ffa (.addr begAddr) (.addr edgeAddr) (.type endType)

/-- Here the end is checked before the edge. -/
def scIterator3AFFNew (env : ScEnv) (ctx : ScContext) (begType : ScType)
    (edgeAddr endAddr : ScAddr) : StoreM (Option ScIterator3) :=
  newIfReadable env ctx [endAddr, edgeAddr] .aff (.type begType) (.addr edgeAddr) (.addr endAddr)

def scIterator3FFFNew (env : ScEnv) (ctx : ScContext) (begAddr edgeAddr endAddr : ScAddr) :
    StoreM (Option ScIterator3) :=
  newIfReadable env ctx [begAddr, endAddr, edgeAddr] .fff (.addr begAddr) (.addr edgeAddr)
    (.addr endAddr)

/-- The call that creates an iterator of a given kind. -/
def Iterator3Params.create (env : ScEnv) (ctx : ScContext) :
    Iterator3Params → StoreM (Option ScIterator3)
  | .faa beg arcType endType => scIterator3FAANew env ctx beg arcType endType
  | .aaf begType arcType end_ => scIterator3AAFNew env ctx begType arcType end_
  | .faf beg arcType end_ => scIterator3FAFNew env ctx beg arcType end_
  | .afa begType edge endType => scIterator3AFANew env ctx begType edge endType
  | .ffa beg edge endType => scIterator3FFANew env ctx beg edge endType
  | .aff begType edge end_ => scIterator3AFFNew env ctx begType edge end_
  | .fff beg edge end_ => scIterator3FFFNew env ctx beg edge end_

def unrefElements (env : ScEnv) : List ScAddr → StoreM Unit
  | [] => return ()
  | a :: as => do
    let _ ← scStorageElementUnref env a
    unrefElements env as

/-- The arc that an iterator stands on, as long as it has not reached the end. -/
def ScIterator3.currentArc (it : ScIterator3) : Option ScAddr :=
  if it.finished = false ∧ it.result1 ≠ ScAddr.empty then some it.result1 else none

/-- The reference of the current arc is given back while its lock is held. -/
def dropCurrentArc (env : ScEnv) (a : ScAddr) : StoreM Unit := do
  if !(← scStorageElementLock env a) then throw .abort
  let _ ← scStorageElementUnref env a
  scStorageElementUnlock env a

def scIterator3Free (env : ScEnv) (it : ScIterator3) : StoreM Unit := do
  match it.currentArc with
  | some a => dropCurrentArc env a
  | none => pure ()
  unrefElements env it.params.fixed

/-- Where the loop of `next` starts: at the head of the list of the anchor, or behind the arc of
the last result. -/
def resumeArc (env : ScEnv) (dir : Dir) (anchor : ScAddr) (it : ScIterator3) : StoreM ScAddr := do
  if it.result1 = ScAddr.empty then
    if !(← scStorageElementLock env anchor) then throw .abort
    let el ← readCell anchor
    scStorageElementUnlock env anchor
    return el.first dir
  else
    if !(← scStorageElementLock env it.result1) then throw .abort
    let el ← readCell it.result1
    let _ ← scStorageElementUnref env it.result1
    scStorageElementUnlock env it.result1
    return el.arc dir.next

/-- The loop of `next` along one list. `accept` is what is done with the locked arc up to and with
the comparison; it unlocks the arc. An arc that is not accepted keeps its reference. -/
def walkArcs (env : ScEnv) (dir : Dir) (accept : ScAddr → ScElement → StoreM Bool) :
    ℕ → ScAddr → StoreM (Option (ScAddr × ScElement))
  | 0, _ => throw .diverge
  | fuel + 1, a => do
    if a = ScAddr.empty then return none
    -- `while (el == null_ptr)`
    if !(← scStorageElementLockTry env a) then throw .diverge
    scStorageElementRef env a
    let el ← readCell a
    if scElementIsRequestDeletion el then
      let _ ← scStorageElementUnref env a
      scStorageElementUnlock env a
    else if ← accept a el then return some (a, el)
    walkArcs env dir accept fuel (el.arc dir.next)

/-- The comparison of the two kinds with one fixed end: the arc, and the element at its other
end. Where `sc_storage_get_element_type` fails, `el_type` is what it was: `unset`. -/
def acceptOther (env : ScEnv) (ctx : ScContext) (dir : Dir) (arcType otherType : ScType)
    (unset : ScAddr → ScType) (a : ScAddr) (el : ScElement) : StoreM Bool := do
  let other := el.arc dir.other
  let (r, levels) ← scStorageGetAccessLevels env ctx other
  let otherAccess := if r = .ok then levels.getD 0 else scAccessLvlMakeMax
  scStorageElementUnlock env a
  let (_, type) ← scStorageGetElementType env ctx other
  let elType := type.getD (unset a)
  return scIteratorCompareType el.type arcType && scIteratorCompareType elType otherType &&
    scAccessLvlCheckRead ctx.accessLevels el.accessLevels &&
    scAccessLvlCheckRead ctx.accessLevels otherAccess

/-- The comparison of the kind with both ends fixed. -/
def acceptBetween (env : ScEnv) (ctx : ScContext) (beg : ScAddr) (arcType : ScType) (a : ScAddr)
    (el : ScElement) : StoreM Bool := do
  scStorageElementUnlock env a
  return beg = el.arc .arcBegin && scIteratorCompareType el.type arcType &&
    scAccessLvlCheckRead ctx.accessLevels el.accessLevels

/-- `unset` is what the variable `el_type` holds by chance, which this function alone does not
initialise. -/
def scIterator3FAANext (env : ScEnv) (unset : ScAddr → ScType) (it : ScIterator3) (beg : ScAddr)
    (arcType endType : ScType) : StoreM (Bool × ScIterator3) := do
  let it := { it with result0 := beg }
  let start ← resumeArc env .out beg it
  match ← walkArcs env .out (acceptOther env it.ctx .out arcType endType unset) walkFuel start with
  | some (a, el) => return (true, { it with result1 := a, result2 := el.arc .arcEnd })
  | none => return (false, { it with finished := true })

def scIterator3FAFNext (env : ScEnv) (it : ScIterator3) (beg : ScAddr) (arcType : ScType)
    (end_ : ScAddr) : StoreM (Bool × ScIterator3) := do
  let it := { it with result0 := beg, result2 := end_ }
  let start ← resumeArc env .inp end_ it
  match ← walkArcs env .inp (acceptBetween env it.ctx beg arcType) walkFuel start with
  | some (a, _) => return (true, { it with result1 := a })
  | none => return (false, { it with finished := true })

def scIterator3AAFNext (env : ScEnv) (it : ScIterator3) (begType arcType : ScType)
    (end_ : ScAddr) : StoreM (Bool × ScIterator3) := do
  let it := { it with result2 := end_ }
  let start ← resumeArc env .inp end_ it
  match ← walkArcs env .inp (acceptOther env it.ctx .inp arcType begType fun _ => 0) walkFuel
    start with
  | some (a, el) => return (true, { it with result1 := a, result0 := el.arc .arcBegin })
  | none => return (false, { it with finished := true })

/-- The cell of the fixed arc, of the kinds that have one result at most. -/
def readEdge (env : ScEnv) (edge : ScAddr) : StoreM ScElement := do
  if !(← scStorageElementLock env edge) then throw .abort
  let el ← readCell edge
  scStorageElementUnlock env edge
  return el

/-- The one result of these kinds, if the fixed ends are those of the arc. -/
def edgeResult (it : ScIterator3) (edge : ScAddr) (el : ScElement) (found : Bool) :
    Bool × ScIterator3 :=
  if found then
    (true, { it with
      result0 := el.arc .arcBegin
      result1 := edge
      result2 := el.arc .arcEnd
      finished := true })
  else (false, { it with finished := true })

def scIterator3AFANext (env : ScEnv) (it : ScIterator3) (edge : ScAddr) :
    StoreM (Bool × ScIterator3) := do
  return edgeResult it edge (← readEdge env edge) true

def scIterator3FFANext (env : ScEnv) (it : ScIterator3) (beg edge : ScAddr) :
    StoreM (Bool × ScIterator3) := do
  let el ← readEdge env edge
  return edgeResult it edge el (beg = el.arc .arcBegin)

def scIterator3AFFNext (env : ScEnv) (it : ScIterator3) (edge end_ : ScAddr) :
    StoreM (Bool × ScIterator3) := do
  let el ← readEdge env edge
  return edgeResult it edge el (end_ = el.arc .arcEnd)

def scIterator3FFFNext (env : ScEnv) (it : ScIterator3) (beg edge end_ : ScAddr) :
    StoreM (Bool × ScIterator3) := do
  let el ← readEdge env edge
  return edgeResult it edge el (beg = el.arc .arcBegin && end_ = el.arc .arcEnd)

def scIterator3Next (env : ScEnv) (unset : ScAddr → ScType) (it : ScIterator3) :
    StoreM (Bool × ScIterator3) :=
  if it.finished then return (false, it)
  else match it.params with
    | .faa beg arcType endType => scIterator3FAANext env unset it beg arcType endType
    | .faf beg arcType end_ => scIterator3FAFNext env it beg arcType end_
    | .aaf begType arcType end_ => scIterator3AAFNext env it begType arcType end_
    | .afa _ edge _ => scIterator3AFANext env it edge
    | .ffa beg edge _ => scIterator3FFANext env it beg edge
    | .aff _ edge end_ => scIterator3AFFNext env it edge end_
    | .fff beg edge end_ => scIterator3FFFNext env it beg edge end_

end ScMachine.Store
