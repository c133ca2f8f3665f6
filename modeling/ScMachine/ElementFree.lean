import ScMachine.ScElements

/-! `sc_storage_element_free`: the elements to remove are collected and locked, then erased in the
order of a hash table, then everything is unlocked. -/
namespace ScMachine.Store

/-- The order in which a hash table with the given keys is iterated. -/
structure HashOrder where
  list : List ScAddr → List ScAddr
  perm : ∀ l, (list l).Perm l

/-- The keys of the two tables, and `remove_list`. -/
structure FreeTables where
  removeTable : List ScAddr
  lockTable : List ScAddr
  removeList : List ScAddr

/-- More steps than there are addresses: a walk that takes as many is in a cycle. -/
def walkFuel : ℕ := 4294967297

/-- `begin` and `end` of an arc. A failed lock stores a null pointer in the table, which every
lookup takes for a missing entry. -/
def lockEndpoint (env : ScEnv) (a : ScAddr) (lockTable : List ScAddr) : StoreM (List ScAddr) := do
  if a ∈ lockTable then return lockTable
  if ← scStorageElementLock env a then return lockTable ++ [a]
  return lockTable

/-- A neighbour in one of the lists of an arc. -/
def lockNeighbour (env : ScEnv) (a : ScAddr) (lockTable : List ScAddr) : StoreM (List ScAddr) := do
  if a = ScAddr.empty ∨ a ∈ lockTable then return lockTable
  if ← scStorageElementLock env a then return lockTable ++ [a]
  throw .abort

/-- The endpoints and neighbours of an arc. -/
def lockAround (env : ScEnv) (el : ScElement) (lockTable : List ScAddr) :
    StoreM (List ScAddr) := do
  if !el.isArc then return lockTable
  let lockTable ← lockEndpoint env (el.arc .arcBegin) lockTable
  let lockTable ← lockEndpoint env (el.arc .arcEnd) lockTable
  let lockTable ← lockNeighbour env (el.arc .prevOutArc) lockTable
  let lockTable ← lockNeighbour env (el.arc .prevInArc) lockTable
  let lockTable ← lockNeighbour env (el.arc .nextOutArc) lockTable
  lockNeighbour env (el.arc .nextInArc) lockTable

/-- One arc of the list of a removed element. -/
def collectArc (env : ScEnv) (a : ScAddr) (t : FreeTables) : StoreM FreeTables := do
  if a ∈ t.removeTable then return t
  if a ∈ t.lockTable then
    return { t with removeTable := t.removeTable ++ [a], removeList := t.removeList ++ [a] }
  if ← scStorageElementLock env a then
    return ⟨t.removeTable ++ [a], t.lockTable ++ [a], t.removeList ++ [a]⟩
  throw .abort

/-- `while (SC_ADDR_IS_NOT_EMPTY(_addr))`. -/
def collectArcs (env : ScEnv) (next : ArcField) : ℕ → ScAddr → FreeTables → StoreM FreeTables
  | 0, _, _ => throw .diverge
  | fuel + 1, a, t => do
    if a = ScAddr.empty then return t
    let t' ← collectArc env a t
    collectArcs env next fuel ((← readCell a).arc next) t'

/-- The element at the head of `remove_list`, once it is locked. -/
def collectElement (env : ScEnv) (a : ScAddr) (t : FreeTables) : StoreM FreeTables := do
  let el ← readCell a
  let lockTable ← lockAround env el t.lockTable
  let t ← collectArcs env .nextOutArc walkFuel el.firstOutArc { t with lockTable := lockTable }
  collectArcs env .nextInArc walkFuel el.firstInArc t

/-- The head `a` of `remove_list` is taken off it; it is locked already since it was put there. -/
def takeFromList (env : ScEnv) (a : ScAddr) (rest : List ScAddr) (t : FreeTables) :
    StoreM FreeTables := do
  if a ∈ t.lockTable then return { t with removeList := rest }
  if !(← scStorageElementLock env a) then throw .abort
  scAssert ((← readCell a).type != 0)
  return ⟨if a ∈ t.removeTable then t.removeTable else t.removeTable ++ [a],
    t.lockTable ++ [a], rest⟩

/-- `while (remove_list != 0)`. The rights are checked on `el`, the element of the round before. -/
def collectLoop (env : ScEnv) (ctx : ScContext) :
    ℕ → ScAddr → FreeTables → StoreM (ScResult × FreeTables)
  | 0, _, _ => throw .diverge
  | fuel + 1, el, t =>
    match t.removeList with
    | [] => return (.ok, t)
    | a :: rest => do
      if !scAccessLvlCheckWrite ctx.accessLevels (← readCell el).accessLevels then
        return (.errorNoWriteRights, t)
      let t ← takeFromList env a rest t
      let t ← collectElement env a t
      collectLoop env ctx fuel a t

/-- The two lists that an arc is in. -/
inductive Dir where
  | out
  | inp
  deriving DecidableEq, Repr

def Dir.owner : Dir → ArcField
  | .out => .arcBegin
  | .inp => .arcEnd

def Dir.other : Dir → ArcField
  | .out => .arcEnd
  | .inp => .arcBegin

def Dir.next : Dir → ArcField
  | .out => .nextOutArc
  | .inp => .nextInArc

def Dir.prev : Dir → ArcField
  | .out => .prevOutArc
  | .inp => .prevInArc

def Dir.removeEvent : Dir → ScEventType
  | .out => .removeOutputArc
  | .inp => .removeInputArc

def ScElement.first (el : ScElement) : Dir → ScAddr
  | .out => el.firstOutArc
  | .inp => el.firstInArc

def ScElement.setFirst (el : ScElement) (a : ScAddr) : Dir → ScElement
  | .out => { el with firstOutArc := a }
  | .inp => { el with firstInArc := a }

/-- A neighbour in the list gets `target` in one of its fields. -/
def relink (lockTable : List ScAddr) (a : ScAddr) (field : ArcField) (target : ScAddr) :
    StoreM Unit :=
  unlessEmpty a do
    scAssert (a ∈ lockTable)
    modifyCell a fun el => el.setArc field target

/-- The owner of a list is locked for a moment if it is not in `lock_table`. -/
def lockOwner (env : ScEnv) (lockTable : List ScAddr) (owner : ScAddr) : StoreM Unit := do
  if owner ∈ lockTable then return ()
  if !(← scStorageElementLock env owner) then throw .abort
  return ()

def unlockOwner (env : ScEnv) (lockTable : List ScAddr) (owner : ScAddr) : StoreM Unit :=
  if owner ∈ lockTable then pure () else scStorageElementUnlock env owner

/-- The arc is taken out of the list of its begin (its end). -/
def unlinkArc (env : ScEnv) (lockTable : List ScAddr) (dir : Dir) (a : ScAddr) : StoreM Unit := do
  let el ← readCell a
  let prevArc := el.arc dir.prev
  let nextArc := el.arc dir.next
  let owner := el.arc dir.owner
  relink lockTable prevArc dir.next nextArc
  relink lockTable nextArc dir.prev prevArc
  lockOwner env lockTable owner
  modifyCell owner fun b => if b.first dir = a then b.setFirst nextArc dir else b
  emit (.emit owner (← readCell owner).accessLevels dir.removeEvent a (el.arc dir.other))
  unlockOwner env lockTable owner

/-- What is done for the class of the element. -/
def detachElement (env : ScEnv) (lockTable : List ScAddr) (a : ScAddr) (el : ScElement) :
    StoreM Unit :=
  if el.isLink then removeContentAddr env a el
  else if el.isArc then do
    unlinkArc env lockTable .out a
    unlinkArc env lockTable .inp a
  else pure ()

/-- The body of the loop over `remove_table`. -/
def eraseElement (env : ScEnv) (lockTable : List ScAddr) (a : ScAddr) : StoreM Unit := do
  let el ← readCell a
  if scElementIsRequestDeletion el then return ()
  detachElement env lockTable a el
  modifyCell a fun el => { el with type := el.type ||| scFlagRequestDeletion }
  let _ ← scStorageElementUnref env a
  emit (.emit a el.accessLevels .removeElement ScAddr.empty ScAddr.empty)
  emit (.elementDeleted a)

def eraseElements (env : ScEnv) (lockTable : List ScAddr) : List ScAddr → StoreM Unit
  | [] => return ()
  | a :: as => do
    eraseElement env lockTable a
    eraseElements env lockTable as

def unlockElements (env : ScEnv) : List ScAddr → StoreM Unit
  | [] => return ()
  | a :: as => do
    scStorageElementUnlock env a
    unlockElements env as

def scStorageElementFree (env : ScEnv) (ctx : ScContext) (order : HashOrder) (a : ScAddr) :
    StoreM ScResult := do
  if !(← scStorageElementLock env a) then return .error
  if !scElementIsValid (← readCell a) then
    scStorageElementUnlock env a
    return .error
  match ← collectLoop env ctx walkFuel a ⟨[a], [a], [a]⟩ with
  | (.ok, t) =>
    eraseElements env t.lockTable (order.list t.removeTable)
    unlockElements env (order.list t.lockTable)
    return .ok
  | (r, t) =>
    unlockElements env (order.list t.lockTable)
    return r

end ScMachine.Store
