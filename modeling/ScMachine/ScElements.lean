import ScMachine.ScStorage

/-! The operations of `sc_storage.c` on single elements: creation, types, arcs, access levels,
link contents and references. -/
namespace ScMachine.Store

def scStorageIsElement (env : ScEnv) (a : ScAddr) : StoreM Bool := do
  if !(← scStorageElementLock env a) then return false
  let el ← readCell a
  scStorageElementUnlock env a
  return scElementIsValid el

/-- The common part of the three functions that create an element: `init` fills the cell. -/
def newElement (env : ScEnv) (ctx : ScContext) (init : ScElement → ScElement) : StoreM ScAddr := do
  match ← scStorageAppendElIntoSegments env ctx with
  | some a =>
    modifyCell a init
    scStorageElementUnlock env a
    return a
  | none => return ScAddr.empty

def scStorageNodeNewExt (env : ScEnv) (ctx : ScContext) (type : ScType) (levels : ScAccessLevels) :
    StoreM ScAddr := do
  scAssert (scTypeArcMask &&& type == 0)
  newElement env ctx fun el =>
    { el with type := scFlagsRemove (scTypeNode ||| type), accessLevels := levels }

def scStorageNodeNew (env : ScEnv) (ctx : ScContext) (type : ScType) : StoreM ScAddr :=
  scStorageNodeNewExt env ctx type ctx.accessLevels

def scStorageLinkNewExt (env : ScEnv) (ctx : ScContext) (levels : ScAccessLevels)
    (isConst : Bool) : StoreM ScAddr :=
  newElement env ctx fun el =>
    { el with
      type := scTypeLink ||| (if isConst then scTypeConst else scTypeVar)
      accessLevels := levels }

def scStorageLinkNew (env : ScEnv) (ctx : ScContext) (isConst : Bool) : StoreM ScAddr :=
  scStorageLinkNewExt env ctx ctx.accessLevels isConst

/-- `if (SC_ADDR_IS_NOT_EMPTY(a))`. -/
def unlessEmpty (a : ScAddr) (x : StoreM Unit) : StoreM Unit :=
  if a = ScAddr.empty then pure () else x

/-- An optional neighbour of the new arc: `none` is a failed attempt. -/
def lockFirstArc (env : ScEnv) (a : ScAddr) : StoreM (Option Unit) := do
  if a = ScAddr.empty then return some ()
  if ← scStorageElementLockTry env a then return some ()
  return none

def unlockFirstArc (env : ScEnv) (a : ScAddr) : StoreM Unit :=
  unlessEmpty a (scStorageElementUnlock env a)

/-- The new arc `a` is put at the head of the two lists; it and its neighbours are locked. -/
def linkArc (type : ScType) (beg end_ : ScAddr) (levels : ScAccessLevels)
    (begEl endEl : ScElement) (a : ScAddr) : StoreM Unit := do
  let firstOutArc := begEl.firstOutArc
  let firstInArc := endEl.firstInArc
  modifyCell a fun el =>
    { (el.setArc .arcBegin beg).setArc .arcEnd end_ with
      type := scFlagsRemove (if type &&& scTypeArcMask != 0 then type else scTypeArcCommon ||| type)
      accessLevels := levels }
  scAssert (a != firstInArc)
  emit (.emit beg begEl.accessLevels .addOutputArc a end_)
  emit (.emit end_ endEl.accessLevels .addInputArc a beg)
  scAssert ((← readCell beg).type != 0 && (← readCell end_).type != 0)
  modifyCell a fun el => (el.setArc .nextOutArc firstOutArc).setArc .nextInArc firstInArc
  scAssert (a != firstOutArc && a != firstInArc)
  unlessEmpty firstOutArc (modifyCell firstOutArc fun el => el.setArc .prevOutArc a)
  unlessEmpty firstInArc (modifyCell firstInArc fun el => el.setArc .prevInArc a)
  modifyCell beg fun el => { el with firstOutArc := a }
  modifyCell end_ fun el => { el with firstInArc := a }

/-- The body of the loop of `sc_storage_arc_new_ext`. `none` starts the loop again. -/
def arcNewAttempt (env : ScEnv) (ctx : ScContext) (type : ScType) (beg end_ : ScAddr)
    (levels : ScAccessLevels) : StoreM (Option ScAddr) := do
  if !(← scStorageElementLockTry env beg) then return none
  let begEl ← readCell beg
  if !scElementIsValid begEl then
    scStorageElementUnlock env beg
    return some ScAddr.empty
  if !(← scStorageElementLockTry env end_) then
    scStorageElementUnlock env beg
    return none
  let endEl ← readCell end_
  if !scElementIsValid endEl then
    scStorageElementUnlock env beg
    scStorageElementUnlock env end_
    return some ScAddr.empty
  match ← lockFirstArc env begEl.firstOutArc with
  | none =>
    scStorageElementUnlock env beg
    scStorageElementUnlock env end_
    return none
  | some () =>
  match ← lockFirstArc env endEl.firstInArc with
  | none =>
    unlockFirstArc env begEl.firstOutArc
    scStorageElementUnlock env beg
    scStorageElementUnlock env end_
    return none
  | some () =>
  match ← scStorageAppendElIntoSegments env ctx with
  | none => throw .abort
  | some a =>
    linkArc type beg end_ levels begEl endEl a
    unlockFirstArc env begEl.firstOutArc
    scStorageElementUnlock env beg
    unlockFirstArc env endEl.firstInArc
    scStorageElementUnlock env end_
    scStorageElementUnlock env a
    return some a

/-- A failed attempt leaves the store as it was, so the loop is never left after one. -/
def scStorageArcNewExt (env : ScEnv) (ctx : ScContext) (type : ScType) (beg end_ : ScAddr)
    (levels : ScAccessLevels) : StoreM ScAddr := do
  scAssert (scTypeNode &&& type == 0)
  if beg = ScAddr.empty ∨ end_ = ScAddr.empty then return ScAddr.empty
  match ← arcNewAttempt env ctx type beg end_ levels with
  | some a => return a
  | none => throw .diverge

def scStorageArcNew (env : ScEnv) (ctx : ScContext) (type : ScType) (beg end_ : ScAddr) :
    StoreM ScAddr :=
  scStorageArcNewExt env ctx type beg end_ ctx.accessLevels

/-- The operations that read one valid element under its lock. -/
def readElement {α : Type} (env : ScEnv) (a : ScAddr)
    (body : ScElement → ScResult × Option α) : StoreM (ScResult × Option α) := do
  if !(← scStorageElementLock env a) then return (.error, none)
  let el ← readCell a
  scStorageElementUnlock env a
  return if scElementIsValid el then body el else (.errorInvalidState, none)

def scStorageGetElementType (env : ScEnv) (ctx : ScContext) (a : ScAddr) :
    StoreM (ScResult × Option ScType) :=
  readElement env a fun el =>
    if scAccessLvlCheckRead ctx.accessLevels el.accessLevels then (.ok, some (scFlagsRemove el.type))
    else (.errorNoReadRights, none)

/-- The return for another class of element skips the unlock. -/
def scStorageChangeElementSubtype (env : ScEnv) (ctx : ScContext) (a : ScAddr) (type : ScType) :
    StoreM ScResult := do
  if !(← scStorageElementLock env a) then return .error
  let el ← readCell a
  if !scElementIsValid el then
    scStorageElementUnlock env a
    return .errorInvalidState
  if el.type &&& scTypeElementMask ≠ type &&& scTypeElementMask then
    return .errorInvalidParams
  if scAccessLvlCheckWrite ctx.accessLevels el.accessLevels then
    modifyCell a fun el => { el with type := type }
    scStorageElementUnlock env a
    return .ok
  else
    scStorageElementUnlock env a
    return .errorNoWriteRights

/-- The three functions that read the endpoints of an arc. -/
def readArc {α : Type} (env : ScEnv) (ctx : ScContext) (a : ScAddr) (result : ScElement → α) :
    StoreM (ScResult × Option α) :=
  readElement env a fun el =>
    if scAccessLvlCheckRead ctx.accessLevels el.accessLevels then
      if el.isArc then (.ok, some (result el)) else (.errorInvalidType, none)
    else (.errorNoReadRights, none)

def scStorageGetArcBegin (env : ScEnv) (ctx : ScContext) (a : ScAddr) :
    StoreM (ScResult × Option ScAddr) :=
  readArc env ctx a fun el => el.arc .arcBegin

def scStorageGetArcEnd (env : ScEnv) (ctx : ScContext) (a : ScAddr) :
    StoreM (ScResult × Option ScAddr) :=
  readArc env ctx a fun el => el.arc .arcEnd

def scStorageGetArcInfo (env : ScEnv) (ctx : ScContext) (a : ScAddr) :
    StoreM (ScResult × Option (ScAddr × ScAddr)) :=
  readArc env ctx a fun el => (el.arc .arcBegin, el.arc .arcEnd)

/-- A stream that is read from its start. Its length is an `sc_uint32`. -/
structure ScStream where
  bytes : List ScByte
  readable : Bool
  length_lt : bytes.length < 4294967296

/-- An empty stream is at its end before anything is read. -/
def scLinkCalculateChecksum (env : ScEnv) (stream : ScStream) : Option (Fin 32 → ScByte) :=
  if stream.bytes = [] ∨ stream.readable then some (env.checksum stream.bytes) else none

/-- The bytes that the length byte of a cell spans, past the cell if it is over 31. -/
def selfContainerBytes (env : ScEnv) (data : Fin 32 → ScByte) : List ScByte :=
  (List.range (data 0).toNat).map fun i =>
    if h : i+1 < 32 then data ⟨i+1, h⟩ else env.pastCell (i+1-32)

/-- The checksum under which the content of a link is indexed. -/
def contentChecksum (env : ScEnv) (el : ScElement) : Fin 32 → ScByte :=
  if el.type &&& scFlagLinkSelfContainer != 0 then env.checksum (selfContainerBytes env el.data)
  else el.data

def scFmAddrRefAppend (a : ScAddr) (sum : Fin 32 → ScByte) (fm : FileMemory) : FileMemory :=
  { fm with addrs := Function.update fm.addrs sum (some ((fm.addrs sum).getD [] ++ [a])) }

def scFmAddrRefRemove (a : ScAddr) (sum : Fin 32 → ScByte) (fm : FileMemory) : FileMemory :=
  match fm.addrs sum with
  | none => fm
  | some addrs =>
    if addrs.erase a = [] then
      { addrs := Function.update fm.addrs sum none, content := Function.update fm.content sum none }
    else { fm with addrs := Function.update fm.addrs sum (some (addrs.erase a)) }

def scFmWriteStream (sum : Fin 32 → ScByte) (bytes : List ScByte) (fm : FileMemory) : FileMemory :=
  { fm with content := Function.update fm.content sum (some bytes) }

def modifyFm (f : FileMemory → FileMemory) : StoreM Unit :=
  modify fun st => { st with fileMemory := f st.fileMemory }

/-- The length byte and the bytes of a short content; what follows them in the cell stays. -/
def inlineContent (data : Fin 32 → ScByte) (bytes : List ScByte) : Fin 32 → ScByte := fun i =>
  if i.val = 0 then BitVec.ofNat 8 bytes.length
  else if i.val ≤ bytes.length then bytes.getD (i.val-1) 0 else data i

/-- The address is taken off the index entry of the content that the link has. -/
def removeContentAddr (env : ScEnv) (a : ScAddr) (el : ScElement) : StoreM Unit :=
  if scElementIsChecksumEmpty el then pure ()
  else modifyFm (scFmAddrRefRemove a (contentChecksum env el))

/-- A content of at least 32 bytes goes to the database, a shorter one into the cell. -/
def storeContent (a : ScAddr) (sum : Fin 32 → ScByte) (bytes : List ScByte) : StoreM Unit :=
  if scChecksumLen ≤ bytes.length then do
    modifyFm fun fm => scFmAddrRefAppend a sum (scFmWriteStream sum bytes fm)
    modifyCell a fun el => { el with type := el.type &&& ~~~scFlagLinkSelfContainer, data := sum }
  else do
    modifyCell a fun el =>
      { el with
        type := el.type ||| scFlagLinkSelfContainer
        data := inlineContent el.data bytes }
    modifyFm (scFmAddrRefAppend a sum)

/-- `sc_storage_set_link_content` between the lock and the unlock. -/
def setLockedLinkContent (env : ScEnv) (ctx : ScContext) (a : ScAddr) (stream : ScStream) :
    StoreM ScResult := do
  let el ← readCell a
  if !scElementIsValid el then return .errorInvalidState
  if !scAccessLvlCheckWrite ctx.accessLevels el.accessLevels then return .errorNoWriteRights
  if !el.isLink then return .errorInvalidType
  removeContentAddr env a el
  match scLinkCalculateChecksum env stream with
  | none => throw .abort
  | some sum =>
    storeContent a sum stream.bytes
    emit (.emit a el.accessLevels .contentChanged ScAddr.empty ScAddr.empty)
    return .ok

def scStorageSetLinkContent (env : ScEnv) (ctx : ScContext) (a : ScAddr) (stream : ScStream) :
    StoreM ScResult := do
  if !(← scStorageElementLock env a) then return .error
  let r ← setLockedLinkContent env ctx a stream
  scStorageElementUnlock env a
  return r

/-- `sc_storage_get_link_content` between the lock and the unlock. With a content in the database
`sc_fs_storage_get_checksum_content` returns `SC_RESULT_OK` also with a null stream. -/
def getLockedLinkContent (env : ScEnv) (ctx : ScContext) (a : ScAddr) :
    StoreM (ScResult × Option (List ScByte)) := do
  let el ← readCell a
  if !scElementIsValid el then return (.errorInvalidState, none)
  if !scAccessLvlCheckRead ctx.accessLevels el.accessLevels then return (.errorNoReadRights, none)
  if !el.isLink then return (.errorInvalidType, none)
  if el.type &&& scFlagLinkSelfContainer != 0 then
    if el.data 0 = 0 then return (.ok, none)
    scAssert ((el.data 0).toNat < scChecksumLen)
    return (.ok, some (selfContainerBytes env el.data))
  else return (.ok, (← get).fileMemory.content el.data)

def scStorageGetLinkContent (env : ScEnv) (ctx : ScContext) (a : ScAddr) :
    StoreM (ScResult × Option (List ScByte)) := do
  if !(← scStorageElementLock env a) then return (.error, none)
  let r ← getLockedLinkContent env ctx a
  scStorageElementUnlock env a
  return r

/-- The links that `ctx` may read, up to the first that cannot be locked, and whether there is
none such. -/
def readableLinks (env : ScEnv) (ctx : ScContext) : List ScAddr → StoreM (Bool × List ScAddr)
  | [] => return (true, [])
  | a :: as => do
    if !(← scStorageElementLock env a) then return (false, [])
    let el ← readCell a
    scStorageElementUnlock env a
    let (all, passed) ← readableLinks env ctx as
    return (all,
      if scAccessLvlCheckRead ctx.accessLevels el.accessLevels then a :: passed else passed)

/-- The result, the addresses in `*result` and `*result_count`, which is not reset when the
search fails. -/
def scStorageFindLinksWithContent (env : ScEnv) (ctx : ScContext) (stream : ScStream) :
    StoreM (ScResult × List ScAddr × ℕ) := do
  match scLinkCalculateChecksum env stream with
  | none => return (.error, [], 0)
  | some sum =>
    match (← get).fileMemory.addrs sum with
    | none => return (.errorIo, [], 0)
    | some addrs =>
      if addrs = [] then return (.ok, [], 0)
      let (all, passed) ← readableLinks env ctx addrs
      if !all then return (.error, [], passed.length)
      if passed = [] then return (.errorNotFound, [], 0)
      return (.ok, passed, passed.length)

def scStorageSetAccessLevels (env : ScEnv) (ctx : ScContext) (a : ScAddr)
    (levels : ScAccessLevels) : StoreM (ScResult × Option ScAccessLevels) := do
  if !(← scStorageElementLock env a) then return (.error, none)
  let el ← readCell a
  if scAccessLvlCheckWrite ctx.accessLevels el.accessLevels then
    modifyCell a fun el => { el with accessLevels := scAccessLvlMin ctx.accessLevels levels }
    scStorageElementUnlock env a
    return (.ok, some (scAccessLvlMin ctx.accessLevels levels))
  else
    scStorageElementUnlock env a
    return (.errorNoWriteRights, none)

def scStorageGetAccessLevels (env : ScEnv) (ctx : ScContext) (a : ScAddr) :
    StoreM (ScResult × Option ScAccessLevels) := do
  if !(← scStorageElementLock env a) then return (.error, none)
  let el ← readCell a
  scStorageElementUnlock env a
  if scAccessLvlCheckRead ctx.accessLevels el.accessLevels then return (.ok, some el.accessLevels)
  else return (.errorNoReadRights, none)

def ScStorage.refCount (st : ScStorage) (a : ScAddr) : ℤ :=
  match st.segments a.seg.toNat with
  | some seg => seg.refCount a.offset.toNat
  | none => 0

def ScStorage.setRefCount (st : ScStorage) (a : ScAddr) (n : ℤ) : ScStorage :=
  match st.segments a.seg.toNat with
  | some seg =>
    st.setSegment a.seg.toNat { seg with refCount := Function.update seg.refCount a.offset.toNat n }
  | none => st

/-- `sc_storage_get_element_meta` and the assertions of `sc_segment_get_meta`. -/
def scStorageMetaOk (env : ScEnv) (a : ScAddr) (st : ScStorage) : Bool :=
  match st.segmentOf a with
  | none => false
  | some seg => scSegmentMetaOk env.thread seg a.offset.toNat

/-- `_sc_storage_ref_common`; a `g_critical` message is fatal. -/
def scStorageRefCommon (env : ScEnv) (a : ScAddr) (dir : ℤ) : StoreM Bool := do
  scAssert (a != ScAddr.empty)
  if !(← scStorageElementLock env a) then throw .abort
  scAssert (scStorageMetaOk env a (← get))
  let count := (← get).refCount a
  scAssert (0 < count)
  scAssert (count+dir < 4294967295)
  modify fun st => st.setRefCount a (count+dir)
  scStorageElementUnlock env a
  return count+dir = 0

def scStorageElementRef (env : ScEnv) (a : ScAddr) : StoreM Unit := do
  let _ ← scStorageRefCommon env a 1

def scStorageEraseElementFromSegment (a : ScAddr) : StoreM Unit := fun st =>
  match st.segments a.seg.toNat with
  | none => .error .abort
  | some seg => do
    let seg' ← scSegmentEraseElement seg a.offset.toNat
    .ok ((), st.setSegment a.seg.toNat seg')

/-- A cell without references becomes free, and its segment is cached again. -/
def eraseUnreferenced (env : ScEnv) (a : ScAddr) : StoreM Unit := do
  if !(← scStorageElementLock env a) then throw .abort
  scStorageEraseElementFromSegment a
  modify (scSegmentCacheAppend env a.seg.toNat)
  scStorageElementUnlock env a

def scStorageElementUnref (env : ScEnv) (a : ScAddr) : StoreM Bool := do
  if ← scStorageRefCommon env a (-1) then
    eraseUnreferenced env a
    return true
  else return false

end ScMachine.Store
