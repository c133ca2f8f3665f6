import ScMachine.ScSegment
import ScMachine.StateExcept

/-! The state of the store, its element locks, the cache of segments with empty cells and the
allocation of a cell (`sc_storage.c`, `sc_fm_engine.cpp`). -/
namespace ScMachine.Store
open ScMachine.StateExcept

/-- What an operation uses besides the store: the calling thread, the configured limit, the text
of the SHA-256 checksum and the bytes that follow a cell in memory. -/
structure ScEnv where
  thread : ℕ
  thread_ne : thread ≠ 0
  maxLoadedSegments : ℤ
  checksum : List ScByte → Fin 32 → ScByte
  pastCell : ℕ → ScByte

structure ScContext where
  id : ℕ
  accessLevels : ScAccessLevels

/-- The key-value database behind `sc_fm_engine.cpp`: one value under `<checksum>_addrs` and one
under `<checksum>_content`. -/
structure FileMemory where
  addrs : (Fin 32 → ScByte) → Option (List ScAddr)
  content : (Fin 32 → ScByte) → Option (List ScByte)

inductive ScEventType where
  | addOutputArc
  | addInputArc
  | removeOutputArc
  | removeInputArc
  | removeElement
  | contentChanged
  deriving DecidableEq, Repr

/-- A call of `sc_event_emit` or of `sc_event_notify_element_deleted`. -/
inductive ScEventCall where
  | emit (element : ScAddr) (access : ScAccessLevels) (type : ScEventType) (edge other : ScAddr)
  | elementDeleted (element : ScAddr)
  deriving DecidableEq

/-- `segmentsCache` holds the number of the segment that the source's pointer is to. -/
structure ScStorage where
  segments : ℕ → Option ScSegment
  segmentsNum : ℕ
  segmentsCache : ℕ → Option ℕ
  segmentsCacheCount : ℤ
  fileMemory : FileMemory
  emitted : List ScEventCall

/-- After `sc_storage_initialize` with `clear`. -/
def ScStorage.empty : ScStorage := ⟨fun _ => none, 0, fun _ => none, 0, ⟨fun _ => none, fun _ => none⟩, []⟩

abbrev StoreM := StateT ScStorage (Except ScStop)

def ScStorage.setSegment (st : ScStorage) (n : ℕ) (seg : ScSegment) : ScStorage :=
  { st with segments := Function.update st.segments n (some seg) }

/-- The cell that an element pointer refers to; a null pointer has none. -/
def ScStorage.cell (st : ScStorage) (a : ScAddr) : ScElement :=
  match st.segments a.seg.toNat with
  | some seg => seg.elements a.offset.toNat
  | none => ScElement.zero

def ScStorage.setCell (st : ScStorage) (a : ScAddr) (el : ScElement) : ScStorage :=
  match st.segments a.seg.toNat with
  | some seg =>
    st.setSegment a.seg.toNat
      { seg with elements := Function.update seg.elements a.offset.toNat el }
  | none => st

def readCell (a : ScAddr) : StoreM ScElement := do
  return (← get).cell a

def modifyCell (a : ScAddr) (f : ScElement → ScElement) : StoreM Unit :=
  modify fun st => st.setCell a (f (st.cell a))

def emit (call : ScEventCall) : StoreM Unit :=
  modify fun st => { st with emitted := st.emitted ++ [call] }

/-- `g_assert`. -/
def scAssert (c : Bool) : StoreM Unit :=
  if c then pure () else throw .abort

/-- The segment of an address, unless `sc_storage_element_lock` returns `SC_RESULT_ERROR`. -/
def ScStorage.segmentOf (st : ScStorage) (a : ScAddr) : Option ScSegment :=
  if scAddrSegMax ≤ a.seg.toNat then none else st.segments a.seg.toNat

/-- `true` is `SC_RESULT_OK` with the element in `*el`, `false` is `SC_RESULT_ERROR` with null. -/
def scStorageElementLock (env : ScEnv) (a : ScAddr) : StoreM Bool := fun st =>
  match st.segmentOf a with
  | none => .ok (false, st)
  | some seg => do
    let seg' ← scSegmentLockElement env.thread seg a.offset.toNat
    .ok (true, st.setSegment a.seg.toNat seg')

/-- `true` is a non-null `*el`. -/
def scStorageElementLockTry (env : ScEnv) (a : ScAddr) : StoreM Bool := fun st =>
  match st.segmentOf a with
  | none => .ok (false, st)
  | some seg => do
    let r ← scSegmentLockElementTry env.thread seg a.offset.toNat
    .ok (r.1, st.setSegment a.seg.toNat r.2)

def scStorageElementUnlock (env : ScEnv) (a : ScAddr) : StoreM Unit := fun st =>
  match st.segmentOf a with
  | none => .ok ((), st)
  | some seg => do
    let seg' ← scSegmentUnlockElement env.thread seg a.offset.toNat
    .ok ((), st.setSegment a.seg.toNat seg')

/-- The first slot from `start` on, around the cache, whose entry is `entry`. -/
def ScStorage.cacheSlot (st : ScStorage) (start : ℕ) (entry : Option ℕ) : Option ℕ :=
  ((List.range scSegmentCacheSize).map fun i => (start+i)%scSegmentCacheSize).find?
    fun k => st.segmentsCache k = entry

def scSegmentCacheAppend (env : ScEnv) (n : ℕ) (st : ScStorage) : ScStorage :=
  match st.cacheSlot (env.thread%scSegmentCacheSize) none with
  | some k =>
    { st with
      segmentsCache := Function.update st.segmentsCache k (some n)
      segmentsCacheCount := st.segmentsCacheCount+1 }
  | none => st

def scSegmentCacheRemove (ctx : ScContext) (n : ℕ) (st : ScStorage) : ScStorage :=
  match st.cacheSlot (ctx.id%scSegmentCacheSize) (some n) with
  | some k =>
    { st with
      segmentsCache := Function.update st.segmentsCache k none
      segmentsCacheCount := st.segmentsCacheCount-1 }
  | none => st

/-- The loop of `_sc_segment_cache_update` over the segment numbers still to visit. -/
def cacheUpdateLoop (env : ScEnv) : List ℕ → ScStorage → ScStorage
  | [], st => st
  | i :: is, st =>
    let st' :=
      match st.segments i with
      | some seg => if scSegmentHasEmptySlot seg then scSegmentCacheAppend env i st else st
      | none => st
    if st'.segmentsCacheCount = (scSegmentCacheSize : ℤ) then st' else cacheUpdateLoop env is st'

def scSegmentCacheUpdate (env : ScEnv) (st : ScStorage) : ScStorage :=
  cacheUpdateLoop env (List.range st.segmentsNum) st

/-- The cached segment that context `ctx` finds first. -/
def ScStorage.cachedSegment (st : ScStorage) (ctx : ScContext) : Option ℕ :=
  if 0 < st.segmentsCacheCount then
    ((List.range scSegmentCacheSize).map
      fun i => (ctx.id%scSegmentCacheSize+i)%scSegmentCacheSize).findSome? st.segmentsCache
  else none

/-- After the refill of the cache a new segment is made in any case. Past the end of the array
`segments` the store is corrupted. -/
def scSegmentCacheGet (env : ScEnv) (ctx : ScContext) : StoreM ℕ := do
  match (← get).cachedSegment ctx with
  | some n => return n
  | none =>
    modify (scSegmentCacheUpdate env)
    let segNum := (← get).segmentsNum
    scAssert (segNum < scAddrSegMax)
    modify fun st => { st.setSegment segNum (scSegmentNew segNum) with segmentsNum := segNum+1 }
    modify (scSegmentCacheAppend env segNum)
    return segNum

/-- The cell at `offset` of `seg`, just handed out, gets the lower of the access levels and its
first reference. -/
def ScSegment.prepareCell (seg : ScSegment) (ctx : ScContext) (offset : ℕ) : ScSegment :=
  let el := seg.elements offset
  { seg with
    elements := Function.update seg.elements offset
      { el with accessLevels := scAccessLvlMin ctx.accessLevels el.accessLevels }
    refCount := Function.update seg.refCount offset 1 }

/-- The loop of `sc_storage_append_el_into_segments`. Every attempt that fails takes one entry
out of the cache, so the fuel lasts: see `appendEl_not_diverge`. -/
def appendElLoop (env : ScEnv) (ctx : ScContext) : ℕ → StoreM (Option ScAddr)
  | 0 => throw .diverge
  | fuel + 1 => do
    let n ← scSegmentCacheGet env ctx
    match (← get).segments n with
    | none => throw .abort
    | some seg =>
      match scSegmentLockEmptyElement env.thread ctx.id seg with
      | .error e => throw e
      | .ok (some offset, seg') =>
        scAssert (scSegmentMetaOk env.thread seg' offset)
        modify fun st => st.setSegment n (seg'.prepareCell ctx offset)
        return some ⟨BitVec.ofNat 16 seg'.num, BitVec.ofNat 16 offset⟩
      | .ok (none, seg') =>
        modify fun st => scSegmentCacheRemove ctx n (st.setSegment n seg')
        appendElLoop env ctx fuel

/-- The address of a cell whose section is left locked, or `none` for the null pointer. -/
def scStorageAppendElIntoSegments (env : ScEnv) (ctx : ScContext) : StoreM (Option ScAddr) := do
  if env.maxLoadedSegments ≤ (← get).segmentsNum then return none
  else appendElLoop env ctx (scSegmentCacheSize+2)

end ScMachine.Store
