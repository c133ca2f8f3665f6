import ScMachine.ByteFormat
import ScMachine.StoreRuns

/-! The file of segments of `sc_fs_storage.c`: a header and the element arrays, as they stand in
memory on a little-endian machine. -/
namespace ScMachine.Store
open ScMachine.ByteFormat

/-- `sizeof(sc_element)`. -/
def scElementSize : ℕ := 44

def scSegElementsSizeByte : ℕ := scElementSize*scSegmentElementsCount

/-- `sizeof(sc_fs_storage_segments_header)`. -/
def headerSize : ℕ := 80

/-- `SC_SEGMENT_MAX`. -/
def scSegmentMax : ℕ := 65535

/-- What the writer takes from outside: SHA-512, the version, the time, and the byte that pads
`sc_element_flags` in each cell. -/
structure FsEnv where
  sha512 : List ScByte → Fin 64 → ScByte
  version : BitVec 32
  realTime : BitVec 64
  padding : ℕ → ℕ → ScByte

def addrBytes (a : ScAddr) : List ScByte := leBytes 2 a.seg.toNat ++ leBytes 2 a.offset.toNat

def elementBytes (pad : ScByte) (el : ScElement) : List ScByte :=
  leBytes 2 el.type.toNat ++ (leBytes 1 el.accessLevels.toNat ++ ([pad] ++
    (addrBytes el.firstOutArc ++ (addrBytes el.firstInArc ++ List.ofFn el.data))))

def addrAt (off : ℕ) (bs : List ScByte) : ScAddr :=
  ⟨BitVec.ofNat 16 (field off 2 bs), BitVec.ofNat 16 (field (off+2) 2 bs)⟩

def elementOfBytes (bs : List ScByte) : ScElement :=
  { type := BitVec.ofNat 16 (field 0 2 bs)
    accessLevels := BitVec.ofNat 8 (field 2 1 bs)
    firstOutArc := addrAt 4 bs
    firstInArc := addrAt 8 bs
    data := fun i => bs.getD (12+i.val) 0 }

/-- The element array of a segment. -/
def segmentBytes (fs : FsEnv) (num : ℕ) (seg : ScSegment) : List ScByte :=
  records (fun o => elementBytes (fs.padding num o) (seg.elements o)) scSegmentElementsCount

def cellsOfBytes (bs : List ScByte) : ℕ → ScElement := fun o =>
  elementOfBytes (record scElementSize o bs)

structure ScFsStorageSegmentsHeader where
  version : BitVec 32
  segmentsNum : BitVec 16
  timestamp : BitVec 64
  checksum : Fin 64 → ScByte

/-- Two bytes pad the number of segments. -/
def ScFsStorageSegmentsHeader.bytes (h : ScFsStorageSegmentsHeader) : List ScByte :=
  leBytes 4 h.version.toNat ++ (leBytes 2 h.segmentsNum.toNat ++ ([0, 0] ++
    (leBytes 8 h.timestamp.toNat ++ List.ofFn h.checksum)))

def headerOfBytes (bs : List ScByte) : ScFsStorageSegmentsHeader :=
  { version := BitVec.ofNat 32 (field 0 4 bs)
    segmentsNum := BitVec.ofNat 16 (field 4 2 bs)
    timestamp := BitVec.ofNat 64 (field 8 8 bs)
    checksum := fun i => bs.getD (16+i.val) 0 }

/-- The first loop of the writer: the number of segments, and what the checksum has been updated
with. -/
def checksumSegments (fs : FsEnv) (segments : ℕ → Option ScSegment) :
    ℕ → ℕ → List ScByte → ℕ × List ScByte
  | 0, idx, checked => (idx, checked)
  | fuel + 1, idx, checked =>
    match segments idx with
    | none => (idx, checked)
    | some seg => checksumSegments fs segments fuel (idx+1) (checked ++ segmentBytes fs idx seg)

/-- The second loop of the writer, over `n` more segments. -/
def writeSegments (fs : FsEnv) (segments : ℕ → Option ScSegment) :
    ℕ → ℕ → Except ScStop (List ScByte)
  | 0, _ => .ok []
  | n + 1, idx =>
    match segments idx with
    | none => .error .abort
    | some seg => do
      let rest ← writeSegments fs segments n (idx+1)
      return segmentBytes fs idx seg ++ rest

/-- The file that replaces the one at `segments_path`; all writes succeed. -/
def scFsStorageWriteToPath (fs : FsEnv) (segments : ℕ → Option ScSegment) :
    Except ScStop (List ScByte) := do
  let (idx, checked) := checksumSegments fs segments scAddrSegMax 0 []
  let header : ScFsStorageSegmentsHeader :=
    ⟨fs.version, BitVec.ofNat 16 idx, fs.realTime, fs.sha512 checked⟩
  let payload ← writeSegments fs segments header.segmentsNum.toNat 0
  return leBytes 4 headerSize ++ (header.bytes ++ payload)

/-- The loop of the reader over `n` more segments. A segment that is cut short ends in
`g_error`. -/
def readSegments : ℕ → ℕ → List ScByte → (ℕ → Option ScSegment) → List ScByte →
    Except ScStop ((ℕ → Option ScSegment) × List ScByte)
  | 0, _, _, segments, checked => .ok (segments, checked)
  | n + 1, i, rest, segments, checked =>
    let chunk := rest.take scSegElementsSizeByte
    if chunk.length ≠ scSegElementsSizeByte then .error .abort
    else readSegments n (i+1) (rest.drop scSegElementsSizeByte)
      (Function.update segments i (some (loadedSegment i (cellsOfBytes chunk)))) (checked ++ chunk)

/-- The result, the array and `*segments_num`; no file is `none`. -/
def scFsStorageReadFromPath (sha512 : List ScByte → Fin 64 → ScByte) (file : Option (List ScByte))
    (segments : ℕ → Option ScSegment) (segmentsNum : ℕ) :
    Except ScStop (Bool × (ℕ → Option ScSegment) × ℕ) :=
  match file with
  | none => .ok (false, segments, segmentsNum)
  | some bytes =>
    if bytes.length < 4 then .ok (false, segments, segmentsNum)
    else if field 0 4 bytes ≠ headerSize then .ok (false, segments, segmentsNum)
    else
      let rest := bytes.drop 4
      if rest.length < headerSize then .ok (false, segments, segmentsNum)
      else do
        let header := headerOfBytes (rest.take headerSize)
        let (segments, checked) ←
          readSegments header.segmentsNum.toNat 0 (rest.drop headerSize) segments []
        if sha512 checked = header.checksum then
          return (true, segments, header.segmentsNum.toNat)
        else return (false, fun i => if i < scSegmentMax then none else segments i, 0)

/-- `sc_storage_shutdown` with `save_state`: the file that is left. -/
def scStorageShutdown (fs : FsEnv) (st : ScStorage) : Except ScStop (List ScByte) :=
  scFsStorageWriteToPath fs st.segments

/-- `sc_storage_initialize` without `clear`. The database is where the last process left it. -/
def scStorageInitialize (sha512 : List ScByte → Fin 64 → ScByte) (file : Option (List ScByte))
    (fm : FileMemory) : Except ScStop ScStorage := do
  let (_, segments, segmentsNum) ← scFsStorageReadFromPath sha512 file (fun _ => none) 0
  return { ScStorage.empty with segments := segments, segmentsNum := segmentsNum, fileMemory := fm }

end ScMachine.Store
