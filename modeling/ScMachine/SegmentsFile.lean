import ScMachine.ScFsStorage

/-! Saving and loading: the file of segments is read back as it was written, damaged segments are
rejected, and what a restart makes of the store. -/
namespace ScMachine.Store
open ScMachine.ByteFormat

section
variable {fs : FsEnv} {segments : ℕ → Option ScSegment}

@[simp] theorem length_addrBytes (a : ScAddr) : (addrBytes a).length = 4 := by
  simp [addrBytes]

@[simp] theorem length_elementBytes (pad : ScByte) (el : ScElement) :
    (elementBytes pad el).length = scElementSize := by
  simp [elementBytes, scElementSize]

@[simp] theorem length_headerBytes (h : ScFsStorageSegmentsHeader) : h.bytes.length = headerSize := by
  simp [ScFsStorageSegmentsHeader.bytes, headerSize]

theorem length_segmentBytes (num : ℕ) (seg : ScSegment) :
    (segmentBytes fs num seg).length = scSegElementsSizeByte :=
  length_records (fun _ => length_elementBytes _ _) _

/-- A field of a list whose first part has a given length. -/
theorem field_after {l r : List ScByte} {m : ℕ} (hl : l.length = m) (off n : ℕ) :
    field (m+off) n (l ++ r) = field off n r := by
  rw [← hl]
  exact field_append l r off n

theorem getD_after {l r : List ScByte} {m : ℕ} (hl : l.length = m) (i : ℕ) :
    (l ++ r).getD (m+i) 0 = r.getD i 0 := by
  rw [← hl, List.getD_append_right _ _ _ _ (by omega)]
  congr 1
  omega

theorem getD_ofFn {n : ℕ} (f : Fin n → ScByte) (i : Fin n) : (List.ofFn f).getD i.val 0 = f i := by
  rw [List.getD_eq_getElem _ _ (by simp), List.getElem_ofFn]

theorem addrAt_addrBytes (a : ScAddr) (r : List ScByte) : addrAt 0 (addrBytes a ++ r) = a := by
  have hs : a.seg.toNat < 256^2 := a.seg.isLt
  have ho : a.offset.toNat < 256^2 := a.offset.isLt
  unfold addrAt addrBytes
  rw [List.append_assoc, field_leBytes 2 _ _ hs, Nat.zero_add,
    show field 2 2 (leBytes 2 a.seg.toNat ++ (leBytes 2 a.offset.toNat ++ r)) = a.offset.toNat from
      (field_after (length_leBytes 2 _) 0 2).trans (field_leBytes 2 _ _ ho)]
  simp

theorem addrAt_after {l r : List ScByte} {m : ℕ} (hl : l.length = m) (off : ℕ) :
    addrAt (m+off) (l ++ r) = addrAt off r := by
  unfold addrAt
  rw [field_after hl, Nat.add_assoc, field_after hl]

/-- An element is read back from its bytes, whatever the padding is. -/
theorem elementOfBytes_elementBytes (pad : ScByte) (el : ScElement) :
    elementOfBytes (elementBytes pad el) = el := by
  have ht : el.type.toNat < 256^2 := el.type.isLt
  have ha : el.accessLevels.toNat < 256^1 := el.accessLevels.isLt
  have h1 : field 0 2 (elementBytes pad el) = el.type.toNat := field_leBytes 2 _ _ ht
  have h2 : field 2 1 (elementBytes pad el) = el.accessLevels.toNat :=
    (field_after (length_leBytes 2 _) 0 1).trans (field_leBytes 1 _ _ ha)
  have h3 : addrAt 4 (elementBytes pad el) = el.firstOutArc :=
    (addrAt_after (length_leBytes 2 _) 2).trans ((addrAt_after (length_leBytes 1 _) 1).trans
      ((addrAt_after (l := [pad]) rfl 0).trans (addrAt_addrBytes _ _)))
  have h4 : addrAt 8 (elementBytes pad el) = el.firstInArc :=
    (addrAt_after (length_leBytes 2 _) 6).trans ((addrAt_after (length_leBytes 1 _) 5).trans
      ((addrAt_after (l := [pad]) rfl 4).trans ((addrAt_after (length_addrBytes _) 0).trans
        (addrAt_addrBytes _ _))))
  have h5 (i : Fin 32) : (elementBytes pad el).getD (12+i.val) 0 = el.data i := by
    unfold elementBytes
    rw [show 12+i.val = 2+(1+(1+(4+(4+i.val)))) by omega, getD_after (length_leBytes 2 _),
      getD_after (length_leBytes 1 _), getD_after (show [pad].length = 1 from rfl),
      getD_after (length_addrBytes _), getD_after (length_addrBytes _)]
    exact getD_ofFn _ i
  unfold elementOfBytes
  rw [h1, h2, h3, h4]
  simp only [h5, BitVec.ofNat_toNat, BitVec.setWidth_eq]

theorem headerOfBytes_bytes (h : ScFsStorageSegmentsHeader) : headerOfBytes h.bytes = h := by
  have hv : h.version.toNat < 256^4 := h.version.isLt
  have hn : h.segmentsNum.toNat < 256^2 := h.segmentsNum.isLt
  have ht : h.timestamp.toNat < 256^8 := h.timestamp.isLt
  have h1 : field 0 4 h.bytes = h.version.toNat := field_leBytes 4 _ _ hv
  have h2 : field 4 2 h.bytes = h.segmentsNum.toNat :=
    (field_after (length_leBytes 4 _) 0 2).trans (field_leBytes 2 _ _ hn)
  have h3 : field 8 8 h.bytes = h.timestamp.toNat :=
    (field_after (length_leBytes 4 _) 4 8).trans ((field_after (length_leBytes 2 _) 2 8).trans
      ((field_after (l := [0, 0]) rfl 0 8).trans (field_leBytes 8 _ _ ht)))
  have h4 (i : Fin 64) : h.bytes.getD (16+i.val) 0 = h.checksum i := by
    unfold ScFsStorageSegmentsHeader.bytes
    rw [show 16+i.val = 4+(2+(2+(8+i.val))) by omega, getD_after (length_leBytes 4 _),
      getD_after (length_leBytes 2 _), getD_after (show [(0 : ScByte), 0].length = 2 from rfl),
      getD_after (length_leBytes 8 _)]
    exact getD_ofFn _ i
  unfold headerOfBytes
  rw [h1, h2, h3]
  simp only [h4, BitVec.ofNat_toNat, BitVec.setWidth_eq]

/-- The cells of a segment are read back from its bytes. -/
theorem cellsOfBytes_segmentBytes (num : ℕ) (seg : ScSegment) (o : ℕ) (ho : o < 65535) :
    cellsOfBytes (segmentBytes fs num seg) o = seg.elements o := by
  unfold cellsOfBytes segmentBytes
  rw [record_records (fun _ => length_elementBytes _ _) _ o ho]
  exact elementOfBytes_elementBytes _ _

/-! The loops of the writer. -/

/-- The array has the segments `0, …, n - 1` and no other. -/
def FilledTo (segments : ℕ → Option ScSegment) (n : ℕ) : Prop := ∀ i, segments i ≠ none ↔ i < n

/-- The bytes of a segment that is there. -/
def bytesAt (fs : FsEnv) (segments : ℕ → Option ScSegment) (i : ℕ) : List ScByte :=
  segmentBytes fs i ((segments i).getD (scSegmentNew i))

theorem length_bytesAt (i : ℕ) : (bytesAt fs segments i).length = scSegElementsSizeByte :=
  length_segmentBytes _ _

theorem bytesAt_some {i : ℕ} {seg : ScSegment} (h : segments i = some seg) :
    bytesAt fs segments i = segmentBytes fs i seg := by
  unfold bytesAt
  rw [h]
  rfl

theorem checksumSegments_eq {n : ℕ} (h : FilledTo segments n) (fuel idx : ℕ) (hidx : idx ≤ n)
    (hfuel : n ≤ idx+fuel) :
    checksumSegments fs segments fuel idx (records (bytesAt fs segments) idx) =
      (n, records (bytesAt fs segments) n) := by
  induction fuel generalizing idx with
  | zero =>
    have hn : idx = n := by omega
    rw [hn]
    rfl
  | succ fuel ih =>
    unfold checksumSegments
    cases hs : segments idx with
    | none =>
      have hn : idx = n := by
        have hlt := (h idx).not.mp (not_not.mpr hs)
        omega
      rw [hn]
    | some seg =>
      have hlt : idx < n := (h idx).mp (by simp [hs])
      simp only
      rw [← bytesAt_some hs, ← records_succ]
      exact ih (idx+1) hlt (by omega)

theorem writeSegments_eq {n : ℕ} (h : FilledTo segments n) (m idx : ℕ) (hn : n = idx+m) :
    ∃ rest, writeSegments fs segments m idx = .ok rest ∧
      records (bytesAt fs segments) n = records (bytesAt fs segments) idx ++ rest := by
  induction m generalizing idx with
  | zero => exact ⟨[], rfl, by rw [hn]; simp⟩
  | succ m ih =>
    cases hs : segments idx with
    | none => exact absurd hs ((h idx).mpr (by omega))
    | some seg =>
      obtain ⟨rest, hrest, hrec⟩ := ih (idx+1) (by omega)
      refine ⟨segmentBytes fs idx seg ++ rest, ?_, ?_⟩
      · unfold writeSegments
        rw [hs]
        simp only [hrest]
        rfl
      · rw [hrec, records_succ, List.append_assoc, bytesAt_some hs]

/-- The file with the given header and element arrays. -/
def segmentsFile (header : ScFsStorageSegmentsHeader) (payload : List ScByte) : List ScByte :=
  leBytes 4 headerSize ++ (header.bytes ++ payload)

/-- The header of the arrays `payload`. -/
def headerOf (fs : FsEnv) (n : ℕ) (payload : List ScByte) : ScFsStorageSegmentsHeader :=
  ⟨fs.version, BitVec.ofNat 16 n, fs.realTime, fs.sha512 payload⟩

theorem writeToPath_eq {n : ℕ} (h : FilledTo segments n) (hn : n ≤ 65535) :
    scFsStorageWriteToPath fs segments =
      .ok (segmentsFile (headerOf fs n (records (bytesAt fs segments) n))
        (records (bytesAt fs segments) n)) := by
  have hcheck : checksumSegments fs segments scAddrSegMax 0 [] =
      (n, records (bytesAt fs segments) n) := by
    apply checksumSegments_eq h scAddrSegMax 0 (Nat.zero_le n)
    unfold scAddrSegMax
    omega
  have hnum : (BitVec.ofNat 16 n).toNat = n := by
    rw [BitVec.toNat_ofNat]
    omega
  obtain ⟨rest, hwrite, hrec⟩ := @writeSegments_eq fs segments n h n 0 (by omega)
  rw [records_zero, List.nil_append] at hrec
  unfold scFsStorageWriteToPath
  rw [hcheck]
  simp only [hnum, hwrite]
  rw [← hrec]
  rfl

/-! The loop of the reader. -/

/-- The segments that are made of the bytes. -/
def loadedSegments (payload : List ScByte) (n : ℕ) : ℕ → Option ScSegment := fun i =>
  if i < n then some (loadedSegment i (cellsOfBytes (record scSegElementsSizeByte i payload)))
  else none

theorem loadedSegments_succ (payload : List ScByte) (i : ℕ) :
    Function.update (loadedSegments payload i) i
      (some (loadedSegment i (cellsOfBytes (record scSegElementsSizeByte i payload)))) =
      loadedSegments payload (i+1) := by
  funext j
  unfold loadedSegments
  by_cases hj : j = i
  · subst hj
    simp
  · rw [Function.update_of_ne hj]
    by_cases hlt : j < i
    · rw [if_pos hlt, if_pos (by omega)]
    · rw [if_neg hlt, if_neg (by omega)]

theorem readSegments_eq (payload : List ScByte) (n i : ℕ)
    (hlen : payload.length = scSegElementsSizeByte*(i+n)) :
    readSegments n i (payload.drop (scSegElementsSizeByte*i)) (loadedSegments payload i)
        (payload.take (scSegElementsSizeByte*i)) =
      .ok (loadedSegments payload (i+n), payload) := by
  induction n generalizing i with
  | zero =>
    unfold readSegments
    rw [List.take_of_length_le (by rw [hlen, Nat.add_zero]), Nat.add_zero]
  | succ n ih =>
    have hmul : scSegElementsSizeByte*(i+(n+1)) =
        scSegElementsSizeByte*i+scSegElementsSizeByte*n+scSegElementsSizeByte := by ring
    have hchunk : ((payload.drop (scSegElementsSizeByte*i)).take scSegElementsSizeByte).length =
        scSegElementsSizeByte := by
      rw [List.length_take, List.length_drop, hlen, hmul]
      omega
    have hdrop : (payload.drop (scSegElementsSizeByte*i)).drop scSegElementsSizeByte =
        payload.drop (scSegElementsSizeByte*(i+1)) := by
      rw [List.drop_drop, Nat.mul_succ]
    have htake : payload.take (scSegElementsSizeByte*i) ++
        (payload.drop (scSegElementsSizeByte*i)).take scSegElementsSizeByte =
        payload.take (scSegElementsSizeByte*(i+1)) := by
      rw [Nat.mul_succ, List.take_add]
    unfold readSegments
    simp only [hchunk, ne_eq, not_true_eq_false, if_false]
    rw [hdrop, htake, show (payload.drop (scSegElementsSizeByte*i)).take scSegElementsSizeByte =
      record scSegElementsSizeByte i payload from rfl, loadedSegments_succ]
    rw [ih (i+1) (by rw [hlen]; congr 1; omega), Nat.add_assoc, Nat.add_comm 1 n]

/-- A file with a header and all its element arrays is read if the checksum is that of the
header. -/
theorem readFromPath_eq (sha512 : List ScByte → Fin 64 → ScByte)
    (header : ScFsStorageSegmentsHeader) (payload : List ScByte)
    (hlen : payload.length = scSegElementsSizeByte*header.segmentsNum.toNat) :
    scFsStorageReadFromPath sha512 (some (segmentsFile header payload)) (fun _ => none) 0 =
      if sha512 payload = header.checksum then
        .ok (true, loadedSegments payload header.segmentsNum.toNat, header.segmentsNum.toNat)
      else .ok (false, fun _ => none, 0) := by
  have hsize : field 0 4 (segmentsFile header payload) = headerSize :=
    field_leBytes 4 _ _ (by decide)
  have hdrop : (segmentsFile header payload).drop 4 = header.bytes ++ payload := by
    unfold segmentsFile
    exact List.drop_left' (length_leBytes 4 _)
  have hhead : (header.bytes ++ payload).take headerSize = header.bytes :=
    List.take_left' (length_headerBytes header)
  have hrest : (header.bytes ++ payload).drop headerSize = payload :=
    List.drop_left' (length_headerBytes header)
  have hread := readSegments_eq payload header.segmentsNum.toNat 0 (by rw [hlen, Nat.zero_add])
  have hnone : loadedSegments payload 0 = fun _ => none := by
    funext i
    unfold loadedSegments
    rw [if_neg (Nat.not_lt_zero i)]
  rw [Nat.mul_zero, List.drop_zero, List.take_zero, Nat.zero_add, hnone] at hread
  unfold scFsStorageReadFromPath
  simp only [hsize, hdrop, hhead, hrest, headerOfBytes_bytes, ne_eq, not_true_eq_false, if_false]
  rw [if_neg (by simp [segmentsFile]), if_neg (by simp [headerSize])]
  rw [hread]
  have hcleared : (fun i => if i < scSegmentMax then none
      else loadedSegments payload header.segmentsNum.toNat i) = fun _ => none := by
    funext i
    have hlt := header.segmentsNum.isLt
    unfold loadedSegments scSegmentMax
    split_ifs
    · rfl
    · omega
    · rfl
  show (if sha512 payload = header.checksum then _ else _ : Except ScStop _) = _
  split_ifs
  · rfl
  · rw [hcleared]
    rfl

/-- The file that is written is read with the segments that its bytes give. -/
theorem readBack_eq (n : ℕ) (hn : n ≤ 65535) (payload : List ScByte)
    (hlen : payload.length = scSegElementsSizeByte*n) :
    scFsStorageReadFromPath fs.sha512 (some (segmentsFile (headerOf fs n payload) payload))
      (fun _ => none) 0 = .ok (true, loadedSegments payload n, n) := by
  have hnum : (headerOf fs n payload).segmentsNum.toNat = n := by
    unfold headerOf
    rw [BitVec.toNat_ofNat]
    omega
  have hread := readFromPath_eq fs.sha512 (headerOf fs n payload) payload (by rw [hnum, hlen])
  rw [if_pos (show fs.sha512 payload = (headerOf fs n payload).checksum from rfl), hnum] at hread
  exact hread

theorem loadedSegment_refCount (num : ℕ) (cells : ℕ → ScElement) (o : ℕ) (ho : o < 65535)
    (ht : (cells o).type ≠ 0) : (loadedSegment num cells).refCount o = 1 := by
  unfold loadedSegment scSegmentLoaded
  simp only
  rw [if_pos ⟨ho, ht⟩]

/-- The segments of an array, cell for cell, with one reference to each occupied cell. -/
def SameSegments (segments segments' : ℕ → Option ScSegment) : Prop :=
  ∀ i, (segments i = none ∧ segments' i = none) ∨
    ∃ seg seg', segments i = some seg ∧ segments' i = some seg' ∧ ∀ o < 65535,
      seg'.elements o = seg.elements o ∧ ((seg'.elements o).type ≠ 0 → seg'.refCount o = 1)

theorem sameSegments_loaded {n : ℕ} (h : FilledTo segments n) :
    SameSegments segments (loadedSegments (records (bytesAt fs segments) n) n) := by
  intro i
  unfold loadedSegments
  cases hs : segments i with
  | none =>
    left
    have hlt := (h i).not.mp (not_not.mpr hs)
    rw [if_neg hlt]
    exact ⟨rfl, rfl⟩
  | some seg =>
    right
    have hlt : i < n := (h i).mp (by simp [hs])
    rw [if_pos hlt, record_records length_bytesAt n i hlt, bytesAt_some hs]
    refine ⟨seg, _, rfl, rfl, ?_⟩
    intro o ho
    refine ⟨?_, ?_⟩
    · rw [(loadedSegment_elements _ _).1]
      exact cellsOfBytes_segmentBytes i seg o ho
    · rw [(loadedSegment_elements _ _).1]
      exact loadedSegment_refCount _ _ o ho

end

/-- What is saved is read back, and a file with the saved checksum but other element arrays is
rejected, with nothing left in the array. -/
theorem segments_file_round_trip (fs : FsEnv) (segments : ℕ → Option ScSegment) (n : ℕ)
    (hn : n ≤ 65535) (hfilled : FilledTo segments n) (D : Set (List ScByte))
    (hinj : Set.InjOn fs.sha512 D) :
    ∃ header payload, scFsStorageWriteToPath fs segments = .ok (segmentsFile header payload) ∧
      (∃ segments', scFsStorageReadFromPath fs.sha512 (some (segmentsFile header payload))
          (fun _ => none) 0 = .ok (true, segments', n) ∧ SameSegments segments segments') ∧
      ∀ header' payload', header'.checksum = header.checksum →
        payload'.length = scSegElementsSizeByte*header'.segmentsNum.toNat →
        payload ∈ D → payload' ∈ D → payload' ≠ payload →
        scFsStorageReadFromPath fs.sha512 (some (segmentsFile header' payload'))
          (fun _ => none) 0 = .ok (false, fun _ => none, 0) := by
  refine ⟨_, _, writeToPath_eq hfilled hn, ⟨_, readBack_eq n hn _
    (length_records length_bytesAt n), sameSegments_loaded hfilled⟩, ?_⟩
  intro header' payload' hsum hlen hD hD' hne
  rw [readFromPath_eq fs.sha512 header' payload' hlen, if_neg]
  rw [hsum]
  intro heq
  exact hne (hinj hD' hD heq)

/-- The 64 bytes of a number that is given in two halves, the highest first. -/
def digestOf (high low : ℕ) (i : Fin 64) : ScByte :=
  BitVec.ofNat 8 ((high*2^256+low)/256^(63-i.val))

/-- The SHA-512 digests of the element array of a new segment, and of the same array with its
first byte set to 1. -/
def exampleSha512 (bytes : List ScByte) : Fin 64 → ScByte :=
  if bytes.head? = some 1 then
    digestOf 0xbc39afe125db2b76bde4052f330809867574f9d382ee8d0d6c063dae660a863c
      0x18a78fc9e8be87a20d85301b716ce7d2f7172ec23b4b7792c98d35ffa5159bb4
  else
    digestOf 0x4de7e23c04adafdf79c98f9aa99eb9e207ade663a1dccdecda26cd96048bac67
      0x487af23e9320182806b37a2fb94ea259784aaa9b3410b561b4f149af71196a57

def exampleFs : FsEnv := ⟨exampleSha512, 0x000300, 0, fun _ _ => 0⟩

def oneSegment : ℕ → Option ScSegment := fun i => if i = 0 then some (scSegmentNew 0) else none

def oneSegmentBytes : List ScByte := segmentBytes exampleFs 0 (scSegmentNew 0)

theorem oneSegment_filled : FilledTo oneSegment 1 := by
  intro i
  unfold oneSegment
  by_cases hi : i = 0
  · simp [hi]
  · simp [hi]

theorem oneSegmentBytes_head : oneSegmentBytes.head? = some 0 := by
  have hfirst := @record_records _ (fun o => elementBytes (exampleFs.padding 0 o)
    ((scSegmentNew 0).elements o)) scElementSize (fun _ => length_elementBytes _ _)
    scSegmentElementsCount 0 (by decide)
  have hhead := congrArg List.head? hfirst
  unfold record at hhead
  rw [Nat.mul_zero, List.drop_zero, List.head?_take, if_neg (by decide)] at hhead
  exact hhead

theorem segments_file_round_trip_one :
    FilledTo oneSegment 1 ∧ 1 :: oneSegmentBytes.tail ≠ oneSegmentBytes ∧
      ∃ header payload,
        scFsStorageWriteToPath exampleFs oneSegment = .ok (segmentsFile header payload) ∧
        (∃ segments', scFsStorageReadFromPath exampleFs.sha512
            (some (segmentsFile header payload)) (fun _ => none) 0 = .ok (true, segments', 1) ∧
          SameSegments oneSegment segments') ∧
        ∀ header' payload', header'.checksum = header.checksum →
          payload'.length = scSegElementsSizeByte*header'.segmentsNum.toNat →
          payload ∈ ({oneSegmentBytes, 1 :: oneSegmentBytes.tail} : Set (List ScByte)) →
          payload' ∈ ({oneSegmentBytes, 1 :: oneSegmentBytes.tail} : Set (List ScByte)) →
          payload' ≠ payload →
          scFsStorageReadFromPath exampleFs.sha512 (some (segmentsFile header' payload'))
            (fun _ => none) 0 = .ok (false, fun _ => none, 0) := by
  have hdamaged : exampleSha512 (1 :: oneSegmentBytes.tail) ≠ exampleSha512 oneSegmentBytes := by
    unfold exampleSha512
    rw [oneSegmentBytes_head, List.head?_cons, if_pos rfl, if_neg (by decide)]
    intro h
    exact absurd (congrFun h 0) (by decide)
  refine ⟨oneSegment_filled, fun h => hdamaged (congrArg exampleSha512 h),
    segments_file_round_trip exampleFs oneSegment 1 (by norm_num) oneSegment_filled _ ?_⟩
  have hsha : exampleFs.sha512 = exampleSha512 := rfl
  rw [Set.injOn_pair, hsha]
  intro heq
  exact absurd heq.symm hdamaged

end ScMachine.Store
