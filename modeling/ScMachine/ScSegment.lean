import ScMachine.ScTypes

/-! The segment allocator of `sc_segment.c`, with the section locks as a single caller sees
them: every call of this file runs to its end before the next one starts, so `internal_lock`
is free between calls and is left out here. -/
namespace ScMachine.Store

/-- Why a call does not return: a failed `g_assert`, a fatal `g_critical` or a null
dereference, or a loop that is never left. -/
inductive ScStop where
  | abort
  | diverge
  deriving DecidableEq, Repr

/-- `threadLock` is the thread pointer, with `0` for the null pointer. -/
structure ScSegmentSection where
  threadLock : ℕ
  emptyCount : ℤ
  emptyOffset : ℤ
  lockCount : ℤ
  deriving DecidableEq, Repr

structure ScSegment where
  refCount : ℕ → ℤ
  elements : ℕ → ScElement
  num : ℕ
  sections : ℕ → ScSegmentSection
  elementsCount : ℤ

def scSegmentNew (num : ℕ) : ScSegment :=
  let count := scSegmentElementsCount/scConcurrencyLevel
  let c := count*scConcurrencyLevel
  let fresh (i : ℕ) : ScSegmentSection :=
    ⟨0, if c+i ≤ scSegmentElementsCount then (count : ℤ)+1 else count, i, 0⟩
  let first : ScSegmentSection :=
    if num = 0 then
      { fresh 0 with
        emptyOffset := (fresh 0).emptyOffset+scConcurrencyLevel
        emptyCount := (fresh 0).emptyCount-1 }
    else fresh 0
  { refCount := fun _ => 0
    elements := fun _ => ScElement.zero
    num := num
    sections := Function.update fresh 0 first
    elementsCount := 0 }

/-- The walk of `sc_segment_loaded` over the cells `idx, idx + 32, …` of one section: the
section and `elements_count` as they are after it. -/
def loadSection (elements : ℕ → ScElement) :
    ℕ → ℕ → ScSegmentSection × ℤ → ScSegmentSection × ℤ
  | 0, _, s => s
  | fuel + 1, idx, (section_, occupied) =>
    if idx < scSegmentElementsCount then
      if (elements idx).type = 0 then
        loadSection elements fuel (idx+scConcurrencyLevel)
          ({ section_ with emptyCount := section_.emptyCount+1, emptyOffset := idx }, occupied)
      else loadSection elements fuel (idx+scConcurrencyLevel) (section_, occupied+1)
    else (section_, occupied)

/-- The sections are visited in order; only `elements_count` is carried between them. -/
def loadSections (seg : ScSegment) : ℕ → ScSegment
  | 0 => { seg with elementsCount := 0 }
  | i + 1 =>
    let prev := loadSections seg i
    let r := loadSection seg.elements scSegmentElementsCount i
      ({ seg.sections i with emptyCount := 0 }, prev.elementsCount)
    { prev with sections := Function.update prev.sections i r.1, elementsCount := r.2 }

def scSegmentLoaded (seg : ScSegment) : ScSegment :=
  let counted := loadSections seg scConcurrencyLevel
  { counted with
    refCount := fun i =>
      if i < scSegmentElementsCount ∧ (seg.elements i).type ≠ 0 then 1 else seg.refCount i }

def scSegmentHasEmptySlot (seg : ScSegment) : Bool :=
  if seg.num = 0 then seg.elementsCount < scSegmentElementsCount-1
  else seg.elementsCount < scSegmentElementsCount

/-- A section held by another thread never becomes free while the caller waits for it. -/
def scSegmentSectionLock (thread : ℕ) (s : ScSegmentSection) : Except ScStop ScSegmentSection :=
  if s.threadLock ≠ 0 ∧ s.threadLock ≠ thread then .error .diverge
  else .ok { s with threadLock := thread, lockCount := s.lockCount+1 }

/-- Every attempt on a section of another thread fails, whatever `max_attempts` is. -/
def scSegmentSectionLockTry (thread : ℕ) (s : ScSegmentSection) : Bool × ScSegmentSection :=
  if s.threadLock ≠ 0 ∧ s.threadLock ≠ thread then (false, s)
  else (true, { s with threadLock := thread, lockCount := s.lockCount+1 })

def scSegmentSectionUnlock (thread : ℕ) (s : ScSegmentSection) : Except ScStop ScSegmentSection :=
  if s.threadLock ≠ thread then .error .abort
  else .ok { s with
    lockCount := s.lockCount-1
    threadLock := if s.lockCount-1 = 0 then 0 else s.threadLock }

/-- `sc_segment_lock_element`. -/
def scSegmentLockElement (thread : ℕ) (seg : ScSegment) (offset : ℕ) : Except ScStop ScSegment :=
  if scSegmentElementsCount ≤ offset then .error .abort
  else do
    let locked ← scSegmentSectionLock thread (seg.sections (offset%scConcurrencyLevel))
    .ok { seg with
      sections := Function.update seg.sections (offset%scConcurrencyLevel) locked }

/-- `sc_segment_lock_element_try`, with `false` for the null pointer. -/
def scSegmentLockElementTry (thread : ℕ) (seg : ScSegment) (offset : ℕ) :
    Except ScStop (Bool × ScSegment) :=
  if scSegmentElementsCount ≤ offset then .error .abort
  else
    let r := scSegmentSectionLockTry thread (seg.sections (offset%scConcurrencyLevel))
    .ok (r.1, { seg with
      sections := Function.update seg.sections (offset%scConcurrencyLevel) r.2 })

def scSegmentUnlockElement (thread : ℕ) (seg : ScSegment) (offset : ℕ) :
    Except ScStop ScSegment :=
  if scSegmentElementsCount ≤ offset then .error .abort
  else do
    let unlocked ← scSegmentSectionUnlock thread (seg.sections (offset%scConcurrencyLevel))
    .ok { seg with
      sections := Function.update seg.sections (offset%scConcurrencyLevel) unlocked }

/-- The assertions of `sc_segment_get_meta`. -/
def scSegmentMetaOk (thread : ℕ) (seg : ScSegment) (offset : ℕ) : Bool :=
  (seg.sections (offset%scConcurrencyLevel)).threadLock = thread ∧ offset < scSegmentElementsCount

def scSegmentEraseElement (seg : ScSegment) (offset : ℕ) : Except ScStop ScSegment :=
  let section_ := seg.sections (offset%scConcurrencyLevel)
  if section_.threadLock = 0 ∨ scSegmentElementsCount ≤ offset then .error .abort
  else if offset = 0 ∧ seg.num = 0 then .error .abort
  else .ok { seg with
    elementsCount := seg.elementsCount-1
    elements := Function.update seg.elements offset ScElement.zero
    sections := Function.update seg.sections (offset%scConcurrencyLevel)
      { section_ with emptyCount := section_.emptyCount+1, emptyOffset := offset } }

/-- `while (j < SC_SEGMENT_ELEMENTS_COUNT)`: the search to the right of the current hole. -/
def findHoleRight (elements : ℕ → ScElement) : ℕ → ℤ → Option ℤ
  | 0, _ => none
  | fuel + 1, j =>
    if j < scSegmentElementsCount then
      if (elements j.toNat).type = 0 then some j
      else findHoleRight elements fuel (j+scConcurrencyLevel)
    else none

/-- `while (j >= left)`: the search to the left. -/
def findHoleLeft (elements : ℕ → ScElement) (left : ℤ) : ℕ → ℤ → Option ℤ
  | 0, _ => none
  | fuel + 1, j =>
    if left ≤ j then
      if (elements j.toNat).type = 0 then some j
      else findHoleLeft elements left fuel (j-scConcurrencyLevel)
    else none

/-- The next hole of the section whose current hole is `idx`, for the `i`-th section that a
call visits. The lower bound depends on the position `i` of the section in the visit. -/
def nextHole (seg : ScSegment) (i : ℕ) (idx : ℤ) : Option ℤ :=
  let left : ℤ := if i = 0 ∧ seg.num = 0 then scConcurrencyLevel else idx
  match findHoleRight seg.elements scSegmentElementsCount (idx+scConcurrencyLevel) with
  | some j => some j
  | none => findHoleLeft seg.elements left scSegmentElementsCount (idx-scConcurrencyLevel)

/-- The body of the loop over `i` in `sc_segment_lock_empty_element`. `none` is `continue`. -/
def visitSection (thread ctxId i : ℕ) (seg : ScSegment) :
    Except ScStop (Option ℕ × ScSegment) :=
  let secId := (ctxId+i)%scConcurrencyLevel
  if (seg.sections secId).emptyCount = 0 then .ok (none, seg)
  else
    match scSegmentSectionLockTry thread (seg.sections secId) with
    | (false, _) => .ok (none, seg)
    | (true, locked) =>
      let idx := locked.emptyOffset
      if 0 < locked.emptyCount then
        -- both counters move before the search for the next hole is known to succeed
        let counted := { locked with emptyCount := locked.emptyCount-1 }
        if ¬ (0 ≤ idx ∧ idx < scSegmentElementsCount) ∨ ¬ 0 < seg.num+idx then .error .abort
        else
          match nextHole seg i idx with
          | some j =>
            if ¬ 0 < seg.num+j ∨ ¬ 0 ≤ counted.emptyCount then .error .abort
            else .ok (some idx.toNat, { seg with
              elementsCount := seg.elementsCount+1
              sections := Function.update seg.sections secId { counted with emptyOffset := j } })
          | none => do
            let unlocked ← scSegmentSectionUnlock thread counted
            .ok (none, { seg with
              elementsCount := seg.elementsCount+1
              sections := Function.update seg.sections secId unlocked })
      else do
        let unlocked ← scSegmentSectionUnlock thread locked
        .ok (none, { seg with sections := Function.update seg.sections secId unlocked })

/-- The loop `for (i = 0; i < SC_CONCURRENCY_LEVEL; ++i)` with `n` sections still to visit. -/
def visitSections (thread ctxId : ℕ) : ℕ → ScSegment → Except ScStop (Option ℕ × ScSegment)
  | 0, seg => .ok (none, seg)
  | n + 1, seg => do
    let r ← visitSection thread ctxId (scConcurrencyLevel-(n+1)) seg
    match r with
    | (some offset, seg') => .ok (some offset, seg')
    | (none, seg') => visitSections thread ctxId n seg'

/-- The outer loop with `n` attempts left: it gives up after `SC_CONCURRENCY_LEVEL` passes. -/
def lockEmptyAttempts (thread ctxId : ℕ) : ℕ → ScSegment → Except ScStop (Option ℕ × ScSegment)
  | 0, seg => .ok (none, seg)
  | n + 1, seg =>
    if scSegmentHasEmptySlot seg then do
      let r ← visitSections thread ctxId scConcurrencyLevel seg
      match r with
      | (some offset, seg') => .ok (some offset, seg')
      | (none, seg') => lockEmptyAttempts thread ctxId n seg'
    else .ok (none, seg)

/-- The offset of the cell that is handed out with its section locked, or `none` for the null
pointer. -/
def scSegmentLockEmptyElement (thread ctxId : ℕ) (seg : ScSegment) :
    Except ScStop (Option ℕ × ScSegment) :=
  lockEmptyAttempts thread ctxId scConcurrencyLevel seg

end ScMachine.Store
