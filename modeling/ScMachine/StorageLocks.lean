import ScMachine.SegmentReload
import ScMachine.ElementFree

/-! The section locks that a thread holds, as a list of addresses over the locks at the start of
an operation. -/
namespace ScMachine.Store
open ScMachine.StateExcept

/-- A section, by the number of its segment and its index in it. -/
abbrev SectionKey := ℕ × ℕ

/-- Owner and count of a section lock. -/
abbrev LockWord := ℕ × ℤ

def ScAddr.key (a : ScAddr) : SectionKey := (a.seg.toNat, a.offset.toNat%32)

def ScSegment.lockWord (seg : ScSegment) (i : ℕ) : LockWord :=
  ((seg.sections i).threadLock, (seg.sections i).lockCount)

/-- The locks of the store. A segment that does not exist yet counts as unlocked. -/
def ScStorage.locks (st : ScStorage) (k : SectionKey) : LockWord :=
  match st.segments k.1 with
  | some seg => seg.lockWord k.2
  | none => (0, 0)

/-- The locks `L` with those on `ks` taken by `thread` on top. -/
def addLocks (thread : ℕ) (ks : List SectionKey) (L : SectionKey → LockWord) (k : SectionKey) :
    LockWord :=
  if ks.count k = 0 then L k else (thread, (L k).2+ks.count k)

def Lockable (thread : ℕ) (w : LockWord) : Prop := w = (0, 0) ∨ (w.1 = thread ∧ 0 < w.2)

def WordWf (w : LockWord) : Prop := w = (0, 0) ∨ (w.1 ≠ 0 ∧ 0 < w.2)

def Loaded (st : ScStorage) (a : ScAddr) : Prop :=
  (∃ seg, st.segmentOf a = some seg) ∧ a.offset.toNat < 65535

/-- Segments carry their own number and every remembered hole is a cell of its section. -/
structure SegsInRange (st : ScStorage) : Prop where
  num : ∀ n seg, st.segments n = some seg → seg.num = n
  range : ∀ n seg, st.segments n = some seg → HolesInRange seg
  fresh : ∀ n, st.segmentsNum ≤ n → st.segments n = none
  bound : st.segmentsNum ≤ 65535

/-- `thread` holds the locks of `as` on top of the locks `L`. -/
structure Holds (thread : ℕ) (L : SectionKey → LockWord) (as : List ScAddr) (st : ScStorage) :
    Prop where
  wf : ∀ k, WordWf (L k)
  locks : st.locks = addLocks thread (as.map ScAddr.key) L
  lockable : ∀ a ∈ as, Lockable thread (L a.key)
  loaded : ∀ a ∈ as, Loaded st a
  segs : SegsInRange st

theorem addLocks_nil (thread : ℕ) (L : SectionKey → LockWord) : addLocks thread [] L = L := by
  funext k
  simp [addLocks]

/-- On a section that `thread` may lock, the count alone decides. -/
theorem addLocks_of_lockable {thread : ℕ} {L : SectionKey → LockWord} {k : SectionKey}
    (ks : List SectionKey) (h : Lockable thread (L k)) :
    addLocks thread ks L k =
      (if (L k).2+ks.count k = 0 then 0 else thread, (L k).2+ks.count k) := by
  unfold addLocks
  rcases h with h0 | ⟨h1, hpos⟩
  · rw [h0]
    by_cases hc : ks.count k = 0
    · simp [hc]
    · simp [hc]
  · have hne : ¬ (L k).2+(ks.count k : ℤ) = 0 := by omega
    rw [if_neg hne]
    split_ifs with hc
    · rw [hc, ← h1]
      simp
    · rfl

theorem holds_start (thread : ℕ) (st : ScStorage) (hw : ∀ k, WordWf (st.locks k))
    (hs : SegsInRange st) : Holds thread st.locks [] st :=
  ⟨hw, (addLocks_nil thread st.locks).symm, by simp, by simp, hs⟩

section
variable {thread : ℕ} {L : SectionKey → LockWord} {as as' : List ScAddr} {st st' : ScStorage}

theorem Holds.end_ (h : Holds thread L [] st) : st.locks = L := by
  rw [h.locks]
  exact addLocks_nil thread L

theorem Holds.perm (h : Holds thread L as st) (hp : as.Perm as') : Holds thread L as' st := by
  refine ⟨h.wf, ?_, ?_, ?_, h.segs⟩
  · rw [h.locks]
    funext k
    simp only [addLocks, (hp.map ScAddr.key).count_eq]
  · intro a ha
    exact h.lockable a (hp.mem_iff.mpr ha)
  · intro a ha
    exact h.loaded a (hp.mem_iff.mpr ha)

/-- Nothing but the segments matters. -/
theorem Holds.congr (h : Holds thread L as st) (hseg : st'.segments = st.segments)
    (hnum : st'.segmentsNum = st.segmentsNum) : Holds thread L as st' := by
  refine ⟨h.wf, ?_, h.lockable, ?_, ?_⟩
  · rw [← h.locks]
    funext k
    simp only [ScStorage.locks, hseg]
  · intro a ha
    simpa only [Loaded, ScStorage.segmentOf, hseg] using h.loaded a ha
  · refine ⟨?_, ?_, ?_, ?_⟩
    · rw [hseg]
      exact h.segs.num
    · rw [hseg]
      exact h.segs.range
    · rw [hseg, hnum]
      exact h.segs.fresh
    · rw [hnum]
      exact h.segs.bound

theorem SegsInRange.segmentOf (h : SegsInRange st) (a : ScAddr) :
    st.segmentOf a = st.segments a.seg.toNat := by
  unfold ScStorage.segmentOf
  split_ifs with hmax
  · exact (h.fresh _ (le_trans h.bound hmax)).symm
  · rfl

theorem locks_setSegment (n : ℕ) (seg : ScSegment) (k : SectionKey) :
    (st.setSegment n seg).locks k = if k.1 = n then seg.lockWord k.2 else st.locks k := by
  unfold ScStorage.locks ScStorage.setSegment
  by_cases h : k.1 = n
  · simp [h]
  · simp [h]

theorem locks_of_segment {n : ℕ} {seg : ScSegment} (hn : st.segments n = some seg) (i : ℕ) :
    st.locks (n, i) = seg.lockWord i := by
  simp [ScStorage.locks, hn]

theorem SegsInRange.setSegment (h : SegsInRange st) {n : ℕ} {seg seg' : ScSegment}
    (hn : st.segments n = some seg) (hnum : seg'.num = seg.num) (hrange : HolesInRange seg') :
    SegsInRange (st.setSegment n seg') := by
  have hlt : n < st.segmentsNum := by
    by_contra hge
    have hnone := h.fresh n (not_lt.mp hge)
    rw [hn] at hnone
    simp at hnone
  refine ⟨?_, ?_, ?_, h.bound⟩
  · intro m s hm
    by_cases hmn : m = n
    · subst hmn
      obtain rfl : seg' = s := by simpa [ScStorage.setSegment] using hm
      rw [hnum]
      exact h.num m seg hn
    · exact h.num m s (by simpa [ScStorage.setSegment, hmn] using hm)
  · intro m s hm
    by_cases hmn : m = n
    · subst hmn
      obtain rfl : seg' = s := by simpa [ScStorage.setSegment] using hm
      exact hrange
    · exact h.range m s (by simpa [ScStorage.setSegment, hmn] using hm)
  · intro m hm
    have hmn : m ≠ n := by
      have hm' : st.segmentsNum ≤ m := hm
      omega
    simpa [ScStorage.setSegment, hmn] using h.fresh m hm

theorem Loaded.setSegment {a : ScAddr} (h : Loaded st a) (n : ℕ) (seg : ScSegment) :
    Loaded (st.setSegment n seg) a := by
  obtain ⟨⟨s, hs⟩, hoff⟩ := h
  refine ⟨?_, hoff⟩
  unfold ScStorage.segmentOf at *
  split_ifs at hs with hmax
  rw [if_neg hmax]
  by_cases hn : a.seg.toNat = n
  · exact ⟨seg, by simp [ScStorage.setSegment, hn]⟩
  · exact ⟨s, by simpa [ScStorage.setSegment, hn] using hs⟩

/-- A segment may be replaced by one with the same lock words. -/
theorem Holds.setSegment (h : Holds thread L as st) {n : ℕ} {seg seg' : ScSegment}
    (hn : st.segments n = some seg) (hw : seg'.lockWord = seg.lockWord)
    (hnum : seg'.num = seg.num) (hrange : HolesInRange seg') :
    Holds thread L as (st.setSegment n seg') := by
  refine ⟨h.wf, ?_, h.lockable, ?_, h.segs.setSegment hn hnum hrange⟩
  · rw [← h.locks]
    funext k
    rw [locks_setSegment]
    split_ifs with hk
    · rw [hw, ← locks_of_segment hn k.2, ← hk]
    · rfl
  · intro a ha
    exact (h.loaded a ha).setSegment n seg'

theorem Holds.lockable_of_now (h : Holds thread L as st) (k : SectionKey)
    (hl : Lockable thread (st.locks k)) : Lockable thread (L k) := by
  rw [h.locks] at hl
  by_cases hk : k ∈ as.map ScAddr.key
  · obtain ⟨a, ha, rfl⟩ := List.mem_map.mp hk
    exact h.lockable a ha
  · simpa [addLocks, List.count_eq_zero_of_not_mem hk] using hl

theorem Holds.lockable_now (h : Holds thread L as st) (k : SectionKey)
    (hl : Lockable thread (L k)) : Lockable thread (st.locks k) := by
  rw [h.locks]
  unfold addLocks
  split_ifs with hc
  · exact hl
  · refine Or.inr ⟨rfl, ?_⟩
    rcases hl with h0 | ⟨-, hpos⟩
    · rw [h0]
      omega
    · omega

theorem Holds.wf_now (h : Holds thread L as st) (ht : thread ≠ 0) (k : SectionKey) :
    WordWf (st.locks k) := by
  rw [h.locks]
  unfold addLocks
  split_ifs with hc
  · exact h.wf k
  · refine Or.inr ⟨ht, ?_⟩
    rcases h.wf k with h0 | ⟨-, hpos⟩
    · rw [h0]
      omega
    · omega

/-- A segment with one other lock word. -/
theorem locks_setSegment_word {n i : ℕ} {seg seg' : ScSegment} {w : LockWord}
    (hn : st.segments n = some seg) (hw : seg'.lockWord = Function.update seg.lockWord i w)
    (k : SectionKey) : (st.setSegment n seg').locks k = if k = (n, i) then w else st.locks k := by
  rw [locks_setSegment, hw]
  split_ifs with h1 h2 h2
  · rw [h2, Function.update_self]
  · have hi : k.2 ≠ i := fun h => h2 (Prod.ext h1 h)
    rw [Function.update_of_ne hi, ← locks_of_segment hn k.2, ← h1]
  · rw [h2] at h1
    exact absurd rfl h1
  · rfl

/-- One more lock on the section of `a`. -/
theorem Holds.acquire (h : Holds thread L as st) {a : ScAddr} {seg seg' : ScSegment}
    (hn : st.segments a.seg.toNat = some seg) (hoff : a.offset.toNat < 65535)
    (hl : Lockable thread (seg.lockWord (a.offset.toNat%32)))
    (hw : seg'.lockWord = Function.update seg.lockWord (a.offset.toNat%32)
      (thread, (seg.lockWord (a.offset.toNat%32)).2+1))
    (hnum : seg'.num = seg.num) (hrange : HolesInRange seg') :
    Holds thread L (a :: as) (st.setSegment a.seg.toNat seg') := by
  have hnow : st.locks a.key = seg.lockWord (a.offset.toNat%32) := locks_of_segment hn _
  have hla : Lockable thread (L a.key) := h.lockable_of_now a.key (by rw [hnow]; exact hl)
  have hla0 : Loaded st a := ⟨⟨seg, by rw [h.segs.segmentOf]; exact hn⟩, hoff⟩
  refine ⟨h.wf, ?_, ?_, ?_, h.segs.setSegment hn hnum hrange⟩
  · funext k
    rw [locks_setSegment_word hn hw]
    split_ifs with hk
    · change k = a.key at hk
      have hc : (seg.lockWord (a.offset.toNat%32)).2 = (L k).2+((as.map ScAddr.key).count k : ℤ) := by
        rw [← hnow, h.locks, ← hk]
        unfold addLocks
        split_ifs with hz
        · rw [hz]
          simp
        · rfl
      rw [hc]
      simp only [addLocks, List.map_cons, ← hk, List.count_cons_self]
      rw [if_neg (by omega)]
      push_cast
      rw [add_assoc]
    · change ¬ k = a.key at hk
      rw [h.locks]
      simp only [addLocks, List.map_cons, List.count_cons_of_ne (Ne.symm hk)]
  · intro b hb
    rcases List.mem_cons.mp hb with rfl | hb
    · exact hla
    · exact h.lockable b hb
  · intro b hb
    rcases List.mem_cons.mp hb with rfl | hb
    · exact hla0.setSegment _ _
    · exact (h.loaded b hb).setSegment _ _

/-- The last lock on the section of `a` is given back. -/
theorem Holds.release {a : ScAddr} (h : Holds thread L (a :: as) st) {seg seg' : ScSegment}
    (hn : st.segments a.seg.toNat = some seg)
    (hw : seg'.lockWord = Function.update seg.lockWord (a.offset.toNat%32)
      (if (seg.lockWord (a.offset.toNat%32)).2-1 = 0 then 0 else thread,
        (seg.lockWord (a.offset.toNat%32)).2-1))
    (hnum : seg'.num = seg.num) (hrange : HolesInRange seg') :
    Holds thread L as (st.setSegment a.seg.toNat seg') := by
  have hnow : st.locks a.key = seg.lockWord (a.offset.toNat%32) := locks_of_segment hn _
  have hla : Lockable thread (L a.key) := h.lockable a List.mem_cons_self
  refine ⟨h.wf, ?_, ?_, ?_, h.segs.setSegment hn hnum hrange⟩
  · funext k
    rw [locks_setSegment_word hn hw, show (a.seg.toNat, a.offset.toNat%32) = a.key from rfl]
    by_cases hk : k = a.key
    · have hc : (seg.lockWord (a.offset.toNat%32)).2-1 =
          (L a.key).2+((as.map ScAddr.key).count a.key : ℤ) := by
        rw [← hnow, h.locks]
        simp only [addLocks, List.map_cons, List.count_cons_self]
        rw [if_neg (by omega)]
        push_cast
        ring
      rw [if_pos hk, hc, hk, addLocks_of_lockable _ hla]
    · rw [if_neg hk, h.locks]
      simp only [addLocks, List.map_cons, List.count_cons_of_ne (Ne.symm hk)]
  · intro b hb
    exact h.lockable b (List.mem_cons_of_mem _ hb)
  · intro b hb
    exact (h.loaded b (List.mem_cons_of_mem _ hb)).setSegment _ _

/-- A cell written under a lock. -/
theorem Holds.setCell (h : Holds thread L as st) (a : ScAddr) (el : ScElement) :
    Holds thread L as (st.setCell a el) := by
  unfold ScStorage.setCell
  cases hn : st.segments a.seg.toNat with
  | none => exact h
  | some seg => exact h.setSegment hn rfl rfl (h.segs.range _ seg hn)

theorem Holds.setRefCount (h : Holds thread L as st) (a : ScAddr) (n : ℤ) :
    Holds thread L as (st.setRefCount a n) := by
  unfold ScStorage.setRefCount
  cases hn : st.segments a.seg.toNat with
  | none => exact h
  | some seg => exact h.setSegment hn rfl rfl (h.segs.range _ seg hn)

end

/-- The segment and the store without their lock words. -/
def ScSegment.unlocked (seg : ScSegment) : ScSegment :=
  { seg with sections := fun i => { seg.sections i with threadLock := 0, lockCount := 0 } }

def ScStorage.unlocked (st : ScStorage) : ScStorage :=
  { st with segments := fun n => (st.segments n).map ScSegment.unlocked }

theorem unlocked_setSegment {st : ScStorage} {n : ℕ} {seg seg' : ScSegment}
    (hn : st.segments n = some seg) (hu : seg'.unlocked = seg.unlocked) :
    (st.setSegment n seg').unlocked = st.unlocked := by
  unfold ScStorage.unlocked ScStorage.setSegment
  congr 1
  funext m
  by_cases h : m = n
  · subst h
    simp [hn, hu]
  · simp [Function.update_of_ne h]

theorem segment_eq_of_unlocked {seg seg' : ScSegment} (h : seg'.unlocked = seg.unlocked) :
    seg'.elements = seg.elements ∧ seg'.refCount = seg.refCount ∧ seg'.num = seg.num ∧
      ∀ i, (seg'.sections i).emptyOffset = (seg.sections i).emptyOffset := by
  simp only [ScSegment.unlocked, ScSegment.mk.injEq] at h
  obtain ⟨hr, he, hn, hs, -⟩ := h
  refine ⟨he, hr, hn, ?_⟩
  intro i
  have hi := congrFun hs i
  simp only [ScSegmentSection.mk.injEq] at hi
  exact hi.2.2.1

/-- What the store without its lock words determines. -/
theorem segments_of_unlocked {st st' : ScStorage} (h : st'.unlocked = st.unlocked) (n : ℕ) :
    (st.segments n = none ∧ st'.segments n = none) ∨
      ∃ seg seg', st.segments n = some seg ∧ st'.segments n = some seg' ∧
        seg'.unlocked = seg.unlocked := by
  have hs : (st'.segments n).map ScSegment.unlocked = (st.segments n).map ScSegment.unlocked :=
    congrFun (congrArg ScStorage.segments h) n
  cases h1 : st.segments n with
  | none =>
    cases h2 : st'.segments n with
    | none => exact Or.inl ⟨rfl, rfl⟩
    | some seg' => simp [h1, h2] at hs
  | some seg =>
    cases h2 : st'.segments n with
    | none => simp [h1, h2] at hs
    | some seg' => exact Or.inr ⟨seg, seg', rfl, rfl, by simpa [h1, h2] using hs⟩

theorem cell_of_unlocked {st st' : ScStorage} (h : st'.unlocked = st.unlocked) :
    st'.cell = st.cell := by
  funext a
  unfold ScStorage.cell
  rcases segments_of_unlocked h a.seg.toNat with ⟨h1, h2⟩ | ⟨seg, seg', h1, h2, hu⟩
  · rw [h1, h2]
  · rw [h1, h2]
    simp only [(segment_eq_of_unlocked hu).1]

theorem refCount_of_unlocked {st st' : ScStorage} (h : st'.unlocked = st.unlocked) :
    st'.refCount = st.refCount := by
  funext a
  unfold ScStorage.refCount
  rcases segments_of_unlocked h a.seg.toNat with ⟨h1, h2⟩ | ⟨seg, seg', h1, h2, hu⟩
  · rw [h1, h2]
  · rw [h1, h2]
    simp only [(segment_eq_of_unlocked hu).2.1]

theorem loaded_of_unlocked {st st' : ScStorage} (h : st'.unlocked = st.unlocked) (a : ScAddr) :
    Loaded st' a ↔ Loaded st a := by
  unfold Loaded ScStorage.segmentOf
  split_ifs
  · rfl
  · rcases segments_of_unlocked h a.seg.toNat with ⟨h1, h2⟩ | ⟨seg, seg', h1, h2, -⟩
    · rw [h1, h2]
    · rw [h1, h2]
      simp

/-- The lock word of section `i` becomes `w`. -/
def ScSegment.setLock (seg : ScSegment) (i : ℕ) (w : LockWord) : ScSegment :=
  { seg with
    sections := Function.update seg.sections i
      { seg.sections i with threadLock := w.1, lockCount := w.2 } }

theorem lockWord_setLock (seg : ScSegment) (i : ℕ) (w : LockWord) :
    (seg.setLock i w).lockWord = Function.update seg.lockWord i w := by
  funext j
  by_cases h : j = i
  · subst h
    simp [ScSegment.lockWord, ScSegment.setLock]
  · simp [ScSegment.lockWord, ScSegment.setLock, h]

theorem unlocked_setLock (seg : ScSegment) (i : ℕ) (w : LockWord) :
    (seg.setLock i w).unlocked = seg.unlocked := by
  unfold ScSegment.unlocked ScSegment.setLock
  congr 1
  funext j
  by_cases h : j = i
  · subst h
    simp
  · simp [h]

theorem HolesInRange.setLock {seg : ScSegment} (h : HolesInRange seg) (i : ℕ) (w : LockWord) :
    HolesInRange (seg.setLock i w) := by
  intro j hj
  have hoff := (segment_eq_of_unlocked (unlocked_setLock seg i w)).2.2.2 j
  rw [hoff]
  exact h j hj

theorem lockElement_eq (thread : ℕ) (seg : ScSegment) (o : ℕ) :
    scSegmentLockElement thread seg o =
      if 65535 ≤ o then .error .abort
      else if (seg.lockWord (o%32)).1 ≠ 0 ∧ (seg.lockWord (o%32)).1 ≠ thread then .error .diverge
      else .ok (seg.setLock (o%32) (thread, (seg.lockWord (o%32)).2+1)) := by
  simp only [scSegmentLockElement, scSegmentSectionLock, scSegmentElementsCount,
    scConcurrencyLevel]
  by_cases h1 : 65535 ≤ o
  · rw [if_pos h1, if_pos h1]
  · rw [if_neg h1, if_neg h1]
    by_cases h2 : (seg.lockWord (o%32)).1 ≠ 0 ∧ (seg.lockWord (o%32)).1 ≠ thread
    · have h2' : (seg.sections (o%32)).threadLock ≠ 0 ∧
          (seg.sections (o%32)).threadLock ≠ thread := h2
      rw [if_pos h2, if_pos h2']
      rfl
    · have h2' : ¬ ((seg.sections (o%32)).threadLock ≠ 0 ∧
          (seg.sections (o%32)).threadLock ≠ thread) := h2
      rw [if_neg h2, if_neg h2']
      rfl

theorem lockElementTry_eq (thread : ℕ) (seg : ScSegment) (o : ℕ) :
    scSegmentLockElementTry thread seg o =
      if 65535 ≤ o then .error .abort
      else if (seg.lockWord (o%32)).1 ≠ 0 ∧ (seg.lockWord (o%32)).1 ≠ thread then
        .ok (false, seg)
      else .ok (true, seg.setLock (o%32) (thread, (seg.lockWord (o%32)).2+1)) := by
  simp only [scSegmentLockElementTry, scSegmentSectionLockTry, scSegmentElementsCount,
    scConcurrencyLevel]
  by_cases h1 : 65535 ≤ o
  · rw [if_pos h1, if_pos h1]
  · rw [if_neg h1, if_neg h1]
    by_cases h2 : (seg.lockWord (o%32)).1 ≠ 0 ∧ (seg.lockWord (o%32)).1 ≠ thread
    · have h2' : (seg.sections (o%32)).threadLock ≠ 0 ∧
          (seg.sections (o%32)).threadLock ≠ thread := h2
      rw [if_pos h2, if_pos h2']
      simp
    · have h2' : ¬ ((seg.sections (o%32)).threadLock ≠ 0 ∧
          (seg.sections (o%32)).threadLock ≠ thread) := h2
      rw [if_neg h2, if_neg h2']
      rfl

theorem unlockElement_eq (thread : ℕ) (seg : ScSegment) (o : ℕ) :
    scSegmentUnlockElement thread seg o =
      if 65535 ≤ o then .error .abort
      else if (seg.lockWord (o%32)).1 ≠ thread then .error .abort
      else .ok (seg.setLock (o%32)
        (if (seg.lockWord (o%32)).2-1 = 0 then 0 else thread, (seg.lockWord (o%32)).2-1)) := by
  simp only [scSegmentUnlockElement, scSegmentSectionUnlock, scSegmentElementsCount,
    scConcurrencyLevel]
  by_cases h1 : 65535 ≤ o
  · rw [if_pos h1, if_pos h1]
  · rw [if_neg h1, if_neg h1]
    by_cases h2 : (seg.lockWord (o%32)).1 ≠ thread
    · have h2' : (seg.sections (o%32)).threadLock ≠ thread := h2
      rw [if_pos h2, if_pos h2']
      rfl
    · have h2' : ¬ (seg.sections (o%32)).threadLock ≠ thread := h2
      rw [if_neg h2, if_neg h2', not_not.mp h2']
      rfl

section
variable {env : ScEnv} {L : SectionKey → LockWord} {as as' : List ScAddr} {st st' : ScStorage}

theorem lockable_of_free {thread : ℕ} {w : LockWord} (hw : WordWf w)
    (h : ¬ (w.1 ≠ 0 ∧ w.1 ≠ thread)) : Lockable thread w := by
  rcases hw with h0 | ⟨hne, hpos⟩
  · exact Or.inl h0
  · refine Or.inr ⟨?_, hpos⟩
    by_contra hne'
    exact h ⟨hne, hne'⟩

theorem free_of_lockable {thread : ℕ} {w : LockWord} (h : Lockable thread w) :
    ¬ (w.1 ≠ 0 ∧ w.1 ≠ thread) := by
  rcases h with h0 | ⟨h1, -⟩
  · rw [h0]
    simp
  · exact fun hw => hw.2 h1

theorem Holds.lockStep (h : Holds env.thread L as st) {a : ScAddr} {seg : ScSegment}
    (hn : st.segments a.seg.toNat = some seg) (hoff : a.offset.toNat < 65535)
    (hfree : ¬ ((seg.lockWord (a.offset.toNat%32)).1 ≠ 0 ∧
      (seg.lockWord (a.offset.toNat%32)).1 ≠ env.thread)) :
    Holds env.thread L (a :: as) (st.setSegment a.seg.toNat
      (seg.setLock (a.offset.toNat%32)
        (env.thread, (seg.lockWord (a.offset.toNat%32)).2+1))) := by
  have hwf := h.wf_now env.thread_ne (a.seg.toNat, a.offset.toNat%32)
  rw [locks_of_segment hn] at hwf
  exact h.acquire hn hoff (lockable_of_free hwf hfree) (lockWord_setLock seg _ _) rfl
    ((h.segs.range _ seg hn).setLock _ _)

/-- Locking an element stops only on a bad offset or at a section of another thread. -/
theorem elementLock_wp (h : Holds env.thread L as st) (a : ScAddr) :
    Wp (scStorageElementLock env a)
      (fun r st' => st'.unlocked = st.unlocked ∧ (r = true ↔ Loaded st a) ∧
        Holds env.thread L (if r then a :: as else as) st')
      (fun _ => 65535 ≤ a.offset.toNat ∨ ¬ Lockable env.thread (L a.key)) st := by
  unfold Wp scStorageElementLock
  cases hs : st.segmentOf a with
  | none => exact ⟨rfl, by simp [Loaded, hs], h⟩
  | some seg =>
    have hn : st.segments a.seg.toNat = some seg := by rw [← h.segs.segmentOf]; exact hs
    simp only [lockElement_eq]
    by_cases hoff : 65535 ≤ a.offset.toNat
    · rw [if_pos hoff]
      exact Or.inl hoff
    rw [if_neg hoff]
    by_cases hfree : (seg.lockWord (a.offset.toNat%32)).1 ≠ 0 ∧
        (seg.lockWord (a.offset.toNat%32)).1 ≠ env.thread
    · rw [if_pos hfree]
      refine Or.inr fun hl => ?_
      have hl' := h.lockable_now a.key hl
      rw [ScAddr.key, locks_of_segment hn] at hl'
      exact free_of_lockable hl' hfree
    · rw [if_neg hfree]
      refine ⟨unlocked_setSegment hn (unlocked_setLock seg _ _), ?_, ?_⟩
      · simp only [true_iff]
        exact ⟨⟨seg, hs⟩, not_le.mp hoff⟩
      · exact h.lockStep hn (not_le.mp hoff) hfree

theorem elementLockTry_wp (h : Holds env.thread L as st) (a : ScAddr) :
    Wp (scStorageElementLockTry env a)
      (fun r st' => st'.unlocked = st.unlocked ∧
        (r = true ↔ Loaded st a ∧ Lockable env.thread (L a.key)) ∧
        Holds env.thread L (if r then a :: as else as) st')
      (fun _ => 65535 ≤ a.offset.toNat) st := by
  unfold Wp scStorageElementLockTry
  cases hs : st.segmentOf a with
  | none => exact ⟨rfl, by simp [Loaded, hs], h⟩
  | some seg =>
    have hn : st.segments a.seg.toNat = some seg := by rw [← h.segs.segmentOf]; exact hs
    simp only [lockElementTry_eq]
    by_cases hoff : 65535 ≤ a.offset.toNat
    · rw [if_pos hoff]
      exact hoff
    rw [if_neg hoff]
    have hnow : st.locks a.key = seg.lockWord (a.offset.toNat%32) := locks_of_segment hn _
    by_cases hfree : (seg.lockWord (a.offset.toNat%32)).1 ≠ 0 ∧
        (seg.lockWord (a.offset.toNat%32)).1 ≠ env.thread
    · rw [if_pos hfree]
      refine ⟨unlocked_setSegment hn rfl, ?_, h.setSegment hn rfl rfl (h.segs.range _ seg hn)⟩
      simp only [Bool.false_eq_true, false_iff, not_and]
      intro _ hl
      have hl' := h.lockable_now a.key hl
      rw [hnow] at hl'
      exact free_of_lockable hl' hfree
    · rw [if_neg hfree]
      refine ⟨unlocked_setSegment hn (unlocked_setLock seg _ _), ?_, ?_⟩
      · simp only [true_iff]
        refine ⟨⟨⟨seg, hs⟩, not_le.mp hoff⟩, h.lockable_of_now a.key ?_⟩
        have hwf := h.wf_now env.thread_ne a.key
        rw [hnow] at hwf ⊢
        exact lockable_of_free hwf hfree
      · exact h.lockStep hn (not_le.mp hoff) hfree

/-- An element that the thread holds can be unlocked. -/
theorem elementUnlock_wp {a : ScAddr} (h : Holds env.thread L (a :: as) st) (E : ScStop → Prop) :
    Wp (scStorageElementUnlock env a)
      (fun _ st' => st'.unlocked = st.unlocked ∧ Holds env.thread L as st') E st := by
  obtain ⟨⟨seg, hs⟩, hoff⟩ := h.loaded a List.mem_cons_self
  have hn : st.segments a.seg.toNat = some seg := by rw [← h.segs.segmentOf]; exact hs
  have hnow : st.locks a.key = seg.lockWord (a.offset.toNat%32) := locks_of_segment hn _
  have howner : (seg.lockWord (a.offset.toNat%32)).1 = env.thread := by
    rw [← hnow, h.locks]
    simp [addLocks]
  unfold Wp scStorageElementUnlock
  rw [hs]
  simp only [unlockElement_eq]
  rw [if_neg (not_le.mpr hoff), if_neg (not_not.mpr howner)]
  refine ⟨unlocked_setSegment hn (unlocked_setLock seg _ _), ?_⟩
  exact h.release hn (lockWord_setLock seg _ _) rfl ((h.segs.range _ seg hn).setLock _ _)

end

end ScMachine.Store
