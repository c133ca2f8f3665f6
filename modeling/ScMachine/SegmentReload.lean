import ScMachine.SegmentSearch

/-! Reloaded segments, and when a segment with a free cell hands one out. -/
namespace ScMachine.Store
open ScMachine.Runs

/-- A segment as `sc_fs_storage_read_from_path` builds it from an array of cells. -/
def loadedSegment (num : ℕ) (cells : ℕ → ScElement) : ScSegment :=
  scSegmentLoaded { scSegmentNew num with elements := cells }

theorem loadSection_offset (elements : ℕ → ScElement) (fuel idx : ℕ) (sec : ScSegmentSection)
    (occupied : ℤ) :
    let r := (loadSection elements fuel idx (sec, occupied)).1
    r.threadLock = sec.threadLock ∧
      (r.emptyOffset = sec.emptyOffset ∨
        (idx : ℤ) ≤ r.emptyOffset ∧ r.emptyOffset < 65535 ∧ r.emptyOffset%32 = (idx : ℤ)%32) := by
  induction fuel generalizing idx sec occupied with
  | zero => exact ⟨rfl, Or.inl rfl⟩
  | succ fuel ih =>
    simp only [loadSection, scSegmentElementsCount, scConcurrencyLevel]
    split_ifs with hidx ht
    · obtain ⟨hlock, hoff⟩ := ih (idx+32)
        { sec with emptyCount := sec.emptyCount+1, emptyOffset := idx } occupied
      refine ⟨hlock, Or.inr ?_⟩
      simp only at hoff
      push_cast at hoff
      omega
    · obtain ⟨hlock, hoff⟩ := ih (idx+32) sec (occupied+1)
      refine ⟨hlock, ?_⟩
      push_cast at hoff
      omega
    · exact ⟨rfl, Or.inl rfl⟩

/-- The walk overwrites the hole at every free cell, so the last one stays. -/
theorem loadSection_last (elements : ℕ → ScElement) (fuel idx : ℕ) (sec : ScSegmentSection)
    (occupied : ℤ) (hfuel : 65535 ≤ idx+32*fuel) (o : ℕ) (ho : idx ≤ o) (hlt : o < 65535)
    (hmod : o%32 = idx%32) (ht : (elements o).type = 0) :
    (o : ℤ) ≤ (loadSection elements fuel idx (sec, occupied)).1.emptyOffset := by
  induction fuel generalizing idx sec occupied with
  | zero => omega
  | succ fuel ih =>
    simp only [loadSection, scSegmentElementsCount, scConcurrencyLevel]
    rw [if_pos (by omega)]
    by_cases he : o = idx
    · subst he
      rw [if_pos ht]
      have hoff := (loadSection_offset elements fuel (o+32)
        { sec with emptyCount := sec.emptyCount+1, emptyOffset := o } occupied).2
      simp only at hoff
      push_cast at hoff
      omega
    · split_ifs
      · exact ih (idx+32) _ _ (by omega) (by omega) (by omega)
      · exact ih (idx+32) _ _ (by omega) (by omega) (by omega)

theorem loadSections_section (seg : ScSegment) (n s : ℕ) (hs : s < n) :
    ∃ occupied, (loadSections seg n).sections s =
      (loadSection seg.elements 65535 s ({ seg.sections s with emptyCount := 0 }, occupied)).1 := by
  induction n with
  | zero => omega
  | succ n ih =>
    simp only [loadSections, scSegmentElementsCount]
    by_cases hsn : s = n
    · subst hsn
      exact ⟨(loadSections seg s).elementsCount, by rw [Function.update_self]⟩
    · obtain ⟨occupied, ho⟩ := ih (by omega)
      exact ⟨occupied, by rw [Function.update_of_ne hsn, ho]⟩

theorem loadSections_cells (seg : ScSegment) (n : ℕ) :
    (loadSections seg n).elements = seg.elements ∧ (loadSections seg n).num = seg.num := by
  induction n with
  | zero => exact ⟨rfl, rfl⟩
  | succ n ih => exact ih

theorem loadedSegment_elements (num : ℕ) (cells : ℕ → ScElement) :
    (loadedSegment num cells).elements = cells ∧ (loadedSegment num cells).num = num := by
  simp only [loadedSegment, scSegmentLoaded]
  rw [(loadSections_cells _ _).1, (loadSections_cells _ _).2]
  exact ⟨rfl, rfl⟩

theorem loadedSegment_section (num : ℕ) (cells : ℕ → ScElement) (s : ℕ) (hs : s < 32) :
    ∃ occupied, (loadedSegment num cells).sections s = (loadSection cells 65535 s
      ({ (scSegmentNew num).sections s with emptyCount := 0 }, occupied)).1 := by
  simp only [loadedSegment, scSegmentLoaded]
  exact loadSections_section { scSegmentNew num with elements := cells } 32 s hs

theorem segmentNew_range (num : ℕ) : HolesInRange (scSegmentNew num) := by
  intro s hs
  have h := segmentNew_holesOk num s hs
  exact ⟨h.nonneg, h.lt, h.mod⟩

theorem loadedSegment_range (num : ℕ) (cells : ℕ → ScElement) :
    HolesInRange (loadedSegment num cells) := by
  intro s hs
  obtain ⟨occupied, ho⟩ := loadedSegment_section num cells s hs
  have hoff := (loadSection_offset cells 65535 s
    { (scSegmentNew num).sections s with emptyCount := 0 } occupied).2
  have hnew := segmentNew_range num s hs
  rw [← ho] at hoff
  simp only at hoff
  omega

theorem loadedSegment_unlocked (num : ℕ) (cells : ℕ → ScElement) (thread : ℕ) :
    NoContention thread (loadedSegment num cells) := by
  intro s hs
  obtain ⟨occupied, ho⟩ := loadedSegment_section num cells s hs
  have hlock := (loadSection_offset cells 65535 s
    { (scSegmentNew num).sections s with emptyCount := 0 } occupied).1
  left
  rw [ho, hlock]
  by_cases h0 : s = 0
  · subst h0
    by_cases hn : num = 0 <;> simp [scSegmentNew, hn]
  · simp [scSegmentNew, Function.update_of_ne h0]

/-- A reloaded segment other than segment 0 remembers the last free cell of each section, so no
search in it ever finds a second hole. -/
theorem loadedSegment_yields_nothing (num : ℕ) (cells : ℕ → ScElement) (hn : num ≠ 0)
    (i s : ℕ) (hs : s < 32) : ¬ SectionYields (loadedSegment num cells) i s := by
  rintro ⟨_, j, ⟨hmod, ⟨hlt, hcount⟩ | ⟨_, hnum, _⟩⟩, hfree⟩
  · obtain ⟨h0, _, hmods⟩ := loadedSegment_range num cells s hs
    rw [(loadedSegment_elements num cells).1] at hfree
    obtain ⟨occupied, ho⟩ := loadedSegment_section num cells s hs
    have hlast := loadSection_last cells 65535 s
      { (scSegmentNew num).sections s with emptyCount := 0 } occupied (by omega) j.toNat
      (by omega) (by omega) (by omega) hfree
    rw [← ho] at hlast
    omega
  · rw [(loadedSegment_elements num cells).2] at hnum
    exact hn hnum

/-- The states of a segment that was created or reloaded and then used by any threads. -/
def SegReachable (num : ℕ) (seg : ScSegment) : Prop :=
  ∃ start evs, (start = scSegmentNew num ∨ ∃ cells, start = loadedSegment num cells) ∧
    SegRun start evs seg

theorem segReachable_range (num : ℕ) (seg : ScSegment) (h : SegReachable num seg) :
    HolesInRange seg := by
  obtain ⟨start, evs, rfl | ⟨cells, rfl⟩, hr⟩ := h
  · exact run_invariant HolesInRange segStep_range evs _ _ (segmentNew_range num) hr
  · exact run_invariant HolesInRange segStep_range evs _ _ (loadedSegment_range num cells) hr

/-- For every reachable segment and every context without contention: a segment with a free
cell hands one out exactly when it still counts an empty slot and the search reaches a
second hole. -/
theorem free_cell_found_iff (num thread ctxId : ℕ) (seg : ScSegment) (hr : SegReachable num seg)
    (hfree : NoContention thread seg) :
    (HasFreeCell seg →
      ∃ offset seg', scSegmentLockEmptyElement thread ctxId seg = .ok (some offset, seg')) ↔
    (HasFreeCell seg → scSegmentHasEmptySlot seg = true ∧ SearchReaches seg ctxId) := by
  rw [lockEmptyElement_some_iff thread ctxId seg (segReachable_range num seg hr) hfree]

theorem free_cell_found_iff_two_nodes :
    NoContention 1 segmentWithTwoNodes ∧
      ((HasFreeCell segmentWithTwoNodes → ∃ offset seg',
        scSegmentLockEmptyElement 1 1 segmentWithTwoNodes = .ok (some offset, seg')) ↔
      (HasFreeCell segmentWithTwoNodes → scSegmentHasEmptySlot segmentWithTwoNodes = true ∧
        SearchReaches segmentWithTwoNodes 1)) := by
  have hlock : NoContention 1 segmentWithTwoNodes := by
    unfold NoContention
    decide
  exact ⟨hlock, free_cell_found_iff 0 1 1 segmentWithTwoNodes
    ⟨_, _, Or.inl rfl, segRun_two_nodes⟩ hlock⟩

/-- Segment 1, reloaded with every cell free. -/
def reloadedFreeSegment : ScSegment := loadedSegment 1 (fun _ => ScElement.zero)

theorem reloaded_free_segment_refuses :
    SegReachable 1 reloadedFreeSegment ∧ NoContention 1 reloadedFreeSegment ∧
      HasFreeCell reloadedFreeSegment ∧
      ∃ seg', scSegmentLockEmptyElement 1 1 reloadedFreeSegment = .ok (none, seg') := by
  obtain ⟨hcells, hnum⟩ := loadedSegment_elements 1 (fun _ => ScElement.zero)
  have hlock := loadedSegment_unlocked 1 (fun _ => ScElement.zero) 1
  have hrange := loadedSegment_range 1 (fun _ => ScElement.zero)
  refine ⟨⟨reloadedFreeSegment, [], Or.inr ⟨_, rfl⟩, rfl⟩, hlock, ⟨1, by omega, by omega, ?_⟩, ?_⟩
  · rw [reloadedFreeSegment, hcells]
    rfl
  · have hyield (i : ℕ) (_ : i < 32) : ¬ SectionYields reloadedFreeSegment i ((1+i)%32) :=
      loadedSegment_yields_nothing 1 _ (by omega) i _ (Nat.mod_lt _ (by omega))
    have htrap (i : ℕ) (_ : i < 32) : ¬ SectionTraps reloadedFreeSegment ((1+i)%32) := by
      intro ht
      have hsum := ht.2
      have hoff := (hrange ((1+i)%32) (Nat.mod_lt _ (by omega))).1
      rw [reloadedFreeSegment, hnum] at hsum
      omega
    obtain ⟨seg', hnone, _⟩ := lockEmptyElement_none 1 1 reloadedFreeSegment hrange hlock hyield htrap
    exact ⟨seg', hnone⟩

end ScMachine.Store
