import ScMachine.SegmentSoundness

/-! The counters of a segment. Every operation moves `elements_count` and one `empty_count` in
opposite directions, so their sum is fixed by `sc_segment_new`; and it is one too large. -/
namespace ScMachine.Store
open ScMachine.Runs

/-- The free cells that section `s` can hand out. -/
def freeUsable (seg : ScSegment) (s : ℕ) : Finset ℕ :=
  (Finset.range 65535).filter
    (fun o => o%32 = s ∧ ¬ (seg.num = 0 ∧ o = 0) ∧ (seg.elements o).type = 0)

def occupiedCells (seg : ScSegment) : Finset ℕ :=
  (Finset.range 65535).filter (fun o => (seg.elements o).type ≠ 0)

structure CountersAccurate (seg : ScSegment) : Prop where
  emptyCount : ∀ s < 32, (seg.sections s).emptyCount = (freeUsable seg s).card
  elementsCount : seg.elementsCount = (occupiedCells seg).card

/-- `elements_count` and the `empty_count` of all sections together. -/
def counterTotal (seg : ScSegment) : ℤ :=
  seg.elementsCount+∑ s ∈ Finset.range 32, (seg.sections s).emptyCount

theorem counterTotal_updateSection (seg : ScSegment) (s : ℕ) (sec : ScSegmentSection)
    (elements : ℕ → ScElement) (count : ℤ) (hs : s < 32) :
    counterTotal { seg with
      elements := elements
      elementsCount := count
      sections := Function.update seg.sections s sec } =
    counterTotal seg+(count-seg.elementsCount)+(sec.emptyCount-(seg.sections s).emptyCount) := by
  have hmem : s ∈ Finset.range 32 := Finset.mem_range.mpr hs
  have hsum : ∑ t ∈ Finset.range 32, (Function.update seg.sections s sec t).emptyCount =
      sec.emptyCount+∑ t ∈ Finset.range 32 \ {s}, (seg.sections t).emptyCount := by
    rw [← Finset.sum_sdiff (Finset.singleton_subset_iff.mpr hmem), Finset.sum_singleton,
      Function.update_self, add_comm]
    congr 1
    apply Finset.sum_congr rfl
    intro t ht
    have hts : t ≠ s := fun h => (Finset.mem_sdiff.mp ht).2 (Finset.mem_singleton.mpr h)
    rw [Function.update_of_ne hts]
  have hold : ∑ t ∈ Finset.range 32, (seg.sections t).emptyCount =
      (seg.sections s).emptyCount+∑ t ∈ Finset.range 32 \ {s}, (seg.sections t).emptyCount := by
    rw [← Finset.sum_sdiff (Finset.singleton_subset_iff.mpr hmem), Finset.sum_singleton, add_comm]
  simp only [counterTotal, hsum, hold]
  ring

theorem visitSection_counterTotal (thread ctxId i : ℕ) (seg : ScSegment) (c : ℤ)
    (h : counterTotal seg = c) :
    SearchPost (fun seg' => counterTotal seg' = c) (fun _ seg' => counterTotal seg' = c) True
      (visitSection thread ctxId i seg) := by
  have hs : (ctxId+i)%32 < 32 := Nat.mod_lt _ (by omega)
  rw [visitSection_eq]
  simp only
  split_ifs
  · exact h
  · exact (counterTotal_updateSection seg _ _ _ _ hs).trans
      (by simp only [ScSegmentSection.released]; omega)
  · trivial
  · split
    · split_ifs
      · exact (counterTotal_updateSection seg _ _ _ _ hs).trans (by simp only; omega)
      · trivial
    · exact (counterTotal_updateSection seg _ _ _ _ hs).trans (by simp only; omega)

theorem lockEmptyElement_counterTotal (thread ctxId : ℕ) (seg seg' : ScSegment) (r : Option ℕ)
    (h : scSegmentLockEmptyElement thread ctxId seg = .ok (r, seg')) :
    counterTotal seg' = counterTotal seg := by
  have hpost := lockEmptyElement_post thread ctxId (fun s => counterTotal s = counterTotal seg)
    (fun _ s => counterTotal s = counterTotal seg) True
    (fun i s _ hs => visitSection_counterTotal thread ctxId i s _ hs) seg rfl
  rw [h] at hpost
  cases r with
  | none => exact hpost
  | some offset => exact hpost

theorem segStep_counterTotal (seg : ScSegment) (e : SegEvent) (seg' : ScSegment)
    (hs : SegStep seg e seg') : counterTotal seg' = counterTotal seg := by
  have hlock (s : ℕ) (sec : ScSegmentSection)
      (hsec : sec.emptyCount = (seg.sections s).emptyCount) :
      counterTotal { seg with sections := Function.update seg.sections s sec } =
        counterTotal seg := by
    by_cases hs : s < 32
    · exact (counterTotal_updateSection seg s sec _ _ hs).trans (by omega)
    · unfold counterTotal
      congr 1
      apply Finset.sum_congr rfl
      intro t ht
      have hts : t ≠ s := by rw [Finset.mem_range] at ht; omega
      simp only [Function.update_of_ne hts]
  cases hs with
  | allocate seg1 thread ctxId offset cell _ hl =>
    exact lockEmptyElement_counterTotal thread ctxId seg seg1 _ hl
  | refuse _ thread ctxId hl => exact lockEmptyElement_counterTotal thread ctxId seg seg' _ hl
  | erase _ offset _ he =>
    obtain ⟨_, _, rfl⟩ := eraseElement_ok seg seg' offset he
    exact (counterTotal_updateSection seg (offset%32) _ _ _ (Nat.mod_lt _ (by omega))).trans
      (by simp only; omega)
  | lock thread s sec hl =>
    obtain ⟨_, rfl⟩ := sectionLock_ok thread _ _ hl
    exact hlock s _ rfl
  | unlock thread s sec hl =>
    obtain ⟨_, rfl⟩ := sectionUnlock_ok thread _ _ hl
    exact hlock s _ rfl

/-- The number of cells that a segment with this number can hand out. -/
def usableCells (num : ℕ) : ℕ := if num = 0 then 65534 else 65535

/-- `sc_segment_new` gives every section 2048 cells, also the last one, which has 2047. -/
theorem segmentNew_counterTotal (num : ℕ) :
    counterTotal (scSegmentNew num) = usableCells num+1 := by
  have hrest : ∑ s ∈ Finset.range 31, ((scSegmentNew num).sections (s+1)).emptyCount =
      ∑ _s ∈ Finset.range 31, (2048 : ℤ) := by
    apply Finset.sum_congr rfl
    intro s hs
    have hle : 65504+(s+1) ≤ 65535 := by rw [Finset.mem_range] at hs; omega
    simp only [scSegmentNew, scSegmentElementsCount, scConcurrencyLevel]
    simp [hle]
  unfold counterTotal
  rw [Finset.sum_range_succ', hrest]
  by_cases hn : num = 0 <;>
    simp [scSegmentNew, scSegmentElementsCount, scConcurrencyLevel, usableCells, hn]

/-- Cell 0 of segment 0 is never handed out. -/
theorem segRun_new_cell_zero (num : ℕ) (evs : List SegEvent) (seg : ScSegment)
    (hr : SegRun (scSegmentNew num) evs seg) :
    seg.num = num ∧ (num = 0 → (seg.elements 0).type = 0) := by
  have hall : HolesOk seg ∧ seg.num = num ∧ (num = 0 → (seg.elements 0).type = 0) := by
    apply run_invariant
      (fun s => HolesOk s ∧ s.num = num ∧ (num = 0 → (s.elements 0).type = 0)) _ evs _ _
      ⟨segmentNew_holesOk num, rfl, fun _ => rfl⟩ hr
    rintro a e b ⟨ha, hnum, hzero⟩ hs
    refine ⟨segStep_holes a e b ha hs, ?_⟩
    cases hs with
    | allocate seg1 thread ctxId offset cell _ hl =>
      have hpost := lockEmptyElement_holes thread ctxId a ha
      rw [hl] at hpost
      obtain ⟨_, hsame, hout⟩ := hpost
      refine ⟨hsame.num.trans hnum, fun h0 => ?_⟩
      have hoff : (0 : ℕ) ≠ offset := by
        have := hout.notEmptyAddr
        omega
      simpa only [Function.update_of_ne hoff, hsame.elements] using hzero h0
    | refuse _ thread ctxId hl =>
      have hpost := lockEmptyElement_holes thread ctxId a ha
      rw [hl] at hpost
      exact ⟨hpost.2.num.trans hnum, by simpa only [hpost.2.elements] using hzero⟩
    | erase _ offset _ he =>
      obtain ⟨_, haddr, rfl⟩ := eraseElement_ok a b offset he
      refine ⟨hnum, fun h0 => ?_⟩
      have hoff : (0 : ℕ) ≠ offset := by omega
      simpa only [Function.update_of_ne hoff] using hzero h0
    | lock _ _ _ _ => exact ⟨hnum, hzero⟩
    | unlock _ _ _ _ => exact ⟨hnum, hzero⟩
  exact hall.2

/-- Every usable cell is counted once, as occupied or as free in its section. -/
theorem occupied_add_free (seg : ScSegment)
    (hzero : seg.num = 0 → (seg.elements 0).type = 0) :
    (occupiedCells seg).card+∑ s ∈ Finset.range 32, (freeUsable seg s).card =
      usableCells seg.num := by
  let free := (Finset.range 65535).filter
    (fun o => ¬ (seg.num = 0 ∧ o = 0) ∧ (seg.elements o).type = 0)
  have hfree : ∑ s ∈ Finset.range 32, (freeUsable seg s).card = free.card := by
    have hmap : ∀ o ∈ free, o%32 ∈ Finset.range 32 := fun o _ =>
      Finset.mem_range.mpr (Nat.mod_lt _ (by omega))
    rw [Finset.card_eq_sum_card_fiberwise hmap]
    apply Finset.sum_congr rfl
    intro s _
    apply congrArg Finset.card
    ext o
    simp only [freeUsable, free, Finset.mem_filter]
    constructor
    · rintro ⟨ho, hmod, hne, ht⟩
      exact ⟨⟨ho, hne, ht⟩, hmod⟩
    · rintro ⟨⟨ho, hne, ht⟩, hmod⟩
      exact ⟨ho, hmod, hne, ht⟩
  have hdisj : Disjoint (occupiedCells seg) free := by
    rw [Finset.disjoint_left]
    intro o ho hf
    exact (Finset.mem_filter.mp ho).2 (Finset.mem_filter.mp hf).2.2
  have hunion : occupiedCells seg ∪ free =
      (Finset.range 65535).filter (fun o => ¬ (seg.num = 0 ∧ o = 0)) := by
    ext o
    simp only [occupiedCells, free, Finset.mem_union, Finset.mem_filter]
    constructor
    · rintro (⟨ho, hocc⟩ | ⟨ho, hne, _⟩)
      · refine ⟨ho, ?_⟩
        rintro ⟨hnum, rfl⟩
        exact hocc (hzero hnum)
      · exact ⟨ho, hne⟩
    · rintro ⟨ho, hne⟩
      by_cases ht : (seg.elements o).type = 0
      · exact Or.inr ⟨ho, hne, ht⟩
      · exact Or.inl ⟨ho, ht⟩
  rw [hfree, ← Finset.card_union_of_disjoint hdisj, hunion]
  by_cases hn : seg.num = 0
  · have hone : (Finset.range 65535).filter (fun o => ¬ (seg.num = 0 ∧ o = 0)) =
        Finset.range 65535 \ {0} := by
      ext o
      simp [hn]
    rw [hone, Finset.card_sdiff_of_subset (by simp), Finset.card_range, Finset.card_singleton]
    simp [usableCells, hn]
  · have hall : (Finset.range 65535).filter (fun o => ¬ (seg.num = 0 ∧ o = 0)) =
        Finset.range 65535 := Finset.filter_true_of_mem (fun o _ h => hn h.1)
    rw [hall, Finset.card_range]
    simp [usableCells, hn]

/-- In no state of any run of a new segment are all counters right: the section counts and
`elements_count` always add up to one more than there are usable cells. -/
theorem segment_counters_never_accurate (num : ℕ) (evs : List SegEvent) (seg : ScSegment)
    (hr : SegRun (scSegmentNew num) evs seg) : ¬ CountersAccurate seg := by
  intro h
  obtain ⟨hnum, hzero⟩ := segRun_new_cell_zero num evs seg hr
  have htotal : counterTotal seg = usableCells num+1 := by
    apply run_invariant (fun s => counterTotal s = usableCells num+1) _ evs _ _
      (segmentNew_counterTotal num) hr
    intro a e b ha hs
    rw [segStep_counterTotal a e b hs, ha]
  have hcells := occupied_add_free seg (by rw [hnum]; exact hzero)
  have hsum : ∑ s ∈ Finset.range 32, (seg.sections s).emptyCount =
      ∑ s ∈ Finset.range 32, ((freeUsable seg s).card : ℤ) := by
    apply Finset.sum_congr rfl
    intro s hs
    exact h.emptyCount s (Finset.mem_range.mp hs)
  rw [counterTotal, h.elementsCount, hsum, ← Nat.cast_sum] at htotal
  rw [hnum] at hcells
  omega

theorem segment_counters_never_accurate_two_nodes : ¬ CountersAccurate segmentWithTwoNodes :=
  segment_counters_never_accurate 0 _ _ segRun_two_nodes

/-- Section 31 of a new segment claims 2048 free cells and has 2047. -/
theorem segment_new_section_31_miscounted :
    SegRun (scSegmentNew 1) [] (scSegmentNew 1) ∧
      ((scSegmentNew 1).sections 31).emptyCount = 2048 ∧
      (freeUsable (scSegmentNew 1) 31).card = 2047 ∧ ¬ CountersAccurate (scSegmentNew 1) := by
  have hcount : ((scSegmentNew 1).sections 31).emptyCount = 2048 := by decide
  have hcells : (freeUsable (scSegmentNew 1) 31).card = 2047 := by
    have himage : freeUsable (scSegmentNew 1) 31 =
        (Finset.range 2047).image (fun k => 32*k+31) := by
      ext o
      simp only [freeUsable, Finset.mem_filter, Finset.mem_image, Finset.mem_range]
      constructor
      · rintro ⟨ho, hmod, _⟩
        exact ⟨o/32, by omega, by omega⟩
      · rintro ⟨k, hk, rfl⟩
        refine ⟨by omega, by omega, ?_, rfl⟩
        simp [scSegmentNew]
    rw [himage, Finset.card_image_of_injective _ (fun a b h => by simpa using h),
      Finset.card_range]
  refine ⟨rfl, hcount, hcells, ?_⟩
  intro h
  have := h.emptyCount 31 (by omega)
  rw [hcount, hcells] at this
  exact absurd this (by decide)

end ScMachine.Store
