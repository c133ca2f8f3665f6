import ScMachine.SegmentReload
import ScMachine.SegmentCounters

/-! What `sc_segment_loaded` makes of an array of cells. It counts every free cell of a section,
also cell 0 of segment 0, which can never be handed out. -/
namespace ScMachine.Store

/-- The cells of the section of `idx` from `idx` on that satisfy `p`. -/
def sectionCells (p : ℕ → Prop) [DecidablePred p] (idx : ℕ) : Finset ℕ :=
  (Finset.range 65535).filter (fun o => (idx ≤ o ∧ o%32 = idx%32) ∧ p o)

theorem sectionCells_end (p : ℕ → Prop) [DecidablePred p] (idx : ℕ) (h : 65535 ≤ idx) :
    sectionCells p idx = ∅ := by
  apply Finset.filter_eq_empty_iff.mpr
  intro o ho hp
  have hlt := Finset.mem_range.mp ho
  have hle := hp.1.1
  omega

/-- One step of the walk takes the cell it stands on off the cells still to visit. -/
theorem sectionCells_step (p : ℕ → Prop) [DecidablePred p] (idx : ℕ) (h : idx < 65535) :
    (sectionCells p idx).card = (if p idx then 1 else 0)+(sectionCells p (idx+32)).card := by
  have hnot : idx ∉ sectionCells p (idx+32) := by
    intro hmem
    have hle := (Finset.mem_filter.mp hmem).2.1.1
    omega
  have hcells : sectionCells p idx =
      if p idx then insert idx (sectionCells p (idx+32)) else sectionCells p (idx+32) := by
    ext o
    by_cases ho : o = idx
    · subst ho
      by_cases hp : p o
      · simp [sectionCells, hp, h]
      · simp [sectionCells, hp]
    · have hnext : idx ≤ o ∧ o%32 = idx%32 ↔ idx+32 ≤ o ∧ o%32 = (idx+32)%32 := by omega
      by_cases hp : p idx <;> simp [sectionCells, hp, ho, hnext]
  rw [hcells]
  split_ifs
  · rw [Finset.card_insert_of_notMem hnot, add_comm]
  · rw [zero_add]

/-- Both counters of the walk over one section. -/
theorem loadSection_counts (elements : ℕ → ScElement) (fuel idx : ℕ) (sec : ScSegmentSection)
    (occupied : ℤ) (hfuel : 65535 ≤ idx+32*fuel) :
    let r := loadSection elements fuel idx (sec, occupied)
    r.1.emptyCount =
        sec.emptyCount+(sectionCells (fun o => (elements o).type = 0) idx).card ∧
      r.2 = occupied+(sectionCells (fun o => (elements o).type ≠ 0) idx).card := by
  induction fuel generalizing idx sec occupied with
  | zero =>
    rw [sectionCells_end _ idx (by omega), sectionCells_end _ idx (by omega)]
    simp [loadSection]
  | succ fuel ih =>
    simp only [loadSection, scSegmentElementsCount, scConcurrencyLevel]
    by_cases hidx : idx < 65535
    · rw [if_pos hidx, sectionCells_step _ idx hidx, sectionCells_step _ idx hidx]
      by_cases ht : (elements idx).type = 0
      · obtain ⟨hempty, hoccupied⟩ := ih (idx+32)
          { sec with emptyCount := sec.emptyCount+1, emptyOffset := idx } occupied (by omega)
        rw [if_pos ht, hempty, hoccupied, if_pos ht, if_neg (not_not_intro ht)]
        push_cast
        exact ⟨by ring, by ring⟩
      · obtain ⟨hempty, hoccupied⟩ := ih (idx+32) sec (occupied+1) (by omega)
        rw [if_neg ht, hempty, hoccupied, if_neg ht, if_pos ht]
        push_cast
        exact ⟨by ring, by ring⟩
    · rw [if_neg hidx, sectionCells_end _ idx (by omega), sectionCells_end _ idx (by omega)]
      simp

/-- The walk leaves the section alone when it meets no free cell; otherwise the hole it
remembers is one of those. -/
theorem loadSection_hole (elements : ℕ → ScElement) (fuel idx : ℕ) (sec : ScSegmentSection)
    (occupied : ℤ) :
    let r := (loadSection elements fuel idx (sec, occupied)).1
    r = sec ∨ ∃ o ∈ sectionCells (fun o => (elements o).type = 0) idx, r.emptyOffset = o := by
  induction fuel generalizing idx sec occupied with
  | zero => exact Or.inl rfl
  | succ fuel ih =>
    have hlater (o : ℕ) (ho : o ∈ sectionCells (fun o => (elements o).type = 0) (idx+32)) :
        o ∈ sectionCells (fun o => (elements o).type = 0) idx := by
      obtain ⟨hrange, ⟨hle, hmod⟩, ht⟩ := Finset.mem_filter.mp ho
      exact Finset.mem_filter.mpr ⟨hrange, ⟨by omega, by omega⟩, ht⟩
    simp only [loadSection, scSegmentElementsCount, scConcurrencyLevel]
    split_ifs with hidx ht
    · -- the walk remembers `idx`, and only a later free cell replaces it
      obtain hsame | ⟨o, ho, hoff⟩ := ih (idx+32)
        { sec with emptyCount := sec.emptyCount+1, emptyOffset := idx } occupied
      · have hmem : idx ∈ sectionCells (fun o => (elements o).type = 0) idx :=
          Finset.mem_filter.mpr ⟨Finset.mem_range.mpr hidx, ⟨le_rfl, rfl⟩, ht⟩
        exact Or.inr ⟨idx, hmem, by rw [hsame]⟩
      · exact Or.inr ⟨o, hlater o ho, hoff⟩
    · obtain hsame | ⟨o, ho, hoff⟩ := ih (idx+32) sec (occupied+1)
      · exact Or.inl hsame
      · exact Or.inr ⟨o, hlater o ho, hoff⟩
    · exact Or.inl rfl

theorem mem_sectionCells (p : ℕ → Prop) [DecidablePred p] (s o : ℕ) (hs : s < 32) :
    o ∈ sectionCells p s ↔ o < 65535 ∧ o%32 = s ∧ p o := by
  simp only [sectionCells, Finset.mem_filter, Finset.mem_range]
  constructor
  · rintro ⟨hlt, ⟨_, hmod⟩, hp⟩
    exact ⟨hlt, by omega, hp⟩
  · rintro ⟨hlt, hmod, hp⟩
    exact ⟨hlt, ⟨by omega, by omega⟩, hp⟩

theorem loadSections_count (seg : ScSegment) (n : ℕ) :
    (loadSections seg n).elementsCount =
      ∑ s ∈ Finset.range n, ((sectionCells (fun o => (seg.elements o).type ≠ 0) s).card : ℤ) := by
  induction n with
  | zero =>
    rw [Finset.range_zero, Finset.sum_empty]
    rfl
  | succ n ih =>
    have hcounts := loadSection_counts seg.elements 65535 n
      { seg.sections n with emptyCount := 0 } (loadSections seg n).elementsCount (by omega)
    simp only [loadSections, scSegmentElementsCount]
    rw [hcounts.2, ih, Finset.sum_range_succ]

/-- `elements_count` is the number of occupied cells. -/
theorem loadedSegment_elementsCount (num : ℕ) (cells : ℕ → ScElement) :
    (loadedSegment num cells).elementsCount = (occupiedCells (loadedSegment num cells)).card := by
  have hcells := (loadedSegment_elements num cells).1
  have hmap : ∀ o ∈ occupiedCells (loadedSegment num cells), o%32 ∈ Finset.range 32 :=
    fun o _ => Finset.mem_range.mpr (Nat.mod_lt _ (by omega))
  rw [Finset.card_eq_sum_card_fiberwise hmap]
  have hsum := loadSections_count { scSegmentNew num with elements := cells } 32
  simp only [loadedSegment, scSegmentLoaded, scConcurrencyLevel] at hcells ⊢
  rw [hsum]
  push_cast
  apply Finset.sum_congr rfl
  intro s hs
  apply congrArg (fun c : Finset ℕ => (c.card : ℤ))
  ext o
  rw [mem_sectionCells _ s o (Finset.mem_range.mp hs)]
  simp only [occupiedCells, hcells, Finset.mem_filter, Finset.mem_range]
  constructor
  · rintro ⟨hlt, hmod, ht⟩
    exact ⟨⟨hlt, ht⟩, hmod⟩
  · rintro ⟨⟨hlt, ht⟩, hmod⟩
    exact ⟨hlt, hmod, ht⟩

/-- `empty_count` is the number of free cells, the reserved one included. -/
theorem loadedSegment_emptyCount (num : ℕ) (cells : ℕ → ScElement) (s : ℕ) (hs : s < 32) :
    ((loadedSegment num cells).sections s).emptyCount =
      (sectionCells (fun o => (cells o).type = 0) s).card := by
  obtain ⟨occupied, ho⟩ := loadedSegment_section num cells s hs
  have hcounts := loadSection_counts cells 65535 s
    { (scSegmentNew num).sections s with emptyCount := 0 } occupied (by omega)
  rw [ho, hcounts.1, zero_add]

/-- The section counts are right exactly in the segments without the reserved cell. -/
theorem loadedSegment_counters_iff (num : ℕ) (cells : ℕ → ScElement)
    (hzero : num = 0 → (cells 0).type = 0) :
    CountersAccurate (loadedSegment num cells) ↔ num ≠ 0 := by
  obtain ⟨hcells, hnum⟩ := loadedSegment_elements num cells
  constructor
  · rintro h rfl
    have hmem : 0 ∈ sectionCells (fun o => (cells o).type = 0) 0 :=
      (mem_sectionCells _ 0 0 (by omega)).mpr ⟨by omega, rfl, hzero rfl⟩
    have husable : freeUsable (loadedSegment 0 cells) 0 =
        (sectionCells (fun o => (cells o).type = 0) 0).erase 0 := by
      ext o
      rw [Finset.mem_erase, mem_sectionCells _ 0 o (by omega)]
      simp only [freeUsable, hcells, hnum, Finset.mem_filter, Finset.mem_range]
      constructor
      · rintro ⟨hlt, hmod, hne, ht⟩
        exact ⟨fun ho => hne ⟨trivial, ho⟩, hlt, hmod, ht⟩
      · rintro ⟨hne, hlt, hmod, ht⟩
        exact ⟨hlt, hmod, fun h0 => hne h0.2, ht⟩
    have hcount := h.emptyCount 0 (by omega)
    rw [loadedSegment_emptyCount 0 cells 0 (by omega), husable] at hcount
    have hcard := Finset.card_erase_lt_of_mem hmem
    omega
  · intro hn
    refine ⟨fun s hs => ?_, loadedSegment_elementsCount num cells⟩
    rw [loadedSegment_emptyCount num cells s hs]
    apply congrArg (fun c : Finset ℕ => (c.card : ℤ))
    ext o
    rw [mem_sectionCells _ s o hs]
    simp only [freeUsable, hcells, hnum, Finset.mem_filter, Finset.mem_range]
    constructor
    · rintro ⟨hlt, hmod, ht⟩
      exact ⟨hlt, hmod, fun h0 => hn h0.1, ht⟩
    · rintro ⟨hlt, hmod, _, ht⟩
      exact ⟨hlt, hmod, ht⟩

/-- A section that counts free cells remembers one of them. -/
theorem loadedSegment_hole (num : ℕ) (cells : ℕ → ScElement) (s : ℕ) (hs : s < 32)
    (hcount : 0 < ((loadedSegment num cells).sections s).emptyCount) :
    ∃ o, ((loadedSegment num cells).sections s).emptyOffset = (o : ℕ) ∧
      o < 65535 ∧ o%32 = s ∧ (cells o).type = 0 := by
  obtain ⟨occupied, ho⟩ := loadedSegment_section num cells s hs
  obtain hsame | ⟨o, hmem, hoff⟩ := loadSection_hole cells 65535 s
    { (scSegmentNew num).sections s with emptyCount := 0 } occupied
  · rw [ho, hsame] at hcount
    exact absurd hcount (lt_irrefl 0)
  · exact ⟨o, by rw [ho, hoff], (mem_sectionCells _ s o hs).mp hmem⟩

/-- All cells of section 0 but the reserved one are occupied. -/
def ReservedSectionFull (cells : ℕ → ScElement) : Prop :=
  ∀ o < 65535, o%32 = 0 → o ≠ 0 → (cells o).type ≠ 0

/-- The only hole that is the empty address is the one of section 0 of segment 0, when that
section has no other free cell. -/
theorem loadedSegment_traps_iff (num : ℕ) (cells : ℕ → ScElement)
    (hzero : num = 0 → (cells 0).type = 0) (s : ℕ) (hs : s < 32) :
    SectionTraps (loadedSegment num cells) s ↔ s = 0 ∧ num = 0 ∧ ReservedSectionFull cells := by
  obtain ⟨hcells, hnum⟩ := loadedSegment_elements num cells
  constructor
  · rintro ⟨hcount, hsum⟩
    obtain ⟨o, hoff, _, hmod, _⟩ := loadedSegment_hole num cells s hs hcount
    rw [hnum] at hsum
    have hs0 : s = 0 := by omega
    refine ⟨hs0, by omega, fun k hk hkmod hk0 ht => ?_⟩
    obtain ⟨occupied, ho⟩ := loadedSegment_section num cells s hs
    have hlast := loadSection_last cells 65535 s
      { (scSegmentNew num).sections s with emptyCount := 0 } occupied (by omega) k
      (by omega) hk (by omega) ht
    rw [← ho] at hlast
    omega
  · rintro ⟨rfl, rfl, hfull⟩
    have hmem : 0 ∈ sectionCells (fun o => (cells o).type = 0) 0 :=
      (mem_sectionCells _ 0 0 (by omega)).mpr ⟨by omega, rfl, hzero rfl⟩
    have hcount : 0 < ((loadedSegment 0 cells).sections 0).emptyCount := by
      rw [loadedSegment_emptyCount 0 cells 0 (by omega)]
      exact_mod_cast Finset.card_pos.mpr ⟨0, hmem⟩
    obtain ⟨o, hoff, hlt, hmod, ht⟩ := loadedSegment_hole 0 cells 0 (by omega) hcount
    have ho : o = 0 := by
      by_contra hne
      exact hfull o hlt hmod hne ht
    exact ⟨hcount, by rw [hnum, hoff, ho]; rfl⟩

/-- Where no section remembers the empty address, the assertions of the search hold. -/
theorem lockEmptyElement_returns_of_noTrap (thread ctxId : ℕ) (seg : ScSegment) (h : HolesInRange seg)
    (ht : ∀ s < 32, ¬ SectionTraps seg s) :
    ∃ r, scSegmentLockEmptyElement thread ctxId seg = .ok r := by
  let P (seg' : ScSegment) : Prop := HolesInRange seg' ∧ ∀ s < 32, ¬ SectionTraps seg' s
  have hvisit (i : ℕ) (seg' : ScSegment) (hP : P seg') :
      SearchPost P (fun _ _ => True) False (visitSection thread ctxId i seg') := by
    have hs : (ctxId+i)%32 < 32 := Nat.mod_lt _ (by omega)
    obtain ⟨hnonneg, hlt, hmod⟩ := hP.1 _ hs
    have hsame (sec : ScSegmentSection) (count : ℤ)
        (hoff : sec.emptyOffset = (seg'.sections ((ctxId+i)%32)).emptyOffset)
        (hle : sec.emptyCount ≤ (seg'.sections ((ctxId+i)%32)).emptyCount) :
        P { seg' with
          elementsCount := count
          sections := Function.update seg'.sections ((ctxId+i)%32) sec } := by
      refine ⟨hP.1.updateSection _ _ _ _ (fun _ => by omega), fun s hs' htrap => ?_⟩
      obtain ⟨hcount, hsum⟩ := htrap
      by_cases hst : s = (ctxId+i)%32
      · subst hst
        simp only [Function.update_self] at hcount hsum
        exact hP.2 _ hs ⟨by omega, by omega⟩
      · simp only [Function.update_of_ne hst] at hcount hsum
        exact hP.2 s hs' ⟨hcount, hsum⟩
    rw [visitSection_eq]
    simp only
    split_ifs with hskip hempty hbad
    · exact hP
    · exact hsame _ _ rfl le_rfl
    · have htrap := hP.2 _ hs
      unfold SectionTraps at htrap
      omega
    · split
      · rename_i j hj
        obtain ⟨⟨_, hrange⟩, _⟩ := nextHole_some _ _ _ _ hj
        rw [if_pos (by omega)]
        trivial
      · exact hsame _ _ rfl (by simp only; omega)
  have hpost := lockEmptyElement_post thread ctxId P (fun _ _ => True) False
    (fun i seg' _ hP => hvisit i seg' hP) seg ⟨h, ht⟩
  cases hr : scSegmentLockEmptyElement thread ctxId seg with
  | ok r => exact ⟨r, rfl⟩
  | error e =>
    rw [hr] at hpost
    exact hpost.elim

/-- A search that starts in a section with the empty address as its hole fails there. -/
theorem reloadedSegment_traps (thread num : ℕ) (cells : ℕ → ScElement)
    (htrap : SectionTraps (loadedSegment num cells) 0)
    (hslot : scSegmentHasEmptySlot (loadedSegment num cells) = true) :
    scSegmentLockEmptyElement thread 0 (loadedSegment num cells) = .error .abort := by
  have hvisit := (visitSection_outcome thread 0 0 _ (loadedSegment_range num cells)
    (loadedSegment_unlocked num cells thread)).1 htrap
  simp [scSegmentLockEmptyElement, scConcurrencyLevel, lockEmptyAttempts, hslot, visitSections,
    hvisit, bind, Except.bind]

/-- The allocator state that an operation on the segment may start from. -/
structure LoadedValid (seg : ScSegment) : Prop where
  hole : ∀ s < 32, 0 < (seg.sections s).emptyCount →
    ∃ o, (seg.sections s).emptyOffset = (o : ℕ) ∧ o < 65535 ∧ o%32 = s ∧
      (seg.elements o).type = 0 ∧ ¬ (seg.num = 0 ∧ o = 0)
  assertions : ∀ thread ctxId, scSegmentLockEmptyElement thread ctxId seg ≠ .error .abort
  counters : CountersAccurate seg

/-- Every reloaded segment but segment 0 is a valid allocator state. -/
theorem loadedSegment_valid_iff (num : ℕ) (cells : ℕ → ScElement)
    (hzero : num = 0 → (cells 0).type = 0) :
    LoadedValid (loadedSegment num cells) ↔ num ≠ 0 := by
  obtain ⟨hcells, hnum⟩ := loadedSegment_elements num cells
  constructor
  · intro h
    exact (loadedSegment_counters_iff num cells hzero).mp h.counters
  · intro hn
    refine ⟨fun s hs hcount => ?_, fun thread ctxId => ?_,
      (loadedSegment_counters_iff num cells hzero).mpr hn⟩
    · obtain ⟨o, hoff, hlt, hmod, ht⟩ := loadedSegment_hole num cells s hs hcount
      exact ⟨o, hoff, hlt, hmod, by rwa [hcells], fun h0 => hn (hnum ▸ h0.1)⟩
    · have hnotrap (s : ℕ) (hs : s < 32) : ¬ SectionTraps (loadedSegment num cells) s := by
        rw [loadedSegment_traps_iff num cells hzero s hs]
        exact fun h => hn h.2.1
      obtain ⟨r, hr⟩ := lockEmptyElement_returns_of_noTrap thread ctxId _
        (loadedSegment_range num cells) hnotrap
      rw [hr]
      exact nofun

theorem loadedSegment_valid_one :
    LoadedValid (loadedSegment 1 (fun _ => ScElement.zero)) ↔ 1 ≠ 0 :=
  loadedSegment_valid_iff 1 _ (fun h => absurd h (by decide))

/-- The assertion that the hole is not the empty address fails for some caller exactly when
section 0 of segment 0 is full and another section is not. -/
theorem loadedSegment_aborts_iff (num : ℕ) (cells : ℕ → ScElement)
    (hzero : num = 0 → (cells 0).type = 0) :
    (∃ thread ctxId, scSegmentLockEmptyElement thread ctxId (loadedSegment num cells) =
      .error .abort) ↔
    num = 0 ∧ ReservedSectionFull cells ∧ scSegmentHasEmptySlot (loadedSegment num cells) = true := by
  constructor
  · rintro ⟨thread, ctxId, habort⟩
    have hslot : scSegmentHasEmptySlot (loadedSegment num cells) = true := by
      by_contra hno
      simp [scSegmentLockEmptyElement, lockEmptyAttempts, hno] at habort
    by_contra hnot
    have hnotrap (s : ℕ) (hs : s < 32) : ¬ SectionTraps (loadedSegment num cells) s := by
      rw [loadedSegment_traps_iff num cells hzero s hs]
      exact fun h => hnot ⟨h.2.1, h.2.2, hslot⟩
    obtain ⟨r, hr⟩ := lockEmptyElement_returns_of_noTrap thread ctxId _
      (loadedSegment_range num cells) hnotrap
    rw [hr] at habort
    cases habort
  · rintro ⟨rfl, hfull, hslot⟩
    have htrap := (loadedSegment_traps_iff 0 cells hzero 0 (by omega)).mpr ⟨rfl, rfl, hfull⟩
    exact ⟨1, 0, reloadedSegment_traps 1 0 cells htrap hslot⟩

/-- Segment 0 with section 0 full and every other section free. -/
def fullReservedSection (o : ℕ) : ScElement :=
  if o%32 = 0 ∧ o ≠ 0 then { ScElement.zero with type := 1 } else ScElement.zero

theorem reloaded_segment_zero_aborts :
    (fullReservedSection 0).type = 0 ∧
      scSegmentLockEmptyElement 1 0 (loadedSegment 0 fullReservedSection) = .error .abort ∧
      ¬ LoadedValid (loadedSegment 0 fullReservedSection) := by
  obtain ⟨hcells, hnum⟩ := loadedSegment_elements 0 fullReservedSection
  have hzero : (fullReservedSection 0).type = 0 := by decide
  have hfull : ReservedSectionFull fullReservedSection := by
    intro o _ hmod hne
    simp [fullReservedSection, hmod, hne]
  have hfew : occupiedCells (loadedSegment 0 fullReservedSection) ⊆
      ((Finset.range 65535).erase 1).erase 2 := by
    intro o ho
    obtain ⟨hrange, hocc⟩ := Finset.mem_filter.mp ho
    rw [hcells] at hocc
    have h1 : o ≠ 1 := fun h => hocc (h ▸ (by decide))
    have h2 : o ≠ 2 := fun h => hocc (h ▸ (by decide))
    exact Finset.mem_erase.mpr ⟨h2, Finset.mem_erase.mpr ⟨h1, hrange⟩⟩
  have hslot : scSegmentHasEmptySlot (loadedSegment 0 fullReservedSection) = true := by
    have hcard := Finset.card_le_card hfew
    rw [Finset.card_erase_of_mem (by simp), Finset.card_erase_of_mem (by simp),
      Finset.card_range] at hcard
    rw [scSegmentHasEmptySlot, hnum, if_pos rfl, loadedSegment_elementsCount]
    simp only [scSegmentElementsCount, decide_eq_true_eq]
    omega
  have htrap := (loadedSegment_traps_iff 0 _ (fun _ => hzero) 0 (by omega)).mpr ⟨rfl, rfl, hfull⟩
  have habort := reloadedSegment_traps 1 0 _ htrap hslot
  exact ⟨hzero, habort, fun h => h.assertions 1 0 habort⟩

end ScMachine.Store
