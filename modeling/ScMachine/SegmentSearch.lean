import ScMachine.SegmentSoundness

/-! When a call of `sc_segment_lock_empty_element` finds a cell. The hole it hands out must have
a second hole in its section, to the right of it or, for the first section that a call visits in
segment 0, to the left of it. -/
namespace ScMachine.Store
open ScMachine.Runs

def HasFreeCell (seg : ScSegment) : Prop :=
  ∃ o < 65535, ¬ (seg.num = 0 ∧ o = 0) ∧ (seg.elements o).type = 0

/-- No section is locked by a thread other than `thread`. -/
def NoContention (thread : ℕ) (seg : ScSegment) : Prop :=
  ∀ s < 32, (seg.sections s).threadLock = 0 ∨ (seg.sections s).threadLock = thread

/-- Section `s`, visited as the `i`-th one, counts a free cell and has a second hole that the
search can reach. -/
def SectionYields (seg : ScSegment) (i s : ℕ) : Prop :=
  0 < (seg.sections s).emptyCount ∧
    ∃ j, HoleCandidate seg i (seg.sections s).emptyOffset j ∧ (seg.elements j.toNat).type = 0

/-- Section `s` counts a free cell and remembers the empty address as its hole. -/
def SectionTraps (seg : ScSegment) (s : ℕ) : Prop :=
  0 < (seg.sections s).emptyCount ∧ seg.num+(seg.sections s).emptyOffset = 0

/-- Some section that context `ctxId` visits yields, and no section before it fails an
assertion. -/
def SearchReaches (seg : ScSegment) (ctxId : ℕ) : Prop :=
  ∃ k < 32, SectionYields seg k ((ctxId+k)%32) ∧
    ∀ i ≤ k, ¬ SectionTraps seg ((ctxId+i)%32)

/-- Every hole is a cell of its section, free or not. -/
def HolesInRange (seg : ScSegment) : Prop :=
  ∀ s < 32, 0 ≤ (seg.sections s).emptyOffset ∧ (seg.sections s).emptyOffset < 65535 ∧
    (seg.sections s).emptyOffset%32 = s

theorem HolesInRange.updateSection {seg : ScSegment} (h : HolesInRange seg) (s : ℕ)
    (sec : ScSegmentSection) (elements : ℕ → ScElement) (count : ℤ)
    (hsec : s < 32 → 0 ≤ sec.emptyOffset ∧ sec.emptyOffset < 65535 ∧ sec.emptyOffset%32 = s) :
    HolesInRange { seg with
      elements := elements
      elementsCount := count
      sections := Function.update seg.sections s sec } := by
  intro t ht
  by_cases hts : t = s
  · subst hts
    simpa only [Function.update_self] using hsec ht
  · simpa only [Function.update_of_ne hts] using h t ht

theorem visitSection_range (thread ctxId i : ℕ) (seg : ScSegment) (h : HolesInRange seg) :
    SearchPost HolesInRange (fun _ => HolesInRange) True (visitSection thread ctxId i seg) := by
  have hs : (ctxId+i)%32 < 32 := Nat.mod_lt _ (by omega)
  have hold := h _ hs
  rw [visitSection_eq]
  simp only
  split_ifs
  · exact h
  · exact h.updateSection _ _ _ _ (fun _ => hold)
  · trivial
  · split
    · rename_i j hj
      obtain ⟨⟨hjmod, hjrange⟩, _⟩ := nextHole_some _ _ _ _ hj
      split_ifs
      · exact h.updateSection _ _ _ _ (fun _ => by simp only; omega)
      · trivial
    · exact h.updateSection _ _ _ _ (fun _ => hold)

theorem segStep_range (seg : ScSegment) (e : SegEvent) (seg' : ScSegment) (h : HolesInRange seg)
    (hs : SegStep seg e seg') : HolesInRange seg' := by
  have hlock (thread ctxId : ℕ) (r : Option ℕ) (seg1 : ScSegment)
      (hl : scSegmentLockEmptyElement thread ctxId seg = .ok (r, seg1)) : HolesInRange seg1 := by
    have hpost := lockEmptyElement_post thread ctxId HolesInRange (fun _ => HolesInRange) True
      (fun i s _ hs => visitSection_range thread ctxId i s hs) seg h
    rw [hl] at hpost
    cases r with
    | none => exact hpost
    | some offset => exact hpost
  cases hs with
  | allocate seg1 thread ctxId offset cell _ hl => exact hlock thread ctxId _ seg1 hl
  | refuse _ thread ctxId hl => exact hlock thread ctxId _ seg' hl
  | erase _ offset _ he =>
    obtain ⟨_, _, rfl⟩ := eraseElement_ok seg seg' offset he
    exact h.updateSection _ _ _ _ (fun _ => by simp only; omega)
  | lock thread s sec hl =>
    obtain ⟨_, rfl⟩ := sectionLock_ok thread _ _ hl
    exact h.updateSection s _ _ _ (fun hs => h s hs)
  | unlock thread s sec hl =>
    obtain ⟨_, rfl⟩ := sectionUnlock_ok thread _ _ hl
    exact h.updateSection s _ _ _ (fun hs => h s hs)

/-- The outcome of one visit in terms of `SectionYields` and `SectionTraps`. -/
theorem visitSection_outcome (thread ctxId i : ℕ) (seg : ScSegment) (h : HolesInRange seg)
    (hfree : NoContention thread seg) :
    let s := (ctxId+i)%32
    (SectionTraps seg s → visitSection thread ctxId i seg = .error .abort) ∧
    (¬ SectionTraps seg s → SectionYields seg i s →
      ∃ offset seg', visitSection thread ctxId i seg = .ok (some offset, seg')) ∧
    (¬ SectionTraps seg s → ¬ SectionYields seg i s →
      ∃ seg', visitSection thread ctxId i seg = .ok (none, seg') ∧ seg'.elements = seg.elements ∧
        seg'.num = seg.num ∧ (∀ t, t ≠ s → seg'.sections t = seg.sections t) ∧
        (seg'.sections s).emptyOffset = (seg.sections s).emptyOffset ∧
        (seg'.sections s).emptyCount ≤ (seg.sections s).emptyCount ∧
        ((seg'.sections s).threadLock = 0 ∨ (seg'.sections s).threadLock = thread)) := by
  have hs : (ctxId+i)%32 < 32 := Nat.mod_lt _ (by omega)
  rw [visitSection_eq]
  simp only
  set s := (ctxId+i)%32
  obtain ⟨h0, hlt, hmod⟩ := h s hs
  have howner := hfree s hs
  have hno : ¬ ((seg.sections s).threadLock ≠ 0 ∧ (seg.sections s).threadLock ≠ thread) := by
    tauto
  have hrel : ((seg.sections s).released thread).threadLock = 0 ∨
      ((seg.sections s).released thread).threadLock = thread := by
    simp only [ScSegmentSection.released]
    split_ifs
    · exact Or.inl rfl
    · exact Or.inr rfl
  by_cases hpos : 0 < (seg.sections s).emptyCount
  · have hne : ¬ (seg.sections s).emptyCount = 0 := by omega
    have hnle : ¬ (seg.sections s).emptyCount ≤ 0 := by omega
    rw [if_neg (by tauto), if_neg hnle]
    by_cases hnum : 0 < seg.num+(seg.sections s).emptyOffset
    · have hnt : ¬ SectionTraps seg s := fun ht => by have := ht.2; omega
      rw [if_neg (by tauto)]
      refine ⟨fun ht => absurd ht hnt, ?_, ?_⟩
      · rintro - ⟨_, j, hj, hjfree⟩
        cases hn : nextHole seg i (seg.sections s).emptyOffset with
        | none => exact absurd hjfree (nextHole_none seg i _ j h0 hlt hn hj)
        | some k =>
          obtain ⟨⟨_, hkrange⟩, _⟩ := nextHole_some _ _ _ _ hn
          exact ⟨_, _, if_pos (by omega)⟩
      · intro _ hny
        cases hn : nextHole seg i (seg.sections s).emptyOffset with
        | some k => exact absurd ⟨hpos, k, nextHole_some _ _ _ _ hn⟩ hny
        | none =>
          refine ⟨seg.miss thread s, rfl, rfl, rfl, ?_, ?_, ?_, ?_⟩
          · intro t ht
            simp only [ScSegment.miss, Function.update_of_ne ht]
          · simp [ScSegment.miss, ScSegmentSection.released]
          · simp [ScSegment.miss]
          · simpa only [ScSegment.miss, Function.update_self] using hrel
    · have ht : SectionTraps seg s := ⟨hpos, by omega⟩
      rw [if_pos (Or.inr hnum)]
      exact ⟨fun _ => rfl, fun hnt => absurd ht hnt, fun hnt => absurd ht hnt⟩
  · refine ⟨fun ht => absurd ht.1 hpos, fun _ hy => absurd hy.1 hpos, fun _ _ => ?_⟩
    by_cases hz : (seg.sections s).emptyCount = 0
    · rw [if_pos (Or.inl hz)]
      exact ⟨seg, rfl, rfl, rfl, fun _ _ => rfl, rfl, le_rfl, howner⟩
    · rw [if_neg (by tauto), if_pos (by omega)]
      refine ⟨seg.release thread s, rfl, rfl, rfl, ?_, ?_, ?_, ?_⟩
      · intro t ht
        simp only [ScSegment.release, Function.update_of_ne ht]
      · simp [ScSegment.release, ScSegmentSection.released]
      · simp [ScSegment.release, ScSegmentSection.released]
      · simpa only [ScSegment.release, Function.update_self] using hrel

/-- A state that a visit without a result leaves: the cells and holes are the same, and no
counter of free cells has grown. -/
structure Missed (thread : ℕ) (seg seg' : ScSegment) : Prop where
  elements : seg'.elements = seg.elements
  num : seg'.num = seg.num
  offset : ∀ t, (seg'.sections t).emptyOffset = (seg.sections t).emptyOffset
  count : ∀ t, (seg'.sections t).emptyCount ≤ (seg.sections t).emptyCount
  owner : NoContention thread seg'

theorem Missed.yields {thread : ℕ} {seg seg' : ScSegment} (h : Missed thread seg seg') (i s : ℕ)
    (hy : SectionYields seg' i s) : SectionYields seg i s := by
  obtain ⟨hpos, j, hj, hjfree⟩ := hy
  refine ⟨lt_of_lt_of_le hpos (h.count s), j, ?_, ?_⟩
  · simpa only [HoleCandidate, h.offset, h.num] using hj
  · simpa only [h.elements] using hjfree

theorem Missed.traps {thread : ℕ} {seg seg' : ScSegment} (h : Missed thread seg seg') (s : ℕ)
    (ht : SectionTraps seg' s) : SectionTraps seg s := by
  refine ⟨lt_of_lt_of_le ht.1 (h.count s), ?_⟩
  have := ht.2
  rwa [h.offset, h.num] at this

theorem Missed.range {thread : ℕ} {seg seg' : ScSegment} (h : Missed thread seg seg')
    (hr : HolesInRange seg) : HolesInRange seg' := by
  intro s hs
  simpa only [h.offset] using hr s hs

theorem visitSection_missed (thread ctxId i : ℕ) (seg : ScSegment) (h : HolesInRange seg)
    (hfree : NoContention thread seg) (ht : ¬ SectionTraps seg ((ctxId+i)%32))
    (hy : ¬ SectionYields seg i ((ctxId+i)%32)) :
    ∃ seg', visitSection thread ctxId i seg = .ok (none, seg') ∧ Missed thread seg seg' ∧
      ∀ t, t ≠ (ctxId+i)%32 → seg'.sections t = seg.sections t := by
  obtain ⟨seg', hv, hel, hnum, hother, hoff, hcount, hown⟩ :=
    (visitSection_outcome thread ctxId i seg h hfree).2.2 ht hy
  refine ⟨seg', hv, ⟨hel, hnum, ?_, ?_, ?_⟩, hother⟩
  · intro t
    by_cases hts : t = (ctxId+i)%32
    · rw [hts, hoff]
    · rw [hother t hts]
  · intro t
    by_cases hts : t = (ctxId+i)%32
    · rw [hts]; exact hcount
    · rw [hother t hts]
  · intro t hlt
    by_cases hts : t = (ctxId+i)%32
    · rw [hts]; exact hown
    · rw [hother t hts]; exact hfree t hlt

/-- Where nothing yields and nothing traps, the call returns null. -/
theorem lockEmptyElement_none (thread ctxId : ℕ) (seg : ScSegment) (h : HolesInRange seg)
    (hfree : NoContention thread seg)
    (hy : ∀ i < 32, ¬ SectionYields seg i ((ctxId+i)%32))
    (ht : ∀ i < 32, ¬ SectionTraps seg ((ctxId+i)%32)) :
    ∃ seg', scSegmentLockEmptyElement thread ctxId seg = .ok (none, seg') ∧
      Missed thread seg seg' := by
  have hpost := lockEmptyElement_post thread ctxId (Missed thread seg) (fun _ _ => False) False
    (by
      intro i seg1 hi hm
      obtain ⟨seg2, hv, hm2, _⟩ := visitSection_missed thread ctxId i seg1 (hm.range h) hm.owner
        (fun hh => ht i hi (hm.traps _ hh)) (fun hh => hy i hi (hm.yields _ _ hh))
      rw [hv]
      exact ⟨hm2.elements.trans hm.elements, hm2.num.trans hm.num,
        fun t => (hm2.offset t).trans (hm.offset t),
        fun t => (hm2.count t).trans (hm.count t), hm2.owner⟩)
    seg ⟨rfl, rfl, fun _ => rfl, fun _ => le_rfl, hfree⟩
  revert hpost
  cases scSegmentLockEmptyElement thread ctxId seg with
  | error e => exact False.elim
  | ok r =>
    obtain ⟨_ | offset, seg'⟩ := r
    · exact fun hm => ⟨seg', rfl, hm⟩
    · exact False.elim

/-- One pass stops at the first section that yields or traps. -/
theorem visitSections_decided (thread ctxId n : ℕ) (seg : ScSegment) (k : ℕ) (hn : n ≤ 32)
    (hk : 32-n ≤ k ∧ k < 32) (h : HolesInRange seg) (hfree : NoContention thread seg)
    (hbefore : ∀ i, 32-n ≤ i → i < k → ¬ SectionTraps seg ((ctxId+i)%32) ∧
      ¬ SectionYields seg i ((ctxId+i)%32)) :
    (SectionTraps seg ((ctxId+k)%32) → visitSections thread ctxId n seg = .error .abort) ∧
    (¬ SectionTraps seg ((ctxId+k)%32) → SectionYields seg k ((ctxId+k)%32) →
      ∃ offset seg', visitSections thread ctxId n seg = .ok (some offset, seg')) := by
  induction n generalizing seg with
  | zero => omega
  | succ n ih =>
    simp only [visitSections, scConcurrencyLevel]
    by_cases hik : 32-(n+1) = k
    · rw [hik]
      obtain ⟨htrap, hyield, _⟩ := visitSection_outcome thread ctxId k seg h hfree
      constructor
      · intro ht
        rw [htrap ht]
        rfl
      · intro ht hy
        obtain ⟨offset, seg', hv⟩ := hyield ht hy
        exact ⟨offset, seg', by rw [hv]; rfl⟩
    · have hlt : 32-(n+1) < k := by omega
      obtain ⟨ht0, hy0⟩ := hbefore _ le_rfl hlt
      obtain ⟨seg1, hv, hm, hother⟩ :=
        visitSection_missed thread ctxId (32-(n+1)) seg h hfree ht0 hy0
      -- the sections still to visit have other residues, so they are as they were
      have hsame (i : ℕ) (hi : 32-n ≤ i) (hi32 : i < 32) :
          seg1.sections ((ctxId+i)%32) = seg.sections ((ctxId+i)%32) := hother _ (by omega)
      have htrap (i : ℕ) (hi : 32-n ≤ i) (hi32 : i < 32) :
          SectionTraps seg1 ((ctxId+i)%32) ↔ SectionTraps seg ((ctxId+i)%32) := by
        simp only [SectionTraps, hsame i hi hi32, hm.num]
      have hyield (i : ℕ) (hi : 32-n ≤ i) (hi32 : i < 32) :
          SectionYields seg1 i ((ctxId+i)%32) ↔ SectionYields seg i ((ctxId+i)%32) := by
        simp only [SectionYields, HoleCandidate, hsame i hi hi32, hm.num, hm.elements]
      have hih := ih seg1 (by omega) ⟨by omega, hk.2⟩ (hm.range h) hm.owner (by
        intro i hi hik'
        rw [htrap i hi (by omega), hyield i hi (by omega)]
        exact hbefore i (by omega) hik')
      rw [htrap k (by omega) hk.2, hyield k (by omega) hk.2] at hih
      rw [hv]
      exact hih

/-- A call without contention hands out a cell exactly when the segment still counts an empty
slot and the search of the calling context reaches one. -/
theorem lockEmptyElement_some_iff (thread ctxId : ℕ) (seg : ScSegment) (h : HolesInRange seg)
    (hfree : NoContention thread seg) :
    (∃ offset seg', scSegmentLockEmptyElement thread ctxId seg = .ok (some offset, seg')) ↔
      scSegmentHasEmptySlot seg = true ∧ SearchReaches seg ctxId := by
  have hfirst (k : ℕ) (hk : k < 32) (hbefore : ∀ i < k, ¬ SectionTraps seg ((ctxId+i)%32) ∧
      ¬ SectionYields seg i ((ctxId+i)%32)) :=
    visitSections_decided thread ctxId 32 seg k le_rfl ⟨by omega, hk⟩ h hfree
      (fun i _ hi => hbefore i hi)
  constructor
  · rintro ⟨offset, seg', hl⟩
    by_cases hslot : scSegmentHasEmptySlot seg = true
    swap
    · simp [scSegmentLockEmptyElement, lockEmptyAttempts, hslot] at hl
    refine ⟨hslot, ?_⟩
    let D (i : ℕ) : Prop := i < 32 ∧
      (SectionTraps seg ((ctxId+i)%32) ∨ SectionYields seg i ((ctxId+i)%32))
    by_cases hex : ∃ i, D i
    · classical
      have hD := Nat.find_spec hex
      have hmin (i : ℕ) (hi : i < Nat.find hex) : ¬ SectionTraps seg ((ctxId+i)%32) ∧
          ¬ SectionYields seg i ((ctxId+i)%32) := by
        have hni := Nat.find_min hex hi
        have hlt : i < 32 := lt_trans hi hD.1
        constructor
        · exact fun hh => hni ⟨hlt, Or.inl hh⟩
        · exact fun hh => hni ⟨hlt, Or.inr hh⟩
      set k := Nat.find hex
      obtain ⟨htrap, _⟩ := hfirst k hD.1 hmin
      by_cases ht : SectionTraps seg ((ctxId+k)%32)
      · -- the first pass aborts, so the call cannot have returned a cell
        simp only [scSegmentLockEmptyElement, scConcurrencyLevel, lockEmptyAttempts, hslot,
          if_true, htrap ht] at hl
        exact absurd hl (by simp [bind, Except.bind])
      · refine ⟨k, hD.1, hD.2.resolve_left ht, ?_⟩
        intro i hi
        by_cases hik : i = k
        · rw [hik]; exact ht
        · exact (hmin i (by omega)).1
    · obtain ⟨seg1, hnone, _⟩ := lockEmptyElement_none thread ctxId seg h hfree
        (fun i hi hh => hex ⟨i, hi, Or.inr hh⟩) (fun i hi hh => hex ⟨i, hi, Or.inl hh⟩)
      rw [hnone] at hl
      simp at hl
  · rintro ⟨hslot, k, hk, hyk, htk⟩
    let Y (i : ℕ) : Prop := SectionYields seg i ((ctxId+i)%32)
    classical
    have hex : ∃ i, Y i := ⟨k, hyk⟩
    have hle : Nat.find hex ≤ k := Nat.find_min' hex hyk
    obtain ⟨offset, seg', hv⟩ := (hfirst (Nat.find hex) (by omega)
      (fun i hi => ⟨htk i (by omega), Nat.find_min hex hi⟩)).2 (htk _ hle) (Nat.find_spec hex)
    refine ⟨offset, seg', ?_⟩
    simp only [scSegmentLockEmptyElement, scConcurrencyLevel, lockEmptyAttempts, hslot, if_true, hv]
    rfl

end ScMachine.Store
