import ScMachine.ScSegment

/-! The hole that each section remembers is free at every moment, so the allocator never
hands out an occupied cell. -/
namespace ScMachine.Store

/-- A cell that the search may take as the next hole, when `idx` is the current one and the
section is the `i`-th that the call visits. -/
def HoleCandidate (seg : ScSegment) (i : ℕ) (idx j : ℤ) : Prop :=
  j%32 = idx%32 ∧
    ((idx < j ∧ j < 65535) ∨ (i = 0 ∧ seg.num = 0 ∧ 32 ≤ j ∧ j < idx))

theorem findHoleRight_some (elements : ℕ → ScElement) (fuel : ℕ) (j k : ℤ)
    (h : findHoleRight elements fuel j = some k) :
    j ≤ k ∧ k < 65535 ∧ k%32 = j%32 ∧ (elements k.toNat).type = 0 := by
  induction fuel generalizing j with
  | zero => simp [findHoleRight] at h
  | succ fuel ih =>
    simp only [findHoleRight, scSegmentElementsCount, scConcurrencyLevel, Nat.cast_ofNat] at h
    split_ifs at h with hj ht
    · obtain rfl := Option.some.inj h
      exact ⟨le_rfl, hj, rfl, ht⟩
    · obtain ⟨h1, h2, h3, h4⟩ := ih _ h
      exact ⟨by omega, h2, by omega, h4⟩

theorem findHoleRight_none (elements : ℕ → ScElement) (fuel : ℕ) (j k : ℤ)
    (h : findHoleRight elements fuel j = none) (hf : 65535-j ≤ 32*fuel)
    (hk : j ≤ k ∧ k < 65535 ∧ k%32 = j%32) : (elements k.toNat).type ≠ 0 := by
  induction fuel generalizing j with
  | zero =>
    exfalso
    push_cast at hf
    omega
  | succ fuel ih =>
    simp only [findHoleRight, scSegmentElementsCount, scConcurrencyLevel, Nat.cast_ofNat] at h
    split_ifs at h with hj ht
    · by_cases he : k = j
      · rwa [he]
      · apply ih _ h
        · push_cast at hf
          omega
        · omega
    · omega

theorem findHoleLeft_some (elements : ℕ → ScElement) (left : ℤ) (fuel : ℕ) (j k : ℤ)
    (h : findHoleLeft elements left fuel j = some k) :
    left ≤ k ∧ k ≤ j ∧ k%32 = j%32 ∧ (elements k.toNat).type = 0 := by
  induction fuel generalizing j with
  | zero => simp [findHoleLeft] at h
  | succ fuel ih =>
    simp only [findHoleLeft, scConcurrencyLevel, Nat.cast_ofNat] at h
    split_ifs at h with hj ht
    · obtain rfl := Option.some.inj h
      exact ⟨hj, le_rfl, rfl, ht⟩
    · obtain ⟨h1, h2, h3, h4⟩ := ih _ h
      exact ⟨h1, by omega, by omega, h4⟩

theorem findHoleLeft_none (elements : ℕ → ScElement) (left : ℤ) (fuel : ℕ) (j k : ℤ)
    (h : findHoleLeft elements left fuel j = none) (hf : j-left < 32*fuel)
    (hk : left ≤ k ∧ k ≤ j ∧ k%32 = j%32) : (elements k.toNat).type ≠ 0 := by
  induction fuel generalizing j with
  | zero =>
    exfalso
    push_cast at hf
    omega
  | succ fuel ih =>
    simp only [findHoleLeft, scConcurrencyLevel, Nat.cast_ofNat] at h
    split_ifs at h with hj ht
    · by_cases he : k = j
      · rwa [he]
      · apply ih _ h
        · push_cast at hf
          omega
        · omega
    · omega

theorem nextHole_some (seg : ScSegment) (i : ℕ) (idx j : ℤ)
    (h : nextHole seg i idx = some j) :
    HoleCandidate seg i idx j ∧ (seg.elements j.toNat).type = 0 := by
  simp only [nextHole, scConcurrencyLevel, Nat.cast_ofNat] at h
  split at h
  · rename_i k hk
    obtain rfl := Option.some.inj h
    obtain ⟨h1, h2, h3, h4⟩ := findHoleRight_some _ _ _ _ hk
    exact ⟨⟨by omega, Or.inl ⟨by omega, h2⟩⟩, h4⟩
  · obtain ⟨h1, h2, h3, h4⟩ := findHoleLeft_some _ _ _ _ _ h
    split_ifs at h1 with hleft
    · exact ⟨⟨by omega, Or.inr ⟨hleft.1, hleft.2, by omega, by omega⟩⟩, h4⟩
    · omega

theorem nextHole_none (seg : ScSegment) (i : ℕ) (idx j : ℤ) (h0 : 0 ≤ idx) (h1 : idx < 65535)
    (h : nextHole seg i idx = none) (hj : HoleCandidate seg i idx j) :
    (seg.elements j.toNat).type ≠ 0 := by
  simp only [nextHole, scConcurrencyLevel, Nat.cast_ofNat] at h
  split at h
  · simp at h
  · rename_i hright
    obtain ⟨hmod, ⟨hlt, hcount⟩ | ⟨hi, hnum, hge, hlt⟩⟩ := hj
    · apply findHoleRight_none _ _ _ _ hright
      · simp only [scSegmentElementsCount]
        push_cast
        omega
      · omega
    · rw [if_pos ⟨hi, hnum⟩] at h
      apply findHoleLeft_none _ _ _ _ _ h
      · simp only [scSegmentElementsCount]
        push_cast
        omega
      · omega

/-- The section as a lock and the matching unlock of `thread` leave it. -/
def ScSegmentSection.released (thread : ℕ) (s : ScSegmentSection) : ScSegmentSection :=
  { s with threadLock := if s.lockCount = 0 then 0 else thread }

/-- The segment after a visit that counts one cell of section `s` as taken and finds no hole. -/
def ScSegment.miss (seg : ScSegment) (thread s : ℕ) : ScSegment :=
  { seg with
    elementsCount := seg.elementsCount+1
    sections := Function.update seg.sections s
      { (seg.sections s).released thread with emptyCount := (seg.sections s).emptyCount-1 } }

/-- The segment after a visit that hands out the hole of section `s` and remembers `j`. -/
def ScSegment.take (seg : ScSegment) (thread s : ℕ) (j : ℤ) : ScSegment :=
  { seg with
    elementsCount := seg.elementsCount+1
    sections := Function.update seg.sections s
      { threadLock := thread
        emptyCount := (seg.sections s).emptyCount-1
        emptyOffset := j
        lockCount := (seg.sections s).lockCount+1 } }

def ScSegment.release (seg : ScSegment) (thread s : ℕ) : ScSegment :=
  { seg with sections := Function.update seg.sections s ((seg.sections s).released thread) }

/-- Everything that one visit of a section can do. -/
theorem visitSection_eq (thread ctxId i : ℕ) (seg : ScSegment) :
    visitSection thread ctxId i seg =
      let s := (ctxId+i)%32
      let sec := seg.sections s
      if sec.emptyCount = 0 ∨ (sec.threadLock ≠ 0 ∧ sec.threadLock ≠ thread) then .ok (none, seg)
      else if sec.emptyCount ≤ 0 then .ok (none, seg.release thread s)
      else if ¬ (0 ≤ sec.emptyOffset ∧ sec.emptyOffset < 65535) ∨ ¬ 0 < seg.num+sec.emptyOffset then
        .error .abort
      else
        match nextHole seg i sec.emptyOffset with
        | some j => if 0 < seg.num+j then .ok (some sec.emptyOffset.toNat, seg.take thread s j)
            else .error .abort
        | none => .ok (none, seg.miss thread s) := by
  simp only [visitSection, scConcurrencyLevel, scSegmentSectionLockTry, scSegmentSectionUnlock]
  set s := (ctxId+i)%32
  set sec := seg.sections s
  by_cases hec : sec.emptyCount = 0
  · simp [hec]
  by_cases hlock : sec.threadLock ≠ 0 ∧ sec.threadLock ≠ thread
  · simp [hec, hlock]
  simp only [hec, hlock, if_false, or_self]
  by_cases hneg : sec.emptyCount ≤ 0
  · simp [hneg, bind, Except.bind, ScSegment.release, ScSegmentSection.released, sec]
  have hpos : 0 < sec.emptyCount := by omega
  have hcount : 0 ≤ sec.emptyCount-1 := by omega
  simp only [hneg, hpos, if_true, if_false, scSegmentElementsCount, Nat.cast_ofNat]
  by_cases hrange : ¬ (0 ≤ sec.emptyOffset ∧ sec.emptyOffset < 65535) ∨
      ¬ 0 < seg.num+sec.emptyOffset
  · rw [if_pos hrange, if_pos hrange]
  rw [if_neg hrange, if_neg hrange]
  cases hn : nextHole seg i sec.emptyOffset with
  | none => simp [bind, Except.bind, ScSegment.miss, ScSegmentSection.released, sec]
  | some j =>
    by_cases hnum : 0 < seg.num+j
    · simp only [hnum, hcount, not_true_eq_false, or_self, if_false, if_true]
      rfl
    · simp [hnum]

/-- A postcondition of a search: `P` if it goes on with the next section or gives up, `Q` if it
hands out a cell, `E` if an assertion fails. -/
def SearchPost (P : ScSegment → Prop) (Q : ℕ → ScSegment → Prop) (E : Prop) :
    Except ScStop (Option ℕ × ScSegment) → Prop
  | .ok (none, seg) => P seg
  | .ok (some offset, seg) => Q offset seg
  | .error _ => E

theorem SearchPost.bind {P : ScSegment → Prop} {Q : ℕ → ScSegment → Prop} {E : Prop}
    {r : Except ScStop (Option ℕ × ScSegment)}
    {k : ScSegment → Except ScStop (Option ℕ × ScSegment)}
    (h : SearchPost P Q E r) (hk : ∀ seg, P seg → SearchPost P Q E (k seg)) :
    SearchPost P Q E (r >>= fun r =>
      match r with
      | (some offset, seg') => .ok (some offset, seg')
      | (none, seg') => k seg') := by
  match r, h with
  | .ok (none, seg), h => exact hk seg h
  | .ok (some offset, seg), h => exact h
  | .error e, h => exact h

/-- What every visit of a section keeps, the whole call keeps. -/
theorem lockEmptyElement_post (thread ctxId : ℕ) (P : ScSegment → Prop)
    (Q : ℕ → ScSegment → Prop) (E : Prop)
    (hvisit : ∀ i seg, i < 32 → P seg → SearchPost P Q E (visitSection thread ctxId i seg))
    (seg : ScSegment) (hP : P seg) :
    SearchPost P Q E (scSegmentLockEmptyElement thread ctxId seg) := by
  have hpass (n : ℕ) : n ≤ 32 → ∀ seg, P seg →
      SearchPost P Q E (visitSections thread ctxId n seg) := by
    induction n with
    | zero => intro _ seg h; exact h
    | succ n ih =>
      intro hn seg h
      exact (hvisit _ seg (by simp only [scConcurrencyLevel]; omega) h).bind
        (ih (by omega))
  have hattempts (n : ℕ) : ∀ seg, P seg →
      SearchPost P Q E (lockEmptyAttempts thread ctxId n seg) := by
    induction n with
    | zero => intro seg h; exact h
    | succ n ih =>
      intro seg h
      unfold lockEmptyAttempts
      split
      · exact (hpass _ le_rfl seg h).bind ih
      · exact h
  exact hattempts _ seg hP

/-- The remembered hole of section `s` is a free cell of that section, and its address is not
the empty one. -/
structure HoleOk (seg : ScSegment) (s : ℕ) : Prop where
  nonneg : 0 ≤ (seg.sections s).emptyOffset
  lt : (seg.sections s).emptyOffset < 65535
  mod : (seg.sections s).emptyOffset%32 = s
  free : (seg.elements (seg.sections s).emptyOffset.toNat).type = 0
  notEmptyAddr : 0 < seg.num+(seg.sections s).emptyOffset

def HolesOk (seg : ScSegment) : Prop := ∀ s < 32, HoleOk seg s

theorem segmentNew_holesOk (num : ℕ) : HolesOk (scSegmentNew num) := by
  intro s hs
  by_cases h0 : s = 0
  · subst h0
    by_cases hn : num = 0
    · constructor <;> simp [scSegmentNew, hn, ScElement.zero]
    · constructor <;> simp [scSegmentNew, hn, ScElement.zero]
      omega
  · have hoff : ((scSegmentNew num).sections s).emptyOffset = s := by
      simp [scSegmentNew, Function.update_of_ne h0]
    constructor
    · rw [hoff]; omega
    · rw [hoff]; omega
    · rw [hoff]; omega
    · rfl
    · rw [hoff]; omega

/-- A change of one section that keeps its hole, or moves it to another free cell. -/
theorem HolesOk.updateSection {seg : ScSegment} (h : HolesOk seg) (s : ℕ) (sec : ScSegmentSection)
    (count : ℤ) (hs : s < 32)
    (hsec : HoleOk { seg with sections := Function.update seg.sections s sec } s) :
    HolesOk { seg with
      elementsCount := count
      sections := Function.update seg.sections s sec } := by
  intro t ht
  by_cases hts : t = s
  · subst hts
    exact ⟨hsec.nonneg, hsec.lt, hsec.mod, hsec.free, hsec.notEmptyAddr⟩
  · have hold := h t ht
    constructor <;> simp only [Function.update_of_ne hts]
    · exact hold.nonneg
    · exact hold.lt
    · exact hold.mod
    · exact hold.free
    · exact hold.notEmptyAddr

theorem HoleOk.keepOffset {seg : ScSegment} {s : ℕ} (h : HoleOk seg s) (sec : ScSegmentSection)
    (hsec : sec.emptyOffset = (seg.sections s).emptyOffset) :
    HoleOk { seg with sections := Function.update seg.sections s sec } s := by
  constructor <;> simp only [Function.update_self, hsec]
  · exact h.nonneg
  · exact h.lt
  · exact h.mod
  · exact h.free
  · exact h.notEmptyAddr

/-- The cells and their reference counts are the same; only counters, holes and locks differ. -/
structure SameCells (seg seg' : ScSegment) : Prop where
  elements : seg'.elements = seg.elements
  num : seg'.num = seg.num
  refCount : seg'.refCount = seg.refCount

theorem SameCells.trans {a b c : ScSegment} (h : SameCells a b) (h' : SameCells b c) :
    SameCells a c :=
  ⟨h'.elements.trans h.elements, h'.num.trans h.num, h'.refCount.trans h.refCount⟩

/-- What the caller may rely on about a cell that it is handed out: it is free, it has a
non-empty address, and no section remembers it as a hole any more. -/
structure HandedOut (seg : ScSegment) (offset : ℕ) (seg' : ScSegment) : Prop where
  lt : offset < 65535
  free : (seg.elements offset).type = 0
  notEmptyAddr : 0 < seg.num+offset
  notHole : ∀ s < 32, (seg'.sections s).emptyOffset ≠ offset

theorem visitSection_holes (thread ctxId i : ℕ) (seg : ScSegment) (h : HolesOk seg) :
    SearchPost (fun seg' => HolesOk seg' ∧ SameCells seg seg')
      (fun offset seg' => HolesOk seg' ∧ SameCells seg seg' ∧ HandedOut seg offset seg') False
      (visitSection thread ctxId i seg) := by
  have hs : (ctxId+i)%32 < 32 := Nat.mod_lt _ (by omega)
  rw [visitSection_eq]
  simp only
  set s := (ctxId+i)%32
  obtain ⟨hn, hlt, hmod, hfree, haddr⟩ := h s hs
  split_ifs with hskip hneg hrange
  · exact ⟨h, rfl, rfl, rfl⟩
  · exact ⟨h.updateSection s _ _ hs ((h s hs).keepOffset _ rfl), rfl, rfl, rfl⟩
  · change False
    tauto
  · split
    · rename_i j hj
      obtain ⟨⟨hjmod, hjrange⟩, hjfree⟩ := nextHole_some _ _ _ _ hj
      have hjpos : 0 < seg.num+j := by omega
      have hjs : j%32 = s := hjmod.trans hmod
      rw [if_pos hjpos]
      refine ⟨h.updateSection s _ _ hs ?_, ⟨rfl, rfl, rfl⟩, ?_⟩
      · constructor <;> simp only [Function.update_self]
        · omega
        · omega
        · exact hjs
        · exact hjfree
        · exact hjpos
      · refine ⟨by omega, hfree, by omega, ?_⟩
        intro t ht
        by_cases hts : t = s
        · subst hts
          simp only [ScSegment.take, Function.update_self]
          omega
        · -- holes of other sections have another residue modulo 32
          simp only [ScSegment.take, Function.update_of_ne hts]
          have := (h t ht).mod
          omega
    · exact ⟨h.updateSection s _ _ hs ((h s hs).keepOffset _ rfl), rfl, rfl, rfl⟩

/-- In a segment whose holes are in order, no assertion of `sc_segment_lock_empty_element`
fails and the cell it hands out is free. -/
theorem lockEmptyElement_holes (thread ctxId : ℕ) (seg : ScSegment) (h : HolesOk seg) :
    SearchPost (fun seg' => HolesOk seg' ∧ SameCells seg seg')
      (fun offset seg' => HolesOk seg' ∧ SameCells seg seg' ∧ HandedOut seg offset seg') False
      (scSegmentLockEmptyElement thread ctxId seg) := by
  refine lockEmptyElement_post thread ctxId
    (fun seg' => HolesOk seg' ∧ SameCells seg seg') _ _ ?_ seg ⟨h, rfl, rfl, rfl⟩
  intro i seg1 _ ⟨h1, hsame⟩
  have hv := visitSection_holes thread ctxId i seg1 h1
  revert hv
  cases visitSection thread ctxId i seg1 with
  | error e => exact id
  | ok r =>
    obtain ⟨_ | offset, seg2⟩ := r
    · rintro ⟨h2, hsame2⟩
      exact ⟨h2, hsame.trans hsame2⟩
    · rintro ⟨h2, hsame2, hout⟩
      refine ⟨h2, hsame.trans hsame2, hout.lt, ?_, ?_, hout.notHole⟩
      · rw [← hsame.elements]; exact hout.free
      · rw [← hsame.num]; exact hout.notEmptyAddr

theorem lockEmptyElement_returns (thread ctxId : ℕ) (seg : ScSegment) (h : HolesOk seg) :
    ∃ r seg', scSegmentLockEmptyElement thread ctxId seg = .ok (r, seg') := by
  have hpost := lockEmptyElement_holes thread ctxId seg h
  revert hpost
  cases scSegmentLockEmptyElement thread ctxId seg with
  | error e => exact False.elim
  | ok r => exact fun _ => ⟨r.1, r.2, rfl⟩

/-- Writing a cell keeps the holes as long as no hole becomes occupied. -/
theorem HolesOk.writeCell {seg : ScSegment} (h : HolesOk seg) (offset : ℕ) (cell : ScElement)
    (hc : cell.type = 0 ∨ ∀ s < 32, (seg.sections s).emptyOffset ≠ offset) :
    HolesOk { seg with elements := Function.update seg.elements offset cell } := by
  intro s hs
  have hold := h s hs
  refine ⟨hold.nonneg, hold.lt, hold.mod, ?_, hold.notEmptyAddr⟩
  by_cases ho : (seg.sections s).emptyOffset.toNat = offset
  · rcases hc with hc | hc
    · simpa only [ho, Function.update_self] using hc
    · have := hc s hs
      have := hold.nonneg
      omega
  · simpa only [Function.update_of_ne ho] using hold.free

theorem eraseElement_ok (seg seg' : ScSegment) (offset : ℕ)
    (h : scSegmentEraseElement seg offset = .ok seg') :
    offset < 65535 ∧ 0 < seg.num+offset ∧ seg' = { seg with
      elementsCount := seg.elementsCount-1
      elements := Function.update seg.elements offset ScElement.zero
      sections := Function.update seg.sections (offset%32)
        { seg.sections (offset%32) with
          emptyCount := (seg.sections (offset%32)).emptyCount+1
          emptyOffset := offset } } := by
  simp only [scSegmentEraseElement, scSegmentElementsCount, scConcurrencyLevel] at h
  split_ifs at h with h1 h2
  refine ⟨by omega, by omega, ?_⟩
  exact (Except.ok.inj h).symm

theorem eraseElement_holes (seg seg' : ScSegment) (offset : ℕ) (h : HolesOk seg)
    (he : scSegmentEraseElement seg offset = .ok seg') : HolesOk seg' := by
  obtain ⟨hlt, haddr, rfl⟩ := eraseElement_ok seg seg' offset he
  have hw := h.writeCell offset ScElement.zero (Or.inl rfl)
  apply hw.updateSection (offset%32) _ _ (Nat.mod_lt _ (by omega))
  constructor <;> simp only [Function.update_self]
  · omega
  · omega
  · omega
  · simp [ScElement.zero]
  · omega

end ScMachine.Store
