import ScMachine.SubtypeChange
import ScMachine.ArcRemoval

/-! The invariant of a store that a single thread uses: free cells are zeroed, holes are free,
live elements are referenced, and the arc lists are in order. -/
namespace ScMachine.Store
open ScMachine.StateExcept ScMachine.Runs ScMachine.DoublyLinked

/-- Every hole that a section remembers is a free cell of it. -/
def ScStorage.HolesOk (st : ScStorage) : Prop :=
  ∀ n seg, st.segments n = some seg → Store.HolesOk seg

def ScStorage.IsHole (st : ScStorage) (a : ScAddr) : Prop :=
  ∃ seg, st.segments a.seg.toNat = some seg ∧
    ∃ s < 32, (seg.sections s).emptyOffset = a.offset.toNat

/-- What holds of the cells, whoever holds which lock. -/
structure CellsOk (st : ScStorage) : Prop where
  holes : st.HolesOk
  zero : ∀ a, (st.cell a).type = 0 → st.cell a = ScElement.zero
  inRange : ∀ a, (st.cell a).type ≠ 0 → a.offset.toNat < 65535
  oneClass : ∀ a, (st.cell a).isArc = true → (st.cell a).isLink = false
  referenced : ∀ a, Live st.cell a → 1 ≤ st.refCount a
  bounded : ∀ a, st.refCount a < 4294967295
  arcs : ArcsOk st.cell

/-- The invariant: besides, no section is locked by another thread. -/
structure StoreOk (thread : ℕ) (st : ScStorage) : Prop where
  wf : StoreWf st
  own : ∀ k, Lockable thread (st.locks k)
  cells : CellsOk st

section
variable {env : ScEnv} {st st' : ScStorage} {a : ScAddr}

theorem cell_setSegment (n : ℕ) (seg : ScSegment) (b : ScAddr) :
    (st.setSegment n seg).cell b =
      if b.seg.toNat = n then seg.elements b.offset.toNat else st.cell b := by
  unfold ScStorage.cell ScStorage.setSegment
  by_cases h : b.seg.toNat = n
  · simp [h]
  · simp [h]

theorem refCount_setSegment (n : ℕ) (seg : ScSegment) (b : ScAddr) :
    (st.setSegment n seg).refCount b =
      if b.seg.toNat = n then seg.refCount b.offset.toNat else st.refCount b := by
  unfold ScStorage.refCount ScStorage.setSegment
  by_cases h : b.seg.toNat = n
  · simp [h]
  · simp [h]

theorem cell_of_segment {seg : ScSegment} {n : ℕ} (hn : st.segments n = some seg) {b : ScAddr}
    (hb : b.seg.toNat = n) : st.cell b = seg.elements b.offset.toNat := by
  unfold ScStorage.cell
  rw [hb, hn]

theorem refCount_of_segment {seg : ScSegment} {n : ℕ} (hn : st.segments n = some seg) {b : ScAddr}
    (hb : b.seg.toNat = n) : st.refCount b = seg.refCount b.offset.toNat := by
  unfold ScStorage.refCount
  rw [hb, hn]

/-- A segment with the same cells. -/
theorem cell_setSegment_same {n : ℕ} {seg seg' : ScSegment} (hn : st.segments n = some seg)
    (hs : SameCells seg seg') :
    (st.setSegment n seg').cell = st.cell ∧ (st.setSegment n seg').refCount = st.refCount := by
  refine ⟨?_, ?_⟩
  · funext b
    rw [cell_setSegment]
    split_ifs with hb
    · rw [hs.elements, cell_of_segment hn hb]
    · rfl
  · funext b
    rw [refCount_setSegment]
    split_ifs with hb
    · rw [hs.refCount, refCount_of_segment hn hb]
    · rfl

theorem refCount_setCell (a : ScAddr) (el : ScElement) :
    (st.setCell a el).refCount = st.refCount := by
  unfold ScStorage.setCell
  cases hn : st.segments a.seg.toNat with
  | none => rfl
  | some seg =>
    funext b
    simp only [refCount_setSegment]
    split_ifs with hb
    · exact (refCount_of_segment hn hb).symm
    · rfl

theorem cell_setRefCount (a : ScAddr) (n : ℤ) : (st.setRefCount a n).cell = st.cell := by
  unfold ScStorage.setRefCount
  cases hn : st.segments a.seg.toNat with
  | none => rfl
  | some seg =>
    funext b
    simp only [cell_setSegment]
    split_ifs with hb
    · exact (cell_of_segment hn hb).symm
    · rfl

theorem refCount_setRefCount {seg : ScSegment} (hn : st.segments a.seg.toNat = some seg) (n : ℤ) :
    (st.setRefCount a n).refCount = Function.update st.refCount a n := by
  unfold ScStorage.setRefCount
  rw [hn]
  funext b
  by_cases hb : b = a
  · subst hb
    simp [refCount_setSegment]
  · rw [Function.update_of_ne hb]
    simp only [refCount_setSegment]
    split_ifs with hseg
    · rw [Function.update_of_ne (scAddr_ne hb hseg), refCount_of_segment hn hseg]
    · rfl

theorem ScStorage.HolesOk.setSegment (h : st.HolesOk) (n : ℕ) (seg : ScSegment)
    (hseg : Store.HolesOk seg) : (st.setSegment n seg).HolesOk := by
  intro m s hm
  by_cases hmn : m = n
  · subst hmn
    obtain rfl : seg = s := by simpa [ScStorage.setSegment] using hm
    exact hseg
  · exact h m s (by simpa [ScStorage.setSegment, hmn] using hm)

/-- What the segments alone determine. -/
structure SegmentsEq (st st' : ScStorage) : Prop where
  cell : st'.cell = st.cell
  refCount : st'.refCount = st.refCount
  loaded : ∀ y, Loaded st' y ↔ Loaded st y
  holes : st'.HolesOk ↔ st.HolesOk
  isHole : ∀ y, st'.IsHole y ↔ st.IsHole y

theorem segmentsEq_of_eq (hs : st'.segments = st.segments) : SegmentsEq st st' := by
  refine ⟨?_, ?_, ?_, ?_, ?_⟩
  · funext b
    unfold ScStorage.cell
    rw [hs]
  · funext b
    unfold ScStorage.refCount
    rw [hs]
  · intro y
    unfold Loaded ScStorage.segmentOf
    rw [hs]
  · unfold ScStorage.HolesOk
    rw [hs]
  · intro y
    unfold ScStorage.IsHole
    rw [hs]

/-- An occupied cell is no hole. -/
theorem ScStorage.HolesOk.not_hole (h : st.HolesOk) (ha : (st.cell a).type ≠ 0) :
    ¬ st.IsHole a := by
  rintro ⟨seg, hn, s, hs, he⟩
  have hfree := (h _ seg hn s hs).free
  rw [he, Int.toNat_natCast, ← cell_of_segment hn rfl] at hfree
  exact ha hfree

theorem ScStorage.HolesOk.setCell (h : st.HolesOk) (el : ScElement)
    (hc : el.type = 0 ∨ ¬ st.IsHole a) : (st.setCell a el).HolesOk := by
  unfold ScStorage.setCell
  cases hn : st.segments a.seg.toNat with
  | none => exact h
  | some seg =>
    refine h.setSegment _ _ ((h _ seg hn).writeCell _ el ?_)
    rcases hc with hc | hc
    · exact Or.inl hc
    · right
      intro s hs he
      exact hc ⟨seg, hn, s, hs, he⟩

theorem ScStorage.HolesOk.setRefCount (h : st.HolesOk) (a : ScAddr) (n : ℤ) :
    (st.setRefCount a n).HolesOk := by
  unfold ScStorage.setRefCount
  cases hn : st.segments a.seg.toNat with
  | none => exact h
  | some seg =>
    refine h.setSegment _ _ ?_
    intro s hs
    have hold := h _ seg hn s hs
    exact ⟨hold.nonneg, hold.lt, hold.mod, hold.free, hold.notEmptyAddr⟩

theorem ScStorage.HolesOk.of_unlocked (h : st.HolesOk) (hu : st'.unlocked = st.unlocked) :
    st'.HolesOk := by
  intro n seg hn s hs
  rcases segments_of_unlocked hu n with ⟨_, h2⟩ | ⟨seg0, seg1, h1, h2, hseg⟩
  · rw [hn] at h2
    simp at h2
  · obtain rfl : seg = seg1 := Option.some.inj (hn.symm.trans h2)
    obtain ⟨hel, _, hnum, hoff⟩ := segment_eq_of_unlocked hseg
    have hold := h n seg0 h1 s hs
    refine ⟨?_, ?_, ?_, ?_, ?_⟩
    · rw [hoff]
      exact hold.nonneg
    · rw [hoff]
      exact hold.lt
    · rw [hoff]
      exact hold.mod
    · rw [hoff, hel]
      exact hold.free
    · rw [hoff, hnum]
      exact hold.notEmptyAddr

theorem CellsOk.of_unlocked (h : CellsOk st) (hu : st'.unlocked = st.unlocked) : CellsOk st' := by
  have hc := cell_of_unlocked hu
  have hr := refCount_of_unlocked hu
  refine ⟨h.holes.of_unlocked hu, ?_, ?_, ?_, ?_, ?_, ?_⟩
  · rw [hc]
    exact h.zero
  · rw [hc]
    exact h.inRange
  · rw [hc]
    exact h.oneClass
  · rw [hc, hr]
    exact h.referenced
  · rw [hr]
    exact h.bounded
  · rw [hc]
    exact h.arcs

theorem segments_of_type (ha : (st.cell a).type ≠ 0) :
    ∃ seg, st.segments a.seg.toNat = some seg := by
  cases hs : st.segments a.seg.toNat with
  | some seg => exact ⟨seg, rfl⟩
  | none =>
    rw [ScStorage.cell, hs] at ha
    exact absurd rfl ha

theorem CellsOk.loaded (h : CellsOk st) (hs : SegsInRange st) (ha : (st.cell a).type ≠ 0) :
    Loaded st a := by
  obtain ⟨seg, hn⟩ := segments_of_type ha
  exact ⟨⟨seg, by rw [hs.segmentOf]; exact hn⟩, h.inRange a ha⟩

theorem type_of_live (ha : Live st.cell a) : (st.cell a).type ≠ 0 :=
  ((valid_iff_type _).mp ha).1

/-- An occupied cell gets another element of the same class that has the same arcs. -/
theorem CellsOk.update (h : CellsOk st) (ha : (st.cell a).type ≠ 0) (el : ScElement)
    (hh : st'.HolesOk) (hcell : st'.cell = Function.update st.cell a el)
    (href : st'.refCount = st.refCount)
    (htype : el.type ≠ 0) (hlive : scElementIsValid el = scElementIsValid (st.cell a))
    (harc : el.isArc = (st.cell a).isArc) (hlink : el.isLink = (st.cell a).isLink)
    (hfirst : ∀ d, el.first d = (st.cell a).first d)
    (hfield : (st.cell a).isArc = true → ∀ f, el.arc f = (st.cell a).arc f) :
    CellsOk st' := by
  have hc (y : ScAddr) : st'.cell y = if y = a then el else st.cell y := by
    rw [hcell, Function.update_apply]
  have hl (y : ScAddr) : Live st'.cell y ↔ Live st.cell y := by
    unfold Live
    rw [hc]
    split_ifs with hy
    · rw [hy, hlive]
    · rfl
  refine ⟨hh, ?_, ?_, ?_, ?_, ?_, ?_⟩
  · intro y hy
    rw [hc] at hy ⊢
    split_ifs at hy ⊢ with hya
    · exact absurd hy htype
    · exact h.zero y hy
  · intro y hy
    rw [hc] at hy
    split_ifs at hy with hya
    · rw [hya]
      exact h.inRange a ha
    · exact h.inRange y hy
  · intro y hy
    rw [hc] at hy ⊢
    split_ifs at hy ⊢ with hya
    · rw [hlink]
      exact h.oneClass a (harc ▸ hy)
    · exact h.oneClass y hy
  · intro y hy
    rw [href]
    exact h.referenced y ((hl y).mp hy)
  · rw [href]
    exact h.bounded
  · apply h.arcs.congr hl
    · intro y _
      rw [hc]
      split_ifs with hya
      · rw [hya, harc]
      · rfl
    · intro y d _
      rw [hc]
      split_ifs with hya
      · rw [hya, hfirst]
      · rfl
    · intro y f hy
      rw [hc]
      split_ifs with hya
      · rw [hya] at hy ⊢
        exact hfield hy.2 f
      · rfl

/-- What an allocation that hands out `a` does to the cells. -/
structure Appended (st : ScStorage) (a : ScAddr) (st' : ScStorage) : Prop where
  cell : st'.cell = st.cell
  free : (st.cell a).type = 0
  notEmpty : a ≠ ScAddr.empty
  refCount : st'.refCount = Function.update st.refCount a 1
  holes : st'.HolesOk
  notHole : ¬ st'.IsHole a
  fileMemory : st'.fileMemory = st.fileMemory

theorem accessLvlMin_zero (levels : ScAccessLevels) : scAccessLvlMin levels 0 = 0 := by
  simp [scAccessLvlMin, scMin]

theorem addr_eq_of_toNat {a b : ScAddr} (hs : a.seg.toNat = b.seg.toNat)
    (ho : a.offset.toNat = b.offset.toNat) : a = b := by
  by_contra hne
  exact scAddr_ne hne hs ho

theorem HolesOk.congr {seg seg' : ScSegment} (h : HolesOk seg) (hel : seg'.elements = seg.elements)
    (hnum : seg'.num = seg.num) (hsec : seg'.sections = seg.sections) : HolesOk seg' := by
  intro s hs
  have hold := h s hs
  refine ⟨?_, ?_, ?_, ?_, ?_⟩
  · rw [hsec]
    exact hold.nonneg
  · rw [hsec]
    exact hold.lt
  · rw [hsec]
    exact hold.mod
  · rw [hsec, hel]
    exact hold.free
  · rw [hsec, hnum]
    exact hold.notEmptyAddr

/-- The cell that is handed out, as the caller gets it, is still zeroed. -/
theorem prepareCell_elements {seg : ScSegment} {o : ℕ} (ctx : ScContext)
    (hz : seg.elements o = ScElement.zero) : (seg.prepareCell ctx o).elements = seg.elements := by
  have hel : ({ seg.elements o with
      accessLevels := scAccessLvlMin ctx.accessLevels (seg.elements o).accessLevels } : ScElement) =
      seg.elements o := by
    rw [hz]
    simp only [ScElement.zero, accessLvlMin_zero]
  unfold ScSegment.prepareCell
  simp only [hel, Function.update_eq_self]

theorem appended_of_handedOut {n offset : ℕ} {seg seg' : ScSegment} (hs : SegsInRange st)
    (hn : st.segments n = some seg) (hlt : n < 65535) (hh : st.HolesOk)
    (hz : ∀ a, (st.cell a).type = 0 → st.cell a = ScElement.zero) (hsame : SameCells seg seg')
    (hholes : HolesOk seg') (hout : HandedOut seg offset seg') (ctx : ScContext) :
    Appended st ⟨BitVec.ofNat 16 seg'.num, BitVec.ofNat 16 offset⟩
      (st.setSegment n (seg'.prepareCell ctx offset)) := by
  have hnum : seg'.num = n := by
    rw [hsame.num]
    exact hs.num n seg hn
  have hoff := hout.lt
  have hsegN : (BitVec.ofNat 16 seg'.num).toNat = n := by
    rw [hnum]
    exact toNat_ofNat16 n (by omega)
  have hoffN : (BitVec.ofNat 16 offset).toNat = offset := toNat_ofNat16 offset (by omega)
  set a : ScAddr := ⟨BitVec.ofNat 16 seg'.num, BitVec.ofNat 16 offset⟩
  have hcella : st.cell a = seg.elements offset := by
    rw [cell_of_segment hn hsegN]
    simp only [a, hoffN]
  have hzero : seg'.elements offset = ScElement.zero := by
    rw [hsame.elements, ← hcella]
    exact hz a (by rw [hcella]; exact hout.free)
  have hprep := prepareCell_elements ctx hzero
  refine ⟨?_, ?_, ?_, ?_, ?_, ?_, rfl⟩
  · funext b
    rw [cell_setSegment]
    split_ifs with hb
    · rw [hprep, hsame.elements, cell_of_segment hn hb]
    · rfl
  · rw [hcella]
    exact hout.free
  · intro he
    have h0 : (BitVec.ofNat 16 seg'.num).toNat = 0 := by
      have := congrArg (fun b : ScAddr => b.seg.toNat) he
      exact this
    have h1 : (BitVec.ofNat 16 offset).toNat = 0 := by
      have := congrArg (fun b : ScAddr => b.offset.toNat) he
      exact this
    have hpos := hout.notEmptyAddr
    rw [hs.num n seg hn] at hpos
    omega
  · funext b
    by_cases hb : b = a
    · rw [hb, Function.update_self, refCount_setSegment, if_pos hsegN]
      simp only [a, hoffN, ScSegment.prepareCell, Function.update_self]
    · rw [Function.update_of_ne hb, refCount_setSegment]
      split_ifs with hseg
      · have hne : b.offset.toNat ≠ offset := by
          intro ho
          refine hb (addr_eq_of_toNat ?_ ?_)
          · exact hseg.trans hsegN.symm
          · exact ho.trans hoffN.symm
        simp only [ScSegment.prepareCell, Function.update_of_ne hne]
        rw [hsame.refCount, refCount_of_segment hn hseg]
      · rfl
  · exact hh.setSegment _ _ (hholes.congr hprep rfl rfl)
  · rintro ⟨seg1, hseg1, s, hs32, he⟩
    have hseg1' : seg'.prepareCell ctx offset = seg1 := by
      simpa [ScStorage.setSegment, a, hsegN] using hseg1
    subst hseg1'
    refine hout.notHole s hs32 ?_
    simp only [a, hoffN] at he
    exact he

/-- An allocation leaves the cells as they are; the one that it hands out is free and is no
longer a hole. -/
theorem appendEl_cells {L : SectionKey → LockWord} {as : List ScAddr}
    (h : Holds env.thread L as st) (hh : st.HolesOk)
    (hz : ∀ a, (st.cell a).type = 0 → st.cell a = ScElement.zero) (ctx : ScContext) :
    IfReturns (scStorageAppendElIntoSegments env ctx)
      (fun r st' => (r = none → st' = st) ∧ ∀ a, r = some a → Appended st a st') st := by
  unfold scStorageAppendElIntoSegments
  simp only [IfReturns, wp_bind, wp_get, wp_ite, wp_pure]
  refine ⟨fun _ => by simp, fun _ => ?_⟩
  refine wp_mono (appendElLoop_wp env ctx (fun s => Holds env.thread L as s ∧ s.HolesOk ∧
    s.cell = st.cell ∧ s.refCount = st.refCount ∧ s.fileMemory = st.fileMemory)
    (fun a s => Appended st a s) (fun _ => True) ?_ ?_ ?_ ?_ ?_ ?_ trivial _ st
    ⟨h, hh, rfl, rfl, rfl⟩) ?_ (fun _ _ => trivial)
  · intro s ⟨h1, hh1, hc, hr, hf⟩
    refine cacheGet_wp env ctx s _ _ (fun _ _ => ⟨h1, hh1, hc, hr, hf⟩) ?_ (fun _ _ => trivial)
    intro _ hlt
    have hnew := h1.withNewSegment hlt
    have hco := refilled_cacheOnly env s
    have hfresh := h1.segs.fresh s.segmentsNum le_rfl
    refine ⟨hnew.cacheOnly hco, ?_, ?_, ?_, ?_⟩
    · intro m seg hm
      rw [hco.segments] at hm
      exact hh1.setSegment s.segmentsNum _ (segmentNew_holesOk _) m seg hm
    · rw [← hc]
      funext b
      unfold ScStorage.cell
      rw [hco.segments]
      by_cases hb : b.seg.toNat = s.segmentsNum
      · simp [ScStorage.withNewSegment, ScStorage.setSegment, hb, hfresh, scSegmentNew]
      · simp [ScStorage.withNewSegment, ScStorage.setSegment, hb]
    · rw [← hr]
      funext b
      unfold ScStorage.refCount
      rw [hco.segments]
      by_cases hb : b.seg.toNat = s.segmentsNum
      · simp [ScStorage.withNewSegment, ScStorage.setSegment, hb, hfresh, scSegmentNew]
      · simp [ScStorage.withNewSegment, ScStorage.setSegment, hb]
    · rw [hco.fileMemory]
      exact hf
  · intros
    trivial
  · intros
    trivial
  · intros
    trivial
  · intro s n seg offset seg' ⟨h1, hh1, hc, hr, hf⟩ hn hl
    have hpost := lockEmptyElement_holes env.thread ctx.id seg (hh1 n seg hn)
    rw [hl] at hpost
    obtain ⟨hholes, hsame, hout⟩ := hpost
    have happ := appended_of_handedOut h1.segs hn (h1.segment_lt hn) hh1 (by rw [hc]; exact hz)
      hsame hholes hout ctx
    exact ⟨happ.cell.trans hc, hc ▸ happ.free, happ.notEmpty, hr ▸ happ.refCount, happ.holes,
      happ.notHole, happ.fileMemory.trans hf⟩
  · intro s n seg seg' ⟨h1, hh1, hc, hr, hf⟩ hn hl
    have hpost := lockEmptyElement_holes env.thread ctx.id seg (hh1 n seg hn)
    rw [hl] at hpost
    obtain ⟨hholes, hsame⟩ := hpost
    have hwords := lockEmptyElement_words env.thread ctx.id seg (h1.segs.range n seg hn)
      (h1.lockWord_wf env.thread_ne hn)
    rw [hl] at hwords
    have hco := cacheRemove_cacheOnly ctx n (s.setSegment n seg')
    obtain ⟨hc', hr'⟩ := cell_setSegment_same hn hsame
    refine ⟨(h1.setSegment hn hwords.1 hwords.2.1 hwords.2.2).cacheOnly hco, ?_, ?_, ?_, ?_⟩
    · intro m seg1 hm
      rw [hco.segments] at hm
      exact hh1.setSegment n seg' hholes m seg1 hm
    · rw [← hc, ← hc']
      funext b
      unfold ScStorage.cell
      rw [hco.segments]
    · rw [← hr, ← hr']
      funext b
      unfold ScStorage.refCount
      rw [hco.segments]
    · rw [hco.fileMemory]
      exact hf
  · intro r s hr
    obtain ⟨a, rfl, ha⟩ := hr
    exact ⟨by simp, fun b hb => Option.some.inj hb ▸ ha⟩

end

end ScMachine.Store
