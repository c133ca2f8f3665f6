import ScMachine.Runs
import ScMachine.SegmentHoles

/-! Runs of a segment: allocations that fill the cell they get, allocations that get none,
erasures of occupied cells, and the section locks that any thread takes and gives back. -/
namespace ScMachine.Store
open ScMachine.Runs

inductive SegEvent where
  | allocated (offset : ℕ)
  | refused
  | erased (offset : ℕ)
  | sectionLocked
  | sectionUnlocked
  deriving DecidableEq, Repr

/-- One operation on a segment, by any thread and any context id. -/
inductive SegStep : ScSegment → SegEvent → ScSegment → Prop where
  | allocate (seg seg' : ScSegment) (thread ctxId offset : ℕ) (cell : ScElement)
      (hcell : cell.type ≠ 0)
      (h : scSegmentLockEmptyElement thread ctxId seg = .ok (some offset, seg')) :
      SegStep seg (.allocated offset)
        { seg' with elements := Function.update seg'.elements offset cell }
  | refuse (seg seg' : ScSegment) (thread ctxId : ℕ)
      (h : scSegmentLockEmptyElement thread ctxId seg = .ok (none, seg')) :
      SegStep seg .refused seg'
  | erase (seg seg' : ScSegment) (offset : ℕ) (hocc : (seg.elements offset).type ≠ 0)
      (h : scSegmentEraseElement seg offset = .ok seg') :
      SegStep seg (.erased offset) seg'
  | lock (seg : ScSegment) (thread s : ℕ) (sec : ScSegmentSection)
      (h : scSegmentSectionLock thread (seg.sections s) = .ok sec) :
      SegStep seg .sectionLocked { seg with sections := Function.update seg.sections s sec }
  | unlock (seg : ScSegment) (thread s : ℕ) (sec : ScSegmentSection)
      (h : scSegmentSectionUnlock thread (seg.sections s) = .ok sec) :
      SegStep seg .sectionUnlocked { seg with sections := Function.update seg.sections s sec }

abbrev SegRun := Run SegStep

theorem sectionLock_ok (thread : ℕ) (s sec : ScSegmentSection)
    (h : scSegmentSectionLock thread s = .ok sec) :
    (s.threadLock = 0 ∨ s.threadLock = thread) ∧
      sec = { s with threadLock := thread, lockCount := s.lockCount+1 } := by
  unfold scSegmentSectionLock at h
  split_ifs at h with hc
  exact ⟨by tauto, (Except.ok.inj h).symm⟩

theorem sectionUnlock_ok (thread : ℕ) (s sec : ScSegmentSection)
    (h : scSegmentSectionUnlock thread s = .ok sec) :
    s.threadLock = thread ∧ sec = { s with
      lockCount := s.lockCount-1
      threadLock := if s.lockCount-1 = 0 then 0 else s.threadLock } := by
  unfold scSegmentSectionUnlock at h
  by_cases hc : s.threadLock ≠ thread
  · rw [if_pos hc] at h
    exact absurd h (by simp)
  · rw [if_neg hc] at h
    exact ⟨not_ne_iff.mp hc, (Except.ok.inj h).symm⟩

/-- A section lock touches neither the hole nor the count of the section. -/
theorem HolesOk.lockSection {seg : ScSegment} (h : HolesOk seg) (s : ℕ) (sec : ScSegmentSection)
    (hsec : sec.emptyOffset = (seg.sections s).emptyOffset) :
    HolesOk { seg with sections := Function.update seg.sections s sec } := by
  by_cases hs : s < 32
  · exact h.updateSection s sec _ hs ((h s hs).keepOffset sec hsec)
  · intro t ht
    have hts : t ≠ s := by omega
    have hold := h t ht
    constructor <;> simp only [Function.update_of_ne hts]
    · exact hold.nonneg
    · exact hold.lt
    · exact hold.mod
    · exact hold.free
    · exact hold.notEmptyAddr

theorem segStep_holes (seg : ScSegment) (e : SegEvent) (seg' : ScSegment) (h : HolesOk seg)
    (hs : SegStep seg e seg') : HolesOk seg' := by
  cases hs with
  | allocate seg1 thread ctxId offset cell hcell hl =>
    have hpost := lockEmptyElement_holes thread ctxId seg h
    rw [hl] at hpost
    obtain ⟨h1, _, hout⟩ := hpost
    exact h1.writeCell offset cell (Or.inr hout.notHole)
  | refuse _ thread ctxId hl =>
    have hpost := lockEmptyElement_holes thread ctxId seg h
    rw [hl] at hpost
    exact hpost.1
  | erase _ offset _ he => exact eraseElement_holes seg seg' offset h he
  | lock thread s sec hl =>
    obtain ⟨_, rfl⟩ := sectionLock_ok thread _ _ hl
    exact h.lockSection s _ rfl
  | unlock thread s sec hl =>
    obtain ⟨_, rfl⟩ := sectionUnlock_ok thread _ _ hl
    exact h.lockSection s _ rfl

/-- An occupied cell stays occupied until it is erased. -/
theorem segStep_occupied (seg : ScSegment) (e : SegEvent) (seg' : ScSegment) (offset : ℕ)
    (h : HolesOk seg) (hocc : (seg.elements offset).type ≠ 0) (hs : SegStep seg e seg')
    (he : ∀ o, e ≠ .erased o) : (seg'.elements offset).type ≠ 0 := by
  cases hs with
  | allocate seg1 thread ctxId offset' cell hcell hl =>
    have hpost := lockEmptyElement_holes thread ctxId seg h
    rw [hl] at hpost
    by_cases ho : offset = offset'
    · subst ho
      simpa only [Function.update_self] using hcell
    · simpa only [Function.update_of_ne ho, hpost.2.1.elements] using hocc
  | refuse _ thread ctxId hl =>
    have hpost := lockEmptyElement_holes thread ctxId seg h
    rw [hl] at hpost
    rwa [hpost.2.elements]
  | erase _ offset' _ _ => exact absurd rfl (he offset')
  | lock _ _ _ _ => exact hocc
  | unlock _ _ _ _ => exact hocc

theorem segRun_occupied (seg seg' : ScSegment) (evs : List SegEvent) (offset : ℕ)
    (h : HolesOk seg) (hocc : (seg.elements offset).type ≠ 0) (hr : SegRun seg evs seg')
    (he : ∀ o, SegEvent.erased o ∉ evs) : (seg'.elements offset).type ≠ 0 := by
  have hboth : HolesOk seg' ∧ (seg'.elements offset).type ≠ 0 := by
    apply run_invariant_on (fun s => HolesOk s ∧ (s.elements offset).type ≠ 0) evs seg seg' _
      ⟨h, hocc⟩ hr
    intro a e b hmem ⟨ha, ho⟩ hs
    refine ⟨segStep_holes a e b ha hs, segStep_occupied a e b offset ha ho hs ?_⟩
    intro o heq
    exact he o (heq ▸ hmem)
  exact hboth.2

theorem segRun_new_holes (num : ℕ) (evs : List SegEvent) (seg : ScSegment)
    (hr : SegRun (scSegmentNew num) evs seg) : HolesOk seg :=
  run_invariant HolesOk segStep_holes evs _ _ (segmentNew_holesOk num) hr

/-- Between two allocations of one offset there is an erasure. -/
theorem segRun_allocations_differ (seg0 seg : ScSegment) (pre mid post : List SegEvent)
    (a b : ℕ) (h0 : HolesOk seg0)
    (hr : SegRun seg0 (pre ++ .allocated a :: (mid ++ .allocated b :: post)) seg)
    (hmid : ∀ o, SegEvent.erased o ∉ mid) : a ≠ b := by
  obtain ⟨s1, hpre, s2, ha, hrest⟩ := (run_append _ _ _ _).mp hr
  obtain ⟨s3, hmidrun, s4, hb, _⟩ := (run_append _ _ _ _).mp hrest
  have hh1 : HolesOk s1 := run_invariant HolesOk segStep_holes pre _ _ h0 hpre
  have hh2 : HolesOk s2 := segStep_holes _ _ _ hh1 ha
  have hh3 : HolesOk s3 := run_invariant HolesOk segStep_holes mid _ _ hh2 hmidrun
  rintro rfl
  have hfull : (s2.elements a).type ≠ 0 := by
    cases ha with
    | allocate _ _ _ _ cell hcell _ => simpa only [Function.update_self] using hcell
  have hstill := segRun_occupied s2 s3 mid a hh2 hfull hmidrun hmid
  cases hb with
  | allocate _ thread ctxId _ _ _ hl =>
    have hpost := lockEmptyElement_holes thread ctxId s3 hh3
    rw [hl] at hpost
    exact hstill hpost.2.2.free

/-- The allocator is sound on every run of a new segment: each section remembers a free cell
of its own that is not the empty address, the next call fails no assertion and gets a free
cell if it gets one, and an offset is handed out again only after an erasure. -/
theorem segment_allocator_sound (num : ℕ) (evs : List SegEvent) (seg : ScSegment)
    (hr : SegRun (scSegmentNew num) evs seg) :
    HolesOk seg ∧
    (∀ thread ctxId, ∃ r seg', scSegmentLockEmptyElement thread ctxId seg = .ok (r, seg') ∧
      ∀ offset, r = some offset →
        offset < 65535 ∧ (seg.elements offset).type = 0 ∧ ¬ (seg.num = 0 ∧ offset = 0)) ∧
    (∀ pre mid post a b, evs = pre ++ .allocated a :: (mid ++ .allocated b :: post) →
      (∀ o, SegEvent.erased o ∉ mid) → a ≠ b) := by
  have hh := segRun_new_holes num evs seg hr
  refine ⟨hh, ?_, ?_⟩
  · intro thread ctxId
    obtain ⟨r, seg', hl⟩ := lockEmptyElement_returns thread ctxId seg hh
    refine ⟨r, seg', hl, ?_⟩
    rintro offset rfl
    have hpost := lockEmptyElement_holes thread ctxId seg hh
    rw [hl] at hpost
    obtain ⟨hlt, hfree, haddr, _⟩ := hpost.2.2
    exact ⟨hlt, hfree, by omega⟩
  · intro pre mid post a b hevs hmid
    subst hevs
    exact segRun_allocations_differ _ seg pre mid post a b (segmentNew_holesOk num) hr hmid

/-- A constant node, as `sc_storage_node_new` fills a cell. -/
def constNodeCell : ScElement := { ScElement.zero with type := scTypeNode ||| scTypeConst }

/-- Segment 0 after the first allocation of context 1. -/
def segmentWithOneNode : ScSegment :=
  { (scSegmentNew 0).take 1 1 33 with
    elements := Function.update (fun _ => ScElement.zero) 1 constNodeCell }

def segmentWithTwoNodes : ScSegment :=
  { segmentWithOneNode.take 1 1 65 with
    elements := Function.update segmentWithOneNode.elements 33 constNodeCell }

theorem segRun_two_nodes :
    SegRun (scSegmentNew 0) [.allocated 1, .allocated 33] segmentWithTwoNodes :=
  ⟨segmentWithOneNode, .allocate _ _ 1 1 1 constNodeCell (by decide) rfl,
    segmentWithTwoNodes, .allocate _ _ 1 1 33 constNodeCell (by decide) rfl, rfl⟩

theorem segment_allocator_sound_two_nodes :
    SegRun (scSegmentNew 0) [.allocated 1, .allocated 33] segmentWithTwoNodes ∧
      HolesOk segmentWithTwoNodes :=
  ⟨segRun_two_nodes, (segment_allocator_sound 0 _ _ segRun_two_nodes).1⟩

end ScMachine.Store
