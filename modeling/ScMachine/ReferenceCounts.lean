import ScMachine.ArcInvariant

/-! What taking and dropping a reference does to the store (`_sc_storage_ref_common`,
`sc_storage_element_unref`). -/
namespace ScMachine.Store
open ScMachine.StateExcept ScMachine.Runs ScMachine.DoublyLinked

/-- What a change of a reference count leaves as it was. -/
structure CountSet (st : ScStorage) (a : ScAddr) (n : ℤ) (st' : ScStorage) : Prop where
  cell : st'.cell = st.cell
  refCount : st'.refCount = Function.update st.refCount a n
  holes : st.HolesOk → st'.HolesOk
  loaded : ∀ y, Loaded st' y ↔ Loaded st y
  fileMemory : st'.fileMemory = st.fileMemory

/-- When a change of the count of `a` by `dir` returns. -/
structure Countable (thread : ℕ) (L : SectionKey → LockWord) (st : ScStorage) (a : ScAddr)
    (dir : ℤ) : Prop where
  notEmpty : a ≠ ScAddr.empty
  loaded : Loaded st a
  lockable : Lockable thread (L a.key)
  positive : 0 < st.refCount a
  bounded : st.refCount a+dir < 4294967295

section
variable {env : ScEnv} {L : SectionKey → LockWord} {as : List ScAddr} {st st' s s' : ScStorage}
  {a b : ScAddr}

theorem loaded_setRefCount (n : ℤ) (y : ScAddr) : Loaded (st.setRefCount a n) y ↔ Loaded st y := by
  unfold ScStorage.setRefCount
  cases hn : st.segments a.seg.toNat with
  | none => rfl
  | some seg =>
    unfold Loaded ScStorage.segmentOf
    by_cases hy : y.seg.toNat = a.seg.toNat
    · simp [ScStorage.setSegment, hy, hn]
    · simp [ScStorage.setSegment, hy]

theorem metaOk_of_holds (h : Holds env.thread L (a :: as) s) : scStorageMetaOk env a s = true := by
  obtain ⟨⟨seg, hs⟩, hoff⟩ := h.loaded a List.mem_cons_self
  have hn : s.segments a.seg.toNat = some seg := by rw [← h.segs.segmentOf]; exact hs
  have hword : s.locks a.key = seg.lockWord (a.offset.toNat%32) := locks_of_segment hn _
  have howner : (s.locks a.key).1 = env.thread := by
    rw [h.locks]
    simp [addLocks]
  rw [hword] at howner
  unfold scStorageMetaOk scSegmentMetaOk
  rw [hs]
  simp only [Bool.decide_and, Bool.and_eq_true, decide_eq_true_eq]
  exact ⟨howner, hoff⟩

/-- The count changes by `dir` under the lock of the element. -/
theorem refCommon_wp (h : Holds env.thread L as st) (a : ScAddr) (dir : ℤ) :
    Wp (scStorageRefCommon env a dir)
      (fun r st' => Countable env.thread L st a dir ∧ (r = true ↔ st.refCount a+dir = 0) ∧
        CountSet st a (st.refCount a+dir) st' ∧ Holds env.thread L as st')
      (fun _ => ¬ Countable env.thread L st a dir) st := by
  unfold scStorageRefCommon
  simp only [wp_bind, wp_scAssert]
  constructor
  swap
  · intro he hc
    exact hc.notEmpty (by simpa using he)
  intro hne
  have hne' : a ≠ ScAddr.empty := by simpa using hne
  apply wp_mono (elementLock_wp h a)
  swap
  · intro _ hstop hc
    rcases hstop with hoff | hlock
    · exact absurd hc.loaded.2 (by omega)
    · exact hlock hc.lockable
  intro r s1 ⟨hu, hloaded, h1⟩
  cases r with
  | false =>
    intro hc
    simpa using hloaded.mpr hc.loaded
  | true =>
    have hl : Loaded st a := hloaded.mp rfl
    have hlk : Lockable env.thread (L a.key) := h1.lockable a List.mem_cons_self
    have hcount : s1.refCount a = st.refCount a := by rw [refCount_of_unlocked hu]
    simp only [Bool.not_true, Bool.false_eq_true, if_false, wp_bind, wp_get, wp_scAssert, wp_modify,
      metaOk_of_holds h1, hcount, decide_eq_true_eq, decide_eq_false_iff_not, forall_const,
      false_implies, and_true, Bool.true_eq_false]
    constructor
    swap
    · intro hpos hc
      exact hpos hc.positive
    intro hpos
    constructor
    swap
    · intro hb hc
      exact hb hc.bounded
    intro hb
    obtain ⟨⟨seg, hseg⟩, _⟩ := h1.loaded a List.mem_cons_self
    rw [h1.segs.segmentOf] at hseg
    apply unlock_rule (h1.setRefCount a _)
    intro s2 hu2 h2
    refine ⟨⟨hne', hl, hlk, hpos, hb⟩, by simp, ⟨?_, ?_, ?_, ?_, ?_⟩, h2⟩
    · rw [cell_of_unlocked hu2, cell_setRefCount, cell_of_unlocked hu]
    · rw [refCount_of_unlocked hu2, refCount_setRefCount hseg, refCount_of_unlocked hu]
    · intro hh
      exact ((hh.of_unlocked hu).setRefCount a _).of_unlocked hu2
    · intro y
      rw [loaded_of_unlocked hu2, loaded_setRefCount, loaded_of_unlocked hu]
    · rw [fileMemory_of_unlocked hu2, ← fileMemory_of_unlocked hu]
      unfold ScStorage.setRefCount
      split <;> rfl

theorem elementRef_wp (h : Holds env.thread L as st) (a : ScAddr) :
    Wp (scStorageElementRef env a)
      (fun _ st' => Countable env.thread L st a 1 ∧ CountSet st a (st.refCount a+1) st' ∧
        Holds env.thread L as st')
      (fun _ => ¬ Countable env.thread L st a 1) st := by
  unfold scStorageElementRef
  rw [wp_bind]
  apply wp_mono (refCommon_wp h a 1) _ (fun _ he => he)
  intro r s1 ⟨hc, _, hset, h1⟩
  exact ⟨hc, hset, h1⟩

/-- A dropped reference; with the last one the cell is zeroed. -/
structure Unrefed (st : ScStorage) (a : ScAddr) (st' : ScStorage) : Prop where
  cell : st'.cell = if st.refCount a = 1 then Function.update st.cell a ScElement.zero else st.cell
  refCount : st'.refCount = Function.update st.refCount a (st.refCount a-1)
  holes : st.HolesOk → st'.HolesOk
  loaded : ∀ y, Loaded st' y ↔ Loaded st y
  fileMemory : st'.fileMemory = st.fileMemory

/-- The cell of `a` is free again. -/
structure CellErased (st : ScStorage) (a : ScAddr) (st' : ScStorage) : Prop where
  cell : st'.cell = Function.update st.cell a ScElement.zero
  refCount : st'.refCount = st.refCount
  holes : st.HolesOk → st'.HolesOk
  loaded : ∀ y, Loaded st' y ↔ Loaded st y
  fileMemory : st'.fileMemory = st.fileMemory

theorem loaded_setSegment {n : ℕ} {seg seg' : ScSegment} (hn : st.segments n = some seg)
    (y : ScAddr) : Loaded (st.setSegment n seg') y ↔ Loaded st y := by
  unfold Loaded ScStorage.segmentOf
  by_cases hy : y.seg.toNat = n
  · simp [ScStorage.setSegment, hy, hn]
  · simp [ScStorage.setSegment, hy]

theorem cellErased_setSegment {seg seg' : ScSegment} (hn : st.segments a.seg.toNat = some seg)
    (he : scSegmentEraseElement seg a.offset.toNat = .ok seg') :
    CellErased st a (st.setSegment a.seg.toNat seg') := by
  obtain ⟨_, _, hseg'⟩ := eraseElement_ok seg seg' _ he
  refine ⟨?_, ?_, ?_, loaded_setSegment hn, rfl⟩
  · funext y
    by_cases hy : y = a
    · subst hy
      rw [Function.update_self, cell_setSegment, if_pos rfl, hseg']
      simp only [Function.update_self]
    · rw [Function.update_of_ne hy, cell_setSegment]
      split_ifs with hs
      · rw [hseg', cell_of_segment hn hs]
        simp only [Function.update_of_ne (scAddr_ne hy hs)]
      · rfl
  · funext y
    rw [refCount_setSegment]
    split_ifs with hs
    · rw [hseg', refCount_of_segment hn hs]
    · rfl
  · intro hh
    exact hh.setSegment _ _ (eraseElement_holes seg seg' _ (hh _ seg hn) he)

/-- An element whose lock is held can be erased, unless it has the empty address. -/
theorem eraseFromSegment_wp (h : Holds env.thread L (a :: as) st) (hne : a ≠ ScAddr.empty)
    (E : ScStop → Prop) :
    Wp (scStorageEraseElementFromSegment a)
      (fun _ st' => CellErased st a st' ∧ Holds env.thread L (a :: as) st') E st := by
  obtain ⟨⟨seg, hs⟩, hoff⟩ := h.loaded a List.mem_cons_self
  have hn : st.segments a.seg.toNat = some seg := by rw [← h.segs.segmentOf]; exact hs
  have howner : (st.locks a.key).1 = env.thread := by
    rw [h.locks]
    simp [addLocks]
  have hword : st.locks a.key = seg.lockWord (a.offset.toNat%32) := locks_of_segment hn _
  have hthread : (seg.sections (a.offset.toNat%32)).threadLock ≠ 0 := by
    rw [hword] at howner
    intro h0
    exact env.thread_ne (howner.symm.trans h0)
  have hnum := h.segs.num _ seg hn
  have haddr : ¬ (a.offset.toNat = 0 ∧ seg.num = 0) := by
    rintro ⟨h0, h1⟩
    rw [hnum] at h1
    exact hne (addr_eq_of_toNat h1 h0)
  obtain ⟨seg', he⟩ : ∃ seg', scSegmentEraseElement seg a.offset.toNat = .ok seg' := by
    simp only [scSegmentEraseElement, scSegmentElementsCount, scConcurrencyLevel]
    rw [if_neg (by rintro (h0 | h0) <;> [exact hthread h0; omega]), if_neg haddr]
    exact ⟨_, rfl⟩
  unfold Wp scStorageEraseElementFromSegment
  simp only [hn, he, bind, Except.bind]
  exact ⟨cellErased_setSegment hn he, h.eraseElement hn he⟩

theorem CellErased.of_segments (h : CellErased st a s) (hs : s'.segments = s.segments)
    (hf : s'.fileMemory = s.fileMemory) : CellErased st a s' := by
  have he := segmentsEq_of_eq hs
  exact ⟨he.cell.trans h.cell, he.refCount.trans h.refCount, fun hh => he.holes.mpr (h.holes hh),
    fun y => (he.loaded y).trans (h.loaded y), hf.trans h.fileMemory⟩

theorem eraseUnreferenced_wp (h : Holds env.thread L as st) (hne : a ≠ ScAddr.empty)
    (hl : Loaded st a) (hlk : Lockable env.thread (L a.key)) (E : ScStop → Prop) :
    Wp (eraseUnreferenced env a)
      (fun _ st' => CellErased st a st' ∧ Holds env.thread L as st') E st := by
  unfold eraseUnreferenced
  rw [wp_bind]
  apply wp_mono (elementLock_wp h a)
  swap
  · intro _ hstop
    rcases hstop with hoff | hlock
    · exact absurd hl.2 (by omega)
    · exact absurd hlk hlock
  intro r s1 ⟨hu, hloaded, h1⟩
  cases r with
  | false => simpa using hloaded.mpr hl
  | true =>
    simp only [Bool.not_true, Bool.false_eq_true, if_false, wp_bind, wp_modify]
    apply wp_mono (eraseFromSegment_wp h1 hne E) _ (fun _ he => he)
    intro _ s2 ⟨her, h2⟩
    have hco := cacheAppend_cacheOnly env a.seg.toNat s2
    have her' := her.of_segments hco.segments hco.fileMemory
    apply unlock_rule (h2.cacheOnly hco)
    intro s3 hu3 h3
    refine ⟨⟨?_, ?_, ?_, ?_, ?_⟩, h3⟩
    · rw [cell_of_unlocked hu3, her'.cell, cell_of_unlocked hu]
    · rw [refCount_of_unlocked hu3, her'.refCount, refCount_of_unlocked hu]
    · intro hh
      exact (her'.holes (hh.of_unlocked hu)).of_unlocked hu3
    · intro y
      rw [loaded_of_unlocked hu3, her'.loaded, loaded_of_unlocked hu]
    · rw [fileMemory_of_unlocked hu3, her'.fileMemory, fileMemory_of_unlocked hu]

theorem elementUnref_wp (h : Holds env.thread L as st) (a : ScAddr) :
    Wp (scStorageElementUnref env a)
      (fun r st' => Countable env.thread L st a (-1) ∧ (r = true ↔ st.refCount a = 1) ∧
        Unrefed st a st' ∧ Holds env.thread L as st')
      (fun _ => ¬ Countable env.thread L st a (-1)) st := by
  unfold scStorageElementUnref
  rw [wp_bind]
  apply wp_mono (refCommon_wp h a (-1)) _ (fun _ he => he)
  intro r s1 ⟨hc, hr, hset, h1⟩
  have hone : st.refCount a+-1 = 0 ↔ st.refCount a = 1 := by omega
  have hcount : st.refCount a+-1 = st.refCount a-1 := by omega
  rw [wp_ite]
  constructor
  · intro htrue
    have h1' : st.refCount a = 1 := hone.mp (hr.mp htrue)
    rw [wp_bind]
    apply wp_mono (eraseUnreferenced_wp h1 hc.notEmpty ((hset.loaded a).mpr hc.loaded) hc.lockable
      (fun _ => ¬ Countable env.thread L st a (-1))) _ (fun _ he => he)
    intro _ s2 ⟨her, h2⟩
    refine ⟨hc, by simp [h1'], ⟨?_, ?_, ?_, ?_, ?_⟩, h2⟩
    · rw [her.cell, hset.cell, if_pos h1']
    · rw [her.refCount, hset.refCount, hcount]
    · intro hh
      exact her.holes (hset.holes hh)
    · intro y
      rw [her.loaded, hset.loaded]
    · rw [her.fileMemory, hset.fileMemory]
  · intro hfalse
    have h1' : ¬ st.refCount a = 1 := fun he => hfalse (hr.mpr (hone.mpr he))
    refine ⟨hc, by simp [h1'], ⟨?_, ?_, ?_, ?_, ?_⟩, h1⟩
    · rw [hset.cell, if_neg h1']
    · rw [hset.refCount, hcount]
    · exact hset.holes
    · exact hset.loaded
    · exact hset.fileMemory

end

end ScMachine.Store
