import ScMachine.IteratorCounts

/-! Who holds references of an element: the store as long as it is live, and besides the holders
of a list. -/
namespace ScMachine.Store
open ScMachine.StateExcept ScMachine.Runs

/-- The count of an element covers its own reference and the entries of `held`, and the free cells
are those without references. -/
structure RefsHeld (st : ScStorage) (held : List ScAddr) : Prop where
  count : ∀ a, (if Live st.cell a then 1 else 0)+(held.count a : ℤ) ≤ st.refCount a
  free : ∀ a, (st.cell a).type = 0 ↔ st.refCount a = 0

/-- In the middle of a call: the sections of `as` are locked. -/
structure Tracked (env : ScEnv) (L : SectionKey → LockWord) (as held : List ScAddr)
    (st : ScStorage) : Prop where
  holds : Holds env.thread L as st
  cells : CellsOk st
  refs : RefsHeld st held

section
variable {env : ScEnv} {L : SectionKey → LockWord} {as held : List ScAddr} {st st' s : ScStorage}
  {a : ScAddr} {ctx : ScContext}

theorem RefsHeld.count_free (h : RefsHeld st held) (ha : (st.cell a).type = 0) :
    held.count a = 0 := by
  have hc := h.count a
  rw [(h.free a).mp ha] at hc
  split_ifs at hc <;> omega

/-- A held cell is not free. -/
theorem RefsHeld.type_ne (h : RefsHeld st held) (ha : a ∈ held) : (st.cell a).type ≠ 0 := by
  intro hfree
  have hzero := h.count_free hfree
  exact absurd ha (List.count_eq_zero.mp hzero)

theorem RefsHeld.positive (h : RefsHeld st held) (ha : (st.cell a).type ≠ 0) : 0 < st.refCount a := by
  have hc := h.count a
  have hne : st.refCount a ≠ 0 := fun hzero => ha ((h.free a).mpr hzero)
  split_ifs at hc <;> omega

/-- More references than holders do no harm. -/
theorem RefsHeld.mono {held' : List ScAddr} (h : RefsHeld st held)
    (hle : ∀ y, held'.count y ≤ held.count y) : RefsHeld st held' := by
  refine ⟨fun y => ?_, h.free⟩
  have hc := h.count y
  have hy := hle y
  omega

theorem RefsHeld.of_unlocked (h : RefsHeld st held) (hu : st'.unlocked = st.unlocked) :
    RefsHeld st' held := by
  refine ⟨?_, ?_⟩
  · rw [cell_of_unlocked hu, refCount_of_unlocked hu]
    exact h.count
  · rw [cell_of_unlocked hu, refCount_of_unlocked hu]
    exact h.free

theorem RefsHeld.take (h : RefsHeld st held) (hpos : 0 < st.refCount a)
    (hset : CountSet st a (st.refCount a+1) st') : RefsHeld st' (a :: held) := by
  refine ⟨fun y => ?_, fun y => ?_⟩
  · have hc := h.count y
    rw [hset.cell, hset.refCount]
    by_cases hya : y = a
    · rw [hya, Function.update_self, List.count_cons_self]
      rw [hya] at hc
      push_cast
      omega
    · rw [Function.update_of_ne hya, List.count_cons_of_ne (Ne.symm hya)]
      exact hc
  · rw [hset.cell, hset.refCount, h.free]
    by_cases hya : y = a
    · rw [hya, Function.update_self]
      omega
    · rw [Function.update_of_ne hya]

theorem RefsHeld.two (h : RefsHeld st (a :: held)) (ha : Live st.cell a) : 2 ≤ st.refCount a := by
  have hc := h.count a
  rw [if_pos ha, List.count_cons_self] at hc
  push_cast at hc
  omega

/-- With the last reference of a dead element its cell becomes free. -/
theorem RefsHeld.drop (h : RefsHeld st (a :: held)) (hun : Unrefed st a st') : RefsHeld st' held := by
  have hlive := hun.live_iff h.two
  refine ⟨fun y => ?_, fun y => ?_⟩
  · have hc := h.count y
    simp only [hlive]
    rw [hun.refCount]
    by_cases hya : y = a
    · rw [hya, Function.update_self]
      rw [hya, List.count_cons_self] at hc
      push_cast at hc
      omega
    · rw [Function.update_of_ne hya]
      rw [List.count_cons_of_ne (Ne.symm hya)] at hc
      exact hc
  · rw [hun.refCount]
    by_cases hya : y = a
    · rw [hya, Function.update_self]
      by_cases hone : st.refCount a = 1
      · -- the cell has been zeroed
        rw [hun.cell, if_pos hone, Function.update_self]
        exact iff_of_true rfl (by omega)
      · have hne := h.type_ne (List.mem_cons_self (a := a) (l := held))
        rw [hun.cell_other a (fun _ => hone)]
        exact iff_of_false hne (by omega)
    · rw [hun.cell_other y (fun he => absurd he hya), Function.update_of_ne hya]
      exact h.free y

/-! What the operations of the store do to the counts. -/

/-- A new element had no holders. -/
theorem RefsHeld.create {c : Cells} (h : RefsHeld st held) (hcr : Created st a c st')
    (htype : (c a).type ≠ 0) (hsame : ∀ y, y ≠ a → (c y).type = (st.cell y).type) :
    RefsHeld st' held := by
  obtain ⟨href, _, hfree, hcell⟩ := hcr.refCount
  have hzero := h.count_free hfree
  refine ⟨fun y => ?_, fun y => ?_⟩
  · rw [href]
    by_cases hya : y = a
    · rw [hya, Function.update_self, hzero]
      split_ifs <;> simp
    · have hlive : Live st'.cell y ↔ Live st.cell y := by
        unfold Live scElementIsValid scElementIsRequestDeletion
        rw [hcell, hsame y hya]
      simp only [hlive]
      rw [Function.update_of_ne hya]
      exact h.count y
  · rw [hcell, href]
    by_cases hya : y = a
    · rw [hya, Function.update_self]
      exact iff_of_false htype one_ne_zero
    · rw [hsame y hya, Function.update_of_ne hya]
      exact h.free y

/-- An element that is removed gives up its own reference. -/
theorem RefsHeld.erase {D : List ScAddr} (h : RefsHeld st held) (hD : ∀ x ∈ D, Live st.cell x)
    (he : Erased env st D st') : RefsHeld st' held := by
  refine ⟨fun y => ?_, fun y => ?_⟩
  · have hc := h.count y
    rw [he.refCount]
    by_cases hyD : y ∈ D
    · rw [if_pos hyD, if_neg (he.cells.dead y hyD)]
      rw [if_pos (hD y hyD)] at hc
      omega
    · rw [if_neg hyD]
      simp only [(he.cells.same y hyD).live]
      exact hc
  · rw [he.refCount]
    by_cases hyD : y ∈ D
    · rw [if_pos hyD]
      by_cases hone : st.refCount y = 1
      · rw [he.cells.zero y hyD hone]
        exact iff_of_true rfl (by omega)
      · -- the flag that is left in the cell is not zero
        have hne : (st'.cell y).type ≠ 0 := by
          rw [he.cells.flagged y hyD hone]
          intro hzero
          exact absurd (BitVec.or_eq_zero_iff.mp hzero).2 (by decide)
        exact iff_of_false hne (by omega)
    · rw [(he.cells.same y hyD).type, if_neg hyD]
      exact h.free y

theorem RefsHeld.update {el : ScElement} {fm : FileMemory} (h : RefsHeld st held)
    (hup : CellUpdated st a el fm st') (hold : (st.cell a).type ≠ 0) (htype : el.type ≠ 0)
    (hlive : scElementIsValid el = true → Live st.cell a) : RefsHeld st' held := by
  refine ⟨fun y => ?_, fun y => ?_⟩
  · have hc := h.count y
    rw [hup.refCount]
    have himp : Live st'.cell y → Live st.cell y := by
      unfold Live
      rw [hup.cell]
      by_cases hya : y = a
      · rw [hya, Function.update_self]
        exact hlive
      · rw [Function.update_of_ne hya]
        exact id
    by_cases hl : Live st'.cell y
    · rw [if_pos hl]
      rw [if_pos (himp hl)] at hc
      exact hc
    · rw [if_neg hl]
      split_ifs at hc
      · omega
      · exact hc
  · rw [hup.cell, hup.refCount, ← h.free]
    by_cases hya : y = a
    · rw [hya, Function.update_self]
      exact iff_of_false htype hold
    · rw [Function.update_of_ne hya]

/-- What the store does by itself keeps the references of the holders. -/
theorem Effect.refsHeld {c : StorageCall} (h : Effect env st (.call c) st') (hc : CellsOk st)
    (hallow : (StoreAction.call c).Allowed st) (hr : RefsHeld st held) : RefsHeld st' held := by
  cases h with
  | same _ _ hu => exact hr.of_unlocked hu
  | nodeNew ctx type a _ _ hcr =>
    apply hr.create hcr
    · rw [Function.update_self]
      exact nodeCell_type ctx type
    · intro y hy
      rw [Function.update_of_ne hy]
  | linkNew ctx isConst a _ hcr =>
    apply hr.create hcr
    · rw [Function.update_self]
      exact (linkCell_type ctx isConst).1
    · intro y hy
      rw [Function.update_of_ne hy]
  | arcNew ctx type beg end_ a _ hcr =>
    have hlive := (hcr.isArc hc).1
    rw [hcr.created.refCount.2.2.2] at hlive
    apply hr.create hcr.created ((valid_iff_type _).mp hlive).1
    intro y hy
    exact (linkCells_same type beg end_ ctx.accessLevels _ _ y hy).1
  | freed ctx order a _ hl _ he =>
    apply hr.erase _ he
    intro x hx
    exact ((mem_erasedList hc.arcs hl order x).mp hx).live hl
  | contentSet ctx a stream _ hl hk hup =>
    apply hr.update hup (type_of_live hl)
    · exact ((valid_iff_type _).mp (contentCell_live _ _ hk hl)).1
    · exact fun _ => hl
  | levelsSet ctx a levels _ ha hup => exact hr.update hup ha ha id
  | subtypeChanged ctx a type _ hl _ hup => exact hr.update hup (type_of_live hl) hallow.1 fun _ => hl

/-! The steps of a call that takes and gives back references. -/

theorem Tracked.of_unlocked {as' : List ScAddr} (h : Tracked env L as held st)
    (hu : s.unlocked = st.unlocked) (hh : Holds env.thread L as' s) : Tracked env L as' held s :=
  ⟨hh, h.cells.of_unlocked hu, h.refs.of_unlocked hu⟩

theorem Tracked.mono {held' : List ScAddr} (h : Tracked env L as held st)
    (hle : ∀ y, held'.count y ≤ held.count y) : Tracked env L as held' st :=
  ⟨h.holds, h.cells, h.refs.mono hle⟩

theorem lock_tracked (h : Tracked env L as held st) (a : ScAddr) :
    IfReturns (scStorageElementLock env a)
      (fun r s => Tracked env L (if r then a :: as else as) held s) st := by
  apply wp_mono (elementLock_wp h.holds a) _ (fun _ _ => trivial)
  intro r s ⟨hu, _, hh⟩
  exact h.of_unlocked hu hh

theorem lockTry_tracked (h : Tracked env L as held st) (a : ScAddr) :
    IfReturns (scStorageElementLockTry env a)
      (fun r s => Tracked env L (if r then a :: as else as) held s) st := by
  apply wp_mono (elementLockTry_wp h.holds a) _ (fun _ _ => trivial)
  intro r s ⟨hu, _, hh⟩
  exact h.of_unlocked hu hh

theorem unlock_tracked (h : Tracked env L (a :: as) held st) :
    IfReturns (scStorageElementUnlock env a) (fun _ s => Tracked env L as held s) st := by
  apply unlock_rule h.holds
  intro s hu hh
  exact h.of_unlocked hu hh

/-- A reference of a free cell is refused. -/
theorem ref_tracked (h : Tracked env L as held st) (a : ScAddr) :
    IfReturns (scStorageElementRef env a) (fun _ s => Tracked env L as (a :: held) s) st := by
  apply wp_mono (elementRef_wp h.holds a) _ (fun _ _ => trivial)
  intro _ s ⟨hcount, hset, hh⟩
  exact ⟨hh, refTaken_cells h.cells hcount.bounded hset, h.refs.take hcount.positive hset⟩

theorem unref_tracked (h : Tracked env L as (a :: held) st) :
    IfReturns (scStorageElementUnref env a) (fun _ s => Tracked env L as held s) st := by
  apply wp_mono (elementUnref_wp h.holds a) _ (fun _ _ => trivial)
  intro _ s ⟨_, _, hun, hh⟩
  exact ⟨hh, refDropped_cells h.cells h.refs.two hun, h.refs.drop hun⟩

theorem getAccessLevels_tracked (h : Tracked env L as held st) (ctx : ScContext) (a : ScAddr) :
    IfReturns (scStorageGetAccessLevels env ctx a) (fun _ s => Tracked env L as held s) st := by
  unfold scStorageGetAccessLevels
  rw [IfReturns, wp_bind]
  apply wp_mono (lock_tracked h a) _ (fun _ _ => trivial)
  intro r s1 h1
  cases r with
  | false => exact h1
  | true =>
    simp only [Bool.not_true, Bool.false_eq_true, if_false, wp_bind, wp_readCell]
    apply wp_mono (unlock_tracked h1) _ (fun _ _ => trivial)
    intro _ s2 h2
    rw [wp_ite]
    exact ⟨fun _ => h2, fun _ => h2⟩

theorem getElementType_tracked (h : Tracked env L as held st) (ctx : ScContext) (a : ScAddr) :
    IfReturns (scStorageGetElementType env ctx a) (fun _ s => Tracked env L as held s) st := by
  unfold scStorageGetElementType readElement
  rw [IfReturns, wp_bind]
  apply wp_mono (lock_tracked h a) _ (fun _ _ => trivial)
  intro r s1 h1
  cases r with
  | false => exact h1
  | true =>
    simp only [Bool.not_true, Bool.false_eq_true, if_false, wp_bind, wp_readCell]
    exact wp_mono (unlock_tracked h1) (fun _ _ h2 => h2) (fun _ _ => trivial)

end

end ScMachine.Store
