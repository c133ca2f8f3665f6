import ScMachine.OwnRuns
import ScMachine.ScIterator5

/-! What an iterator does to a store that nobody else changes: it takes and gives back references,
and the cells stay as they are. -/
namespace ScMachine.Store
open ScMachine.StateExcept ScMachine.Runs

/-- The references that an iterator has: its fixed parameters and the arc it stands on. -/
def ScIterator3.held (it : ScIterator3) : List ScAddr := it.params.fixed ++ it.currentArc.toList

instance (c : Cells) (a : ScAddr) : Decidable (Live c a) :=
  inferInstanceAs (Decidable (scElementIsValid (c a) = true))

instance (c : Cells) (x : ScAddr) : Decidable (LiveArc c x) :=
  inferInstanceAs (Decidable (_ ∧ _))

/-- The cells are `c`, and every count is the one of `base` plus one for each entry of `held`. -/
structure Iterating (env : ScEnv) (L : SectionKey → LockWord) (as : List ScAddr) (c : Cells)
    (base : ScAddr → ℤ) (held : List ScAddr) (st : ScStorage) : Prop where
  holds : Holds env.thread L as st
  cells : CellsOk st
  cell : st.cell = c
  refCount : ∀ y, st.refCount y = base y+held.count y

/-- No other thread holds a section, and the live elements have references besides those of the
iterator. -/
structure Undisturbed (env : ScEnv) (L : SectionKey → LockWord) (c : Cells) (base : ScAddr → ℤ) :
    Prop where
  own : ∀ k, Lockable env.thread (L k)
  referenced : ∀ y, Live c y → 1 ≤ base y

section
variable {env : ScEnv} {L : SectionKey → LockWord} {as held : List ScAddr} {c : Cells}
  {base : ScAddr → ℤ} {st s : ScStorage} {a : ScAddr} {ctx : ScContext}

theorem Iterating.of_unlocked {as' : List ScAddr} (h : Iterating env L as c base held st)
    (hu : s.unlocked = st.unlocked) (hh : Holds env.thread L as' s) :
    Iterating env L as' c base held s := by
  refine ⟨hh, h.cells.of_unlocked hu, ?_, ?_⟩
  · rw [cell_of_unlocked hu, h.cell]
  · rw [refCount_of_unlocked hu]
    exact h.refCount

/-- Only the number of entries matters. -/
theorem Iterating.congr {held' : List ScAddr} (h : Iterating env L as c base held st)
    (hcount : ∀ y, held'.count y = held.count y) : Iterating env L as c base held' st := by
  refine ⟨h.holds, h.cells, h.cell, ?_⟩
  intro y
  rw [hcount]
  exact h.refCount y

theorem Iterating.live (h : Iterating env L as c base held st) (ha : Live c a) : Live st.cell a := by
  rw [h.cell]
  exact ha

theorem Iterating.loaded (h : Iterating env L as c base held st) (ha : Live c a) : Loaded st a :=
  h.cells.loaded h.holds.segs (type_of_live (h.live ha))

theorem Iterating.offset (h : Iterating env L as c base held st) (ha : Live c a) :
    a.offset.toNat < 65535 :=
  h.cells.inRange a (type_of_live (h.live ha))

theorem Iterating.notEmpty (h : Iterating env L as c base held st) (ha : Live c a) :
    a ≠ ScAddr.empty := by
  rintro rfl
  exact h.cells.arcs.notEmpty (h.live ha)

/-! Locks of live elements. -/

theorem lock_live (hset : Undisturbed env L c base) (h : Iterating env L as c base held st)
    (ha : Live c a) (E : ScStop → Prop) :
    Wp (scStorageElementLock env a)
      (fun r s => r = true ∧ Iterating env L (a :: as) c base held s) E st := by
  apply wp_mono (elementLock_wp h.holds a)
  · intro r s ⟨hu, hloaded, hh⟩
    have hr : r = true := hloaded.mpr (h.loaded ha)
    rw [if_pos hr] at hh
    exact ⟨hr, h.of_unlocked hu hh⟩
  · intro _ hstop
    rcases hstop with hoff | hlock
    · have hin := h.offset ha
      omega
    · exact absurd (hset.own _) hlock

theorem lockTry_live (hset : Undisturbed env L c base) (h : Iterating env L as c base held st)
    (ha : Live c a) (E : ScStop → Prop) :
    Wp (scStorageElementLockTry env a)
      (fun r s => r = true ∧ Iterating env L (a :: as) c base held s) E st := by
  apply wp_mono (elementLockTry_wp h.holds a)
  · intro r s ⟨hu, hloaded, hh⟩
    have hr : r = true := hloaded.mpr ⟨h.loaded ha, hset.own _⟩
    rw [if_pos hr] at hh
    exact ⟨hr, h.of_unlocked hu hh⟩
  · intro _ hoff
    have hin := h.offset ha
    omega

theorem unlock_iterating (h : Iterating env L (a :: as) c base held st) (E : ScStop → Prop) :
    Wp (scStorageElementUnlock env a) (fun _ s => Iterating env L as c base held s) E st := by
  apply unlock_rule h.holds
  intro s hu hh
  exact h.of_unlocked hu hh

/-! References of live elements. -/

/-- A reference is refused only at the limit that an assertion checks. -/
theorem ref_live (hset : Undisturbed env L c base) (h : Iterating env L as c base held st)
    (ha : Live c a) :
    Wp (scStorageElementRef env a) (fun _ s => Iterating env L as c base (a :: held) s)
      (fun _ => 4294967295 ≤ base a+held.count a+1) st := by
  apply wp_mono (elementRef_wp h.holds a)
  · intro _ s ⟨hcount, hs, hh⟩
    refine ⟨hh, refTaken_cells h.cells hcount.bounded hs, ?_, ?_⟩
    · rw [hs.cell, h.cell]
    · intro y
      rw [hs.refCount]
      by_cases hy : y = a
      · rw [hy, Function.update_self, h.refCount, List.count_cons_self]
        push_cast
        ring
      · rw [Function.update_of_ne hy, h.refCount, List.count_cons_of_ne (Ne.symm hy)]
  · intro _ hstop
    by_contra hlt
    apply hstop
    have hpos := h.cells.referenced a (h.live ha)
    refine ⟨h.notEmpty ha, h.loaded ha, hset.own _, by omega, ?_⟩
    rw [h.refCount]
    omega

/-- A reference of the iterator is never the last one of a live element. -/
theorem unref_live (hset : Undisturbed env L c base) (h : Iterating env L as c base (a :: held) st)
    (ha : Live c a) (E : ScStop → Prop) :
    Wp (scStorageElementUnref env a) (fun _ s => Iterating env L as c base held s) E st := by
  have htwo : 2 ≤ st.refCount a := by
    have hbase := hset.referenced a ha
    rw [h.refCount, List.count_cons_self]
    push_cast
    omega
  apply wp_mono (elementUnref_wp h.holds a)
  · intro _ s ⟨_, _, hun, hh⟩
    refine ⟨hh, refDropped_cells h.cells (fun _ => htwo) hun, ?_, ?_⟩
    · rw [hun.cell, if_neg (by omega), h.cell]
    · intro y
      rw [hun.refCount]
      by_cases hy : y = a
      · rw [hy, Function.update_self, h.refCount, List.count_cons_self]
        push_cast
        ring
      · rw [Function.update_of_ne hy, h.refCount, List.count_cons_of_ne (Ne.symm hy)]
  · intro _ hstop
    exfalso
    apply hstop
    have hb := h.cells.bounded a
    exact ⟨h.notEmpty ha, h.loaded ha, hset.own _, by omega, by omega⟩

/-! Reads under a lock of their own. -/

/-- What `sc_storage_get_access_levels` reports of a cell. -/
def levelsOutcome (ctx : ScContext) (el : ScElement) : ScResult × Option ScAccessLevels :=
  if scAccessLvlCheckRead ctx.accessLevels el.accessLevels then (.ok, some el.accessLevels)
  else (.errorNoReadRights, none)

/-- The levels of a loaded cell are read whether or not it is in use. -/
theorem getAccessLevels_iterating (hset : Undisturbed env L c base)
    (h : Iterating env L as c base held st) (ctx : ScContext) (a : ScAddr) :
    Wp (scStorageGetAccessLevels env ctx a)
      (fun r s => s.unlocked = st.unlocked ∧ Iterating env L as c base held s ∧
        (Loaded st a → r = levelsOutcome ctx (c a)) ∧ (¬ Loaded st a → r = (.error, none)))
      (fun _ => 65535 ≤ a.offset.toNat) st := by
  unfold scStorageGetAccessLevels
  rw [wp_bind]
  apply wp_mono (elementLock_wp h.holds a)
  swap
  · intro _ hstop
    rcases hstop with hoff | hlock
    · exact hoff
    · exact absurd (hset.own _) hlock
  intro r s1 ⟨hu, hloaded, h1⟩
  cases r with
  | false =>
    refine ⟨hu, h.of_unlocked hu h1, fun hl => ?_, fun _ => rfl⟩
    exact absurd (hloaded.mpr hl) Bool.false_ne_true
  | true =>
    have hit := h.of_unlocked hu h1
    simp only [Bool.not_true, Bool.false_eq_true, if_false, wp_bind, wp_readCell, hit.cell]
    apply unlock_rule h1
    intro s2 hu2 hh2
    have hus : s2.unlocked = st.unlocked := hu2.trans hu
    have h2 := hit.of_unlocked hu2 hh2
    have hl : Loaded st a := hloaded.mp rfl
    unfold levelsOutcome
    rw [wp_ite]
    constructor
    · intro hread
      exact ⟨hus, h2, fun _ => by rw [if_pos hread], fun hn => absurd hl hn⟩
    · intro hread
      exact ⟨hus, h2, fun _ => by rw [if_neg hread], fun hn => absurd hl hn⟩

/-- What `sc_storage_get_element_type` reports of the cell of an element. -/
def typeOutcome (ctx : ScContext) (el : ScElement) : ScResult × Option ScType :=
  if scAccessLvlCheckRead ctx.accessLevels el.accessLevels then (.ok, some (scFlagsRemove el.type))
  else (.errorNoReadRights, none)

theorem getElementType_live (hset : Undisturbed env L c base)
    (h : Iterating env L as c base held st) (ctx : ScContext) (ha : Live c a) (E : ScStop → Prop) :
    Wp (scStorageGetElementType env ctx a)
      (fun r s => r = typeOutcome ctx (c a) ∧ Iterating env L as c base held s) E st := by
  unfold scStorageGetElementType readElement
  rw [wp_bind]
  apply wp_mono (lock_live hset h ha E) _ (fun _ he => he)
  intro r s1 ⟨hr, h1⟩
  simp only [hr, Bool.not_true, Bool.false_eq_true, if_false, wp_bind, wp_readCell, h1.cell]
  apply wp_mono (unlock_iterating h1 E) _ (fun _ he => he)
  intro _ s2 h2
  have hvalid : scElementIsValid (c a) = true := ha
  rw [wp_pure, if_pos hvalid]
  exact ⟨rfl, h2⟩

end

end ScMachine.Store
