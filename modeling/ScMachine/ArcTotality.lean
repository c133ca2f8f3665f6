import ScMachine.DeletionExact
import ScMachine.OwnRuns
import ScMachine.SubtypeChange

/-! What `sc_storage_arc_new_ext` does when there is no arc to be made: only two of its failures leave
the loop. -/
namespace ScMachine.Store
open ScMachine.StateExcept ScMachine.Runs

/-- The locks under which the cell of the arc is taken. -/
def arcLocks (st : ScStorage) (beg end_ : ScAddr) : List ScAddr :=
  firstArcLock (st.cell end_).firstInArc ++ (firstArcLock (st.cell beg).firstOutArc ++ [beg, end_])

/-- No cell can be allocated for an arc between the two elements. -/
def NoCellForArc (env : ScEnv) (ctx : ScContext) (beg end_ : ScAddr) (st : ScStorage) : Prop :=
  ∀ s, s.unlocked = st.unlocked → Holds env.thread st.locks (arcLocks st beg end_) s →
    ∀ a s', scStorageAppendElIntoSegments env ctx s ≠ .ok (some a, s')

/-- One of the addresses is empty, has no loaded segment or does not name a live element, or there is
no cell for the arc. -/
def ArcImpossible (env : ScEnv) (ctx : ScContext) (beg end_ : ScAddr) (st : ScStorage) : Prop :=
  beg = ScAddr.empty ∨ end_ = ScAddr.empty ∨ ¬ Loaded st beg ∨ ¬ Loaded st end_ ∨
    ¬ Live st.cell beg ∨ ¬ Live st.cell end_ ∨ NoCellForArc env ctx beg end_ st

/-- The call returns the empty address, and all is as it was. -/
def ReturnsEmpty (x : StoreM ScAddr) (st : ScStorage) : Prop := x st = .ok (ScAddr.empty, st)

/-- The address is that of a cell, but no element is in it. -/
def NoElement (st : ScStorage) (a : ScAddr) : Prop := Loaded st a ∧ ¬ Live st.cell a

/-- An address is empty, or the first one that is not that of a live element is that of a cell; and
between live elements there is a cell for the arc. -/
def ArcRefusable (env : ScEnv) (ctx : ScContext) (beg end_ : ScAddr) (st : ScStorage) : Prop :=
  beg = ScAddr.empty ∨ end_ = ScAddr.empty ∨ NoElement st beg ∨
    (Live st.cell beg ∧ NoElement st end_) ∨
    (Live st.cell beg ∧ Live st.cell end_ ∧ ¬ NoCellForArc env ctx beg end_ st)

section
variable {env : ScEnv} {ctx : ScContext} {L : SectionKey → LockWord} {as : List ScAddr}
  {st s : ScStorage} {type : ScType} {beg end_ a : ScAddr} {levels : ScAccessLevels}

theorem ifReturns_skip {α β : Type} (x : StoreM α) {f : α → StoreM β} {Q : β → ScStorage → Prop}
    (h : ∀ r s', IfReturns (f r) Q s') : IfReturns (x >>= f) Q s := by
  rw [IfReturns, wp_bind]
  exact ifReturns_of_ok (fun r s' _ => h r s')

theorem live_iff_valid (c : Cells) (x : ScAddr) :
    (!scElementIsValid (c x)) = true ↔ ¬ Live c x := by
  rw [Live, Bool.not_eq_true', Bool.not_eq_true]

/-- The lock of a cell of the calling thread is got, that of no cell is not. -/
theorem lockTry_own (hown : ∀ k, Lockable env.thread (L k)) (h : Holds env.thread L as st)
    (ha : Loaded st a) (E : ScStop → Prop) :
    Wp (scStorageElementLockTry env a)
      (fun r s => r = true ∧ s.unlocked = st.unlocked ∧ Holds env.thread L (a :: as) s) E st := by
  apply wp_mono (elementLockTry_wp h a)
  · intro r s ⟨hu, hloaded, hh⟩
    have hr : r = true := hloaded.mpr ⟨ha, hown _⟩
    rw [if_pos hr] at hh
    exact ⟨hr, hu, hh⟩
  · intro _ hoff
    have hlt := ha.2
    omega

theorem lockTry_no_cell (h : Holds env.thread L as st) (ha : ¬ Loaded st a) :
    IfReturns (scStorageElementLockTry env a) (fun r _ => r = false) st := by
  apply wp_mono (elementLockTry_wp h a) _ (fun _ _ => trivial)
  intro r s ⟨_, hloaded, _⟩
  by_contra hr
  exact ha (hloaded.mp (by simpa using hr)).1

/-- The begin is not a live element: the attempt gives up. -/
theorem attempt_no_begin (hok : StoreOk env.thread st) (hbeg : NoElement st beg) :
    Wp (arcNewAttempt env ctx type beg end_ levels)
      (fun r s => r = some ScAddr.empty ∧ s.unlocked = st.unlocked ∧
        Holds env.thread st.locks [] s) (fun _ => False) st := by
  have h := holds_start env.thread st hok.wf.1 hok.wf.2
  unfold arcNewAttempt
  rw [wp_bind]
  apply wp_mono (lockTry_own hok.own h hbeg.1 _) _ (fun _ he => he)
  intro r s1 ⟨hr, hu1, h1⟩
  subst hr
  have hvalid : (!scElementIsValid (s1.cell beg)) = true := by
    rw [cell_of_unlocked hu1, live_iff_valid]
    exact hbeg.2
  simp only [Bool.not_true, Bool.false_eq_true, if_false]
  rw [wp_bind, wp_readCell, if_pos hvalid, wp_bind]
  apply unlock_rule h1
  intro s2 hu2 h2
  exact ⟨rfl, hu2.trans hu1, h2⟩

/-- The begin is live and the end is not. -/
theorem attempt_no_end (hok : StoreOk env.thread st) (hbeg : Live st.cell beg)
    (hend : NoElement st end_) :
    Wp (arcNewAttempt env ctx type beg end_ levels)
      (fun r s => r = some ScAddr.empty ∧ s.unlocked = st.unlocked ∧
        Holds env.thread st.locks [] s) (fun _ => False) st := by
  have h := holds_start env.thread st hok.wf.1 hok.wf.2
  have hloaded : Loaded st beg := hok.cells.loaded hok.wf.2 (type_of_live hbeg)
  unfold arcNewAttempt
  rw [wp_bind]
  apply wp_mono (lockTry_own hok.own h hloaded _) _ (fun _ he => he)
  intro r s1 ⟨hr, hu1, h1⟩
  subst hr
  have hvalid : ¬ (!scElementIsValid (s1.cell beg)) = true := by
    rw [cell_of_unlocked hu1, live_iff_valid]
    exact not_not_intro hbeg
  have hloaded1 : Loaded s1 end_ := (loaded_of_unlocked hu1 end_).mpr hend.1
  simp only [Bool.not_true, Bool.false_eq_true, if_false]
  rw [wp_bind, wp_readCell, if_neg hvalid, wp_bind]
  apply wp_mono (lockTry_own hok.own h1 hloaded1 _) _ (fun _ he => he)
  intro r s2 ⟨hr, hu2, h2⟩
  subst hr
  have hinvalid : (!scElementIsValid (s2.cell end_)) = true := by
    rw [cell_of_unlocked (hu2.trans hu1), live_iff_valid]
    exact hend.2
  simp only [Bool.not_true, Bool.false_eq_true, if_false]
  rw [wp_bind, wp_readCell, if_pos hinvalid, wp_bind]
  apply unlock_rule (h2.perm (List.Perm.swap _ _ _))
  intro s3 hu3 h3
  rw [wp_bind]
  apply unlock_rule h3
  intro s4 hu4 h4
  exact ⟨rfl, hu4.trans (hu3.trans (hu2.trans hu1)), h4⟩

/-- An address that is that of no cell is tried again, or fails an assertion. -/
theorem attempt_no_cell (hok : StoreOk env.thread st)
    (hno : ¬ Loaded st beg ∨ (Live st.cell beg ∧ ¬ Loaded st end_)) :
    IfReturns (arcNewAttempt env ctx type beg end_ levels) (fun r _ => r = none) st := by
  have h := holds_start env.thread st hok.wf.1 hok.wf.2
  unfold arcNewAttempt
  rw [IfReturns, wp_bind]
  rcases hno with hbeg | ⟨hbeg, hend⟩
  · apply wp_mono (lockTry_no_cell h hbeg) _ (fun _ _ => trivial)
    intro r s1 hr
    subst hr
    exact rfl
  · have hloaded : Loaded st beg := hok.cells.loaded hok.wf.2 (type_of_live hbeg)
    apply wp_mono (lockTry_own hok.own h hloaded _) _ (fun _ he => he)
    rintro r s1 ⟨hr, hu1, h1⟩
    subst hr
    have hvalid : ¬ (!scElementIsValid (s1.cell beg)) = true := by
      rw [cell_of_unlocked hu1, live_iff_valid]
      exact not_not_intro hbeg
    have hloaded1 : ¬ Loaded s1 end_ := fun hl => hend ((loaded_of_unlocked hu1 end_).mp hl)
    simp only [Bool.not_true, Bool.false_eq_true, if_false]
    rw [wp_bind, wp_readCell, if_neg hvalid, wp_bind]
    apply wp_mono (lockTry_no_cell h1 hloaded1) _ (fun _ _ => trivial)
    intro r s2 hr
    subst hr
    simp only [Bool.not_false, if_true]
    apply ifReturns_skip
    intro _ _
    exact rfl

/-- Between live elements no attempt returns the empty address. -/
theorem attempt_live (hok : StoreOk env.thread st) (hbeg : Live st.cell beg)
    (hend : Live st.cell end_) :
    IfReturns (arcNewAttempt env ctx type beg end_ levels) (fun r _ => r ≠ some ScAddr.empty) st := by
  have h := holds_start env.thread st hok.wf.1 hok.wf.2
  -- the exits that start the loop again
  have hagain {x : StoreM Unit} (s : ScStorage) : IfReturns (do
      x
      return none : StoreM (Option ScAddr)) (fun r _ => r ≠ some ScAddr.empty) s :=
    ifReturns_skip x (fun _ _ h => by cases h)
  unfold arcNewAttempt
  rw [IfReturns, wp_bind]
  apply lockTry_rule h
  · intro s1 _ _ h
    cases h
  intro s1 hu1 h1
  have hbegValid : ¬ (!scElementIsValid (s1.cell beg)) = true := by
    rw [cell_of_unlocked hu1, live_iff_valid]
    exact not_not_intro hbeg
  simp only [Bool.not_true, Bool.false_eq_true, if_false]
  rw [wp_bind, wp_readCell, if_neg hbegValid, wp_bind]
  apply lockTry_rule h1
  · intro s2 _ _
    exact hagain s2
  intro s2 hu2 h2
  have hendValid : ¬ (!scElementIsValid (s2.cell end_)) = true := by
    rw [cell_of_unlocked (hu2.trans hu1), live_iff_valid]
    exact not_not_intro hend
  simp only [Bool.not_true, Bool.false_eq_true, if_false]
  rw [wp_bind, wp_readCell, if_neg hendValid, wp_bind]
  apply lockFirst_rule (h2.perm (List.Perm.swap _ _ _))
  · intro s3 _ _
    exact ifReturns_skip _ (fun _ s => hagain s)
  intro s3 hu3 h3
  simp only
  rw [wp_bind]
  apply lockFirst_rule h3
  · intro s4 _ _
    exact ifReturns_skip _ (fun _ _ => ifReturns_skip _ (fun _ s => hagain s))
  intro s4 hu4 h4
  have hc4 := hok.cells.of_unlocked (hu4.trans (hu3.trans (hu2.trans hu1)))
  simp only
  rw [wp_bind]
  apply wp_mono (appendEl_cells h4 hc4.holes hc4.zero ctx) _ (fun _ _ => trivial)
  rintro r s5 ⟨_, hsome⟩
  cases r with
  | none => trivial
  | some a =>
    have hne := (hsome a rfl).notEmpty
    iterate 6 refine ifReturns_skip _ (fun _ _ => ?_)
    exact fun hr => hne (Option.some.inj hr)

theorem arcNewExt_eq (htype : scTypeNode &&& type = 0) (hbeg : beg ≠ ScAddr.empty)
    (hend : end_ ≠ ScAddr.empty) :
    scStorageArcNewExt env ctx type beg end_ levels = (do
      match ← arcNewAttempt env ctx type beg end_ levels with
      | some a => return a
      | none => throw .diverge) := by
  unfold scStorageArcNewExt scAssert
  rw [htype, if_neg (not_or_intro hbeg hend)]
  rfl

theorem arcNewExt_empty (htype : scTypeNode &&& type = 0)
    (h : beg = ScAddr.empty ∨ end_ = ScAddr.empty) :
    ReturnsEmpty (scStorageArcNewExt env ctx type beg end_ levels) st := by
  unfold ReturnsEmpty scStorageArcNewExt scAssert
  rw [htype, if_pos h]
  rfl

/-- An attempt that gives up ends the call. -/
theorem returnsEmpty_of_attempt (htype : scTypeNode &&& type = 0) (hbeg : beg ≠ ScAddr.empty)
    (hend : end_ ≠ ScAddr.empty)
    (h : Wp (arcNewAttempt env ctx type beg end_ levels)
      (fun r s => r = some ScAddr.empty ∧ s.unlocked = st.unlocked ∧
        Holds env.thread st.locks [] s) (fun _ => False) st) :
    ReturnsEmpty (scStorageArcNewExt env ctx type beg end_ levels) st := by
  obtain ⟨r, s, hrun, rfl, hu, hh⟩ := wp_returns h
  have hlocks : s.locks = st.locks := by
    rw [hh.locks]
    exact addLocks_nil _ _
  obtain rfl : s = st := eq_of_unlocked_locks hu hlocks
  rw [ReturnsEmpty, arcNewExt_eq htype hbeg hend, run_bind_ok hrun]
  rfl

/-- An attempt that does not give up does not return the empty address. -/
theorem not_returnsEmpty (htype : scTypeNode &&& type = 0) (hbeg : beg ≠ ScAddr.empty)
    (hend : end_ ≠ ScAddr.empty)
    (h : IfReturns (arcNewAttempt env ctx type beg end_ levels) (fun r _ => r ≠ some ScAddr.empty) st) :
    ¬ ReturnsEmpty (scStorageArcNewExt env ctx type beg end_ levels) st := by
  intro hrun
  rw [ReturnsEmpty, arcNewExt_eq htype hbeg hend] at hrun
  obtain ⟨⟨r, s⟩, hattempt, hrest⟩ := bind_ok hrun
  have hr := wp_ok h hattempt
  cases r with
  | none => cases hrest
  | some a =>
    have ha : a = ScAddr.empty := congrArg Prod.fst (Except.ok.inj hrest)
    exact hr (congrArg some ha)

/-- Where no arc can be made, the call returns the empty address and leaves the store as it was if
and only if the failure is one of those that leave the loop. -/
theorem arc_refused_iff (thread : ℕ) (evs : List StoreEvent) (st : ScStorage)
    (hr : Run (OwnStep thread) ScStorage.empty evs st) (env : ScEnv) (henv : env.thread = thread)
    (ctx : ScContext) (type : ScType) (htype : scTypeNode &&& type = 0) (beg end_ : ScAddr)
    (levels : ScAccessLevels) :
    (ArcImpossible env ctx beg end_ st →
        ReturnsEmpty (scStorageArcNewExt env ctx type beg end_ levels) st) ↔
      ArcRefusable env ctx beg end_ st := by
  subst henv
  have hok := ownRun_storeOk evs st hr
  have hloaded {a : ScAddr} (ha : Live st.cell a) : Loaded st a :=
    hok.cells.loaded hok.wf.2 (type_of_live ha)
  unfold ArcRefusable
  by_cases hbeg : beg = ScAddr.empty
  · exact iff_of_true (fun _ => arcNewExt_empty htype (Or.inl hbeg)) (Or.inl hbeg)
  by_cases hend : end_ = ScAddr.empty
  · exact iff_of_true (fun _ => arcNewExt_empty htype (Or.inr hend)) (Or.inr (Or.inl hend))
  simp only [hbeg, hend, false_or]
  -- which of the two addresses fails first decides
  by_cases hbegLive : Live st.cell beg
  · by_cases hendLive : Live st.cell end_
    · have hattempt : IfReturns (arcNewAttempt env ctx type beg end_ levels)
          (fun r _ => r ≠ some ScAddr.empty) st := attempt_live hok hbegLive hendLive
      have hnot := not_returnsEmpty htype hbeg hend hattempt
      have himpossible : ArcImpossible env ctx beg end_ st ↔ NoCellForArc env ctx beg end_ st := by
        simp [ArcImpossible, hbeg, hend, hbegLive, hendLive, hloaded]
      simp only [himpossible, hnot, imp_false, NoElement, hbegLive, hendLive, not_true_eq_false,
        and_false, true_and, false_or]
    · have himpossible : ArcImpossible env ctx beg end_ st :=
        Or.inr (Or.inr (Or.inr (Or.inr (Or.inr (Or.inl hendLive)))))
      by_cases hcell : Loaded st end_
      · refine iff_of_true (fun _ => ?_) (Or.inr (Or.inl ⟨hbegLive, hcell, hendLive⟩))
        exact returnsEmpty_of_attempt htype hbeg hend (attempt_no_end hok hbegLive ⟨hcell, hendLive⟩)
      · refine iff_of_false (fun h => ?_) ?_
        · have hattempt : IfReturns (arcNewAttempt env ctx type beg end_ levels)
              (fun r _ => r = none) st := attempt_no_cell hok (Or.inr ⟨hbegLive, hcell⟩)
          exact not_returnsEmpty htype hbeg hend
            (wp_mono hattempt (fun r _ hnone => by rw [hnone]; exact nofun) (fun _ _ => trivial))
            (h himpossible)
        · rintro (hno | ⟨_, hno⟩ | ⟨_, hlive, _⟩)
          · exact hno.2 hbegLive
          · exact hcell hno.1
          · exact hendLive hlive
  · have himpossible : ArcImpossible env ctx beg end_ st :=
      Or.inr (Or.inr (Or.inr (Or.inr (Or.inl hbegLive))))
    by_cases hcell : Loaded st beg
    · refine iff_of_true (fun _ => ?_) (Or.inl ⟨hcell, hbegLive⟩)
      exact returnsEmpty_of_attempt htype hbeg hend (attempt_no_begin hok ⟨hcell, hbegLive⟩)
    · refine iff_of_false (fun h => ?_) ?_
      · have hattempt : IfReturns (arcNewAttempt env ctx type beg end_ levels)
            (fun r _ => r = none) st := attempt_no_cell hok (Or.inl hcell)
        exact not_returnsEmpty htype hbeg hend
          (wp_mono hattempt (fun r _ hnone => by rw [hnone]; exact nofun) (fun _ _ => trivial))
          (h himpossible)
      · rintro (hno | ⟨hlive, _⟩ | ⟨hlive, _⟩)
        · exact hcell hno.1
        · exact hbegLive hlive
        · exact hbegLive hlive

end

/-- From a deleted or never made element of the first segment no arc is made. -/
theorem arc_refused_storeWithArc :
    (ArcImpossible exampleEnv exampleContext ⟨0, 9⟩ ⟨0, 1⟩ storeWithArc →
        ReturnsEmpty (scStorageArcNewExt exampleEnv exampleContext scTypeArcCommon ⟨0, 9⟩ ⟨0, 1⟩ 0)
          storeWithArc) ↔
      ArcRefusable exampleEnv exampleContext ⟨0, 9⟩ ⟨0, 1⟩ storeWithArc :=
  arc_refused_iff 1 arcEvents storeWithArc storeWithArc_run exampleEnv rfl exampleContext
    scTypeArcCommon (by decide) ⟨0, 9⟩ ⟨0, 1⟩ 0

/-- The way a call ends without a result. -/
def stopOf {α : Type} (x : StoreM α) (st : ScStorage) : Option ScStop :=
  match x st with
  | .ok _ => none
  | .error stop => some stop

theorem not_returnsEmpty_of_stopOf {x : StoreM ScAddr} {st : ScStorage} {stop : ScStop}
    (h : stopOf x st = some stop) : ¬ ReturnsEmpty x st := by
  intro hrun
  rw [stopOf, hrun] at h
  cases h

theorem noCellForArc_of_full {env : ScEnv} {st : ScStorage} (ctx : ScContext) (beg end_ : ScAddr)
    (h : env.maxLoadedSegments ≤ st.segmentsNum) : NoCellForArc env ctx beg end_ st := by
  intro s hu _ a s' hrun
  have hnum : s.unlocked.segmentsNum = st.unlocked.segmentsNum := by rw [hu]
  have hfull : env.maxLoadedSegments ≤ s.segmentsNum := by
    simpa only [ScStorage.unlocked] using hnum ▸ h
  have hcell : scStorageAppendElIntoSegments env ctx s = .ok (none, s) := by
    change (if env.maxLoadedSegments ≤ s.segmentsNum then pure none
      else appendElLoop env ctx (scSegmentCacheSize + 2) : StoreM (Option ScAddr)) s = _
    rw [if_pos hfull]
    rfl
  rw [hcell] at hrun
  cases hrun

/-- A configuration with room for the first segment only. -/
def oneSegmentEnv : ScEnv := { exampleEnv with maxLoadedSegments := 1 }

/-- The address of a segment that is not loaded keeps the call in its loop, and where the segments
are used up the cell that was not got is written to. -/
theorem missing_segment_and_missing_cell :
    (ArcImpossible exampleEnv exampleContext ⟨7, 1⟩ ⟨0, 1⟩ storeWithArc ∧
      stopOf (scStorageArcNewExt exampleEnv exampleContext scTypeArcCommon ⟨7, 1⟩ ⟨0, 1⟩ 0)
        storeWithArc = some .diverge ∧
      ¬ ReturnsEmpty (scStorageArcNewExt exampleEnv exampleContext scTypeArcCommon ⟨7, 1⟩ ⟨0, 1⟩ 0)
        storeWithArc) ∧
    (ArcImpossible oneSegmentEnv exampleContext ⟨0, 1⟩ ⟨0, 33⟩ storeWithArc ∧
      stopOf (scStorageArcNewExt oneSegmentEnv exampleContext scTypeArcCommon ⟨0, 1⟩ ⟨0, 33⟩ 0)
        storeWithArc = some .abort ∧
      ¬ ReturnsEmpty (scStorageArcNewExt oneSegmentEnv exampleContext scTypeArcCommon ⟨0, 1⟩ ⟨0, 33⟩ 0)
        storeWithArc) := by
  have hdiverge : stopOf (scStorageArcNewExt exampleEnv exampleContext scTypeArcCommon ⟨7, 1⟩
      ⟨0, 1⟩ 0) storeWithArc = some .diverge := by decide +kernel
  have habort : stopOf (scStorageArcNewExt oneSegmentEnv exampleContext scTypeArcCommon ⟨0, 1⟩
      ⟨0, 33⟩ 0) storeWithArc = some .abort := by decide +kernel
  have hsegments : oneSegmentEnv.maxLoadedSegments ≤ storeWithArc.segmentsNum := by decide +kernel
  refine ⟨⟨?_, hdiverge, not_returnsEmpty_of_stopOf hdiverge⟩,
    ⟨?_, habort, not_returnsEmpty_of_stopOf habort⟩⟩
  · have hdead : ¬ Live storeWithArc.cell ⟨7, 1⟩ := by
      unfold Live
      decide +kernel
    exact Or.inr (Or.inr (Or.inr (Or.inr (Or.inl hdead))))
  · have hcell := noCellForArc_of_full exampleContext ⟨0, 1⟩ ⟨0, 33⟩ hsegments
    exact Or.inr (Or.inr (Or.inr (Or.inr (Or.inr (Or.inr hcell)))))

end ScMachine.Store
