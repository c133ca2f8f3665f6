import ScMachine.ArcTotality
import ScMachine.CommandMarks

/-! Creations that find a cell: they return, with the element that they have made. -/
namespace ScMachine.Store
open ScMachine.StateExcept ScMachine.Runs ScMachine.Template

/-- No cell can be allocated for an element without ends. -/
def NoCell (env : ScEnv) (ctx : ScContext) (st : ScStorage) : Prop :=
  ∀ a s, scStorageAppendElIntoSegments env ctx st ≠ .ok (some a, s)

section
variable {env : ScEnv} {ctx : ScContext} {L : SectionKey → LockWord} {as : List ScAddr}
  {st s : ScStorage} {type : ScType} {beg end_ a : ScAddr} {levels : ScAccessLevels}

theorem grownBy_of_unlocked (h : s.unlocked = st.unlocked) : GrownBy st ∅ s :=
  ⟨fun _ hx => hx.elim, fun _ hx => hx.elim, fun x _ => Untouched.of_unlocked h x, fileMemory_of_unlocked h⟩

theorem grown_same {new : Set ScAddr} {x : ScAddr} (h : GrownBy st new s) (hx : Live st.cell x) :
    Untouched st s x :=
  h.others x fun hn => type_of_live hx (h.free x hn)

theorem checkWrite_self (levels : ScAccessLevels) : scAccessLvlCheckWrite levels levels = true := by
  unfold scAccessLvlCheckWrite
  exact decide_eq_true (le_refl _)

theorem lockFirst_own (hown : ∀ k, Lockable env.thread (L k)) (h : Holds env.thread L as s)
    (ha : a ≠ ScAddr.empty → Loaded s a) (E : ScStop → Prop) :
    Wp (lockFirstArc env a) (fun r s' => r = some () ∧ s'.unlocked = s.unlocked ∧
      Holds env.thread L (firstArcLock a ++ as) s') E s := by
  unfold lockFirstArc
  rw [wp_ite]
  constructor
  · intro he
    exact ⟨rfl, rfl, by simpa [firstArcLock, he] using h⟩
  · intro he
    rw [wp_bind]
    apply wp_mono (lockTry_own hown h (ha he) _) _ (fun _ hs => hs)
    rintro r s1 ⟨hr, hu, h1⟩
    subst hr
    exact ⟨rfl, hu, by simpa [firstArcLock, he] using h1⟩

/-- In the state in which the cell of the arc is asked for there is none. -/
theorem noCellForArc_of_fails {s4 : ScStorage} (hu : s4.unlocked = st.unlocked)
    (h : Holds env.thread st.locks (arcLocks st beg end_) s4)
    (hfail : ∀ a s', scStorageAppendElIntoSegments env ctx s4 ≠ .ok (some a, s')) :
    NoCellForArc env ctx beg end_ st := by
  intro s hus hs
  obtain rfl : s = s4 := eq_of_unlocked_locks (hus.trans hu.symm) (hs.locks.trans h.locks.symm)
  exact hfail

/-- Between live elements only the want of a cell keeps an attempt from making the arc. -/
theorem attempt_total (hok : StoreOk env.thread st) (hbeg : Live st.cell beg)
    (hend : Live st.cell end_) :
    Wp (arcNewAttempt env ctx type beg end_ levels)
      (fun r _ => r ≠ none ∧ ¬ NoCellForArc env ctx beg end_ st)
      (fun _ => NoCellForArc env ctx beg end_ st) st := by
  have h := holds_start env.thread st hok.wf.1 hok.wf.2
  have hloaded {x : ScAddr} (hx : Live st.cell x) : Loaded st x :=
    hok.cells.loaded hok.wf.2 (type_of_live hx)
  unfold arcNewAttempt
  rw [wp_bind]
  apply wp_mono (lockTry_own hok.own h (hloaded hbeg) _) _ (fun _ hs => hs)
  intro r s1 ⟨hr, hu1, h1⟩
  subst hr
  have hcell1 : s1.cell = st.cell := cell_of_unlocked hu1
  have hbegValid : ¬ (!scElementIsValid (st.cell beg)) = true := by
    rw [live_iff_valid]
    exact not_not_intro hbeg
  simp only [Bool.not_true, Bool.false_eq_true, if_false]
  rw [wp_bind, wp_readCell, hcell1, if_neg hbegValid, wp_bind]
  apply wp_mono (lockTry_own hok.own h1 ((loaded_of_unlocked hu1 _).mpr (hloaded hend)) _) _
    (fun _ hs => hs)
  intro r s2 ⟨hr, hu2, h2⟩
  subst hr
  have hu20 := hu2.trans hu1
  have hcell2 : s2.cell = st.cell := cell_of_unlocked hu20
  have hendValid : ¬ (!scElementIsValid (st.cell end_)) = true := by
    rw [live_iff_valid]
    exact not_not_intro hend
  simp only [Bool.not_true, Bool.false_eq_true, if_false]
  rw [wp_bind, wp_readCell, hcell2, if_neg hendValid, wp_bind]
  -- the first arcs of the two lists are live, so they can be locked
  have hfirst {x : ScAddr} (hx : Live st.cell x) (d : Dir)
      (hne : (st.cell x).first d ≠ ScAddr.empty) : Live st.cell ((st.cell x).first d) :=
    (hok.cells.arcs.first_live hx d hne).1
  apply wp_mono (lockFirst_own hok.own (h2.perm (List.Perm.swap _ _ _))
    (fun hne => (loaded_of_unlocked hu20 _).mpr (hloaded (hfirst hbeg .out hne))) _) _ (fun _ hs => hs)
  intro r s3 ⟨hr, hu3, h3⟩
  subst hr
  have hu30 := hu3.trans hu20
  simp only
  rw [wp_bind]
  apply wp_mono (lockFirst_own hok.own h3
    (fun hne => (loaded_of_unlocked hu30 _).mpr (hloaded (hfirst hend .inp hne))) _) _ (fun _ hs => hs)
  intro r s4 ⟨hr, hu4, h4⟩
  subst hr
  have hu40 := hu4.trans hu30
  have hc4 := hok.cells.of_unlocked hu40
  simp only
  rw [wp_bind]
  have happend := wp_and (appendEl_holds h4 ctx) (appendEl_cells h4 hc4.holes hc4.zero ctx)
  unfold Wp at happend ⊢
  cases hrun : scStorageAppendElIntoSegments env ctx s4 with
  | error stop =>
    apply noCellForArc_of_fails hu40 h4
    intro a s' hsome
    rw [hrun] at hsome
    cases hsome
  | ok p =>
    obtain ⟨r, s5⟩ := p
    rw [hrun] at happend
    obtain ⟨h5, _, hsome⟩ := happend
    cases r with
    | none =>
      apply noCellForArc_of_fails hu40 h4
      intro a s' hsome
      rw [hrun] at hsome
      cases hsome
    | some a =>
      have happ := (hsome a rfl).of_unlocked hu40
      have hdead : ¬ Live st.cell a := fun hh => type_of_live hh happ.free
      -- every cell that is written is locked and is no hole
      have hwr (b : ScAddr) (hb : Live st.cell b)
          (hmem : b ∈ (some a).toList ++ (firstArcLock (st.cell end_).firstInArc ++
            (firstArcLock (st.cell beg).firstOutArc ++ [beg, end_]))) : Writable s5 b := by
        refine ⟨h5.loaded b hmem, happ.holes.not_hole ?_⟩
        rw [happ.cell]
        exact type_of_live hb
      have hcell : ¬ NoCellForArc env ctx beg end_ st := fun hno => hno s4 hu40 h4 a s5 hrun
      change Wp _ (fun r _ => r ≠ none ∧ ¬ NoCellForArc env ctx beg end_ st)
        (fun _ => NoCellForArc env ctx beg end_ st) s5
      simp only [wp_bind]
      apply linkArc_wp h5 happ.holes type beg end_ levels (st.cell beg) (st.cell end_)
      · exact ⟨h5.loaded a (by simp), happ.notHole⟩
      · exact hwr beg hbeg (by simp)
      · exact hwr end_ hend (by simp)
      · intro hne
        exact hwr _ (hfirst hbeg .out hne) (by simp [firstArcLock, hne])
      · intro hne
        exact hwr _ (hfirst hend .inp hne) (by simp [firstArcLock, hne])
      · -- the assertions hold, because the cell of the arc was free
        rw [happ.cell]
        exact Or.inr ⟨hok.cells.arcs.ne_first hdead happ.notEmpty hbeg .out,
          hok.cells.arcs.ne_first hdead happ.notEmpty hend .inp,
          ⟨fun he => hdead (he ▸ hbeg), type_of_live hbeg⟩,
          fun he => hdead (he ▸ hend), type_of_live hend⟩
      intro s6 h6 _ _ _
      have h6' : Holds env.thread st.locks (firstArcLock (st.cell beg).firstOutArc ++ (beg ::
          (firstArcLock (st.cell end_).firstInArc ++ (end_ :: a :: [])))) s6 := by
        apply h6.perm (List.perm_iff_count.mpr fun x => ?_)
        simp only [ScElement.first, List.count_append, List.count_cons, Option.toList_some, List.count_nil]
        omega
      apply unlockFirst_rule h6'
      intro s7 _ h7
      apply unlock_rule h7
      intro s8 _ h8
      apply unlockFirst_rule h8
      intro s9 _ h9
      apply unlock_rule h9
      intro s10 _ h10
      apply unlock_rule h10
      intro s11 _ _
      exact ⟨Option.some_ne_none a, hcell⟩

/-- Between live elements an arc is made, or no cell is found for it. -/
theorem arcNew_live (hok : StoreOk env.thread st) (htype : scTypeNode &&& type = 0)
    (hlink : type &&& scTypeLink = 0) (hbeg : Live st.cell beg) (hend : Live st.cell end_) :
    Wp (scStorageArcNew env ctx type beg end_)
      (fun r s => StoreOk env.thread s ∧ ArcCreated st type beg end_ ctx.accessLevels r s)
      (fun _ => NoCellForArc env ctx beg end_ st) st := by
  have hne {x : ScAddr} (hx : Live st.cell x) : x ≠ ScAddr.empty := by
    rintro rfl
    exact hok.cells.arcs.notEmpty hx
  have hcall := storeOk_call (f := scStorageArcNew env ctx type beg end_) (.arcNew ctx type beg end_) rfl hlink hok
  have hmade : Wp (scStorageArcNew env ctx type beg end_)
      (fun r s => ArcCreated st type beg end_ ctx.accessLevels r s)
      (fun _ => NoCellForArc env ctx beg end_ st) st := by
    unfold scStorageArcNew
    rw [arcNewExt_eq htype (hne hbeg) (hne hend), wp_bind]
    apply wp_mono (wp_and (attempt_total hok hbeg hend) (wp_and (attempt_live hok hbeg hend)
      (arcNewAttempt_created (holds_start env.thread st hok.wf.1 hok.wf.2) hok.cells ctx type beg end_
        ctx.accessLevels))) _ (fun _ he => he.1)
    rintro r s ⟨⟨hnone, _⟩, hempty, ⟨_, hno | hno⟩ | ⟨a, rfl, hcr⟩⟩
    · exact absurd hno hnone
    · exact absurd hno hempty
    · exact hcr
  exact wp_mono (wp_and hcall hmade) (fun _ _ h => h) (fun _ he => he.2)

/-- A call that makes an arc between live elements has found a cell for it. -/
theorem arcNew_room (hok : StoreOk env.thread st) (htype : scTypeNode &&& type = 0)
    (hbeg : Live st.cell beg) (hend : Live st.cell end_) :
    IfReturns (scStorageArcNew env ctx type beg end_)
      (fun _ _ => st.segmentsNum < env.maxLoadedSegments) st := by
  have hne {x : ScAddr} (hx : Live st.cell x) : x ≠ ScAddr.empty := by
    rintro rfl
    exact hok.cells.arcs.notEmpty hx
  unfold scStorageArcNew
  rw [arcNewExt_eq htype (hne hbeg) (hne hend), IfReturns, wp_bind]
  apply wp_mono (attempt_total hok hbeg hend) _ (fun _ _ => trivial)
  rintro r s ⟨hnone, hcell⟩
  cases r with
  | none => exact absurd rfl hnone
  | some a =>
    by_contra hfull
    exact hcell (noCellForArc_of_full ctx beg end_ (not_lt.mp hfull))

/-- No arc is made only where the begin is no live element. -/
theorem arcNew_or_dead (hok : StoreOk env.thread st) (htype : scTypeNode &&& type = 0)
    (hlink : type &&& scTypeLink = 0) (hend : Live st.cell end_) :
    IfReturns (scStorageArcNew env ctx type beg end_) (fun r s => StoreOk env.thread s ∧
      ((r = ScAddr.empty ∧ s.unlocked = st.unlocked ∧ ¬ Live st.cell beg) ∨
        (r ≠ ScAddr.empty ∧ ArcCreated st type beg end_ ctx.accessLevels r s))) st := by
  by_cases hbeg : Live st.cell beg
  · apply wp_mono (arcNew_live hok htype hlink hbeg hend) _ (fun _ _ => trivial)
    intro r s ⟨hok', hcr⟩
    refine ⟨hok', Or.inr ⟨?_, hcr⟩⟩
    rintro rfl
    exact hok'.cells.arcs.notEmpty (hcr.isArc hok.cells).1
  · have hcall := storeOk_call (f := scStorageArcNew env ctx type beg end_) (.arcNew ctx type beg end_) rfl
      hlink hok
    have hnew := arcNew_returns (holds_start env.thread st hok.wf.1 hok.wf.2) hok.cells ctx type beg end_
    apply wp_mono (wp_and hcall hnew) _ (fun _ _ => trivial)
    rintro r s ⟨hok', ⟨hu, hr⟩ | hcr⟩
    · exact ⟨hok', Or.inl ⟨hr, hu, hbeg⟩⟩
    · exact absurd hcr.beginLive hbeg

/-- A node is made, or no cell is found for it. -/
theorem nodeNew_live (hok : StoreOk env.thread st) (htype : scTypeArcMask &&& type = 0) :
    Wp (scStorageNodeNew env ctx type)
      (fun r s => StoreOk env.thread s ∧ ((r = ScAddr.empty ∧ NoCell env ctx st) ∨
        (r ≠ ScAddr.empty ∧ Created st r (Function.update st.cell r (nodeCell ctx type)) s)))
      (fun _ => NoCell env ctx st) st := by
  have hcall := storeOk_call (f := scStorageNodeNew env ctx type) (.nodeNew ctx type) rfl trivial hok
  have h := holds_start env.thread st hok.wf.1 hok.wf.2
  have hmade : Wp (scStorageNodeNew env ctx type)
      (fun r s => (r = ScAddr.empty ∧ NoCell env ctx st) ∨
        (r ≠ ScAddr.empty ∧ Created st r (Function.update st.cell r (nodeCell ctx type)) s))
      (fun _ => NoCell env ctx st) st := by
    unfold scStorageNodeNew scStorageNodeNewExt
    rw [wp_bind, wp_scAssert]
    refine ⟨fun _ => ?_, fun hno => absurd htype (by simpa using hno)⟩
    unfold newElement
    rw [wp_bind]
    have happend := wp_and (appendEl_holds h ctx) (appendEl_cells h hok.cells.holes hok.cells.zero ctx)
    unfold Wp at happend ⊢
    cases hrun : scStorageAppendElIntoSegments env ctx st with
    | error stop =>
      intro a s' hsome
      rw [hrun] at hsome
      cases hsome
    | ok p =>
      obtain ⟨r, s1⟩ := p
      rw [hrun] at happend
      obtain ⟨h1, _, hsome⟩ := happend
      cases r with
      | none =>
        refine Or.inl ⟨rfl, fun a s' hsome => ?_⟩
        rw [hrun] at hsome
        cases hsome
      | some a =>
        have happ := hsome a rfl
        have hcell : s1.cell a = ScElement.zero := by
          rw [happ.cell]
          exact hok.cells.zero a happ.free
        have hl := h1.loaded a List.mem_cons_self
        change Wp _ (fun r s => (r = ScAddr.empty ∧ NoCell env ctx st) ∨
          (r ≠ ScAddr.empty ∧ Created st r (Function.update st.cell r (nodeCell ctx type)) s))
          (fun _ => NoCell env ctx st) s1
        simp only [wp_bind]
        apply modifyCell_rule h1 happ.holes ⟨hl, happ.notHole⟩
        intro s2 h2 hw
        rw [hcell, happ.cell] at hw
        apply unlock_rule h2
        intro s3 hu _
        exact Or.inr ⟨happ.notEmpty, s1, happ, hl, hw.unlocked hu⟩
  exact wp_mono (wp_and hcall hmade) (fun _ _ h => h) (fun _ he => he.2)

end

end ScMachine.Store
