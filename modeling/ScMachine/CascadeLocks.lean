import ScMachine.DeletionExact

/-! The locks of `sc_storage_element_free`: which elements are in `lock_table` when the loop over
`remove_table` comes to an arc, which cells it writes, and how often an element has been locked. -/
namespace ScMachine.Store
open ScMachine.StateExcept ScMachine.Runs ScMachine.DoublyLinked

/-- The cells that are written for an arc as a member of one list: its neighbours, and the owner if the
list starts with it. -/
def linkWrites (c : Cells) (x : ScAddr) (d : Dir) : List ScAddr :=
  ([prevOf c d x, nextOf c d x].filter fun y => y ≠ ScAddr.empty) ++
    if (c (ownerOf c d x)).first d = x then [ownerOf c d x] else []

/-- The cells that the body of the loop over `remove_table` writes for `x`. -/
def cellsWritten (c : Cells) (x : ScAddr) : List ScAddr :=
  x :: if (c x).isArc then linkWrites c x .out ++ linkWrites c x .inp else []

/-- When the loop comes to `x` and has been through `gone`: what it looks up in `lock_table` is there, the
neighbours of `x` are not among `gone`, and no cell that it writes has been wiped. A removed cell is wiped
by `sc_segment_erase_element`, unless somebody still refers to it. -/
structure EraseReady (lt gone : List ScAddr) (x : ScAddr) (s : ScStorage) : Prop where
  keys : (s.cell x).isArc = true → ∀ d, ownerOf s.cell d x ∈ lt ∧
    (nextOf s.cell d x = ScAddr.empty ∨ nextOf s.cell d x ∈ lt) ∧
    (prevOf s.cell d x = ScAddr.empty ∨ prevOf s.cell d x ∈ lt)
  neighbours : (s.cell x).isArc = true → ∀ d,
    (nextOf s.cell d x = ScAddr.empty ∨ nextOf s.cell d x ∉ gone) ∧
    (prevOf s.cell d x = ScAddr.empty ∨ prevOf s.cell d x ∉ gone)
  written : ∀ y ∈ cellsWritten s.cell x, y ∈ gone → s.cell y ≠ ScElement.zero

/-- The loop over `l` from `s` stops at no assertion, finds what it needs for each element, and writes no
other cells than `cellsWritten`. -/
structure ErasesLocked (env : ScEnv) (lt l : List ScAddr) (s : ScStorage) : Prop where
  ready : ∀ gone x rest, l = gone ++ x :: rest → ∃ s1 s2,
    eraseElements env lt gone s = .ok ((), s1) ∧ EraseReady lt gone x s1 ∧
      eraseElement env lt x s1 = .ok ((), s2) ∧ ∀ y ∉ cellsWritten s1.cell x, s2.cell y = s1.cell y
  ends : ∃ s', eraseElements env lt l s = .ok ((), s') ∧ s'.locks = s.locks

section
variable {env : ScEnv} {st s s' : ScStorage} {a x y : ScAddr} {lt : List ScAddr} {c : Cells}

/-! No element is locked twice. -/

theorem nodup_concat (h : lt.Nodup) (ha : a ∉ lt) : (lt ++ [a]).Nodup := by
  rw [← List.concat_eq_append]
  exact h.concat ha

theorem lockEndpoint_nodup (h : lt.Nodup) (a : ScAddr) (s : ScStorage) :
    IfReturns (lockEndpoint env a lt) (fun lt' _ => lt'.Nodup) s := by
  unfold lockEndpoint
  rw [IfReturns, wp_ite]
  refine ⟨fun _ => h, fun ha => ?_⟩
  rw [wp_bind]
  apply ifReturns_of_ok
  intro r s1 _
  rw [wp_ite]
  exact ⟨fun _ => nodup_concat h ha, fun _ => h⟩

theorem lockNeighbour_nodup (h : lt.Nodup) (a : ScAddr) (s : ScStorage) :
    IfReturns (lockNeighbour env a lt) (fun lt' _ => lt'.Nodup) s := by
  unfold lockNeighbour
  rw [IfReturns, wp_ite]
  refine ⟨fun _ => h, fun ha => ?_⟩
  rw [wp_bind]
  apply ifReturns_of_ok
  intro r s1 _
  rw [wp_ite]
  exact ⟨fun _ => nodup_concat h (not_or.mp ha).2, fun _ => trivial⟩

theorem lockAround_nodup (h : lt.Nodup) (el : ScElement) (s : ScStorage) :
    IfReturns (lockAround env el lt) (fun lt' _ => lt'.Nodup) s := by
  unfold lockAround
  rw [IfReturns, wp_ite]
  refine ⟨fun _ => h, fun _ => ?_⟩
  rw [wp_bind]
  apply wp_mono (lockEndpoint_nodup h _ s) _ (fun _ hb => hb)
  intro lt1 s1 h1
  rw [wp_bind]
  apply wp_mono (lockEndpoint_nodup h1 _ s1) _ (fun _ hb => hb)
  intro lt2 s2 h2
  rw [wp_bind]
  apply wp_mono (lockNeighbour_nodup h2 _ s2) _ (fun _ hb => hb)
  intro lt3 s3 h3
  rw [wp_bind]
  apply wp_mono (lockNeighbour_nodup h3 _ s3) _ (fun _ hb => hb)
  intro lt4 s4 h4
  rw [wp_bind]
  apply wp_mono (lockNeighbour_nodup h4 _ s4) _ (fun _ hb => hb)
  intro lt5 s5 h5
  exact lockNeighbour_nodup h5 _ s5

theorem collectArc_nodup {t : FreeTables} (h : t.lockTable.Nodup) (a : ScAddr) (s : ScStorage) :
    IfReturns (collectArc env a t) (fun t' _ => t'.lockTable.Nodup) s := by
  unfold collectArc
  rw [IfReturns, wp_ite]
  refine ⟨fun _ => h, fun _ => ?_⟩
  rw [wp_ite]
  refine ⟨fun _ => h, fun ha => ?_⟩
  rw [wp_bind]
  apply ifReturns_of_ok
  intro r s1 _
  rw [wp_ite]
  exact ⟨fun _ => nodup_concat h ha, fun _ => trivial⟩

theorem collectArcs_nodup (f : ArcField) (fuel : ℕ) (a : ScAddr) {t : FreeTables}
    (h : t.lockTable.Nodup) (s : ScStorage) :
    IfReturns (collectArcs env f fuel a t) (fun t' _ => t'.lockTable.Nodup) s := by
  induction fuel generalizing a t s with
  | zero => trivial
  | succ fuel ih =>
    unfold collectArcs
    rw [IfReturns, wp_ite]
    refine ⟨fun _ => h, fun _ => ?_⟩
    rw [wp_bind]
    apply wp_mono (collectArc_nodup h a s) _ (fun _ hb => hb)
    intro t1 s1 h1
    rw [wp_bind, wp_readCell]
    exact ih _ h1 s1

theorem collectElement_nodup {t : FreeTables} (h : t.lockTable.Nodup) (a : ScAddr) (s : ScStorage) :
    IfReturns (collectElement env a t) (fun t' _ => t'.lockTable.Nodup) s := by
  unfold collectElement
  rw [IfReturns, wp_bind, wp_readCell, wp_bind]
  apply wp_mono (lockAround_nodup h _ s) _ (fun _ hb => hb)
  intro lt1 s1 h1
  rw [wp_bind]
  apply wp_mono (collectArcs_nodup _ _ _ h1 s1) _ (fun _ hb => hb)
  intro t2 s2 h2
  exact collectArcs_nodup _ _ _ h2 s2

theorem takeFromList_nodup {t : FreeTables} (h : t.lockTable.Nodup) (a : ScAddr) (rest : List ScAddr)
    (s : ScStorage) : IfReturns (takeFromList env a rest t) (fun t' _ => t'.lockTable.Nodup) s := by
  unfold takeFromList
  rw [IfReturns, wp_ite]
  refine ⟨fun _ => h, fun ha => ?_⟩
  rw [wp_bind]
  apply ifReturns_of_ok
  intro r s1 _
  rw [wp_ite]
  refine ⟨fun _ => trivial, fun _ => ?_⟩
  rw [wp_bind, wp_readCell, wp_bind]
  apply ifReturns_of_ok
  intro _ s2 _
  exact nodup_concat h ha

theorem collectLoop_nodup (ctx : ScContext) (fuel : ℕ) (el : ScAddr) {t : FreeTables}
    (h : t.lockTable.Nodup) (s : ScStorage) :
    IfReturns (collectLoop env ctx fuel el t) (fun r _ => r.2.lockTable.Nodup) s := by
  induction fuel generalizing el t s with
  | zero => trivial
  | succ fuel ih =>
    unfold collectLoop
    cases t.removeList with
    | nil => exact h
    | cons a rest =>
      simp only
      rw [IfReturns, wp_bind, wp_readCell, wp_ite]
      refine ⟨fun _ => h, fun _ => ?_⟩
      rw [wp_bind]
      apply wp_mono (takeFromList_nodup h a rest s) _ (fun _ hb => hb)
      intro t1 s1 h1
      rw [wp_bind]
      apply wp_mono (collectElement_nodup h1 a s1) _ (fun _ hb => hb)
      intro t2 s2 h2
      exact ih a h2 s2

/-! The writes for one element. -/

/-- A cell that is not among `cellsWritten` is left alone. -/
theorem unlinkBoth_of_notMem (hx : (c x).isArc = true) (hy : y ∉ cellsWritten c x) :
    unlinkBoth x c y = c y := by
  unfold cellsWritten at hy
  rw [if_pos hx, List.mem_cons, List.mem_append, not_or, not_or] at hy
  obtain ⟨_, hout, hinp⟩ := hy
  have hlink (d : Dir) : y ∉ linkWrites c x d := by
    cases d with
    | out => exact hout
    | inp => exact hinp
  have hneighbour (d : Dir) (z : ScAddr) (hz : z ∈ [prevOf c d x, nextOf c d x]) (he : y = z) :
      y = ScAddr.empty := by
    by_contra hne
    subst he
    exact hlink d (List.mem_append_left _ (List.mem_filter.mpr ⟨hz, decide_eq_true hne⟩))
  apply (unlinkBoth_other x c y (fun d => hneighbour d _ (by simp)) fun d => hneighbour d _ (by simp)).2
  intro d ho hf
  apply hlink d
  unfold linkWrites
  rw [← ho, if_pos hf]
  exact List.mem_append_right _ (List.mem_singleton_self y)

/-- The loop has been through `D`, with all of `R` to remove, and comes to `x`. -/
theorem eraseReady_of_erased (hc : CellsOk st) {R D : List ScAddr} (he : Erased env st D s)
    (hnb : NeighboursIn lt st.cell R D s.cell) (hx : x ∈ R) (hxD : x ∉ D) (hlive : Live st.cell x)
    (hlock : LockedAround st.cell lt x) : EraseReady lt D x s := by
  have hsame := he.cells.same x hxD
  have harc (h : (s.cell x).isArc = true) : LiveArc st.cell x := ⟨hlive, by rw [← hsame.isArc]; exact h⟩
  -- the neighbours are arcs that are still in their list
  have hrest (d : Dir) (z : ScAddr) (h : LiveArc st.cell x)
      (hz : z = ScAddr.empty ∨ z ∈ restList st.cell D d (ownerOf st.cell d x)) :
      z = ScAddr.empty ∨ z ∉ D :=
    hz.imp id fun hm => ((mem_restList hc.arcs (hc.arcs.endpoint x d h) z).mp hm).2.2
  have hneighbours (h : (s.cell x).isArc = true) (d : Dir) :
      (nextOf s.cell d x = ScAddr.empty ∨ nextOf s.cell d x ∉ D) ∧
        (prevOf s.cell d x = ScAddr.empty ∨ prevOf s.cell d x ∉ D) := by
    obtain ⟨hn, hp⟩ := he.cells.neighbour hc.arcs (harc h) hxD d
    exact ⟨hrest d _ (harc h) hn, hrest d _ (harc h) hp⟩
  refine ⟨?_, hneighbours, ?_⟩
  · intro h d
    obtain ⟨hn, hp⟩ := hnb x hx hxD (harc h) d
    rw [hsame.owner d]
    exact ⟨(hlock (harc h) d).1, hn, hp⟩
  · intro y hy hyD hzero
    rcases List.mem_cons.mp hy with rfl | hy
    · exact hxD hyD
    split_ifs at hy with h
    swap
    · cases hy
    have hlink (d : Dir) : y ∉ linkWrites s.cell x d := by
      intro hm
      rcases List.mem_append.mp hm with hm | hm
      · obtain ⟨hm, hne⟩ := List.mem_filter.mp hm
        have hne' : y ≠ ScAddr.empty := of_decide_eq_true hne
        obtain ⟨hn, hp⟩ := hneighbours h d
        rcases List.mem_cons.mp hm with rfl | hm
        · exact hp.elim hne' fun hh => hh hyD
        · obtain rfl := List.mem_singleton.mp hm
          exact hn.elim hne' fun hh => hh hyD
      · -- the list of a wiped owner starts with no arc
        split_ifs at hm with hf
        · rw [List.mem_singleton.mp hm] at hzero
          rw [hzero] at hf
          have hxe : x = ScAddr.empty := by
            rw [← hf]
            cases d <;> rfl
          exact hc.arcs.notEmpty (hxe ▸ hlive)
        · cases hm
    rcases List.mem_append.mp hy with hy | hy
    · exact hlink .out hy
    · exact hlink .inp hy

theorem EraseReady.mono {gone D : List ScAddr} (h : EraseReady lt D x s) (hD : gone ⊆ D) :
    EraseReady lt gone x s := by
  refine ⟨h.keys, ?_, fun y hy hg => h.written y hy (hD hg)⟩
  intro harc d
  obtain ⟨hn, hp⟩ := h.neighbours harc d
  exact ⟨hn.imp id (fun hh hg => hh (hD hg)), hp.imp id (fun hh hg => hh (hD hg))⟩

/-- The loop over the elements that the search has found, when no other thread is in the way. -/
theorem erasesLocked {L : SectionKey → LockWord} {as R l : List ScAddr} (hc : CellsOk st)
    (hseg : SegsInRange st) (hown : ∀ k, Lockable env.thread (L k)) (hu : s.unlocked = st.unlocked)
    (h : Holds env.thread L as s) (hlock : ∀ x ∈ R, LockedAround st.cell lt x) (hR : ∀ x ∈ l, x ∈ R)
    (hlive : ∀ x ∈ l, Live st.cell x) (hnd : l.Nodup) : ErasesLocked env lt l s := by
  have hfree : ¬ Blocked env.thread L := fun hb => hb hown
  have he := erased_start env hc hu
  have hnb : NeighboursIn lt st.cell R [] s.cell := by
    intro y hy _ hya d
    rw [cell_of_unlocked hu]
    exact (hlock y hy hya d).2
  -- a part of the loop returns
  have hrun (gone : List ScAddr) (hsub : ∀ y ∈ gone, y ∈ l) (hnd : gone.Nodup) :
      ∃ s1, eraseElements env lt gone s = .ok ((), s1) ∧ Holds env.thread L as s1 ∧
        Erased env st gone.reverse s1 ∧ NeighboursIn lt st.cell R gone.reverse s1.cell := by
    have hwp := eraseElements_wp hc hseg gone [] h he hnb (fun y hy => hR y (hsub y hy))
      (fun y hy => hlive y (hsub y hy)) hnd (by simp)
    rw [List.append_nil] at hwp
    obtain ⟨_, s1, hrun, hpost⟩ := wp_returns (wp_mono hwp (fun _ _ hq => hq) fun _ hb => hfree hb)
    exact ⟨s1, hrun, hpost⟩
  constructor
  · intro gone x rest hl
    subst hl
    obtain ⟨hgone, hrest, hdisj⟩ := List.nodup_append.mp hnd
    have hxm : x ∈ gone ++ x :: rest := List.mem_append_right _ List.mem_cons_self
    have hxD : x ∉ gone.reverse := fun hh =>
      hdisj x (List.mem_reverse.mp hh) x List.mem_cons_self rfl
    obtain ⟨s1, hrun1, h1, he1, hnb1⟩ := hrun gone (fun y hy => List.mem_append_left _ hy) hgone
    have hready := eraseReady_of_erased hc he1 hnb1 (hR x hxm) hxD (hlive x hxm) (hlock x (hR x hxm))
    have hwp := eraseElement_wp hc hseg h1 he1 hnb1 (hR x hxm) hxD (hlive x hxm)
    obtain ⟨_, s2, hrun2, _, _, _, hother⟩ :=
      wp_returns (wp_mono hwp (fun _ _ hq => hq) fun _ hb => hfree hb)
    refine ⟨s1, s2, hrun1, hready.mono fun y hy => List.mem_reverse.mpr hy, hrun2, ?_⟩
    intro y hy
    have hyx : y ≠ x := fun hh => hy (hh ▸ List.mem_cons_self)
    rw [hother y hyx]
    split_ifs with hxa
    · apply unlinkBoth_of_notMem _ hy
      rw [(he1.cells.same x hxD).isArc]
      exact hxa.2
    · rfl
  · obtain ⟨s1, hrun1, h1, _⟩ := hrun l (fun y hy => hy) hnd
    exact ⟨s1, hrun1, h1.locks.trans h.locks.symm⟩

/-- The search from a live element `a`. -/
theorem collectLoop_locked (hok : StoreOk env.thread st) (ha : Live st.cell a) (ctx : ScContext) :
    ∃ s0 r t s, scStorageElementLock env a st = .ok (true, s0) ∧ s0.unlocked = st.unlocked ∧
      collectLoop env ctx walkFuel a ⟨[a], [a], [a]⟩ s0 = .ok ((r, t), s) ∧ t.lockTable.Nodup ∧
      Holds env.thread st.locks t.lockTable s ∧ s.unlocked = st.unlocked ∧
      (r = .ok → t.removeTable = removeOrder st.cell a ∧
        ∀ x ∈ t.removeTable, LockedAround st.cell t.lockTable x) := by
  have hstart := holds_start env.thread st hok.wf.1 hok.wf.2
  have hfree : ¬ Blocked env.thread st.locks := fun hb => hb hok.own
  have hlock : Wp (scStorageElementLock env a) (fun r s => r = true ∧ s.unlocked = st.unlocked ∧
      Holds env.thread st.locks [a] s) (fun _ => False) st := by
    apply wp_mono (elementLock_wp hstart a)
    · intro r s1 ⟨hu, hloaded, h1⟩
      cases r with
      | false =>
        have hl := hok.cells.loaded hstart.segs (type_of_live ha)
        simpa using hloaded.mpr hl
      | true => exact ⟨rfl, hu, h1⟩
    · intro _ hstop
      rcases hstop with hoff | hlock
      · have hin := hok.cells.inRange a (type_of_live ha)
        omega
      · exact hlock (hok.own _)
  obtain ⟨_, s0, hrun0, rfl, hu0, h0⟩ := wp_returns hlock
  have hcol : Collecting env st.locks [] st ⟨[a], [a], [a]⟩ s0 := by
    refine ⟨⟨hu0, h0⟩, List.Subset.refl _, ?_⟩
    intro x hx
    rw [List.mem_singleton.mp hx]
    exact ha
  have hloop := collectLoop_wp hok.cells hstart.segs ctx walkFuel a [] ⟨[a], [a], [a]⟩ hcol rfl
    (by simp) ⟨by simp, by simp⟩ (by norm_num [walkFuel])
  obtain ⟨⟨r, t⟩, s, hrun, ⟨hcol', hgood, hbad⟩⟩ :=
    wp_returns (wp_mono hloop (fun _ _ hq => hq) fun _ hb => hfree hb)
  have hnd := wp_ok (collectLoop_nodup ctx walkFuel a (List.nodup_singleton a) s0) hrun
  have hheld := hcol'.held.holds
  rw [List.append_nil] at hheld
  refine ⟨s0, r, t, s, hrun0, hu0, hrun, hnd, hheld, hcol'.held.same, ?_⟩
  intro hr
  by_cases hall : ∀ x ∈ checkedElements st.cell a, CanWrite ctx st.cell x
  · exact (hgood hall).2
  · have hdenied : r = .errorNoWriteRights := hbad hall
    rw [hr] at hdenied
    cases hdenied

/-- The call returns what its search returns. -/
theorem elementFree_result {ctx : ScContext} (order : HashOrder) {s0 : ScStorage} {r : ScResult}
    {t : FreeTables} (ha : Live st.cell a) (hlock : scStorageElementLock env a st = .ok (true, s0))
    (hu : s0.unlocked = st.unlocked)
    (hloop : collectLoop env ctx walkFuel a ⟨[a], [a], [a]⟩ s0 = .ok ((r, t), s)) :
    IfReturns (scStorageElementFree env ctx order a) (fun r' _ => r' = r) st := by
  unfold scStorageElementFree
  rw [IfReturns, wp_bind, wp_iff_of_eq hlock]
  simp only [Bool.not_true, Bool.false_eq_true, if_false]
  rw [wp_bind, wp_readCell, cell_of_unlocked hu, wp_ite]
  constructor
  · intro hdead
    rw [show scElementIsValid (st.cell a) = true from ha] at hdead
    cases hdead
  intro _
  rw [wp_bind, wp_iff_of_eq hloop]
  cases r with
  | ok =>
    simp only [wp_bind]
    apply ifReturns_of_ok
    intro _ s2 _
    apply ifReturns_of_ok
    intro _ s3 _
    rfl
  | _ =>
    simp only [wp_bind]
    apply ifReturns_of_ok
    intro _ s2 _
    rfl

end

/-- For a live element of a reachable store, the search locks every key of `lock_table` once and nothing
else, the loop over `remove_table` finds all that it looks up there and writes no cell that it has wiped,
in every order of the table, and in the end the locks are as they were. -/
theorem erase_phase_locked (thread : ℕ) (evs : List StoreEvent) (st : ScStorage)
    (hr : Run (OwnStep thread) ScStorage.empty evs st) (env : ScEnv) (ht : env.thread = thread)
    (ctx : ScContext) (a : ScAddr) (ha : Live st.cell a) :
    ∃ s0 r t s, scStorageElementLock env a st = .ok (true, s0) ∧
      collectLoop env ctx walkFuel a ⟨[a], [a], [a]⟩ s0 = .ok ((r, t), s) ∧
      t.lockTable.Nodup ∧ s.locks = addLocks thread (t.lockTable.map ScAddr.key) st.locks ∧
      ∀ order : HashOrder, (r = .ok → ErasesLocked env t.lockTable (order.list t.removeTable) s) ∧
        ∃ s', scStorageElementFree env ctx order a st = .ok (r, s') ∧ s'.locks = st.locks := by
  subst ht
  have hok := ownRun_storeOk evs st hr
  obtain ⟨s0, r, t, s, hrun0, hu0, hrun, hnd, hheld, hu, hfound⟩ := collectLoop_locked hok ha ctx
  refine ⟨s0, r, t, s, hrun0, hrun, hnd, hheld.locks, ?_⟩
  intro order
  constructor
  · intro hr
    obtain ⟨htable, haround⟩ := hfound hr
    obtain ⟨hnodup, hmem, hlive⟩ := removeTable_spec hok.cells ha order
    rw [htable] at haround ⊢
    exact erasesLocked hok.cells hok.wf.2 hok.own hu hheld haround hmem hlive hnodup
  · obtain ⟨r', s', hfree, hlocks, _⟩ := elementFree_returns hok ha ctx order
    have hres := elementFree_result order ha hrun0 hu0 hrun
    have hsame : r' = r := wp_ok (Q := fun r' _ => r' = r) hres hfree
    exact ⟨s', hsame ▸ hfree, hlocks⟩

/-- The end of the arc is deleted. -/
theorem erase_phase_locked_storeWithArc : ∃ s0 t s,
    collectLoop exampleEnv exampleContext walkFuel ⟨0, 33⟩ ⟨[⟨0, 33⟩], [⟨0, 33⟩], [⟨0, 33⟩]⟩ s0 =
      .ok ((.ok, t), s) ∧ t.lockTable.Nodup ∧
      ErasesLocked exampleEnv t.lockTable (tableOrder.list t.removeTable) s := by
  have hlive : Live storeWithArc.cell ⟨0, 33⟩ := by
    unfold Live
    decide +kernel
  obtain ⟨s0, r, t, s, _, hloop, hnd, _, hrest⟩ := erase_phase_locked 1 arcEvents storeWithArc
    storeWithArc_run exampleEnv rfl exampleContext ⟨0, 33⟩ hlive
  obtain ⟨herases, s', hfree, _⟩ := hrest tableOrder
  -- the context may write everything, so the search is not refused
  have hok := ownRun_storeOk arcEvents _ storeWithArc_run
  obtain ⟨r', s1, hfree', _, hout⟩ :=
    @elementFree_returns exampleEnv _ _ hok hlive exampleContext tableOrder
  rw [hfree] at hfree'
  cases hfree'
  cases hout with
  | dead _ hdead _ => exact absurd hlive hdead
  | denied _ _ hdenied _ => exact absurd (fun x _ => canWrite_exampleContext _ x) hdenied
  | freed => exact ⟨s0, t, s, hloop, hnd, herases rfl⟩

end ScMachine.Store
