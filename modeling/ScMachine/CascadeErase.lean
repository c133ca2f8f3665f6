import ScMachine.ReferenceCounts

/-! The second phase of `sc_storage_element_free`: the elements of `remove_table` are taken out of
the lists, flagged and dropped, in the order of the table. -/
namespace ScMachine.Store
open ScMachine.StateExcept ScMachine.Runs ScMachine.DoublyLinked

/-- Some section is held by another thread. -/
def Blocked (thread : ℕ) (L : SectionKey → LockWord) : Prop := ¬ ∀ k, Lockable thread (L k)

/-- What the deletion of the element `a` does to the content index. -/
def freeContent (env : ScEnv) (c : Cells) (a : ScAddr) (fm : FileMemory) : FileMemory :=
  if (c a).isLink = true ∧ scElementIsChecksumEmpty (c a) = false then
    scFmAddrRefRemove a (contentChecksum env (c a)) fm
  else fm

/-- The elements of `D` have been removed from `st`, the last one of the list first. -/
structure Erased (env : ScEnv) (st : ScStorage) (D : List ScAddr) (s : ScStorage) : Prop where
  cells : Erasing (fun z => st.refCount z = 1) st.cell D s.cell
  refCount : ∀ z, s.refCount z = if z ∈ D then st.refCount z-1 else st.refCount z
  holes : s.HolesOk
  loaded : ∀ y, Loaded s y ↔ Loaded st y
  fileMemory : s.fileMemory = D.foldr (freeContent env st.cell) st.fileMemory

/-- The neighbours of what is still to be removed are in `lock_table`. -/
def NeighboursIn (lt : List ScAddr) (c0 : Cells) (R D : List ScAddr) (c : Cells) : Prop :=
  ∀ y ∈ R, y ∉ D → LiveArc c0 y → ∀ d,
    (nextOf c d y = ScAddr.empty ∨ nextOf c d y ∈ lt) ∧
      (prevOf c d y = ScAddr.empty ∨ prevOf c d y ∈ lt)

section
variable {env : ScEnv} {L : SectionKey → LockWord} {as : List ScAddr} {st st' s s' : ScStorage}
  {a b x : ScAddr} {lt : List ScAddr}

theorem relink_wp (h : Holds env.thread L as s) (hh : s.HolesOk)
    (hb : b ≠ ScAddr.empty → b ∈ lt ∧ Loaded s b) (f : ArcField) (t : ScAddr)
    (Q : Unit → ScStorage → Prop) (E : ScStop → Prop)
    (hQ : ∀ s', Holds env.thread L as s' → CellsSet s (relinkCell b f t s.cell) s' → Q () s') :
    Wp (relink lt b f t) Q E s := by
  unfold relink unlessEmpty
  rw [wp_ite]
  unfold relinkCell at hQ
  constructor
  · intro he
    rw [if_pos he] at hQ
    exact hQ s h (CellsSet.of_segments rfl rfl hh)
  · intro he
    rw [if_neg he] at hQ
    rw [wp_bind, wp_scAssert]
    simp only [(hb he).1, decide_true, forall_const, Bool.true_eq_false, false_implies, and_true]
    exact modifyCell_sameType_rule h hh (hb he).2 _ rfl Q E hQ

/-- Locking and unlocking around a body that keeps the locks of the thread. -/
theorem aroundOwner_wp (h : Holds env.thread L as s) (lt : List ScAddr) (owner : ScAddr)
    (hl : Loaded s owner) (body : StoreM Unit) (Q : ScStorage → Prop)
    (hbody : ∀ as' s1, s1.unlocked = s.unlocked → Holds env.thread L as' s1 →
      Wp body (fun _ s2 => Q s2 ∧ Holds env.thread L as' s2) (fun _ => Blocked env.thread L) s1)
    (hQ : ∀ s1 s2, s2.unlocked = s1.unlocked → Q s1 → Q s2) :
    Wp (do
        lockOwner env lt owner
        body
        unlockOwner env lt owner) (fun _ s' => Q s' ∧ Holds env.thread L as s')
      (fun _ => Blocked env.thread L) s := by
  by_cases hlt : owner ∈ lt
  · simp only [lockOwner, unlockOwner, hlt, if_true, wp_bind, wp_pure]
    exact hbody as s rfl h
  · simp only [lockOwner, unlockOwner, hlt, if_false, wp_bind]
    apply wp_mono (elementLock_wp h owner)
    swap
    · intro _ hstop hall
      rcases hstop with hoff | hlock
      · exact absurd hl.2 (by omega)
      · exact hlock (hall _)
    rintro r s1 ⟨hu, hloaded, h1⟩
    cases r with
    | false => simpa using hloaded.mpr hl
    | true =>
      simp only [Bool.not_true, Bool.false_eq_true, if_false, wp_pure]
      apply wp_mono (hbody _ s1 hu h1) _ (fun _ he => he)
      rintro _ s2 ⟨hq, h2⟩
      apply unlock_rule h2
      intro s3 hu3 h3
      exact ⟨hQ s2 s3 hu3 hq, h3⟩

theorem unlinkArc_wp (h : Holds env.thread L as s) (hh : s.HolesOk) (lt : List ScAddr) (d : Dir)
    (x : ScAddr)
    (hn : nextOf s.cell d x ≠ ScAddr.empty → nextOf s.cell d x ∈ lt ∧ Loaded s (nextOf s.cell d x))
    (hp : prevOf s.cell d x ≠ ScAddr.empty → prevOf s.cell d x ∈ lt ∧ Loaded s (prevOf s.cell d x))
    (ho : Loaded s (ownerOf s.cell d x)) :
    Wp (unlinkArc env lt d x)
      (fun _ s' => CellsSet s (unlinkCells d x s.cell) s' ∧ Holds env.thread L as s')
      (fun _ => Blocked env.thread L) s := by
  unfold unlinkArc
  rw [wp_bind, wp_readCell]
  simp only []
  rw [wp_bind]
  apply relink_wp h hh hp
  intro s1 h1 w1
  rw [wp_bind]
  apply relink_wp h1 w1.holes
  · intro hne
    exact ⟨(hn hne).1, (w1.loaded _).mpr (hn hne).2⟩
  intro s2 h2 w2
  have w12 := w1.trans w2
  have hlo : Loaded s2 (ownerOf s.cell d x) := (w12.loaded _).mpr ho
  have hassoc : (do
      lockOwner env lt ((s.cell x).arc d.owner)
      modifyCell ((s.cell x).arc d.owner) fun b =>
        if b.first d = x then b.setFirst ((s.cell x).arc d.next) d else b
      let el ← readCell ((s.cell x).arc d.owner)
      emit (.emit ((s.cell x).arc d.owner) el.accessLevels d.removeEvent x ((s.cell x).arc d.other))
      unlockOwner env lt ((s.cell x).arc d.owner) : StoreM Unit) = (do
      lockOwner env lt ((s.cell x).arc d.owner)
      (do
        modifyCell ((s.cell x).arc d.owner) fun b =>
          if b.first d = x then b.setFirst ((s.cell x).arc d.next) d else b
        let el ← readCell ((s.cell x).arc d.owner)
        emit (.emit ((s.cell x).arc d.owner) el.accessLevels d.removeEvent x
          ((s.cell x).arc d.other)))
      unlockOwner env lt ((s.cell x).arc d.owner)) := by
    simp only [bind_assoc]
  rw [hassoc]
  apply aroundOwner_wp h2 lt _ hlo _ (fun s' => CellsSet s (unlinkCells d x s.cell) s')
  · intro as' s3 hu h3
    have w3 := CellsSet.of_unlocked hu w2.holes
    have hlo3 : Loaded s3 (ownerOf s.cell d x) := (w3.loaded _).mpr hlo
    rw [wp_bind]
    apply modifyCell_sameType_rule h3 w3.holes hlo3
    · split_ifs
      · exact type_setFirst _ _ _
      · rfl
    intro s4 h4 w4
    rw [wp_bind, wp_readCell]
    apply emit_rule h4 w4.holes
    intro s5 h5 w5
    have hw := ((w12.trans w3).trans w4).trans w5
    rw [w4.cell, w3.cell, w2.cell, w1.cell] at hw
    exact ⟨hw, h5⟩
  · intro s1 s2 hu hw
    exact hw.unlocked hu

theorem SameButLinks.valid {c0 c : Cells} {z : ScAddr} (h : SameButLinks c0 c z) :
    scElementIsValid (c z) = scElementIsValid (c0 z) := by
  unfold scElementIsValid scElementIsRequestDeletion
  rw [h.type]

/-- A link has its content until it is removed itself. -/
theorem freeContent_same {c0 c : Cells} {z : ScAddr} (h : SameButLinks c0 c z)
    (harc : (c0 z).isLink = true → ¬ LiveArc c0 z) : freeContent env c z = freeContent env c0 z := by
  funext fm
  unfold freeContent contentChecksum scElementIsChecksumEmpty ScElement.isLink
  unfold ScElement.isLink at harc
  rw [h.type]
  by_cases hl : ((c0 z).type &&& scTypeLink != 0) = true
  · rw [h.data (harc hl)]
  · rw [if_neg (fun hh => hl hh.1), if_neg (fun hh => hl hh.1)]

theorem removeContentAddr_wp (h : Holds env.thread L as s)
    (hlink : (s.cell a).isLink = true) (Q : Unit → ScStorage → Prop) (E : ScStop → Prop)
    (hQ : ∀ s', Holds env.thread L as s' → s'.segments = s.segments →
      s'.fileMemory = freeContent env s.cell a s.fileMemory → Q () s') :
    Wp (removeContentAddr env a (s.cell a)) Q E s := by
  unfold removeContentAddr
  unfold freeContent at hQ
  rw [wp_ite]
  constructor
  · intro he
    exact hQ s h rfl (by simp [he])
  · intro he
    have he' : scElementIsChecksumEmpty (s.cell a) = false := by simpa using he
    exact hQ _ (h.congr rfl rfl) rfl (by rw [if_pos ⟨hlink, he'⟩])

/-- What is left to be done for an element after it has been taken out of the lists. -/
theorem flagAndUnref_wp (h : Holds env.thread L as s) (hh : s.HolesOk) (hl : Loaded s x)
    (hne : x ≠ ScAddr.empty) (hlive : (s.cell x).type ≠ 0) (hpos : 1 ≤ s.refCount x)
    (hb : s.refCount x < 4294967295) (levels : ScAccessLevels) :
    Wp (do
        modifyCell x fun el => { el with type := el.type ||| scFlagRequestDeletion }
        let _ ← scStorageElementUnref env x
        emit (.emit x levels .removeElement ScAddr.empty ScAddr.empty)
        emit (.elementDeleted x))
      (fun _ s' => Holds env.thread L as s' ∧ s'.HolesOk ∧ (∀ y, Loaded s' y ↔ Loaded s y) ∧
        s'.fileMemory = s.fileMemory ∧
        s'.refCount = Function.update s.refCount x (s.refCount x-1) ∧
        (∀ y, y ≠ x → s'.cell y = s.cell y) ∧ ¬ Live s'.cell x ∧
        (s.refCount x = 1 → s'.cell x = ScElement.zero) ∧
        (s.refCount x ≠ 1 → (s'.cell x).type = (s.cell x).type ||| scFlagRequestDeletion))
      (fun _ => Blocked env.thread L) s := by
  rw [wp_bind]
  apply modifyCell_rule h hh ⟨hl, hh.not_hole hlive⟩
  intro s1 h1 w1
  have hcount : s1.refCount x = s.refCount x := by rw [w1.refCount]
  rw [wp_bind]
  apply wp_mono (elementUnref_wp h1 x)
  swap
  · intro _ hstop hall
    exact hstop ⟨hne, (w1.loaded x).mpr hl, hall _, by omega, by omega⟩
  intro r s2 ⟨_, _, hun, h2⟩
  simp only [wp_bind]
  apply emit_rule h2 (hun.holes w1.holes)
  intro s3 h3 w3
  apply emit_rule h3 w3.holes
  intro s4 h4 w4
  have w34 := w3.trans w4
  have hcell : s4.cell = s2.cell := by rw [w4.cell, w3.cell]
  refine ⟨h4, w4.holes, ?_, ?_, ?_, ?_, ?_, ?_, ?_⟩
  · intro y
    rw [w34.loaded, hun.loaded, w1.loaded]
  · rw [w34.fileMemory, hun.fileMemory, w1.fileMemory]
  · rw [w34.refCount, hun.refCount, w1.refCount]
  · intro y hy
    rw [hcell, hun.cell, w1.cell]
    split_ifs
    · rw [Function.update_of_ne hy, Function.update_of_ne hy]
    · rw [Function.update_of_ne hy]
  · -- the cell is zeroed, or it has the flag
    intro hx
    have hx' := (valid_iff_type _).mp hx
    rw [hcell, hun.cell, w1.cell] at hx'
    split_ifs at hx' with h1'
    · rw [Function.update_self] at hx'
      exact hx'.1 rfl
    · rw [Function.update_self] at hx'
      have hflag : ((s.cell x).type ||| scFlagRequestDeletion) &&& scFlagRequestDeletion ≠ 0 := by
        rw [BitVec.and_comm, BitVec.and_or_distrib_left]
        intro h0
        have hself : scFlagRequestDeletion &&& scFlagRequestDeletion = 0 :=
          (BitVec.or_eq_zero_iff.mp h0).2
        exact absurd hself (by decide)
      exact hflag hx'.2
  · intro hone
    rw [hcell, hun.cell, if_pos (hcount.trans hone), Function.update_self]
  · intro hone
    have hone' : ¬ s1.refCount x = 1 := by rwa [hcount]
    rw [hcell, hun.cell, if_neg hone', w1.cell, Function.update_self]

/-- The neighbours of the rest stay in the table when `x` is taken out. -/
theorem NeighboursIn.remove {c0 c c' : Cells} {R D : List ScAddr} (h : NeighboursIn lt c0 R D c)
    (hx : x ∈ R) (hxD : x ∉ D) (hxa : LiveArc c0 x) (h0 : ¬ Live c0 ScAddr.empty)
    (hother : ∀ y, y ≠ x → c' y = unlinkBoth x c y) : NeighboursIn lt c0 R (x :: D) c' := by
  intro y hy hyD hya d
  obtain ⟨hyx, hyD⟩ := not_or.mp (List.mem_cons.not.mp hyD)
  have hye : y ≠ ScAddr.empty := fun he => h0 (he ▸ hya.1)
  have hnext := unlinkBoth_next x c d y
  have hprev := unlinkBoth_prev x c d y
  unfold nextOf prevOf at hnext hprev ⊢
  rw [hother y hyx, hnext, hprev]
  constructor
  · split_ifs
    · exact (h x hx hxD hxa d).1
    · exact (h y hy hyD hya d).1
  · split_ifs
    · exact (h x hx hxD hxa d).2
    · exact (h y hy hyD hya d).2

theorem NeighboursIn.congr {c0 c c' : Cells} {R D : List ScAddr} (h : NeighboursIn lt c0 R D c)
    (hother : ∀ y, y ≠ x → c' y = c y) : NeighboursIn lt c0 R (x :: D) c' := by
  intro y hy hyD hya d
  obtain ⟨hyx, hyD⟩ := not_or.mp (List.mem_cons.not.mp hyD)
  unfold nextOf prevOf
  rw [hother y hyx]
  exact h y hy hyD hya d

open Classical in
/-- One element of `remove_table`. -/
theorem eraseElement_wp (hc : CellsOk st) (hseg : SegsInRange st) {R D : List ScAddr}
    (h : Holds env.thread L as s) (he : Erased env st D s) (hnb : NeighboursIn lt st.cell R D s.cell)
    (hx : x ∈ R) (hxD : x ∉ D) (hlive : Live st.cell x) :
    Wp (eraseElement env lt x)
      (fun _ s' => Holds env.thread L as s' ∧ Erased env st (x :: D) s' ∧
        NeighboursIn lt st.cell R (x :: D) s'.cell ∧
        ∀ y, y ≠ x → s'.cell y = if LiveArc st.cell x then unlinkBoth x s.cell y else s.cell y)
      (fun _ => Blocked env.thread L) s := by
  have hsame := he.cells.same x hxD
  have hloaded (y : ScAddr) (hy : Live st.cell y) : Loaded s y :=
    (he.loaded y).mpr (hc.loaded hseg (type_of_live hy))
  have hvalid : scElementIsValid (s.cell x) = true := by
    rw [hsame.valid]
    exact hlive
  have htype := (valid_iff_type _).mp hvalid
  have hne : x ≠ ScAddr.empty := fun hh => hc.arcs.notEmpty (hh ▸ hlive)
  have hcount : s.refCount x = st.refCount x := by rw [he.refCount, if_neg hxD]
  have hpos : 1 ≤ s.refCount x := by rw [hcount]; exact hc.referenced x hlive
  have hbound : s.refCount x < 4294967295 := by rw [hcount]; exact hc.bounded x
  -- the invariant from what the flag and the dropped reference do
  have hfinish {s1 s' : ScStorage} (hr : s1.refCount = s.refCount)
      (hr' : s'.refCount = Function.update s1.refCount x (s1.refCount x-1)) (z : ScAddr) :
      s'.refCount z = if z ∈ x :: D then st.refCount z-1 else st.refCount z := by
    rw [hr', hr]
    by_cases hz : z = x
    · subst hz
      rw [Function.update_self, hcount, if_pos List.mem_cons_self]
    · rw [Function.update_of_ne hz, he.refCount]
      simp only [List.mem_cons, hz, false_or]
  unfold eraseElement
  rw [wp_bind, wp_readCell, wp_ite]
  constructor
  · intro hreq
    simp only [scElementIsRequestDeletion, htype.2] at hreq
    exact absurd hreq (by decide)
  intro _
  rw [wp_bind]
  unfold detachElement
  rw [wp_ite]
  constructor
  · intro hlink
    have hlink0 : (st.cell x).isLink = true := by
      unfold ScElement.isLink at hlink ⊢
      rwa [hsame.type] at hlink
    have hnarc : ¬ LiveArc st.cell x := by
      intro hh
      rw [hc.oneClass x hh.2] at hlink0
      exact absurd hlink0 (by decide)
    apply removeContentAddr_wp h hlink
    intro s1 h1 hs1 hf1
    have heq := segmentsEq_of_eq hs1
    have hc1 := heq.cell
    have hr1 := heq.refCount
    have hl1 := heq.loaded
    have hh1 : s1.HolesOk := heq.holes.mpr he.holes
    apply wp_mono (flagAndUnref_wp h1 hh1 ((hl1 x).mpr (hloaded x hlive)) hne (by rw [hc1]; exact htype.1)
      (by rw [hr1]; exact hpos) (by rw [hr1]; exact hbound) _) _ (fun _ hb => hb)
    rintro _ s' ⟨h', hh', hl', hf', hr', ho', hd', hz', hg'⟩
    have ho (y : ScAddr) (hy : y ≠ x) : s'.cell y = s.cell y := (ho' y hy).trans (by rw [hc1])
    refine ⟨h', ⟨?_, hfinish hr1 hr', hh', ?_, ?_⟩, hnb.congr ho,
      fun y hy => by rw [if_neg hnarc]; exact ho y hy⟩
    · apply he.cells.removeOther hc.arcs hnarc hxD ho hd'
      · intro hone
        exact hz' (by rw [hr1, hcount]; exact hone)
      · intro hone
        rw [hg' (by rw [hr1, hcount]; exact hone), hc1]
    · intro y
      rw [hl', hl1, he.loaded]
    · rw [hf', hf1, freeContent_same hsame (fun _ => hnarc), he.fileMemory, List.foldr_cons]
  intro hlink
  have hnlink : ¬ (st.cell x).isLink = true := by
    unfold ScElement.isLink at hlink ⊢
    rwa [hsame.type] at hlink
  have hfm (fm : FileMemory) : freeContent env st.cell x fm = fm :=
    if_neg (fun hh => hnlink hh.1)
  rw [wp_ite]
  constructor
  · intro harc
    have hxa : LiveArc st.cell x := ⟨hlive, by rw [← hsame.isArc]; exact harc⟩
    -- what the two calls need of the neighbours and of the owners
    have hin (b : ScAddr) (d : Dir) (hb : b ∈ restList st.cell D d (ownerOf st.cell d x)) :
        Loaded s b :=
      hloaded b ((mem_restList hc.arcs (hc.arcs.endpoint x d hxa) b).mp hb).1.1
    have hnext (d : Dir) (hn : nextOf s.cell d x ≠ ScAddr.empty) :
        nextOf s.cell d x ∈ lt ∧ Loaded s (nextOf s.cell d x) :=
      ⟨(hnb x hx hxD hxa d).1.resolve_left hn,
        hin _ d ((he.cells.neighbour hc.arcs hxa hxD d).1.resolve_left hn)⟩
    have hprev (d : Dir) (hn : prevOf s.cell d x ≠ ScAddr.empty) :
        prevOf s.cell d x ∈ lt ∧ Loaded s (prevOf s.cell d x) :=
      ⟨(hnb x hx hxD hxa d).2.resolve_left hn,
        hin _ d ((he.cells.neighbour hc.arcs hxa hxD d).2.resolve_left hn)⟩
    have howner (d : Dir) : Loaded s (ownerOf s.cell d x) := by
      rw [hsame.owner d]
      exact hloaded _ (hc.arcs.endpoint x d hxa)
    rw [wp_bind]
    apply wp_mono (unlinkArc_wp h he.holes lt .out x (hnext .out) (hprev .out) (howner .out)) _
      (fun _ hb => hb)
    rintro _ s1 ⟨w1, h1⟩
    -- the first call leaves the fields of the other list as they are
    have hn1 : nextOf s1.cell .inp x = nextOf s.cell .inp x := by
      simp [nextOf, w1.cell, unlinkCells_arc, Dir.next, Dir.prev]
    have hp1 : prevOf s1.cell .inp x = prevOf s.cell .inp x := by
      simp [prevOf, w1.cell, unlinkCells_arc, Dir.next, Dir.prev]
    have ho1 : ownerOf s1.cell .inp x = ownerOf s.cell .inp x := by
      simp [ownerOf, w1.cell, unlinkCells_arc, Dir.next, Dir.prev, Dir.owner]
    apply wp_mono (unlinkArc_wp h1 w1.holes lt .inp x _ _ _) _ (fun _ hb => hb)
    · rw [hn1]
      intro hh
      exact ⟨(hnext .inp hh).1, (w1.loaded _).mpr (hnext .inp hh).2⟩
    · rw [hp1]
      intro hh
      exact ⟨(hprev .inp hh).1, (w1.loaded _).mpr (hprev .inp hh).2⟩
    · rw [ho1]
      exact (w1.loaded _).mpr (howner .inp)
    rintro _ s2 ⟨w2, h2⟩
    have w12 := w1.trans w2
    rw [w1.cell] at w12
    have hc2 : s2.cell = unlinkBoth x s.cell := w12.cell
    have ht2 : (s2.cell x).type ≠ 0 := by
      rw [hc2, unlinkBoth_type]
      exact htype.1
    apply wp_mono (flagAndUnref_wp h2 w2.holes ((w12.loaded x).mpr (hloaded x hlive)) hne ht2
      (by rw [w12.refCount]; exact hpos) (by rw [w12.refCount]; exact hbound) _) _ (fun _ hb => hb)
    rintro _ s' ⟨h', hh', hl', hf', hr', ho', hd', hz', hg'⟩
    have ho (y : ScAddr) (hy : y ≠ x) : s'.cell y = unlinkBoth x s.cell y :=
      (ho' y hy).trans (by rw [hc2])
    refine ⟨h', ⟨?_, hfinish w12.refCount hr', hh', ?_, ?_⟩,
      hnb.remove hx hxD hxa hc.arcs.notEmpty ho, fun y hy => by rw [if_pos hxa]; exact ho y hy⟩
    · apply he.cells.removeArc hc.arcs hxa hxD ho hd'
      · intro hone
        exact hz' (by rw [w12.refCount, hcount]; exact hone)
      · intro hone
        rw [hg' (by rw [w12.refCount, hcount]; exact hone), hc2, unlinkBoth_type]
    · intro y
      rw [hl', w12.loaded, he.loaded]
    · rw [hf', w12.fileMemory, he.fileMemory, List.foldr_cons, hfm]
  · intro harc
    have hnarc : ¬ LiveArc st.cell x := by
      intro hh
      exact harc (hsame.isArc.trans hh.2)
    rw [wp_pure]
    apply wp_mono (flagAndUnref_wp h he.holes (hloaded x hlive) hne htype.1 hpos hbound _) _
      (fun _ hb => hb)
    rintro _ s' ⟨h', hh', hl', hf', hr', ho', hd', hz', hg'⟩
    refine ⟨h', ⟨?_, hfinish rfl hr', hh', ?_, ?_⟩, hnb.congr ho',
      fun y hy => by rw [if_neg hnarc]; exact ho' y hy⟩
    · apply he.cells.removeOther hc.arcs hnarc hxD ho' hd'
      · intro hone
        exact hz' (by rw [hcount]; exact hone)
      · intro hone
        exact hg' (by rw [hcount]; exact hone)
    · intro y
      rw [hl', he.loaded]
    · rw [hf', he.fileMemory, List.foldr_cons, hfm]

theorem erased_start (env : ScEnv) (hc : CellsOk st) (hu : s.unlocked = st.unlocked) :
    Erased env st [] s := by
  refine ⟨?_, ?_, hc.holes.of_unlocked hu, loaded_of_unlocked hu, fileMemory_of_unlocked hu⟩
  · rw [cell_of_unlocked hu]
    exact erasing_start _ hc.arcs
  · intro z
    rw [refCount_of_unlocked hu]
    simp

/-- The loop over `remove_table`: what is left after it does not depend on how it is ordered. -/
theorem eraseElements_wp (hc : CellsOk st) (hseg : SegsInRange st) {R : List ScAddr}
    (l D : List ScAddr) (h : Holds env.thread L as s) (he : Erased env st D s)
    (hnb : NeighboursIn lt st.cell R D s.cell) (hR : ∀ x ∈ l, x ∈ R)
    (hlive : ∀ x ∈ l, Live st.cell x) (hnd : l.Nodup) (hD : ∀ x ∈ l, x ∉ D) :
    Wp (eraseElements env lt l)
      (fun _ s' => Holds env.thread L as s' ∧ Erased env st (l.reverse ++ D) s' ∧
        NeighboursIn lt st.cell R (l.reverse ++ D) s'.cell)
      (fun _ => Blocked env.thread L) s := by
  induction l generalizing s D with
  | nil => exact ⟨h, he, hnb⟩
  | cons x l ih =>
    unfold eraseElements
    rw [wp_bind]
    apply wp_mono (eraseElement_wp hc hseg h he hnb (hR x List.mem_cons_self)
      (hD x List.mem_cons_self) (hlive x List.mem_cons_self)) _ (fun _ hb => hb)
    intro _ s1 ⟨h1, he1, hnb1, _⟩
    obtain ⟨hxl, hnd⟩ := List.nodup_cons.mp hnd
    have hrec := ih (x :: D) h1 he1 hnb1 (fun y hy => hR y (List.mem_cons_of_mem _ hy))
      (fun y hy => hlive y (List.mem_cons_of_mem _ hy)) hnd ?_
    · simpa using hrec
    · intro y hy hyD
      rcases List.mem_cons.mp hyD with rfl | hyD
      · exact hxl hy
      · exact hD y (List.mem_cons_of_mem _ hy) hyD

theorem unlockElements_wp (l : List ScAddr) (h : Holds env.thread L (l ++ as) s)
    (E : ScStop → Prop) :
    Wp (unlockElements env l)
      (fun _ s' => s'.unlocked = s.unlocked ∧ Holds env.thread L as s') E s := by
  induction l generalizing s with
  | nil => exact ⟨rfl, h⟩
  | cons x l ih =>
    unfold unlockElements
    rw [wp_bind]
    apply unlock_rule h
    intro s1 hu1 h1
    apply wp_mono (ih h1) _ (fun _ hb => hb)
    rintro _ s2 ⟨hu2, h2⟩
    exact ⟨hu2.trans hu1, h2⟩

theorem Erased.of_unlocked {D : List ScAddr} (h : Erased env st D s)
    (hu : s'.unlocked = s.unlocked) : Erased env st D s' := by
  refine ⟨?_, ?_, h.holes.of_unlocked hu, ?_, ?_⟩
  · rw [cell_of_unlocked hu]
    exact h.cells
  · rw [refCount_of_unlocked hu]
    exact h.refCount
  · intro y
    rw [loaded_of_unlocked hu, h.loaded]
  · rw [fileMemory_of_unlocked hu, h.fileMemory]

/-- When a set that is closed under incident arcs has been removed, the store is in order. -/
theorem Erased.cellsOk {D : List ScAddr} (h : Erased env st D s) (hc : CellsOk st)
    (hlive : ∀ x ∈ D, Live st.cell x)
    (hclosed : ∀ x d, LiveArc st.cell x → ownerOf st.cell d x ∈ D → x ∈ D) : CellsOk s := by
  have htype (y : ScAddr) (hy : y ∉ D) : (s.cell y).type = (st.cell y).type :=
    (h.cells.same y hy).type
  refine ⟨h.holes, ?_, ?_, ?_, ?_, ?_, h.cells.arcsOk hc.arcs hclosed⟩
  · intro y hy
    by_cases hyD : y ∈ D
    · -- a removed cell with a reference left has the flag
      by_cases hone : st.refCount y = 1
      · exact h.cells.zero y hyD hone
      · have hflag := h.cells.flagged y hyD hone
        rw [hy] at hflag
        have h0 : scFlagRequestDeletion = 0 := (BitVec.or_eq_zero_iff.mp hflag.symm).2
        exact absurd h0 (by decide)
    · rw [htype y hyD] at hy
      have hdead : ¬ Live st.cell y := fun hh => type_of_live hh hy
      rw [(h.cells.same y hyD).cell hdead]
      exact hc.zero y hy
  · intro y hy
    by_cases hyD : y ∈ D
    · exact hc.inRange y (type_of_live (hlive y hyD))
    · rw [htype y hyD] at hy
      exact hc.inRange y hy
  · intro y hy
    by_cases hyD : y ∈ D
    · by_cases hone : st.refCount y = 1
      · rw [h.cells.zero y hyD hone] at hy
        exact absurd hy (by decide)
      · have hflag := h.cells.flagged y hyD hone
        unfold ScElement.isArc ScElement.isLink at *
        rw [hflag, or_and_of_disjoint _ _ _ (by decide)] at hy ⊢
        exact hc.oneClass y hy
    · unfold ScElement.isArc ScElement.isLink at *
      rw [htype y hyD] at hy ⊢
      exact hc.oneClass y hy
  · intro y hy
    have hyD : y ∉ D := fun hh => h.cells.dead y hh hy
    rw [h.refCount, if_neg hyD]
    exact hc.referenced y ((h.cells.same y hyD).live.mp hy)
  · intro y
    rw [h.refCount]
    split_ifs
    · have hb := hc.bounded y
      omega
    · exact hc.bounded y

end

end ScMachine.Store
