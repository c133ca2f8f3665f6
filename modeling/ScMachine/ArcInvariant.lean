import ScMachine.StoreInvariant

/-! The operations of a single thread keep the arc lists in order: creation of elements, contents,
types, access levels and references. -/
namespace ScMachine.Store
open ScMachine.StateExcept ScMachine.Runs ScMachine.DoublyLinked

section
variable {env : ScEnv} {L : SectionKey → LockWord} {as : List ScAddr} {st st' s s' : ScStorage}
  {a b : ScAddr}

/-! Rules for calls that return, with what they leave of the cells. -/

theorem lockTry_rule (h : Holds env.thread L as s) (a : ScAddr) (Q : Bool → ScStorage → Prop)
    (hfalse : ∀ s', s'.unlocked = s.unlocked → Holds env.thread L as s' → Q false s')
    (htrue : ∀ s', s'.unlocked = s.unlocked → Holds env.thread L (a :: as) s' → Q true s') :
    IfReturns (scStorageElementLockTry env a) Q s := by
  refine wp_mono (elementLockTry_wp h a) ?_ (fun _ _ => trivial)
  intro r s' ⟨hu, _, hh⟩
  cases r with
  | false => exact hfalse s' hu hh
  | true => exact htrue s' hu hh

theorem unlock_rule (h : Holds env.thread L (a :: as) s) (Q : Unit → ScStorage → Prop)
    (E : ScStop → Prop)
    (hQ : ∀ s', s'.unlocked = s.unlocked → Holds env.thread L as s' → Q () s') :
    Wp (scStorageElementUnlock env a) Q E s := by
  apply wp_mono (elementUnlock_wp h E) _ (fun _ he => he)
  intro _ s' ⟨hu, hh⟩
  exact hQ s' hu hh

/-- The cells become `c`, and nothing else changes but locks and events. -/
structure CellsSet (s : ScStorage) (c : Cells) (s' : ScStorage) : Prop where
  cell : s'.cell = c
  holes : s'.HolesOk
  isHole : ∀ y, s'.IsHole y ↔ s.IsHole y
  refCount : s'.refCount = s.refCount
  loaded : ∀ y, Loaded s' y ↔ Loaded s y
  fileMemory : s'.fileMemory = s.fileMemory

theorem CellsSet.trans {s1 s2 : ScStorage} {c1 c2 : Cells} (h : CellsSet s c1 s1)
    (h' : CellsSet s1 c2 s2) : CellsSet s c2 s2 :=
  ⟨h'.cell, h'.holes, fun y => (h'.isHole y).trans (h.isHole y), h'.refCount.trans h.refCount,
    fun y => (h'.loaded y).trans (h.loaded y), h'.fileMemory.trans h.fileMemory⟩

theorem CellsSet.of_segments (hs : s'.segments = s.segments) (hf : s'.fileMemory = s.fileMemory)
    (hh : s.HolesOk) : CellsSet s s.cell s' := by
  have he := segmentsEq_of_eq hs
  exact ⟨he.cell, he.holes.mpr hh, he.isHole, he.refCount, he.loaded, hf⟩

/-- A cell that an operation may write: it is there, and it is no hole. -/
def Writable (s : ScStorage) (b : ScAddr) : Prop := Loaded s b ∧ ¬ s.IsHole b

theorem CellsSet.writable {c : Cells} (h : CellsSet s c s') (hb : Writable s b) : Writable s' b :=
  ⟨(h.loaded b).mpr hb.1, fun hh => hb.2 ((h.isHole b).mp hh)⟩

theorem isHole_setCell (b : ScAddr) (el : ScElement) (y : ScAddr) :
    (s.setCell b el).IsHole y ↔ s.IsHole y := by
  unfold ScStorage.setCell
  cases hn : s.segments b.seg.toNat with
  | none => rfl
  | some seg =>
    unfold ScStorage.IsHole
    by_cases hy : y.seg.toNat = b.seg.toNat
    · simp [ScStorage.setSegment, hy, hn]
    · simp [ScStorage.setSegment, hy]

theorem loaded_setCell (b : ScAddr) (el : ScElement) (y : ScAddr) :
    Loaded (s.setCell b el) y ↔ Loaded s y := by
  have hnone := @segmentOf_setCell s b y el
  unfold Loaded
  constructor
  · rintro ⟨⟨seg, hs⟩, ho⟩
    refine ⟨?_, ho⟩
    cases h : s.segmentOf y with
    | none =>
      rw [hnone.mpr h] at hs
      simp at hs
    | some seg' => exact ⟨seg', rfl⟩
  · rintro ⟨⟨seg, hs⟩, ho⟩
    refine ⟨?_, ho⟩
    cases h : (s.setCell b el).segmentOf y with
    | none =>
      rw [hnone.mp h] at hs
      simp at hs
    | some seg' => exact ⟨seg', rfl⟩

theorem cellsSet_setCell (hs : SegsInRange s) (hh : s.HolesOk) (hb : Loaded s b) (el : ScElement)
    (hhole : el.type = 0 ∨ ¬ s.IsHole b) :
    CellsSet s (Function.update s.cell b el) (s.setCell b el) := by
  obtain ⟨⟨seg, hseg⟩, _⟩ := hb
  rw [hs.segmentOf] at hseg
  refine ⟨?_, hh.setCell el hhole, isHole_setCell b el, refCount_setCell b el,
    loaded_setCell b el, fileMemory_setCell b el⟩
  funext y
  rw [cell_setCell hseg, Function.update_apply]

theorem modifyCell_rule (h : Holds env.thread L as s) (hh : s.HolesOk) (hb : Writable s b)
    (f : ScElement → ScElement) (Q : Unit → ScStorage → Prop) (E : ScStop → Prop)
    (hQ : ∀ s', Holds env.thread L as s' →
      CellsSet s (Function.update s.cell b (f (s.cell b))) s' → Q () s') :
    Wp (modifyCell b f) Q E s := by
  rw [wp_modifyCell]
  exact hQ _ (h.setCell b _) (cellsSet_setCell h.segs hh hb.1 _ (Or.inr hb.2))

/-- Also a hole may be written as long as it stays free. -/
theorem modifyCell_sameType_rule (h : Holds env.thread L as s) (hh : s.HolesOk) (hb : Loaded s b)
    (f : ScElement → ScElement) (hf : (f (s.cell b)).type = (s.cell b).type)
    (Q : Unit → ScStorage → Prop) (E : ScStop → Prop)
    (hQ : ∀ s', Holds env.thread L as s' →
      CellsSet s (Function.update s.cell b (f (s.cell b))) s' → Q () s') :
    Wp (modifyCell b f) Q E s := by
  have hhole : (f (s.cell b)).type = 0 ∨ ¬ s.IsHole b := by
    rw [hf]
    by_cases h0 : (s.cell b).type = 0
    · exact Or.inl h0
    · exact Or.inr (hh.not_hole h0)
  rw [wp_modifyCell]
  exact hQ _ (h.setCell b _) (cellsSet_setCell h.segs hh hb _ hhole)

theorem emit_rule (h : Holds env.thread L as s) (hh : s.HolesOk) (call : ScEventCall)
    (Q : Unit → ScStorage → Prop) (E : ScStop → Prop)
    (hQ : ∀ s', Holds env.thread L as s' → CellsSet s s.cell s' → Q () s') :
    Wp (emit call) Q E s := by
  unfold emit
  rw [wp_modify]
  exact hQ _ (h.congr rfl rfl) (CellsSet.of_segments rfl rfl hh)

theorem unlessEmpty_rule (h : Holds env.thread L as s) (hh : s.HolesOk)
    (hb : b ≠ ScAddr.empty → Writable s b) (f : ArcField) (t : ScAddr)
    (Q : Unit → ScStorage → Prop) (E : ScStop → Prop)
    (hQ : ∀ s', Holds env.thread L as s' → CellsSet s (relinkCell b f t s.cell) s' → Q () s') :
    Wp (unlessEmpty b (modifyCell b fun el => el.setArc f t)) Q E s := by
  unfold unlessEmpty
  rw [wp_ite]
  unfold relinkCell at hQ
  refine ⟨?_, ?_⟩
  · intro he
    rw [wp_pure]
    rw [if_pos he] at hQ
    exact hQ s h (CellsSet.of_segments rfl rfl hh)
  · intro he
    rw [if_neg he] at hQ
    exact modifyCell_rule h hh (hb he) _ Q E hQ

theorem Appended.bounded (happ : Appended st a s) (h : ∀ y, st.refCount y < 4294967295)
    (hr : s'.refCount = s.refCount) (y : ScAddr) : s'.refCount y < 4294967295 := by
  rw [hr, happ.refCount]
  by_cases hya : y = a
  · rw [hya, Function.update_self]
    norm_num
  · rw [Function.update_of_ne hya]
    exact h y

/-- A new element that is no arc and has none. -/
theorem CellsOk.addElement (h : CellsOk st) {s1 : ScStorage} (happ : Appended st a s1)
    (hl : Loaded s1 a) {el : ScElement} (hw : CellsSet s1 (Function.update s1.cell a el) s)
    (htype : el.type ≠ 0) (harc : el.isArc = false) (hfirst : ∀ d, el.first d = ScAddr.empty) :
    CellsOk s := by
  have hc : s.cell = Function.update st.cell a el := by rw [hw.cell, happ.cell]
  have hca : s.cell a = el := by rw [hc, Function.update_self]
  have hco (y : ScAddr) (hy : y ≠ a) : s.cell y = st.cell y := by rw [hc, Function.update_of_ne hy]
  have hdead : ¬ Live st.cell a := fun hh => type_of_live hh happ.free
  refine ⟨hw.holes, ?_, ?_, ?_, ?_, ?_, ?_⟩
  · intro y hy
    by_cases hya : y = a
    · rw [hya, hca] at hy
      exact absurd hy htype
    · rw [hco y hya] at hy ⊢
      exact h.zero y hy
  · intro y hy
    by_cases hya : y = a
    · rw [hya]
      exact hl.2
    · rw [hco y hya] at hy
      exact h.inRange y hy
  · intro y hy
    by_cases hya : y = a
    · rw [hya, hca, harc] at hy
      simp at hy
    · rw [hco y hya] at hy ⊢
      exact h.oneClass y hy
  · intro y hy
    rw [hw.refCount, happ.refCount]
    by_cases hya : y = a
    · rw [hya, Function.update_self]
    · rw [Function.update_of_ne hya]
      refine h.referenced y ?_
      unfold Live at hy ⊢
      rwa [hco y hya] at hy
  · exact happ.bounded h.bounded hw.refCount
  · refine h.arcs.addElement hdead happ.notEmpty hco ?_ ?_
    · rw [hca]
      exact harc
    · intro d
      rw [hca]
      exact hfirst d

theorem isHole_of_unlocked (hu : st'.unlocked = st.unlocked) (y : ScAddr) :
    st'.IsHole y ↔ st.IsHole y := by
  unfold ScStorage.IsHole
  rcases segments_of_unlocked hu y.seg.toNat with ⟨h1, h2⟩ | ⟨seg, seg', h1, h2, hseg⟩
  · rw [h1, h2]
  · have hoff := (segment_eq_of_unlocked hseg).2.2.2
    rw [h1, h2]
    simp only [Option.some.injEq, exists_eq_left', hoff]

theorem CellsSet.of_unlocked (hu : s'.unlocked = s.unlocked) (hh : s.HolesOk) :
    CellsSet s s.cell s' :=
  ⟨cell_of_unlocked hu, hh.of_unlocked hu, isHole_of_unlocked hu, refCount_of_unlocked hu,
    loaded_of_unlocked hu, fileMemory_of_unlocked hu⟩

/-- Locks taken and given back after the cells have been set. -/
theorem CellsSet.unlocked {c : Cells} {s1 : ScStorage} (h : CellsSet s c s1)
    (hu : s'.unlocked = s1.unlocked) : CellsSet s c s' := by
  have h' := h.trans (CellsSet.of_unlocked hu h.holes)
  rwa [h.cell] at h'

theorem Appended.of_unlocked (h : Appended s a s') (hu : s.unlocked = st.unlocked) :
    Appended st a s' := by
  have hc := cell_of_unlocked hu
  refine ⟨h.cell.trans hc, ?_, h.notEmpty, ?_, h.holes, h.notHole,
    h.fileMemory.trans (fileMemory_of_unlocked hu)⟩
  · rw [← hc]
    exact h.free
  · rw [h.refCount, refCount_of_unlocked hu]

/-- The cell `a` is taken into use; afterwards the cells are `c`. -/
structure Created (st : ScStorage) (a : ScAddr) (c : Cells) (st' : ScStorage) : Prop where
  via : ∃ s, Appended st a s ∧ Loaded s a ∧ CellsSet s c st'

/-- A call that creates an element returns no address and leaves everything as it was if no more
segments may be loaded, and else creates it. -/
theorem newElement_made (h : Holds env.thread L as st) (hc : CellsOk st) (ctx : ScContext)
    (init : ScElement → ScElement) :
    IfReturns (newElement env ctx init) (fun r st' =>
      (env.maxLoadedSegments ≤ st.segmentsNum ∧ st' = st ∧ r = ScAddr.empty) ∨
        (st.segmentsNum < env.maxLoadedSegments ∧
          Created st r (Function.update st.cell r (init ScElement.zero)) st')) st := by
  unfold newElement
  rw [IfReturns, wp_bind]
  apply wp_mono (wp_and (appendEl_room ctx st) (wp_and (appendEl_holds h ctx)
    (appendEl_cells h hc.holes hc.zero ctx))) _ (fun _ _ => trivial)
  rintro r s1 ⟨hroom, h1, hnone, hsome⟩
  cases r with
  | none =>
    rw [wp_pure, hnone rfl]
    rcases hroom with ⟨_, hfull⟩ | ⟨⟨a, ha⟩, _⟩
    · exact Or.inl ⟨hfull, rfl, rfl⟩
    · cases ha
  | some a =>
    have hlt : st.segmentsNum < env.maxLoadedSegments := by
      rcases hroom with ⟨hno, _⟩ | ⟨_, hlt⟩
      · cases hno
      · exact hlt
    have happ := hsome a rfl
    have hcell : s1.cell a = ScElement.zero := by
      rw [happ.cell]
      exact hc.zero a happ.free
    have hl := h1.loaded a List.mem_cons_self
    simp only [wp_bind]
    apply modifyCell_rule h1 happ.holes ⟨hl, happ.notHole⟩
    intro s2 h2 hw
    rw [hcell, happ.cell] at hw
    apply unlock_rule h2
    intro s3 hu _
    exact Or.inr ⟨hlt, s1, happ, hl, hw.unlocked hu⟩

/-- A call that creates an element either returns no address and leaves everything but locks as it
was or creates it. -/
theorem newElement_returns (h : Holds env.thread L as st) (hc : CellsOk st) (ctx : ScContext)
    (init : ScElement → ScElement) :
    IfReturns (newElement env ctx init) (fun r st' =>
      (st'.unlocked = st.unlocked ∧ r = ScAddr.empty) ∨
        Created st r (Function.update st.cell r (init ScElement.zero)) st') st := by
  apply wp_mono (newElement_made h hc ctx init) _ (fun _ _ => trivial)
  rintro r st' (⟨_, rfl, hr⟩ | ⟨_, hcr⟩)
  · exact Or.inl ⟨rfl, hr⟩
  · exact Or.inr hcr

theorem newElement_created (h : Holds env.thread L as st) (hc : CellsOk st) (ctx : ScContext)
    (init : ScElement → ScElement) :
    IfReturns (newElement env ctx init) (fun r st' => st'.unlocked = st.unlocked ∨
      Created st r (Function.update st.cell r (init ScElement.zero)) st') st := by
  apply wp_mono (newElement_returns h hc ctx init) _ (fun _ _ => trivial)
  rintro r st' (⟨hu, _⟩ | hcr)
  · exact Or.inl hu
  · exact Or.inr hcr

/-- The type that a new arc gets. -/
def arcTypeOf (type : ScType) : ScType :=
  scFlagsRemove (if type &&& scTypeArcMask != 0 then type else scTypeArcCommon ||| type)

/-- The new arc before it is linked. -/
def newArcCell (type : ScType) (beg end_ firstOut firstIn : ScAddr) (levels : ScAccessLevels)
    (el : ScElement) : ScElement :=
  (({ (el.setArc .arcBegin beg).setArc .arcEnd end_ with
      type := arcTypeOf type
      accessLevels := levels } : ScElement).setArc .nextOutArc firstOut).setArc .nextInArc firstIn

theorem newArcCell_arc (type : ScType) (beg end_ firstOut firstIn : ScAddr)
    (levels : ScAccessLevels) (el : ScElement) (f : ArcField) :
    (newArcCell type beg end_ firstOut firstIn levels el).arc f =
      match f with
      | .arcBegin => beg
      | .arcEnd => end_
      | .nextOutArc => firstOut
      | .nextInArc => firstIn
      | .prevOutArc => el.arc .prevOutArc
      | .prevInArc => el.arc .prevInArc := by
  cases f <;> simp [newArcCell, ScElement.arc, ScElement.setArc, readAddr_writeAddr, ArcField.word]

theorem zero_arc (f : ArcField) : ScElement.zero.arc f = ScAddr.empty := by
  cases f <;> decide

/-- The arc `a` becomes the first one of its begin and of its end. -/
def setHeads (beg end_ a : ScAddr) (c : Cells) : Cells :=
  let c' := Function.update c beg { c beg with firstOutArc := a }
  Function.update c' end_ { c' end_ with firstInArc := a }

/-- The effect of `linkArc` on the element array. -/
def linkCells (type : ScType) (beg end_ : ScAddr) (levels : ScAccessLevels)
    (firstOut firstIn a : ScAddr) (c : Cells) : Cells :=
  setHeads beg end_ a (relinkCell firstIn .prevInArc a (relinkCell firstOut .prevOutArc a
    (Function.update c a (newArcCell type beg end_ firstOut firstIn levels (c a)))))

theorem setHeads_eq (beg end_ a : ScAddr) (c : Cells) (y : ScAddr) :
    setHeads beg end_ a c y = { c y with
      firstOutArc := if y = beg then a else (c y).firstOutArc
      firstInArc := if y = end_ then a else (c y).firstInArc } := by
  unfold setHeads
  by_cases h1 : y = end_
  · subst h1
    by_cases h2 : y = beg
    · subst h2
      simp
    · simp [h2]
  · by_cases h2 : y = beg
    · subst h2
      simp [h1]
    · simp [h1, h2]

theorem relinkCell_type (b : ScAddr) (f : ArcField) (t : ScAddr) (c : Cells) (y : ScAddr) :
    (relinkCell b f t c y).type = (c y).type := by
  rw [relinkCell_eq]
  split_ifs
  · rfl
  · rfl

theorem relinkCell_first (b : ScAddr) (f : ArcField) (t : ScAddr) (c : Cells) (y : ScAddr) (d : Dir) :
    (relinkCell b f t c y).first d = (c y).first d := by
  rw [relinkCell_eq]
  split_ifs
  · exact first_setArc _ _ _ _
  · rfl

/-- The assertions hold when the new arc is none of the other elements and these are in use. -/
theorem linkArc_wp (h : Holds env.thread L as s) (hh : s.HolesOk) (type : ScType)
    (beg end_ : ScAddr) (levels : ScAccessLevels) (begEl endEl : ScElement) (ha : Writable s a)
    (hbeg : Writable s beg) (hend : Writable s end_)
    (hout : begEl.firstOutArc ≠ ScAddr.empty → Writable s begEl.firstOutArc)
    (hinp : endEl.firstInArc ≠ ScAddr.empty → Writable s endEl.firstInArc)
    (Q : Unit → ScStorage → Prop) (E : ScStop → Prop)
    (hE : E .abort ∨ (a ≠ begEl.firstOutArc ∧ a ≠ endEl.firstInArc ∧
      (a ≠ beg ∧ (s.cell beg).type ≠ 0) ∧ a ≠ end_ ∧ (s.cell end_).type ≠ 0))
    (hQ : ∀ s', Holds env.thread L as s' → a ≠ begEl.firstOutArc → a ≠ endEl.firstInArc →
      CellsSet s (linkCells type beg end_ levels begEl.firstOutArc endEl.firstInArc a s.cell) s' →
      Q () s') :
    Wp (linkArc type beg end_ levels begEl endEl a) Q E s := by
  unfold linkArc
  simp only [wp_bind]
  refine modifyCell_rule h hh ha _ _ _ ?_
  intro s1 h1 w1
  rw [wp_scAssert]
  refine ⟨fun _ => ?_, fun hno => hE.resolve_right fun hlive => ?_⟩
  swap
  · exact hlive.2.1 (by simpa using hno)
  refine emit_rule h1 w1.holes _ _ _ ?_
  intro s2 h2 w2
  refine emit_rule h2 w2.holes _ _ _ ?_
  intro s3 h3 w3
  have hc3 : s3.cell = s1.cell := w3.cell.trans w2.cell
  simp only [wp_readCell]
  rw [wp_scAssert]
  refine ⟨fun _ => ?_, fun hno => hE.resolve_right fun hlive => ?_⟩
  swap
  · obtain ⟨_, _, ⟨hab, htb⟩, hae, hte⟩ := hlive
    rw [hc3, w1.cell, Function.update_of_ne (Ne.symm hab), Function.update_of_ne (Ne.symm hae)] at hno
    simp only [Bool.and_eq_false_iff, bne_eq_false_iff_eq] at hno
    exact hno.elim htb hte
  have w123 := (w1.trans w2).trans w3
  refine modifyCell_rule h3 w3.holes (w123.writable ha) _ _ _ ?_
  intro s4 h4 w4
  rw [wp_scAssert]
  refine ⟨fun hne => ?_, fun hno => hE.resolve_right fun hlive => ?_⟩
  swap
  · simp only [Bool.and_eq_false_iff, bne_eq_false_iff_eq] at hno
    exact hno.elim hlive.1 hlive.2.1
  simp only [Bool.and_eq_true, bne_iff_ne, ne_eq] at hne
  have w1234 := w123.trans w4
  refine unlessEmpty_rule h4 w4.holes (fun he => w1234.writable (hout he)) _ _ _ _ ?_
  intro s5 h5 w5
  have w15 := w1234.trans w5
  refine unlessEmpty_rule h5 w5.holes (fun he => w15.writable (hinp he)) _ _ _ _ ?_
  intro s6 h6 w6
  have w16 := w15.trans w6
  refine modifyCell_rule h6 w6.holes (w16.writable hbeg) _ _ _ ?_
  intro s7 h7 w7
  have w17 := w16.trans w7
  refine modifyCell_rule h7 w7.holes (w17.writable hend) _ _ _ ?_
  intro s8 h8 w8
  refine hQ s8 h8 hne.1 hne.2 ?_
  have hc4 : s4.cell = Function.update s.cell a (newArcCell type beg end_ begEl.firstOutArc
      endEl.firstInArc levels (s.cell a)) := by
    rw [w4.cell, hc3, w1.cell, Function.update_idem, Function.update_self]
    rfl
  have hw := w17.trans w8
  rw [w7.cell, w6.cell, w5.cell, hc4] at hw
  exact hw

/-- The arc is added to the two lists. -/
theorem linkCells_added {c : Cells} (type : ScType) (beg end_ : ScAddr) (levels : ScAccessLevels)
    (hzero : c a = ScElement.zero) (hba : a ≠ beg) (hea : a ≠ end_) (hae : a ≠ ScAddr.empty)
    (hout : a ≠ (c beg).firstOutArc) (hinp : a ≠ (c end_).firstInArc)
    (harc : LiveArc (fun _ => newArcCell type beg end_ (c beg).firstOutArc (c end_).firstInArc levels
      ScElement.zero) a) :
    ArcAdded c (linkCells type beg end_ levels (c beg).firstOutArc (c end_).firstInArc a c) a
      (fun d => match d with | .out => beg | .inp => end_) := by
  set fo := (c beg).firstOutArc
  set fi := (c end_).firstInArc
  set c2 : Cells := Function.update c a (newArcCell type beg end_ fo fi levels (c a)) with hc2
  have hc2a : c2 a = newArcCell type beg end_ fo fi levels ScElement.zero := by
    rw [hc2, Function.update_self, hzero]
  have hc2o (y : ScAddr) (hy : y ≠ a) : c2 y = c y := Function.update_of_ne hy _ _
  have hcell (y : ScAddr) := setHeads_eq beg end_ a
    (relinkCell fi .prevInArc a (relinkCell fo .prevOutArc a c2)) y
  have htype (y : ScAddr) : (linkCells type beg end_ levels fo fi a c y).type = (c2 y).type := by
    unfold linkCells
    rw [hcell]
    simp only [relinkCell_type]
  have hfield (y : ScAddr) (f : ArcField) : (linkCells type beg end_ levels fo fi a c y).arc f =
      if f = .prevInArc ∧ y = fi ∧ y ≠ ScAddr.empty then a
      else if f = .prevOutArc ∧ y = fo ∧ y ≠ ScAddr.empty then a else (c2 y).arc f := by
    unfold linkCells
    rw [hcell, ← relinkCell_arc fo .prevOutArc a c2 y f, ← relinkCell_arc fi .prevInArc a _ y f]
    rfl
  refine ⟨?_, ?_, ?_, ?_, ?_, ?_⟩
  · intro y hy
    rw [htype, hc2o y hy]
  · unfold LiveArc Live scElementIsValid scElementIsRequestDeletion ScElement.isArc at harc ⊢
    rw [htype, hc2a]
    exact harc
  · intro d y
    unfold ownerOf
    rw [hfield]
    by_cases hy : y = a
    · subst hy
      rw [hc2a, newArcCell_arc]
      cases d <;> simp [Dir.owner]
    · rw [hc2o y hy]
      cases d <;> simp [Dir.owner, hy]
  · intro d y
    unfold nextOf
    rw [hfield]
    by_cases hy : y = a
    · subst hy
      rw [hc2a, newArcCell_arc]
      cases d <;> simp [Dir.next, ScElement.first, fo, fi]
    · rw [hc2o y hy]
      cases d <;> simp [Dir.next, hy]
  · intro d y hye
    unfold prevOf
    rw [hfield]
    by_cases hy : y = a
    · subst hy
      rw [hc2a, newArcCell_arc]
      cases d with
      | out => simp [Dir.prev, hout, zero_arc]
      | inp => simp [Dir.prev, hinp, zero_arc]
    · rw [hc2o y hy]
      cases d with
      | out =>
        simp [Dir.prev, hy, hye, ScElement.first, fo]
        congr
      | inp =>
        simp [Dir.prev, hy, hye, ScElement.first, fi]
        congr
  · intro d y
    have hf2 (d : Dir) : (c2 y).first d = (c y).first d := by
      by_cases hy : y = a
      · subst hy
        rw [hc2a, hzero]
        cases d <;> rfl
      · rw [hc2o y hy]
    have hf4 (d : Dir) : (relinkCell fi .prevInArc a (relinkCell fo .prevOutArc a c2) y).first d =
        (c y).first d := by
      rw [relinkCell_first, relinkCell_first, hf2]
    unfold linkCells
    rw [hcell, ← hf4]
    cases d <;> rfl

/-- The first arc of a live element is a live arc. -/
theorem ArcsOk.first_live {c : Cells} (h : ArcsOk c) (ha : Live c a) (d : Dir)
    (hne : (c a).first d ≠ ScAddr.empty) : LiveArc c ((c a).first d) := by
  obtain ⟨l, hl⟩ := h.chain a d ha
  have hf := hl.first
  cases l with
  | nil => exact absurd hf hne
  | cons x xs =>
    rw [hf, List.headD_cons]
    exact ((hl.mem x).mp List.mem_cons_self).1

/-- What is not live is no first arc. -/
theorem ArcsOk.ne_first {c : Cells} (h : ArcsOk c) (ha : ¬ Live c a) (hne : a ≠ ScAddr.empty)
    (hb : Live c b) (d : Dir) : a ≠ (c b).first d := by
  intro he
  have hlive := h.first_live hb d (fun h0 => hne (he.trans h0))
  exact ha (he ▸ hlive.1)

theorem flagsRemove_and (t mask : ScType)
    (hm : ~~~(scFlagRequestDeletion ||| scFlagLinkSelfContainer) &&& mask = mask) :
    scFlagsRemove t &&& mask = t &&& mask := by
  unfold scFlagsRemove
  rw [BitVec.and_assoc, hm]

theorem flagsRemove_request (t : ScType) : scFlagsRemove t &&& scFlagRequestDeletion = 0 := by
  have hflag : ~~~(scFlagRequestDeletion ||| scFlagLinkSelfContainer) &&& scFlagRequestDeletion = 0 := by
    decide
  unfold scFlagsRemove
  rw [BitVec.and_assoc, hflag]
  exact BitVec.and_zero

theorem arcTypeOf_arc (type : ScType) : arcTypeOf type &&& scTypeArcMask ≠ 0 := by
  unfold arcTypeOf
  rw [flagsRemove_and _ _ (by decide)]
  split_ifs with h
  · simpa using h
  · have h0 : type &&& scTypeArcMask = 0 := by simpa using h
    rw [BitVec.and_or_distrib_right, h0]
    decide

theorem arcTypeOf_link (type : ScType) (h : type &&& scTypeLink = 0) :
    arcTypeOf type &&& scTypeLink = 0 := by
  unfold arcTypeOf
  rw [flagsRemove_and _ _ (by decide)]
  split_ifs
  · exact h
  · rw [BitVec.and_or_distrib_right, h]
    decide

theorem or_and_of_disjoint (t flag mask : ScType) (hm : flag &&& mask = 0) :
    (t ||| flag) &&& mask = t &&& mask := by
  rw [BitVec.and_or_distrib_right, hm]
  exact BitVec.or_zero

/-- A word with one of the bits of a mask is not zero. -/
theorem type_ne_zero_of_and {t mask : ScType} (h : t &&& mask ≠ 0) : t ≠ 0 := by
  intro h0
  rw [h0] at h
  exact h BitVec.zero_and

theorem valid_of_type {el : ScElement} (h : el.type ≠ 0)
    (hflag : el.type &&& scFlagRequestDeletion = 0) : scElementIsValid el = true :=
  (valid_iff_type el).mpr ⟨h, hflag⟩

theorem newArcCell_live (type : ScType) (beg end_ fo fi : ScAddr) (levels : ScAccessLevels)
    (el : ScElement) : LiveArc (fun _ => newArcCell type beg end_ fo fi levels el) a := by
  have harc := arcTypeOf_arc type
  refine ⟨valid_of_type (type_ne_zero_of_and harc) ?_, ?_⟩
  · exact flagsRemove_request _
  · exact bne_iff_ne.mpr harc

/-- Only the new arc, its endpoints and its neighbours change. -/
theorem linkCells_other {c : Cells} (type : ScType) (beg end_ : ScAddr) (levels : ScAccessLevels)
    (fo fi y : ScAddr) (hya : y ≠ a) (hb : y ≠ beg) (he : y ≠ end_)
    (ho : fo ≠ ScAddr.empty → y ≠ fo) (hi : fi ≠ ScAddr.empty → y ≠ fi) :
    linkCells type beg end_ levels fo fi a c y = c y := by
  unfold linkCells
  rw [setHeads_eq, if_neg hb, if_neg he, relinkCell_eq, if_neg (fun hh => hi hh.2 hh.1),
    relinkCell_eq, if_neg (fun hh => ho hh.2 hh.1), Function.update_of_ne hya]

theorem CellsOk.addArc (h : CellsOk st) {s1 : ScStorage} (happ : Appended st a s1)
    (hl : Loaded s1 a) {type : ScType} (hlink : type &&& scTypeLink = 0) {beg end_ : ScAddr}
    (levels : ScAccessLevels) (hbeg : Live st.cell beg) (hend : Live st.cell end_)
    (hw : CellsSet s1 (linkCells type beg end_ levels (st.cell beg).firstOutArc
      (st.cell end_).firstInArc a s1.cell) s) : CellsOk s := by
  have hc : s.cell = linkCells type beg end_ levels (st.cell beg).firstOutArc
      (st.cell end_).firstInArc a st.cell := by rw [hw.cell, happ.cell]
  have hdead : ¬ Live st.cell a := fun hh => type_of_live hh happ.free
  have hzero : st.cell a = ScElement.zero := h.zero a happ.free
  -- the first arcs of the endpoints are live, so none of them is the free cell
  have hfo (he : (st.cell beg).firstOutArc ≠ ScAddr.empty) :
      Live st.cell (st.cell beg).firstOutArc := (h.arcs.first_live hbeg .out he).1
  have hfi (he : (st.cell end_).firstInArc ≠ ScAddr.empty) :
      Live st.cell (st.cell end_).firstInArc := (h.arcs.first_live hend .inp he).1
  have hout : a ≠ (st.cell beg).firstOutArc := h.arcs.ne_first hdead happ.notEmpty hbeg .out
  have hinp : a ≠ (st.cell end_).firstInArc := h.arcs.ne_first hdead happ.notEmpty hend .inp
  have hadd := linkCells_added type beg end_ levels hzero (fun he => hdead (he ▸ hbeg))
    (fun he => hdead (he ▸ hend)) happ.notEmpty hout hinp (newArcCell_live _ _ _ _ _ _ _)
  rw [← hc] at hadd
  have htype (y : ScAddr) (hy : y ≠ a) : (s.cell y).type = (st.cell y).type := hadd.type y hy
  have htypea : (s.cell a).type = arcTypeOf type := by
    rw [hc]
    unfold linkCells
    rw [setHeads_eq]
    simp only [relinkCell_type, Function.update_self]
    rfl
  refine ⟨hw.holes, ?_, ?_, ?_, ?_, ?_, ?_⟩
  · intro y hy
    have hya : y ≠ a := by
      rintro rfl
      exact type_of_live hadd.arc.1 hy
    rw [htype y hya] at hy
    have hne (z : ScAddr) (hz : Live st.cell z) : y ≠ z := by
      rintro rfl
      exact type_of_live hz hy
    rw [hc, linkCells_other type beg end_ levels _ _ y hya (hne _ hbeg) (hne _ hend)
      (fun he => hne _ (hfo he)) (fun he => hne _ (hfi he))]
    exact h.zero y hy
  · intro y hy
    by_cases hya : y = a
    · rw [hya]
      exact hl.2
    · rw [htype y hya] at hy
      exact h.inRange y hy
  · intro y hy
    unfold ScElement.isArc ScElement.isLink at *
    by_cases hya : y = a
    · rw [hya, htypea, arcTypeOf_link type hlink]
      rfl
    · rw [htype y hya] at hy ⊢
      exact h.oneClass y hy
  · intro y hy
    rw [hw.refCount, happ.refCount]
    by_cases hya : y = a
    · rw [hya, Function.update_self]
    · rw [Function.update_of_ne hya]
      apply h.referenced y
      unfold Live scElementIsValid scElementIsRequestDeletion at hy ⊢
      rwa [htype y hya] at hy
  · exact happ.bounded h.bounded hw.refCount
  · apply h.arcs.addArc hdead happ.notEmpty _ hadd _
    · intro d
      cases d with
      | out => exact hbeg
      | inp => exact hend
    · intro d
      rw [hzero]
      cases d <;> rfl

theorem lockFirst_rule (h : Holds env.thread L as s) (a : ScAddr)
    (Q : Option Unit → ScStorage → Prop)
    (hnone : ∀ s', s'.unlocked = s.unlocked → Holds env.thread L as s' → Q none s')
    (hsome : ∀ s', s'.unlocked = s.unlocked → Holds env.thread L (firstArcLock a ++ as) s' →
      Q (some ()) s') : IfReturns (lockFirstArc env a) Q s := by
  unfold lockFirstArc
  rw [IfReturns, wp_ite]
  constructor
  · intro ha
    exact hsome s rfl (by simpa [firstArcLock, ha] using h)
  · intro ha
    rw [wp_bind]
    apply lockTry_rule h
    · intro s1 hu h1
      exact hnone s1 hu h1
    · intro s1 hu h1
      exact hsome s1 hu (by simpa [firstArcLock, ha] using h1)

theorem unlockFirst_rule (h : Holds env.thread L (firstArcLock a ++ as) s)
    (Q : Unit → ScStorage → Prop) (E : ScStop → Prop)
    (hQ : ∀ s', s'.unlocked = s.unlocked → Holds env.thread L as s' → Q () s') :
    Wp (unlockFirstArc env a) Q E s := by
  unfold unlockFirstArc unlessEmpty
  rw [wp_ite]
  constructor
  · intro ha
    exact hQ s rfl (by simpa [firstArcLock, ha] using h)
  · intro ha
    exact unlock_rule (by simpa [firstArcLock, ha] using h) Q E hQ

/-- Both endpoints are given back. -/
theorem unlockEnds_returns {beg end_ : ScAddr} {α : Type} (r : α)
    (h : Holds env.thread L (beg :: end_ :: as) s) :
    IfReturns (do
        scStorageElementUnlock env beg
        scStorageElementUnlock env end_
        return r : StoreM α) (fun v s' => s'.unlocked = s.unlocked ∧ v = r) s := by
  simp only [IfReturns, wp_bind]
  apply unlock_rule h
  intro s1 hu1 h1
  apply unlock_rule h1
  intro s2 hu2 _
  exact ⟨hu2.trans hu1, rfl⟩

/-- The arc `a` is created between the live elements `beg` and `end_`. -/
structure ArcCreated (st : ScStorage) (type : ScType) (beg end_ : ScAddr)
    (levels : ScAccessLevels) (a : ScAddr) (st' : ScStorage) : Prop where
  beginLive : Live st.cell beg
  endLive : Live st.cell end_
  created : Created st a (linkCells type beg end_ levels (st.cell beg).firstOutArc
    (st.cell end_).firstInArc a st.cell) st'

theorem arcNewAttempt_created (h : Holds env.thread L as st) (hc : CellsOk st) (ctx : ScContext)
    (type : ScType) (beg end_ : ScAddr) (levels : ScAccessLevels) :
    IfReturns (arcNewAttempt env ctx type beg end_ levels)
      (fun r st' => (st'.unlocked = st.unlocked ∧ (r = none ∨ r = some ScAddr.empty)) ∨
        ∃ a, r = some a ∧ ArcCreated st type beg end_ levels a st') st := by
  unfold arcNewAttempt
  rw [IfReturns, wp_bind]
  apply lockTry_rule h
  · intro s1 hu1 _
    exact Or.inl ⟨hu1, Or.inl rfl⟩
  intro s1 hu1 h1
  simp only [Bool.not_true, Bool.false_eq_true, if_false]
  rw [wp_bind, wp_readCell, wp_ite]
  constructor
  · intro _
    rw [wp_bind]
    apply unlock_rule h1
    intro s2 hu2 _
    exact Or.inl ⟨hu2.trans hu1, Or.inr rfl⟩
  intro hvb
  rw [wp_bind]
  apply lockTry_rule h1
  · intro s2 hu2 h2
    simp only [Bool.not_false, if_true]
    rw [wp_bind]
    apply unlock_rule h2
    intro s3 hu3 _
    exact Or.inl ⟨hu3.trans (hu2.trans hu1), Or.inl rfl⟩
  intro s2 hu2 h2
  have hu20 := hu2.trans hu1
  have h2' : Holds env.thread L (beg :: end_ :: as) s2 := h2.perm (List.Perm.swap _ _ _)
  -- the exits that give back both endpoints
  have hexit (r : Option ScAddr) (hr : r = none ∨ r = some ScAddr.empty) (s' : ScStorage)
      (hu : s'.unlocked = st.unlocked) (h' : Holds env.thread L (beg :: end_ :: as) s') :
      IfReturns (do
          scStorageElementUnlock env beg
          scStorageElementUnlock env end_
          return r : StoreM (Option ScAddr))
        (fun r st' => (st'.unlocked = st.unlocked ∧ (r = none ∨ r = some ScAddr.empty)) ∨
          ∃ a, r = some a ∧ ArcCreated st type beg end_ levels a st') s' := by
    apply wp_mono (unlockEnds_returns r h') _ (fun _ _ => trivial)
    rintro _ s'' ⟨hu', rfl⟩
    exact Or.inl ⟨hu'.trans hu, hr⟩
  simp only [Bool.not_true, Bool.false_eq_true, if_false]
  rw [wp_bind, wp_readCell, wp_ite]
  constructor
  · intro _
    exact hexit _ (Or.inr rfl) s2 hu20 h2'
  intro hve
  rw [wp_bind]
  apply lockFirst_rule h2'
  · intro s3 hu3 h3
    exact hexit _ (Or.inl rfl) s3 (hu3.trans hu20) h3
  intro s3 hu3 h3
  simp only
  rw [wp_bind]
  apply lockFirst_rule h3
  · intro s4 hu4 h4
    simp only
    rw [wp_bind]
    apply unlockFirst_rule h4
    intro s5 hu5 h5
    exact hexit _ (Or.inl rfl) s5 (hu5.trans (hu4.trans (hu3.trans hu20))) h5
  intro s4 hu4 h4
  have hu40 := hu4.trans (hu3.trans hu20)
  have hc4 := hc.of_unlocked hu40
  have hcell1 : s1.cell = st.cell := cell_of_unlocked hu1
  have hcell2 : s2.cell = st.cell := cell_of_unlocked hu20
  rw [hcell1] at h3 h4 hvb ⊢
  rw [hcell2] at h4 hve ⊢
  have hlb : Live st.cell beg := by simpa [Live] using hvb
  have hle : Live st.cell end_ := by simpa [Live] using hve
  simp only
  rw [wp_bind]
  apply wp_mono (wp_and (appendEl_holds h4 ctx) (appendEl_cells h4 hc4.holes hc4.zero ctx)) _
    (fun _ _ => trivial)
  rintro r s5 ⟨h5, _, hsome⟩
  cases r with
  | none => trivial
  | some a =>
    have happ := (hsome a rfl).of_unlocked hu40
    -- every cell that is written is locked and is no hole
    have hwr (b : ScAddr) (hb : Live st.cell b)
        (hmem : b ∈ (some a).toList ++ (firstArcLock (st.cell end_).firstInArc ++
          (firstArcLock (st.cell beg).firstOutArc ++ beg :: end_ :: as))) : Writable s5 b := by
      refine ⟨h5.loaded b hmem, happ.holes.not_hole ?_⟩
      rw [happ.cell]
      exact type_of_live hb
    simp only [wp_bind]
    apply linkArc_wp h5 happ.holes type beg end_ levels (st.cell beg) (st.cell end_)
    · exact ⟨h5.loaded a (by simp), happ.notHole⟩
    · exact hwr beg hlb (by simp)
    · exact hwr end_ hle (by simp)
    · intro hne
      exact hwr _ (hc.arcs.first_live hlb .out hne).1 (by simp [firstArcLock, hne])
    · intro hne
      exact hwr _ (hc.arcs.first_live hle .inp hne).1 (by simp [firstArcLock, hne])
    · exact Or.inl trivial
    intro s6 h6 _ _ hw
    have h6' : Holds env.thread L (firstArcLock (st.cell beg).firstOutArc ++ (beg ::
        (firstArcLock (st.cell end_).firstInArc ++ (end_ :: a :: as)))) s6 := by
      apply h6.perm (List.perm_iff_count.mpr fun x => ?_)
      simp only [List.count_append, List.count_cons, Option.toList_some, List.count_nil]
      omega
    apply unlockFirst_rule h6'
    intro s7 hu7 h7
    apply unlock_rule h7
    intro s8 hu8 h8
    apply unlockFirst_rule h8
    intro s9 hu9 h9
    apply unlock_rule h9
    intro s10 hu10 h10
    apply unlock_rule h10
    intro s11 hu11 _
    have hu : s11.unlocked = s6.unlocked :=
      hu11.trans (hu10.trans (hu9.trans (hu8.trans hu7)))
    have hset := hw.unlocked hu
    rw [happ.cell] at hset
    exact Or.inr ⟨a, rfl, hlb, hle, s5, happ, h5.loaded a (by simp), hset⟩

theorem arcNew_returns (h : Holds env.thread L as st) (hc : CellsOk st) (ctx : ScContext)
    (type : ScType) (beg end_ : ScAddr) :
    IfReturns (scStorageArcNew env ctx type beg end_) (fun r st' =>
      (st'.unlocked = st.unlocked ∧ r = ScAddr.empty) ∨
        ArcCreated st type beg end_ ctx.accessLevels r st') st := by
  unfold scStorageArcNew scStorageArcNewExt
  rw [IfReturns, wp_bind, wp_scAssert]
  refine ⟨fun _ => ?_, fun _ => trivial⟩
  rw [wp_ite]
  refine ⟨fun _ => Or.inl ⟨rfl, rfl⟩, fun _ => ?_⟩
  rw [wp_bind]
  apply wp_mono (arcNewAttempt_created h hc ctx type beg end_ ctx.accessLevels) _ (fun _ _ => trivial)
  intro r s1 hr
  cases r with
  | none => trivial
  | some a =>
    rcases hr with ⟨hu, hna | hea⟩ | ⟨b, hb, hcr⟩
    · exact absurd hna (Option.some_ne_none a)
    · exact Or.inl ⟨hu, Option.some.inj hea⟩
    · obtain rfl := Option.some.inj hb
      exact Or.inr hcr

theorem arcNew_created (h : Holds env.thread L as st) (hc : CellsOk st) (ctx : ScContext)
    (type : ScType) (beg end_ : ScAddr) :
    IfReturns (scStorageArcNew env ctx type beg end_) (fun r st' => st'.unlocked = st.unlocked ∨
      ArcCreated st type beg end_ ctx.accessLevels r st') st := by
  apply wp_mono (arcNew_returns h hc ctx type beg end_) _ (fun _ _ => trivial)
  rintro r st' (⟨hu, _⟩ | hcr)
  · exact Or.inl hu
  · exact Or.inr hcr

theorem ArcCreated.cells {type : ScType} {beg end_ : ScAddr} {levels : ScAccessLevels}
    (h : ArcCreated st type beg end_ levels a st') (hc : CellsOk st)
    (hlink : type &&& scTypeLink = 0) : CellsOk st' := by
  obtain ⟨s1, happ, hl, hw⟩ := h.created
  rw [← happ.cell] at hw
  have hcell := happ.cell
  refine hc.addArc happ hl hlink levels h.beginLive h.endLive ?_
  rw [← hcell]
  exact hw

end

end ScMachine.Store
