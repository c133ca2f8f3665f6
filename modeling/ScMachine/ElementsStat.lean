import ScMachine.ArcRanks
import ScMachine.StoreGraph

/-! The statistics of the store: every cell of every segment is counted, section by section. -/
namespace ScMachine.Store
open ScMachine.StateExcept ScMachine.Runs ScMachine.GraphMemory

/-- `sc_stat`. The counters have 32 bits, which is enough for the cells of all segments. -/
structure ScStat where
  nodeCount : ℕ
  arcCount : ℕ
  linkCount : ℕ
  emptyCount : ℕ
  segmentsCount : ℕ

/-- The body of the inner loop. -/
def countCell (type : ScType) (stat : ScStat) : ScStat :=
  if type &&& scTypeNode != 0 then { stat with nodeCount := stat.nodeCount+1 }
  else if type &&& scTypeLink != 0 then { stat with linkCount := stat.linkCount+1 }
  else if type &&& scTypeArcMask != 0 then { stat with arcCount := stat.arcCount+1 }
  else if type = 0 then { stat with emptyCount := stat.emptyCount+1 }
  else stat

/-- `while (j < SC_SEGMENT_ELEMENTS_COUNT)`: the cells of a section from `j` on. -/
def countSection (elements : ℕ → ScElement) : ℕ → ℕ → ScStat → ScStat
  | 0, _, stat => stat
  | fuel + 1, j, stat =>
    if j < scSegmentElementsCount then
      countSection elements fuel (j+scConcurrencyLevel) (countCell (elements j).type stat)
    else stat

/-- The loop over the sections with `n` of them left. -/
def collectSections (thread : ℕ) : ℕ → ScSegment → ScStat → Except ScStop (ScSegment × ScStat)
  | 0, seg, stat => .ok (seg, stat)
  | n + 1, seg, stat => do
    let i := scConcurrencyLevel-(n+1)
    let locked ← scSegmentSectionLock thread (seg.sections i)
    let counted := countSection seg.elements scSegmentElementsCount i stat
    let unlocked ← scSegmentSectionUnlock thread locked
    collectSections thread n { seg with sections := Function.update seg.sections i unlocked } counted

def scSegmentCollectElementsStat (thread : ℕ) (seg : ScSegment) (stat : ScStat) :
    Except ScStop (ScSegment × ScStat) :=
  collectSections thread scConcurrencyLevel seg stat

/-- The loop over the segments with `n` of them left. -/
def collectSegments (env : ScEnv) : ℕ → ScStat → StoreM ScStat
  | 0, stat => pure stat
  | n + 1, stat => fun st =>
    match st.segments (st.segmentsNum-(n+1)) with
    | none => .error .abort
    | some seg => do
      let r ← scSegmentCollectElementsStat env.thread seg stat
      collectSegments env n r.2 (st.setSegment (st.segmentsNum-(n+1)) r.1)

def scStorageGetElementsStat (env : ScEnv) : StoreM ScStat := do
  let n := (← get).segmentsNum
  collectSegments env n ⟨0, 0, 0, 0, n⟩

inductive CellClass where
  | node | link | arc | empty
  deriving DecidableEq

def classOf (type : ScType) : Option CellClass :=
  if type &&& scTypeNode != 0 then some .node
  else if type &&& scTypeLink != 0 then some .link
  else if type &&& scTypeArcMask != 0 then some .arc
  else if type = 0 then some .empty
  else none

def ScStat.count (stat : ScStat) : CellClass → ℕ
  | .node => stat.nodeCount
  | .link => stat.linkCount
  | .arc => stat.arcCount
  | .empty => stat.emptyCount

section
variable {k : CellClass} {elements : ℕ → ScElement}

theorem countCell_count (type : ScType) (stat : ScStat) :
    (countCell type stat).count k = stat.count k+if classOf type = some k then 1 else 0 := by
  unfold countCell classOf
  split_ifs <;> cases k <;> simp_all [ScStat.count]

theorem countCell_segments (type : ScType) (stat : ScStat) :
    (countCell type stat).segmentsCount = stat.segmentsCount := by
  unfold countCell
  split_ifs <;> rfl

/-- The cells of one section from `j` on that have the class. -/
def sectionFrom (elements : ℕ → ScElement) (k : CellClass) (j : ℕ) : Finset ℕ :=
  (Finset.range 65535).filter fun o =>
    (j ≤ o ∧ o%32 = j%32) ∧ classOf (elements o).type = some k

theorem sectionFrom_card (j : ℕ) (hj : j < 65535) :
    (sectionFrom elements k j).card =
      (sectionFrom elements k (j+32)).card+
        if classOf (elements j).type = some k then 1 else 0 := by
  have hnot : j ∉ sectionFrom elements k (j+32) := by
    simp [sectionFrom]
  split_ifs with hk
  · have hins : sectionFrom elements k j = insert j (sectionFrom elements k (j+32)) := by
      ext o
      simp only [sectionFrom, Finset.mem_filter, Finset.mem_range, Finset.mem_insert]
      constructor
      · rintro ⟨ho, ⟨hle, hmod⟩, hc⟩
        by_cases he : o = j
        · exact Or.inl he
        · exact Or.inr ⟨ho, ⟨by omega, by omega⟩, hc⟩
      · rintro (rfl | ⟨ho, ⟨hle, hmod⟩, hc⟩)
        · exact ⟨hj, ⟨le_refl _, rfl⟩, hk⟩
        · exact ⟨ho, ⟨by omega, by omega⟩, hc⟩
    rw [hins, Finset.card_insert_of_notMem hnot]
  · have hsame : sectionFrom elements k j = sectionFrom elements k (j+32) := by
      ext o
      simp only [sectionFrom, Finset.mem_filter, Finset.mem_range]
      constructor
      · rintro ⟨ho, ⟨hle, hmod⟩, hc⟩
        have hne : o ≠ j := by
          rintro rfl
          exact hk hc
        exact ⟨ho, ⟨by omega, by omega⟩, hc⟩
      · rintro ⟨ho, ⟨hle, hmod⟩, hc⟩
        exact ⟨ho, ⟨by omega, by omega⟩, hc⟩
    rw [hsame]
    omega

theorem countSection_count (fuel j : ℕ) (stat : ScStat) (hfuel : 65535 ≤ j+32*fuel) :
    (countSection elements fuel j stat).count k =
      stat.count k+(sectionFrom elements k j).card := by
  have hend (j : ℕ) (hj : 65535 ≤ j) : (sectionFrom elements k j).card = 0 := by
    rw [Finset.card_eq_zero, sectionFrom, Finset.filter_eq_empty_iff]
    intro o ho
    rw [Finset.mem_range] at ho
    omega
  induction fuel generalizing j stat with
  | zero =>
    rw [hend j (by omega), Nat.add_zero]
    rfl
  | succ fuel ih =>
    unfold countSection
    split_ifs with hj
    · rw [ih _ _ (by show 65535 ≤ j+32+32*fuel; omega), countCell_count, sectionFrom_card j hj]
      show _+(sectionFrom elements k (j+32)).card = _
      omega
    · rw [hend j (by simpa using hj), Nat.add_zero]

theorem countSection_segments (fuel j : ℕ) (stat : ScStat) :
    (countSection elements fuel j stat).segmentsCount = stat.segmentsCount := by
  induction fuel generalizing j stat with
  | zero => rfl
  | succ fuel ih =>
    unfold countSection
    split_ifs
    · rw [ih, countCell_segments]
    · rfl

/-- The cells of the sections from `i` on that have the class. -/
def sectionsFrom (elements : ℕ → ScElement) (k : CellClass) (i : ℕ) : Finset ℕ :=
  (Finset.range 65535).filter fun o => i ≤ o%32 ∧ classOf (elements o).type = some k

theorem sectionsFrom_card (i : ℕ) (hi : i < 32) :
    (sectionsFrom elements k i).card =
      (sectionFrom elements k i).card+(sectionsFrom elements k (i+1)).card := by
  have hdisj : Disjoint (sectionFrom elements k i) (sectionsFrom elements k (i+1)) := by
    rw [Finset.disjoint_left]
    intro o ho ho'
    simp only [sectionFrom, sectionsFrom, Finset.mem_filter] at ho ho'
    omega
  rw [← Finset.card_union_of_disjoint hdisj]
  apply congrArg Finset.card
  ext o
  simp only [sectionFrom, sectionsFrom, Finset.mem_filter, Finset.mem_range, Finset.mem_union]
  constructor
  · rintro ⟨ho, hle, hc⟩
    by_cases he : o%32 = i
    · exact Or.inl ⟨ho, ⟨by omega, by omega⟩, hc⟩
    · exact Or.inr ⟨ho, by omega, hc⟩
  · rintro (⟨ho, ⟨_, hmod⟩, hc⟩ | ⟨ho, hle, hc⟩)
    · exact ⟨ho, by omega, hc⟩
    · exact ⟨ho, by omega, hc⟩

/-- A section that the thread may lock is as before after the lock and the unlock. -/
theorem section_lock_unlock {thread : ℕ} {s : ScSegmentSection}
    (h : Lockable thread (s.threadLock, s.lockCount)) :
    ∃ locked, scSegmentSectionLock thread s = .ok locked ∧
      scSegmentSectionUnlock thread locked = .ok s := by
  obtain ⟨threadLock, emptyCount, emptyOffset, lockCount⟩ := s
  rcases h with h | ⟨rfl, hpos⟩
  · simp only [Prod.mk.injEq] at h
    obtain ⟨rfl, rfl⟩ := h
    refine ⟨_, rfl, ?_⟩
    simp [scSegmentSectionUnlock]
  · have hne : lockCount ≠ 0 := by
      simp only at hpos
      omega
    refine ⟨⟨threadLock, emptyCount, emptyOffset, lockCount+1⟩, ?_, ?_⟩
    · simp [scSegmentSectionLock]
    · simp [scSegmentSectionUnlock, hne]

theorem collectSections_count {thread : ℕ} {seg : ScSegment}
    (hlock : ∀ i < 32, Lockable thread (seg.lockWord i)) (n : ℕ) (hn : n ≤ 32) (stat : ScStat) :
    ∃ stat', collectSections thread n seg stat = .ok (seg, stat') ∧
      stat'.segmentsCount = stat.segmentsCount ∧
      ∀ k, stat'.count k = stat.count k+(sectionsFrom seg.elements k (32-n)).card := by
  induction n generalizing stat with
  | zero =>
    refine ⟨stat, rfl, rfl, fun k => ?_⟩
    have hnone : sectionsFrom seg.elements k (32-0) = ∅ := by
      rw [sectionsFrom, Finset.filter_eq_empty_iff]
      intro o _
      omega
    rw [hnone, Finset.card_empty, Nat.add_zero]
  | succ n ih =>
    obtain ⟨locked, hl, hu⟩ := section_lock_unlock (hlock (32-(n+1)) (by omega))
    obtain ⟨stat', hrun, hsegs, hcount⟩ := ih (by omega)
      (countSection seg.elements scSegmentElementsCount (32-(n+1)) stat)
    have hsections : Function.update seg.sections (32-(n+1)) (seg.sections (32-(n+1))) =
        seg.sections := Function.update_eq_self _ _
    have hsame : { seg with
        sections := Function.update seg.sections (32-(n+1)) (seg.sections (32-(n+1))) } = seg := by
      rw [hsections]
    refine ⟨stat', ?_, ?_, fun k => ?_⟩
    · unfold collectSections
      show (scSegmentSectionLock thread (seg.sections (32-(n+1))) >>= _) = _
      rw [hl, ok_bind]
      show (scSegmentSectionUnlock thread locked >>= _) = _
      rw [hu, ok_bind]
      refine Eq.trans ?_ hrun
      exact congrArg (fun s => collectSections thread n s _) hsame
    · rw [hsegs, countSection_segments]
    · have hnext : 32-(n+1)+1 = 32-n := by omega
      have hcard := @sectionsFrom_card k seg.elements (32-(n+1)) (by omega)
      rw [hcount, countSection_count _ _ _ (by show 65535 ≤ 32-(n+1)+32*65535; omega)]
      rw [hnext] at hcard
      omega

/-- The cells of the segments from `i` on that have the class. -/
def segmentsFrom (st : ScStorage) (k : CellClass) (i : ℕ) : ℕ :=
  ∑ m ∈ (Finset.range st.segmentsNum).filter (fun m => i ≤ m),
    match st.segments m with
    | some seg => (sectionsFrom seg.elements k 0).card
    | none => 0

theorem segmentsFrom_succ {st : ScStorage} {seg : ScSegment} (i : ℕ) (hi : i < st.segmentsNum)
    (hs : st.segments i = some seg) :
    segmentsFrom st k i = (sectionsFrom seg.elements k 0).card+segmentsFrom st k (i+1) := by
  have hins : (Finset.range st.segmentsNum).filter (fun m => i ≤ m) =
      insert i ((Finset.range st.segmentsNum).filter fun m => i+1 ≤ m) := by
    ext m
    simp only [Finset.mem_filter, Finset.mem_range, Finset.mem_insert]
    omega
  unfold segmentsFrom
  rw [hins, Finset.sum_insert (by simp), hs]

theorem setSegment_self {st : ScStorage} {n : ℕ} {seg : ScSegment} (h : st.segments n = some seg) :
    st.setSegment n seg = st := by
  unfold ScStorage.setSegment
  rw [← h, Function.update_eq_self]

theorem collectSegments_count {env : ScEnv} {st : ScStorage}
    (hfill : SegmentsFilled st) (hown : ∀ key, Lockable env.thread (st.locks key)) (n : ℕ)
    (hn : n ≤ st.segmentsNum) (stat : ScStat) :
    ∃ stat', collectSegments env n stat st = .ok (stat', st) ∧
      stat'.segmentsCount = stat.segmentsCount ∧
      ∀ k, stat'.count k = stat.count k+segmentsFrom st k (st.segmentsNum-n) := by
  induction n generalizing stat with
  | zero =>
    refine ⟨stat, rfl, rfl, fun k => ?_⟩
    have hnone : (Finset.range st.segmentsNum).filter (fun m => st.segmentsNum-0 ≤ m) = ∅ := by
      rw [Finset.filter_eq_empty_iff]
      intro m hm
      rw [Finset.mem_range] at hm
      omega
    unfold segmentsFrom
    rw [hnone, Finset.sum_empty, Nat.add_zero]
  | succ n ih =>
    obtain ⟨seg, hs⟩ := Option.ne_none_iff_exists'.mp
      ((hfill (st.segmentsNum-(n+1))).mpr (by omega))
    have hlock (i : ℕ) (_ : i < 32) : Lockable env.thread (seg.lockWord i) := by
      rw [← locks_of_segment hs]
      exact hown _
    obtain ⟨stat1, hrun1, hsegs1, hcount1⟩ := collectSections_count hlock 32 (le_refl _) stat
    obtain ⟨stat', hrun, hsegs, hcount⟩ := ih (by omega) stat1
    refine ⟨stat', ?_, hsegs.trans hsegs1, fun k => ?_⟩
    · unfold collectSegments
      simp only [hs]
      show (collectSections env.thread 32 seg stat >>= _) = _
      rw [hrun1, ok_bind, setSegment_self hs, hrun]
    · have hnext : st.segmentsNum-(n+1)+1 = st.segmentsNum-n := by omega
      have hsucc := @segmentsFrom_succ k st seg (st.segmentsNum-(n+1)) (by omega) hs
      rw [hnext] at hsucc
      rw [hcount, hcount1]
      have hzero : 32-32 = 0 := rfl
      rw [hzero]
      omega

end

/-! The counts as numbers of addresses. -/

def cellAddr (p : ℕ × ℕ) : ScAddr := ⟨BitVec.ofNat 16 p.1, BitVec.ofNat 16 p.2⟩

def ofClass (st : ScStorage) (k : CellClass) : Set ScAddr :=
  {a | Loaded st a ∧ classOf (st.cell a).type = some k}

/-- Every occupied cell has the class of a node, a link or an arc. -/
def Classed (c : Cells) : Prop := ∀ a, (c a).type ≠ 0 → (c a).type &&& scTypeElementMask ≠ 0

section
variable {env : ScEnv} {st st' : ScStorage} {k : CellClass}

theorem loaded_iff (hfill : SegmentsFilled st) (hsegs : SegsInRange st) (a : ScAddr) :
    Loaded st a ↔ a.seg.toNat < st.segmentsNum ∧ a.offset.toNat < 65535 := by
  unfold Loaded
  rw [hsegs.segmentOf, ← hfill, ← Option.ne_none_iff_exists']

/-- The cells of the store, by segment and offset. -/
def cellPairs (st : ScStorage) (k : CellClass) : Finset (ℕ × ℕ) :=
  (Finset.range st.segmentsNum ×ˢ Finset.range 65535).filter fun p =>
    classOf (st.cell (cellAddr p)).type = some k

theorem cellAddr_toNat {p : ℕ × ℕ} (h1 : p.1 < 65536) (h2 : p.2 < 65536) :
    (cellAddr p).seg.toNat = p.1 ∧ (cellAddr p).offset.toNat = p.2 := by
  unfold cellAddr
  simp only [BitVec.toNat_ofNat]
  omega

theorem cellAddr_self (a : ScAddr) : cellAddr (a.seg.toNat, a.offset.toNat) = a := by
  unfold cellAddr
  simp only [BitVec.ofNat_toNat, BitVec.setWidth_eq]

theorem segmentsFrom_card (hfill : SegmentsFilled st) (hsegs : SegsInRange st) :
    segmentsFrom st k 0 = (cellPairs st k).card := by
  have hbound := hsegs.bound
  have hall : (Finset.range st.segmentsNum).filter (fun m => 0 ≤ m) = Finset.range st.segmentsNum := by
    rw [Finset.filter_eq_self]
    intro m _
    exact Nat.zero_le m
  unfold segmentsFrom cellPairs
  rw [hall, Finset.card_filter, Finset.sum_product]
  apply Finset.sum_congr rfl
  intro m hm
  rw [Finset.mem_range] at hm
  obtain ⟨seg, hs⟩ := Option.ne_none_iff_exists'.mp ((hfill m).mpr hm)
  rw [hs, ← Finset.card_filter]
  apply congrArg Finset.card
  apply Finset.filter_congr
  intro o ho
  rw [Finset.mem_range] at ho
  have haddr := @cellAddr_toNat (m, o) (by simp only; omega) (by simp only; omega)
  have hcell : st.cell (cellAddr (m, o)) = seg.elements o := by
    unfold ScStorage.cell
    rw [haddr.1, haddr.2, hs]
  rw [hcell]
  simp only [Nat.zero_le, true_and]

theorem cellPairs_card (hfill : SegmentsFilled st) (hsegs : SegsInRange st) :
    (cellPairs st k).card = (ofClass st k).ncard := by
  have hbound := hsegs.bound
  have hinj : Set.InjOn cellAddr (cellPairs st k) := by
    intro p hp q hq he
    simp only [cellPairs, Finset.coe_filter, Finset.mem_product, Finset.mem_range,
      Set.mem_ofPred_eq] at hp hq
    have hp' := @cellAddr_toNat p (by omega) (by omega)
    have hq' := @cellAddr_toNat q (by omega) (by omega)
    rw [he] at hp'
    exact Prod.ext (hp'.1.symm.trans hq'.1) (hp'.2.symm.trans hq'.2)
  have himage : ofClass st k = cellAddr '' (cellPairs st k : Set (ℕ × ℕ)) := by
    ext a
    simp only [ofClass, cellPairs, Set.mem_ofPred_eq, Set.mem_image, Finset.coe_filter,
      Finset.mem_product, Finset.mem_range, loaded_iff hfill hsegs]
    constructor
    · rintro ⟨hl, hc⟩
      refine ⟨(a.seg.toNat, a.offset.toNat), ⟨hl, ?_⟩, cellAddr_self a⟩
      rw [cellAddr_self]
      exact hc
    · rintro ⟨p, ⟨hp, hc⟩, rfl⟩
      have haddr := @cellAddr_toNat p (by omega) (by omega)
      rw [haddr.1, haddr.2]
      exact ⟨hp, hc⟩
  rw [himage, hinj.ncard_image, Set.ncard_coe_finset]

theorem and_ne_zero_of_sub {t mask sub : ScType} (hsub : mask &&& sub = sub) (h : t &&& sub ≠ 0) :
    t &&& mask ≠ 0 := by
  intro h0
  apply h
  rw [← hsub, ← BitVec.and_assoc, h0]
  exact BitVec.zero_and

theorem classOf_some {type : ScType} (h : type ≠ 0 → type &&& scTypeElementMask ≠ 0) :
    classOf type ≠ none := by
  unfold classOf
  split_ifs with hn hl ha h0
  · simp
  · simp
  · simp
  · simp
  · exfalso
    apply h h0
    have hmask : scTypeElementMask = scTypeNode ||| scTypeLink ||| scTypeArcMask := by decide
    have hn' : type &&& scTypeNode = 0 := by simpa using hn
    have hl' : type &&& scTypeLink = 0 := by simpa using hl
    have ha' : type &&& scTypeArcMask = 0 := by simpa using ha
    rw [hmask, BitVec.and_or_distrib_left, BitVec.and_or_distrib_left, hn', hl', ha']
    decide

theorem Classed.of_type {c c' : Cells} (h : Classed c) {x : ScAddr} (hx : (c' x).type = (c x).type)
    (h0 : (c' x).type ≠ 0) : (c' x).type &&& scTypeElementMask ≠ 0 := by
  rw [hx] at h0 ⊢
  exact h x h0

/-- Of one cell that is written the class is to be shown. -/
theorem Classed.update {c c' : Cells} (h : Classed c) {a : ScAddr} {el : ScElement}
    (hc : c' = Function.update c a el) (hel : el.type &&& scTypeElementMask ≠ 0) : Classed c' := by
  subst hc
  intro x h0
  by_cases hx : x = a
  · subst hx
    rw [Function.update_self]
    exact hel
  · exact h.of_type (by rw [Function.update_of_ne hx]) h0

theorem nodeCell_classed (ctx : ScContext) (type : ScType) :
    (nodeCell ctx type).type &&& scTypeElementMask ≠ 0 := by
  apply @and_ne_zero_of_sub _ _ scTypeNode (by decide)
  show scFlagsRemove (scTypeNode ||| type) &&& scTypeNode ≠ 0
  rw [flagsRemove_and _ _ (by decide), BitVec.and_or_distrib_right]
  intro h0
  exact absurd (BitVec.or_eq_zero_iff.mp h0).1 (by decide)

theorem Effect.classed {action : StoreAction} (heff : Effect env st action st') (hc : CellsOk st)
    (h : Classed st.cell) : Classed st'.cell := by
  have hsame {c' : Cells} (hcell : c' = st.cell) : Classed c' := by
    rw [hcell]
    exact h
  cases heff with
  | same _ _ hu => exact hsame (cell_of_unlocked hu)
  | nodeNew ctx type a _ _ hcr => exact h.update hcr.refCount.2.2.2 (nodeCell_classed ctx type)
  | linkNew ctx isConst a _ hcr =>
    apply h.update hcr.refCount.2.2.2
    have htype (b : Bool) : (scTypeLink ||| (if b then scTypeConst else scTypeVar)) &&&
        scTypeElementMask ≠ 0 := by
      cases b <;> decide
    exact htype isConst
  | arcNew ctx type beg end_ a _ hcr =>
    intro x h0
    by_cases hx : x = a
    · subst hx
      have harc := (hcr.isArc hc).2
      exact and_ne_zero_of_sub (by decide) (bne_iff_ne.mp harc)
    · exact h.of_type (hcr.same hc x hx).type h0
  | freed ctx order a _ hl _ he =>
    intro x h0
    by_cases hx : x ∈ erasedList order st.cell a
    · by_cases honce : st.refCount x = 1
      · rw [he.cells.zero x hx honce] at h0
        exact absurd rfl h0
      · -- the flag is put besides the bits of the class
        have hlive := ((mem_erasedList hc.arcs hl order x).mp hx).live hl
        rw [he.cells.flagged x hx honce, or_and_of_disjoint _ _ _ (by decide)]
        exact h x (type_of_live hlive)
    · exact h.of_type (he.cells.same x hx).type h0
  | contentSet ctx a stream _ hl _ hup =>
    apply h.update hup.cell
    rw [contentCell_type _ _ _ _ (by decide) (by decide)]
    exact h a (type_of_live hl)
  | levelsSet ctx a levels _ ha hup => exact h.update hup.cell (h a ha)
  | subtypeChanged ctx a type _ hl hm hup =>
    apply h.update hup.cell
    show type &&& scTypeElementMask ≠ 0
    rw [← hm]
    exact h a (type_of_live hl)
  | refTaken a _ _ hset => exact hsame hset.cell
  | refDropped a _ hun =>
    intro x h0
    by_cases hone : x = a ∧ st.refCount a = 1
    · rw [hun.cell, if_pos hone.2, hone.1, Function.update_self] at h0
      exact absurd rfl h0
    · apply h.of_type _ h0
      rw [hun.cell_other x (fun he h1 => hone ⟨he, h1⟩)]

theorem ownRun_classed {thread : ℕ} (evs : List StoreEvent) (st : ScStorage)
    (hr : Run (OwnStep thread) ScStorage.empty evs st) : Classed st.cell := by
  have hboth := run_invariant (fun s => StoreOk thread s ∧ Classed s.cell) ?_ evs _ st
    ⟨storeOk_empty thread, fun a h0 => absurd rfl h0⟩ hr
  · exact hboth.2
  · intro s e s' h hs
    obtain ⟨hok, hclassed⟩ := h
    have heff := step_effect hok.wf hok.cells e.action hs.allowed hs.step
    exact ⟨storeOk_step s e s' hok hs, heff.classed hok.cells hclassed⟩

/-- Without deleted elements that are still referenced, the cells with the class of an arc are the
arcs of the graph. -/
theorem ofClass_arc (hok : StoreOk env.thread st)
    (hranked : ArcsRanked st.cell) (hlive : ∀ a, (st.cell a).type ≠ 0 → Live st.cell a) :
    ofClass st .arc = {x | (graphOf st.cell).ends x ≠ none} := by
  ext x
  simp only [ofClass, Set.mem_ofPred_eq]
  constructor
  · rintro ⟨_, hx⟩
    have harc : ((st.cell x).type &&& scTypeArcMask != 0) = true := by
      by_contra hno
      unfold classOf at hx
      rw [if_neg hno] at hx
      split_ifs at hx <;> simp at hx
    have htype : (st.cell x).type ≠ 0 := type_ne_zero_of_and (bne_iff_ne.mp harc)
    rw [ends_of_arc ⟨hlive x htype, harc⟩]
    simp
  · intro hx
    have harc : LiveArc st.cell x := by
      by_contra hno
      exact hx (ends_of_other hno)
    have hnode : (st.cell x).type &&& scTypeNode = 0 := hranked.notNode x harc
    have hlink : (st.cell x).isLink = false := hok.cells.oneClass x harc.2
    refine ⟨hok.cells.loaded hok.wf.2 (type_of_live harc.1), ?_⟩
    have hmask : ((st.cell x).type &&& scTypeArcMask != 0) = true := harc.2
    unfold classOf
    rw [if_neg (by simp [hnode]), if_neg (by simpa [ScElement.isLink] using hlink), if_pos hmask]

/-- All cells together. -/
theorem cellPairs_total (h : Classed st.cell) :
    (cellPairs st .node).card+(cellPairs st .link).card+(cellPairs st .arc).card+
      (cellPairs st .empty).card = 65535*st.segmentsNum := by
  have hmap : ∀ p ∈ Finset.range st.segmentsNum ×ˢ Finset.range 65535,
      (classOf (st.cell (cellAddr p)).type).getD .empty ∈
        ({.node, .link, .arc, .empty} : Finset CellClass) := by
    intro p _
    cases (classOf (st.cell (cellAddr p)).type).getD .empty <;> decide
  have hsum := Finset.card_eq_sum_card_fiberwise hmap
  have hfiber (k : CellClass) : ((Finset.range st.segmentsNum ×ˢ Finset.range 65535).filter fun p =>
      (classOf (st.cell (cellAddr p)).type).getD .empty = k) = cellPairs st k := by
    apply Finset.filter_congr
    intro p _
    obtain ⟨k', hk'⟩ := Option.ne_none_iff_exists'.mp (classOf_some (h (cellAddr p)))
    rw [hk']
    simp
  simp only [hfiber] at hsum
  rw [Finset.card_product, Finset.card_range, Finset.card_range] at hsum
  rw [Finset.sum_insert (by decide), Finset.sum_insert (by decide), Finset.sum_insert (by decide),
    Finset.sum_singleton] at hsum
  omega

end

/-- The statistics leave the store as it was. Each counter is the number of cells of its class, the
classes cover all cells, so that no counter of 32 bits overflows; and while no deleted element is
referenced the arcs counted are the arcs there are. -/
theorem elements_stat_exact (thread : ℕ) (evs : List StoreEvent) (st : ScStorage)
    (hr : Run (OwnStep thread) ScStorage.empty evs st) (env : ScEnv) (henv : env.thread = thread) :
    ∃ stat, scStorageGetElementsStat env st = .ok (stat, st) ∧
      stat.segmentsCount = st.segmentsNum ∧ (∀ k, stat.count k = (ofClass st k).ncard) ∧
      stat.nodeCount+stat.linkCount+stat.arcCount+stat.emptyCount = 65535*stat.segmentsCount ∧
      65535*stat.segmentsCount < 2^32 ∧
      ((∀ a, (st.cell a).type ≠ 0 → Live st.cell a) →
        stat.arcCount = {x | (graphOf st.cell).ends x ≠ none}.ncard) := by
  subst henv
  have hok := ownRun_storeOk evs st hr
  have hfill := storeRun_segmentsFilled _ st evs (Or.inl rfl) (storeRun_of_ownRun _ _ _ hr)
  have hbound := hok.wf.2.bound
  obtain ⟨stat, hrun, hsegs, hcount⟩ := collectSegments_count hfill hok.own st.segmentsNum (le_refl _)
    ⟨0, 0, 0, 0, st.segmentsNum⟩
  have hpairs (k : CellClass) : stat.count k = (cellPairs st k).card := by
    have hzero : (ScStat.mk 0 0 0 0 st.segmentsNum).count k = 0 := by cases k <;> rfl
    rw [hcount, hzero, Nat.sub_self, segmentsFrom_card hfill hok.wf.2, Nat.zero_add]
  have hncard (k : CellClass) : stat.count k = (ofClass st k).ncard :=
    (hpairs k).trans (cellPairs_card hfill hok.wf.2)
  refine ⟨stat, hrun, hsegs, hncard, ?_, ?_, fun hlive => ?_⟩
  · have htotal := cellPairs_total (ownRun_classed evs st hr)
    rw [hsegs]
    simp only [← hpairs] at htotal
    exact htotal
  · rw [hsegs]
    show 65535*st.segmentsNum < 2^32
    omega
  · rw [← ofClass_arc hok (ownRun_arcsRanked evs st hr) hlive]
    exact hncard .arc

theorem elements_stat_exact_storeWithArc :
    ∃ stat, scStorageGetElementsStat exampleEnv storeWithArc = .ok (stat, storeWithArc) ∧
      stat.segmentsCount = storeWithArc.segmentsNum ∧
      (∀ k, stat.count k = (ofClass storeWithArc k).ncard) ∧
      stat.nodeCount+stat.linkCount+stat.arcCount+stat.emptyCount = 65535*stat.segmentsCount ∧
      65535*stat.segmentsCount < 2^32 ∧
      ((∀ a, (storeWithArc.cell a).type ≠ 0 → Live storeWithArc.cell a) →
        stat.arcCount = {x | (graphOf storeWithArc.cell).ends x ≠ none}.ncard) :=
  elements_stat_exact 1 arcEvents storeWithArc storeWithArc_run exampleEnv rfl

end ScMachine.Store
