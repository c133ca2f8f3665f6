import ScMachine.ScSet
import ScMachine.ArcAges
import ScMachine.ErasedArcs
import ScMachine.IteratorMutation
import ScMachine.CommandMarks

/-! The loop of `ScSet::Remove`. The arc that the iterator stands on is erased, and with it what
hangs on it. The iterator still holds a reference of its cell, and the word of that cell that names
the next arc is not changed any more, because what stands behind an arc does not go with it. -/
namespace ScMachine.Store
open ScMachine.StateExcept ScMachine.DoublyLinked ScMachine.Enumeration ScMachine.GraphMemory

/-- The live elements are the same, with the same cells. -/
structure SameLive (c c' : Cells) : Prop where
  live : ∀ z, Live c' z ↔ Live c z
  same : ∀ z, Live c z → c' z = c z

/-- The iterator has the arcs of `rest` before it: the word that it goes on with names the first. -/
structure ScIterator3.Before (it : ScIterator3) (c : Cells) (d : Dir) (anchor : ScAddr)
    (rest : List ScAddr) : Prop where
  list : rest <:+ arcList c d anchor
  way : (if it.result1 = ScAddr.empty then (c anchor).first d else nextOf c d it.result1) =
    rest.headD ScAddr.empty

/-- What a set iterates over to find the arcs to `x`. -/
def ScSet.searched (set : ScSet) (x : ScAddr) : Iterator3Params :=
  .faf set.addr ScType.edgeAccessConstPosPerm x

section
variable {env : ScEnv} {L : SectionKey → LockWord} {as held more rest : List ScAddr}
  {c c' c'' : Cells} {st s : ScStorage} {a x y : ScAddr} {ctx : ScContext} {E : ScStop → Prop}
  {d : Dir} {anchor : ScAddr} {params : Iterator3Params} {it : ScIterator3}

theorem SameLive.trans (h : SameLive c c') (h' : SameLive c' c'') : SameLive c c'' := by
  refine ⟨fun z => (h'.live z).trans (h.live z), fun z hz => ?_⟩
  calc c'' z = c' z := h'.same z ((h.live z).mpr hz)
    _ = c z := h.same z hz

theorem SameLive.of_cell (h : c' = c) : SameLive c c' := by
  rw [h]
  exact ⟨fun _ => Iff.rfl, fun _ _ => rfl⟩

theorem Passed.sameLive {seen : List ScAddr} (h : Passed st seen s) : SameLive st.cell s.cell :=
  ⟨h.live, fun z hz => h.same z (Or.inr hz)⟩

theorem SameLive.liveArc (h : SameLive c c') : LiveArc c' y ↔ LiveArc c y := by
  unfold LiveArc
  rw [h.live]
  apply and_congr_right
  intro hy
  rw [h.same y hy]

theorem SameLive.graphOf_eq (h : SameLive c c') : graphOf c' = graphOf c := by
  have hat (z : ScAddr) : (graphOf c').label z = (graphOf c).label z ∧
      (graphOf c').ends z = (graphOf c).ends z := by
    by_cases hz : Live c z
    · exact graphOf_at_eq (h.same z hz)
    · -- a dead cell may be a different one, but it is nothing in the graph
      have hz' : ¬ Live c' z := (h.live z).not.mpr hz
      rw [label_of_dead hz, label_of_dead hz', ends_of_other fun hl => hz hl.1,
        ends_of_other fun hl => hz' hl.1]
      exact ⟨rfl, rfl⟩
  ext1
  · funext z
    exact (hat z).1
  · funext z
    exact (hat z).2

theorem SameLive.arcChain {l : List ScAddr} (h : SameLive c c') (ha : Live c anchor)
    (hl : ArcChain c d anchor l) : ArcChain c' d anchor l := by
  apply hl.of_same (fun y => h.liveArc)
  · intro y f hy
    rw [h.same y hy.1]
  · rw [h.same anchor ha]

theorem SameLive.arcsAged (h : SameLive st.cell s.cell) (hc : CellsOk st) (hs : CellsOk s)
    (hage : ArcsAged st.cell) : ArcsAged s.cell := by
  apply hage.of_kept hc hs (fun y => h.liveArc)
  · intro y f hy
    rw [h.same y hy.1]
  · intro y d hy
    rw [h.same y hy]

/-- Whether an arc is one that the iterator of a set looks for. -/
theorem matching_faf (c : Cells) (ctx : ScContext) (beg end_ x : ScAddr) (arcType : ScType) :
    (Iterator3Params.faf beg arcType end_).matching c ctx x =
      decide (ownerOf c .out x = beg ∧ HasType c x arcType ∧ CanRead ctx c x) := rfl

theorem SameLive.matching_eq (h : SameLive c c') {beg end_ : ScAddr} {arcType : ScType}
    (hy : LiveArc c y) : (Iterator3Params.faf beg arcType end_).matching c' ctx y =
      (Iterator3Params.faf beg arcType end_).matching c ctx y := by
  rw [matching_faf, matching_faf]
  apply decide_eq_decide.mpr
  simp only [HasType, CanRead, ownerOf, h.same y hy.1]

/-! One call of `next`. -/

/-- The references that a walk takes are added to those that are held. -/
theorem Iterating.tracked {as' extra : List ScAddr} (h : Iterating env L as st.cell st.refCount extra s)
    (ht : Tracked env L as' held st) (hextra : ∀ y ∈ extra, (st.cell y).type ≠ 0) :
    Tracked env L as (extra ++ held) s := by
  refine ⟨h.holds, h.cells, fun y => ?_, fun y => ?_⟩
  · have hcount := ht.refs.count y
    rw [h.cell, h.refCount, List.count_append]
    push_cast
    omega
  · rw [h.cell, h.refCount, ht.refs.free]
    by_cases hy : (st.cell y).type = 0
    · have hnot : y ∉ extra := fun hmem => hextra y hmem hy
      rw [List.count_eq_zero_of_not_mem hnot]
      simp
    · have hpos := ht.refs.positive hy
      omega

/-- The walk starts at the first arc of the rest, wherever the iterator stands. -/
theorem resumeArc_before (hown : ∀ k, Lockable env.thread (L k)) (hanchor : Live st.cell anchor)
    (hfinished : it.finished = false) (hbefore : it.Before st.cell d anchor rest)
    (h : Tracked env L [] (it.held ++ more) st) :
    Wp (resumeArc env d anchor it) (fun y s => y = rest.headD ScAddr.empty ∧
      SameLive st.cell s.cell ∧ (∀ z, s.refCount z ≤ st.refCount z) ∧
      Tracked env L [] (it.params.fixed ++ more) s) E st := by
  have hway := hbefore.way
  unfold resumeArc
  by_cases hempty : it.result1 = ScAddr.empty
  · have hheld : it.held = it.params.fixed := by
      unfold ScIterator3.held ScIterator3.currentArc
      simp [hempty]
    rw [hheld] at h
    rw [if_pos hempty] at hway
    rw [if_pos hempty, wp_bind]
    apply wp_mono (lock_used hown h (type_of_live hanchor)) _ (fun _ he => he)
    intro r s1 ⟨hr, hu1, h1⟩
    simp only [hr, Bool.not_true, Bool.false_eq_true, if_false, wp_bind, wp_readCell]
    apply wp_mono (unlock_used h1) _ (fun _ he => he)
    intro _ s2 ⟨hu2, h2⟩
    have hu := hu2.trans hu1
    refine ⟨?_, SameLive.of_cell (cell_of_unlocked hu), fun z => ?_, h2⟩
    · rw [cell_of_unlocked hu1]
      exact hway
    · rw [refCount_of_unlocked hu]
  · have hheld (y : ScAddr) : (it.result1 :: (it.params.fixed ++ more)).count y ≤
        (it.held ++ more).count y := by
      unfold ScIterator3.held ScIterator3.currentArc
      rw [if_pos ⟨hfinished, hempty⟩]
      simp only [Option.toList_some, List.count_append, List.count_cons, List.count_nil]
      omega
    have h0 := h.mono hheld
    rw [if_neg hempty] at hway
    rw [if_neg hempty, wp_bind]
    apply wp_mono (lock_used hown h0 (h0.refs.type_ne List.mem_cons_self)) _ (fun _ he => he)
    intro r s1 ⟨hr, hu1, h1⟩
    simp only [hr, Bool.not_true, Bool.false_eq_true, if_false, wp_bind, wp_readCell]
    apply wp_mono (unref_used hown h1 hempty) _ (fun _ he => he)
    intro _ s2 ⟨hun, h2⟩
    apply wp_mono (unlock_used h2) _ (fun _ he => he)
    intro _ s3 ⟨hu3, h3⟩
    have hpassed : Passed st [it.result1] s3 := by
      apply Passed.of_unlocked _ hu3
      apply ((passed_start st).of_unlocked hu1).unref rfl _ hun h1.refs.two
      intro z
      split_ifs <;> omega
    refine ⟨?_, hpassed.sameLive, hpassed.refCount, h3⟩
    rw [cell_of_unlocked hu1]
    exact hway

theorem ScIterator3.Before.liveArc (h : it.Before st.cell d anchor rest) (hc : CellsOk st)
    (hanchor : Live st.cell anchor) : ∀ y ∈ rest, LiveArc st.cell y := by
  intro y hy
  obtain ⟨pre, hlist⟩ := h.list
  have hmem := (hc.arcs.arcList (d := d) hanchor).mem y
  rw [← hlist] at hmem
  exact (hmem.mp (List.mem_append_right _ hy)).1

/-- A call of `next` on an iterator with `rest` before it: it stops at the first arc of `rest` that
matches. -/
structure Stopped (env : ScEnv) (L : SectionKey → LockWord) (ctx : ScContext)
    (params : Iterator3Params) (rest more : List ScAddr) (st : ScStorage) (r : Bool × ScIterator3)
    (s : ScStorage) : Prop where
  same : SameLive st.cell s.cell
  found : r.1 = (rest.find? (params.matching st.cell ctx)).isSome
  params_eq : r.2.params = params
  ctx_eq : r.2.ctx = ctx
  arc : ∀ a, rest.find? (params.matching st.cell ctx) = some a →
    r.2.result1 = a ∧ r.2.finished = false
  room : ∀ y ∈ behind (params.matching st.cell ctx) rest, s.refCount y ≤ st.refCount y
  tracked : Tracked env L [] (r.2.held ++ more) s

/-- Where the arcs of `rest` have no room, the call may stop anyhow. -/
theorem next_before {beg end_ : ScAddr} {arcType : ScType} (hown : ∀ k, Lockable env.thread (L k))
    (hparams : it.params = .faf beg arcType end_) (hctx : it.ctx = ctx) (hfinished : it.finished = false)
    (hend : Live st.cell end_) (hbefore : it.Before st.cell .inp end_ rest)
    (hE : ∀ y ∈ rest, ¬ HasRoom st y → ∀ e, E e) (h : Tracked env L [] (it.held ++ more) st)
    (unset : ScAddr → ScType) :
    Wp (scIterator3Next env unset it) (Stopped env L ctx (.faf beg arcType end_) rest more st) E st := by
  subst hctx
  have hchain := h.cells.arcs.arcList (d := .inp) hend
  have hmem := hbefore.liveArc h.cells hend
  obtain ⟨pre, hlist⟩ := hbefore.list
  have hnext : scIterator3Next env unset it = scIterator3FAFNext env it beg arcType end_ := by
    unfold scIterator3Next
    rw [if_neg (by simp [hfinished]), hparams]
  rw [hnext]
  unfold scIterator3FAFNext
  rw [wp_bind]
  apply wp_mono (resumeArc_before hown hend hfinished hbefore h) _ (fun _ he => he)
  intro start s1 ⟨hstart, hsame, hcount, h1⟩
  subst hstart
  rw [hparams] at h1
  -- the list is still there, and its rest is walked along in a store that keeps its cells
  have hchain1 := hsame.arcChain hend hchain
  rw [← hlist] at hchain1
  obtain ⟨p, hlinked⟩ := hchain1.linked.suffix
  have hnodup := (List.nodup_append.mp hchain1.nodup).2.1
  have hset : Undisturbed env L s1.cell s1.refCount := ⟨hown, h1.cells.referenced⟩
  have hiter : Iterating env L [] s1.cell s1.refCount [] s1 :=
    ⟨h1.holds, h1.cells, rfl, fun y => by simp⟩
  have hlive (y : ScAddr) (hy : y ∈ rest) : LiveArc s1.cell y := hsame.liveArc.mpr (hmem y hy)
  have hlimit : ∀ y ∈ rest, 4294967295 ≤ s1.refCount y+(([] : List ScAddr).count y : ℤ)+1 →
      ∀ e, E e := by
    intro y hy hlarge
    apply hE y hy
    have hy' := hcount y
    unfold HasRoom
    simp only [List.count_nil] at hlarge
    omega
  have hfuel : rest.length < walkFuel := by
    have hlen := length_le_of_nodup_addrs rest hnodup
    unfold walkFuel
    omega
  have haccept : ∀ x ∈ rest, ∀ held s, Iterating env L [x] s1.cell s1.refCount held s →
      Wp (acceptBetween env it.ctx beg arcType x (s1.cell x))
        (fun r s => r = (Iterator3Params.faf beg arcType end_).matching st.cell it.ctx x ∧
          Iterating env L [] s1.cell s1.refCount held s) E s := by
    intro x hx held s hst
    rw [← hsame.matching_eq (hmem x hx), matching_faf]
    exact acceptBetween_wp hst beg arcType
  rw [wp_bind]
  apply wp_mono (walkArcs_wp hset rest hlive hnodup hlinked haccept hlimit walkFuel hfuel hiter) _
    (fun _ he => he)
  intro r s2 ⟨hr, h2⟩
  subst hr
  have hvisited (y : ScAddr)
      (hy : y ∈ visited ((Iterator3Params.faf beg arcType end_).matching st.cell it.ctx) rest ++ []) :
      (s1.cell y).type ≠ 0 := by
    rw [List.append_nil] at hy
    exact type_of_live (hlive y (visited_subset _ _ y hy)).1
  have htracked := h2.tracked h1 hvisited
  rw [List.append_nil] at htracked
  have hsame2 := hsame.trans (SameLive.of_cell h2.cell)
  have hroom (y : ScAddr)
      (hy : y ∈ behind ((Iterator3Params.faf beg arcType end_).matching st.cell it.ctx) rest) :
      s2.refCount y ≤ st.refCount y := by
    -- what is behind the place of the stop has not been visited
    have hnot : y ∉ visited ((Iterator3Params.faf beg arcType end_).matching st.cell it.ctx) rest := by
      intro hv
      rw [← visited_append_behind ((Iterator3Params.faf beg arcType end_).matching st.cell it.ctx) rest]
        at hnodup
      exact (List.nodup_append.mp hnodup).2.2 y hv y hy rfl
    have hy' := hcount y
    rw [h2.refCount, List.append_nil, List.count_eq_zero_of_not_mem hnot]
    simpa using hy'
  cases hfind : rest.find? ((Iterator3Params.faf beg arcType end_).matching st.cell it.ctx) with
  | none =>
    rw [Option.map_none, wp_pure]
    refine ⟨hsame2, by rw [hfind]; rfl, hparams, rfl, fun a ha => ?_, hroom, ?_⟩
    · rw [hfind] at ha
      simp at ha
    · apply htracked.mono
      intro y
      unfold ScIterator3.held ScIterator3.currentArc
      simp [List.count_append, hparams]
  | some a =>
    obtain ⟨pre', hpre⟩ := visited_of_some hfind
    rw [Option.map_some, wp_pure]
    refine ⟨hsame2, by rw [hfind]; rfl, hparams, rfl, fun b hb => ?_, hroom, ?_⟩
    · rw [hfind] at hb
      exact ⟨Option.some.inj hb, hfinished⟩
    · apply htracked.mono
      intro y
      have hlast : ({ it with result0 := beg, result2 := end_, result1 := a } : ScIterator3).held.count y ≤
          (Iterator3Params.faf beg arcType end_).fixed.count y+[a].count y := by
        unfold ScIterator3.held ScIterator3.currentArc
        split_ifs <;> simp [List.count_append, hparams]
      rw [hpre]
      simp only [List.count_append] at hlast ⊢
      omega

/-- Where the iterator stands after a call that found `a`. -/
theorem Stopped.standing {beg end_ : ScAddr} {arcType : ScType} {r : Bool × ScIterator3}
    (h : Stopped env L ctx (.faf beg arcType end_) rest more st r s) (hc : CellsOk st)
    (hend : Live st.cell end_) (hbefore : it.Before st.cell .inp end_ rest)
    (hfind : rest.find? ((Iterator3Params.faf beg arcType end_).matching st.cell ctx) = some a) :
    ∃ pre, arcList s.cell .inp end_ = pre ++ a ::
        behind ((Iterator3Params.faf beg arcType end_).matching st.cell ctx) rest ∧
      a ≠ ScAddr.empty ∧ a ∈ r.2.held ++ more := by
  obtain ⟨pre, hlist⟩ := hbefore.list
  obtain ⟨passed, hvisited⟩ := visited_of_some hfind
  obtain ⟨hresult, hfinished⟩ := h.arc a hfind
  have hne : a ≠ ScAddr.empty := by
    rintro rfl
    exact hc.arcs.notEmpty (hbefore.liveArc hc hend _ (List.mem_of_find?_eq_some hfind)).1
  refine ⟨pre ++ passed, ?_, hne, ?_⟩
  · calc arcList s.cell .inp end_ = arcList st.cell .inp end_ :=
        (h.same.arcChain hend (hc.arcs.arcList (d := .inp) hend)).arcList_eq
      _ = pre ++ rest := hlist.symm
      _ = pre ++ (visited ((Iterator3Params.faf beg arcType end_).matching st.cell ctx) rest ++
            behind ((Iterator3Params.faf beg arcType end_).matching st.cell ctx) rest) := by
        rw [visited_append_behind]
      _ = _ := by
        rw [hvisited]
        simp
  · unfold ScIterator3.held ScIterator3.currentArc
    rw [hresult, if_pos ⟨hfinished, hne⟩]
    simp

/-! The erasure of the arc that the iterator stands on. -/

/-- The arc `a` has been erased, and the arcs of `tail` that stood behind it are still there. -/
structure ArcGone (env : ScEnv) (L : SectionKey → LockWord) (a x : ScAddr) (tail held : List ScAddr)
    (st s : ScStorage) : Prop where
  graph : graphOf s.cell = (graphOf st.cell).delete a
  endLive : Live s.cell x
  list : tail <:+ arcList s.cell .inp x
  way : nextOf s.cell .inp a = tail.headD ScAddr.empty
  same : ∀ y ∈ tail, SameButLinks st.cell s.cell y ∧ s.refCount y = st.refCount y
  aged : ArcsAged s.cell
  tracked : Tracked env L [] held s

theorem SameButLinks.matching_eq (h : SameButLinks c c' y) {beg end_ : ScAddr} {arcType : ScType} :
    (Iterator3Params.faf beg arcType end_).matching c' ctx y =
      (Iterator3Params.faf beg arcType end_).matching c ctx y := by
  rw [matching_faf, matching_faf]
  apply decide_eq_decide.mpr
  simp only [HasType, CanRead, h.owner, h.type, h.accessLevels]

theorem elementFree_gone {pre tail : List ScAddr} (hown : ∀ k, Lockable env.thread (L k))
    (hctx : Agent.FullAccess ctx) (hx : Live st.cell x) (hage : ArcsAged st.cell)
    (hlist : arcList st.cell .inp x = pre ++ a :: tail) (ha : a ∈ held)
    (h : Tracked env L [] held st) (order : HashOrder) :
    Wp (scStorageElementFree env ctx order a) (fun _ s => ArcGone env L a x tail held st s) E st := by
  have hchain := h.cells.arcs.arcList (d := .inp) hx
  have harc : LiveArc st.cell a ∧ ownerOf st.cell .inp a = x := by
    apply (hchain.mem a).mp
    rw [hlist]
    simp
  have hlinked := hchain.linked
  rw [hlist] at hlinked
  have hway : nextOf st.cell .inp a = tail.headD ScAddr.empty := hlinked.behind.1
  obtain ⟨age, haged⟩ := hage
  -- neither what is behind `a` nor `x` itself goes with it
  have hbehind (y : ScAddr) (hy : y ∈ tail) : ¬ InClosure st.cell a y := haged.behind hx hlist hy
  have hend : ¬ InClosure st.cell a x := by
    intro hin
    have hlt := haged.ends a .inp harc.1
    rw [harc.2] at hlt
    have hle := haged.closure hin
    omega
  have hout : ¬ InClosure st.cell a (nextOf st.cell .inp a) := by
    rw [hway]
    cases tail with
    | nil => exact fun hin => h.cells.arcs.notEmpty (hin.live harc.1.1)
    | cons y ys => exact hbehind y List.mem_cons_self
  have hcount : st.refCount a ≠ 1 := by
    have hle := h.refs.count a
    have hpos := List.count_pos_iff.mpr ha
    rw [if_pos harc.1.1] at hle
    omega
  have hfree := wp_and (elementFree_wp h.holds h.cells ctx order a)
    (elementFree_next h.holds h.cells ctx order a harc.1 hcount hout)
  apply wp_mono hfree
  · intro r s ⟨⟨hh, houtcome⟩, hnext⟩
    cases houtcome with
    | dead _ hdead _ => exact absurd harc.1.1 hdead
    | denied _ _ hden _ => exact absurd (fun y _ => Agent.canWrite_full hctx _ y) hden
    | freed _ _ _ he =>
      have hD (y : ScAddr) : y ∈ erasedList order st.cell a ↔ InClosure st.cell a y :=
        mem_erasedList h.cells.arcs harc.1.1 order y
      have hcells := he.cellsOk_closure h.cells harc.1.1
      have hlive : Live s.cell x := (he.dead_iff h.cells harc.1.1 x).mpr ⟨hx, hend⟩
      have hrest := he.cells.arcChain h.cells.arcs (d := .inp) hx ((hD x).not.mpr hend)
      have htail : (tail.filter fun y => y ∉ erasedList order st.cell a) = tail := by
        apply List.filter_eq_self.mpr
        intro y hy
        exact decide_eq_true ((hD y).not.mpr (hbehind y hy))
      refine ⟨graphOf_erased h.cells harc.1.1 he, hlive, ?_, hnext.trans hway, fun y hy => ?_,
        ⟨age, haged.of_erasing h.cells.arcs he.cells⟩, hh, hcells, ?_⟩
      · rw [hrest.arcList_eq]
        unfold restList
        rw [hlist, List.filter_append, List.filter_cons, htail]
        rw [if_neg (by simp [(hD a).mpr .root])]
        exact List.suffix_append _ _
      · have hyD := (hD y).not.mpr (hbehind y hy)
        refine ⟨he.cells.same y hyD, ?_⟩
        rw [he.refCount, if_neg hyD]
      · apply h.refs.erase _ he
        intro y hy
        exact ((hD y).mp hy).live harc.1.1
  · intro e ⟨hstop, _⟩
    exfalso
    rcases hstop with hblocked | hoff
    · exact hblocked hown
    · have hin := h.cells.inRange a (type_of_live harc.1.1)
      omega

/-! The loop. -/

theorem any_eq_find (m : ScAddr → Bool) (l : List ScAddr) : l.any m = (l.find? m).isSome := by
  rw [Bool.eq_iff_iff]
  simp

/-- The arcs of the rest are erased if they match, and the others stay. -/
theorem removeLoop_wp (set : ScSet) (order : ScAddr → HashOrder)
    (hown : ∀ k, Lockable env.thread (L k)) (hctx : Agent.FullAccess set.context)
    (fuel : ℕ) (hfuel : rest.length < fuel) (found : Bool)
    (hparams : it.params = set.searched x) (hit : it.ctx = set.context)
    (hfinished : it.finished = false) (hx : Live st.cell x) (hage : ArcsAged st.cell)
    (hbefore : it.Before st.cell .inp x rest) (hE : ∀ y ∈ rest, ¬ HasRoom st y → ∀ e, E e)
    (h : Tracked env L [] (it.held ++ more) st) :
    Wp (set.removeLoop env order fuel found it)
      (fun r s => r.1 = (found || rest.any ((set.searched x).matching st.cell set.context)) ∧
        graphOf s.cell = (graphOf st.cell).deleteAll
          {y | y ∈ rest.filter ((set.searched x).matching st.cell set.context)} ∧
        ArcsAged s.cell ∧ r.2.params = set.searched x ∧ Tracked env L [] (r.2.held ++ more) s) E st := by
  -- along the list; a call of `next` and the erasure leave only what is behind the erased arc
  induction fuel generalizing rest found it st with
  | zero => simp at hfuel
  | succ fuel ih =>
    unfold ScSet.removeLoop
    rw [wp_bind]
    apply wp_mono (next_before hown hparams hit hfinished hx hbefore hE h fun _ => 0) _ (fun _ he => he)
    intro r s1 hstop
    obtain ⟨more1, it1⟩ := r
    have hage1 := hstop.same.arcsAged h.cells hstop.tracked.cells hage
    have hfound : more1 = (rest.find? ((set.searched x).matching st.cell set.context)).isSome :=
      hstop.found
    have hfilter := filter_of_find ((set.searched x).matching st.cell set.context) rest
    cases hfind : rest.find? ((set.searched x).matching st.cell set.context) with
    | none =>
      rw [hfind] at hfound hfilter
      have hempty : rest.filter ((set.searched x).matching st.cell set.context) = [] := by
        rw [hfilter, (visited_of_none hfind).2]
        rfl
      simp only [hfound, Option.isSome_none, Bool.false_eq_true, if_false, wp_pure]
      refine ⟨?_, ?_, hage1, hstop.params_eq, hstop.tracked⟩
      · rw [any_eq_find, hfind, Option.isSome_none, Bool.or_false]
      · rw [hempty, hstop.same.graphOf_eq]
        simp [ElementGraph.deleteAll_empty]
    | some a =>
      rw [hfind] at hfound hfilter
      obtain ⟨hresult, hfinished1⟩ := hstop.arc a hfind
      obtain ⟨pre, hsplit, hne, hheld⟩ := hstop.standing h.cells hx hbefore hfind
      have hx1 : Live s1.cell x := (hstop.same.live x).mpr hx
      simp only [hfound, Option.isSome_some, if_true, wp_bind]
      rw [hresult]
      apply wp_mono (elementFree_gone hown hctx hx1 hage1 hsplit hheld hstop.tracked (order a)) _
        (fun _ he => he)
      intro _ s2 hgone
      have hbefore2 : it1.Before s2.cell .inp x
          (behind ((set.searched x).matching st.cell set.context) rest) := by
        refine ⟨hgone.list, ?_⟩
        rw [hresult, if_neg hne]
        exact hgone.way
      have hE2 : ∀ y ∈ behind ((set.searched x).matching st.cell set.context) rest,
          ¬ HasRoom s2 y → ∀ e, E e := by
        intro y hy hfull
        apply hE y (behind_subset _ _ y hy)
        have hle := hstop.room y hy
        have heq := (hgone.same y hy).2
        unfold HasRoom at hfull ⊢
        omega
      have hsame : (behind ((set.searched x).matching st.cell set.context) rest).filter
          ((set.searched x).matching s2.cell set.context) =
          (behind ((set.searched x).matching st.cell set.context) rest).filter
            ((set.searched x).matching st.cell set.context) := by
        apply List.filter_congr
        intro y hy
        have hlive := hbefore.liveArc h.cells hx y (behind_subset _ _ y hy)
        calc (set.searched x).matching s2.cell set.context y
            = (set.searched x).matching s1.cell set.context y := (hgone.same y hy).1.matching_eq
          _ = (set.searched x).matching st.cell set.context y := hstop.same.matching_eq hlive
      have hlen : (behind ((set.searched x).matching st.cell set.context) rest).length < fuel := by
        have hlt := length_behind_lt hfind
        omega
      apply wp_mono (ih hlen true hstop.params_eq hstop.ctx_eq hfinished1 hgone.endLive hgone.aged
        hbefore2 hE2 hgone.tracked) _ (fun _ he => he)
      intro r2 s3 ⟨hr2, hgraph, hage3, hparams3, htracked3⟩
      refine ⟨?_, ?_, hage3, hparams3, htracked3⟩
      · rw [hr2, any_eq_find _ rest, hfind]
        simp
      · rw [hgraph, hsame, hgone.graph, hstop.same.graphOf_eq,
          ElementGraph.delete_deleteAll (graphOf_closed h.cells.arcs), hfilter]
        congr 1
        ext y
        simp

end

end ScMachine.Store
