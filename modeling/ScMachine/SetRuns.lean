import ScMachine.SetRemoval
import ScMachine.StoreGraph

/-! What the calls of a set answer and leave, over whole runs. -/
namespace ScMachine.Store
open ScMachine.StateExcept ScMachine.Runs ScMachine.DoublyLinked ScMachine.Enumeration
  ScMachine.GraphMemory ScMachine.Template

/-- What the calls of a set rely on, and keep. -/
structure SetReady (thread : ℕ) (st : ScStorage) : Prop where
  store : StoreOk thread st
  refs : RefsHeld st []
  aged : ArcsAged st.cell

section
variable {env : ScEnv} {st s : ScStorage} {a x : ScAddr} {ctx : ScContext} {E : ScStop → Prop}
  {d : Dir} {anchor : ScAddr} {params : Iterator3Params} {it : ScIterator3} {set : ScSet}

theorem SetReady.tracked (h : SetReady env.thread st) : Tracked env st.locks [] [] st :=
  ⟨holds_start _ _ h.store.wf.1 h.store.wf.2, h.store.cells, h.refs⟩

theorem SetReady.of_tracked {held : List ScAddr} (h : SetReady env.thread st)
    (ht : Tracked env st.locks [] held s) (hage : ArcsAged s.cell) : SetReady env.thread s := by
  refine ⟨⟨ht.holds.storeWf, ?_, ht.cells⟩, ht.refs.mono fun y => by simp, hage⟩
  intro k
  rw [ht.holds.end_]
  exact h.store.own k

theorem SetReady.of_iterating {extra : List ScAddr} (h : SetReady env.thread st)
    (hi : Iterating env st.locks [] st.cell st.refCount extra s)
    (hextra : ∀ y ∈ extra, Live st.cell y) : SetReady env.thread s := by
  apply h.of_tracked (hi.tracked h.tracked fun y hy => type_of_live (hextra y hy))
  rw [hi.cell]
  exact h.aged

/-- What a single thread does by other calls keeps it too. -/
theorem setReady_call {α : Type} {f : StoreM α} (c : StorageCall) (hrun : c.run env = ignoreResult f)
    (hallow : c.Allowed st) (h : SetReady env.thread st) :
    IfReturns f (fun _ s => SetReady env.thread s) st := by
  apply ifReturns_of_ok
  intro r s hs
  have hstep : StoreStep st ⟨env, .call c⟩ s := by
    show c.run env st = .ok ((), s)
    rw [hrun]
    unfold ignoreResult
    rw [run_bind_ok hs]
    rfl
  have heff := step_effect h.store.wf h.store.cells (.call c) hallow hstep
  exact ⟨storeOk_step st ⟨env, .call c⟩ s h.store ⟨rfl, hallow, hstep⟩,
    heff.refsHeld h.store.cells hallow h.refs, heff.arcsAged h.store.cells hallow h.aged⟩

theorem takenRefs_valid (c : Cells) (l : List ScAddr) : ∀ y ∈ takenRefs c l, Live c y := by
  intro y hy
  exact List.mem_takeWhile_imp (p := fun a => scElementIsValid (c a)) hy

/-- An iterator is made, or what was taken for it stays without a holder. -/
theorem create_ready (h : SetReady env.thread st) (ctx : ScContext) (params : Iterator3Params) :
    Wp (params.create env ctx)
      (fun r s => (params.Creatable st.cell ctx ∧ r = some (params.fresh ctx) ∧
          Iterating env st.locks [] st.cell st.refCount params.fixed s) ∨
        (¬ params.Creatable st.cell ctx ∧ r = none ∧ s.cell = st.cell ∧ SetReady env.thread s))
      (fun _ => ¬ CreateRoom st params) st := by
  have hset := undisturbed_of_storeOk h.store
  have hoffset : ∀ a ∈ params.fixed, 65535 ≤ a.offset.toNat → ∀ _ : ScStop,
      ¬ CreateRoom st params := by
    intro a ha hoff _ hroom
    have hlt := hroom.2 a ha
    omega
  have hlimit : ∀ a ∈ params.fixed, 4294967295 ≤ st.refCount a+(params.fixed ++ []).count a →
      ∀ _ : ScStop, ¬ CreateRoom st params := by
    intro a _ hlimit _ hroom
    have hlt := hroom.1 a
    have hle := count_fixed_le params a
    rw [List.append_nil] at hlimit
    omega
  by_cases hc : params.Creatable st.cell ctx
  · apply wp_mono (create_creatable hset params hc hlimit (iterating_start h.store)) _ (fun _ he => he)
    rintro r s1 ⟨hr, h1⟩
    rw [List.append_nil] at h1
    exact Or.inl ⟨hc, hr, h1⟩
  · apply wp_mono (create_wp hset params hoffset hlimit (iterating_start h.store)) _ (fun _ he => he)
    rintro r s1 ⟨hr, h1⟩
    rw [if_neg hc] at hr
    rw [List.append_nil] at h1
    refine Or.inr ⟨hc, hr, h1.cell, h.of_iterating h1 fun y hy => ?_⟩
    split_ifs at hy
    · exact takenRefs_valid _ _ y hy
    · simp at hy

/-- A new iterator that is asked once says whether an arc of its list matches. -/
theorem nextOnce_wp (h : SetReady env.thread st) (ctx : ScContext)
    (hp : params.arcs = some (d, anchor)) (hc : params.Creatable st.cell ctx)
    (h1 : Iterating env st.locks [] st.cell st.refCount params.fixed s) :
    Wp (nextOnce env (params.fresh ctx))
      (fun r s' => (r = true ↔ ∃ y ∈ arcList st.cell d anchor, params.Matches st.cell ctx y) ∧
        s'.cell = st.cell ∧ SetReady env.thread s')
      (fun _ => ¬ CreateRoom st params) s := by
  have hset := undisturbed_of_storeOk h.store
  have hanchor := (hc anchor (mem_fixed_anchor hp)).1
  have hchain := h.store.cells.arcs.arcList (d := d) hanchor
  have hE : ∀ y ∈ arcList st.cell d anchor,
      4294967295 ≤ st.refCount y+(params.fixed ++ []).count y+1 → ∀ _ : ScStop,
        ¬ CreateRoom st params := by
    intro y _ hlimit _ hroom
    have hlt := hroom.1 y
    have hle := count_fixed_le_two hp y
    rw [List.append_nil] at hlimit
    omega
  have hheld : Iterating env st.locks [] st.cell st.refCount
      ((params.fresh ctx).held ++ (params.skipped st.cell ctx [] ++ [])) s := by
    rw [held_fresh]
    simpa [Iterator3Params.skipped] using h1
  unfold nextOnce
  rw [wp_bind]
  apply wp_mono (next_wp hset h.store.cells.arcs hp hanchor (standing_fresh hp) hE hheld _) _
    (fun _ he => he)
  intro r s2 hadv
  have hlist := hadv.standing.list d anchor hp
  have hlive : ∀ y ∈ r.2.held, Live st.cell y := by
    rw [hlist] at hchain
    exact held_live hchain hadv.standing fun y hy => (hc y hy).1
  rw [wp_bind]
  apply wp_mono (free_wp hset hlive hadv.counts) _ (fun _ he => he)
  intro _ s3 h3
  refine ⟨?_, h3.cell, h.of_iterating h3 fun y hy => ?_⟩
  · rw [hadv.found, List.find?_isSome]
    simp only [Iterator3Params.matching, decide_eq_true_eq]
  · -- the arcs that were passed over
    rw [List.append_nil] at hy
    have hmem := (List.mem_filter.mp hy).1
    rw [List.nil_append] at hmem
    exact ((hchain.mem y).mp (visited_subset _ _ y hmem)).1.1

/-! The states that a single thread reaches. -/

theorem refsHeld_step {thread : ℕ} {e : StoreEvent} (hok : StoreOk thread st)
    (hs : OwnStep thread st e s) (h : RefsHeld st []) : RefsHeld s [] := by
  obtain ⟨env, action⟩ := e
  have hstart := holds_start env.thread st hok.wf.1 hok.wf.2
  have hstep : action.run env st = .ok ((), s) := hs.step
  cases action with
  | call c => exact (step_effect hok.wf hok.cells (.call c) hs.allowed hs.step).refsHeld hok.cells hs.allowed h
  | ref a =>
    obtain ⟨hcount, hset, _⟩ := wp_ok (elementRef_wp hstart a) hstep
    exact (h.take hcount.positive hset).mono fun y => by simp
  | unref a =>
    have hwp := wp_mono (elementUnref_wp hstart a) (fun _ _ hq => hq) (fun _ _ => trivial)
    obtain ⟨_, hcount, _, hun, _⟩ := ignoreResult_ok hwp hstep
    -- the reference that is given back is one besides the element's own
    have hone : RefsHeld st [a] := by
      refine ⟨fun y => ?_, h.free⟩
      have hy := h.count y
      by_cases hya : y = a
      · subst hya
        have hallow : Live st.cell y → 2 ≤ st.refCount y := hs.allowed
        have hpos := hcount.positive
        rw [List.count_cons_self]
        split_ifs with hl
        · have htwo := hallow hl
          simpa using htwo
        · simp
          omega
      · rw [List.count_cons_of_ne (Ne.symm hya)]
        exact hy
    exact hone.drop hun
  | lock a => exact h.of_unlocked ((readOnly_lock env a).unlocked hstep)
  | unlock a =>
    have hkeep := readOnly_unlock env a st st rfl
    exact h.of_unlocked (wp_ok (Q := fun _ s => s.unlocked = st.unlocked) hkeep hstep)

theorem setReady_empty (thread : ℕ) : SetReady thread ScStorage.empty := by
  refine ⟨storeOk_empty thread, ⟨fun a => ?_, fun a => ?_⟩, arcsAged_empty⟩
  · have hdead : ¬ Live ScStorage.empty.cell a := by
      unfold Live
      rw [cells_empty]
      decide
    rw [if_neg hdead]
    rfl
  · rw [cells_empty]
    exact iff_of_true rfl rfl

theorem ownRun_setReady {thread : ℕ} (evs : List StoreEvent) (st : ScStorage)
    (hr : Run (OwnStep thread) ScStorage.empty evs st) : SetReady thread st := by
  apply run_invariant (SetReady thread) _ evs _ st (setReady_empty thread) hr
  intro s e s' hs hstep
  obtain ⟨env, action⟩ := e
  have heff := step_effect hs.store.wf hs.store.cells action hstep.allowed hstep.step
  exact ⟨storeOk_step s _ s' hs.store hstep, refsHeld_step hs.store hstep hs.refs,
    heff.arcsAged hs.store.cells hstep.allowed hs.aged⟩

/-! Release of an iterator whose arc may be dead. -/

theorem Unrefed.sameLive (h : Unrefed st a s) (htwo : Live st.cell a → 2 ≤ st.refCount a) :
    SameLive st.cell s.cell := ⟨h.live_iff htwo, h.same htwo⟩

section
variable {L : SectionKey → LockWord} {as held : List ScAddr}

theorem unrefElements_used (hown : ∀ k, Lockable env.thread (L k)) (l : List ScAddr)
    (hne : ∀ y ∈ l, y ≠ ScAddr.empty) (h : Tracked env L as (l ++ held) st) :
    Wp (unrefElements env l) (fun _ s => SameLive st.cell s.cell ∧ Tracked env L as held s) E st := by
  induction l generalizing st with
  | nil => exact ⟨SameLive.of_cell rfl, h⟩
  | cons y l ih =>
    unfold unrefElements
    rw [wp_bind]
    apply wp_mono (unref_used hown h (hne y List.mem_cons_self)) _ (fun _ he => he)
    rintro _ s1 ⟨hun, h1⟩
    apply wp_mono (ih (fun z hz => hne z (List.mem_cons_of_mem _ hz)) h1) _ (fun _ he => he)
    rintro _ s2 ⟨hsame, h2⟩
    exact ⟨(hun.sameLive h.refs.two).trans hsame, h2⟩

theorem free_used (hown : ∀ k, Lockable env.thread (L k))
    (hne : ∀ y ∈ it.params.fixed, y ≠ ScAddr.empty) (h : Tracked env L [] (it.held ++ held) st) :
    Wp (scIterator3Free env it) (fun _ s => SameLive st.cell s.cell ∧ Tracked env L [] held s) E st := by
  unfold ScIterator3.held at h
  unfold scIterator3Free
  cases hcur : it.currentArc with
  | none =>
    rw [hcur, Option.toList_none, List.append_nil] at h
    exact unrefElements_used hown _ hne h
  | some y =>
    have hy : y ≠ ScAddr.empty := by
      unfold ScIterator3.currentArc at hcur
      split_ifs at hcur with hstand
      rw [← Option.some.inj hcur]
      exact hstand.2
    have h' : Tracked env L [] (y :: (it.params.fixed ++ held)) st := by
      apply h.mono
      intro z
      rw [hcur]
      simp only [Option.toList_some, List.count_append, List.count_cons, List.count_nil]
      omega
    unfold dropCurrentArc
    simp only [wp_bind]
    apply wp_mono (lock_used hown h' (h'.refs.type_ne List.mem_cons_self)) _ (fun _ he => he)
    rintro r s1 ⟨hr, hu1, h1⟩
    simp only [hr, Bool.not_true, Bool.false_eq_true, if_false, wp_bind]
    apply wp_mono (unref_used hown h1 hy) _ (fun _ he => he)
    rintro _ s2 ⟨hun, h2⟩
    apply wp_mono (unlock_used h2) _ (fun _ he => he)
    rintro _ s3 ⟨hu3, h3⟩
    apply wp_mono (unrefElements_used hown _ hne h3) _ (fun _ he => he)
    rintro _ s4 ⟨hsame, h4⟩
    have hsame1 := SameLive.of_cell (cell_of_unlocked hu1)
    have hsame3 := SameLive.of_cell (cell_of_unlocked hu3)
    exact ⟨((hsame1.trans (hun.sameLive h1.refs.two)).trans hsame3).trans hsame, h4⟩

end

/-! The calls. -/

theorem mem_membershipArcs {c : Cells} {b y : ScAddr} : y ∈ membershipArcs (graphOf c) b x ↔
    LiveArc c y ∧ ownerOf c .out y = b ∧ ownerOf c .inp y = x ∧
      HasType c y ScType.edgeAccessConstPosPerm := by
  unfold membershipArcs
  rw [Set.mem_ofPred_eq, ends_iff]
  constructor
  · rintro ⟨⟨hy, hb, hx⟩, l, hl, htype⟩
    rw [label_of_live hy.1] at hl
    rw [← Option.some.inj hl] at htype
    exact ⟨hy, hb, hx, htype⟩
  · rintro ⟨hy, hb, hx, htype⟩
    exact ⟨⟨hy, hb, hx⟩, _, label_of_live hy.1, htype⟩

/-- Both ends of a membership arc are elements. -/
theorem IsMember.elements {g : StoreGraph} {b : ScAddr} (hg : g.Closed) (h : IsMember g b x) :
    b ∈ g.elements ∧ x ∈ g.elements := by
  obtain ⟨y, hy, _⟩ := h
  exact (hg y _ hy).2

/-- A context with all rights comes to exactly the membership arcs. -/
theorem searched_iff (hc : CellsOk st) (hctx : Agent.FullAccess set.context) :
    ((set.searched x).Creatable st.cell set.context ∧
      ∃ y ∈ arcList st.cell .inp x, (set.searched x).Matches st.cell set.context y) ↔
      IsMember (graphOf st.cell) set.addr x := by
  constructor
  · rintro ⟨hcreate, y, hy, hmatch⟩
    have hx : Live st.cell x := (hcreate x (by simp [ScSet.searched, Iterator3Params.fixed])).1
    obtain ⟨harc, howner⟩ := ((hc.arcs.arcList hx).mem y).mp hy
    exact ⟨y, mem_membershipArcs.mpr ⟨harc, hmatch.1, howner, hmatch.2.1⟩⟩
  · intro hmem
    obtain ⟨hb, hx⟩ := hmem.elements (graphOf_closed hc.arcs)
    rw [mem_graphOf] at hb hx
    obtain ⟨y, hy⟩ := hmem
    obtain ⟨harc, hbeg, hend, htype⟩ := mem_membershipArcs.mp hy
    refine ⟨fun z hz => ⟨?_, Agent.canRead_full hctx _ z⟩, y, ?_, hbeg, htype,
      Agent.canRead_full hctx _ y⟩
    · simp only [ScSet.searched, Iterator3Params.fixed, List.mem_cons, List.not_mem_nil,
        or_false] at hz
      rcases hz with rfl | rfl
      · exact hb
      · exact hx
    · exact ((hc.arcs.arcList hx).mem y).mpr ⟨harc, hend⟩

theorem hasElement_wp (h : SetReady env.thread st) (hctx : Agent.FullAccess set.context) (x : ScAddr) :
    Wp (set.hasElement env x)
      (fun r s => (r = true ↔ IsMember (graphOf st.cell) set.addr x) ∧ s.cell = st.cell ∧
        SetReady env.thread s)
      (fun _ => ¬ CreateRoom st (set.searched x)) st := by
  have hsearched := searched_iff (x := x) h.store.cells hctx
  unfold ScSet.hasElement scHelperCheckArc
  rw [wp_bind]
  apply wp_mono (create_ready h set.context (set.searched x)) _ (fun _ he => he)
  rintro r s1 (⟨hc, rfl, h1⟩ | ⟨hc, rfl, hcell, h1⟩)
  · apply wp_mono (nextOnce_wp h set.context (show (set.searched x).arcs = some (.inp, x) from rfl) hc h1) _
      (fun _ he => he)
    rintro r s ⟨hr, hrest⟩
    refine ⟨?_, hrest⟩
    rw [hr, ← hsearched, and_iff_right hc]
  · refine ⟨iff_of_false Bool.false_ne_true fun hm => hc (hsearched.mpr hm).1, hcell, h1⟩

theorem checkWrite_full (h : Agent.FullAccess ctx) (levels : ScAccessLevels) :
    scAccessLvlCheckWrite ctx.accessLevels levels = true :=
  Agent.canWrite_full h (fun _ => { ScElement.zero with accessLevels := levels }) ScAddr.empty

/-- With all rights an iterator is made where its elements are there. -/
theorem creatable_full (hctx : Agent.FullAccess ctx) :
    params.Creatable st.cell ctx ↔ ∀ z ∈ params.fixed, z ∈ (graphOf st.cell).elements := by
  constructor
  · intro hc z hz
    exact mem_graphOf.mpr (hc z hz).1
  · intro hall z hz
    exact ⟨mem_graphOf.mp (hall z hz), Agent.canRead_full hctx _ z⟩

theorem iterates_found {there : Prop} {P : Bool → Prop} {asserts b : Bool} (ht : there) (hb : P b) :
    Iterates asserts there P (.ok b) := Or.inr ⟨fun _ => ht, b, rfl, hb⟩

theorem iterates_null {there : Prop} {P : Bool → Prop} {asserts b : Bool} (ht : ¬ there) (hb : P b) :
    Iterates asserts there P (nextOfNull asserts b) := by
  cases asserts with
  | true => exact Or.inl ⟨rfl, ht, rfl⟩
  | false => exact Or.inr ⟨nofun, b, rfl, hb⟩

theorem isEmpty_wp (h : SetReady env.thread st) (hctx : Agent.FullAccess set.context) (asserts : Bool) :
    IfReturns (set.isEmpty env asserts)
      (fun r s => Iterates asserts (set.addr ∈ (graphOf st.cell).elements)
          (fun b => b = true ↔ ∀ x, ¬ IsMember (graphOf st.cell) set.addr x) r ∧ s.cell = st.cell ∧
        SetReady env.thread s) st := by
  have hp : (Iterator3Params.faa set.addr ScType.edgeAccessConstPosPerm 0).arcs =
      some (.out, set.addr) := rfl
  have hthere := @creatable_full st _ (.faa set.addr ScType.edgeAccessConstPosPerm 0) hctx
  simp only [Iterator3Params.fixed, List.mem_singleton, forall_eq] at hthere
  unfold ScSet.isEmpty
  rw [IfReturns, wp_bind]
  apply wp_mono (create_ready h set.context (.faa set.addr ScType.edgeAccessConstPosPerm 0)) _
    (fun _ _ => trivial)
  rintro r s1 (⟨hc, rfl, h1⟩ | ⟨hc, rfl, hcell, h1⟩)
  · simp only [wp_bind]
    apply wp_mono (nextOnce_wp h set.context hp hc h1) _ (fun _ _ => trivial)
    rintro r s ⟨hr, hrest⟩
    refine ⟨iterates_found (hthere.mp hc) ?_, hrest⟩
    have hfound : r = true ↔ ∃ x, IsMember (graphOf st.cell) set.addr x := by
      rw [hr]
      constructor
      · rintro ⟨y, hy, htype, -⟩
        obtain ⟨harc, hbeg⟩ := ((h.store.cells.arcs.arcList (mem_graphOf.mp (hthere.mp hc))).mem y).mp hy
        exact ⟨_, y, mem_membershipArcs.mpr ⟨harc, hbeg, rfl, htype⟩⟩
      · rintro ⟨x, y, hy⟩
        obtain ⟨harc, hbeg, _, htype⟩ := mem_membershipArcs.mp hy
        refine ⟨y, ((h.store.cells.arcs.arcList (mem_graphOf.mp (hthere.mp hc))).mem y).mpr ⟨harc, hbeg⟩,
          htype, ?_, Agent.canRead_full hctx _ _, Agent.canRead_full hctx _ _⟩
        exact BitVec.zero_and
    rw [← not_exists, ← hfound]
    cases r <;> simp
  · refine ⟨iterates_null (fun ht => hc (hthere.mpr ht)) (iff_of_true rfl fun x hm => ?_), hcell, h1⟩
    exact hc (hthere.mpr (hm.elements (graphOf_closed h.store.cells.arcs)).1)

/-- A new arc of a set. -/
theorem arcNew_ready (h : SetReady env.thread st) (b e : ScAddr) :
    IfReturns (scStorageArcNew env set.context ScType.edgeAccessConstPosPerm b e)
      (fun a s => SetReady env.thread s ∧
        ((a = ScAddr.empty ∧ graphOf s.cell = graphOf st.cell ∧
            ¬ (b ∈ (graphOf st.cell).elements ∧ e ∈ (graphOf st.cell).elements)) ∨
          (a ≠ ScAddr.empty ∧ a ∉ (graphOf st.cell).elements ∧
            (b ∈ (graphOf st.cell).elements ∧ e ∈ (graphOf st.cell).elements) ∧
            graphOf s.cell = set.addArc (graphOf st.cell) a b e))) st := by
  have htype : arcTypeOf ScType.edgeAccessConstPosPerm = ScType.edgeAccessConstPosPerm := by decide
  have hlink : ScType.edgeAccessConstPosPerm &&& scTypeLink = 0 := by decide
  have hready := setReady_call (f := scStorageArcNew env set.context ScType.edgeAccessConstPosPerm b e)
    (.arcNew set.context ScType.edgeAccessConstPosPerm b e) rfl hlink h
  apply wp_mono (wp_and hready
    (arcNew_answer h.store ScType.edgeAccessConstPosPerm b e hlink)) _ (fun _ _ => trivial)
  rintro a s ⟨hs, hcreates, _⟩
  refine ⟨hs, ?_⟩
  rcases hcreates with ⟨hno, ha, hg⟩ | ⟨hends, ha, hnew, hg⟩
  · exact Or.inl ⟨ha, hg, hno⟩
  · refine Or.inr ⟨ha, hnew, hends, ?_⟩
    rw [hg, htype]
    rfl

theorem append_wp (h : SetReady env.thread st) (hctx : Agent.FullAccess set.context) (x : ScAddr) :
    IfReturns (set.append env x)
      (fun r s => Appends (graphOf st.cell) set x none r (graphOf s.cell) ∧ SetReady env.thread s)
      st := by
  unfold ScSet.append
  rw [IfReturns, wp_bind]
  apply wp_mono (hasElement_wp h hctx x) _ (fun _ _ => trivial)
  rintro r s1 ⟨hr, hcell1, h1⟩
  cases r with
  | true => exact ⟨Or.inr ⟨rfl, by rw [hcell1], Or.inl (hr.mp rfl)⟩, h1⟩
  | false =>
    have hno : ¬ IsMember (graphOf st.cell) set.addr x := fun hm => absurd (hr.mpr hm) (by decide)
    simp only [Bool.false_eq_true, if_false, wp_bind]
    apply wp_mono (arcNew_ready h1 set.addr x) _ (fun _ _ => trivial)
    rintro a s2 ⟨h2, hnew⟩
    rw [hcell1] at hnew
    refine ⟨?_, h2⟩
    rcases hnew with ⟨rfl, hg, hends⟩ | ⟨ha, hfresh, hends, hg⟩
    · exact Or.inr ⟨by simp, hg, Or.inr (by tauto)⟩
    · exact Or.inl ⟨by simpa using ha, hno, hends.1, hends.2, a, hfresh, hg⟩

theorem appendWithAttr_wp (h : SetReady env.thread st) (hctx : Agent.FullAccess set.context)
    (order : HashOrder) (x attr : ScAddr) :
    IfReturns (set.appendWithAttr env order x attr)
      (fun r s => Appends (graphOf st.cell) set x (some attr) r (graphOf s.cell) ∧
        SetReady env.thread s) st := by
  unfold ScSet.appendWithAttr
  rw [IfReturns, wp_bind]
  apply wp_mono (hasElement_wp h hctx x) _ (fun _ _ => trivial)
  rintro r s1 ⟨hr, hcell1, h1⟩
  cases r with
  | true => exact ⟨Or.inr ⟨rfl, by rw [hcell1], Or.inl (hr.mp rfl)⟩, h1⟩
  | false =>
    have hno : ¬ IsMember (graphOf st.cell) set.addr x := fun hm => absurd (hr.mpr hm) (by decide)
    simp only [Bool.false_eq_true, if_false, wp_bind]
    apply wp_mono (arcNew_ready h1 set.addr x) _ (fun _ _ => trivial)
    rintro a s2 ⟨h2, hnew⟩
    rw [hcell1] at hnew
    rcases hnew with ⟨rfl, hg, hends⟩ | ⟨ha, hfresh, hends, hg⟩
    · exact ⟨Or.inr ⟨rfl, hg, Or.inr (by tauto)⟩, h2⟩
    simp only [ha, if_false, wp_bind]
    apply wp_mono (arcNew_ready h2 attr a) _ (fun _ _ => trivial)
    rintro b s3 ⟨h3, hnew3⟩
    rw [hg] at hnew3
    rcases hnew3 with ⟨rfl, hg3, hends3⟩ | ⟨hb, hfresh3, hends3, hg3⟩
    · -- the attribute is no element, and the first arc is erased again
      simp only [ne_eq, not_true_eq_false, if_false, wp_bind]
      have hclosed := graphOf_closed h.store.cells.arcs
      have hmem : a ∈ (set.addArc (graphOf st.cell) a set.addr x).elements :=
        ElementGraph.mem_put.mpr (Or.inl rfl)
      have hattr : attr ∉ (graphOf st.cell).elements := by
        intro hin
        exact hends3 ⟨ElementGraph.mem_put.mpr (Or.inr hin), hmem⟩
      have hready := setReady_call (f := scStorageElementFree env set.context order a)
        (.elementFree set.context order a) rfl trivial h3
      apply wp_mono (wp_and hready (elementFree_answer h3.store order a)) _
        (fun _ _ => trivial)
      rintro r s4 ⟨h4, hdel⟩
      refine ⟨Or.inr ⟨rfl, ?_, Or.inr (Or.inr (Or.inr ⟨attr, rfl, hattr⟩))⟩, h4⟩
      rw [hg3] at hdel
      rcases hdel with ⟨hgone, -⟩ | ⟨-, -, -, y, -, hden⟩ | ⟨-, -, hdel, -⟩
      · exact absurd hmem hgone
      · have hmay : (set.addArc (graphOf st.cell) a set.addr x).MayWrite set.context y :=
          fun l _ => checkWrite_full hctx l.accessLevels
        exact absurd hmay hden
      · rw [hdel]
        apply ElementGraph.put_delete hclosed hfresh
        intro q hq
        rw [← Option.some.inj hq]
        exact hends
    · simp only [ne_eq, hb, not_false_eq_true, if_true, wp_pure]
      exact ⟨Or.inl ⟨rfl, hno, hends.1, hends.2, a, hfresh, b, hfresh3, hg3⟩, h3⟩

/-- The arcs to `x` are erased, and nothing else but what hangs on them. -/
theorem remove_wp (h : SetReady env.thread st) (hctx : Agent.FullAccess set.context) (asserts : Bool)
    (order : ScAddr → HashOrder) (x : ScAddr) :
    Wp (set.remove env asserts order x)
      (fun r s => (Iterates asserts (set.addr ∈ (graphOf st.cell).elements ∧ x ∈ (graphOf st.cell).elements)
          (fun b => b = true ↔ IsMember (graphOf st.cell) set.addr x) r ∧ graphOf s.cell =
            (graphOf st.cell).deleteAll (membershipArcs (graphOf st.cell) set.addr x)) ∧
        SetReady env.thread s)
      (fun _ => ¬ CreateRoom st (set.searched x)) st := by
  have hsearched := searched_iff (x := x) h.store.cells hctx
  have hthere := @creatable_full st _ (set.searched x) hctx
  simp only [ScSet.searched, Iterator3Params.fixed, List.forall_mem_cons, List.not_mem_nil,
    false_imp_iff, implies_true, and_true] at hthere
  have hmembers (y : ScAddr) : y ∈ membershipArcs (graphOf st.cell) set.addr x ↔
      LiveArc st.cell y ∧ ownerOf st.cell .inp y = x ∧
        (set.searched x).matching st.cell set.context y = true := by
    rw [mem_membershipArcs, Iterator3Params.matching, decide_eq_true_eq]
    constructor
    · rintro ⟨hy, hb, hx, htype⟩
      exact ⟨hy, hx, hb, htype, Agent.canRead_full hctx _ y⟩
    · rintro ⟨hy, hx, hb, htype, -⟩
      exact ⟨hy, hb, hx, htype⟩
  unfold ScSet.remove
  rw [wp_bind]
  apply wp_mono (create_ready h set.context (set.searched x)) _ (fun _ he => he)
  rintro r s1 (⟨hc, rfl, h1⟩ | ⟨hc, rfl, hcell, h1⟩)
  · have hfixed (z : ScAddr) (hz : z ∈ (set.searched x).fixed) : Live st.cell z := (hc z hz).1
    have hx : Live st.cell x := hfixed x (by simp [ScSet.searched, Iterator3Params.fixed])
    have hlist := h.store.cells.arcs.arcList (d := .inp) hx
    have htracked : Tracked env st.locks [] (((set.searched x).fresh set.context).held ++ []) s1 := by
      rw [held_fresh]
      exact h1.tracked h.tracked fun y hy => type_of_live (hfixed y hy)
    have hx1 : Live s1.cell x := h1.live hx
    have hage1 : ArcsAged s1.cell := by
      rw [h1.cell]
      exact h.aged
    have hbefore : ((set.searched x).fresh set.context).Before s1.cell .inp x
        (arcList st.cell .inp x) := by
      refine ⟨by rw [h1.cell], ?_⟩
      rw [h1.cell]
      exact hlist.first
    have hroom : ∀ y ∈ arcList st.cell .inp x, ¬ HasRoom s1 y → ∀ _ : ScStop,
        ¬ CreateRoom st (set.searched x) := by
      intro y _ hfull _ hroom
      have hlt := hroom.1 y
      have hle := count_fixed_le_two
        (show (set.searched x).arcs = some (.inp, x) from rfl) y
      apply hfull
      unfold HasRoom
      rw [h1.refCount]
      omega
    have hlen : (arcList st.cell .inp x).length < walkFuel := by
      have hle := length_le_of_nodup_addrs _ hlist.nodup
      unfold walkFuel
      omega
    simp only [wp_bind]
    apply wp_mono (removeLoop_wp set order h.store.own hctx walkFuel hlen false rfl rfl rfl hx1 hage1
      hbefore hroom htracked) _ (fun _ he => he)
    rintro r s2 ⟨hfound, hgraph, hage2, hparams, h2⟩
    have hne : ∀ y ∈ r.2.params.fixed, y ≠ ScAddr.empty := by
      rw [hparams]
      rintro y hy rfl
      exact h.store.cells.arcs.notEmpty (hfixed _ hy)
    apply wp_mono (free_used h.store.own hne h2) _ (fun _ he => he)
    rintro _ s3 ⟨hsame, h3⟩
    refine ⟨⟨iterates_found (hthere.mp hc) ?_, ?_⟩, h.of_tracked h3 (hsame.arcsAged h2.cells h3.cells hage2)⟩
    · rw [hfound, h1.cell, Bool.false_or, List.any_eq_true, ← hsearched]
      simp only [hc, true_and, Iterator3Params.matching, decide_eq_true_eq]
    · rw [hsame.graphOf_eq, hgraph, h1.cell]
      congr 1
      ext y
      rw [Set.mem_ofPred_eq, List.mem_filter, hlist.mem, hmembers, and_assoc]
  · -- without both elements there is no arc
    have hnone : ¬ IsMember (graphOf st.cell) set.addr x := fun hm => hc (hsearched.mpr hm).1
    refine ⟨⟨iterates_null (fun ht => hc (hthere.mpr ht)) (iff_of_false Bool.false_ne_true hnone), ?_⟩, h1⟩
    rw [hcell, Set.not_nonempty_iff_eq_empty.mp hnone, ElementGraph.deleteAll_empty]

/-- What a call answers and leaves is as specified. -/
theorem setCall_specified (h : SetReady env.thread st) (hctx : Agent.FullAccess set.context) (asserts : Bool)
    (call : SetCall) :
    IfReturns (call.run env asserts set)
      (fun r s => SetSpecified asserts (graphOf st.cell) set call r (graphOf s.cell) ∧
        SetReady env.thread s) st := by
  have hreturned {f : StoreM Bool} {Q : Bool → ScStorage → Prop} (hf : IfReturns f Q st) :
      IfReturns (returned f) (fun r s => ∃ b, r = .ok b ∧ Q b s) st := by
    unfold returned
    rw [IfReturns, wp_bind]
    exact wp_mono hf (fun b s hq => ⟨b, rfl, hq⟩) (fun _ _ => trivial)
  cases call with
  | hasElement x =>
    apply wp_mono (hreturned (wp_mono (hasElement_wp h hctx x) (fun _ _ hq => hq) (fun _ _ => trivial))) _
      (fun _ _ => trivial)
    rintro _ s ⟨b, rfl, hr, hcell, hs⟩
    exact ⟨⟨b, rfl, hr, by rw [hcell]⟩, hs⟩
  | append x =>
    apply wp_mono (hreturned (append_wp h hctx x)) _ (fun _ _ => trivial)
    rintro _ s ⟨b, rfl, hr, hs⟩
    exact ⟨⟨b, rfl, hr⟩, hs⟩
  | appendWithAttr order x attr =>
    apply wp_mono (hreturned (appendWithAttr_wp h hctx order x attr)) _ (fun _ _ => trivial)
    rintro _ s ⟨b, rfl, hr, hs⟩
    exact ⟨⟨b, rfl, hr⟩, hs⟩
  | remove order x =>
    exact wp_mono (remove_wp h hctx asserts order x) (fun _ _ hq => hq) (fun _ _ => trivial)
  | isEmpty =>
    apply wp_mono (isEmpty_wp h hctx asserts) _ (fun _ _ => trivial)
    rintro r s ⟨hr, hcell, hs⟩
    exact ⟨⟨hr, by rw [hcell]⟩, hs⟩

end

/-! Runs of calls. -/

structure SetObservation where
  env : ScEnv
  call : SetCall
  answer : Except ScException Bool

structure SetStep (thread : ℕ) (asserts : Bool) (set : ScSet) (st : ScStorage) (o : SetObservation)
    (st' : ScStorage) : Prop where
  thread_eq : o.env.thread = thread
  step : o.call.run o.env asserts set st = .ok (o.answer, st')

def SpecifiedSetStep (asserts : Bool) (set : ScSet) (g : StoreGraph) (o : SetObservation) (g' : StoreGraph) :
    Prop :=
  SetSpecified asserts g set o.call o.answer g'

/-- The elements of `kept` are still there after the call. -/
structure SparingStep (thread : ℕ) (asserts : Bool) (set : ScSet) (kept : Set ScAddr) (st : ScStorage)
    (o : SetObservation) (st' : ScStorage) : Prop where
  step : SetStep thread asserts set st o st'
  kept : ∀ y ∈ kept, y ∈ (graphOf st'.cell).elements

/-- Whether `x` is a member after a call, if `p` says whether it was one before. -/
def SetCall.memberAfter (x : ScAddr) (answer : Except ScException Bool) (p : Prop) : SetCall → Prop
  | .append y | .appendWithAttr _ y _ => p ∨ (answer = .ok true ∧ x = y)
  | .remove _ y => p ∧ x ≠ y
  | .hasElement _ | .isEmpty => p

/-- Whether `x` has been appended and not removed since. -/
def memberAfter (x : ScAddr) (os : List SetObservation) (p : Prop) : Prop :=
  os.foldl (fun p o => o.call.memberAfter x o.answer p) p

/-- An element that no call of a set takes away: it is no arc, or the calls spare it. -/
def Remains (g : StoreGraph) (kept : Set ScAddr) (y : ScAddr) : Prop :=
  y ∈ g.elements ∧ (g.ends y = none ∨ y ∈ kept)

section
variable {g g' : StoreGraph} {set : ScSet} {a b e s x y z : ScAddr} {attr : Option ScAddr} {r asserts : Bool}
  {kept : Set ScAddr}

theorem isMember_addArc (ha : a ∉ g.elements) :
    IsMember (set.addArc g a b e) s x ↔ IsMember g s x ∨ (b = s ∧ e = x) := by
  have hother {y : ScAddr} (hy : y ≠ a) : y ∈ membershipArcs (set.addArc g a b e) s x ↔
      y ∈ membershipArcs g s x := by
    unfold membershipArcs ScSet.addArc ElementGraph.put
    simp only [Set.mem_ofPred_eq, Function.update_of_ne hy]
  constructor
  · rintro ⟨y, hy⟩
    by_cases hya : y = a
    · have hends := hy.1
      unfold ScSet.addArc ElementGraph.put at hends
      rw [hya] at hends
      simp only [Function.update_self, Option.some.injEq, Prod.mk.injEq] at hends
      exact Or.inr hends
    · exact Or.inl ⟨y, (hother hya).mp hy⟩
  · rintro (⟨y, hy⟩ | ⟨rfl, rfl⟩)
    · have hya : y ≠ a := by
        rintro rfl
        obtain ⟨_, l, hl, _⟩ := hy
        rw [ElementGraph.mem_elements, hl] at ha
        exact ha (by simp)
      exact ⟨y, (hother hya).mpr hy⟩
    · refine ⟨a, ?_, ⟨ScType.edgeAccessConstPosPerm, set.context.accessLevels⟩, ?_, ?_⟩
      · exact Function.update_self a _ g.ends
      · exact Function.update_self a _ g.label
      · exact BitVec.and_self

theorem JoinsSet.isMember (h : JoinsSet g set x attr g') (hz : z ∈ g.elements) :
    IsMember g' set.addr z ↔ IsMember g set.addr z ∨ z = x := by
  cases attr with
  | none =>
    obtain ⟨a, ha, rfl⟩ := h
    rw [isMember_addArc ha]
    simp only [true_and, eq_comm]
  | some y =>
    obtain ⟨a, ha, b, hb, rfl⟩ := h
    rw [isMember_addArc hb, isMember_addArc ha]
    -- the arc of the attribute ends in the new arc, which is not `z`
    have haz : a ≠ z := fun he => ha (he ▸ hz)
    simp only [true_and, haz, and_false, or_false, eq_comm]

theorem isMember_deleteAll (hset : set.addr ∈ (g.deleteAll (membershipArcs g set.addr x)).elements)
    (hz : z ∈ (g.deleteAll (membershipArcs g set.addr x)).elements) :
    IsMember (g.deleteAll (membershipArcs g set.addr x)) set.addr z ↔
      IsMember g set.addr z ∧ z ≠ x := by
  have hwithin := ElementGraph.deleteAll_within g (membershipArcs g set.addr x)
  have hlabel {y : ScAddr} {l : ElementLabel}
      (hl : (g.deleteAll (membershipArcs g set.addr x)).label y = some l) :
      y ∈ (g.deleteAll (membershipArcs g set.addr x)).elements := by
    rw [ElementGraph.mem_elements, hl]
    simp
  constructor
  · rintro ⟨y, hends, l, hl, htype⟩
    have hy := hlabel hl
    obtain ⟨hlabel', hends'⟩ := hwithin y hy
    rw [hlabel'] at hl
    rw [hends'] at hends
    refine ⟨⟨y, hends, l, hl, htype⟩, ?_⟩
    rintro rfl
    exact (ElementGraph.mem_deleteAll.mp hy).2 y ⟨hends, l, hl, htype⟩ .refl
  · rintro ⟨⟨y, hends, l, hl, htype⟩, hne⟩
    have hy : y ∈ (g.deleteAll (membershipArcs g set.addr x)).elements := by
      refine ElementGraph.mem_deleteAll.mpr ⟨?_, fun a ha hdep => ?_⟩
      · rw [ElementGraph.mem_elements, hl]
        simp
      · -- the arc would go because one of its ends goes
        cases hdep with
        | refl =>
          have hsame := ha.1.symm.trans hends
          rw [Option.some.injEq, Prod.mk.injEq] at hsame
          exact hne hsame.2.symm
        | arc _ w hw hinc =>
          obtain ⟨p, hp, hend⟩ := hinc
          rw [hends, Option.some.injEq] at hp
          subst hp
          rcases hend with rfl | rfl
          · exact (ElementGraph.mem_deleteAll.mp hset).2 a ha hw
          · exact (ElementGraph.mem_deleteAll.mp hz).2 a ha hw
    obtain ⟨hlabel', hends'⟩ := hwithin y hy
    exact ⟨y, hends'.trans hends, l, hlabel'.trans hl, htype⟩

/-- One call changes the membership of `x` as its answer says. -/
theorem SetSpecified.isMember {call : SetCall} {answer : Except ScException Bool}
    (h : SetSpecified asserts g set call answer g') (hx : x ∈ g.elements) (hset' : set.addr ∈ g'.elements)
    (hx' : x ∈ g'.elements) :
    IsMember g' set.addr x ↔ call.memberAfter x answer (IsMember g set.addr x) := by
  have happend {y : ScAddr} {attr : Option ScAddr} {r : Bool} (hr : answer = .ok r)
      (happ : Appends g set y attr r g') :
      IsMember g' set.addr x ↔ IsMember g set.addr x ∨ (answer = .ok true ∧ x = y) := by
    subst hr
    rcases happ with ⟨rfl, _, _, _, hjoin⟩ | ⟨rfl, rfl, _⟩
    · rw [hjoin.isMember hx]
      simp
    · simp
  cases call with
  | hasElement y =>
    obtain ⟨_, _, _, rfl⟩ := h
    rfl
  | append y =>
    obtain ⟨r, hr, h⟩ := h
    exact happend hr h
  | appendWithAttr order y attr =>
    obtain ⟨r, hr, h⟩ := h
    exact happend hr h
  | remove order y =>
    obtain ⟨_, rfl⟩ := h
    exact isMember_deleteAll hset' hx'
  | isEmpty => rw [h.2]; rfl

theorem remains_addArc (ha : a ∉ g.elements) (hy : y ∈ g.elements) :
    y ∈ (set.addArc g a b e).elements ∧ (set.addArc g a b e).ends y = g.ends y := by
  refine ⟨ElementGraph.mem_put.mpr (Or.inr hy), ?_⟩
  exact Function.update_of_ne (fun he : y = a => ha (he ▸ hy)) _ _

/-- An element that is no arc survives every call. -/
theorem SetSpecified.remains {call : SetCall} {answer : Except ScException Bool}
    (h : SetSpecified asserts g set call answer g') (hkept : ∀ y ∈ kept, y ∈ g'.elements)
    (hy : Remains g kept y) : Remains g' kept y := by
  have happend {x : ScAddr} {attr : Option ScAddr} {r : Bool} (h : Appends g set x attr r g') :
      y ∈ g'.elements ∧ g'.ends y = g.ends y := by
    rcases h with ⟨_, _, _, _, hjoin⟩ | ⟨_, rfl, _⟩
    · cases attr with
      | none =>
        obtain ⟨a, ha, rfl⟩ := hjoin
        exact remains_addArc ha hy.1
      | some attr =>
        obtain ⟨a, ha, b, hb, rfl⟩ := hjoin
        have hfirst := @remains_addArc _ set _ set.addr x _ ha hy.1
        have hsecond := @remains_addArc _ set _ attr a _ hb hfirst.1
        exact ⟨hsecond.1, hsecond.2.trans hfirst.2⟩
    · exact ⟨hy.1, rfl⟩
  rcases hy.2 with hnone | hin
  · have hsame : y ∈ g'.elements ∧ g'.ends y = g.ends y := by
      cases call with
      | hasElement x =>
        obtain ⟨_, _, _, rfl⟩ := h
        exact ⟨hy.1, rfl⟩
      | append x =>
        obtain ⟨_, _, h⟩ := h
        exact happend h
      | appendWithAttr order x attr =>
        obtain ⟨_, _, h⟩ := h
        exact happend h
      | remove order x =>
        obtain ⟨_, rfl⟩ := h
        have hmem : y ∈ (g.deleteAll (membershipArcs g set.addr x)).elements := by
          refine ElementGraph.mem_deleteAll.mpr ⟨hy.1, fun a ha hdep => ?_⟩
          -- whatever goes with an arc is an arc
          cases hdep with
          | refl => exact absurd (hnone.symm.trans ha.1) (by simp)
          | arc _ w _ hinc =>
            obtain ⟨p, hp, _⟩ := hinc
            exact absurd (hnone.symm.trans hp) (by simp)
        exact ⟨hmem, (ElementGraph.deleteAll_within g _ y hmem).2⟩
      | isEmpty => rw [h.2]; exact ⟨hy.1, rfl⟩
    exact ⟨hsame.1, Or.inl (hsame.2.trans hnone)⟩
  · exact ⟨hkept y hin, Or.inr hin⟩

end

section
variable {thread : ℕ} {asserts : Bool} {set : ScSet} {st st' : ScStorage} {o : SetObservation}
  {kept : Set ScAddr} {x : ScAddr}

theorem SetStep.specified (h : SetStep thread asserts set st o st') (hready : SetReady thread st)
    (hctx : Agent.FullAccess set.context) :
    SetReady thread st' ∧ SpecifiedSetStep asserts set (graphOf st.cell) o (graphOf st'.cell) := by
  obtain ⟨henv, hstep⟩ := h
  subst henv
  have hpost := wp_ok (setCall_specified hready hctx asserts o.call) hstep
  exact ⟨hpost.2, hpost.1⟩

/-- Over a run the membership of an element that remains is what the answers tell. -/
theorem members_of_run (hctx : Agent.FullAccess set.context) (os : List SetObservation)
    (st : ScStorage) (p : Prop) (hready : SetReady thread st)
    (hset : Remains (graphOf st.cell) kept set.addr) (hx : Remains (graphOf st.cell) kept x)
    (hp : IsMember (graphOf st.cell) set.addr x ↔ p)
    (hr : Run (SparingStep thread asserts set kept) st os st') :
    SetReady thread st' ∧ (IsMember (graphOf st'.cell) set.addr x ↔ memberAfter x os p) := by
  induction os generalizing st p with
  | nil =>
    obtain rfl : st' = st := hr
    exact ⟨hready, hp⟩
  | cons o os ih =>
    obtain ⟨m, hm, hr⟩ := hr
    obtain ⟨hready', hspec⟩ := hm.step.specified hready hctx
    have hset' := hspec.remains hm.kept hset
    have hx' := hspec.remains hm.kept hx
    have hstep := hspec.isMember hx.1 hset'.1 hx'.1
    have hp' : IsMember (graphOf m.cell) set.addr x ↔ o.call.memberAfter x o.answer p := by
      rw [hstep, propext hp]
    exact ih m _ hready' hset' hx' hp' hr

end

/-- Any calls of a set, on any store that a single thread reaches, answer and leave what the graph
says, with assertions that throw or without. In particular a removal erases the arcs to the element and
what hangs on them, and nothing else; it ends if there is room for the references that it takes. -/
theorem set_calls_exact (thread : ℕ) (evs : List StoreEvent) (st : ScStorage)
    (hr : Run (OwnStep thread) ScStorage.empty evs st) (asserts : Bool) (set : ScSet)
    (hctx : Agent.FullAccess set.context) (os : List SetObservation) (st' : ScStorage)
    (hos : Run (SetStep thread asserts set) st os st') :
    Run (SpecifiedSetStep asserts set) (graphOf st.cell) os (graphOf st'.cell) ∧
      ∀ env : ScEnv, env.thread = thread → ∀ order x, CreateRoom st' (set.searched x) →
        ∃ r s, set.remove env asserts order x st' = .ok (r, s) := by
  have hready := ownRun_setReady evs st hr
  have hstep (a : ScStorage) (o : SetObservation) (b : ScStorage) (ha : SetReady thread a)
      (hab : SetStep thread asserts set a o b) := hab.specified ha hctx
  refine ⟨run_simulates (SetReady thread) (fun s => graphOf s.cell) hstep os st st' hready hos, ?_⟩
  intro env henv order x hroom
  subst henv
  have hready' := run_invariant (SetReady env.thread) (fun a o b ha hab => (hstep a o b ha hab).1) os st
    st' hready hos
  have hwp := remove_wp hready' hctx asserts order x
  cases hrun : set.remove env asserts order x st' with
  | ok p => exact ⟨p.1, p.2, rfl⟩
  | error e =>
    unfold Wp at hwp
    rw [hrun] at hwp
    exact absurd hroom hwp

def exampleSet : ScSet := ⟨⟨0, 1⟩, exampleContext⟩

/-- An element is put into the set, taken out, and put in again; what is no element cannot be taken out. -/
def setObservations : List SetObservation :=
  [⟨exampleEnv, .append ⟨0, 33⟩, .ok true⟩, ⟨exampleEnv, .remove (fun _ => tableOrder) ⟨0, 33⟩, .ok true⟩,
    ⟨exampleEnv, .append ⟨0, 33⟩, .ok true⟩,
    ⟨exampleEnv, .remove (fun _ => tableOrder) ⟨0, 129⟩, .error .assertion⟩]

def storeAfterSet : ScStorage :=
  Agent.afterCall (exampleSet.remove exampleEnv true (fun _ => tableOrder) ⟨0, 129⟩)
    (Agent.afterCall (returned (exampleSet.append exampleEnv ⟨0, 33⟩))
      (Agent.afterCall (exampleSet.remove exampleEnv true (fun _ => tableOrder) ⟨0, 33⟩)
        (Agent.afterCall (returned (exampleSet.append exampleEnv ⟨0, 33⟩)) storeWithArc)))

theorem storeAfterSet_run : Run (SetStep 1 true exampleSet) storeWithArc setObservations storeAfterSet := by
  refine ⟨_, ⟨rfl, Agent.call_eq (by decide +kernel : Agent.valueOf
    (returned (exampleSet.append exampleEnv ⟨0, 33⟩)) storeWithArc = some (.ok true))⟩, _, ⟨rfl, Agent.call_eq
    (by decide +kernel : Agent.valueOf (exampleSet.remove exampleEnv true (fun _ => tableOrder) ⟨0, 33⟩) _ =
      some (.ok true))⟩, _, ⟨rfl, Agent.call_eq (by decide +kernel : Agent.valueOf
    (returned (exampleSet.append exampleEnv ⟨0, 33⟩)) _ = some (.ok true))⟩, _, ⟨rfl, Agent.call_eq
    (by decide +kernel : Agent.valueOf (exampleSet.remove exampleEnv true (fun _ => tableOrder) ⟨0, 129⟩) _ =
      some (.error .assertion))⟩, rfl⟩

theorem set_calls_exact_storeWithArc :
    Run (SpecifiedSetStep true exampleSet) (graphOf storeWithArc.cell) setObservations
        (graphOf storeAfterSet.cell) ∧
      ∀ env : ScEnv, env.thread = 1 → ∀ order x, CreateRoom storeAfterSet (exampleSet.searched x) →
        ∃ r s, exampleSet.remove env true order x storeAfterSet = .ok (r, s) :=
  set_calls_exact 1 arcEvents storeWithArc storeWithArc_run true exampleSet rfl setObservations
    storeAfterSet storeAfterSet_run

/-- After any calls `HasElement` is true of an element if and only if it has been appended and not
removed since. -/
theorem set_members (thread : ℕ) (evs : List StoreEvent) (st : ScStorage)
    (hr : Run (OwnStep thread) ScStorage.empty evs st) (asserts : Bool) (set : ScSet)
    (hctx : Agent.FullAccess set.context) (kept : Set ScAddr) (x : ScAddr)
    (hset : Remains (graphOf st.cell) kept set.addr) (hx : Remains (graphOf st.cell) kept x)
    (os : List SetObservation) (st' : ScStorage)
    (hos : Run (SparingStep thread asserts set kept) st os st') (env : ScEnv) (henv : env.thread = thread)
    (r : Bool) (s : ScStorage) (hrun : set.hasElement env x st' = .ok (r, s)) :
    r = true ↔ memberAfter x os (IsMember (graphOf st.cell) set.addr x) := by
  subst henv
  obtain ⟨hready, hmember⟩ := members_of_run hctx os st _ (ownRun_setReady evs st hr) hset hx Iff.rfl
    hos
  rw [← hmember]
  exact (wp_ok (hasElement_wp hready hctx x) hrun).1

theorem set_members_storeWithArc :
    memberAfter ⟨0, 33⟩ setObservations (IsMember (graphOf storeWithArc.cell) ⟨0, 1⟩ ⟨0, 33⟩) := by
  have hremains (y : ScAddr) (hlive : Live storeWithArc.cell y) (hno : ¬ LiveArc storeWithArc.cell y) :
      Remains (graphOf storeWithArc.cell) ∅ y :=
    ⟨mem_graphOf.mpr hlive, Or.inl (ends_of_other hno)⟩
  have hrun : Run (SparingStep 1 true exampleSet ∅) storeWithArc setObservations storeAfterSet := by
    obtain ⟨s1, h1, s2, h2, s3, h3, s4, h4, hend⟩ := storeAfterSet_run
    exact ⟨s1, ⟨h1, fun _ hy => hy.elim⟩, s2, ⟨h2, fun _ hy => hy.elim⟩, s3,
      ⟨h3, fun _ hy => hy.elim⟩, s4, ⟨h4, fun _ hy => hy.elim⟩, hend⟩
  exact (set_members 1 arcEvents storeWithArc storeWithArc_run true exampleSet rfl ∅ ⟨0, 33⟩
    (hremains ⟨0, 1⟩ (by decide +kernel) (by decide +kernel))
    (hremains ⟨0, 33⟩ (by decide +kernel) (by decide +kernel)) setObservations storeAfterSet hrun
    exampleEnv rfl true _ (Agent.call_eq (by decide +kernel : Agent.valueOf
      (exampleSet.hasElement exampleEnv ⟨0, 33⟩) storeAfterSet = some true))).mp rfl

end ScMachine.Store
