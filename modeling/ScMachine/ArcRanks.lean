import ScMachine.GenerateSteps

/-! The arcs of a reachable store hang on one another without a circle: an arc is created after its
ends and is not kept without them. -/
namespace ScMachine.Store
open ScMachine.StateExcept ScMachine.Runs

/-- No arc has the bit of a node, and every arc has a greater rank than its ends. -/
structure ArcsRanked (c : Cells) : Prop where
  notNode : ∀ x, LiveArc c x → (c x).type &&& scTypeNode = 0
  ranked : ∃ rank : ScAddr → ℕ, ∀ x d, LiveArc c x → rank (ownerOf c d x) < rank x

section
variable {env : ScEnv} {st st' : ScStorage} {action : StoreAction} {x y : ScAddr} {c : Cells}

theorem ArcsRanked.owner_ne (h : ArcsRanked c) (hx : LiveArc c x) (d : Dir) : ownerOf c d x ≠ x := by
  obtain ⟨rank, hrank⟩ := h.ranked
  intro he
  have hlt := hrank x d hx
  rw [he] at hlt
  omega

/-- No arc is an end of one of its own ends. -/
theorem ArcsRanked.owner_owner_ne (h : ArcsRanked c) (hx : LiveArc c x) (hy : LiveArc c y) {d d' : Dir}
    (hxy : ownerOf c d x = y) : ownerOf c d' y ≠ x := by
  obtain ⟨rank, hrank⟩ := h.ranked
  intro he
  have hlt := hrank x d hx
  have hlt' := hrank y d' hy
  rw [hxy] at hlt
  rw [he] at hlt'
  omega

/-- A live arc after a step was one before it, of the same class and with the same ends, or is the arc
that the step has created. -/
inductive ArcOrigin (env : ScEnv) (st st' : ScStorage) : StoreAction → ScAddr → Prop where
  | kept (action : StoreAction) (y : ScAddr) : LiveArc st.cell y →
      (∀ d, ownerOf st'.cell d y = ownerOf st.cell d y) →
      (st'.cell y).type &&& scTypeNode = (st.cell y).type &&& scTypeNode →
      ArcOrigin env st st' action y
  | created (ctx : ScContext) (type : ScType) (beg end_ y : ScAddr) :
      ArcCreated st type beg end_ ctx.accessLevels y st' →
      ArcOrigin env st st' (.call (.arcNew ctx type beg end_)) y

theorem ArcOrigin.of_cell (h : st'.cell y = st.cell y) (hy : LiveArc st'.cell y) :
    ArcOrigin env st st' action y := by
  apply ArcOrigin.kept
  · unfold LiveArc Live at hy ⊢
    rwa [h] at hy
  · intro d
    unfold ownerOf
    rw [h]
  · rw [h]

theorem ArcOrigin.of_created {el : ScElement} {a : ScAddr} (hel : el.isArc = false)
    (h : Created st a (Function.update st.cell a el) st') (hy : LiveArc st'.cell y) :
    ArcOrigin env st st' action y := by
  have hcell := h.refCount.2.2.2
  by_cases hya : y = a
  · have harc := hy.2
    rw [hcell, hya, Function.update_self, hel] at harc
    exact absurd harc (by decide)
  · apply ArcOrigin.of_cell _ hy
    rw [hcell, Function.update_of_ne hya]

/-- The cell keeps its class, and the words of an arc. -/
theorem ArcOrigin.of_updated {el : ScElement} {fm : FileMemory} {a : ScAddr}
    (h : CellUpdated st a el fm st') (hlive : Live st.cell a)
    (hclass : ∀ bits, bits = scTypeNode ∨ bits = scTypeArcMask →
      el.type &&& bits = (st.cell a).type &&& bits)
    (hdata : (st.cell a).isArc = true → el.data = (st.cell a).data) (hy : LiveArc st'.cell y) :
    ArcOrigin env st st' action y := by
  by_cases hya : y = a
  · subst hya
    have hcell : st'.cell y = el := by rw [h.cell, Function.update_self]
    have hbit := hy.2
    unfold ScElement.isArc at hbit
    rw [hcell, hclass _ (Or.inr rfl)] at hbit
    apply ArcOrigin.kept _ _ ⟨hlive, hbit⟩
    · intro d
      unfold ownerOf ScElement.arc
      rw [hcell, hdata hbit]
    · rw [hcell, hclass _ (Or.inl rfl)]
  · apply ArcOrigin.of_cell _ hy
    rw [h.cell, Function.update_of_ne hya]

theorem Effect.arc_origin (h : Effect env st action st') (hc : CellsOk st) (hy : LiveArc st'.cell y) :
    ArcOrigin env st st' action y := by
  cases h with
  | same _ _ hu => exact ArcOrigin.of_cell (by rw [cell_of_unlocked hu]) hy
  | nodeNew ctx type a _ hm hcr => exact ArcOrigin.of_created (nodeCell_isArc ctx type hm) hcr hy
  | linkNew ctx isConst a _ hcr => exact ArcOrigin.of_created (linkCell_type ctx isConst).2 hcr hy
  | arcNew ctx type beg end_ a _ hcr =>
    by_cases hya : y = a
    · rw [hya]
      exact ArcOrigin.created ctx type beg end_ a hcr
    · have hun := hcr.untouched hc hya
      apply ArcOrigin.kept _ _ (hun.same.liveArc.mp hy) hun.owner
      rw [hun.same.type]
  | freed ctx order a _ hl _ he =>
    have hyD : y ∉ erasedList order st.cell a := fun hD => he.cells.dead y hD hy.1
    have hsame := he.cells.same y hyD
    refine ArcOrigin.kept _ _ ⟨hsame.live.mp hy.1, ?_⟩ hsame.owner ?_
    · rw [← hsame.isArc]
      exact hy.2
    · rw [hsame.type]
  | contentSet ctx a stream _ hl hk hup =>
    apply ArcOrigin.of_updated hup hl _ _ hy
    · rintro bits (rfl | rfl)
      · exact contentCell_type _ _ _ _ (by decide) (by decide)
      · exact contentCell_type _ _ _ _ (by decide) (by decide)
    · intro harc
      rw [hc.oneClass a harc] at hk
      exact absurd hk (by decide)
  | levelsSet ctx a levels _ ha hup =>
    by_cases hya : y = a
    · subst hya
      have hlive : Live st.cell y := by
        have h := hy.1
        unfold Live at h ⊢
        rw [hup.cell, Function.update_self] at h
        exact h
      exact ArcOrigin.of_updated hup hlive (fun _ _ => rfl) (fun _ => rfl) hy
    · apply ArcOrigin.of_cell _ hy
      rw [hup.cell, Function.update_of_ne hya]
  | subtypeChanged ctx a type _ hl hm hup =>
    apply ArcOrigin.of_updated hup hl _ (fun _ => rfl) hy
    rintro bits (rfl | rfl)
    · exact (and_of_mask hm (by decide)).symm
    · exact (and_of_mask hm (by decide)).symm
  | refTaken a _ hb hset => exact ArcOrigin.of_cell (by rw [hset.cell]) hy
  | refDropped a _ hun => exact ArcOrigin.of_cell (hun.live_same y hy.1) hy

theorem wp_always {α : Type} {x : StoreM α} {Q : α → ScStorage → Prop} {E : ScStop → Prop}
    (hQ : ∀ r s, Q r s) (hE : ∀ e, E e) : Wp x Q E st := by
  unfold Wp
  split
  · exact hQ _ _
  · exact hE _

/-- The assertion of `sc_storage_arc_new_ext`. -/
theorem arcNew_notNode {ctx : ScContext} {type : ScType} {beg end_ : ScAddr}
    (hs : StoreStep st ⟨env, .call (.arcNew ctx type beg end_)⟩ st') : scTypeNode &&& type = 0 := by
  have hwp : IfReturns (scStorageArcNew env ctx type beg end_) (fun _ _ => scTypeNode &&& type = 0)
      st := by
    unfold scStorageArcNew scStorageArcNewExt
    rw [IfReturns, wp_bind, wp_scAssert]
    refine ⟨fun hm => ?_, fun _ => trivial⟩
    have hm' : scTypeNode &&& type = 0 := by simpa using hm
    exact wp_always (fun _ _ => hm') (fun _ => trivial)
  exact (ignoreResult_ok hwp hs).elim fun _ h => h

theorem arcTypeOf_node {type : ScType} (h : scTypeNode &&& type = 0) :
    arcTypeOf type &&& scTypeNode = 0 := by
  have h' : type &&& scTypeNode = 0 := by rw [BitVec.and_comm, h]
  unfold arcTypeOf
  rw [flagsRemove_and _ _ (by decide)]
  split_ifs
  · exact h'
  · rw [BitVec.and_or_distrib_right, h']
    decide

theorem ArcOrigin.notNode (h : ArcOrigin env st st' action y) (hr : ArcsRanked st.cell)
    (hs : StoreStep st ⟨env, action⟩ st') : (st'.cell y).type &&& scTypeNode = 0 := by
  cases h with
  | kept _ _ hold _ hnode =>
    rw [hnode]
    exact hr.notNode y hold
  | created ctx type beg end_ _ hcr =>
    rw [hcr.typeOf.1]
    exact arcTypeOf_node (arcNew_notNode hs)

/-- The rank of a new arc is above those of its ends, which are older. -/
theorem arcsRanked_step {thread : ℕ} (hok : StoreOk thread st) (h : ArcsRanked st.cell)
    {e : StoreEvent} (hs : OwnStep thread st e st') : ArcsRanked st'.cell := by
  classical
  obtain ⟨env, action⟩ := e
  have heff := step_effect hok.wf hok.cells action hs.allowed hs.step
  refine ⟨fun y hy => (heff.arc_origin hok.cells hy).notNode h hs.step, ?_⟩
  obtain ⟨rank, hrank⟩ := h.ranked
  have hafter : ∃ rank' : ScAddr → ℕ, ∀ y, rank' y = if Live st.cell y then rank y else
      rank (ownerOf st'.cell .out y)+rank (ownerOf st'.cell .inp y)+1 := ⟨_, fun _ => rfl⟩
  obtain ⟨rank', hrank'⟩ := hafter
  refine ⟨rank', fun y d hy => ?_⟩
  cases heff.arc_origin hok.cells hy with
  | kept _ _ hold howner _ =>
    have hend := hok.cells.arcs.endpoint y d hold
    rw [howner, hrank' y, hrank' (ownerOf st.cell d y), if_pos hold.1, if_pos hend]
    exact hrank y d hold
  | created ctx type beg end_ _ hcr =>
    have hfree : ¬ Live st.cell y := fun hl => type_of_live hl hcr.created.refCount.2.2.1
    have hend : Live st.cell (ownerOf st'.cell d y) := by
      rw [(hcr.added hok.cells).owner, if_pos rfl]
      cases d with
      | out => exact hcr.beginLive
      | inp => exact hcr.endLive
    rw [hrank' y, if_neg hfree, hrank' (ownerOf st'.cell d y), if_pos hend]
    cases d with
    | out => omega
    | inp => omega

theorem arcsRanked_empty : ArcsRanked ScStorage.empty.cell := by
  have hnone (x : ScAddr) : ¬ LiveArc ScStorage.empty.cell x := by
    intro hx
    have hlive := hx.1
    unfold Live at hlive
    rw [cells_empty] at hlive
    exact absurd hlive (by decide)
  exact ⟨fun x hx => (hnone x hx).elim, fun _ => 0, fun x _ hx => (hnone x hx).elim⟩

/-- In every state that a single thread reaches, arcs hang on older elements. -/
theorem ownRun_arcsRanked {thread : ℕ} (evs : List StoreEvent) (st : ScStorage)
    (hr : Run (OwnStep thread) ScStorage.empty evs st) : ArcsRanked st.cell := by
  have hboth := run_invariant (fun s => StoreOk thread s ∧ ArcsRanked s.cell) ?_ evs _ st
    ⟨storeOk_empty thread, arcsRanked_empty⟩ hr
  · exact hboth.2
  · intro s e s' ⟨hok, hranked⟩ hs
    exact ⟨storeOk_step s e s' hok hs, arcsRanked_step hok hranked hs⟩

end

end ScMachine.Store
