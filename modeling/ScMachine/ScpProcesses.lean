import ScMachine.ScpProcessTemplates
import ScMachine.StoreGraph

/-! The process that `create_scp_process` makes of a program, for a question that has been initiated. -/
namespace ScMachine.Scp
open ScMachine.Store ScMachine.Template ScMachine.StateExcept ScMachine.Runs ScMachine.Agent
  ScMachine.GraphMemory

/-- A store that has come from another one by `n` creations. -/
structure Growing (env : ScEnv) (ctx : ScContext) (st : ScStorage) (n : ℕ) (s : ScStorage) : Prop where
  store : StoreOk env.thread s
  reads : ∀ x, Live s.cell x → CanRead ctx s.cell x
  made : Creations env ctx st n s
  grown : ∃ new, GrownBy st new s

/-- One arc has been made. -/
structure NewArc (type : ScType) (s : ScStorage) (beg e end_ : ScAddr) (s' : ScStorage) : Prop where
  grown : GrownBy s {e} s'
  between : ArcBetween s'.cell type beg e end_
  type : (s'.cell e).type = arcTypeOf type

section
variable {env : ScEnv} {ctx : ScContext} {st s s' : ScStorage} {type wanted : ScType}
  {beg e end_ relation owner x y : ScAddr} {n total : ℕ}

theorem Growing.live (h : Growing env ctx st n s) (hx : Live st.cell x) : Live s.cell x := by
  obtain ⟨new, hgrown⟩ := h.grown
  exact (grown_same hgrown hx).same.live.mpr hx

theorem NewArc.arcBetween_iff (h : NewArc type s beg e end_ s') :
    ArcBetween s'.cell wanted owner x y ↔ ArcBetween s.cell wanted owner x y ∨
      x = e ∧ owner = beg ∧ y = end_ ∧ HasType s'.cell e wanted := by
  by_cases hxe : x = e
  · subst hxe
    constructor
    · intro hx
      exact Or.inr ⟨rfl, hx.source.symm.trans h.between.source, hx.target.symm.trans h.between.target,
        hx.hasType⟩
    · rintro (hx | ⟨_, rfl, rfl, htype⟩)
      · exact absurd (h.grown.free x rfl) (type_of_live hx.arc.1)
      · exact ⟨h.between.arc, h.between.source, h.between.target, htype⟩
  · have hun := h.grown.others x hxe
    constructor
    · intro hx
      exact Or.inl ⟨hun.same.liveArc.mp hx.arc, (hun.owner .out).symm.trans hx.source,
        (hun.owner .inp).symm.trans hx.target, (hasType_of_type hun.same.type).mp hx.hasType⟩
    · rintro (hx | ⟨heq, _⟩)
      · exact ⟨hun.same.liveArc.mpr hx.arc, (hun.owner .out).trans hx.source,
          (hun.owner .inp).trans hx.target, (hasType_of_type hun.same.type).mpr hx.hasType⟩
      · exact absurd heq hxe

theorem ArcBetween.grown {new : Set ScAddr} (h : ArcBetween s.cell type owner x y) (hg : GrownBy s new s') :
    ArcBetween s'.cell type owner x y := by
  obtain ⟨harc, htype, hown⟩ := hg.liveArc h.arc
  exact ⟨harc, (hown .out).trans h.source, (hown .inp).trans h.target, (hasType_of_type htype).mpr h.hasType⟩

theorem Marked.grown {new : Set ScAddr} (h : Marked s.cell type relation owner x) (hg : GrownBy s new s') :
    Marked s'.cell type relation owner x := by
  obtain ⟨e, a, he, ha⟩ := h
  exact ⟨e, a, he.grown hg, ha.grown hg⟩

/-- A new arc that does not lead to an arc of the type marks nothing, and nothing marks it. -/
theorem NewArc.marked_iff (h : NewArc type s beg e end_ s') (hc : ArcsOk s.cell)
    (hend : ∀ b y, ¬ ArcBetween s.cell wanted b end_ y) (hlive : Live s.cell end_) :
    Marked s'.cell wanted relation owner x ↔ Marked s.cell wanted relation owner x := by
  have hdead : ¬ Live s.cell e := fun he => type_of_live he (h.grown.free e rfl)
  constructor
  · rintro ⟨f, a, hf, ha⟩
    rcases h.arcBetween_iff.mp ha with ha | ⟨_, _, rfl, _⟩
    · rcases h.arcBetween_iff.mp hf with hf | ⟨rfl, _⟩
      · exact ⟨f, a, hf, ha⟩
      · exact absurd (ha.live hc).2 hdead
    · rcases h.arcBetween_iff.mp hf with hf | ⟨rfl, _⟩
      · exact absurd hf (hend _ _)
      · exact absurd hlive hdead
  · rintro ⟨f, a, hf, ha⟩
    exact ⟨f, a, h.arcBetween_iff.mpr (Or.inl hf), h.arcBetween_iff.mpr (Or.inl ha)⟩

theorem Growing.arc (h : Growing env ctx st n s) (hn : n < total) (htype : scTypeNode &&& type = 0)
    (hlink : type &&& scTypeLink = 0) (hself : type &&& scFlagsRemove (arcTypeOf type) = type)
    (hbeg : Live s.cell beg) (hend : Live s.cell end_) :
    Wp (scStorageArcNew env ctx type beg end_)
      (fun e s' => Growing env ctx st (n+1) s' ∧ NewArc type s beg e end_ s')
      (fun _ => OutOfCells env ctx total st) s := by
  apply wp_mono (arcNew_creation total h.store h.made hn htype hlink hbeg hend) _ (fun _ hout => hout)
  rintro e s' ⟨hok, hmade', hcr, _⟩
  have hadd := hcr.added h.store.cells
  have hgrown := hcr.grown h.store.cells
  obtain ⟨new, hall⟩ := h.grown
  refine ⟨⟨hok, reads_of_grown h.reads hgrown hcr.typeOf.2, hmade', ⟨_, hall.trans hgrown⟩⟩, hgrown,
    ⟨hadd.arc, ?_, ?_, hasType_created hcr.typeOf.1 hself⟩, hcr.typeOf.1⟩
  · rw [hadd.owner, if_pos rfl]
  · rw [hadd.owner, if_pos rfl]

/-- An arc from a keynode to an element is made. -/
theorem Growing.mark (h : Growing env ctx st n s) (hn : n < total) (hbeg : Live s.cell beg)
    (hend : Live s.cell end_) :
    Wp (genMark env ctx beg end_)
      (fun _ s' => Growing env ctx st (n+1) s' ∧ ∃ e, NewArc scpTypeArcPosConstPerm s beg e end_ s')
      (fun _ => OutOfCells env ctx total st) s := by
  have hvalue (x : ScAddr) (hx : Live s.cell x) : (fixedOperand x).noValue s.cell = false :=
    noValue_of_hasValue fun _ => hx
  unfold genMark genElStr3
  rw [wp_bind, wp_bind, wp_get, if_neg]
  · show Wp (genElStr3With env ctx true true (fixedOperand beg) defaultArc (fixedOperand end_)) _ _ s
    unfold genElStr3With genEnd
    simp only [if_true, wp_bind, wp_pure]
    apply wp_mono (h.arc hn (by decide) (by decide) (by decide) hbeg hend) _ (fun _ hout => hout)
    rintro e s' ⟨hgrowing, hnew⟩
    exact ⟨hgrowing, e, hnew⟩
  · rw [hvalue beg hbeg, hvalue end_ hend]
    simp [defaultArc, assignOperand]

/-- A node is made, or there is no cell for it. -/
theorem Growing.node (h : Growing env ctx st n s) (hn : n < total) (htype : scTypeArcMask &&& type = 0) :
    Wp (scStorageNodeNew env ctx type)
      (fun r s' => OutOfCells env ctx total st ∨ Growing env ctx st (n+1) s' ∧ GrownBy s {r} s' ∧
        r ≠ ScAddr.empty ∧ s'.cell r = nodeCell ctx type)
      (fun _ => OutOfCells env ctx total st) s := by
  apply wp_mono (nodeNew_creation total h.store h.made hn htype) _ (fun _ hout => hout)
  rintro r s' (⟨_, hout⟩ | ⟨hne, hok, hmade', hcr⟩)
  · exact Or.inl hout
  · have hcell : s'.cell r = nodeCell ctx type := by rw [hcr.refCount.2.2.2, Function.update_self]
    have hgrown := hcr.grown (nodeCell_live ctx type r)
    obtain ⟨new, hall⟩ := h.grown
    refine Or.inr ⟨⟨hok, reads_of_grown h.reads hgrown ?_, hmade', ⟨_, hall.trans hgrown⟩⟩, hgrown,
      hne, hcell⟩
    rw [hcell]
    rfl

end

section
variable {env : ScEnv} {ctx : ScContext} {kn : ProcessKeynodes} {st s : ScStorage}
  {procedure callParams question node1 : ScAddr} {tables : CopyTables} {n total : ℕ}

theorem TablesFilled.growing (h : TablesFilled env ctx kn procedure callParams st tables s) :
    ∃ n, n ≤ (setElements st.cell ctx (varsSet st.cell ctx kn procedure)).length ∧
      Growing env ctx st n s := by
  obtain ⟨n, hle, hmade⟩ := h.made
  exact ⟨n, hle, h.store, h.reads, hmade, _, h.grown⟩

theorem TablesFilled.live (h : TablesFilled env ctx kn procedure callParams st tables s) {x : ScAddr}
    (hx : Live st.cell x) : Live s.cell x := (grown_same h.grown hx).same.live.mpr hx

/-- No arc has come while the tables were filled. -/
theorem TablesFilled.arcBetween_iff (h : TablesFilled env ctx kn procedure callParams st tables s)
    {type : ScType} {x e y : ScAddr} : ArcBetween s.cell type x e y ↔ ArcBetween st.cell type x e y := by
  refine arcBetween_nodes h.grown ?_
  rintro z ⟨x, hx, hxp, hz⟩
  obtain ⟨y, hy, _, htype⟩ := h.varNode x hx hxp
  obtain rfl := Option.some.inj (hz.symm.trans hy)
  exact not_arc_of_varNode htype

/-- The node of the process is new, the question and the class of the processes have it, and it stands
for the set of operators. -/
structure ProcessMade (env : ScEnv) (ctx : ScContext) (kn : ProcessKeynodes)
    (procedure question : ScAddr) (st s : ScStorage) (tables : CopyTables) (n : ℕ) (process : ScAddr)
    (tables' : CopyTables) (s' : ScStorage) : Prop where
  growing : Growing env ctx st n s'
  since : ∃ new, GrownBy s new s' ∧ process ∈ new
  type : scFlagsRemove (s'.cell process).type = defaultNode.elementType
  notEmpty : process ≠ ScAddr.empty
  asked : Marked s'.cell commonArc.elementType kn.nrelScpProcess question process
  member : ∃ e, ArcBetween s'.cell scpTypeArcPosConstPerm kn.scpProcess e process
  operators : ∃ set, IsOperatorSet st.cell kn procedure set ∧ tables' = tables.put set process

/-- A new node of the question, behind an arc that the relation marks. -/
theorem Growing.asked (h : Growing env ctx st n s) (hn : n+2 < total) (hquestion : Live s.cell question)
    (hnrel : Live s.cell kn.nrelScpProcess) :
    Wp (genElStr5 env ctx (fixedOperand question) commonArc defaultNode defaultArc
        (fixedOperand kn.nrelScpProcess))
      (fun r s' => OutOfCells env ctx total st ∨ ∃ s1 s2 e a, Growing env ctx st (n+3) s' ∧
        GrownBy s {r.2.2.2.1.addr} s1 ∧ r.2.2.2.1.addr ≠ ScAddr.empty ∧
        s1.cell r.2.2.2.1.addr = nodeCell ctx defaultNode.elementType ∧
        NewArc commonArc.elementType s1 question e r.2.2.2.1.addr s2 ∧
        NewArc scpTypeArcPosConstPerm s2 kn.nrelScpProcess a e s' ∧ ArcsOk s1.cell ∧ ArcsOk s2.cell)
      (fun _ => OutOfCells env ctx total st) s := by
  have hvalue (x : ScAddr) (hx : Live s.cell x) : (fixedOperand x).noValue s.cell = false :=
    noValue_of_hasValue fun _ => hx
  unfold genElStr5
  rw [wp_bind, wp_get, if_neg]
  · show Wp (genElStr5With env ctx true false true (fixedOperand question) commonArc defaultNode defaultArc
      (fixedOperand kn.nrelScpProcess)) _ _ s
    unfold genElStr5With genEnd
    simp only [if_true, wp_bind, wp_pure, Bool.false_eq_true, if_false]
    apply wp_mono (h.node (by omega) (by decide)) _ (fun _ hout => hout)
    rintro process s1 (hout | ⟨h1, hg1, hne, hcell⟩)
    · exact wp_always (fun _ _ => wp_always (fun _ _ => Or.inl hout) (fun _ => hout)) (fun _ => hout)
    have hstill {x : ScAddr} (hx : Live s.cell x) : Live s1.cell x := (grown_same hg1 hx).same.live.mpr hx
    apply wp_mono (h1.arc (by omega) (by decide) (by decide) (by decide) (hstill hquestion) (hg1.live process rfl)) _
      (fun _ hout => hout)
    rintro e s2 ⟨h2, hedge⟩
    apply wp_mono (h2.arc (by omega) (by decide) (by decide) (by decide)
      ((grown_same hedge.grown (hstill hnrel)).same.live.mpr (hstill hnrel)) hedge.between.arc.1) _
      (fun _ hout => hout)
    rintro a s3 ⟨h3, hmark⟩
    exact Or.inr ⟨s1, s2, e, a, h3, hg1, hne, hcell, hedge, hmark, h1.store.cells.arcs, h2.store.cells.arcs⟩
  · rw [hvalue _ hquestion, hvalue _ hnrel]
    simp [commonArc, defaultArc, defaultNode, assignOperand]
    exact noValue_assign _ _

theorem not_arc_of_node_cell {x : ScAddr} (h : s.cell x = nodeCell ctx defaultNode.elementType) :
    ¬ LiveArc s.cell x := by
  rintro ⟨_, harc⟩
  rw [h] at harc
  exact bne_iff_ne.mp harc
    (show scFlagsRemove (scTypeNode ||| defaultNode.elementType) &&& scTypeArcMask = 0 by decide)

/-- Nothing is marked otherwise by the arcs of the process than before. -/
theorem makeProcess_made (h : TablesFilled env ctx kn procedure callParams st tables s)
    (hgrowing : Growing env ctx st n s) (hn : n+3 < total) (hc : ArcsOk st.cell) (hprogram : TemplateProgram st.cell kn procedure)
    (hquestion : Live st.cell question) (hnrel : Live st.cell kn.nrelScpProcess)
    (hclass : Live st.cell kn.scpProcess) :
    Wp (makeProcess env ctx kn node1 question procedure tables)
      (fun r s' => OutOfCells env ctx total st ∨
        ProcessMade env ctx kn procedure question st s tables (n+4) r.1 r.2 s')
      (fun _ => OutOfCells env ctx total st) s := by
  unfold makeProcess
  rw [wp_bind]
  apply wp_mono (hgrowing.asked (by omega) (h.live hquestion) (h.live hnrel)) _ (fun _ hout => hout)
  rintro r s3 (hout | ⟨s1, s2, e, a, h3, hg1, hne, hcell, hedge, hmark, hc1, hc2⟩)
  · exact wp_always (fun _ _ => Or.inl hout) (fun _ => hout)
  have hprocess2 : Live s2.cell r.2.2.2.1.addr := (hedge.between.live hc2).2
  have hprocess3 : Live s3.cell r.2.2.2.1.addr := (grown_same hmark.grown hprocess2).same.live.mpr hprocess2
  rw [wp_bind]
  apply wp_mono (h3.mark (by omega) (h3.live hclass) hprocess3) _ (fun _ hout => hout)
  rintro _ s4 ⟨h4, m, hmember⟩
  rw [wp_bind, wp_get, wp_pure]
  have hc3 := h3.store.cells.arcs
  have hnode1 : ¬ LiveArc s1.cell r.2.2.2.1.addr := not_arc_of_node_cell hcell
  have hnode3 : ¬ LiveArc s3.cell r.2.2.2.1.addr := by
    rw [(grown_same hmark.grown hprocess2).same.liveArc, (grown_same hedge.grown (hg1.live _ rfl)).same.liveArc]
    exact hnode1
  have hmarked (relation owner x : ScAddr) : Marked s4.cell scpTypeArcPosConstPerm relation owner x ↔
      Marked st.cell scpTypeArcPosConstPerm relation owner x :=
    calc Marked s4.cell scpTypeArcPosConstPerm relation owner x
        ↔ Marked s3.cell scpTypeArcPosConstPerm relation owner x :=
          hmember.marked_iff hc3 (fun _ _ hb => hnode3 hb.arc) hprocess3
      _ ↔ Marked s2.cell scpTypeArcPosConstPerm relation owner x :=
          hmark.marked_iff hc2 (fun _ _ hb => not_hasType_created hedge.type (by decide) hb.hasType)
            hedge.between.arc.1
      _ ↔ Marked s1.cell scpTypeArcPosConstPerm relation owner x :=
          hedge.marked_iff hc1 (fun _ _ hb => hnode1 hb.arc) (hg1.live _ rfl)
      _ ↔ Marked s.cell scpTypeArcPosConstPerm relation owner x := by
          unfold Marked
          simp only [arcBetween_nodes hg1 fun z hz => (Set.mem_singleton_iff.mp hz) ▸ hnode1]
      _ ↔ Marked st.cell scpTypeArcPosConstPerm relation owner x := by
          unfold Marked
          simp only [h.arcBetween_iff]
  have hgrown := ((hg1.trans hedge.grown).trans hmark.grown).trans hmember.grown
  have htype : (s4.cell r.2.2.2.1.addr).type = (nodeCell ctx defaultNode.elementType).type :=
    calc (s4.cell r.2.2.2.1.addr).type = (s3.cell r.2.2.2.1.addr).type :=
          (grown_same hmember.grown hprocess3).same.type
      _ = (s2.cell r.2.2.2.1.addr).type := (grown_same hmark.grown hprocess2).same.type
      _ = (s1.cell r.2.2.2.1.addr).type := (grown_same hedge.grown (hg1.live _ rfl)).same.type
      _ = (nodeCell ctx defaultNode.elementType).type := by rw [hcell]
  refine Or.inr ⟨h4, ⟨_, hgrown, Or.inl (Or.inl (Or.inl rfl))⟩, ?_, hne, ⟨e, a, ?_, ?_⟩, ⟨m, hmember.between⟩, ?_⟩
  · rw [htype]
    show scFlagsRemove (scFlagsRemove (scTypeNode ||| defaultNode.elementType)) = _
    decide
  · exact hmember.arcBetween_iff.mpr (Or.inl (hmark.arcBetween_iff.mpr (Or.inl hedge.between)))
  · exact hmember.arcBetween_iff.mpr (Or.inl hmark.between)
  · obtain ⟨set, hset⟩ := hprogram.operators
    obtain ⟨hsetMark, hsetType⟩ := (hset set).mpr rfl
    have htypes {x : ScAddr} (hx : Live st.cell x) (type : ScType) :
        HasType s4.cell x type ↔ HasType st.cell x type := by
      obtain ⟨new, hall⟩ := h4.grown
      exact hasType_of_type (grown_same hall hx).same.type
    rcases @searchMarked_spec s4.cell ctx h4.store.cells.arcs h4.reads defaultArc
      { defaultNode with addr := node1 } rfl rfl procedure kn.rrelOperators with
      ⟨_, hfound, hfoundType⟩ | ⟨_, _, hnone⟩
    · have hfound' := (hmarked _ _ _).mp hfound
      exact ⟨_, ⟨hfound', (htypes (hfound'.live hc).2.2 _).mp hfoundType⟩, rfl⟩
    · exact absurd ((htypes (hsetMark.live hc).2.2 _).mpr hsetType) (hnone set ((hmarked _ _ _).mpr hsetMark))

/-! What the copies are made from. -/

theorem TablesFilled.isSome_iff (h : TablesFilled env ctx kn procedure callParams st tables s) (x : ScAddr) :
    (tables.copies[x]?).isSome ↔ IsParameter st.cell kn procedure x ∨ IsVariable st.cell kn procedure x ∨
      IsConstant st.cell kn procedure x := by
  by_cases hp : IsParameter st.cell kn procedure x
  · obtain ⟨y, hy, _⟩ := h.parameter x hp
    simp [hy, hp]
  by_cases hv : IsVariable st.cell kn procedure x
  · obtain ⟨y, hy, _⟩ := h.varNode x hv hp
    simp [hy, hv]
  by_cases hconst : IsConstant st.cell kn procedure x
  · simp [h.constant x hconst hv hp, hconst]
  · simp [h.other x hconst hv hp, hp, hv, hconst]

/-- What stands for something is an element. -/
theorem TablesFilled.value (h : TablesFilled env ctx kn procedure callParams st tables s)
    (hc : ArcsOk st.cell) {x y : ScAddr} (hy : tables.copies[x]? = some y) :
    y ≠ ScAddr.empty ∧ Live s.cell y := by
  have hold {z : ScAddr} (hz : Live st.cell z) : z ≠ ScAddr.empty ∧ Live s.cell z :=
    ⟨fun he => hc.notEmpty (he ▸ hz), h.live hz⟩
  by_cases hp : IsParameter st.cell kn procedure x
  · obtain ⟨v, hv, _, _, _, _, _, _, hmark⟩ := h.parameter x hp
    obtain rfl := Option.some.inj (hv.symm.trans hy)
    exact hold (hmark.live hc).2.2
  by_cases hvar : IsVariable st.cell kn procedure x
  · obtain ⟨v, hv, hne, _⟩ := h.varNode x hvar hp
    obtain rfl := Option.some.inj (hv.symm.trans hy)
    exact ⟨hne, h.grown.live v ⟨x, hvar, hp, hv⟩⟩
  by_cases hconst : IsConstant st.cell kn procedure x
  · obtain rfl := Option.some.inj ((h.constant x hconst hvar hp).symm.trans hy)
    obtain ⟨_, _, _, he⟩ := hconst
    exact hold (he.live hc).2
  · exact absurd (hy.symm.trans (h.other x hconst hvar hp)) (Option.some_ne_none y)

section
variable {s' : ScStorage} {process : ScAddr} {tables' : CopyTables} {rank : ScAddr → ℕ}
  (h : TablesFilled env ctx kn procedure callParams st tables s)
  (hm : ProcessMade env ctx kn procedure question st s tables n process tables' s')
  (hprogram : TemplateProgram st.cell kn procedure)
include hm hprogram

/-- The process stands for the set of operators, and the rest is as it was. -/
theorem ProcessMade.lookup (x : ScAddr) :
    (IsOperatorSet st.cell kn procedure x → tables'.copies[x]? = some process) ∧
      (¬ IsOperatorSet st.cell kn procedure x → tables'.copies[x]? = tables.copies[x]?) := by
  obtain ⟨only, honly⟩ := hprogram.operators
  obtain ⟨set, hset, rfl⟩ := hm.operators
  rw [put_get]
  constructor
  · intro hx
    rw [if_pos (((honly set).mp hset).trans ((honly x).mp hx).symm)]
  · intro hx
    rw [if_neg]
    rintro rfl
    exact hx hset

include h

theorem ProcessMade.isSome_iff (x : ScAddr) :
    (tables'.copies[x]?).isSome ↔ IsPreset st.cell kn procedure x := by
  obtain ⟨hop, hno⟩ := hm.lookup hprogram x
  unfold IsPreset
  by_cases hx : IsOperatorSet st.cell kn procedure x
  · simp [hop hx, hx]
  · rw [hno hx, h.isSome_iff]
    simp [hx]

/-- What is left of the pattern is to be copied. -/
theorem ProcessMade.mem_pattern (x : ScAddr) : x ∈ tables'.pattern ↔ IsCopied st.cell kn procedure x := by
  have htracks : Tracks (InTemplate st.cell kn procedure) tables' := by
    obtain ⟨set, _, rfl⟩ := hm.operators
    exact h.tracks.put
  rw [htracks.mem, ← Option.not_isSome_iff_eq_none, hm.isSome_iff h hprogram]
  exact Iff.rfl

omit hprogram in
theorem ProcessMade.nodup_pattern : tables'.pattern.Nodup := by
  obtain ⟨set, _, rfl⟩ := hm.operators
  exact h.tracks.put.nodup

/-- The pattern can be copied. -/
theorem ProcessMade.copyBase (hc : ArcsOk st.cell)
    (hnot : ∀ x, LiveArc st.cell x → (st.cell x).type &&& scTypeNode = 0)
    (hrank : ∀ x d, LiveArc st.cell x → rank (ownerOf st.cell d x) < rank x) :
    (CopyBase.mk s' tables'.copies tables'.pattern).Ok rank ∧
      (CopyBase.mk s' tables'.copies tables'.pattern).EndsKnown := by
  have hpattern := hm.mem_pattern h hprogram
  have hsome := hm.isSome_iff h hprogram
  obtain ⟨new, hall⟩ := hm.growing.grown
  obtain ⟨since, hsince, hin⟩ := hm.since
  have hlive {x : ScAddr} (hx : IsCopied st.cell kn procedure x) : Live st.cell x := by
    obtain ⟨⟨_, _, _, he⟩, _⟩ := hx
    exact (he.live hc).2
  have hsame {x : ScAddr} (hx : Live st.cell x) : Untouched st s' x := grown_same hall hx
  have harc {x : ScAddr} (hx : IsCopied st.cell kn procedure x) : LiveArc s'.cell x ↔ LiveArc st.cell x :=
    (hsame (hlive hx)).same.liveArc
  have htype {x : ScAddr} (hx : Live st.cell x) (type : ScType) :
      HasType s'.cell x type ↔ HasType st.cell x type := hasType_of_type (hsame hx).same.type
  have hends {a : ScAddr} (ha : IsCopied st.cell kn procedure a) (hl : LiveArc st.cell a) (d : Dir) :
      Live st.cell (ownerOf st.cell d a) := hc.endpoint a d hl
  refine ⟨⟨?_, ?_, ?_, ?_, ?_⟩, ?_⟩
  · intro v x hx
    obtain ⟨hop, hno⟩ := hm.lookup hprogram v
    by_cases hset : IsOperatorSet st.cell kn procedure v
    · obtain rfl := Option.some.inj ((hop hset).symm.trans hx)
      exact ⟨hm.notEmpty, hsince.live _ hin⟩
    · obtain ⟨hne, hl⟩ := h.value hc ((hno hset).symm.trans hx)
      exact ⟨hne, (grown_same hsince hl).same.live.mpr hl⟩
  · intro v hv
    have hcopied := (hpattern v).mp hv
    refine ⟨?_, hm.growing.live (hlive hcopied)⟩
    rw [← Option.not_isSome_iff_eq_none, hsome]
    exact hcopied.2
  · intro v hv
    have hcopied := (hpattern v).mp hv
    exact (hprogram.kinds v hcopied).imp (htype (hlive hcopied) _).mpr (harc hcopied).mpr
  · intro v hv hl
    have hcopied := (hpattern v).mp hv
    have hl' := (harc hcopied).mp hl
    refine ⟨by rw [(hsame (hlive hcopied)).same.type]; exact hnot v hl', fun d => ?_⟩
    show Live s'.cell (ownerOf s'.cell d v) ∧ rank (ownerOf s'.cell d v) < rank v
    rw [(hsame (hlive hcopied)).owner]
    exact ⟨hm.growing.live (hends hcopied hl' d), hrank v d hl'⟩
  · intro v hv hl d hd
    have hcopied := (hpattern v).mp hv
    have hl' := (harc hcopied).mp hl
    show (tables'.copies[ownerOf s'.cell d v]?).isSome ∨ ownerOf s'.cell d v ∈ tables'.pattern
    change LiveArc s'.cell (ownerOf s'.cell d v) at hd
    rw [(hsame (hlive hcopied)).owner] at hd ⊢
    rw [hsome, hpattern]
    have hd' := (hsame (hends hcopied hl' d)).same.liveArc.mp hd
    rcases hprogram.ends v hcopied hl' d with hpre | hnode | hcop
    · exact Or.inl hpre
    · unfold HasType at hnode
      rw [BitVec.and_comm, flagsRemove_and _ _ (by decide), hnot _ hd'] at hnode
      exact absurd hnode (by decide)
    · exact Or.inr hcop
  · intro v hv hl d
    have hcopied := (hpattern v).mp hv
    have hl' := (harc hcopied).mp hl
    show (tables'.copies[ownerOf s'.cell d v]?).isSome ∨ HasType s'.cell (ownerOf s'.cell d v) scTypeNode ∨
      ownerOf s'.cell d v ∈ tables'.pattern
    rw [(hsame (hlive hcopied)).owner, hsome, hpattern, htype (hends hcopied hl' d)]
    exact hprogram.ends v hcopied hl' d

end

/-- What stands for an element in the process. -/
def imageIn (copies : ScTypeResult) (x : ScAddr) : ScAddr := (copies[x]?).getD x

/-- The process that has been made: new, known to the question and to its class, with a value for each
parameter, a node for each variable and a copy of each element of the pattern that nothing is said of. -/
structure ProcessCopied (kn : ProcessKeynodes) (procedure callParams question : ScAddr) (st s : ScStorage)
    (process : ScAddr) (image : ScAddr → ScAddr) : Prop where
  grown : ∃ new, GrownBy st new s ∧ process ∈ new ∧
    (∀ x, IsFreshVariable st.cell kn procedure x → image x ∈ new) ∧
    ∀ x, IsCopied st.cell kn procedure x → image x ∈ new
  asked : Marked s.cell commonArc.elementType kn.nrelScpProcess question process
  member : ∃ e, ArcBetween s.cell scpTypeArcPosConstPerm kn.scpProcess e process
  operatorSet : ∀ x, IsOperatorSet st.cell kn procedure x → image x = process
  parameter : ∀ x, IsParameter st.cell kn procedure x → ¬ IsOperatorSet st.cell kn procedure x →
    Supplied st.cell kn procedure callParams x (image x)
  variable_ : ∀ x, IsFreshVariable st.cell kn procedure x → scFlagsRemove (s.cell (image x)).type = varNodeType
  constant : ∀ x, IsConstant st.cell kn procedure x → ¬ IsVariable st.cell kn procedure x →
    ¬ IsParameter st.cell kn procedure x → ¬ IsOperatorSet st.cell kn procedure x → image x = x
  other : ∀ x, ¬ IsPreset st.cell kn procedure x → ¬ InTemplate st.cell kn procedure x → image x = x
  type : ∀ x, IsCopied st.cell kn procedure x →
    scFlagsRemove (s.cell (image x)).type = scFlagsRemove (st.cell x).type
  arc : ∀ x, IsCopied st.cell kn procedure x → LiveArc st.cell x → LiveArc s.cell (image x) ∧
    ∀ d, ownerOf s.cell d (image x) = image (ownerOf st.cell d x)
  apart : ∀ x y, (IsCopied st.cell kn procedure x ∨ IsFreshVariable st.cell kn procedure x) →
    (IsCopied st.cell kn procedure y ∨ IsFreshVariable st.cell kn procedure y) → image x = image y → x = y
  notProcess : ∀ x, IsCopied st.cell kn procedure x ∨ IsFreshVariable st.cell kn procedure x →
    image x ≠ process

/-- The copies of the pattern make a process of what has been prepared. -/
theorem processCopied_of_copies {s' s'' : ScStorage} {process : ScAddr} {tables' tables'' : CopyTables} {k : ℕ}
    (h : TablesFilled env ctx kn procedure callParams st tables s)
    (hm : ProcessMade env ctx kn procedure question st s tables n process tables' s')
    (hprogram : TemplateProgram st.cell kn procedure) (hc : ArcsOk st.cell)
    (hnot : ∀ x, LiveArc st.cell x → (st.cell x).type &&& scTypeNode = 0)
    (hcopied : (CopyBase.mk s' tables'.copies tables'.pattern).Copied env ctx st k tables'' s'')
    (hall : ∀ v ∈ tables'.pattern, (tables''.copies[v]?).isSome) :
    ProcessCopied kn procedure callParams question st s'' process (imageIn tables''.copies) := by
  have hpattern := hm.mem_pattern h hprogram
  have hsome := hm.isSome_iff h hprogram
  obtain ⟨since, hsince, hin⟩ := hm.since
  obtain ⟨all, hgrown⟩ := hm.growing.grown
  have hkept {x y : ScAddr} (hy : tables'.copies[x]? = some y) : imageIn tables''.copies x = y := by
    unfold imageIn
    rw [hcopied.extends_ x y hy]
    rfl
  have hnone {x : ScAddr} (hx : ¬ IsPreset st.cell kn procedure x) : tables'.copies[x]? = none := by
    rw [← Option.not_isSome_iff_eq_none, hsome]
    exact hx
  have hpair {x : ScAddr} (hx : IsCopied st.cell kn procedure x) :
      (CopyBase.mk s' tables'.copies tables'.pattern).NewPair tables''.copies x
        (imageIn tables''.copies x) := by
    obtain ⟨y, hy⟩ := Option.isSome_iff_exists.mp (hall x ((hpattern x).mpr hx))
    refine ⟨?_, hnone hx.2⟩
    unfold imageIn
    rw [hy]
    rfl
  have hself {x : ScAddr} (htable : tables'.copies[x]? = none) (hx : x ∉ tables'.pattern) :
      imageIn tables''.copies x = x := by
    unfold imageIn
    cases hy : tables''.copies[x]? with
    | none => rfl
    | some y => exact absurd (hcopied.key x y ⟨hy, htable⟩).1 hx
  have hold {x : ScAddr} (hx : ¬ IsOperatorSet st.cell kn procedure x) {y : ScAddr}
      (hy : tables.copies[x]? = some y) : imageIn tables''.copies x = y :=
    hkept (((hm.lookup hprogram x).2 hx).trans hy)
  have hvar {x : ScAddr} (hx : IsFreshVariable st.cell kn procedure x) :
      tables.copies[x]? = some (imageIn tables''.copies x) ∧
        scFlagsRemove (s.cell (imageIn tables''.copies x)).type = varNodeType := by
    obtain ⟨y, hy, _, htype⟩ := h.varNode x hx.1 hx.2.1
    rw [hold hx.2.2 hy]
    exact ⟨hy, htype⟩
  have hvarLive {x : ScAddr} (hx : IsFreshVariable st.cell kn procedure x) :
      Live s.cell (imageIn tables''.copies x) := h.grown.live _ ⟨x, hx.1, hx.2.1, (hvar hx).1⟩
  have hvarLive' {x : ScAddr} (hx : IsFreshVariable st.cell kn procedure x) :
      Live s'.cell (imageIn tables''.copies x) :=
    (grown_same hsince (hvarLive hx)).same.live.mpr (hvarLive hx)
  have hfree {x : ScAddr} (hx : IsCopied st.cell kn procedure x) :
      ¬ Live s'.cell (imageIn tables''.copies x) := fun hl =>
    type_of_live hl (hcopied.grown.free _ ⟨x, hpair hx⟩)
  have hlive {x : ScAddr} (hx : IsCopied st.cell kn procedure x) : Live st.cell x := by
    obtain ⟨⟨_, _, _, he⟩, _⟩ := hx
    exact (he.live hc).2
  refine ⟨⟨_, (h.grown.trans hsince).trans hcopied.grown, Or.inl (Or.inr hin), ?_, ?_⟩,
    hm.asked.grown hcopied.grown, ?_, ?_, ?_, ?_, ?_, ?_, ?_, ?_, ?_, ?_⟩
  · intro x hx
    exact Or.inl (Or.inl ⟨x, hx.1, hx.2.1, (hvar hx).1⟩)
  · intro x hx
    exact Or.inr ⟨x, hpair hx⟩
  · obtain ⟨e, he⟩ := hm.member
    exact ⟨e, he.grown hcopied.grown⟩
  · intro x hx
    exact hkept ((hm.lookup hprogram x).1 hx)
  · intro x hx hset
    obtain ⟨y, hy, hsupplied⟩ := h.parameter x hx
    rw [hold hset hy]
    exact hsupplied
  · intro x hx
    rw [(grown_same hcopied.grown (hvarLive' hx)).same.type, (grown_same hsince (hvarLive hx)).same.type]
    exact (hvar hx).2
  · intro x hx hv hp hset
    exact hold hset (h.constant x hx hv hp)
  · intro x hx htemplate
    exact hself (hnone hx) fun hmem => htemplate ((hpattern x).mp hmem).1
  · intro x hx
    rw [(hcopied.stands x _ (hpair hx)).type, (grown_same hgrown (hlive hx)).same.type]
  · intro x hx harc
    have hun := grown_same hgrown (hlive hx)
    rcases (hcopied.stands x _ (hpair hx)).between with hnode | ⟨_, harc', hends⟩
    · replace hnode := (hasType_of_type hun.same.type).mp hnode
      unfold HasType at hnode
      rw [BitVec.and_comm, flagsRemove_and _ _ (by decide), hnot x harc] at hnode
      exact absurd hnode (by decide)
    · refine ⟨harc', fun d => ?_⟩
      rw [← hun.owner]
      rcases hends d with hy | ⟨htable, hout, _, hy⟩
      · unfold imageIn at hy ⊢
        rw [hy]
        rfl
      · rw [hy]
        exact (hself htable hout).symm
  · rintro x y (hx | hx) (hy | hy) heq
    · exact hcopied.distinct x y _ (hpair hx) (heq ▸ hpair hy)
    · exact absurd (heq ▸ hvarLive' hy) (hfree hx)
    · exact absurd (heq ▸ hvarLive' hx) (hfree hy)
    · exact h.distinct x y _ hx.1 hx.2.1 hy.1 hy.2.1 (hvar hx).1 (heq ▸ (hvar hy).1)
  · rintro x (hx | hx) heq
    · exact hfree hx (heq ▸ hsince.live _ hin)
    · exact type_of_live (heq ▸ hvarLive hx) (hsince.free _ hin)

/-! The start of the process. -/

/-- Each operator of the list gets the mark of the active ones, and nothing else is made. -/
theorem activateOperators_marks (operators : List ScAddr) (h : Growing env ctx st n s)
    (hn : n+operators.length ≤ total) (hactive : Live s.cell kn.activeScpOperator) (hlive : ∀ x ∈ operators, Live s.cell x) :
    Wp (activateOperators env ctx kn operators)
      (fun _ s' => ∃ new, GrownBy s new s' ∧
        (∀ x ∈ operators, ∃ a ∈ new, ArcBetween s'.cell scpTypeArcPosConstPerm kn.activeScpOperator a x) ∧
        ∀ a ∈ new, ∃ x ∈ operators, ArcBetween s'.cell scpTypeArcPosConstPerm kn.activeScpOperator a x)
      (fun _ => OutOfCells env ctx total st) s := by
  induction operators generalizing s n with
  | nil => exact ⟨∅, GrownBy.refl s, fun x hx => (List.not_mem_nil hx).elim, fun a ha => ha.elim⟩
  | cons operator operators ih =>
    rw [List.length_cons] at hn
    unfold activateOperators setActiveOperator
    rw [wp_bind]
    apply wp_mono (h.mark (by omega) hactive (hlive operator List.mem_cons_self)) _ (fun _ hout => hout)
    rintro _ s1 ⟨h1, a, hnew⟩
    have hstill {x : ScAddr} (hx : Live s.cell x) : Live s1.cell x :=
      (grown_same hnew.grown hx).same.live.mpr hx
    apply wp_mono (ih h1 (by omega) (hstill hactive) fun x hx => hstill (hlive x (List.mem_cons_of_mem _ hx))) _
      (fun _ hout => hout)
    rintro _ s' ⟨new, hgrown, hall, honly⟩
    refine ⟨_, hnew.grown.trans hgrown, fun x hx => ?_, fun y hy => ?_⟩
    · rcases List.mem_cons.mp hx with rfl | hx
      · exact ⟨a, Or.inl rfl, hnew.between.grown hgrown⟩
      · obtain ⟨y, hy, hbetween⟩ := hall x hx
        exact ⟨y, Or.inr hy, hbetween⟩
    · rcases hy with rfl | hy
      · exact ⟨operator, List.mem_cons_self, hnew.between.grown hgrown⟩
      · obtain ⟨x, hx, hbetween⟩ := honly y hy
        exact ⟨x, List.mem_cons_of_mem _ hx, hbetween⟩

/-- The operators that the process begins with are made active, or it is marked as useless for having none;
nothing else is made. -/
structure ProcessStarted (kn : ProcessKeynodes) (s : ScStorage) (process : ScAddr) (new : Set ScAddr)
    (s' : ScStorage) : Prop where
  grown : GrownBy s new s'
  active : ∀ x, Marked s.cell scpTypeArcPosConstPerm kn.rrelInit process x →
    ∃ a ∈ new, ArcBetween s'.cell scpTypeArcPosConstPerm kn.activeScpOperator a x
  useless : (∀ x, ¬ Marked s.cell scpTypeArcPosConstPerm kn.rrelInit process x) →
    ∃ a ∈ new, ArcBetween s'.cell scpTypeArcPosConstPerm kn.uselessScpProcess a process
  only : ∀ a ∈ new,
    (∃ x, Marked s.cell scpTypeArcPosConstPerm kn.rrelInit process x ∧
      ArcBetween s'.cell scpTypeArcPosConstPerm kn.activeScpOperator a x) ∨
    (∀ x, ¬ Marked s.cell scpTypeArcPosConstPerm kn.rrelInit process x) ∧
      ArcBetween s'.cell scpTypeArcPosConstPerm kn.uselessScpProcess a process

theorem mem_markedElements {c : Cells} (hc : ArcsOk c) (hread : ∀ x, Live c x → CanRead ctx c x)
    (type : ScType) (relation owner x : ScAddr) :
    x ∈ markedElements c ctx type relation owner ↔ Marked c type relation owner x := by
  have htype : Iterator5Params.ofType .faaaf (fixedOperand owner).param (assignOperand type).param
      varValue.param defaultArc.param (fixedOperand relation).param =
        some (.faa owner type 0 ⟨scpTypeArcPosConstPerm, .addr relation⟩) := rfl
  have hmem (t : FiveAddrs) := (mem_iterated5 hc hread htype t).trans
    (@matches5_marked c relation owner (assignOperand type) varValue rfl rfl t)
  unfold markedElements
  rw [List.mem_map]
  constructor
  · rintro ⟨t, ht, rfl⟩
    obtain ⟨_, _, he, _, ha⟩ := (hmem t).mp ht
    exact ⟨_, _, he, ha⟩
  · rintro ⟨e, a, he, ha⟩
    exact ⟨(owner, e, x, a, relation), (hmem _).mpr ⟨rfl, rfl, he, BitVec.zero_and, ha⟩, rfl⟩

/-- The process is started, or there is no cell for a mark. -/
theorem startProcess_starts (hok : StoreOk env.thread s)
    (hread : ∀ x, Live s.cell x → CanRead ctx s.cell x) {process : ScAddr} (hprocess : Live s.cell process)
    (hactive : Live s.cell kn.activeScpOperator) (huseless : Live s.cell kn.uselessScpProcess) :
    Wp (startProcess env ctx kn process) (fun _ s' => ∃ new, ProcessStarted kn s process new s')
      (fun _ => OutOfCells env ctx ((initOperators s.cell ctx kn process).length+1) s) s := by
  have hinit (x : ScAddr) : x ∈ initOperators s.cell ctx kn process ↔ _ :=
    mem_markedElements hok.cells.arcs hread scpTypeArcPosConstPerm kn.rrelInit process x
  have h : Growing env ctx s 0 s := ⟨hok, hread, .none, ∅, GrownBy.refl s⟩
  unfold startProcess
  rw [wp_bind, wp_get]
  split
  · rename_i hnil
    rw [hnil] at hinit
    apply wp_mono (h.mark (by omega) huseless hprocess) _ (fun _ hout => hout)
    rintro _ s' ⟨_, a, hnew⟩
    have hnone (x : ScAddr) : ¬ Marked s.cell scpTypeArcPosConstPerm kn.rrelInit process x :=
      fun hx => absurd ((hinit x).mpr hx) List.not_mem_nil
    refine ⟨_, hnew.grown, fun x hx => absurd hx (hnone x), fun _ => ⟨a, rfl, hnew.between⟩, ?_⟩
    rintro _ rfl
    exact Or.inr ⟨hnone, hnew.between⟩
  · rename_i operators hcons
    have hlive (x : ScAddr) (hx : x ∈ initOperators s.cell ctx kn process) : Live s.cell x :=
      (((hinit x).mp hx).live hok.cells.arcs).2.2
    apply wp_mono (activateOperators_marks _ h (by omega) hactive hlive) _ (fun _ hout => hout)
    rintro _ s' ⟨new, hgrown, hall, honly⟩
    refine ⟨new, hgrown, fun x hx => hall x ((hinit x).mpr hx), fun hnone => ?_, fun a ha => ?_⟩
    · obtain ⟨x, hx⟩ := List.exists_mem_of_ne_nil _ hcons
      exact absurd ((hinit x).mp hx) (hnone x)
    · obtain ⟨x, hx, hbetween⟩ := honly a ha
      exact Or.inl ⟨x, (hinit x).mp hx, hbetween⟩

/-! What is asked for. -/

/-- The arc that the agent is told of: the question has been initiated by it. -/
structure Initiated (c : Cells) (kn : ProcessKeynodes) (arg question : ScAddr) : Prop where
  arc : ArcBetween c scpTypeArcPosConstPerm kn.questionInitiated arg question
  node : HasType c kn.questionInitiated defaultNode.elementType

theorem requestedQuestion_reads {c : Cells} {arg : ScAddr} (hc : ArcsOk c)
    (hread : ∀ x, Live c x → CanRead ctx c x) (hinit : Initiated c kn arg question)
    (hnot : (c arg).type &&& scTypeNode = 0) (hnode : HasType c question defaultNode.elementType)
    (hrequest : ∃ e, ArcBetween c scpTypeArcPosConstPerm kn.questionScpInterpretationRequest e question) :
    requestedQuestion kn c ctx arg = .ok (kn.questionInitiated, question) := by
  obtain ⟨harc, hbegin⟩ := hinit
  have hnotNode : ¬ HasType c arg scTypeNode := by
    unfold HasType
    rw [BitVec.and_comm, flagsRemove_and _ _ (by decide), hnot]
    decide
  have hready : Dispatched3 c defaultNode ⟨arg, .fixed, scpTypeArcPosConstPerm⟩ defaultNode := by
    refine ⟨fun h => ?_, fun h => ?_, fun _ => ⟨harc.arc, hnotNode⟩, fun h => ?_⟩
    · cases h.2.1
    · cases h
    · cases h
  have hagrees := (searchElStr3_agrees_iff hc hread hready).mpr trivial
  have hmatch := @matches3_fixed c defaultNode ⟨arg, .fixed, scpTypeArcPosConstPerm⟩ defaultNode rfl harc.arc
  have htrue : (searchElStr3 c ctx defaultNode ⟨arg, .fixed, scpTypeArcPosConstPerm⟩ defaultNode).1 = .true := by
    refine hagrees.found.mpr ⟨_, (hmatch _).mpr ⟨rfl, ?_, ?_⟩⟩
    · rw [harc.source]
      exact hbegin
    · rw [harc.target]
      exact hnode
  have hheld := ((hmatch _).mp (hagrees.held htrue)).1
  unfold requestedQuestion
  rw [if_neg (not_not.mpr harc.arc.1), if_neg (not_not.mpr ((checkType_iff hread harc.arc.1).mpr harc.hasType))]
  revert htrue hheld
  generalize searchElStr3 c ctx defaultNode ⟨arg, .fixed, scpTypeArcPosConstPerm⟩ defaultNode = found
  obtain ⟨res, node1, arc, node3⟩ := found
  intro htrue hheld
  obtain rfl : res = .true := htrue
  rw [harc.source, harc.target] at hheld
  obtain ⟨hnode1, _, hnode3⟩ := Triple.mk.inj hheld
  replace hnode1 : node1.addr = kn.questionInitiated := hnode1
  replace hnode3 : node3.addr = question := hnode3
  simp only
  rw [hnode1, hnode3, if_pos ((searchElStr3_between hc hread _ _).mpr hrequest)]

theorem requestedProgram_reads {c : Cells} (hc : ArcsOk c) (hread : ∀ x, Live c x → CanRead ctx c x)
    (hcall : ProgramCall c kn procedure callParams question)
    (hmember : ∃ e, ArcBetween c scpTypeArcPosConstPerm kn.scpProgram e procedure) :
    requestedProgram kn c ctx question = some (procedure, callParams) := by
  have hfirst : searchMarked c ctx question defaultArc varValue kn.ordinalRrel1 = (.true, procedure) := by
    rcases @searchMarked_spec c ctx hc hread defaultArc varValue rfl rfl question kn.ordinalRrel1 with
      ⟨htrue, hmark, _⟩ | ⟨_, _, hnone⟩
    · exact Prod.ext htrue ((hcall.program _).mp hmark)
    · exact absurd BitVec.zero_and (hnone procedure ((hcall.program procedure).mpr rfl))
  have hsecond : searchMarked c ctx question defaultArc defaultNode kn.ordinalRrel2 = (.true, callParams) := by
    rcases @searchMarked_spec c ctx hc hread defaultArc defaultNode rfl rfl question kn.ordinalRrel2 with
      ⟨htrue, hmark, htype⟩ | ⟨_, _, hnone⟩
    · exact Prod.ext htrue ((hcall.params _).mp ⟨hmark, htype⟩)
    · obtain ⟨hmark, htype⟩ := (hcall.params callParams).mpr rfl
      exact absurd htype (hnone callParams hmark)
  unfold requestedProgram
  rw [hfirst]
  simp only
  rw [hsecond]
  simp only
  rw [if_pos ((searchElStr3_between hc hread _ _).mpr hmember)]

/-! The graph without the arc that the agent has been told of. -/

theorem arcBetween_graph {c : Cells} {type : ScType} {x e y : ScAddr} : ArcBetween c type x e y ↔
    (graphOf c).ends e = some (x, y) ∧ ∃ l, (graphOf c).label e = some l ∧ type &&& l.type = type := by
  constructor
  · intro h
    exact ⟨ends_iff.mpr ⟨h.arc, h.source, h.target⟩, _, label_of_live h.arc.1, h.hasType⟩
  · rintro ⟨hends, l, hl, htype⟩
    obtain ⟨harc, hs, ht⟩ := ends_iff.mp hends
    rw [label_of_live harc.1] at hl
    obtain rfl := Option.some.inj hl
    exact ⟨harc, hs, ht, htype⟩

section
variable {s1 : ScStorage} {arg : ScAddr} (hdelete : graphOf s1.cell = (graphOf st.cell).delete arg)
include hdelete

theorem label_of_deleted {x : ScAddr} (hx : Live s1.cell x) :
    (graphOf s1.cell).label x = (graphOf st.cell).label x ∧
      (graphOf s1.cell).ends x = (graphOf st.cell).ends x := by
  have hmem : x ∈ ((graphOf st.cell).delete arg).elements := by
    rw [← hdelete]
    exact mem_graphOf.mpr hx
  obtain ⟨_, hdep⟩ := ElementGraph.mem_delete.mp hmem
  rw [hdelete]
  exact ⟨if_neg hdep, if_neg hdep⟩

theorem live_of_deleted {x : ScAddr} (hx : Live s1.cell x) :
    Live st.cell x ∧ labelOf (st.cell x) = labelOf (s1.cell x) := by
  have hlabel := (label_of_deleted hdelete hx).1
  rw [label_of_live hx] at hlabel
  have hlive : Live st.cell x := by
    rw [← mem_graphOf, ElementGraph.mem_elements, ← hlabel]
    exact Option.some_ne_none _
  rw [label_of_live hlive] at hlabel
  exact ⟨hlive, (Option.some.inj hlabel).symm⟩

theorem arcBetween_of_deleted {type : ScType} {x e y : ScAddr} (h : ArcBetween s1.cell type x e y) :
    ArcBetween st.cell type x e y := by
  obtain ⟨hlabel, hends⟩ := label_of_deleted hdelete h.arc.1
  rw [arcBetween_graph] at h ⊢
  rw [← hlabel, ← hends]
  exact h

theorem reads_of_deleted (hread : ∀ x, Live st.cell x → CanRead ctx st.cell x) (x : ScAddr)
    (hx : Live s1.cell x) : CanRead ctx s1.cell x := by
  obtain ⟨hlive, hlabel⟩ := live_of_deleted hdelete hx
  have hlevels : (st.cell x).accessLevels = (s1.cell x).accessLevels := congrArg ElementLabel.accessLevels hlabel
  have hcan := hread x hlive
  unfold CanRead at hcan ⊢
  rwa [hlevels] at hcan

theorem hasType_of_deleted {type : ScType} {x : ScAddr} (hx : Live s1.cell x) (h : HasType s1.cell x type) :
    HasType st.cell x type := by
  have htype : scFlagsRemove (st.cell x).type = scFlagsRemove (s1.cell x).type :=
    congrArg ElementLabel.type (live_of_deleted hdelete hx).2
  unfold HasType at h ⊢
  rwa [htype]

end

theorem TemplateProgram.mem_template {c : Cells} (hprogram : TemplateProgram c kn procedure) (hc : ArcsOk c)
    (hread : ∀ x, Live c x → CanRead ctx c x) (x : ScAddr) :
    x ∈ (setElements c ctx (copyingPattern c ctx kn procedure)).map (·.target) ↔
      InTemplate c kn procedure x :=
  mem_foundSet_map hc hread rfl
    (hprogram.oneSet (commonArc.elementType, kn.nrelTemplateOfScpProcessCreation) (by simp)) x

/-- As many elements as a process needs for its variables, its pattern, its node and the arcs at this. -/
def processRoom (c : Cells) (ctx : ScContext) (kn : ProcessKeynodes) (procedure : ScAddr) : ℕ :=
  (setElements c ctx (varsSet c ctx kn procedure)).length+
    (setElements c ctx (copyingPattern c ctx kn procedure)).length+4

/-- The part of the agent behind the question: the process is made and started, or a cell is missing. -/
theorem process_made {s1 : ScStorage} (hok : StoreOk env.thread s1)
    (hread : ∀ x, Live s1.cell x → CanRead ctx s1.cell x) (hranked : ArcsRanked s1.cell)
    (hprogram : TemplateProgram s1.cell kn procedure)
    (hcall : ProgramCall s1.cell kn procedure callParams question)
    (hkeynodes : ∀ k ∈ [kn.nrelScpProcess, kn.scpProcess, kn.activeScpOperator, kn.uselessScpProcess],
      Live s1.cell k) (patternOrder : HashOrder) :
    ∃ bound, ∀ fuel, bound ≤ fuel →
      Wp (makeProcessOf env ctx patternOrder kn fuel node1 question procedure callParams)
      (fun r s3 => OutOfCells env ctx (processRoom s1.cell ctx kn procedure) s1 ∨
        ∃ process image s2, ProcessCopied kn procedure callParams question s1 s2 process image ∧ r = .ok ∧
          ∃ new, ProcessStarted kn s2 process new s3)
      (fun _ => OutOfCells env ctx (processRoom s1.cell ctx kn procedure) s1 ∨
        ∃ process image s2, ProcessCopied kn procedure callParams question s1 s2 process image ∧
          OutOfCells env ctx ((initOperators s2.cell ctx kn process).length+1) s2) s1 := by
  have hc := hok.cells.arcs
  obtain ⟨rank, hrank⟩ := hranked.ranked
  refine ⟨((setElements s1.cell ctx (copyingPattern s1.cell ctx kn procedure)).map (·.target)).toFinset.sup
    rank+1, fun fuel hfuel => ?_⟩
  have htemplate := @TemplateProgram.mem_template ctx kn procedure s1.cell hprogram hc hread
  unfold makeProcessOf
  rw [wp_bind]
  have hvars : (setElements s1.cell ctx (varsSet s1.cell ctx kn procedure)).length ≤
      processRoom s1.cell ctx kn procedure := by
    unfold processRoom
    omega
  apply wp_mono (processTables_fills hok hread hprogram hcall hvars) _ (fun _ hout => Or.inl hout)
  rintro _ s (hout | ⟨tables, rfl, hfilled⟩)
  · exact wp_always (fun _ _ => Or.inl hout) (fun _ => Or.inl hout)
  obtain ⟨n, hn, hgrowing⟩ := hfilled.growing
  simp only
  rw [wp_bind]
  have hlive (k : ScAddr) (hk : k ∈ [kn.nrelScpProcess, kn.scpProcess, kn.activeScpOperator,
      kn.uselessScpProcess]) : Live s1.cell k := hkeynodes k hk
  have hquestion : Live s1.cell question := by
    obtain ⟨e, he⟩ := hcall.request
    exact (he.live hc).2
  have hroom : n+3 < processRoom s1.cell ctx kn procedure := by
    unfold processRoom
    omega
  apply wp_mono (makeProcess_made hfilled hgrowing hroom hc hprogram hquestion (hlive _ (by simp))
    (hlive _ (by simp))) _ (fun _ hout => Or.inl hout)
  rintro ⟨process, tables'⟩ s' (hout | hmade)
  · exact wp_always (fun _ _ => Or.inl hout) (fun _ => Or.inl hout)
  simp only at hmade ⊢
  rw [wp_bind]
  obtain ⟨hbase, hknown⟩ := hmade.copyBase hfilled hprogram hc hranked.notNode hrank
  have hpattern := hmade.mem_pattern hfilled hprogram
  have hmem (v : ScAddr) (hv : v ∈ tables'.pattern) :
      v ∈ (setElements s1.cell ctx (copyingPattern s1.cell ctx kn procedure)).map (·.target) :=
    (htemplate v).mpr ((hpattern v).mp hv).1
  have hlength : tables'.pattern.length ≤
      (setElements s1.cell ctx (copyingPattern s1.cell ctx kn procedure)).length :=
    calc tables'.pattern.length
        ≤ ((setElements s1.cell ctx (copyingPattern s1.cell ctx kn procedure)).map (·.target)).length :=
          (List.subperm_of_subset (hmade.nodup_pattern hfilled) hmem).length_le
      _ = (setElements s1.cell ctx (copyingPattern s1.cell ctx kn procedure)).length := List.length_map _
  have htotal : n+4+tables'.pattern.length ≤ processRoom s1.cell ctx kn procedure := by
    unfold processRoom
    omega
  have hstart : (CopyBase.mk s' tables'.copies tables'.pattern).Copied env ctx s1 (n+4) tables' s' :=
    ⟨CopyBase.added_start hmade.growing.store hmade.growing.reads hmade.growing.made, rfl⟩
  have hin (v : ScAddr) (hv : v ∈ patternOrder.list tables'.pattern) :
      v ∈ tables'.pattern ∧ rank v < fuel := by
    have hv' := (patternOrder.perm _).mem_iff.mp hv
    have hle : rank v ≤ _ := Finset.le_sup (List.mem_toFinset.mpr (hmem v hv'))
    exact ⟨hv', by omega⟩
  apply wp_mono (CopyBase.genCopies_made hbase htotal fuel _ tables' s' hstart hin)
  · rintro tables'' s2 (hout | ⟨hcopied, _, hall⟩)
    · exact wp_always (fun _ _ => Or.inl hout) (fun _ => Or.inl hout)
    have hmadeOf := processCopied_of_copies hfilled hmade hprogram hc hranked.notNode hcopied fun v hv =>
      hall v ((patternOrder.perm _).mem_iff.mpr hv)
    obtain ⟨new, hgrown, hnew, _⟩ := hmadeOf.grown
    have hstill {x : ScAddr} (hx : Live s1.cell x) : Live s2.cell x :=
      (grown_same hgrown hx).same.live.mpr hx
    rw [wp_bind]
    apply wp_mono (startProcess_starts hcopied.store hcopied.reads (hgrown.live process hnew)
      (hstill (hlive _ (by simp))) (hstill (hlive _ (by simp))))
    · rintro _ s3 hstarted
      exact Or.inr ⟨process, _, s2, hmadeOf, rfl, hstarted⟩
    · intro _ hout
      exact Or.inr ⟨process, _, s2, hmadeOf, hout⟩
  · rintro _ (hout | hunknown)
    · exact Or.inl hout
    · exact absurd hknown hunknown

end

theorem createScpProcess_eq {env : ScEnv} {ctx : ScContext} {kn : ProcessKeynodes} {st s1 : ScStorage}
    {order patternOrder : HashOrder} {fuel : ℕ} {arg node1 question procedure callParams : ScAddr}
    (hlive : Live st.cell arg) (herase : scStorageElementFree env ctx order arg st = .ok (.ok, s1))
    (hquestion : requestedQuestion kn st.cell ctx arg = .ok (node1, question))
    (hprogram : requestedProgram kn s1.cell ctx question = some (procedure, callParams)) :
    createScpProcess env ctx order patternOrder kn fuel arg st =
      makeProcessOf env ctx patternOrder kn fuel node1 question procedure callParams s1 := by
  have hget (s : ScStorage) : (get : StoreM ScStorage) s = .ok (s, s) := rfl
  have herase' : eraseEl env ctx order ⟨fixedOperand arg, .const, true⟩ st = .ok (.true, s1) := by
    unfold eraseEl
    rw [run_bind_ok (hget st), if_neg (by simp [fixedOperand, hlive])]
    exact run_bind_ok herase _
  unfold createScpProcess
  rw [run_bind_ok (hget st), hquestion]
  simp only
  rw [run_bind_ok herase', run_bind_ok (hget s1), hprogram]

/-- Whatever the orders of the hash tables are: of a program with a pattern `create_scp_process` makes a
process that realises the pattern, and starts it, unless the cells for it run out. The recursion of
`gen_copy` ends. -/
theorem scp_process_created (thread : ℕ) (evs : List StoreEvent) (st : ScStorage)
    (hr : Run (OwnStep thread) ScStorage.empty evs st) (env : ScEnv) (henv : env.thread = thread)
    (ctx : ScContext) (hread : ∀ x, Live st.cell x → CanRead ctx st.cell x) (order patternOrder : HashOrder)
    (kn : ProcessKeynodes) (arg question procedure callParams : ScAddr)
    (hinit : Initiated st.cell kn arg question) (s1 : ScStorage)
    (herase : scStorageElementFree env ctx order arg st = .ok (.ok, s1))
    (hprogram : TemplateProgram s1.cell kn procedure)
    (hcall : ProgramCall s1.cell kn procedure callParams question)
    (hkeynodes : ∀ k ∈ [kn.nrelScpProcess, kn.scpProcess, kn.activeScpOperator, kn.uselessScpProcess],
      Live s1.cell k) :
    ∃ bound, ∀ fuel, bound ≤ fuel → OutOfCells env ctx (processRoom s1.cell ctx kn procedure) s1 ∨
      ∃ process image s2, ProcessCopied kn procedure callParams question s1 s2 process image ∧
        (OutOfCells env ctx ((initOperators s2.cell ctx kn process).length+1) s2 ∨
          ∃ s3 new, createScpProcess env ctx order patternOrder kn fuel arg st = .ok (.ok, s3) ∧
            ProcessStarted kn s2 process new s3) := by
  subst henv
  have hok := ownRun_storeOk evs st hr
  have hranked := ownRun_arcsRanked evs st hr
  have hc := hok.cells.arcs
  have hstep : OwnStep env.thread st ⟨env, .call (.elementFree ctx order arg)⟩ s1 := by
    refine ⟨rfl, trivial, ?_⟩
    show ignoreResult (scStorageElementFree env ctx order arg) st = .ok ((), s1)
    unfold ignoreResult
    rw [run_bind_ok herase]
    rfl
  have hok1 := storeOk_step _ _ _ hok hstep
  have hranked1 := arcsRanked_step hok hranked hstep
  have hdelete : graphOf s1.cell = (graphOf st.cell).delete arg := by
    rcases wp_ok (elementFree_answer hok order arg) herase with ⟨_, h, _⟩ | ⟨_, h, _⟩ | ⟨_, _, hg, _⟩
    · cases h
    · cases h
    · exact hg
  have hread1 := reads_of_deleted hdelete hread
  obtain ⟨e, he⟩ := hcall.request
  have hquestion := requestedQuestion_reads hc hread hinit (hranked.notNode arg hinit.arc.arc)
    (hasType_of_deleted hdelete (he.live hok1.cells.arcs).2 hcall.node) ⟨e, arcBetween_of_deleted hdelete he⟩
  have hprogram1 := requestedProgram_reads hok1.cells.arcs hread1 hcall hprogram.member
  obtain ⟨bound, hbound⟩ := @process_made env ctx kn procedure callParams question kn.questionInitiated s1
    hok1 hread1 hranked1 hprogram hcall hkeynodes patternOrder
  refine ⟨bound, fun fuel hfuel => ?_⟩
  have hwp := hbound fuel hfuel
  rw [createScpProcess_eq hinit.arc.arc.1 herase hquestion hprogram1]
  cases hrun : makeProcessOf env ctx patternOrder kn fuel kn.questionInitiated question procedure callParams
      s1 with
  | error stop =>
    unfold Wp at hwp
    rw [hrun] at hwp
    rcases hwp with hout | ⟨process, image, s2, hcopied, hout⟩
    · exact Or.inl hout
    · exact Or.inr ⟨process, image, s2, hcopied, Or.inl hout⟩
  | ok q =>
    obtain ⟨r, s3⟩ := q
    rcases wp_ok hwp hrun with hout | ⟨process, image, s2, hcopied, rfl, new, hstarted⟩
    · exact Or.inl hout
    · exact Or.inr ⟨process, image, s2, hcopied, Or.inr ⟨s3, new, rfl, hstarted⟩⟩

/-- The node or arc that has been made as the `i`-th one. -/
def madeAt (i : ℕ) : ScAddr := ⟨0, BitVec.ofNat 16 (1+32*i)⟩

/-- The keynodes, the question, the program, its parameters, its set of operators, its template and an
operator of that, with the arcs of a call. -/
def programEvents : List StoreEvent :=
  List.replicate 14 (nodeEvent scTypeConst) ++
    [arcEvent scpTypeArcPosConstPerm (madeAt 1) (madeAt 8),
      arcEvent scpTypeArcPosConstPerm (madeAt 8) (madeAt 9),
      arcEvent scpTypeArcPosConstPerm (madeAt 2) (madeAt 15),
      arcEvent scpTypeArcPosConstPerm (madeAt 8) (madeAt 10),
      arcEvent scpTypeArcPosConstPerm (madeAt 3) (madeAt 17),
      arcEvent scpTypeArcPosConstPerm (madeAt 4) (madeAt 9),
      arcEvent scpTypeArcPosConstPerm (madeAt 9) (madeAt 11),
      arcEvent scpTypeArcPosConstPerm (madeAt 6) (madeAt 20),
      arcEvent commonArc.elementType (madeAt 9) (madeAt 12),
      arcEvent scpTypeArcPosConstPerm (madeAt 5) (madeAt 22),
      arcEvent scpTypeArcPosConstPerm (madeAt 11) (madeAt 13),
      arcEvent scpTypeArcPosConstPerm (madeAt 12) (madeAt 13),
      arcEvent scpTypeArcPosConstPerm (madeAt 12) (madeAt 11),
      arcEvent scpTypeArcPosConstPerm (madeAt 12) (madeAt 24),
      arcEvent scpTypeArcPosConstPerm (madeAt 0) (madeAt 8)]

def storeWithProgram : ScStorage := stateAfterEvents programEvents ScStorage.empty

def exampleProcessKeynodes : ProcessKeynodes where
  questionInitiated := madeAt 0
  questionScpInterpretationRequest := madeAt 1
  ordinalRrel1 := madeAt 2
  ordinalRrel2 := madeAt 3
  scpProgram := madeAt 4
  nrelTemplateOfScpProcessCreation := madeAt 5
  rrelOperators := madeAt 6
  orderRoleRelation := madeAt 7
  nrelScpProgramVar := madeAt 7
  nrelScpProgramConst := madeAt 7
  rrelParams := madeAt 7
  nrelScpProcess := madeAt 7
  scpProcess := madeAt 7
  rrelInit := madeAt 7
  activeScpOperator := madeAt 7
  uselessScpProcess := madeAt 7

theorem storeWithProgram_run : Run (OwnStep 1) ScStorage.empty programEvents storeWithProgram :=
  ownRun_of_ownEvents programEvents _ (by decide +kernel)

/-- The store when the arc of the initiation is gone. -/
def storeAfterRequest : ScStorage :=
  afterCall (scStorageElementFree exampleEnv exampleContext tableOrder (madeAt 28)) storeWithProgram

theorem storeAfterRequest_erased : scStorageElementFree exampleEnv exampleContext tableOrder (madeAt 28)
    storeWithProgram = .ok (.ok, storeAfterRequest) :=
  call_eq (by decide +kernel)

theorem storeAfterRequest_ok : StoreOk 1 storeAfterRequest := by
  have hstep : OwnStep 1 storeWithProgram ⟨exampleEnv, .call (.elementFree exampleContext tableOrder (madeAt 28))⟩
      storeAfterRequest := by
    refine ⟨rfl, trivial, ?_⟩
    show ignoreResult (scStorageElementFree exampleEnv exampleContext tableOrder (madeAt 28)) storeWithProgram =
      .ok ((), storeAfterRequest)
    unfold ignoreResult
    rw [run_bind_ok storeAfterRequest_erased]
    rfl
  exact storeOk_step _ _ _ (ownRun_storeOk _ _ storeWithProgram_run) hstep

section
variable {c : Cells} (hc : ArcsOk c) (hread : ∀ x, Live c x → CanRead ctx c x)
include hc hread

/-- A program whose sets are read off the lists of the iterators. -/
theorem templateProgram_of_lists (set : ScAddr) (t : Triple ScAddr)
    (hmember : t ∈ setElements c ctx kn.scpProgram ∧ t.target = procedure)
    (hsets : ∀ p ∈ [(commonArc.elementType, kn.nrelScpProgramVar),
      (commonArc.elementType, kn.nrelScpProgramConst), (scpTypeArcPosConstPerm, kn.rrelParams),
      (commonArc.elementType, kn.nrelTemplateOfScpProcessCreation)],
      (markedElements c ctx p.1 p.2 procedure).length ≤ 1)
    (hoperators : markedElements c ctx scpTypeArcPosConstPerm kn.rrelOperators procedure = [set])
    (hset : HasType c set defaultNode.elementType)
    (htemplate : ∀ x ∈ (setElements c ctx (copyingPattern c ctx kn procedure)).map (·.target),
      HasType c x scTypeNode ∧ ¬ LiveArc c x ∨ LiveArc c x ∧ HasType c (ownerOf c .out x) scTypeNode ∧
        HasType c (ownerOf c .inp x) scTypeNode) : TemplateProgram c kn procedure := by
  have hmarked (type : ScType) (relation x : ScAddr) := @mem_markedElements ctx c hc hread type relation procedure x
  have hone : ∀ p ∈ [(commonArc.elementType, kn.nrelScpProgramVar),
      (commonArc.elementType, kn.nrelScpProgramConst), (scpTypeArcPosConstPerm, kn.rrelParams),
      (commonArc.elementType, kn.nrelTemplateOfScpProcessCreation)],
      ∀ set set', Marked c p.1 p.2 procedure set → Marked c p.1 p.2 procedure set' → set = set' := by
    intro p hp x y hx hy
    rw [← hmarked] at hx hy
    have hlen := hsets p hp
    generalize markedElements c ctx p.1 p.2 procedure = l at hx hy hlen
    obtain _ | ⟨z, _ | ⟨w, l⟩⟩ := l
    · cases hx
    · rw [List.mem_singleton.mp hx, List.mem_singleton.mp hy]
    · simp at hlen
  have hin (x : ScAddr) : x ∈ (setElements c ctx (copyingPattern c ctx kn procedure)).map (·.target) ↔
      InTemplate c kn procedure x :=
    mem_foundSet_map hc hread rfl (hone (commonArc.elementType, kn.nrelTemplateOfScpProcessCreation) (by simp)) x
  refine ⟨⟨t.edge, ?_⟩, hone, ⟨set, fun x => ?_⟩, fun x hx => ?_, fun a ha harc d => ?_⟩
  · rw [← hmember.2]
    exact ((mem_setElements hc hread t).mp hmember.1).2
  · unfold IsOperatorSet
    rw [← hmarked, hoperators, List.mem_singleton]
    constructor
    · exact And.left
    · rintro rfl
      exact ⟨rfl, hset⟩
  · exact (htemplate x ((hin x).mpr hx.1)).imp And.left And.left
  · rcases htemplate a ((hin a).mpr ha.1) with ⟨_, hnot⟩ | ⟨_, hout, hinp⟩
    · exact absurd harc hnot
    · cases d with
      | out => exact Or.inr (Or.inl hout)
      | inp => exact Or.inr (Or.inl hinp)

/-- A call of a program without parameters. -/
theorem programCall_of_lists (t : Triple ScAddr) (hnode : HasType c question defaultNode.elementType)
    (hrequest : t ∈ setElements c ctx kn.questionScpInterpretationRequest ∧ t.target = question)
    (hprogram : markedElements c ctx scpTypeArcPosConstPerm kn.ordinalRrel1 question = [procedure])
    (hparams : markedElements c ctx scpTypeArcPosConstPerm kn.ordinalRrel2 question = [callParams])
    (htype : HasType c callParams defaultNode.elementType)
    (hnone : markedElements c ctx scpTypeArcPosConstPerm kn.rrelParams procedure = []) :
    ProgramCall c kn procedure callParams question := by
  have hmarked (relation owner x : ScAddr) :=
    @mem_markedElements ctx c hc hread scpTypeArcPosConstPerm relation owner x
  refine ⟨hnode, ⟨t.edge, ?_⟩, fun x => ?_, fun x => ?_, fun set e p hset _ => ?_⟩
  · rw [← hrequest.2]
    exact ((mem_setElements hc hread t).mp hrequest.1).2
  · rw [← hmarked, hprogram, List.mem_singleton]
  · rw [← hmarked, hparams, List.mem_singleton]
    constructor
    · exact And.left
    · rintro rfl
      exact ⟨rfl, htype⟩
  · rw [← hmarked, hnone] at hset
    cases hset

end

theorem scp_process_created_program :
    ∃ bound, ∀ fuel, bound ≤ fuel →
      OutOfCells exampleEnv exampleContext (processRoom storeAfterRequest.cell exampleContext
        exampleProcessKeynodes (madeAt 9)) storeAfterRequest ∨
      ∃ process image s2, ProcessCopied exampleProcessKeynodes (madeAt 9) (madeAt 10) (madeAt 8)
          storeAfterRequest s2 process image ∧
        (OutOfCells exampleEnv exampleContext
            ((initOperators s2.cell exampleContext exampleProcessKeynodes process).length+1) s2 ∨
          ∃ s3 new, createScpProcess exampleEnv exampleContext tableOrder tableOrder exampleProcessKeynodes fuel
              (madeAt 28) storeWithProgram = .ok (.ok, s3) ∧
            ProcessStarted exampleProcessKeynodes s2 process new s3) := by
  have hread := everything_readable storeAfterRequest.cell
  have hc := storeAfterRequest_ok.cells.arcs
  exact scp_process_created 1 programEvents storeWithProgram storeWithProgram_run exampleEnv rfl
    exampleContext (everything_readable _) tableOrder tableOrder exampleProcessKeynodes (madeAt 28) (madeAt 8)
    (madeAt 9) (madeAt 10)
    ⟨⟨by decide +kernel, by decide +kernel, by decide +kernel, by decide +kernel⟩, by decide +kernel⟩
    storeAfterRequest storeAfterRequest_erased
    (templateProgram_of_lists hc hread (madeAt 11) ⟨madeAt 4, madeAt 19, madeAt 9⟩ (by decide +kernel)
      (by decide +kernel) (by decide +kernel) (by decide +kernel) (by decide +kernel))
    (programCall_of_lists hc hread ⟨madeAt 1, madeAt 14, madeAt 8⟩ (by decide +kernel) (by decide +kernel)
      (by decide +kernel) (by decide +kernel) (by decide +kernel) (by decide +kernel))
    (by unfold Live; decide +kernel)

end ScMachine.Scp
