import ScMachine.ScTemplateGenerate
import ScMachine.OwnRuns

/-! What a generation does, triple by triple: which element an item of a triple stands for, which
elements are new, and what is left of the others. -/
namespace ScMachine.Store
open ScMachine.StateExcept

section
variable {env : ScEnv} {st s st' : ScStorage} {a x : ScAddr}

/-- A call by the one thread keeps the invariant, whatever is done with its result. -/
theorem storeOk_call {α : Type} {f : StoreM α} (c : StorageCall) (hrun : c.run env = ignoreResult f)
    (hallow : c.Allowed st) (h : StoreOk env.thread st) :
    IfReturns f (fun _ s => StoreOk env.thread s) st := by
  apply ifReturns_of_ok
  intro r s hs
  have hstep : StoreStep st ⟨env, .call c⟩ s := by
    show c.run env st = .ok ((), s)
    rw [hrun]
    unfold ignoreResult
    rw [run_bind_ok hs]
    rfl
  exact storeOk_step st ⟨env, .call c⟩ s h ⟨rfl, hallow, hstep⟩

/-- What the creation of another element leaves of `x`. -/
structure Untouched (st st' : ScStorage) (x : ScAddr) : Prop where
  same : SameElement st st' x
  owner : ∀ d, ownerOf st'.cell d x = ownerOf st.cell d x
  refCount : st'.refCount x = st.refCount x

theorem Untouched.of_unlocked (h : st'.unlocked = st.unlocked) (x : ScAddr) :
    Untouched st st' x := by
  have hcell := cell_of_unlocked h
  refine ⟨sameElement_of_eq (by rw [hcell]), ?_, ?_⟩
  · intro d
    rw [hcell]
  · rw [refCount_of_unlocked h]

theorem SameElement.liveArc (h : SameElement st st' x) : LiveArc st'.cell x ↔ LiveArc st.cell x := by
  unfold LiveArc ScElement.isArc
  rw [h.live, h.type]

theorem Untouched.trans (h : Untouched st s x) (h' : Untouched s st' x) : Untouched st st' x := by
  refine ⟨⟨?_, ?_, ?_⟩, ?_, ?_⟩
  · rw [h'.same.type, h.same.type]
  · rw [h'.same.accessLevels, h.same.accessLevels]
  · intro hx
    rw [h'.same.data (fun hs => hx (h.same.liveArc.mp hs)), h.same.data hx]
  · intro d
    rw [h'.owner, h.owner]
  · rw [h'.refCount, h.refCount]

theorem Created.notEmpty {c : Cells} (h : Created st a c st') : a ≠ ScAddr.empty := by
  obtain ⟨s1, happ, _, _⟩ := h
  exact happ.notEmpty

theorem Created.untouched {el : ScElement}
    (h : Created st a (Function.update st.cell a el) st') (hx : x ≠ a) : Untouched st st' x := by
  obtain ⟨href, _, _, hcell⟩ := h.refCount
  have hx' : st'.cell x = st.cell x := by
    rw [hcell, Function.update_of_ne hx]
  refine ⟨sameElement_of_eq hx', ?_, ?_⟩
  · intro d
    unfold ownerOf
    rw [hx']
  · rw [href, Function.update_of_ne hx]

theorem ArcCreated.added {type : ScType} {beg end_ : ScAddr} {levels : ScAccessLevels}
    (h : ArcCreated st type beg end_ levels a st') (hc : CellsOk st) :
    ArcAdded st.cell st'.cell a (fun d => match d with | .out => beg | .inp => end_) := by
  obtain ⟨s1, happ, hl, hw⟩ := h.created
  have hdead : ¬ Live st.cell a := fun hh => type_of_live hh happ.free
  rw [hw.cell]
  exact linkCells_added type beg end_ levels (hc.zero a happ.free)
    (fun he => hdead (he ▸ h.beginLive)) (fun he => hdead (he ▸ h.endLive)) happ.notEmpty
    (hc.arcs.ne_first hdead happ.notEmpty h.beginLive .out)
    (hc.arcs.ne_first hdead happ.notEmpty h.endLive .inp) (newArcCell_live _ _ _ _ _ _ _)

theorem ArcCreated.untouched {type : ScType} {beg end_ : ScAddr} {levels : ScAccessLevels}
    (h : ArcCreated st type beg end_ levels a st') (hc : CellsOk st) (hx : x ≠ a) :
    Untouched st st' x := by
  refine ⟨h.same hc x hx, ?_, ?_⟩
  · intro d
    rw [(h.added hc).owner, if_neg hx]
  · rw [h.created.refCount.1, Function.update_of_ne hx]

/-- Exactly the elements `new` are added. -/
structure GrownBy (st : ScStorage) (new : Set ScAddr) (st' : ScStorage) : Prop where
  free : ∀ x ∈ new, (st.cell x).type = 0
  live : ∀ x ∈ new, Live st'.cell x
  others : ∀ x, x ∉ new → Untouched st st' x
  fileMemory : st'.fileMemory = st.fileMemory

theorem GrownBy.refl (st : ScStorage) : GrownBy st ∅ st :=
  ⟨fun _ h => h.elim, fun _ h => h.elim, fun x _ => Untouched.of_unlocked rfl x, rfl⟩

theorem GrownBy.was_free {new : Set ScAddr} (h : GrownBy st new st') (ha : (st'.cell a).type = 0) :
    (st.cell a).type = 0 := by
  have hnot : a ∉ new := fun hn => type_of_live (h.live _ hn) ha
  rw [← (h.others _ hnot).same.type]
  exact ha

theorem GrownBy.trans {new new' : Set ScAddr} (h : GrownBy st new s) (h' : GrownBy s new' st') :
    GrownBy st (new ∪ new') st' := by
  refine ⟨?_, ?_, ?_, h'.fileMemory.trans h.fileMemory⟩
  · rintro x (hx | hx)
    · exact h.free x hx
    · have hfree := h'.free x hx
      have hnot : x ∉ new := fun hn => type_of_live (h.live x hn) hfree
      rw [← (h.others x hnot).same.type]
      exact hfree
  · intro x hx
    by_cases hx' : x ∈ new'
    · exact h'.live x hx'
    · exact (h'.others x hx').same.live.mpr (h.live x (hx.resolve_right hx'))
  · intro x hx
    exact (h.others x fun hn => hx (Or.inl hn)).trans (h'.others x fun hn => hx (Or.inr hn))

theorem GrownBy.liveArc {new : Set ScAddr} (h : GrownBy st new st') (hx : LiveArc st.cell x) :
    LiveArc st'.cell x ∧ (st'.cell x).type = (st.cell x).type ∧
      ∀ d, ownerOf st'.cell d x = ownerOf st.cell d x := by
  have hnot : x ∉ new := fun hn => type_of_live hx.1 (h.free x hn)
  have hun := h.others x hnot
  exact ⟨hun.same.liveArc.mpr hx, hun.same.type, hun.owner⟩

theorem Created.grown {el : ScElement} (h : Created st a (Function.update st.cell a el) st')
    (hlive : Live (fun _ => el) a) : GrownBy st {a} st' := by
  obtain ⟨_, hfm, hfree, hcell⟩ := h.refCount
  refine ⟨?_, ?_, fun x hx => h.untouched hx, hfm⟩
  · rintro x rfl
    exact hfree
  · rintro x rfl
    unfold Live at hlive ⊢
    rw [hcell, Function.update_self]
    exact hlive

theorem ArcCreated.grown {type : ScType} {beg end_ : ScAddr} {levels : ScAccessLevels}
    (h : ArcCreated st type beg end_ levels a st') (hc : CellsOk st) : GrownBy st {a} st' := by
  refine ⟨?_, ?_, fun x hx => h.untouched hc hx, h.created.refCount.2.1⟩
  · rintro x rfl
    exact h.created.refCount.2.2.1
  · rintro x rfl
    exact (h.isArc hc).1

theorem ArcCreated.typeOf {type : ScType} {beg end_ : ScAddr} {levels : ScAccessLevels}
    (h : ArcCreated st type beg end_ levels a st') :
    (st'.cell a).type = arcTypeOf type ∧ (st'.cell a).accessLevels = levels := by
  rw [h.created.refCount.2.2.2]
  unfold linkCells
  rw [setHeads_eq]
  constructor
  · simp only [relinkCell_type, Function.update_self]
    rfl
  · simp only [relinkCell_eq, Function.update_self]
    split_ifs <;> rfl

end

end ScMachine.Store

namespace ScMachine.Template
open ScMachine.Store ScMachine.StateExcept

section
variable {env : ScEnv} {ctx : ScContext} {params : ScTemplateParams} {st st' : ScStorage}
  {g g' : GenerateState}

/-- The cell of a node or a link that stands for an item. -/
def endCell (ctx : ScContext) (type : ScType) : ScElement :=
  if type.isNode then nodeCell ctx type else linkCell ctx true

/-- The element `a` is created as a node or a link of the type. -/
structure EndCreated (ctx : ScContext) (type : ScType) (st : ScStorage) (a : ScAddr)
    (st' : ScStorage) : Prop where
  created : Created st a (Function.update st.cell a (endCell ctx type)) st'
  isEnd : type.isNode = true ∧ scTypeArcMask &&& type = 0 ∨ type.isNode = false ∧ type.isLink = true

theorem createNodeLink_returns (hok : StoreOk env.thread st) (type : ScType) (g : GenerateState) :
    IfReturns (createNodeLink env ctx type g) (fun p st' => StoreOk env.thread st' ∧
      ((st'.unlocked = st.unlocked ∧ p = (ScAddr.empty, g)) ∨ EndCreated ctx type st p.1 st' ∧
        p.2 = { g with createdElements := g.createdElements ++ [p.1] })) st := by
  have hstart := holds_start env.thread st hok.wf.1 hok.wf.2
  have hreturn (a : ScAddr) (s : ScStorage) (hs : StoreOk env.thread s)
      (ha : (s.unlocked = st.unlocked ∧ a = ScAddr.empty) ∨ EndCreated ctx type st a s) :
      IfReturns (if a = ScAddr.empty then pure (a, g)
          else pure (a, { g with createdElements := g.createdElements ++ [a] }) :
            StoreM (ScAddr × GenerateState)) (fun p st' => StoreOk env.thread st' ∧
        ((st'.unlocked = st.unlocked ∧ p = (ScAddr.empty, g)) ∨ EndCreated ctx type st p.1 st' ∧
          p.2 = { g with createdElements := g.createdElements ++ [p.1] })) s := by
    rw [IfReturns, wp_ite, wp_pure, wp_pure]
    constructor
    · rintro rfl
      rcases ha with ⟨hu, _⟩ | hcr
      · exact ⟨hs, Or.inl ⟨hu, rfl⟩⟩
      · exact absurd rfl hcr.created.notEmpty
    · intro hne
      rcases ha with ⟨_, he⟩ | hcr
      · exact absurd he hne
      · exact ⟨hs, Or.inr ⟨hcr, rfl⟩⟩
  unfold createNodeLink
  dsimp only
  rw [IfReturns, wp_ite]
  constructor
  · intro hnode
    rw [wp_bind]
    have hcall := storeOk_call (f := scStorageNodeNew env ctx type) (.nodeNew ctx type) rfl trivial hok
    have hnew : IfReturns (scStorageNodeNew env ctx type) (fun r s =>
        (s.unlocked = st.unlocked ∧ r = ScAddr.empty) ∨ EndCreated ctx type st r s) st := by
      unfold scStorageNodeNew scStorageNodeNewExt
      rw [IfReturns, wp_bind, wp_scAssert]
      refine ⟨fun hm => ?_, fun _ => trivial⟩
      apply wp_mono (newElement_returns hstart hok.cells ctx _) _ (fun _ _ => trivial)
      rintro r s (hfail | hcr)
      · exact Or.inl hfail
      · refine Or.inr ⟨?_, Or.inl ⟨hnode, by simpa using hm⟩⟩
        unfold endCell
        rw [if_pos hnode]
        exact hcr
    apply wp_mono (wp_and hcall hnew) _ (fun _ _ => trivial)
    rintro a s ⟨hs, ha⟩
    exact hreturn a s hs ha
  · intro hnode
    rw [wp_ite]
    constructor
    · intro hlink
      rw [wp_bind]
      have hcall := storeOk_call (f := scStorageLinkNew env ctx true) (.linkNew ctx true) rfl trivial hok
      have hnew : IfReturns (scStorageLinkNew env ctx true) (fun r s =>
          (s.unlocked = st.unlocked ∧ r = ScAddr.empty) ∨ EndCreated ctx type st r s) st := by
        apply wp_mono (newElement_returns hstart hok.cells ctx _) _ (fun _ _ => trivial)
        rintro r s (hfail | hcr)
        · exact Or.inl hfail
        · refine Or.inr ⟨?_, Or.inr ⟨by simpa using hnode, hlink⟩⟩
          unfold endCell
          rw [if_neg hnode]
          exact hcr
      apply wp_mono (wp_and hcall hnew) _ (fun _ _ => trivial)
      rintro a s ⟨hs, ha⟩
      exact hreturn a s hs ha
    · intro _
      rw [wp_bind, wp_pure]
      exact hreturn _ st hok (Or.inl ⟨rfl, rfl⟩)

/-- The element that an item stands for: one that is known, or a new one. -/
inductive ItemResolved (ctx : ScContext) (params : ScTemplateParams) (item : ScTemplateArg)
    (st : ScStorage) (g : GenerateState) : ScAddr → ScStorage → GenerateState → Prop
  | known : knownAddr params g.result item ≠ ScAddr.empty →
      ItemResolved ctx params item st g (knownAddr params g.result item) st g
  | fresh (a : ScAddr) (st' : ScStorage) : knownAddr params g.result item = ScAddr.empty →
      item.kind = .type → EndCreated ctx item.typeValue.upConstType st a st' →
      ItemResolved ctx params item st g a st'
        { g with createdElements := g.createdElements ++ [a] }

theorem resolveAddr_returns (hok : StoreOk env.thread st) (item : ScTemplateArg) (g : GenerateState) :
    IfReturns (resolveAddr env ctx params item g) (fun p st' => StoreOk env.thread st' ∧
      ((st'.unlocked = st.unlocked ∧ p = (ScAddr.empty, g)) ∨
        ItemResolved ctx params item st g p.1 st' p.2)) st := by
  unfold resolveAddr
  rw [IfReturns, wp_ite]
  constructor
  · rintro ⟨hunknown, htype⟩
    apply wp_mono (createNodeLink_returns hok item.typeValue.upConstType g) _ (fun _ _ => trivial)
    rintro ⟨a, g1⟩ s ⟨hs, hfail | ⟨hcr, hg⟩⟩
    · exact ⟨hs, Or.inl hfail⟩
    · refine ⟨hs, Or.inr ?_⟩
      simp only at hg
      rw [hg]
      exact ItemResolved.fresh a s hunknown htype hcr
  · intro _
    rw [wp_pure]
    refine ⟨hok, ?_⟩
    by_cases hknown : knownAddr params g.result item = ScAddr.empty
    · rw [hknown]
      exact Or.inl ⟨rfl, rfl⟩
    · exact Or.inr (ItemResolved.known hknown)

/-- One triple is generated: its ends are resolved, and the arc between them is created. -/
structure TripleGenerated (ctx : ScContext) (params : ScTemplateParams) (t : Triple ScTemplateArg)
    (st : ScStorage) (g : GenerateState) (ends : Triple ScAddr) (st' : ScStorage)
    (g' : GenerateState) : Prop where
  edgeType : t.edge.kind = .type ∧ t.edge.typeValue.isEdge = true
  resolved : ∃ s1 g1 s2 g2, ItemResolved ctx params t.source st g ends.source s1 g1 ∧
    ItemResolved ctx params t.target s1 g1 ends.target s2 g2 ∧ CellsOk s1 ∧ CellsOk s2 ∧
      ArcCreated s2 t.edge.typeValue.upConstType ends.source ends.target ctx.accessLevels ends.edge
        st'
  result : g'.result = addResult t.target.replacementName ends.target
    (addResult t.edge.replacementName ends.edge
      (addResult t.source.replacementName ends.source g.result))

/-- Types of arcs, as the table of element types has them: no link bit is set. That the item is of a type
of arcs is what the assertion checks, if there is one. -/
def ArcTyped (asserts : Bool) (t : Triple ScTemplateArg) : Prop :=
  t.edge.typeValue &&& scTypeLink = 0 ∧
    (asserts = false → t.edge.kind = .type ∧ t.edge.typeValue.isEdge = true)

theorem ItemResolved.notEmpty {item : ScTemplateArg} {a : ScAddr}
    (h : ItemResolved ctx params item st g a st' g') : a ≠ ScAddr.empty := by
  cases h with
  | known hne => exact hne
  | fresh _ _ _ _ hcr => exact hcr.created.notEmpty

theorem ItemResolved.result_eq {item : ScTemplateArg} {a : ScAddr}
    (h : ItemResolved ctx params item st g a st' g') : g'.result = g.result := by
  cases h with
  | known _ => rfl
  | fresh _ _ _ _ _ => rfl

/-- The flags of constancy do not matter for a class of elements. -/
theorem upConstType_and (type mask : ScType) (hv : ~~~scTypeVar &&& mask = mask)
    (hc : scTypeConst &&& mask = 0) : type.upConstType &&& mask = type &&& mask := by
  unfold ScType.upConstType
  rw [BitVec.and_or_distrib_right, hc, BitVec.and_assoc, hv]
  exact BitVec.or_zero

theorem upConstType_link (type : ScType) :
    type.upConstType &&& scTypeLink = type &&& scTypeLink :=
  upConstType_and type scTypeLink (by decide) (by decide)

theorem upConstType_node (type : ScType) :
    type.upConstType &&& scTypeNode = type &&& scTypeNode :=
  upConstType_and type scTypeNode (by decide) (by decide)

theorem upConstType_arc (type : ScType) :
    type.upConstType &&& scTypeArcMask = type &&& scTypeArcMask :=
  upConstType_and type scTypeArcMask (by decide) (by decide)

theorem ArcTyped.edge_type {asserts : Bool} {t : Triple ScTemplateArg} (h : ArcTyped asserts t)
    (hchecked : ¬ (asserts = true ∧ ¬ (t.edge.kind = .type ∧ t.edge.typeValue.isEdge = true))) :
    t.edge.kind = .type ∧ t.edge.typeValue.isEdge = true := by
  cases asserts with
  | false => exact h.2 rfl
  | true => exact not_not.mp fun hno => hchecked ⟨rfl, hno⟩

theorem ArcTyped.not_link {asserts : Bool} {t : Triple ScTemplateArg} (h : ArcTyped asserts t) :
    t.edge.typeValue.upConstType &&& scTypeLink = 0 := by
  rw [upConstType_link]
  exact h.1

theorem generateTriple_returns {asserts : Bool} (hok : StoreOk env.thread st) (t : Triple ScTemplateArg)
    (harc : ArcTyped asserts t) (g : GenerateState) :
    IfReturns (generateTriple asserts env ctx params t g) (fun r st' => ∀ edge g',
      r = .ok (some edge, g') → StoreOk env.thread st' ∧ ∃ ends : Triple ScAddr, ends.edge = edge ∧
        TripleGenerated ctx params t st g ends st' g') st := by
  unfold generateTriple
  rw [IfReturns, wp_ite]
  refine ⟨fun _ edge g' h => (by cases h), fun hedge => ?_⟩
  rw [wp_bind]
  apply wp_mono (resolveAddr_returns hok t.source g) _ (fun _ _ => trivial)
  rintro ⟨a, g1⟩ s1 ⟨hok1, h1⟩
  simp only
  rw [wp_ite]
  refine ⟨fun _ edge g' h => (by cases h), fun _ => ?_⟩
  rw [wp_bind]
  apply wp_mono (resolveAddr_returns hok1 t.target g1) _ (fun _ _ => trivial)
  rintro ⟨b, g2⟩ s2 ⟨hok2, h2⟩
  simp only
  rw [wp_ite]
  refine ⟨fun _ edge g' h => (by cases h), fun _ => ?_⟩
  rw [wp_ite]
  refine ⟨fun _ edge g' h => (by cases h), fun hends => ?_⟩
  -- no end is missing
  have hres1 := h1.resolve_left fun hmiss => hends (Or.inl (Prod.mk.inj hmiss.2).1)
  have hres2 := h2.resolve_left fun hmiss => hends (Or.inr (Prod.mk.inj hmiss.2).1)
  have hcall := storeOk_call (f := scStorageArcNew env ctx t.edge.typeValue.upConstType a b)
    (.arcNew ctx t.edge.typeValue.upConstType a b) rfl harc.not_link hok2
  have hnew := arcNew_returns (holds_start env.thread s2 hok2.wf.1 hok2.wf.2) hok2.cells ctx
    t.edge.typeValue.upConstType a b
  rw [wp_bind]
  apply wp_mono (wp_and hcall hnew) _ (fun _ _ => trivial)
  rintro edge s3 ⟨hok3, hcr⟩
  rw [wp_ite, wp_pure, wp_pure]
  constructor
  · intro _ edge' g' h
    cases h
  · intro hne edge' g' h
    obtain ⟨he, rfl⟩ := Prod.mk.inj (Except.ok.inj h)
    obtain rfl := Option.some.inj he
    rcases hcr with ⟨_, h0⟩ | hcr
    · exact absurd h0 hne
    refine ⟨hok3, ⟨a, edge, b⟩, rfl, harc.edge_type hedge,
      ⟨s1, g1, s2, g2, hres1, hres2, hok1.cells, hok2.cells, hcr⟩, ?_⟩
    rw [hres2.result_eq, hres1.result_eq]

theorem linkCell_live (ctx : ScContext) (isConst : Bool) (a : ScAddr) :
    Live (fun _ => linkCell ctx isConst) a := by
  have htype (b : Bool) : (linkCell ctx b).type = scTypeLink ||| (if b then scTypeConst else scTypeVar) :=
    rfl
  unfold Live scElementIsValid scElementIsRequestDeletion
  rw [htype]
  cases isConst <;> decide

theorem nodeCell_live (ctx : ScContext) (type : ScType) (a : ScAddr) :
    Live (fun _ => nodeCell ctx type) a := by
  have hflag : (nodeCell ctx type).type &&& scFlagRequestDeletion = 0 := by
    show scFlagsRemove (scTypeNode ||| type) &&& scFlagRequestDeletion = 0
    unfold scFlagsRemove
    rw [BitVec.and_assoc]
    have h0 : ~~~(scFlagRequestDeletion ||| scFlagLinkSelfContainer) &&& scFlagRequestDeletion = 0 := by
      decide
    rw [h0]
    exact BitVec.and_zero
  have htype := nodeCell_type ctx type
  unfold Live scElementIsValid scElementIsRequestDeletion
  rw [hflag]
  simpa using htype

theorem EndCreated.grown {type : ScType} {a : ScAddr} (h : EndCreated ctx type st a st') :
    GrownBy st {a} st' := by
  apply h.created.grown
  unfold endCell
  split_ifs
  · exact nodeCell_live ctx type a
  · exact linkCell_live ctx true a

/-- What is created for an item, if anything is. -/
theorem ItemResolved.grown {item : ScTemplateArg} {a : ScAddr}
    (h : ItemResolved ctx params item st g a st' g') :
    ∃ new : Set ScAddr, GrownBy st new st' ∧ new ⊆ {a} := by
  cases h with
  | known _ => exact ⟨∅, GrownBy.refl st, Set.empty_subset _⟩
  | fresh _ _ _ _ hcr => exact ⟨{a}, hcr.grown, le_refl _⟩

/-- `ends.edge` is an arc of the type from `ends.source` to `ends.target`. -/
structure ArcBetween (st : ScStorage) (type : ScType) (ends : Triple ScAddr) : Prop where
  arc : LiveArc st.cell ends.edge
  type : (st.cell ends.edge).type = arcTypeOf type
  source : ownerOf st.cell .out ends.edge = ends.source
  target : ownerOf st.cell .inp ends.edge = ends.target

theorem ArcBetween.grown {type : ScType} {ends : Triple ScAddr} {new : Set ScAddr}
    (h : ArcBetween st type ends) (hg : GrownBy st new st') : ArcBetween st' type ends := by
  obtain ⟨harc, htype, hown⟩ := hg.liveArc h.arc
  exact ⟨harc, htype.trans h.type, (hown .out).trans h.source, (hown .inp).trans h.target⟩

theorem arcBetween_of_created {type : ScType} {ends : Triple ScAddr} {levels : ScAccessLevels}
    (h : ArcCreated st type ends.source ends.target levels ends.edge st') (hc : CellsOk st) :
    ArcBetween st' type ends := by
  have hadd := h.added hc
  refine ⟨h.isArc hc, h.typeOf.1, ?_, ?_⟩
  · rw [hadd.owner, if_pos rfl]
  · rw [hadd.owner, if_pos rfl]

theorem TripleGenerated.arcBetween {t : Triple ScTemplateArg} {ends : Triple ScAddr}
    (h : TripleGenerated ctx params t st g ends st' g') :
    ArcBetween st' t.edge.typeValue.upConstType ends := by
  obtain ⟨s1, g1, s2, g2, _, _, _, hc2, hcr⟩ := h.resolved
  exact arcBetween_of_created hcr hc2

theorem TripleGenerated.grown {t : Triple ScTemplateArg} {ends : Triple ScAddr}
    (h : TripleGenerated ctx params t st g ends st' g') :
    ∃ new : Set ScAddr, GrownBy st new st' ∧ ends.edge ∈ new := by
  obtain ⟨s1, g1, s2, g2, hres1, hres2, _, hc2, hcr⟩ := h.resolved
  obtain ⟨n1, hg1, _⟩ := hres1.grown
  obtain ⟨n2, hg2, _⟩ := hres2.grown
  exact ⟨_, (hg1.trans hg2).trans (hcr.grown hc2), Or.inr rfl⟩

/-- The triples are generated one after the other. -/
inductive TriplesGenerated (ctx : ScContext) (params : ScTemplateParams) :
    List (Triple ScTemplateArg) → ScStorage → GenerateState → List (Triple ScAddr) → ScStorage →
      GenerateState → Prop
  | nil (st : ScStorage) (g : GenerateState) : TriplesGenerated ctx params [] st g [] st g
  | cons {t : Triple ScTemplateArg} {ts : List (Triple ScTemplateArg)} {st s1 st' : ScStorage}
      {g g1 g' : GenerateState} {ends : Triple ScAddr} {rest : List (Triple ScAddr)} :
      TripleGenerated ctx params t st g ends s1 g1 → TriplesGenerated ctx params ts s1 g1 rest st' g' →
      TriplesGenerated ctx params (t :: ts) st g (ends :: rest) st' g'

theorem generateTriples_returns {asserts : Bool} (hok : StoreOk env.thread st) (ts : List (Triple ScTemplateArg))
    (harc : ∀ t ∈ ts, ArcTyped asserts t) (g : GenerateState) :
    IfReturns (generateTriples asserts env ctx params ts g) (fun r st' => ∀ arcs g',
      r = .ok (some arcs, g') → StoreOk env.thread st' ∧ ∃ ends : List (Triple ScAddr),
        ends.map Triple.edge = arcs ∧ TriplesGenerated ctx params ts st g ends st' g') st := by
  induction ts generalizing st g with
  | nil =>
    unfold generateTriples
    rw [IfReturns, wp_pure]
    intro arcs g' h
    obtain ⟨he, rfl⟩ := Prod.mk.inj (Except.ok.inj h)
    obtain rfl := Option.some.inj he
    exact ⟨hok, [], rfl, TriplesGenerated.nil st g⟩
  | cons t ts ih =>
    unfold generateTriples
    rw [IfReturns, wp_bind]
    apply wp_mono (generateTriple_returns hok t (harc t List.mem_cons_self) g) _ (fun _ _ => trivial)
    rintro r s1 h1
    rcases r with e | ⟨_ | edge, g1⟩
    · rw [wp_pure]
      intro arcs g' h
      cases h
    · rw [wp_pure]
      intro arcs g' h
      cases h
    obtain ⟨hok1, ends, hedge, hgen⟩ := h1 edge g1 rfl
    simp only
    rw [wp_bind]
    apply wp_mono (ih hok1 (fun t ht => harc t (List.mem_cons_of_mem _ ht)) g1) _ (fun _ _ => trivial)
    rintro r s2 h2
    rcases r with e | ⟨_ | edges, g2⟩
    · rw [wp_pure]
      intro arcs g' h
      cases h
    · rw [wp_pure]
      intro arcs g' h
      cases h
    obtain ⟨hok2, rest, hedges, hgens⟩ := h2 edges g2 rfl
    rw [wp_pure]
    intro arcs g' h
    obtain ⟨he, rfl⟩ := Prod.mk.inj (Except.ok.inj h)
    obtain rfl := Option.some.inj he
    refine ⟨hok2, ends :: rest, ?_, TriplesGenerated.cons hgen hgens⟩
    rw [List.map_cons, hedge, hedges]

theorem TriplesGenerated.grown {ts : List (Triple ScTemplateArg)} {ends : List (Triple ScAddr)}
    (h : TriplesGenerated ctx params ts st g ends st' g') :
    ∃ new : Set ScAddr, GrownBy st new st' := by
  induction h with
  | nil st g => exact ⟨∅, GrownBy.refl st⟩
  | cons h1 _ ih =>
    obtain ⟨n1, hg1, _⟩ := h1.grown
    obtain ⟨n2, hg2⟩ := ih
    exact ⟨n1 ∪ n2, hg1.trans hg2⟩

theorem TriplesGenerated.length_eq {ts : List (Triple ScTemplateArg)} {ends : List (Triple ScAddr)}
    (h : TriplesGenerated ctx params ts st g ends st' g') : ends.length = ts.length := by
  induction h with
  | nil st g => rfl
  | cons _ _ ih => rw [List.length_cons, List.length_cons, ih]

/-- Each triple has an arc of its own, and it is new. -/
theorem TriplesGenerated.arcs {ts : List (Triple ScTemplateArg)} {ends : List (Triple ScAddr)}
    (h : TriplesGenerated ctx params ts st g ends st' g') (n : ℕ) {t : Triple ScTemplateArg}
    {e : Triple ScAddr} (ht : ts[n]? = some t) (he : ends[n]? = some e) :
    ArcBetween st' t.edge.typeValue.upConstType e ∧ (st.cell e.edge).type = 0 := by
  induction h generalizing n with
  | nil st g => simp at ht
  | cons h1 h2 ih =>
    obtain ⟨n1, hg1, hin⟩ := h1.grown
    obtain ⟨n2, hg2⟩ := h2.grown
    cases n with
    | zero =>
      obtain rfl := Option.some.inj (by simpa using ht)
      obtain rfl := Option.some.inj (by simpa using he)
      exact ⟨h1.arcBetween.grown hg2, hg1.free _ hin⟩
    | succ n =>
      obtain ⟨hb, hfree⟩ := ih n (by simpa using ht) (by simpa using he)
      refine ⟨hb, ?_⟩
      have hnot : e.edge ∉ n1 := fun hn => type_of_live (hg1.live _ hn) hfree
      rw [← (hg1.others _ hnot).same.type]
      exact hfree

theorem TriplesGenerated.arcs_nodup {ts : List (Triple ScTemplateArg)}
    {ends : List (Triple ScAddr)} (h : TriplesGenerated ctx params ts st g ends st' g') :
    (ends.map Triple.edge).Nodup := by
  induction h with
  | nil st g => exact List.nodup_nil
  | cons h1 h2 ih =>
    obtain ⟨n1, hg1, hin⟩ := h1.grown
    rw [List.map_cons, List.nodup_cons]
    refine ⟨fun hmem => ?_, ih⟩
    obtain ⟨e, he, heq⟩ := List.mem_map.mp hmem
    obtain ⟨n, hn⟩ := List.mem_iff_getElem?.mp he
    have hlen := (List.getElem?_eq_some_iff.mp hn).1
    rw [h2.length_eq] at hlen
    have hfree := (h2.arcs n (List.getElem?_eq_getElem hlen) hn).2
    rw [heq] at hfree
    exact type_of_live (hg1.live _ hin) hfree

/-- A call that returns a result has generated all triples. -/
theorem scTemplateGenerateDo_generated {asserts : Bool} (hok : StoreOk env.thread st) (order : HashOrder)
    {data : ScTemplateData} (harc : ∀ t ∈ data.triples, ArcTyped asserts (data.items t))
    {r : ScTemplateNamedStruct}
    (hdo : scTemplateGenerateDo asserts env ctx order data params st = .ok (.generated r, st')) :
    checkParams data params = true ∧ StoreOk env.thread st' ∧ ∃ g' arcs,
      generateTriples asserts env ctx params (data.triples.map data.items)
        ⟨ScTemplateNamedStruct.empty, []⟩ st = .ok (.ok (some arcs, g'), st') ∧ g'.result = r ∧
      ∃ ends : List (Triple ScAddr), ends.map Triple.edge = arcs ∧ TriplesGenerated ctx params
        (data.triples.map data.items) st ⟨ScTemplateNamedStruct.empty, []⟩ ends st' g' := by
  unfold scTemplateGenerateDo at hdo
  split_ifs at hdo with hfixed hcheck
  · cases hdo
  · cases hdo
  obtain ⟨⟨o, s1⟩, hgen, hdo⟩ := bind_ok hdo
  rcases o with e | ⟨_ | arcs, g'⟩
  · cases hdo
  · obtain ⟨p, _, hdo⟩ := bind_ok hdo
    cases hdo
  obtain ⟨hg, rfl⟩ := Prod.mk.inj (Except.ok.inj hdo)
  have hgens := wp_ok (generateTriples_returns hok _ (fun t ht => by
    obtain ⟨t', ht', rfl⟩ := List.mem_map.mp ht
    exact harc t' ht') _) hgen
  obtain ⟨hok', ends, hends, hrun⟩ := hgens arcs g' rfl
  exact ⟨by simpa using hcheck, hok', g', arcs, hgen, GenerateOutcome.generated.inj hg, ends, hends,
    hrun⟩

end

end ScMachine.Template
