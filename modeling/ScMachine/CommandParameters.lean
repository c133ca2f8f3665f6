import ScMachine.AgentCommands
import ScMachine.CreationSteps
import ScMachine.IteratorsAtRest

/-! The parameters of a command: `CreateCommand` puts them under the position relations, and `GetParam`
reads them back. -/
namespace ScMachine.Agent
open ScMachine.Store ScMachine.Template ScMachine.StateExcept ScMachine.Runs

/-- `ScKeynodes::GetRrelIndex`. -/
def getRrelIndex (kn : ScKeynodes) (idx : ℕ) : Except ScException ScAddr :=
  if h : idx < 20 then .ok (kn.kKeynodeRrelList ⟨idx, h⟩)
  else .error (.invalidParams "You should use index in range[0; 20]")

/-- `GetParam` with a relation. `Next` of an iterator that could not be created fails its assertion. -/
def getParamOf (c : Cells) (ctx : ScContext) (cmdAddr relationAddr : ScAddr) (paramType : ScType) :
    Except ScException ScAddr :=
  match iterator5 c ctx (.faa cmdAddr scTypeEdgeAccessConstPosPerm paramType
      ⟨scTypeEdgeAccessConstPosPerm, .addr relationAddr⟩) with
  | none => .error .assertion
  | some [] => .ok ScAddr.empty
  | some ((_, _, param, _, _) :: _) => .ok param

/-- `GetParam` with an index. -/
def getParam (c : Cells) (ctx : ScContext) (kn : ScKeynodes) (cmdAddr : ScAddr) (index : ℕ) :
    Except ScException ScAddr := do
  getParamOf c ctx cmdAddr (← getRrelIndex kn index) 0

/-- The arc is a permanent one with these access levels. -/
structure PermArc (c : Cells) (levels : ScAccessLevels) (beg end_ x : ScAddr) : Prop where
  arc : LiveArc c x
  source : ownerOf c .out x = beg
  target : ownerOf c .inp x = end_
  type : (c x).type = arcTypeOf scTypeEdgeAccessConstPosPerm
  levels : (c x).accessLevels = levels

/-- Each arc out of the command goes to the parameter of one index, and the arcs into it come from the
relation of this index alone. -/
structure ParamsPlaced (kn : ScKeynodes) (levels : ScAccessLevels) (cmd : ScAddr) (ps : List ScAddr)
    (c : Cells) : Prop where
  only : ∀ z, LiveArc c z → ownerOf c .out z = cmd → ∃ i : Fin 20, ps[i.val]? = some (ownerOf c .inp z) ∧
    ∀ y, LiveArc c y → ownerOf c .inp y = z → ownerOf c .out y = kn.kKeynodeRrelList i
  placed : ∀ (i : Fin 20) (p : ScAddr), ps[i.val]? = some p →
    ∃ z y, PermArc c levels cmd p z ∧ PermArc c levels (kn.kKeynodeRrelList i) z y

section
variable {kn : ScKeynodes} {cmd p z y beg end_ x : ScAddr} {ps : List ScAddr} {st s s1 s2 : ScStorage}
  {levels : ScAccessLevels} {i : Fin 20} {new : Set ScAddr} {ctx : ScContext} {c : Cells}

theorem paramsPlaced_nil (h : ∀ z, LiveArc c z → ownerOf c .out z ≠ cmd) :
    ParamsPlaced kn levels cmd [] c :=
  ⟨fun z hz hout => absurd hout (h z hz), fun _ _ hp => absurd hp (by simp)⟩

theorem PermArc.grown (h : PermArc st.cell levels beg end_ x) (hg : GrownBy st new s) :
    PermArc s.cell levels beg end_ x := by
  obtain ⟨harc, htype, hown⟩ := hg.liveArc h.arc
  have hold := (hg.others x fun hn => type_of_live h.arc.1 (hg.free x hn)).same
  exact ⟨harc, (hown .out).trans h.source, (hown .inp).trans h.target, htype.trans h.type,
    hold.accessLevels.trans h.levels⟩

theorem permArc_of_created (hc : CellsOk st)
    (h : ArcCreated st scTypeEdgeAccessConstPosPerm beg end_ levels x s) :
    PermArc s.cell levels beg end_ x := by
  have hadd := h.added hc
  refine ⟨hadd.arc, ?_, ?_, h.typeOf.1, h.typeOf.2⟩
  · rw [hadd.owner, if_pos rfl]
  · rw [hadd.owner, if_pos rfl]

/-- No arc of the store ends in an element that has not been made yet. -/
theorem owner_ne_of_dead (hc : CellsOk st) {d : Dir} (hx : LiveArc st.cell x) (hdead : ¬ Live st.cell z) :
    ownerOf st.cell d x ≠ z := by
  rintro rfl
  exact hdead (hc.arcs.endpoint x d hx)

theorem dead_of_arcCreated {type : ScType} (h : ArcCreated st type beg end_ levels x s) :
    ¬ Live st.cell x :=
  fun hl => type_of_live hl h.created.refCount.2.2.1

/-- The next parameter is placed with an arc to it and an arc from its relation. -/
theorem ParamsPlaced.param (h : ParamsPlaced kn levels cmd ps st.cell) (hc : CellsOk st) (hc1 : CellsOk s1)
    (hedge : ArcCreated st scTypeEdgeAccessConstPosPerm cmd p levels z s1)
    (hmark : ArcCreated s1 scTypeEdgeAccessConstPosPerm (kn.kKeynodeRrelList i) z levels y s2)
    (hi : i.val = ps.length) (hrel : kn.kKeynodeRrelList i ≠ cmd)
    (hp : LiveArc st.cell p → ownerOf st.cell .out p ≠ cmd) :
    ParamsPlaced kn levels cmd (ps ++ [p]) s2.cell := by
  have hadd1 := hedge.added hc
  have hadd2 := hmark.added hc1
  have hgrown2 := hmark.grown hc1
  have hgrown := (hedge.grown hc).trans hgrown2
  have hz : ¬ Live st.cell z := dead_of_arcCreated hedge
  have hpz : p ≠ z := fun he => hz (he ▸ hedge.endLive)
  have hzarc := (permArc_of_created hc hedge).grown hgrown2
  have hyarc := permArc_of_created hc1 hmark
  -- an arc is one of the two or an old one
  have hcases (x : ScAddr) (hx : LiveArc s2.cell x) : x = y ∨ x = z ∨ LiveArc st.cell x := by
    rcases (hadd2.liveArc x).mp hx with rfl | hx
    · exact Or.inl rfl
    · exact Or.inr ((hadd1.liveArc x).mp hx)
  constructor
  · intro x hx hxout
    rcases hcases x hx with rfl | rfl | hold
    · exact absurd (hyarc.source.symm.trans hxout) hrel
    · refine ⟨i, ?_, ?_⟩
      · rw [hzarc.target, hi, List.getElem?_concat_length]
      · intro x' hx' hend
        rcases hcases x' hx' with rfl | rfl | hold'
        · exact hyarc.source
        · exact absurd (hzarc.target.symm.trans hend) hpz
        · rw [(hgrown.liveArc hold').2.2] at hend
          exact absurd hend (owner_ne_of_dead hc hold' hz)
    · have hxown := (hgrown.liveArc hold).2.2
      rw [hxown] at hxout ⊢
      obtain ⟨j, hj, honly⟩ := h.only x hold hxout
      refine ⟨j, ?_, ?_⟩
      · rw [List.getElem?_append_left (List.getElem?_eq_some_iff.mp hj).1]
        exact hj
      · intro x' hx' hend
        rcases hcases x' hx' with rfl | rfl | hold'
        · exact absurd (hend.symm.trans hyarc.target) fun he => hz (he ▸ hold.1)
        · obtain rfl := hzarc.target.symm.trans hend
          exact absurd hxout (hp hold)
        · rw [(hgrown.liveArc hold').2.2] at hend ⊢
          exact honly x' hold' hend
  · intro j q hq
    by_cases hj : j.val < ps.length
    · rw [List.getElem?_append_left hj] at hq
      obtain ⟨x, x', hx, hx'⟩ := h.placed j q hq
      exact ⟨x, x', hx.grown hgrown, hx'.grown hgrown⟩
    · have hlt := (List.getElem?_eq_some_iff.mp hq).1
      rw [List.length_append, List.length_singleton] at hlt
      obtain rfl : j = i := Fin.ext (by omega)
      rw [hi, List.getElem?_concat_length] at hq
      obtain rfl := Option.some.inj hq
      exact ⟨z, y, hzarc, hyarc⟩

/-- What the context may read, so that the parameters can be read back. -/
structure ReadsParams (c : Cells) (ctx : ScContext) (kn : ScKeynodes) (levels : ScAccessLevels)
    (ps : List ScAddr) : Prop where
  made : scAccessLvlCheckRead ctx.accessLevels levels = true
  relations : ∀ i, CanRead ctx c (kn.kKeynodeRrelList i)
  params : ∀ p ∈ ps, CanRead ctx c p

theorem PermArc.canRead (h : PermArc c levels beg end_ x)
    (hread : scAccessLvlCheckRead ctx.accessLevels levels = true) : CanRead ctx c x := by
  unfold CanRead
  rw [h.levels]
  exact hread

/-- `GetParam` reads the parameter of each index, and the empty address behind the last one. -/
theorem ParamsPlaced.getParam_eq (h : ParamsPlaced kn levels cmd ps c) (hc : ArcsOk c)
    (hread : ReadsParams c ctx kn levels ps) (hcmd : Live c cmd) (hcmdRead : CanRead ctx c cmd)
    (hrels : ∀ i, Live c (kn.kKeynodeRrelList i)) (hinj : Function.Injective kn.kKeynodeRrelList)
    (index : ℕ) (hindex : index < 20) :
    getParam c ctx kn cmd index = .ok (ps.getD index ScAddr.empty) := by
  set i : Fin 20 := ⟨index, hindex⟩ with hi
  have hrel : getRrelIndex kn index = .ok (kn.kKeynodeRrelList i) := dif_pos hindex
  unfold getParam
  rw [hrel]
  change getParamOf c ctx cmd (kn.kKeynodeRrelList i) 0 = _
  set params : Iterator5Params := .faa cmd scTypeEdgeAccessConstPosPerm 0
    ⟨scTypeEdgeAccessConstPosPerm, .addr (kn.kKeynodeRrelList i)⟩ with hparams
  have hmem := @mem_iterator5 c ctx params (.addr cmd) (.type scTypeEdgeAccessConstPosPerm) (.type 0)
    (.type scTypeEdgeAccessConstPosPerm) (.addr (kn.kKeynodeRrelList i)) hc .faaaf rfl
  have hcreate : params.main.Creatable c ctx := by
    rintro a ha
    obtain rfl : a = cmd := by simpa [hparams, Iterator5Params.main, Iterator3Params.fixed] using ha
    exact ⟨hcmd, hcmdRead⟩
  have hrows : ∃ rows, iterator5 c ctx params = some rows := by
    unfold iterator5
    rw [if_pos hcreate]
    exact ⟨_, rfl⟩
  obtain ⟨rows, hrows⟩ := hrows
  rw [hrows] at hmem
  -- every row holds the parameter of the index
  have hsound : ∀ row ∈ rows, ps[index]? = some row.2.2.1 := by
    rintro ⟨a, e1, b, e2, f⟩ hrow
    obtain ⟨hlive, ⟨harc, ho, hb⟩, ⟨harc', hf, he⟩, _, hfits⟩ := (hmem a e1 b e2 f).mp hrow
    obtain ⟨j, hj, honly⟩ := h.only e1 ⟨hlive.2.1, harc⟩ (ho.trans hfits.1)
    have hf' := honly e2 ⟨hlive.2.2.2.1, harc'⟩ he
    obtain rfl : j = i := hinj (hf'.symm.trans (hf.trans hfits.2.2.2.2))
    rw [← hb]
    exact hj
  unfold getParamOf
  rw [← hparams, hrows]
  cases hps : ps[index]? with
  | none =>
    cases rows with
    | nil => simp [List.getD, hps]
    | cons row rows =>
      have hrow := hsound row List.mem_cons_self
      rw [hps] at hrow
      cases hrow
  | some p =>
    obtain ⟨z, y, hz, hy⟩ := h.placed i p hps
    have hp := hread.params p (List.mem_of_getElem? hps)
    have hplive : Live c p := hz.target ▸ hc.endpoint z .inp hz.arc
    have htype (x : ScAddr) (hx : (c x).type = arcTypeOf scTypeEdgeAccessConstPosPerm) :
        HasType c x scTypeEdgeAccessConstPosPerm := by
      unfold HasType
      rw [hx]
      decide
    have hrow : (cmd, z, p, y, kn.kKeynodeRrelList i) ∈ rows := by
      apply (hmem _ _ _ _ _).mpr
      exact ⟨⟨hcmd, hz.arc.1, hplive, hy.arc.1, hrels i⟩, ⟨hz.arc.2, hz.source, hz.target⟩,
        ⟨hy.arc.2, hy.source, hy.target⟩,
        ⟨hcmdRead, hz.canRead hread.made, hp, hy.canRead hread.made, hread.relations i⟩,
        rfl, htype z hz.type, BitVec.zero_and, htype y hy.type, rfl⟩
    cases rows with
    | nil => cases hrow
    | cons row rows =>
      have hhead := hsound row List.mem_cons_self
      rw [hps] at hhead
      simp [List.getD, hps, Option.some.inj hhead]

end

/-! The calls of `CreateCommand`. -/

/-- The context has made `n` elements from `st` on. -/
inductive Creations (env : ScEnv) (ctx : ScContext) (st : ScStorage) : ℕ → ScStorage → Prop where
  | none : Creations env ctx st 0 st
  | node {n : ℕ} {s s' : ScStorage} {a : ScAddr} (type : ScType) : Creations env ctx st n s →
      scStorageNodeNew env ctx type s = .ok (a, s') → a ≠ ScAddr.empty → Creations env ctx st (n+1) s'
  | arc {n : ℕ} {s s' : ScStorage} {a : ScAddr} (type : ScType) (beg end_ : ScAddr) :
      Creations env ctx st n s → scStorageArcNew env ctx type beg end_ s = .ok (a, s') →
      a ≠ ScAddr.empty → Creations env ctx st (n+1) s'

/-- After fewer than `n` elements there is no cell for the next one. -/
def OutOfCells (env : ScEnv) (ctx : ScContext) (n : ℕ) (st : ScStorage) : Prop :=
  ∃ k s, k < n ∧ Creations env ctx st k s ∧ (NoCell env ctx s ∨
    ∃ beg end_, Live s.cell beg ∧ Live s.cell end_ ∧ NoCellForArc env ctx beg end_ s)

section
variable {env : ScEnv} {ctx actx : ScContext} {kn : ScKeynodes} {st s : ScStorage} {cmd cmdClassAddr p : ScAddr}
  {ps before : List ScAddr} {n : ℕ} {new : Set ScAddr}

/-- The command while its parameters are put in: all else of the store is as it was at the call. -/
structure Filling (env : ScEnv) (ctx : ScContext) (kn : ScKeynodes) (st : ScStorage) (cmd : ScAddr)
    (before : List ScAddr) (n : ℕ) (s : ScStorage) : Prop where
  store : StoreOk env.thread s
  made : Creations env ctx st n s
  grown : ∃ new, GrownBy st new s
  command : Live s.cell cmd ∧ (s.cell cmd).accessLevels = ctx.accessLevels
  fresh : ¬ Live st.cell cmd
  params : ParamsPlaced kn ctx.accessLevels cmd before s.cell

/-- An arc made for the command, or the cells have run out. -/
theorem arcNew_creation {type : ScType} {beg end_ : ScAddr} (total : ℕ) (hok : StoreOk env.thread s)
    (hmade : Creations env ctx st n s) (hn : n < total) (htype : scTypeNode &&& type = 0)
    (hlink : type &&& scTypeLink = 0) (hbeg : Live s.cell beg) (hend : Live s.cell end_) :
    Wp (scStorageArcNew env ctx type beg end_)
      (fun r s' => StoreOk env.thread s' ∧ Creations env ctx st (n+1) s' ∧
        ArcCreated s type beg end_ ctx.accessLevels r s' ∧ r ≠ ScAddr.empty)
      (fun _ => OutOfCells env ctx total st) s := by
  have hlive := @arcNew_live env ctx s type beg end_ hok htype hlink hbeg hend
  unfold Wp at hlive ⊢
  cases hrun : scStorageArcNew env ctx type beg end_ s with
  | error stop =>
    rw [hrun] at hlive
    exact ⟨n, s, hn, hmade, Or.inr ⟨beg, end_, hbeg, hend, hlive⟩⟩
  | ok q =>
    obtain ⟨r, s'⟩ := q
    rw [hrun] at hlive
    obtain ⟨hok', hcr⟩ := hlive
    have hne : r ≠ ScAddr.empty := by
      rintro rfl
      exact hok'.cells.arcs.notEmpty (hcr.isArc hok.cells).1
    exact ⟨hok', .arc _ beg end_ hmade hrun hne, hcr, hne⟩

/-- A node made for the command, or the cells have run out. -/
theorem nodeNew_creation {type : ScType} (total : ℕ) (hok : StoreOk env.thread s)
    (hmade : Creations env ctx st n s) (hn : n < total) (htype : scTypeArcMask &&& type = 0) :
    Wp (scStorageNodeNew env ctx type)
      (fun r s' => (r = ScAddr.empty ∧ OutOfCells env ctx total st) ∨
        (r ≠ ScAddr.empty ∧ StoreOk env.thread s' ∧ Creations env ctx st (n+1) s' ∧
          Created s r (Function.update s.cell r (nodeCell ctx type)) s'))
      (fun _ => OutOfCells env ctx total st) s := by
  have hlive := @nodeNew_live env ctx s type hok htype
  unfold Wp at hlive ⊢
  cases hrun : scStorageNodeNew env ctx type s with
  | error stop =>
    rw [hrun] at hlive
    exact ⟨n, s, hn, hmade, Or.inl hlive⟩
  | ok q =>
    obtain ⟨r, s'⟩ := q
    rw [hrun] at hlive
    obtain ⟨hok', ⟨hempty, hcells⟩ | ⟨hne, hcr⟩⟩ := hlive
    · exact Or.inl ⟨hempty, n, s, hn, hmade, Or.inl hcells⟩
    · exact Or.inr ⟨hne, hok', .node _ hmade hrun hne, hcr⟩

/-- The store is used as it was before the command: its elements are live and its arcs are not of the
command. -/
theorem Filling.old (h : Filling env ctx kn st cmd before n s) (hc : CellsOk st) (hp : Live st.cell p) :
    Live s.cell p ∧ p ≠ cmd ∧ (LiveArc s.cell p → ownerOf s.cell .out p ≠ cmd) := by
  obtain ⟨new, hgrown⟩ := h.grown
  have hsame := grown_same hgrown hp
  refine ⟨hsame.same.live.mpr hp, fun he => h.fresh (he ▸ hp), fun harc => ?_⟩
  rw [hsame.owner]
  exact owner_ne_of_dead hc (hsame.same.liveArc.mp harc) h.fresh

/-- The loop puts the parameters in one after the other. -/
theorem createParams_filled {total : ℕ} (hc : CellsOk st) (hrels : ∀ i, Live st.cell (kn.kKeynodeRrelList i))
    (ps before : List ScAddr) (n : ℕ) (s : ScStorage) (h : Filling env ctx kn st cmd before n s)
    (hps : ∀ p ∈ ps, Live st.cell p) (hlength : before.length+ps.length ≤ 20)
    (hn : n+2*ps.length ≤ total) :
    Wp (createParams env ctx kn cmd before.length ps)
      (fun r s' => r = .ok () ∧ ∃ m, Filling env ctx kn st cmd (before ++ ps) m s')
      (fun _ => OutOfCells env ctx total st) s := by
  induction ps generalizing before n s with
  | nil => exact ⟨rfl, n, by rwa [List.append_nil]⟩
  | cons p ps ih =>
    rw [List.length_cons] at hlength hn
    obtain ⟨hplive, hpne, hpout⟩ := h.old hc (hps p List.mem_cons_self)
    unfold createParams
    rw [wp_bind]
    apply wp_mono (arcNew_creation total h.store h.made (by omega) (by decide) (by decide) h.command.1 hplive) _
      (fun _ he => he)
    rintro z s1 ⟨hok1, hmade1, hedge, hne⟩
    rw [if_neg hne]
    have hi : before.length < 20 := by omega
    rw [dif_pos hi, wp_bind]
    obtain ⟨new, hgrown⟩ := h.grown
    have hgrown1 := hedge.grown h.store.cells
    have hrel := h.old hc (hrels ⟨before.length, hi⟩)
    apply wp_mono (arcNew_creation total hok1 hmade1 (by omega) (by decide) (by decide)
      ((grown_same hgrown1 hrel.1).same.live.mpr hrel.1) (hedge.added h.store.cells).arc.1) _ (fun _ he => he)
    rintro y s2 ⟨hok2, hmade2, hmark, _⟩
    have hgrown2 := hmark.grown hok1.cells
    have hgrown12 := hgrown1.trans hgrown2
    have hcmd := grown_same hgrown12 h.command.1
    have hfilled : Filling env ctx kn st cmd (before ++ [p]) (n+1+1) s2 :=
      ⟨hok2, hmade2, ⟨_, hgrown.trans hgrown12⟩,
        ⟨hcmd.same.live.mpr h.command.1, hcmd.same.accessLevels.trans h.command.2⟩, h.fresh,
        h.params.param h.store.cells hok1.cells hedge hmark rfl hrel.2.1 hpout⟩
    have hrest := ih (before ++ [p]) (n+1+1) s2 hfilled (fun q hq => hps q (List.mem_cons_of_mem _ hq))
      (by rw [List.length_append, List.length_singleton]; omega) (by omega)
    rw [List.length_append, List.length_singleton, List.append_assoc, List.singleton_append] at hrest
    exact hrest

/-- The node of the command has no arcs yet. -/
theorem node_filling {type : ScType} {s1 : ScStorage} (hok : StoreOk env.thread st)
    (hok1 : StoreOk env.thread s1) (htype : (nodeCell ctx type).isArc = false)
    (hcr : Created st cmd (Function.update st.cell cmd (nodeCell ctx type)) s1)
    (hmade : Creations env ctx st 1 s1) : Filling env ctx kn st cmd [] 1 s1 := by
  have hgrown := hcr.grown (nodeCell_live ctx type cmd)
  obtain ⟨_, _, hfree, hcell⟩ := hcr.refCount
  have hdead : ¬ Live st.cell cmd := fun hl => type_of_live hl hfree
  have hself : s1.cell cmd = nodeCell ctx type := by rw [hcell, Function.update_self]
  refine ⟨hok1, hmade, ⟨_, hgrown⟩, ⟨hgrown.live cmd rfl, by rw [hself]; rfl⟩, hdead, paramsPlaced_nil ?_⟩
  intro z hz hout
  have hzc : z ≠ cmd := by
    rintro rfl
    have harc := hz.2
    rw [hself, htype] at harc
    cases harc
  have hsame := hgrown.others z hzc
  rw [hsame.owner] at hout
  exact owner_ne_of_dead hok.cells (hsame.same.liveArc.mp hz) hdead hout

/-- The arc from the class of the command is no arc out of it. -/
theorem Filling.classArc (h : Filling env ctx kn st cmd [] n s) {s' : ScStorage}
    (hok' : StoreOk env.thread s') (hmade : Creations env ctx st (n+1) s') (hclass : cmdClassAddr ≠ cmd)
    (hcr : ArcCreated s scTypeEdgeAccessConstPosPerm cmdClassAddr cmd ctx.accessLevels p s') :
    Filling env ctx kn st cmd [] (n+1) s' := by
  obtain ⟨new, hgrown⟩ := h.grown
  have hadd := hcr.added h.store.cells
  have hgrown' := hcr.grown h.store.cells
  have hcmd := grown_same hgrown' h.command.1
  refine ⟨hok', hmade, ⟨_, hgrown.trans hgrown'⟩,
    ⟨hcmd.same.live.mpr h.command.1, hcmd.same.accessLevels.trans h.command.2⟩, h.fresh, paramsPlaced_nil ?_⟩
  intro z hz hout
  rcases (hadd.liveArc z).mp hz with rfl | hold
  · rw [hadd.owner, if_pos rfl] at hout
    exact hclass hout
  · rw [(hgrown'.liveArc hold).2.2] at hout
    obtain ⟨i, hi, _⟩ := h.params.only z hold hout
    simp at hi

/-- With fewer than 20 parameters the command is made with all of them, or the cells run out. -/
theorem createCommand_filled (hok : StoreOk env.thread st) (hclass : Live st.cell cmdClassAddr)
    (hrels : ∀ i, Live st.cell (kn.kKeynodeRrelList i)) (hps : ∀ p ∈ ps, Live st.cell p)
    (hlength : ps.length < 20) :
    Wp (createCommand env ctx kn cmdClassAddr ps)
      (fun r s => (∃ cmd m, r = .ok cmd ∧ Filling env ctx kn st cmd ps m s) ∨
        (r = .error .assertion ∧ OutOfCells env ctx (2+2*ps.length) st))
      (fun _ => OutOfCells env ctx (2+2*ps.length) st) st := by
  have hclassNe : cmdClassAddr ≠ ScAddr.empty := by
    rintro rfl
    exact hok.cells.arcs.notEmpty hclass
  unfold createCommand
  rw [if_neg (by omega), if_neg hclassNe, wp_bind]
  apply wp_mono (nodeNew_creation (2+2*ps.length) hok .none (by omega) (by decide)) _ (fun _ he => he)
  rintro cmd s1 (⟨hempty, hout⟩ | ⟨hne, hok1, hmade, hcr⟩)
  · rw [if_pos hempty]
    exact Or.inr ⟨rfl, hout⟩
  have hnode : (nodeCell ctx scTypeNodeConst).isArc = false := by
    show (scFlagsRemove (scTypeNode ||| scTypeNodeConst) &&& scTypeArcMask != 0) = false
    decide
  have h1 : Filling env ctx kn st cmd [] 1 s1 := node_filling hok hok1 hnode hcr hmade
  obtain ⟨hclass1, hclassCmd, _⟩ := h1.old hok.cells hclass
  rw [if_neg hne, wp_bind]
  apply wp_mono (arcNew_creation (2+2*ps.length) hok1 hmade (by omega) (by decide) (by decide) hclass1
    h1.command.1) _ (fun _ he => he)
  intro z s2 ⟨hok2, hmade2, hcr2, _⟩
  have h2 := h1.classArc hok2 hmade2 hclassCmd hcr2
  rw [wp_bind]
  apply wp_mono (createParams_filled hok.cells hrels ps [] 2 s2 h2 hps (by simp; omega) (le_refl _)) _
    (fun _ he => he)
  rintro r s3 ⟨rfl, m, h3⟩
  exact Or.inl ⟨cmd, m, rfl, h3⟩

end

/-- `CreateCommand` returns a command, and `GetParam` reads from it what was given for each index and the
empty address for the others; or there are no cells for the command. -/
def RoundTrips (env : ScEnv) (ctx actx : ScContext) (kn : ScKeynodes) (cmdClassAddr : ScAddr)
    (ps : List ScAddr) (st : ScStorage) : Prop :=
  Wp (createCommand env ctx kn cmdClassAddr ps)
    (fun r s => (∃ cmd, r = .ok cmd ∧
        ∀ index < 20, getParam s.cell actx kn cmd index = .ok (ps.getD index ScAddr.empty)) ∨
      (r = .error .assertion ∧ OutOfCells env ctx (2+2*ps.length) st))
    (fun _ => OutOfCells env ctx (2+2*ps.length) st) st

/-- The keynodes of the positions are there and different. -/
structure RelationsOk (kn : ScKeynodes) (c : Cells) : Prop where
  live : ∀ i, Live c (kn.kKeynodeRrelList i)
  injective : Function.Injective kn.kKeynodeRrelList

/-- The parameters are read back exactly when there are fewer than 20, though 20 are said to be allowed. -/
theorem command_params_round_trip_iff (thread : ℕ) (evs : List StoreEvent) (st : ScStorage)
    (hr : Run (OwnStep thread) ScStorage.empty evs st) (env : ScEnv) (hthread : env.thread = thread)
    (ctx actx : ScContext) (kn : ScKeynodes) (hkn : RelationsOk kn st.cell) (cmdClassAddr : ScAddr)
    (hclass : Live st.cell cmdClassAddr) (ps : List ScAddr) (hps : ∀ p ∈ ps, Live st.cell p)
    (hread : ReadsParams st.cell actx kn ctx.accessLevels ps) :
    RoundTrips env ctx actx kn cmdClassAddr ps st ↔ ps.length < 20 := by
  subst hthread
  have hok := ownRun_storeOk evs st hr
  constructor
  · intro h
    by_contra hlength
    unfold RoundTrips createCommand at h
    rw [if_pos (by omega)] at h
    rcases h with ⟨cmd, hcmd, _⟩ | ⟨herr, _⟩
    · cases hcmd
    · cases herr
  · intro hlength
    apply wp_mono (createCommand_filled hok hclass hkn.live hps hlength) _ (fun _ he => he)
    rintro r s (⟨cmd, m, rfl, h⟩ | hout)
    · refine Or.inl ⟨cmd, rfl, fun index hindex => ?_⟩
      obtain ⟨new, hgrown⟩ := h.grown
      have hreads {x : ScAddr} (hx : Live st.cell x) (hxread : CanRead actx st.cell x) :
          CanRead actx s.cell x := by
        unfold CanRead at hxread ⊢
        rwa [(grown_same hgrown hx).same.accessLevels]
      refine h.params.getParam_eq h.store.cells.arcs ?_ h.command.1 ?_
        (fun i => (h.old hok.cells (hkn.live i)).1) hkn.injective index hindex
      · exact ⟨hread.made, fun i => hreads (hkn.live i) (hread.relations i),
          fun p hp => hreads (hps p hp) (hread.params p hp)⟩
      · unfold CanRead
        rw [h.command.2]
        exact hread.made
    · exact Or.inr hout

/-! A store with a class of commands and the relations of the 20 positions. -/

def relationKeynodes : ScKeynodes :=
  { exampleKeynodes with kKeynodeRrelList := fun i => ⟨0, BitVec.ofNat 16 (33+32*i.val)⟩ }

def relationEvents : List StoreEvent :=
  List.replicate 21 ⟨exampleEnv, .call (.nodeNew exampleContext scTypeNodeConst)⟩

def storeWithRelations : ScStorage := stateAfterEvents relationEvents ScStorage.empty

theorem run_relationEvents : Run (OwnStep 1) ScStorage.empty relationEvents storeWithRelations :=
  ownRun_of_ownEvents relationEvents _ (by decide +kernel)

theorem relationsOk_storeWithRelations : RelationsOk relationKeynodes storeWithRelations.cell := by
  constructor
  · decide +kernel
  · decide

theorem readsParams_storeWithRelations (ps : List ScAddr) :
    ReadsParams storeWithRelations.cell exampleContext relationKeynodes exampleContext.accessLevels ps :=
  have hfull : FullAccess exampleContext := rfl
  ⟨by decide, fun _ => canRead_full hfull _ _, fun _ _ => canRead_full hfull _ _⟩

/-- The same element twice. -/
theorem command_params_round_trip_twice : RoundTrips exampleEnv exampleContext exampleContext
    relationKeynodes ⟨0, 1⟩ [⟨0, 33⟩, ⟨0, 33⟩] storeWithRelations := by
  have hlive : Live storeWithRelations.cell ⟨0, 1⟩ ∧
      ∀ p ∈ [(⟨0, 33⟩ : ScAddr), ⟨0, 33⟩], Live storeWithRelations.cell p := by decide +kernel
  have hiff := command_params_round_trip_iff 1 relationEvents storeWithRelations run_relationEvents
    exampleEnv rfl exampleContext exampleContext relationKeynodes relationsOk_storeWithRelations ⟨0, 1⟩
    hlive.1 [⟨0, 33⟩, ⟨0, 33⟩] hlive.2 (readsParams_storeWithRelations _)
  rw [hiff]
  simp

/-- With 20 parameters, which is the number of the relations, nothing is made. -/
theorem command_params_refused :
    (∃ evs, Run (OwnStep 1) ScStorage.empty evs storeWithRelations) ∧
      RelationsOk relationKeynodes storeWithRelations.cell ∧ Live storeWithRelations.cell ⟨0, 1⟩ ∧
      createCommand exampleEnv exampleContext relationKeynodes ⟨0, 1⟩ (List.replicate 20 ⟨0, 1⟩)
        storeWithRelations =
          .ok (.error (.invalidParams "You should use <= 20 params"), storeWithRelations) ∧
      ¬ RoundTrips exampleEnv exampleContext exampleContext relationKeynodes ⟨0, 1⟩
        (List.replicate 20 ⟨0, 1⟩) storeWithRelations := by
  have hrun : createCommand exampleEnv exampleContext relationKeynodes ⟨0, 1⟩ (List.replicate 20 ⟨0, 1⟩)
      storeWithRelations =
        .ok (.error (.invalidParams "You should use <= 20 params"), storeWithRelations) := rfl
  refine ⟨⟨relationEvents, run_relationEvents⟩, relationsOk_storeWithRelations, by decide +kernel, hrun, ?_⟩
  intro h
  rcases wp_ok h hrun with ⟨cmd, hcmd, _⟩ | ⟨herr, _⟩
  · cases hcmd
  · cases herr

end ScMachine.Agent
