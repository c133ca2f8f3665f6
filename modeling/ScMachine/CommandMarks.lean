import ScMachine.GenerateSteps
import ScMachine.DeletionExact
import ScMachine.ScAgent

/-! The arcs that the state of a command is read from, and what the operations on the store leave of
them. A new arc comes before the older ones. -/
namespace ScMachine.Agent
open ScMachine.Store ScMachine.Template ScMachine.StateExcept ScMachine.Runs

/-- The context may read and write everything. -/
def FullAccess (ctx : ScContext) : Prop := ctx.accessLevels = scAccessLvlMakeMax

/-- There is an arc of the type from `b` to `e`. -/
def EdgeBetween (c : Cells) (b e : ScAddr) (type : ScType) : Prop :=
  ∃ z, LiveArc c z ∧ ownerOf c .out z = b ∧ ownerOf c .inp z = e ∧ HasType c z type

/-- There is such an arc that the context may read with its ends. -/
def ReadableEdge (c : Cells) (ctx : ScContext) (b e : ScAddr) (type : ScType) : Prop :=
  CanRead ctx c b ∧ CanRead ctx c e ∧
    ∃ z, LiveArc c z ∧ ownerOf c .out z = b ∧ ownerOf c .inp z = e ∧ HasType c z type ∧ CanRead ctx c z

/-- The arc is one that `GetCommandState` comes to. -/
def IsMark (c : Cells) (kn : ScKeynodes) (x : ScAddr) : Prop :=
  HasType c x scTypeEdgeAccessConstPosTemp ∧ HasType c (ownerOf c .out x) scTypeNodeConstClass ∧
    EdgeBetween c kn.kCommandState (ownerOf c .out x) scTypeEdgeAccessConstPosPerm

open Classical in
/-- The arcs of the states of a command, the newest first. -/
noncomputable def marks (c : Cells) (kn : ScKeynodes) (cmd : ScAddr) : List ScAddr :=
  (arcList c .inp cmd).filter fun x => IsMark c kn x

def ScKeynodes.states (kn : ScKeynodes) : List ScAddr :=
  [kn.kCommandInitiated, kn.kCommandProgressd, kn.kCommandFinished]

/-- The reader comes to the arc and finds that it begins at a state. -/
def Seen (c : Cells) (ctx : ScContext) (kn : ScKeynodes) (x : ScAddr) : Prop :=
  CanRead ctx c x ∧ ReadableEdge c ctx kn.kCommandState (ownerOf c .out x) scTypeEdgeAccessConstPosPerm

/-- The reader may read an arc from the state `k` to the command, and that `k` is a state. -/
def Shown (c : Cells) (ctx : ScContext) (kn : ScKeynodes) (cmd k : ScAddr) : Prop :=
  ReadableEdge c ctx k cmd scTypeEdgeAccessConstPosTemp ∧
    ReadableEdge c ctx kn.kCommandState k scTypeEdgeAccessConstPosPerm

/-- The keynodes as `ScKeynodes::Init` makes them: the three states are different classes, and members of
the class of states. -/
structure KeynodesOk (kn : ScKeynodes) (c : Cells) : Prop where
  nodup : (kn.kCommandState :: kn.states).Nodup
  apart : kn.kNrelResult ≠ kn.kCommandState ∧ ∀ r, kn.getResultCodeAddr r ≠ kn.kCommandState
  stateClass : Live c kn.kCommandState ∧ (c kn.kCommandState).isArc = false
  states : ∀ k ∈ kn.states, Live c k ∧ (c k).isArc = false ∧ HasType c k scTypeNodeConstClass ∧
    EdgeBetween c kn.kCommandState k scTypeEdgeAccessConstPosPerm

/-- The command is a node of its own. -/
structure CommandOk (kn : ScKeynodes) (c : Cells) (cmd : ScAddr) : Prop where
  live : Live c cmd
  node : (c cmd).isArc = false
  apart : cmd ∉ kn.kCommandState :: kn.states

section
variable {c c' : Cells} {ctx : ScContext} {kn : ScKeynodes} {cmd b e x : ScAddr} {type : ScType}

theorem canRead_full (h : FullAccess ctx) (c : Cells) (x : ScAddr) : CanRead ctx c x := by
  unfold CanRead
  rw [h]
  generalize (c x).accessLevels = levels
  revert levels
  decide

theorem canWrite_full (h : FullAccess ctx) (c : Cells) (x : ScAddr) : CanWrite ctx c x := by
  unfold CanWrite
  rw [h]
  generalize (c x).accessLevels = levels
  revert levels
  decide

theorem ReadableEdge.edge (h : ReadableEdge c ctx b e type) : EdgeBetween c b e type := by
  obtain ⟨_, _, z, hz, ho, hi, ht, _⟩ := h
  exact ⟨z, hz, ho, hi, ht⟩

theorem helperCheckEdge_iff (hc : ArcsOk c) :
    helperCheckEdge c ctx b e type = true ↔ ReadableEdge c ctx b e type := by
  unfold helperCheckEdge iterator3
  simp only [Iterator3Params.fixed, List.mem_cons, List.not_mem_nil, or_false, forall_eq_or_imp,
    forall_eq]
  by_cases hfixed : (Live c b ∧ CanRead ctx c b) ∧ Live c e ∧ CanRead ctx c e
  · rw [if_pos hfixed]
    simp only [Bool.not_eq_true', List.isEmpty_eq_false_iff, ne_eq, List.map_eq_nil_iff,
      List.filter_eq_nil_iff, not_forall, Iterator3Params.matching, decide_eq_true_eq]
    have hmem := (hc.arcList (d := .inp) hfixed.2.1).mem
    constructor
    · rintro ⟨z, hz, hno⟩
      obtain ⟨ho, ht, hread⟩ := not_not.mp hno
      exact ⟨hfixed.1.2, hfixed.2.2, z, ((hmem z).mp hz).1, ho, ((hmem z).mp hz).2, ht, hread⟩
    · rintro ⟨_, _, z, hz, ho, hi, ht, hread⟩
      exact ⟨z, (hmem z).mpr ⟨hz, hi⟩, not_not.mpr ⟨ho, ht, hread⟩⟩
  · rw [if_neg hfixed]
    constructor
    · intro h
      cases h
    · rintro ⟨hb, he, z, hz, ho, hi, _⟩
      exact (hfixed ⟨⟨ho ▸ hc.endpoint z .out hz, hb⟩, hi ▸ hc.endpoint z .inp hz, he⟩).elim

theorem helperCheckEdge_readable (hc : ArcsOk c) (hread : ∀ y, Live c y → CanRead ctx c y) :
    helperCheckEdge c ctx b e type = true ↔ EdgeBetween c b e type := by
  rw [helperCheckEdge_iff hc]
  refine ⟨ReadableEdge.edge, ?_⟩
  rintro ⟨z, hz, ho, hi, ht⟩
  exact ⟨hread b (ho ▸ hc.endpoint z .out hz), hread e (hi ▸ hc.endpoint z .inp hz), z, hz, ho, hi, ht,
    hread z hz.1⟩

open Classical in
/-- The loop of `GetCommandState` goes through the marks that the reader sees. -/
theorem visitedStates_eq (hc : ArcsOk c) (hcmd : Live c cmd) (hread : CanRead ctx c cmd) :
    visitedStates c ctx kn cmd =
      some (((marks c kn cmd).filter fun x => Seen c ctx kn x).map (ownerOf c .out)) := by
  unfold visitedStates iterator3 marks
  simp only [Iterator3Params.fixed, List.mem_singleton, forall_eq, hcmd, hread, and_self, if_true,
    Option.map_some, List.map_map]
  rw [List.filter_map, List.filter_filter, List.filter_filter]
  congr 2
  apply List.filter_congr
  intro x _
  have hmatch : (Iterator3Params.aaf scTypeNodeConstClass scTypeEdgeAccessConstPosTemp cmd).matching c ctx x =
      true ↔ HasType c x scTypeEdgeAccessConstPosTemp ∧ HasType c (ownerOf c .out x) scTypeNodeConstClass ∧
        CanRead ctx c x ∧ CanRead ctx c (ownerOf c .out x) := decide_eq_true_iff
  rw [Bool.eq_iff_iff, Bool.and_eq_true, Bool.and_eq_true, Function.comp_apply, helperCheckEdge_iff hc,
    decide_eq_true_iff, decide_eq_true_iff, hmatch]
  constructor
  · rintro ⟨hstate, ht, hclass, hx, _⟩
    exact ⟨⟨hx, hstate⟩, ht, hclass, hstate.edge⟩
  · rintro ⟨⟨hx, hstate⟩, ht, hclass, _⟩
    exact ⟨hstate, ht, hclass, hx, hstate.2.1⟩

theorem visitedStates_none (hread : ¬ CanRead ctx c cmd) : visitedStates c ctx kn cmd = none := by
  unfold visitedStates iterator3
  rw [if_neg, Option.map_none]
  intro h
  exact hread (h cmd (by simp [Iterator3Params.fixed])).2

/-! What a step leaves of the marks. -/

/-- Every arc into `cmd` and every arc out of the class of states is as it was, but for those that come
and go. -/
theorem isMark_congr (hx : ∀ t, HasType c' x t ↔ HasType c x t)
    (ho : ownerOf c' .out x = ownerOf c .out x)
    (hb : ∀ t, HasType c' (ownerOf c .out x) t ↔ HasType c (ownerOf c .out x) t)
    (hm : HasType c (ownerOf c .out x) scTypeNodeConstClass →
      (EdgeBetween c' kn.kCommandState (ownerOf c .out x) scTypeEdgeAccessConstPosPerm ↔
        EdgeBetween c kn.kCommandState (ownerOf c .out x) scTypeEdgeAccessConstPosPerm)) :
    IsMark c' kn x ↔ IsMark c kn x := by
  unfold IsMark
  rw [ho, hx, hb]
  constructor
  · rintro ⟨h1, h2, h3⟩
    exact ⟨h1, h2, (hm h2).mp h3⟩
  · rintro ⟨h1, h2, h3⟩
    exact ⟨h1, h2, (hm h2).mpr h3⟩

end

section
variable {env : ScEnv} {ctx : ScContext} {kn : ScKeynodes} {st st' s : ScStorage}
  {cmd a b e x : ScAddr} {type : ScType} {levels : ScAccessLevels}

theorem hasType_congr {c c' : Cells} {t : ScType} (h : (c' x).type = (c x).type) :
    HasType c' x t ↔ HasType c x t := by
  unfold HasType
  rw [h]

theorem not_live_of_free (h : ArcCreated st type b e levels x st') : ¬ Live st.cell x :=
  fun hl => type_of_live hl h.created.refCount.2.2.1

theorem edgeBetween_created (hc : CellsOk st) (h : ArcCreated st type b e levels x st')
    {b' e' : ScAddr} {t : ScType} : EdgeBetween st'.cell b' e' t ↔
      EdgeBetween st.cell b' e' t ∨ (b' = b ∧ e' = e ∧ HasType st'.cell x t) := by
  have hadd := h.added hc
  have hx := not_live_of_free h
  constructor
  · rintro ⟨z, hz, ho, hi, ht⟩
    rw [hadd.owner] at ho hi
    rcases (hadd.liveArc z).mp hz with rfl | hz
    · rw [if_pos rfl] at ho hi
      exact Or.inr ⟨ho.symm, hi.symm, ht⟩
    · have hzx : z ≠ x := fun he => hx (he ▸ hz.1)
      rw [if_neg hzx] at ho hi
      exact Or.inl ⟨z, hz, ho, hi, (hasType_congr (hadd.type z hzx)).mp ht⟩
  · rintro (⟨z, hz, ho, hi, ht⟩ | ⟨rfl, rfl, ht⟩)
    · have hzx : z ≠ x := fun he => hx (he ▸ hz.1)
      refine ⟨z, (hadd.liveArc z).mpr (Or.inr hz), ?_, ?_, (hasType_congr (hadd.type z hzx)).mpr ht⟩
      · rw [hadd.owner, if_neg hzx, ho]
      · rw [hadd.owner, if_neg hzx, hi]
    · refine ⟨x, hadd.arc, ?_, ?_, ht⟩
      · rw [hadd.owner, if_pos rfl]
      · rw [hadd.owner, if_pos rfl]

open Classical in
/-- A new arc that does not begin at the class of states is a mark, or changes no mark. -/
theorem marks_created (hc : CellsOk st) (h : ArcCreated st type b e levels x st')
    (hb : b ≠ kn.kCommandState) (hcmd : Live st.cell cmd) :
    marks st'.cell kn cmd =
      if cmd = e ∧ IsMark st'.cell kn x then x :: marks st.cell kn cmd else marks st.cell kn cmd := by
  have hadd := h.added hc
  have hx := not_live_of_free h
  have hne : x ≠ ScAddr.empty := h.created.notEmpty
  have hchain := hadd.arcChain hc.arcs hx hne (fun d => by
    cases d with
    | out => exact h.beginLive
    | inp => exact h.endLive) (hc.arcs.arcList (d := .inp) hcmd)
  have hold : (arcList st.cell .inp cmd).filter (fun y => IsMark st'.cell kn y) =
      marks st.cell kn cmd := by
    apply List.filter_congr
    intro y hy
    rw [decide_eq_decide]
    have hya : LiveArc st.cell y := (((hc.arcs.arcList (d := .inp) hcmd).mem y).mp hy).1
    have hyx : y ≠ x := fun he => hx (he ▸ hya.1)
    have hox : ownerOf st.cell .out y ≠ x := fun he => hx (he ▸ hc.arcs.endpoint y .out hya)
    refine isMark_congr (fun t => hasType_congr (hadd.type y hyx)) ?_
      (fun t => hasType_congr (hadd.type _ hox)) fun _ => ?_
    · rw [hadd.owner, if_neg hyx]
    · rw [edgeBetween_created hc h]
      exact or_iff_left fun hh => hb hh.1.symm
  unfold marks
  rw [hchain.arcList_eq]
  change (List.filter (fun y => decide (IsMark st'.cell kn y)) (if cmd = e then _ else _)) = _
  by_cases hend : cmd = e
  · simp only [hend, if_true, true_and] at hold ⊢
    rw [List.filter_cons]
    simp only [decide_eq_true_eq, hold]
    rfl
  · simp only [hend, if_false, false_and]
    exact hold

theorem edgeBetween_grown {new : Set ScAddr} (h : GrownBy st new st') {t : ScType}
    (hb : EdgeBetween st.cell b e t) : EdgeBetween st'.cell b e t := by
  obtain ⟨z, hz, ho, hi, ht⟩ := hb
  obtain ⟨hz', htype, howner⟩ := h.liveArc hz
  exact ⟨z, hz', (howner .out).trans ho, (howner .inp).trans hi, (hasType_congr htype).mpr ht⟩

theorem type_grown {new : Set ScAddr} (h : GrownBy st new st') (hx : Live st.cell x) :
    Live st'.cell x ∧ (st'.cell x).type = (st.cell x).type := by
  have hnot : x ∉ new := fun hn => type_of_live hx (h.free x hn)
  exact ⟨(h.others x hnot).same.live.mpr hx, (h.others x hnot).same.type⟩

theorem isArc_congr {c c' : Cells} (h : (c' x).type = (c x).type) : (c' x).isArc = (c x).isArc := by
  unfold ScElement.isArc
  rw [h]

theorem KeynodesOk.grown {new : Set ScAddr} (h : KeynodesOk kn st.cell) (hg : GrownBy st new st') :
    KeynodesOk kn st'.cell := by
  refine ⟨h.nodup, h.apart, ?_, ?_⟩
  · obtain ⟨hl, ht⟩ := type_grown hg h.stateClass.1
    exact ⟨hl, (isArc_congr ht).trans h.stateClass.2⟩
  · intro k hk
    obtain ⟨hlive, harc, htype, hedge⟩ := h.states k hk
    obtain ⟨hl, ht⟩ := type_grown hg hlive
    exact ⟨hl, (isArc_congr ht).trans harc, (hasType_congr ht).mpr htype,
      edgeBetween_grown hg hedge⟩

theorem CommandOk.grown {new : Set ScAddr} (h : CommandOk kn st.cell cmd) (hg : GrownBy st new st') :
    CommandOk kn st'.cell cmd := by
  obtain ⟨hl, ht⟩ := type_grown hg h.live
  exact ⟨hl, (isArc_congr ht).trans h.node, h.apart⟩

/-- An element of the closure is the root or an arc. -/
theorem isArc_of_inClosure {c : Cells} {y : ScAddr} (h : InClosure c x y) (hx : (c x).isArc = true) :
    (c y).isArc = true := by
  cases h with
  | root => exact hx
  | arc _ d hy _ => exact hy.2

/-- An arc between nodes goes only when it is the root itself. -/
theorem notMem_closure {c : Cells} {y : ScAddr} (hx : (c x).isArc = true) (hyx : y ≠ x)
    (hends : ∀ d, (c (ownerOf c d y)).isArc = false) : ¬ InClosure c x y := by
  intro h
  cases h with
  | root => exact hyx rfl
  | arc _ d hy ho =>
    have harc := isArc_of_inClosure ho hx
    rw [hends d] at harc
    cases harc

section
variable {order : HashOrder} (hc : CellsOk st) (hx : LiveArc st.cell x)
  (he : Erased env st (erasedList order st.cell x) st')
include hc hx he

omit he in
theorem survives_iff (y : ScAddr) : y ∉ erasedList order st.cell x ↔ ¬ InClosure st.cell x y := by
  rw [mem_erasedList hc.arcs hx.1]

theorem node_survives {y : ScAddr} (hy : Live st.cell y) (harc : (st.cell y).isArc = false) :
    Live st'.cell y ∧ (st'.cell y).type = (st.cell y).type := by
  have hnot : ¬ InClosure st.cell x y := by
    intro h
    rw [isArc_of_inClosure h hx.2] at harc
    cases harc
  have hsame := he.cells.same y ((survives_iff hc hx y).mpr hnot)
  exact ⟨hsame.live.mpr hy, hsame.type⟩

theorem edgeBetween_erased {t : ScType} (hb : (st.cell b).isArc = false) (hend : (st.cell e).isArc = false)
    (hxe : ownerOf st.cell .inp x ≠ e) :
    EdgeBetween st'.cell b e t ↔ EdgeBetween st.cell b e t := by
  constructor
  · rintro ⟨z, hz, ho, hi, ht⟩
    have hzD : z ∉ erasedList order st.cell x := fun hd => he.cells.dead z hd hz.1
    have hsame := he.cells.same z hzD
    rw [hsame.owner] at ho hi
    exact ⟨z, ⟨hsame.live.mp hz.1, hsame.isArc ▸ hz.2⟩, ho, hi, (hasType_congr hsame.type).mp ht⟩
  · rintro ⟨z, hz, ho, hi, ht⟩
    have hzx : z ≠ x := fun hh => hxe (hh ▸ hi)
    have hnot : ¬ InClosure st.cell x z := by
      refine notMem_closure hx.2 hzx fun d => ?_
      cases d with
      | out => exact ho ▸ hb
      | inp => exact hi ▸ hend
    have hsame := he.cells.same z ((survives_iff hc hx z).mpr hnot)
    refine ⟨z, ⟨hsame.live.mpr hz.1, hsame.isArc.trans hz.2⟩, ?_, ?_, (hasType_congr hsame.type).mpr ht⟩
    · rw [hsame.owner, ho]
    · rw [hsame.owner, hi]

theorem KeynodesOk.erased (h : KeynodesOk kn st.cell) (hcmd : CommandOk kn st.cell cmd)
    (hend : ownerOf st.cell .inp x = cmd) : KeynodesOk kn st'.cell := by
  refine ⟨h.nodup, h.apart, ?_, ?_⟩
  · obtain ⟨hl, ht⟩ := node_survives hc hx he h.stateClass.1 h.stateClass.2
    exact ⟨hl, (isArc_congr ht).trans h.stateClass.2⟩
  · intro k hk
    obtain ⟨hlive, harc, htype, hedge⟩ := h.states k hk
    obtain ⟨hl, ht⟩ := node_survives hc hx he hlive harc
    have hne : ownerOf st.cell .inp x ≠ k := by
      rintro rfl
      exact hcmd.apart (List.mem_cons_of_mem _ (hend ▸ hk))
    exact ⟨hl, (isArc_congr ht).trans harc, (hasType_congr ht).mpr htype,
      (edgeBetween_erased hc hx he h.stateClass.2 harc hne).mpr hedge⟩

theorem CommandOk.erased (h : CommandOk kn st.cell cmd) : CommandOk kn st'.cell cmd := by
  obtain ⟨hl, ht⟩ := node_survives hc hx he h.live h.node
  exact ⟨hl, (isArc_congr ht).trans h.node, h.apart⟩

/-- The deletion of a mark takes away this mark only. -/
theorem marks_erased (h : KeynodesOk kn st.cell) (hcmd : CommandOk kn st.cell cmd)
    (hend : ownerOf st.cell .inp x = cmd)
    (hmarks : ∀ y ∈ marks st.cell kn cmd, ownerOf st.cell .out y ∈ kn.states) :
    marks st'.cell kn cmd = (marks st.cell kn cmd).filter fun y => y ≠ x := by
  classical
  have hok' := h.erased hc hx he hcmd hend
  have hlist := hc.arcs.arcList (d := .inp) hcmd.live
  have hcmdD : cmd ∉ erasedList order st.cell x := by
    rw [survives_iff hc hx]
    intro hin
    have harc := isArc_of_inClosure hin hx.2
    rw [hcmd.node] at harc
    cases harc
  have hchain := he.cells.arcChain hc.arcs hcmd.live hcmdD (d := .inp)
  unfold marks
  rw [hchain.arcList_eq]
  unfold restList
  rw [List.filter_filter, List.filter_filter]
  apply List.filter_congr
  intro y hy
  obtain ⟨hya, hyi⟩ := (hlist.mem y).mp hy
  rw [Bool.eq_iff_iff, Bool.and_eq_true, Bool.and_eq_true, decide_eq_true_iff, decide_eq_true_iff,
    decide_eq_true_iff, decide_eq_true_iff, survives_iff hc hx]
  constructor
  · rintro ⟨⟨ht, hclass, z, hz, hzo, hzi, hzt⟩, hnot⟩
    have hyx : y ≠ x := by
      rintro rfl
      exact hnot InClosure.root
    have hsame := he.cells.same y ((survives_iff hc hx y).mpr hnot)
    have hnoto : ¬ InClosure st.cell x (ownerOf st.cell .out y) :=
      fun hh => hnot (InClosure.arc y .out hya hh)
    have hsameo := he.cells.same _ ((survives_iff hc hx _).mpr hnoto)
    rw [hsame.owner] at hclass hzi
    have hzD : z ∉ erasedList order st.cell x := fun hd => he.cells.dead z hd hz.1
    have hsamez := he.cells.same z hzD
    rw [hsamez.owner] at hzo hzi
    exact ⟨hyx, (hasType_congr hsame.type).mp ht, (hasType_congr hsameo.type).mp hclass,
      z, ⟨hsamez.live.mp hz.1, hsamez.isArc ▸ hz.2⟩, hzo, hzi, (hasType_congr hsamez.type).mp hzt⟩
  · rintro ⟨hyx, hmark⟩
    have hkey := hmarks y (List.mem_filter.mpr ⟨hy, decide_eq_true hmark⟩)
    obtain ⟨_, harc, _, _⟩ := h.states _ hkey
    have hnot : ¬ InClosure st.cell x y := by
      refine notMem_closure hx.2 hyx fun d => ?_
      cases d with
      | out => exact harc
      | inp => exact hyi ▸ hcmd.node
    have hsame := he.cells.same y ((survives_iff hc hx y).mpr hnot)
    obtain ⟨_, _, hclass, hedge⟩ := hok'.states _ hkey
    refine ⟨⟨(hasType_congr hsame.type).mpr hmark.1, ?_, ?_⟩, hnot⟩
    · rw [hsame.owner]
      exact hclass
    · rw [hsame.owner]
      exact hedge

end

/-- A new node changes no list. -/
theorem marks_node (hc : CellsOk st) {el : ScElement}
    (h : Created st a (Function.update st.cell a el) st') (hel : el.isArc = false)
    (hcmd : Live st.cell cmd) : marks st'.cell kn cmd = marks st.cell kn cmd := by
  classical
  obtain ⟨_, _, hfree, hcell⟩ := h.refCount
  have hdead : ¬ Live st.cell a := fun hl => type_of_live hl hfree
  have hother (y : ScAddr) (hy : Live st.cell y) : st'.cell y = st.cell y := by
    have hne : y ≠ a := fun he => hdead (he ▸ hy)
    rw [hcell, Function.update_of_ne hne]
  have harcs (z : ScAddr) : LiveArc st'.cell z ↔ LiveArc st.cell z := by
    by_cases hz : z = a
    · subst hz
      refine ⟨fun hh => ?_, fun hh => absurd hh.1 hdead⟩
      have harc := hh.2
      rw [hcell, Function.update_self, hel] at harc
      cases harc
    · unfold LiveArc Live
      rw [hcell, Function.update_of_ne hz]
  have hlist := hc.arcs.arcList (d := .inp) hcmd
  have hchain : ArcChain st'.cell .inp cmd (arcList st.cell .inp cmd) := by
    have hsame (y : ScAddr) (hy : y ∈ arcList st.cell .inp cmd) : st'.cell y = st.cell y :=
      hother y (((hlist.mem y).mp hy).1).1
    refine ⟨hlist.nodup, ?_, ?_, ?_⟩
    · intro z
      rw [hlist.mem, harcs]
      refine and_congr_right fun hz => ?_
      unfold ownerOf
      rw [hother z hz.1]
    · refine hlist.linked.congr fun y hy => ?_
      unfold nextOf prevOf
      rw [hsame y hy]
      exact ⟨rfl, rfl⟩
    · rw [hother cmd hcmd]
      exact hlist.first
  have hedge (b e : ScAddr) (t : ScType) : EdgeBetween st'.cell b e t ↔ EdgeBetween st.cell b e t := by
    refine exists_congr fun z => ?_
    rw [harcs]
    refine and_congr_right fun hz => ?_
    unfold ownerOf HasType
    rw [hother z hz.1]
  unfold marks
  rw [hchain.arcList_eq]
  apply List.filter_congr
  intro y hy
  rw [decide_eq_decide]
  have hya := ((hlist.mem y).mp hy).1
  have ho : ownerOf st'.cell .out y = ownerOf st.cell .out y := by
    unfold ownerOf
    rw [hother y hya.1]
  refine isMark_congr (fun t => hasType_congr ?_) ho (fun t => hasType_congr ?_) fun _ => hedge _ _ _
  · rw [hother y hya.1]
  · rw [hother _ (hc.arcs.endpoint y .out hya)]

end

/-- The marks of the command are the arcs of `l`, which begin at the given states. -/
structure CommandMarks (thread : ℕ) (kn : ScKeynodes) (cmd : ScAddr) (l : List (ScAddr × ScAddr))
    (st : ScStorage) : Prop where
  store : StoreOk thread st
  keynodes : KeynodesOk kn st.cell
  command : CommandOk kn st.cell cmd
  marks_eq : marks st.cell kn cmd = l.map Prod.fst
  begins : ∀ p ∈ l, ownerOf st.cell .out p.1 = p.2 ∧ p.2 ∈ kn.states

section
variable {env : ScEnv} {ctx : ScContext} {kn : ScKeynodes} {st st' : ScStorage}
  {cmd a b e k x : ScAddr} {type : ScType} {l : List (ScAddr × ScAddr)}

theorem CommandMarks.mark {thread : ℕ} (h : CommandMarks thread kn cmd l st) {p : ScAddr × ScAddr}
    (hp : p ∈ l) : LiveArc st.cell p.1 ∧ ownerOf st.cell .inp p.1 = cmd ∧ IsMark st.cell kn p.1 := by
  classical
  have hmem : p.1 ∈ marks st.cell kn cmd := by
    rw [h.marks_eq]
    exact List.mem_map_of_mem hp
  obtain ⟨hin, hmark⟩ := List.mem_filter.mp hmem
  obtain ⟨hlive, hend⟩ := ((h.store.cells.arcs.arcList (d := .inp) h.command.live).mem _).mp hin
  exact ⟨hlive, hend, of_decide_eq_true hmark⟩

theorem CommandMarks.of_unlocked (h : CommandMarks env.thread kn cmd l st)
    (hok : StoreOk env.thread st') (hu : st'.unlocked = st.unlocked) :
    CommandMarks env.thread kn cmd l st' := by
  have hcell := cell_of_unlocked hu
  exact ⟨hok, hcell ▸ h.keynodes, hcell ▸ h.command, by rw [hcell]; exact h.marks_eq,
    by rw [hcell]; exact h.begins⟩

/-- Arcs that begin elsewhere, or are no state arcs, or end elsewhere. -/
theorem CommandMarks.arc {levels : ScAccessLevels} (h : CommandMarks env.thread kn cmd l st)
    (hok : StoreOk env.thread st') (hcr : ArcCreated st type b e levels x st')
    (hb : b ≠ kn.kCommandState)
    (hno : cmd ≠ e ∨ ¬ scTypeEdgeAccessConstPosTemp &&& scFlagsRemove (arcTypeOf type) =
      scTypeEdgeAccessConstPosTemp) : CommandMarks env.thread kn cmd l st' := by
  have hgrown := hcr.grown h.store.cells
  refine ⟨hok, h.keynodes.grown hgrown, h.command.grown hgrown, ?_, ?_⟩
  · rw [marks_created h.store.cells hcr hb h.command.live, if_neg, h.marks_eq]
    rintro ⟨hend, hmark⟩
    refine hno.elim (fun hne => hne hend) fun ht => ht ?_
    have htype : HasType st'.cell x scTypeEdgeAccessConstPosTemp := hmark.1
    unfold HasType at htype
    rwa [hcr.typeOf.1] at htype
  · intro p hp
    obtain ⟨hlive, _, _⟩ := h.mark hp
    rw [(hgrown.liveArc hlive).2.2]
    exact h.begins p hp

/-- The arc of a state: it comes before the others. -/
theorem CommandMarks.state {levels : ScAccessLevels} (h : CommandMarks env.thread kn cmd l st)
    (hok : StoreOk env.thread st')
    (hcr : ArcCreated st scTypeEdgeAccessConstPosTemp k cmd levels x st') (hk : k ∈ kn.states) :
    CommandMarks env.thread kn cmd ((x, k) :: l) st' := by
  have hgrown := hcr.grown h.store.cells
  have hkne : k ≠ kn.kCommandState := by
    rintro rfl
    exact (List.nodup_cons.mp h.keynodes.nodup).1 hk
  have hadd := hcr.added h.store.cells
  have hout : ownerOf st'.cell .out x = k := by
    rw [hadd.owner, if_pos rfl]
  have hkey := (h.keynodes.grown hgrown).states k hk
  have hmark : IsMark st'.cell kn x := by
    refine ⟨?_, ?_, ?_⟩
    · unfold HasType
      rw [hcr.typeOf.1]
      decide
    · rw [hout]
      exact hkey.2.2.1
    · rw [hout]
      exact hkey.2.2.2
  refine ⟨hok, h.keynodes.grown hgrown, h.command.grown hgrown, ?_, ?_⟩
  · rw [marks_created h.store.cells hcr hkne h.command.live, if_pos ⟨rfl, hmark⟩, h.marks_eq]
    rfl
  · intro p hp
    rcases List.mem_cons.mp hp with rfl | hp
    · exact ⟨hout, hk⟩
    · obtain ⟨hlive, _, _⟩ := h.mark hp
      rw [(hgrown.liveArc hlive).2.2]
      exact h.begins p hp

theorem CommandMarks.node {el : ScElement} (h : CommandMarks env.thread kn cmd l st)
    (hok : StoreOk env.thread st') (hcr : Created st a (Function.update st.cell a el) st')
    (hel : el.isArc = false) (hlive : Live (fun _ => el) a) : CommandMarks env.thread kn cmd l st' := by
  have hgrown := hcr.grown hlive
  refine ⟨hok, h.keynodes.grown hgrown, h.command.grown hgrown, ?_, ?_⟩
  · rw [marks_node h.store.cells hcr hel h.command.live, h.marks_eq]
  · intro p hp
    obtain ⟨harc, _, _⟩ := h.mark hp
    rw [(hgrown.liveArc harc).2.2]
    exact h.begins p hp

/-- The newest mark is deleted. -/
theorem CommandMarks.free {order : HashOrder} {r : ScResult}
    (h : CommandMarks env.thread kn cmd ((x, k) :: l) st)
    (hwrite : ∀ y ∈ checkedElements st.cell x, CanWrite ctx st.cell y)
    (hrun : scStorageElementFree env ctx order x st = .ok (r, st')) :
    CommandMarks env.thread kn cmd l st' := by
  obtain ⟨hx, hend, _⟩ := h.mark List.mem_cons_self
  have hc := h.store.cells
  have hcall := storeOk_call (f := scStorageElementFree env ctx order x) (.elementFree ctx order x) rfl
    trivial h.store
  have hok : StoreOk env.thread st' := wp_ok (Q := fun _ s => StoreOk env.thread s) hcall hrun
  obtain ⟨r', s', hrun', _, hout⟩ := elementFree_returns h.store hx.1 ctx order
  rw [hrun] at hrun'
  cases hrun'
  cases hout with
  | dead _ hdead _ => exact absurd hx.1 hdead
  | denied _ _ hdenied _ => exact absurd hwrite hdenied
  | freed _ _ _ he =>
    have hbegins (y : ScAddr) (hy : y ∈ marks st.cell kn cmd) :
        ownerOf st.cell .out y ∈ kn.states := by
      rw [h.marks_eq] at hy
      obtain ⟨p, hp, rfl⟩ := List.mem_map.mp hy
      rw [(h.begins p hp).1]
      exact (h.begins p hp).2
    have hnodup : (((x, k) :: l).map Prod.fst).Nodup := by
      rw [← h.marks_eq]
      exact (hc.arcs.arcList h.command.live).nodup.filter _
    obtain ⟨hxl, _⟩ := List.nodup_cons.mp hnodup
    have hmarks := marks_erased hc hx he h.keynodes h.command hend hbegins
    rw [h.marks_eq, List.map_cons, List.filter_cons_of_neg (by simp), List.filter_eq_self.mpr] at hmarks
    · refine ⟨hok, h.keynodes.erased hc hx he h.command hend, h.command.erased hc hx he, hmarks, ?_⟩
      intro p hp
      -- the arc is still there, so it begins where it did
      have hin : p.1 ∈ marks st'.cell kn cmd := by
        rw [hmarks]
        exact List.mem_map_of_mem hp
      have hlive := (((hok.cells.arcs.arcList (d := .inp) (h.command.erased hc hx he).live).mem _).mp
        (List.mem_filter.mp hin).1).1.1
      have hsurvives : p.1 ∉ erasedList order st.cell x := fun hd => he.cells.dead _ hd hlive
      rw [(he.cells.same _ hsurvives).owner]
      exact h.begins p (List.mem_cons_of_mem _ hp)
    · intro y hy
      exact decide_eq_true fun he => hxl (he ▸ hy)

/-- What is shown is a mark that the reader sees. -/
theorem CommandMarks.shown_iff {thread : ℕ} (h : CommandMarks thread kn cmd l st) (hk : k ∈ kn.states) :
    Shown st.cell ctx kn cmd k ↔
      CanRead ctx st.cell cmd ∧ ∃ p ∈ l, p.2 = k ∧ Seen st.cell ctx kn p.1 := by
  classical
  obtain ⟨_, _, hclass, hstate⟩ := h.keynodes.states k hk
  constructor
  · rintro ⟨⟨_, hcmd, z, hz, ho, hi, ht, hread⟩, hshown⟩
    have hmark : z ∈ marks st.cell kn cmd := by
      refine List.mem_filter.mpr ⟨?_, decide_eq_true ⟨ht, ?_, ?_⟩⟩
      · exact ((h.store.cells.arcs.arcList (d := .inp) h.command.live).mem z).mpr ⟨hz, hi⟩
      · rw [ho]
        exact hclass
      · rw [ho]
        exact hstate
    rw [h.marks_eq] at hmark
    obtain ⟨p, hp, rfl⟩ := List.mem_map.mp hmark
    refine ⟨hcmd, p, hp, (h.begins p hp).1.symm.trans ho, hread, ?_⟩
    rw [ho]
    exact hshown
  · rintro ⟨hcmd, p, hp, rfl, hread, hshown⟩
    obtain ⟨hlive, hend, hmark⟩ := h.mark hp
    rw [(h.begins p hp).1] at hshown
    exact ⟨⟨hshown.2.1, hcmd, p.1, hlive, (h.begins p hp).1, hend, hmark.1, hread⟩, hshown⟩

end

end ScMachine.Agent
