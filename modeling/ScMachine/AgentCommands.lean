import ScMachine.CommandMarks

/-! The steps of a command and the state that is reported after them. -/
namespace ScMachine.Agent
open ScMachine.Store ScMachine.Template ScMachine.StateExcept ScMachine.Runs

/-- Where the command is: no arc of it is on its way to an agent, the agents are told of an arc, or an
agent is in `RunImpl`. -/
inductive CommandPhase where
  | quiet
  | initiated (edge : ScAddr)
  | running (run : RunningCommand)

/-- The store, the phase of a command, and the states of its steps so far, the newest first. No code
reads the last. -/
structure AgentState where
  st : ScStorage
  phase : CommandPhase
  history : List State

inductive AgentEvent where
  | initiate (ctx : ScContext)
  | start (ctx : ScContext)
  | finish (ctx : ScContext) (resCode : ScResult)
  | other (e : StoreEvent)

/-- Another step leaves the keynodes and the state arcs of the command alone. -/
structure LeavesMarks (kn : ScKeynodes) (cmd : ScAddr) (st st' : ScStorage) : Prop where
  keynodes : KeynodesOk kn st'.cell
  command : CommandOk kn st'.cell cmd
  marks_eq : marks st'.cell kn cmd = marks st.cell kn cmd
  begins : ∀ x ∈ marks st.cell kn cmd, ownerOf st'.cell .out x = ownerOf st.cell .out x

/-- A step. `InitiateCommand` has returned true, an agent has been started by the arc that it has made,
`Run` has come to its end, or something else happens in the store. -/
inductive AgentStep (thread : ℕ) (kn : ScKeynodes) (cmdClassAddr cmd : ScAddr) (s : AgentState) :
    AgentEvent → AgentState → Prop where
  | initiate (env : ScEnv) (ctx : ScContext) (edge : ScAddr) (st' : ScStorage)
      (hthread : env.thread = thread)
      (hrun : initiateCommand env ctx kn cmd s.st = .ok (some edge, st')) :
    AgentStep thread kn cmdClassAddr cmd s (.initiate ctx)
      ⟨st', .initiated edge, .initiated :: s.history⟩
  | start (env : ScEnv) (ctx : ScContext) (order : HashOrder) (edge : ScAddr) (run : RunningCommand)
      (st' : ScStorage) (hthread : env.thread = thread) (hphase : s.phase = .initiated edge)
      (hrun : runStart env ctx order kn cmdClassAddr edge s.st = .ok (some run, st')) :
    AgentStep thread kn cmdClassAddr cmd s (.start ctx) ⟨st', .running run, .progress :: s.history⟩
  | finish (env : ScEnv) (ctx : ScContext) (order : HashOrder) (run : RunningCommand)
      (resCode : ScResult) (made : Bool) (st' : ScStorage) (hthread : env.thread = thread)
      (hphase : s.phase = .running run)
      (hrun : runFinish env ctx order kn run resCode s.st = .ok (made, st')) :
    AgentStep thread kn cmdClassAddr cmd s (.finish ctx resCode) ⟨st', .quiet, .finished :: s.history⟩
  | other (e : StoreEvent) (st' : ScStorage) (hstep : OwnStep thread s.st e st')
      (hleaves : LeavesMarks kn cmd s.st st') :
    AgentStep thread kn cmdClassAddr cmd s (.other e) ⟨st', s.phase, s.history⟩

section
variable {env : ScEnv} {ctx : ScContext} {order : HashOrder} {kn : ScKeynodes} {st st' : ScStorage}
  {cmd cmdClassAddr edge : ScAddr} {l : List (ScAddr × ScAddr)} {run : RunningCommand}

theorem arcNew_effect {type : ScType} {b e r : ScAddr} (hok : StoreOk env.thread st)
    (htype : type &&& scTypeLink = 0) (hrun : scStorageArcNew env ctx type b e st = .ok (r, st')) :
    StoreOk env.thread st' ∧ ((st'.unlocked = st.unlocked ∧ r = ScAddr.empty) ∨
      ArcCreated st type b e ctx.accessLevels r st') := by
  have hcall := storeOk_call (f := scStorageArcNew env ctx type b e) (.arcNew ctx type b e) rfl htype hok
  have hnew := arcNew_returns (holds_start env.thread st hok.wf.1 hok.wf.2) hok.cells ctx type b e
  exact wp_ok (Q := fun r s => StoreOk env.thread s ∧ ((s.unlocked = st.unlocked ∧ r = ScAddr.empty) ∨
    ArcCreated st type b e ctx.accessLevels r s)) (wp_and hcall hnew) hrun

/-- An arc that is no state arc of the command, or none at all. -/
theorem CommandMarks.arcNew (h : CommandMarks env.thread kn cmd l st) (ctx : ScContext) (type : ScType) (b e : ScAddr)
    (htype : type &&& scTypeLink = 0) (hb : b ≠ kn.kCommandState)
    (hno : cmd ≠ e ∨ ¬ scTypeEdgeAccessConstPosTemp &&& scFlagsRemove (arcTypeOf type) =
      scTypeEdgeAccessConstPosTemp) :
    IfReturns (scStorageArcNew env ctx type b e)
      (fun _ st' => CommandMarks env.thread kn cmd l st') st := by
  apply ifReturns_of_ok
  intro r s hrun
  obtain ⟨hok, ⟨hu, _⟩ | hcr⟩ := arcNew_effect h.store htype hrun
  · exact h.of_unlocked hok hu
  · exact h.arc hok hcr hb hno

/-- The arc of a state, or none. -/
theorem CommandMarks.stateNew (h : CommandMarks env.thread kn cmd l st) (ctx : ScContext) {k : ScAddr}
    (hk : k ∈ kn.states) :
    IfReturns (scStorageArcNew env ctx scTypeEdgeAccessConstPosTemp k cmd)
      (fun r st' => (r = ScAddr.empty ∧ CommandMarks env.thread kn cmd l st') ∨
        (r ≠ ScAddr.empty ∧ CommandMarks env.thread kn cmd ((r, k) :: l) st')) st := by
  apply ifReturns_of_ok
  intro r s hrun
  obtain ⟨hok, ⟨hu, he⟩ | hcr⟩ := arcNew_effect h.store (by decide) hrun
  · exact Or.inl ⟨he, h.of_unlocked hok hu⟩
  · exact Or.inr ⟨hcr.created.notEmpty, h.state hok hcr hk⟩

/-- The arcs from the state to the command that there are, the context may read. -/
def ReadsState (c : Cells) (ctx : ScContext) (k cmd : ScAddr) : Prop :=
  EdgeBetween c k cmd scTypeEdgeAccessConstPosTemp → ReadableEdge c ctx k cmd scTypeEdgeAccessConstPosTemp

/-- When a state is asked for that may be read and there is no arc of it, no mark is of this state. -/
theorem CommandMarks.not_checked (h : CommandMarks env.thread kn cmd l st) {k : ScAddr}
    (hreads : ReadsState st.cell ctx k cmd)
    (hno : helperCheckEdge st.cell ctx k cmd scTypeEdgeAccessConstPosTemp ≠ true) :
    ∀ p ∈ l, p.2 ≠ k := by
  rintro p hp rfl
  apply hno
  rw [helperCheckEdge_iff h.store.cells.arcs]
  obtain ⟨hlive, hend, hmark⟩ := h.mark hp
  exact hreads ⟨p.1, hlive, (h.begins p hp).1, hend, hmark.1⟩

/-- `InitiateCommand` returns true only for a command whose marks all say that it is finished, when it may
read the others. -/
theorem initiateCommand_effect (h : CommandMarks env.thread kn cmd l st)
    (hreads : ∀ k ∈ [kn.kCommandInitiated, kn.kCommandProgressd], ReadsState st.cell ctx k cmd) :
    IfReturns (initiateCommand env ctx kn cmd) (fun r st' => ∀ edge, r = some edge →
      CommandMarks env.thread kn cmd ((edge, kn.kCommandInitiated) :: l) st' ∧
        ∀ p ∈ l, p.2 = kn.kCommandFinished) st := by
  unfold initiateCommand
  rw [IfReturns, wp_bind, wp_get]
  dsimp only
  rw [wp_ite]
  refine ⟨fun _ edge hr => (by cases hr), fun hprogress => ?_⟩
  rw [wp_ite]
  refine ⟨fun _ edge hr => (by cases hr), fun hinitiated => ?_⟩
  rw [wp_bind]
  apply wp_mono (@CommandMarks.stateNew _ _ _ _ _ h ctx kn.kCommandInitiated (by simp [ScKeynodes.states])) _
    (fun _ _ => trivial)
  intro r s1 hr
  rw [wp_ite]
  refine ⟨fun _ edge hr => (by cases hr), fun hne edge hedge => ?_⟩
  cases hedge
  obtain ⟨he, _⟩ | ⟨_, hnew⟩ := hr
  · exact absurd he hne
  refine ⟨hnew, fun p hp => ?_⟩
  have hkey := (h.begins p hp).2
  have h1 := h.not_checked (hreads kn.kCommandInitiated (by simp)) hinitiated p hp
  have h2 := h.not_checked (hreads kn.kCommandProgressd (by simp)) hprogress p hp
  simpa [ScKeynodes.states, h1, h2] using hkey

/-- What is read of an element is what its cell says. -/
theorem readElement_effect {α : Type} (a : ScAddr) (body : ScElement → ScResult × Option α)
    (st : ScStorage) : IfReturns (readElement env a body) (fun r st' => st'.unlocked = st.unlocked ∧
      (r = (.error, none) ∨ r = (.errorInvalidState, none) ∨ r = body (st.cell a))) st := by
  unfold readElement
  rw [IfReturns, wp_bind]
  apply wp_mono (readOnly_lock env a st st rfl) _ (fun _ _ => trivial)
  intro r s1 hu1
  rw [wp_ite]
  refine ⟨fun _ => ⟨hu1, Or.inl rfl⟩, fun _ => ?_⟩
  rw [wp_bind, wp_readCell, cell_of_unlocked hu1, wp_bind]
  apply wp_mono (readOnly_unlock env a st s1 hu1) _ (fun _ _ => trivial)
  intro _ s2 hu2
  rw [wp_pure]
  refine ⟨hu2, ?_⟩
  split_ifs
  · exact Or.inr (Or.inr rfl)
  · exact Or.inr (Or.inl rfl)

/-- The command of an arc is read from the arc. -/
theorem getArcEnd_effect (h : CommandMarks env.thread kn cmd l st) {k : ScAddr}
    (hedge : (edge, k) ∈ l) : IfReturns (scStorageGetArcEnd env ctx edge)
      (fun r st' => CommandMarks env.thread kn cmd l st' ∧ st'.cell = st.cell ∧
        ∀ a, r = (.ok, some a) → a = cmd) st := by
  have hcall := storeOk_call (f := scStorageGetArcEnd env ctx edge) (.getArcEnd ctx edge) rfl trivial
    h.store
  obtain ⟨_, hend, _⟩ := h.mark hedge
  have hread : IfReturns (scStorageGetArcEnd env ctx edge) (fun r st' => st'.unlocked = st.unlocked ∧
      ∀ a, r = (.ok, some a) → a = cmd) st := by
    unfold scStorageGetArcEnd readArc
    apply wp_mono (readElement_effect edge _ st) _ (fun _ _ => trivial)
    rintro r s1 ⟨hu, hr⟩
    refine ⟨hu, ?_⟩
    rintro a rfl
    rcases hr with hr | hr | hr
    · cases hr
    · cases hr
    · split_ifs at hr
      · cases hr
        exact hend
      all_goals cases hr
  apply wp_mono (wp_and hcall hread) _ (fun _ _ => trivial)
  intro r s1 ⟨hok, hu, hr⟩
  exact ⟨h.of_unlocked hok hu, cell_of_unlocked hu, hr⟩

theorem nodeNew_effect (hok : StoreOk env.thread st) (type : ScType) :
    IfReturns (scStorageNodeNew env ctx type) (fun r s =>
      (s.unlocked = st.unlocked ∧ r = ScAddr.empty) ∨
        Created st r (Function.update st.cell r (nodeCell ctx type)) s) st := by
  unfold scStorageNodeNew scStorageNodeNewExt
  rw [IfReturns, wp_bind, wp_scAssert]
  refine ⟨fun _ => ?_, fun _ => trivial⟩
  exact newElement_returns (holds_start env.thread st hok.wf.1 hok.wf.2) hok.cells ctx _

/-- A node is created, or none is. -/
theorem CommandMarks.nodeNew (h : CommandMarks env.thread kn cmd l st) (type : ScType)
    (htype : (nodeCell ctx type).isArc = false) :
    IfReturns (scStorageNodeNew env ctx type) (fun _ st' => CommandMarks env.thread kn cmd l st') st := by
  have hcall := storeOk_call (f := scStorageNodeNew env ctx type) (.nodeNew ctx type) rfl trivial h.store
  apply wp_mono (wp_and hcall (nodeNew_effect h.store type)) _ (fun _ _ => trivial)
  rintro r s ⟨hok, ⟨hu, _⟩ | hcr⟩
  · exact h.of_unlocked hok hu
  · exact h.node hok hcr htype (nodeCell_live ctx type r)

/-- `Run` up to `RunImpl`. -/
theorem runStart_effect (h : CommandMarks env.thread kn cmd ((edge, kn.kCommandInitiated) :: l) st)
    (hwrite : ∀ y ∈ checkedElements st.cell edge, CanWrite ctx st.cell y) :
    IfReturns (runStart env ctx order kn cmdClassAddr edge) (fun r st' => ∀ run, r = some run →
      run.cmdAddr = cmd ∧
        CommandMarks env.thread kn cmd ((run.progressAddr, kn.kCommandProgressd) :: l) st') st := by
  unfold runStart
  rw [IfReturns, wp_bind]
  apply wp_mono (getArcEnd_effect h List.mem_cons_self) _ (fun _ _ => trivial)
  rintro r s1 ⟨h1, hcell, hend⟩
  split
  swap
  · intro run hr
    cases hr
  rename_i a
  obtain rfl := hend a rfl
  rw [wp_ite]
  refine ⟨fun _ run hr => (by cases hr), fun _ => ?_⟩
  rw [wp_bind, wp_get]
  dsimp only
  rw [wp_ite]
  refine ⟨fun _ run hr => (by cases hr), fun _ => ?_⟩
  rw [wp_bind]
  apply ifReturns_of_ok
  intro _ s2 hfree
  have h2 := h1.free (hcell ▸ hwrite) hfree
  rw [wp_bind]
  apply wp_mono (@CommandMarks.stateNew _ _ _ _ _ h2 ctx kn.kCommandProgressd (by simp [ScKeynodes.states])) _
    (fun _ _ => trivial)
  intro progress s3 h3
  rw [wp_bind, wp_scAssert]
  refine ⟨fun hne => ?_, fun _ => trivial⟩
  have h4 := (h3.resolve_left fun he => by simp [he.1] at hne).2
  have hnode : (nodeCell ctx scTypeNodeConstStruct).isArc = false := by
    show (scFlagsRemove (scTypeNode ||| scTypeNodeConstStruct) &&& scTypeArcMask != 0) = false
    decide
  rw [wp_bind]
  apply wp_mono (h4.nodeNew scTypeNodeConstStruct hnode) _ (fun _ _ => trivial)
  intro result s4 h5
  rw [wp_bind, wp_scAssert]
  refine ⟨fun _ run hr => ?_, fun _ => trivial⟩
  cases hr
  exact ⟨rfl, h5⟩

/-- The rest of `Run`. -/
theorem runFinish_effect (resCode : ScResult) (hrun : run.cmdAddr = cmd)
    (h : CommandMarks env.thread kn cmd ((run.progressAddr, kn.kCommandProgressd) :: l) st)
    (hwrite : ∀ y ∈ checkedElements st.cell run.progressAddr, CanWrite ctx st.cell y) :
    IfReturns (runFinish env ctx order kn run resCode) (fun _ st' =>
      ∃ new, CommandMarks env.thread kn cmd (new ++ l) st' ∧ ∀ p ∈ new, p.2 = kn.kCommandFinished) st := by
  have hperm : ¬ scTypeEdgeAccessConstPosTemp &&&
      scFlagsRemove (arcTypeOf scTypeEdgeAccessConstPosPerm) = scTypeEdgeAccessConstPosTemp := by decide
  unfold runFinish
  rw [IfReturns, wp_bind]
  apply ifReturns_of_ok
  intro _ s1 hfree
  have h1 := h.free hwrite hfree
  rw [wp_bind]
  have hcmd : run.cmdAddr ≠ kn.kCommandState := by
    rintro he
    exact h.command.apart (hrun ▸ he ▸ List.mem_cons_self)
  apply wp_mono (h1.arcNew ctx scTypeEdgeDCommonConst run.cmdAddr run.resultAddr (by decide)
    hcmd (Or.inr (by decide))) _ (fun _ _ => trivial)
  intro commonEdge s2 h2
  rw [wp_bind]
  apply wp_mono (h2.arcNew ctx scTypeEdgeAccessConstPosPerm kn.kNrelResult commonEdge (by decide)
    h.keynodes.apart.1 (Or.inr hperm)) _ (fun _ _ => trivial)
  intro _ s3 h3
  rw [wp_bind]
  apply wp_mono (h3.arcNew ctx scTypeEdgeAccessConstPosPerm (kn.getResultCodeAddr resCode)
    run.resultAddr (by decide) (h.keynodes.apart.2 resCode) (Or.inr hperm)) _ (fun _ _ => trivial)
  intro _ s4 h4
  rw [wp_bind, hrun]
  apply wp_mono (@CommandMarks.stateNew _ _ _ _ _ h4 ctx kn.kCommandFinished (by simp [ScKeynodes.states])) _
    (fun _ _ => trivial)
  intro finished s5 h5
  obtain ⟨_, hnone⟩ | ⟨_, hnew⟩ := h5
  · exact ⟨[], hnone, by simp⟩
  · exact ⟨[(finished, kn.kCommandFinished)], hnew, by simp⟩

end

/-- Who initiates the command may read the arcs that say that it is initiated or in progress, and the agent may
delete the arc that it is started by and its own one. -/
def AgentEvent.Able (kn : ScKeynodes) (cmd : ScAddr) (s : AgentState) : AgentEvent → Prop
  | .initiate ctx => ∀ k ∈ [kn.kCommandInitiated, kn.kCommandProgressd], ReadsState s.st.cell ctx k cmd
  | .start ctx => ∀ edge, s.phase = .initiated edge →
    ∀ y ∈ checkedElements s.st.cell edge, CanWrite ctx s.st.cell y
  | .finish ctx _ => ∀ run, s.phase = .running run →
    ∀ y ∈ checkedElements s.st.cell run.progressAddr, CanWrite ctx s.st.cell y
  | .other _ => True

structure AbleStep (thread : ℕ) (kn : ScKeynodes) (cmdClassAddr cmd : ScAddr) (s : AgentState)
    (e : AgentEvent) (s' : AgentState) : Prop where
  step : AgentStep thread kn cmdClassAddr cmd s e s'
  able : e.Able kn cmd s

def CommandPhase.marks (kn : ScKeynodes) : CommandPhase → List (ScAddr × ScAddr)
  | .quiet => []
  | .initiated edge => [(edge, kn.kCommandInitiated)]
  | .running run => [(run.progressAddr, kn.kCommandProgressd)]

/-- The phase is the one after the last step. -/
def CommandPhase.Fits (cmd : ScAddr) (history : List State) : CommandPhase → Prop
  | .quiet => ∀ state ∈ history.head?, state = .finished
  | .initiated _ => history.head? = some .initiated
  | .running run => run.cmdAddr = cmd ∧ history.head? = some .progress

/-- Behind the mark of the phase there is one for each time that the command has been finished, if the arc of
the state could be made. -/
structure AgentOk (thread : ℕ) (kn : ScKeynodes) (cmd : ScAddr) (s : AgentState) : Prop where
  fits : s.phase.Fits cmd s.history
  marks : ∃ l, CommandMarks thread kn cmd (s.phase.marks kn ++ l) s.st ∧
    (∀ p ∈ l, p.2 = kn.kCommandFinished) ∧ (State.finished ∉ s.history → l = [])

section
variable {thread : ℕ} {kn : ScKeynodes} {cmdClassAddr cmd : ScAddr} {s s' : AgentState} {e : AgentEvent}

theorem KeynodesOk.not_finished {c : Cells} (h : KeynodesOk kn c) :
    kn.kCommandInitiated ≠ kn.kCommandFinished ∧ kn.kCommandProgressd ≠ kn.kCommandFinished := by
  have hnodup := h.nodup
  simp only [ScKeynodes.states, List.nodup_cons, List.mem_cons, List.not_mem_nil, or_false] at hnodup
  exact ⟨fun he => hnodup.2.1 (Or.inr he), hnodup.2.2.1⟩

theorem CommandMarks.leaves {st st' : ScStorage} {l : List (ScAddr × ScAddr)}
    (h : CommandMarks thread kn cmd l st) (hok : StoreOk thread st')
    (hleaves : LeavesMarks kn cmd st st') : CommandMarks thread kn cmd l st' := by
  refine ⟨hok, hleaves.keynodes, hleaves.command, hleaves.marks_eq.trans h.marks_eq, ?_⟩
  intro p hp
  rw [hleaves.begins]
  · exact h.begins p hp
  · rw [h.marks_eq]
    exact List.mem_map_of_mem hp

theorem AgentOk.arcs (h : AgentOk thread kn cmd s) : ArcsOk s.st.cell := by
  obtain ⟨_, _, hmarks, _⟩ := h
  exact hmarks.store.cells.arcs

theorem agent_step (s : AgentState) (e : AgentEvent) (s' : AgentState) (h : AgentOk thread kn cmd s)
    (hstep : AbleStep thread kn cmdClassAddr cmd s e s') : AgentOk thread kn cmd s' := by
  obtain ⟨hfits, l, hmarks, hfin, hempty⟩ := h
  have hable := hstep.able
  cases hstep.step with
  | initiate env ctx edge st' hthread hrun =>
    subst hthread
    obtain ⟨hnew, hall⟩ := wp_ok (Q := fun r st' => ∀ edge, r = some edge →
      CommandMarks env.thread kn cmd ((edge, kn.kCommandInitiated) :: (s.phase.marks kn ++ l)) st' ∧
        ∀ p ∈ s.phase.marks kn ++ l, p.2 = kn.kCommandFinished)
      (initiateCommand_effect hmarks hable) hrun edge rfl
    refine ⟨rfl, s.phase.marks kn ++ l, hnew, hall, ?_⟩
    -- the command was finished, or has not been initiated before
    have hquiet : s.phase.marks kn = [] := by
      obtain ⟨hne, hne'⟩ := hmarks.keynodes.not_finished
      cases hphase : s.phase with
      | quiet => rfl
      | initiated edge' => exact (hne (hall (edge', _) (by simp [hphase, CommandPhase.marks]))).elim
      | running run =>
        exact (hne' (hall (run.progressAddr, _) (by simp [hphase, CommandPhase.marks]))).elim
    rw [hquiet, List.nil_append]
    exact fun hno => hempty fun hin => hno (List.mem_cons_of_mem _ hin)
  | start env ctx order edge run st' hthread hphase hrun =>
    subst hthread
    rw [hphase] at hmarks
    obtain ⟨hcmd, hnew⟩ := wp_ok (Q := fun r st' => ∀ run, r = some run → run.cmdAddr = cmd ∧
      CommandMarks env.thread kn cmd ((run.progressAddr, kn.kCommandProgressd) :: l) st')
      (runStart_effect hmarks (hable edge hphase)) hrun run rfl
    exact ⟨⟨hcmd, rfl⟩, l, hnew, hfin, fun hno => hempty fun hin => hno (List.mem_cons_of_mem _ hin)⟩
  | finish env ctx order run resCode made st' hthread hphase hrun =>
    subst hthread
    rw [hphase] at hmarks hfits
    obtain ⟨new, hnew, hnewfin⟩ := wp_ok (Q := fun _ st' =>
      ∃ new, CommandMarks env.thread kn cmd (new ++ l) st' ∧ ∀ p ∈ new, p.2 = kn.kCommandFinished)
      (runFinish_effect resCode hfits.1 hmarks (hable run hphase)) hrun
    refine ⟨by simp [CommandPhase.Fits], new ++ l, hnew, ?_, by simp⟩
    intro p hp
    rcases List.mem_append.mp hp with hp | hp
    · exact hnewfin p hp
    · exact hfin p hp
  | other ev st' hown hleaves =>
    have hok := storeOk_step s.st ev st' hmarks.store hown
    exact ⟨hfits, l, hmarks.leaves hok hleaves, hfin, hempty⟩

open Classical in
/-- The oldest mark that the reader sees is the one that is reported. -/
theorem CommandMarks.reported {st : ScStorage} {l : List (ScAddr × ScAddr)} {ctx : ScContext}
    (h : CommandMarks thread kn cmd l st) (hread : CanRead ctx st.cell cmd) :
    getCommandState st.cell ctx kn cmd = .ok (kn.stateOf
      (((l.filter fun p => Seen st.cell ctx kn p.1).map Prod.snd).getLastD ScAddr.empty)) := by
  unfold getCommandState
  rw [visitedStates_eq h.store.cells.arcs h.command.live hread, h.marks_eq, List.filter_map, List.map_map]
  dsimp only
  congr 3
  apply List.map_congr_left
  intro p hp
  exact (h.begins p (List.mem_of_mem_filter hp)).1

/-- The keynode of a state; the unknown state has none. -/
def ScKeynodes.stateAddr (kn : ScKeynodes) : State → ScAddr
  | .initiated => kn.kCommandInitiated
  | .progress => kn.kCommandProgressd
  | .finished => kn.kCommandFinished
  | .unknown => ScAddr.empty

theorem KeynodesOk.stateOf {c : Cells} (h : KeynodesOk kn c) {state : State} (hstate : state ≠ .unknown) :
    kn.stateOf (kn.stateAddr state) = state := by
  obtain ⟨hne, hne'⟩ := h.not_finished
  have hnodup := h.nodup
  simp only [ScKeynodes.states, List.nodup_cons, List.mem_cons, List.not_mem_nil, or_false] at hnodup
  have hip : kn.kCommandProgressd ≠ kn.kCommandInitiated := fun he => hnodup.2.1 (Or.inl he.symm)
  unfold ScKeynodes.stateOf ScKeynodes.stateAddr
  cases state with
  | unknown => exact absurd rfl hstate
  | initiated => rw [if_neg hne, if_pos rfl]
  | progress => rw [if_neg hne', if_neg hip, if_pos rfl]
  | finished => rw [if_pos rfl]

theorem KeynodesOk.stateOf_empty {c : Cells} (h : KeynodesOk kn c) (hc : ArcsOk c) :
    kn.stateOf ScAddr.empty = .unknown := by
  have hne (k : ScAddr) (hk : k ∈ kn.states) : ScAddr.empty ≠ k := by
    rintro rfl
    exact hc.notEmpty (h.states _ hk).1
  unfold ScKeynodes.stateOf
  rw [if_neg (hne _ (by simp [ScKeynodes.states])), if_neg (hne _ (by simp [ScKeynodes.states])),
    if_neg (hne _ (by simp [ScKeynodes.states]))]

/-- The marks of the phase are those of the last step, unless this was the end of `Run`. -/
theorem CommandPhase.Fits.marks {phase : CommandPhase} {state : State} {older : List State}
    (h : phase.Fits cmd (state :: older)) :
    (state = .finished ∧ phase.marks kn = []) ∨
      ((state = .initiated ∨ state = .progress) ∧ ∃ x, phase.marks kn = [(x, kn.stateAddr state)]) := by
  cases phase with
  | quiet => exact Or.inl ⟨h state rfl, rfl⟩
  | initiated edge =>
    obtain rfl : state = .initiated := Option.some.inj h
    exact Or.inr ⟨Or.inl rfl, edge, rfl⟩
  | running run =>
    obtain rfl : state = .progress := Option.some.inj h.2
    exact Or.inr ⟨Or.inr rfl, run.progressAddr, rfl⟩

open Classical in
/-- What `GetCommandState` returns: that the command is finished when the reader sees an arc that `Run` has
left, else the state of the arc of the phase when this is seen. -/
theorem AgentOk.reported {ctx : ScContext} {state : State} {older : List State}
    (h : AgentOk thread kn cmd s) (hlast : s.history = state :: older) (hread : CanRead ctx s.st.cell cmd) :
    getCommandState s.st.cell ctx kn cmd = .ok
      (if Shown s.st.cell ctx kn cmd kn.kCommandFinished then .finished
      else if Shown s.st.cell ctx kn cmd (kn.stateAddr state) then state else .unknown) := by
  obtain ⟨hfits, l, hmarks, hfin, _⟩ := h
  rw [hlast] at hfits
  have hkn := hmarks.keynodes
  obtain ⟨hinitiated, hprogress⟩ := hkn.not_finished
  have hshown {k : ScAddr} (hk : k ∈ kn.states) := @CommandMarks.shown_iff ctx kn s.st cmd k _ _ hmarks hk
  rw [hmarks.reported hread, List.filter_append, List.map_append]
  set seen := l.filter fun p => Seen s.st.cell ctx kn p.1 with hseen
  have hstate : (state = .finished ∧ s.phase.marks kn = []) ∨ _ := hfits.marks
  -- only the arcs that `Run` has left are arcs of the finished state
  have hfinished : Shown s.st.cell ctx kn cmd kn.kCommandFinished ↔ seen ≠ [] := by
    rw [hshown (by simp [ScKeynodes.states]), and_iff_right hread]
    constructor
    · rintro ⟨p, hp, hpk, hps⟩ hnil
      rcases List.mem_append.mp hp with hp | hp
      · rcases hstate with ⟨_, hphase⟩ | ⟨hs, x, hphase⟩
        · rw [hphase] at hp
          cases hp
        · rw [hphase, List.mem_singleton] at hp
          subst hp
          rcases hs with rfl | rfl
          · exact hinitiated hpk
          · exact hprogress hpk
      · exact absurd hps (by simpa using List.filter_eq_nil_iff.mp hnil p hp)
    · intro hne
      obtain ⟨p, hp⟩ := List.exists_mem_of_ne_nil _ hne
      obtain ⟨hpl, hps⟩ := List.mem_filter.mp hp
      exact ⟨p, List.mem_append_right _ hpl, hfin p hpl, of_decide_eq_true hps⟩
  by_cases hnil : seen = []
  · rw [if_neg (fun hno => hfinished.mp hno hnil), hnil, List.map_nil, List.append_nil]
    rcases hstate with ⟨rfl, hphase⟩ | ⟨hs, x, hphase⟩
    · have hno : ¬ Shown s.st.cell ctx kn cmd (kn.stateAddr .finished) := fun hno => hfinished.mp hno hnil
      rw [if_neg hno, hphase]
      exact congrArg _ (hkn.stateOf_empty hmarks.store.cells.arcs)
    · have hk : kn.stateAddr state ∈ kn.states := by
        rcases hs with rfl | rfl <;> simp [ScKeynodes.stateAddr, ScKeynodes.states]
      have hne : state ≠ .unknown := by
        rcases hs with rfl | rfl <;> nofun
      have hx : Shown s.st.cell ctx kn cmd (kn.stateAddr state) ↔ Seen s.st.cell ctx kn x := by
        rw [hshown hk, and_iff_right hread, hphase]
        constructor
        · rintro ⟨p, hp, _, hps⟩
          rcases List.mem_append.mp hp with hp | hp
          · rw [List.mem_singleton] at hp
            subst hp
            exact hps
          · exact absurd hps (by simpa using List.filter_eq_nil_iff.mp hnil p hp)
        · exact fun hps => ⟨_, List.mem_append_left _ List.mem_cons_self, rfl, hps⟩
      rw [hphase]
      by_cases hs : Seen s.st.cell ctx kn x
      · rw [if_pos (hx.mpr hs), List.filter_cons_of_pos (by simpa using hs)]
        exact congrArg _ (hkn.stateOf hne)
      · rw [if_neg fun hno => hs (hx.mp hno), List.filter_cons_of_neg (by simpa using hs)]
        exact congrArg _ (hkn.stateOf_empty hmarks.store.cells.arcs)
  · -- they are the oldest
    have hmap : seen.map Prod.snd ≠ [] := by simpa using hnil
    obtain ⟨p, hp, hpe⟩ := List.mem_map.mp (List.getLast_mem hmap)
    rw [if_pos (hfinished.mpr hnil), List.getLastD_eq_getLast?, List.getLast?_append_of_ne_nil _ hmap,
      List.getLast?_eq_getLast_of_ne_nil hmap, Option.getD_some, ← hpe, hfin p (List.mem_of_mem_filter hp)]
    have hne : State.finished ≠ .unknown := State.noConfusion
    exact congrArg _ (hkn.stateOf hne)

theorem AgentOk.not_shown {ctx : ScContext} (h : AgentOk thread kn cmd s)
    (hno : State.finished ∉ s.history) : ¬ Shown s.st.cell ctx kn cmd kn.kCommandFinished := by
  obtain ⟨hfits, l, hmarks, _, hempty⟩ := h
  obtain ⟨hi, hp⟩ := hmarks.keynodes.not_finished
  rw [hempty hno, List.append_nil] at hmarks
  rw [hmarks.shown_iff (by simp [ScKeynodes.states])]
  rintro ⟨_, p, hp', hpk, _⟩
  cases hphase : s.phase with
  | quiet =>
    rw [hphase] at hp'
    cases hp'
  | initiated edge =>
    rw [hphase, CommandPhase.marks, List.mem_singleton] at hp'
    subst hp'
    exact hi hpk
  | running run =>
    rw [hphase, CommandPhase.marks, List.mem_singleton] at hp'
    subst hp'
    exact hp hpk

/-- The state of the last step is returned when the reader sees its arc, and none that an earlier `Run` has
left. -/
theorem AgentOk.state_iff {ctx : ScContext} {state : State} {older : List State}
    (h : AgentOk thread kn cmd s) (hlast : s.history = state :: older) :
    getCommandState s.st.cell ctx kn cmd = .ok state ↔
      Shown s.st.cell ctx kn cmd (kn.stateAddr state) ∧ (state = .finished ∨ State.finished ∉ older ∨
        ¬ Shown s.st.cell ctx kn cmd kn.kCommandFinished) := by
  by_cases hread : CanRead ctx s.st.cell cmd
  swap
  · unfold getCommandState
    rw [visitedStates_none hread]
    exact iff_of_false nofun fun hno => hread hno.1.1.2.1
  rw [h.reported hlast hread, Except.ok.injEq]
  by_cases hfinished : Shown s.st.cell ctx kn cmd kn.kCommandFinished
  · rw [if_pos hfinished]
    by_cases hstate : state = .finished
    · subst hstate
      exact iff_of_true rfl ⟨hfinished, Or.inl rfl⟩
    · refine iff_of_false (Ne.symm hstate) ?_
      rintro ⟨_, hs | hno | hno⟩
      · exact hstate hs
      · apply absurd hfinished
        apply h.not_shown
        rw [hlast, List.mem_cons, not_or]
        exact ⟨Ne.symm hstate, hno⟩
      · exact hno hfinished
  · rw [if_neg hfinished]
    by_cases hk : Shown s.st.cell ctx kn cmd (kn.stateAddr state)
    · rw [if_pos hk]
      exact iff_of_true rfl ⟨hk, Or.inr (Or.inr hfinished)⟩
    · rw [if_neg hk]
      refine iff_of_false (fun hno => ?_) fun hno => hk hno.1
      have hfits := h.fits
      rw [hlast, ← hno] at hfits
      rcases @CommandPhase.Fits.marks kn _ _ _ _ hfits with ⟨hs, _⟩ | ⟨hs | hs, _⟩ <;> cases hs

end

/-! A command that has just been created. -/

section
variable {env : ScEnv} {ctx : ScContext} {kn : ScKeynodes} {st st' : ScStorage} {cmd cmdClassAddr : ScAddr}

/-- No arc into the command is a temporary one. -/
structure NewCommand (thread : ℕ) (kn : ScKeynodes) (cmd : ScAddr) (st : ScStorage) : Prop where
  store : StoreOk thread st
  keynodes : KeynodesOk kn st.cell
  command : CommandOk kn st.cell cmd
  permanent : ∀ z, LiveArc st.cell z → ownerOf st.cell .inp z = cmd →
    ¬ HasType st.cell z scTypeEdgeAccessConstPosTemp

theorem NewCommand.marks (h : NewCommand env.thread kn cmd st) :
    CommandMarks env.thread kn cmd [] st := by
  classical
  refine ⟨h.store, h.keynodes, h.command, ?_, by simp⟩
  apply List.filter_eq_nil_iff.mpr
  intro x hx
  obtain ⟨hlive, hend⟩ := ((h.store.cells.arcs.arcList (d := .inp) h.command.live).mem x).mp hx
  intro hmark
  exact h.permanent x hlive hend (of_decide_eq_true hmark).1

theorem NewCommand.arcNew (h : NewCommand env.thread kn cmd st) (b e : ScAddr) :
    IfReturns (scStorageArcNew env ctx scTypeEdgeAccessConstPosPerm b e)
      (fun _ st' => NewCommand env.thread kn cmd st') st := by
  apply ifReturns_of_ok
  intro r s hrun
  obtain ⟨hok, ⟨hu, _⟩ | hcr⟩ := arcNew_effect h.store (by decide) hrun
  · have hcell := cell_of_unlocked hu
    exact ⟨hok, hcell ▸ h.keynodes, hcell ▸ h.command, by rw [hcell]; exact h.permanent⟩
  · have hgrown := hcr.grown h.store.cells
    refine ⟨hok, h.keynodes.grown hgrown, h.command.grown hgrown, ?_⟩
    intro z hz hend ht
    rcases ((hcr.added h.store.cells).liveArc z).mp hz with rfl | hold
    · unfold HasType at ht
      rw [hcr.typeOf.1] at ht
      exact absurd ht (by decide)
    · obtain ⟨_, htype, howner⟩ := hgrown.liveArc hold
      exact h.permanent z hold ((howner .inp).symm.trans hend) ((hasType_congr htype).mp ht)

theorem createParams_effect (params : List ScAddr) (i : ℕ) (h : NewCommand env.thread kn cmd st) :
    IfReturns (createParams env ctx kn cmd i params)
      (fun _ st' => NewCommand env.thread kn cmd st') st := by
  induction params generalizing i st with
  | nil => exact h
  | cons param params ih =>
    unfold createParams
    rw [IfReturns, wp_bind]
    apply wp_mono (h.arcNew cmd param) _ (fun _ _ => trivial)
    intro edgeCommon s1 h1
    rw [wp_ite]
    refine ⟨fun _ => h1, fun _ => ?_⟩
    split_ifs with hi
    · rw [wp_bind]
      apply wp_mono (h1.arcNew _ _) _ (fun _ _ => trivial)
      intro _ s2 h2
      exact ih (i+1) h2
    · exact h1

/-- The node of a command before it has any arc. -/
theorem newCommand_of_created (hok : StoreOk env.thread st) (hkn : KeynodesOk kn st.cell)
    (hok' : StoreOk env.thread st')
    (hcr : Created st cmd (Function.update st.cell cmd (nodeCell ctx scTypeNodeConst)) st') :
    NewCommand env.thread kn cmd st' := by
  have hgrown := hcr.grown (nodeCell_live ctx scTypeNodeConst cmd)
  obtain ⟨_, _, hfree, hcell⟩ := hcr.refCount
  have hdead : ¬ Live st.cell cmd := fun hl => type_of_live hl hfree
  have hself : st'.cell cmd = nodeCell ctx scTypeNodeConst := by rw [hcell, Function.update_self]
  have hnode : (nodeCell ctx scTypeNodeConst).isArc = false := by
    show (scFlagsRemove (scTypeNode ||| scTypeNodeConst) &&& scTypeArcMask != 0) = false
    decide
  refine ⟨hok', hkn.grown hgrown, ⟨hgrown.live cmd rfl, by rw [hself]; exact hnode, ?_⟩, ?_⟩
  · intro hin
    rcases List.mem_cons.mp hin with rfl | hin
    · exact hdead hkn.stateClass.1
    · exact hdead (hkn.states cmd hin).1
  · -- an old arc ends at an old element
    intro z hz hend _
    by_cases hzc : z = cmd
    · have harc := hz.2
      rw [hzc, hself, hnode] at harc
      cases harc
    · have hold : st'.cell z = st.cell z := by rw [hcell, Function.update_of_ne hzc]
      have hza : LiveArc st.cell z := by
        unfold LiveArc Live at hz ⊢
        rwa [hold] at hz
      unfold ownerOf at hend
      rw [hold] at hend
      exact hdead (hend ▸ hok.cells.arcs.endpoint z .inp hza)

/-- `CreateCommand` makes a command without marks. -/
theorem createCommand_effect (hok : StoreOk env.thread st) (hkn : KeynodesOk kn st.cell)
    (params : List ScAddr) : IfReturns (createCommand env ctx kn cmdClassAddr params)
      (fun r st' => ∀ cmd, r = .ok cmd → NewCommand env.thread kn cmd st') st := by
  unfold createCommand
  rw [IfReturns, wp_ite]
  refine ⟨fun _ cmd hr => (by cases hr), fun _ => ?_⟩
  rw [wp_ite]
  refine ⟨fun _ cmd hr => (by cases hr), fun _ => ?_⟩
  rw [wp_bind]
  have hcall := storeOk_call (f := scStorageNodeNew env ctx scTypeNodeConst)
    (.nodeNew ctx scTypeNodeConst) rfl trivial hok
  apply wp_mono (wp_and hcall (nodeNew_effect hok scTypeNodeConst)) _ (fun _ _ => trivial)
  rintro n s1 ⟨hok1, hnew⟩
  rw [wp_ite]
  refine ⟨fun _ cmd hr => (by cases hr), fun hne => ?_⟩
  rcases hnew with ⟨_, he⟩ | hcr
  · exact absurd he hne
  have h1 := newCommand_of_created hok hkn hok1 hcr
  rw [wp_bind]
  apply wp_mono (h1.arcNew _ _) _ (fun _ _ => trivial)
  intro _ s2 h2
  rw [wp_bind]
  apply wp_mono (createParams_effect params 0 h2) _ (fun _ _ => trivial)
  intro r s3 h3
  cases r with
  | error e =>
    intro cmd hr
    cases hr
  | ok _ =>
    intro cmd hr
    cases hr
    exact h3

end

/-- `GetCommandState` and the three predicates agree with the state. -/
structure StateReported (c : Cells) (ctx : ScContext) (kn : ScKeynodes) (cmd : ScAddr) (state : State) :
    Prop where
  state_eq : getCommandState c ctx kn cmd = .ok state
  initiated : isCommandInitiated c ctx kn cmd = .ok (state = .initiated)
  progress : isCommandInProgress c ctx kn cmd = .ok (state = .progress)
  finished : isCommandFishined c ctx kn cmd = .ok (state = .finished)

theorem stateReported_iff (c : Cells) (ctx : ScContext) (kn : ScKeynodes) (cmd : ScAddr) (state : State) :
    StateReported c ctx kn cmd state ↔ getCommandState c ctx kn cmd = .ok state := by
  refine ⟨fun h => h.state_eq, fun h => ⟨h, ?_, ?_, ?_⟩⟩
  · unfold isCommandInitiated
    rw [h]
    rfl
  · unfold isCommandInProgress
    rw [h]
    rfl
  · unfold isCommandFishined
    rw [h]
    rfl

/-- `CreateCommand` has made the command in a store of one thread where the keynodes are. -/
structure CommandCreated (thread : ℕ) (kn : ScKeynodes) (cmdClassAddr cmd : ScAddr) (st : ScStorage) :
    Prop where
  created : ∃ (evs : List StoreEvent) (st0 : ScStorage) (env : ScEnv) (ctx : ScContext)
    (params : List ScAddr), Run (OwnStep thread) ScStorage.empty evs st0 ∧ KeynodesOk kn st0.cell ∧
      env.thread = thread ∧ createCommand env ctx kn cmdClassAddr params st0 = .ok (.ok cmd, st)

theorem CommandCreated.agentOk {thread : ℕ} {kn : ScKeynodes} {cmdClassAddr cmd : ScAddr}
    {st : ScStorage} (h : CommandCreated thread kn cmdClassAddr cmd st) :
    AgentOk thread kn cmd ⟨st, .quiet, []⟩ := by
  obtain ⟨evs, st0, env, ctx, params, hr, hkn, rfl, hrun⟩ := h.created
  have heffect := @createCommand_effect env ctx kn st0 cmdClassAddr (ownRun_storeOk evs st0 hr) hkn params
  have hnew : NewCommand env.thread kn cmd st :=
    wp_ok (Q := fun r st' => ∀ cmd, r = .ok cmd → NewCommand env.thread kn cmd st') heffect hrun cmd rfl
  exact ⟨by simp [CommandPhase.Fits], [], hnew.marks, by simp, by simp⟩

/-- In a run whose parties have the rights for what they do, the state of the last step is reported exactly when
the reader may read an arc of it, and this step was the end of `Run`, or no `Run` for the command has come to its
end before, or the reader may read no arc that one has left. -/
theorem command_state_latest_iff (thread : ℕ) (kn : ScKeynodes) (cmdClassAddr cmd : ScAddr)
    (st : ScStorage) (hcreated : CommandCreated thread kn cmdClassAddr cmd st) (evs : List AgentEvent)
    (s : AgentState) (hr : Run (AbleStep thread kn cmdClassAddr cmd) ⟨st, .quiet, []⟩ evs s)
    (state : State) (older : List State) (hlast : s.history = state :: older) (ctx : ScContext) :
    StateReported s.st.cell ctx kn cmd state ↔
      Shown s.st.cell ctx kn cmd (kn.stateAddr state) ∧ (state = .finished ∨ State.finished ∉ older ∨
        ¬ Shown s.st.cell ctx kn cmd kn.kCommandFinished) := by
  have hok := run_invariant (AgentOk thread kn cmd) agent_step evs _ s hcreated.agentOk hr
  rw [stateReported_iff]
  exact hok.state_iff hlast

section
variable {env : ScEnv} {ctx : ScContext} {order : HashOrder} {kn : ScKeynodes} {st st' : ScStorage}
  {cmd cmdClassAddr edge : ScAddr} {run : RunningCommand} {phase : CommandPhase} {history : List State}

theorem ableStep_initiate (hc : ArcsOk st.cell)
    (hnew : ∀ k ∈ [kn.kCommandInitiated, kn.kCommandProgressd],
      helperCheckEdge st.cell exampleContext k cmd scTypeEdgeAccessConstPosTemp = false)
    (hrun : initiateCommand env ctx kn cmd st = .ok (some edge, st')) :
    AbleStep env.thread kn cmdClassAddr cmd ⟨st, phase, history⟩ (.initiate ctx)
      ⟨st', .initiated edge, .initiated :: history⟩ := by
  have hfull : FullAccess exampleContext := rfl
  refine ⟨.initiate env ctx edge st' rfl hrun, fun k hk hedge => ?_⟩
  -- there is no such arc, or one would be found
  have hfound := (helperCheckEdge_readable hc fun y _ => canRead_full hfull st.cell y).mpr hedge
  rw [hnew k hk] at hfound
  cases hfound

theorem ableStep_start (hwrite : ∀ y ∈ checkedElements st.cell edge, CanWrite ctx st.cell y)
    (hrun : runStart env ctx order kn cmdClassAddr edge st = .ok (some run, st')) :
    AbleStep env.thread kn cmdClassAddr cmd ⟨st, .initiated edge, history⟩ (.start ctx)
      ⟨st', .running run, .progress :: history⟩ := by
  refine ⟨.start env ctx order edge run st' rfl rfl hrun, fun edge' he => ?_⟩
  cases he
  exact hwrite

theorem ableStep_finish {resCode : ScResult} {made : Bool}
    (hwrite : ∀ y ∈ checkedElements st.cell run.progressAddr, CanWrite ctx st.cell y)
    (hrun : runFinish env ctx order kn run resCode st = .ok (made, st')) :
    AbleStep env.thread kn cmdClassAddr cmd ⟨st, .running run, history⟩ (.finish ctx resCode)
      ⟨st', .quiet, .finished :: history⟩ := by
  refine ⟨.finish env ctx order run resCode made st' rfl rfl hrun, fun run' he => ?_⟩
  cases he
  exact hwrite

end

/-! A command in a store with the keynodes and a class of commands. -/

def exampleKeynodes : ScKeynodes :=
  ⟨⟨0, 1⟩, ⟨0, 33⟩, ⟨0, 65⟩, ⟨0, 97⟩, ⟨0, 129⟩, fun _ => ⟨0, 129⟩, fun _ => ⟨0, 129⟩⟩

/-- Everything is made and read with `sc_access_lvl_make_min`. -/
def minContext : ScContext := ⟨1, 0⟩

def keynodeEvents : List StoreEvent :=
  List.replicate 6 ⟨exampleEnv, .call (.nodeNew minContext scTypeNodeConstClass)⟩ ++
    [⟨0, 33⟩, ⟨0, 65⟩, ⟨0, 97⟩].map fun a =>
      ⟨exampleEnv, .call (.arcNew minContext scTypeEdgeAccessConstPosPerm ⟨0, 1⟩ a)⟩

def storeWithKeynodes : ScStorage := stateAfterEvents keynodeEvents ScStorage.empty

def afterCall {α : Type} (x : StoreM α) (st : ScStorage) : ScStorage :=
  match x st with
  | .ok (_, st') => st'
  | .error _ => st

def valueOf {α : Type} (x : StoreM α) (st : ScStorage) : Option α :=
  match x st with
  | .ok (r, _) => some r
  | .error _ => none

theorem call_eq {α : Type} {x : StoreM α} {st : ScStorage} {r : α} (h : valueOf x st = some r) :
    x st = .ok (r, afterCall x st) := by
  unfold valueOf at h
  unfold afterCall
  cases hx : x st with
  | error e =>
    rw [hx] at h
    cases h
  | ok p =>
    rw [hx] at h
    cases h
    rfl

def exampleCreate : StoreM (Except ScException ScAddr) :=
  createCommand exampleEnv minContext exampleKeynodes ⟨0, 161⟩ []

def exampleInitiate : StoreM (Option ScAddr) :=
  initiateCommand exampleEnv minContext exampleKeynodes ⟨0, 289⟩

def exampleStart (edge : ScAddr) : StoreM (Option RunningCommand) :=
  runStart exampleEnv minContext tableOrder exampleKeynodes ⟨0, 161⟩ edge

def exampleFinish (run : RunningCommand) : StoreM Bool :=
  runFinish exampleEnv minContext tableOrder exampleKeynodes run .ok

def exampleRun : RunningCommand := ⟨⟨0, 289⟩, ⟨0, 353⟩, ⟨0, 385⟩⟩

def createdStore : ScStorage := afterCall exampleCreate storeWithKeynodes
def initiatedStore : ScStorage := afterCall exampleInitiate createdStore
def startedStore : ScStorage := afterCall (exampleStart ⟨0, 353⟩) initiatedStore
def finishedStore : ScStorage := afterCall (exampleFinish exampleRun) startedStore
def againStore : ScStorage := afterCall exampleInitiate finishedStore

theorem keynodes_storeWithKeynodes : KeynodesOk exampleKeynodes storeWithKeynodes.cell := by
  have hapart : (⟨0, 129⟩ : ScAddr) ≠ ⟨0, 1⟩ := by decide
  refine ⟨by decide, ⟨hapart, fun _ => hapart⟩, by decide +kernel, fun k hk => ?_⟩
  have hstates : k = ⟨0, 33⟩ ∨ k = ⟨0, 65⟩ ∨ k = ⟨0, 97⟩ := by
    simpa [ScKeynodes.states, exampleKeynodes] using hk
  rcases hstates with rfl | rfl | rfl
  · exact ⟨by decide +kernel, by decide +kernel, by decide +kernel, ⟨0, 193⟩, ⟨by decide +kernel, by decide +kernel⟩,
      by decide +kernel⟩
  · exact ⟨by decide +kernel, by decide +kernel, by decide +kernel, ⟨0, 225⟩, ⟨by decide +kernel, by decide +kernel⟩,
      by decide +kernel⟩
  · exact ⟨by decide +kernel, by decide +kernel, by decide +kernel, ⟨0, 257⟩, ⟨by decide +kernel, by decide +kernel⟩,
      by decide +kernel⟩

/-- What every call of the example returns, from the store the call before it has left. -/
theorem example_calls :
    Run (OwnStep 1) ScStorage.empty keynodeEvents storeWithKeynodes ∧
      exampleCreate storeWithKeynodes = .ok (.ok ⟨0, 289⟩, createdStore) ∧
      exampleInitiate createdStore = .ok (some ⟨0, 353⟩, initiatedStore) ∧
      exampleStart ⟨0, 353⟩ initiatedStore = .ok (some exampleRun, startedStore) ∧
      exampleFinish exampleRun startedStore = .ok (true, finishedStore) ∧
      exampleInitiate finishedStore = .ok (some ⟨0, 513⟩, againStore) :=
  ⟨ownRun_of_ownEvents keynodeEvents _ (by decide +kernel), call_eq (by decide +kernel),
    call_eq (by decide +kernel), call_eq (by decide +kernel), call_eq (by decide +kernel),
    call_eq (by decide +kernel)⟩

theorem created_example :
    CommandCreated 1 exampleKeynodes ⟨0, 161⟩ ⟨0, 289⟩ createdStore where
  created := ⟨keynodeEvents, storeWithKeynodes, exampleEnv, minContext, [], example_calls.1,
    keynodes_storeWithKeynodes, rfl, example_calls.2.1⟩

def createdState : AgentState := ⟨createdStore, .quiet, []⟩
def initiatedState : AgentState := ⟨initiatedStore, .initiated ⟨0, 353⟩, [.initiated]⟩
def startedState : AgentState := ⟨startedStore, .running exampleRun, [.progress, .initiated]⟩
def finishedState : AgentState := ⟨finishedStore, .quiet, [.finished, .progress, .initiated]⟩
def againState : AgentState :=
  ⟨againStore, .initiated ⟨0, 513⟩, [.initiated, .finished, .progress, .initiated]⟩

theorem canWrite_store (c : Cells) (l : List ScAddr)
    (h : (l.all fun y => scAccessLvlCheckWrite minContext.accessLevels (c y).accessLevels) = true) :
    ∀ y ∈ l, CanWrite minContext c y :=
  List.all_eq_true.mp h

/-- No arc of the two states that begin a run is there when the command is initiated, and the agent may delete
the arcs it takes away. -/
theorem example_checks :
    (∀ k ∈ [exampleKeynodes.kCommandInitiated, exampleKeynodes.kCommandProgressd],
      helperCheckEdge createdStore.cell exampleContext k ⟨0, 289⟩ scTypeEdgeAccessConstPosTemp = false) ∧
    (∀ k ∈ [exampleKeynodes.kCommandInitiated, exampleKeynodes.kCommandProgressd],
      helperCheckEdge finishedStore.cell exampleContext k ⟨0, 289⟩ scTypeEdgeAccessConstPosTemp = false) ∧
    (∀ y ∈ checkedElements initiatedStore.cell ⟨0, 353⟩, CanWrite minContext initiatedStore.cell y) ∧
    ∀ y ∈ checkedElements startedStore.cell exampleRun.progressAddr, CanWrite minContext startedStore.cell y :=
  ⟨by decide +kernel, by decide +kernel, canWrite_store _ _ (by decide +kernel),
    canWrite_store _ _ (by decide +kernel)⟩

theorem initiate_example : AbleStep 1 exampleKeynodes ⟨0, 161⟩ ⟨0, 289⟩ createdState
    (.initiate minContext) initiatedState := by
  have harcs := created_example.agentOk.arcs
  dsimp only at harcs
  exact ableStep_initiate harcs example_checks.1 example_calls.2.2.1

theorem start_example : AbleStep 1 exampleKeynodes ⟨0, 161⟩ ⟨0, 289⟩ initiatedState
    (.start minContext) startedState :=
  ableStep_start example_checks.2.2.1 example_calls.2.2.2.1

theorem finish_example : AbleStep 1 exampleKeynodes ⟨0, 161⟩ ⟨0, 289⟩ startedState
    (.finish minContext .ok) finishedState :=
  ableStep_finish example_checks.2.2.2 example_calls.2.2.2.2.1

theorem again_example : AbleStep 1 exampleKeynodes ⟨0, 161⟩ ⟨0, 289⟩ finishedState
    (.initiate minContext) againState := by
  have h1 := agent_step createdState _ _ created_example.agentOk initiate_example
  have h2 := agent_step _ _ _ h1 start_example
  have h3 := agent_step _ _ _ h2 finish_example
  have harcs := h3.arcs
  dsimp only [finishedState] at harcs
  exact ableStep_initiate harcs example_checks.2.1 example_calls.2.2.2.2.2

/-- The command has been initiated and an agent has started to run it. -/
theorem command_started :
    StateReported startedState.st.cell minContext exampleKeynodes ⟨0, 289⟩ .progress ↔
      Shown startedState.st.cell minContext exampleKeynodes ⟨0, 289⟩ (exampleKeynodes.stateAddr .progress) ∧
        (State.progress = .finished ∨ State.finished ∉ [State.initiated] ∨
          ¬ Shown startedState.st.cell minContext exampleKeynodes ⟨0, 289⟩ exampleKeynodes.kCommandFinished) :=
  command_state_latest_iff 1 exampleKeynodes ⟨0, 161⟩ ⟨0, 289⟩ createdStore created_example
    [.initiate minContext, .start minContext] startedState
    ⟨initiatedState, initiate_example, startedState, start_example, rfl⟩ .progress [.initiated] rfl minContext

/-- Initiated for the second time, the command is still reported as finished, also to a reader that may read
everything. -/
theorem command_state_not_latest :
    ¬ ∀ (thread : ℕ) (kn : ScKeynodes) (cmdClassAddr cmd : ScAddr) (st : ScStorage),
      CommandCreated thread kn cmdClassAddr cmd st → ∀ (evs : List AgentEvent) (s : AgentState),
        Run (AbleStep thread kn cmdClassAddr cmd) ⟨st, .quiet, []⟩ evs s →
          ∀ (state : State) (older : List State), s.history = state :: older →
            ∀ ctx : ScContext, FullAccess ctx → StateReported s.st.cell ctx kn cmd state := by
  intro hall
  have hreported := hall 1 exampleKeynodes ⟨0, 161⟩ ⟨0, 289⟩ createdStore created_example
    [.initiate minContext, .start minContext, .finish minContext .ok, .initiate minContext] againState
    ⟨initiatedState, initiate_example, startedState, start_example, finishedState, finish_example,
      againState, again_example, rfl⟩
    .initiated [.finished, .progress, .initiated] rfl exampleContext rfl
  -- the arc of the finished state is the oldest one, and the last that the loop takes
  have hfinished : (getCommandState againState.st.cell exampleContext exampleKeynodes ⟨0, 289⟩).toOption =
      some .finished := by decide +kernel
  rw [hreported.state_eq] at hfinished
  cases hfinished

end ScMachine.Agent
