import ScMachine.ScpSyncronizer

/-! Which operators are marked active, and how often, when the operator waits for all previous ones. -/
namespace ScMachine.Scp
open ScMachine.Runs

/-- The source of every arc to the operator carries a mark that fits the relation of the arc. -/
def Fitted (p : ScpProcess) (memory : List MarkArc) (scpOperator : ℕ) : Prop :=
  ∀ arc ∈ p.arcs, arc.target = scpOperator → ∀ relType, arc.relation = some relType →
    ∃ a ∈ memory, a.operator = arc.source ∧ ∃ execType, a.mark = .executedMark execType ∧
      relType.fits execType = true

/-- Operators that wait for all previous ones have been marked active in states in which these are done,
and each of them at most once. -/
structure JoinsOnce (p : ScpProcess) (activations : List (ℕ × List MarkArc)) : Prop where
  fitted : ∀ x ∈ activations, p.afterAllPrevious x.1 = true → Fitted p x.2 x.1
  once : ∀ op, p.afterAllPrevious op = true → (activations.map Prod.fst).count op ≤ 1

/-- Every operator that waits and has been marked active is active or has been started. -/
structure SyncOk (p : ScpProcess) (started : List ℕ) (s : SyncState) : Prop where
  joins : JoinsOnce p s.activations
  active : ∀ op, p.afterAllPrevious op = true → op ∈ s.activations.map Prod.fst →
    isActive s.memory op = true ∨ op ∈ started

section
variable {p : ScpProcess} {alloc : List MarkArc → ℕ} {memory : List MarkArc} {op : ℕ}
  {started : List ℕ} {s : SyncState} {a : MarkArc} {currArc : OperatorArc}

theorem isActive_iff : isActive memory op = true ↔
    ∃ a ∈ memory, a.operator = op ∧ a.mark = .activeScpOperator := by
  simp [isActive]

/-- Erasing a mark of an operator that has been executed leaves every other mark. -/
theorem mem_eraseExecutedMark (ha : a ∈ memory)
    (hother : a.operator ≠ op ∨ a.mark = .activeScpOperator) : a ∈ eraseExecutedMark memory op := by
  unfold eraseExecutedMark
  cases hfind : memory.find? fun a => a.operator = op ∧ a.mark.execType?.isSome with
  | none => exact ha
  | some arc1 =>
    have hfound := List.find?_some hfind
    simp only [Bool.decide_and, Bool.and_eq_true, decide_eq_true_eq] at hfound
    refine (List.mem_erase_of_ne ?_).mpr ha
    rintro rfl
    rcases hother with hother | hother
    · exact hother hfound.1
    · simp [hother, OperatorMark.execType?] at hfound

theorem mem_activate (ha : a ∈ s.memory) (hother : a.operator ≠ op ∨ a.mark = .activeScpOperator) :
    a ∈ (activate alloc op s).memory :=
  List.mem_cons_of_mem _ (mem_eraseExecutedMark ha hother)

theorem isActive_activate {op' : ℕ} (h : isActive s.memory op' = true ∨ op' = op) :
    isActive (activate alloc op s).memory op' = true := by
  rw [isActive_iff] at h ⊢
  rcases h with ⟨a, ha, hop, hmark⟩ | rfl
  · exact ⟨a, mem_activate ha (.inr hmark), hop, hmark⟩
  · exact ⟨_, List.mem_cons_self, rfl, rfl⟩

/-- The mark that is read of an operator is one that it carries. -/
theorem execTypeOf_mem {execType : ExecType} (h : execTypeOf memory op = some execType) :
    ∃ a ∈ memory, a.operator = op ∧ a.mark = .executedMark execType := by
  obtain ⟨a, ha, hread⟩ := List.exists_of_findSome?_eq_some h
  split_ifs at hread with hop
  refine ⟨a, ha, hop, ?_⟩
  cases hmark : a.mark with
  | activeScpOperator =>
    rw [hmark] at hread
    cases hread
  | executedMark e =>
    rw [hmark] at hread
    cases hread
    rfl

/-- The loop over the arcs goes through only when each of them but the current one is fitted. -/
theorem allPrevious_fits (arcs : List OperatorArc) (h : allPrevious memory currArc arcs = true) :
    ∀ arc ∈ arcs, arc.addr ≠ currArc.addr → ∀ relType, arc.relation = some relType →
      ∃ a ∈ memory, a.operator = arc.source ∧ ∃ execType, a.mark = .executedMark execType ∧
        relType.fits execType = true := by
  induction arcs with
  | nil => simp
  | cons arc3 rest ih =>
    unfold allPrevious at h
    intro arc harc hne relType hrel
    rcases List.mem_cons.mp harc with rfl | harc
    · rw [if_neg (Ne.symm hne), hrel] at h
      dsimp only at h
      cases hexec : execTypeOf memory arc.source with
      | none => simp [hexec] at h
      | some execType =>
        rw [hexec] at h
        dsimp only at h
        split_ifs at h with hfits
        obtain ⟨a, ha, hop, hmark⟩ := execTypeOf_mem hexec
        exact ⟨a, ha, hop, execType, hmark, hfits⟩
    · refine ih ?_ arc harc hne relType hrel
      split_ifs at h with hcurr
      · exact h
      · cases hrel3 : arc3.relation with
        | none => simpa [hrel3] using h
        | some relType3 =>
          rw [hrel3] at h
          dsimp only at h
          cases hexec : execTypeOf memory arc3.source with
          | none => simp [hexec] at h
          | some execType =>
            rw [hexec] at h
            dsimp only at h
            split_ifs at h
            exact h

theorem ScpProcess.Acyclic.source_ne (h : p.Acyclic) {arc : OperatorArc} (harc : arc ∈ p.arcs)
    (hrel : arc.relation.isSome) : arc.source ≠ arc.target := by
  intro he
  exact h arc.source (.single ⟨arc, harc, rfl, he.symm, hrel⟩)

/-- An operator is marked active when it has not been before, and the sources of the arcs to it carry
fitting marks. -/
theorem SyncOk.activate (h : SyncOk p started s)
    (hnew : p.afterAllPrevious op = true → op ∉ s.activations.map Prod.fst)
    (hfit : p.afterAllPrevious op = true → Fitted p (eraseExecutedMark s.memory op) op) :
    SyncOk p started (activate alloc op s) := by
  refine ⟨⟨?_, ?_⟩, ?_⟩
  · intro x hx hjoin
    rcases List.mem_cons.mp hx with rfl | hx
    · exact hfit hjoin
    · exact h.joins.fitted x hx hjoin
  · intro op' hjoin
    have hold := h.joins.once op' hjoin
    show ((op :: s.activations.map Prod.fst).count op') ≤ 1
    by_cases he : op = op'
    · subst he
      rw [List.count_cons_self, List.count_eq_zero_of_not_mem (hnew hjoin)]
    · rw [List.count_cons_of_ne he]
      exact hold
  · intro op' hjoin hmem
    rcases List.mem_cons.mp hmem with rfl | hmem
    · exact .inl (isActive_activate (.inr rfl))
    · rcases h.active op' hjoin hmem with hactive | hstarted
      · exact .inl (isActive_activate (.inl hactive))
      · exact .inr hstarted

/-- The marks that fit are still there when the mark of the operator itself has been erased. -/
theorem fitted_erased (hacyclic : p.Acyclic) {mark : MarkArc} {execType : ExecType} {relType : RelType}
    (hmark : mark ∈ s.memory) (hexec : mark.mark = .executedMark execType) (hcurr : currArc ∈ p.arcs)
    (hsource : currArc.source = mark.operator) (hrel : currArc.relation = some relType)
    (hfits : relType.fits execType = true)
    (hall : allPrevious s.memory currArc (p.arcs.filter fun a => a.target = currArc.target) = true) :
    Fitted p (eraseExecutedMark s.memory currArc.target) currArc.target := by
  intro arc harc htarget relType' hrel'
  have hne := hacyclic.source_ne harc (by simp [hrel'])
  by_cases haddr : arc.addr = currArc.addr
  · have he : arc = currArc := List.inj_on_of_nodup_map p.nodup harc hcurr haddr
    subst he
    rw [hrel] at hrel'
    cases hrel'
    exact ⟨mark, mem_eraseExecutedMark hmark (.inl (hsource ▸ hne)), hsource.symm, execType, hexec, hfits⟩
  · have hin : arc ∈ p.arcs.filter fun a => a.target = currArc.target := by simp [harc, htarget]
    obtain ⟨a, ha, hop, e, hae, hfit⟩ := allPrevious_fits _ hall arc hin haddr relType' hrel'
    refine ⟨a, mem_eraseExecutedMark ha (.inl ?_), hop, e, hae, hfit⟩
    rw [hop, ← htarget]
    exact hne

/-- The mark fits the arc, and what the arc leads to has not been started if it waits. -/
structure Follows (p : ScpProcess) (started : List ℕ) (mark : MarkArc) (execType : ExecType)
    (arc : OperatorArc) : Prop where
  mem : arc ∈ p.arcs
  source : arc.source = mark.operator
  fits : ∃ relType, arc.relation = some relType ∧ relType.fits execType = true
  waits : p.afterAllPrevious arc.target = true → arc.target ∉ started

variable (alloc) in
theorem startNextOperator_ok (hacyclic : p.Acyclic) {mark : MarkArc} {execType : ExecType}
    (hexec : mark.mark = .executedMark execType) (hcurr : Follows p started mark execType currArc)
    (h : SyncOk p started s) (hmark : mark ∈ s.memory) (hidle : isActive s.memory currArc.target ≠ true) :
    SyncOk p started (startNextOperator p alloc currArc.target currArc s) ∧
      mark ∈ (startNextOperator p alloc currArc.target currArc s).memory := by
  obtain ⟨relType, hrel, hfits⟩ := hcurr.fits
  have hne : mark.operator ≠ currArc.target :=
    hcurr.source ▸ hacyclic.source_ne hcurr.mem (by simp [hrel])
  have hnew (hjoin : p.afterAllPrevious currArc.target = true) :
      currArc.target ∉ s.activations.map Prod.fst := by
    intro hmem
    rcases h.active _ hjoin hmem with hactive | hstarted
    · exact hidle hactive
    · exact hcurr.waits hjoin hstarted
  unfold startNextOperator
  split_ifs with hjoin hall
  · have hno : ¬ p.afterAllPrevious currArc.target = true := by simpa using hjoin
    exact ⟨h.activate (fun hj => absurd hj hno) (fun hj => absurd hj hno),
      mem_activate hmark (.inl hne)⟩
  · exact ⟨h.activate hnew
      (fun _ => fitted_erased hacyclic hmark hexec hcurr.mem hcurr.source hrel hfits hall),
      mem_activate hmark (.inl hne)⟩
  · exact ⟨h, hmark⟩

variable (alloc) in
/-- The loop keeps the mark that it was started for: no operator comes before itself. -/
theorem syncLoop_ok (hacyclic : p.Acyclic) {mark : MarkArc} {execType : ExecType}
    (hexec : mark.mark = .executedMark execType) (arcs : List OperatorArc)
    (harcs : ∀ arc ∈ arcs, Follows p started mark execType arc) (s : SyncState)
    (h : SyncOk p started s) (hmark : mark ∈ s.memory) :
    SyncOk p started (syncLoop p alloc arcs s) ∧ mark ∈ (syncLoop p alloc arcs s).memory := by
  induction arcs generalizing s with
  | nil => exact ⟨h, hmark⟩
  | cons arc3 rest ih =>
    unfold syncLoop
    have hrest : ∀ arc ∈ rest, Follows p started mark execType arc :=
      fun arc harc => harcs arc (List.mem_cons_of_mem _ harc)
    split_ifs with hactive
    · exact ih hrest s h hmark
    · obtain ⟨hok, hkept⟩ :=
        startNextOperator_ok alloc hacyclic hexec (harcs arc3 List.mem_cons_self) h hmark hactive
      exact ih hrest _ hok hkept

/-- A call of the synchronizer comes in time: it does not find the arc of an active operator in the place
of its mark, and no operator that waits for the marked one has been started. -/
def InTime (p : ScpProcess) (s : ProcessState) : ProcessEvent → Prop
  | .syncronize arg => ∀ a ∈ s.memory, a.addr = arg → ∃ execType, a.mark = .executedMark execType ∧
      ∀ arc ∈ p.arcs, arc.source = a.operator → p.afterAllPrevious arc.target = true →
        (∃ relType, arc.relation = some relType ∧ relType.fits execType = true) →
          arc.target ∉ s.started
  | .mark _ _ => True
  | .start _ => True

structure TimelyStep (p : ScpProcess) (s : ProcessState) (e : ProcessEvent) (s' : ProcessState) : Prop
    where
  step : ProcessStep p s e s'
  inTime : InTime p s e

theorem syncronizeScpOperator_ok (hacyclic : p.Acyclic) (s : ProcessState) (arg : ℕ)
    (h : SyncOk p s.started s.toSyncState) (htime : InTime p s (.syncronize arg)) :
    SyncOk p s.started (syncronizeScpOperator p alloc arg s.toSyncState) := by
  unfold syncronizeScpOperator
  cases hfind : s.memory.find? fun a => a.addr = arg with
  | none => exact h
  | some arc1 =>
    have hmark := List.mem_of_find?_eq_some hfind
    obtain ⟨execType, hexec, hwaits⟩ := htime arc1 hmark (by simpa using List.find?_some hfind)
    have hnext (relType : RelType) (hfits : relType.fits execType = true) :
        ∀ arc ∈ p.next arc1.operator relType, Follows p s.started arc1 execType arc := by
      intro arc harc
      simp only [ScpProcess.next, Bool.decide_and, List.mem_filter, Bool.and_eq_true,
        decide_eq_true_eq] at harc
      obtain ⟨hmem, hsource, hrel⟩ := harc
      exact ⟨hmem, hsource, ⟨relType, hrel, hfits⟩,
        fun hjoin => hwaits arc hmem hsource hjoin ⟨relType, hrel, hfits⟩⟩
    have hgoto := hnext .nrelGoto rfl
    dsimp only
    rw [hexec]
    cases execType with
    | executed => exact (syncLoop_ok alloc hacyclic hexec _ hgoto _ h hmark).1
    | successfullyExecuted =>
      obtain ⟨hok, hkept⟩ := syncLoop_ok alloc hacyclic hexec _ (hnext .nrelThen rfl) _ h hmark
      exact (syncLoop_ok alloc hacyclic hexec _ hgoto _ hok hkept).1
    | unsuccessfullyExecuted =>
      obtain ⟨hok, hkept⟩ := syncLoop_ok alloc hacyclic hexec _ (hnext .nrelElse rfl) _ h hmark
      exact (syncLoop_ok alloc hacyclic hexec _ hgoto _ hok hkept).1

theorem process_step (hacyclic : p.Acyclic) (s : ProcessState) (e : ProcessEvent) (s' : ProcessState)
    (h : SyncOk p s.started s.toSyncState) (hstep : TimelyStep p s e s') :
    SyncOk p s'.started s'.toSyncState := by
  have htime := hstep.inTime
  cases hstep.step with
  | mark scpOperator execType addr hstarted hfresh =>
    refine ⟨h.joins, fun op hjoin hmem => ?_⟩
    rcases h.active op hjoin hmem with hactive | hstarted
    · obtain ⟨a, ha, hop⟩ := isActive_iff.mp hactive
      exact .inl (isActive_iff.mpr ⟨a, List.mem_cons_of_mem _ ha, hop⟩)
    · exact .inr hstarted
  | syncronize arg alloc hqueued hfresh => exact syncronizeScpOperator_ok hacyclic s arg h htime
  | start scpOperator addr hactive =>
    refine ⟨h.joins, fun op hjoin hmem => ?_⟩
    by_cases he : op = scpOperator
    · exact .inr (he ▸ List.mem_cons_self)
    rcases h.active op hjoin hmem with hactive | hstarted
    · obtain ⟨a, ha, hop, hmark⟩ := isActive_iff.mp hactive
      have hne : a ≠ ⟨addr, .activeScpOperator, scpOperator⟩ := by
        rintro rfl
        exact he hop.symm
      exact .inl (isActive_iff.mpr ⟨a, (List.mem_erase_of_ne hne).mpr ha, hop, hmark⟩)
    · exact .inr (List.mem_cons_of_mem _ hstarted)

end

/-- When all calls of the synchronizer come in time, an operator that waits for all previous ones is marked
active only when these are done, and at most once. -/
theorem joins_run_once (p : ScpProcess) (hacyclic : p.Acyclic) (s0 : ProcessState) (h0 : s0.Created)
    (evs : List ProcessEvent) (s : ProcessState) (hr : Run (TimelyStep p) s0 evs s) :
    JoinsOnce p s.activations := by
  have hstart : SyncOk p s0.started s0.toSyncState := by
    refine ⟨⟨?_, ?_⟩, ?_⟩ <;> simp [h0.fresh.1]
  exact (run_invariant (fun s => SyncOk p s.started s.toSyncState) (process_step hacyclic) evs s0 s hstart
    hr).joins

/-! Two operators before one that waits for both. -/

theorem acyclic_of_lt {p : ScpProcess} (h : ∀ arc ∈ p.arcs, arc.source < arc.target) : p.Acyclic := by
  intro a htrans
  have hlt : ∀ {x y}, Relation.TransGen p.Precedes x y → x < y := by
    intro x y hxy
    induction hxy with
    | single hnext =>
      obtain ⟨arc, harc, rfl, rfl, _⟩ := hnext
      exact h arc harc
    | tail _ hnext ih =>
      obtain ⟨arc, harc, rfl, rfl, _⟩ := hnext
      exact ih.trans (h arc harc)
  exact lt_irrefl a (hlt htrans)

def exampleProcess : ScpProcess where
  arcs := [⟨10, 1, 3, some .nrelGoto⟩, ⟨11, 2, 3, some .nrelGoto⟩]
  afterAllPrevious op := op = 3
  nodup := by decide

theorem acyclic_exampleProcess : exampleProcess.Acyclic := acyclic_of_lt (by decide)

def createdProcess : ProcessState :=
  ⟨⟨[⟨20, .activeScpOperator, 1⟩, ⟨21, .activeScpOperator, 2⟩], []⟩, [], []⟩

theorem createdProcess_created : createdProcess.Created := ⟨by decide, by decide⟩

def nextAddr (memory : List MarkArc) : ℕ := (memory.map MarkArc.addr).sum + 1

theorem nextAddr_fresh (memory : List MarkArc) : nextAddr memory ∉ memory.map MarkArc.addr := by
  intro hmem
  have hle := List.le_sum_of_mem hmem
  unfold nextAddr at hle
  omega

/-- Both operators have been executed, and the synchronizer has not been called yet. -/
def executedProcess : ProcessState :=
  ⟨⟨[⟨31, .executedMark .executed, 2⟩, ⟨30, .executedMark .executed, 1⟩], []⟩, [31, 30], [2, 1]⟩

def executedEvents : List ProcessEvent :=
  [.start 1, .start 2, .mark 1 .executed, .mark 2 .executed]

theorem run_executed : Run (TimelyStep exampleProcess) createdProcess executedEvents executedProcess :=
  ⟨_, ⟨.start 1 20 (by decide), trivial⟩, _, ⟨.start 2 21 (by decide), trivial⟩,
    _, ⟨.mark 1 .executed 30 (by decide) (by decide), trivial⟩,
    _, ⟨.mark 2 .executed 31 (by decide) (by decide), trivial⟩, rfl⟩

/-- The first call marks the third operator active, and the second finds it active. -/
def readyProcess (queue : List ℕ) : ProcessState :=
  ⟨⟨⟨62, .activeScpOperator, 3⟩ :: executedProcess.memory, [(3, executedProcess.memory)]⟩, queue, [2, 1]⟩

theorem first_call : ProcessStep exampleProcess executedProcess (.syncronize 30) (readyProcess [31]) :=
  .syncronize 30 nextAddr (by decide) nextAddr_fresh

theorem second_call : ProcessStep exampleProcess (readyProcess [31]) (.syncronize 31) (readyProcess []) :=
  .syncronize 31 nextAddr (by decide) nextAddr_fresh

/-- A call for the only arc of the address, a mark of an operator that the third one follows. -/
theorem inTime_example {s : ProcessState} {arg : ℕ} (op : ℕ)
    (hmark : ∀ a ∈ s.memory, a.addr = arg → a = ⟨arg, .executedMark .executed, op⟩)
    (hidle : ∀ arc ∈ exampleProcess.arcs, arc.target ∉ s.started) :
    InTime exampleProcess s (.syncronize arg) := by
  intro a ha haddr
  rw [hmark a ha haddr]
  exact ⟨.executed, rfl, fun arc harc _ _ _ => hidle arc harc⟩

theorem first_call_timely :
    TimelyStep exampleProcess executedProcess (.syncronize 30) (readyProcess [31]) where
  step := first_call
  inTime := inTime_example 1 (by decide) (by decide)

theorem second_call_timely :
    TimelyStep exampleProcess (readyProcess [31]) (.syncronize 31) (readyProcess []) where
  step := second_call
  inTime := inTime_example 2 (by decide) (by decide)

theorem joinsOnce_example : JoinsOnce exampleProcess (readyProcess []).activations :=
  joins_run_once exampleProcess acyclic_exampleProcess createdProcess createdProcess_created
    (executedEvents ++ [.syncronize 30, .syncronize 31]) (readyProcess [])
    ((run_append _ _ _ _).mpr
      ⟨executedProcess, run_executed, _, first_call_timely, _, second_call_timely, rfl⟩)

/-- The third operator has been started before the second call, which marks it active again. -/
def startedProcess : ProcessState :=
  ⟨⟨executedProcess.memory, [(3, executedProcess.memory)]⟩, [31], [3, 2, 1]⟩

def repeatedProcess : ProcessState :=
  ⟨⟨⟨62, .activeScpOperator, 3⟩ :: executedProcess.memory,
    [(3, executedProcess.memory), (3, executedProcess.memory)]⟩, [], [3, 2, 1]⟩

theorem start_third : ProcessStep exampleProcess (readyProcess [31]) (.start 3) startedProcess :=
  .start 3 62 (by decide)

theorem late_call : ProcessStep exampleProcess startedProcess (.syncronize 31) repeatedProcess :=
  .syncronize 31 nextAddr (by decide) nextAddr_fresh

theorem not_joinsOnce : ¬ ∀ p : ScpProcess, p.Acyclic → ∀ s0 : ProcessState, s0.Created →
    ∀ (evs : List ProcessEvent) (s : ProcessState), Run (ProcessStep p) s0 evs s →
      JoinsOnce p s.activations := by
  intro hall
  have hexecuted := run_mono (fun _ _ _ (h : TimelyStep exampleProcess _ _ _) => h.step) _ _ _ run_executed
  have hjoins := hall exampleProcess acyclic_exampleProcess createdProcess createdProcess_created
    (executedEvents ++ [.syncronize 30, .start 3, .syncronize 31]) repeatedProcess
    ((run_append _ _ _ _).mpr
      ⟨executedProcess, hexecuted, _, first_call, _, start_third, _, late_call, rfl⟩)
  have honce := hjoins.once 3 rfl
  revert honce
  decide

end ScMachine.Scp
