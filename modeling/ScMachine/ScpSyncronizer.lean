import ScMachine.Runs

/-! The operators of an scp process and how they follow each other (`scp_operator_syncronizer.c`). An
element is named by a number; what a mark of an operator is in the store is an arc to the operator. -/
namespace ScMachine.Scp

/-- The relations of the arcs between operators. -/
inductive RelType where
  | nrelGoto
  | nrelThen
  | nrelElse
  deriving DecidableEq, Repr

/-- The kinds of executed operators, `exec_type`. -/
inductive ExecType where
  | executed
  | successfullyExecuted
  | unsuccessfullyExecuted
  deriving DecidableEq, Repr

/-- The node that the arc of a mark begins at. -/
inductive OperatorMark where
  | activeScpOperator
  | executedMark (execType : ExecType)
  deriving DecidableEq, Repr

def OperatorMark.execType? : OperatorMark → Option ExecType
  | .activeScpOperator => none
  | .executedMark execType => some execType

structure MarkArc where
  addr : ℕ
  mark : OperatorMark
  operator : ℕ
  deriving DecidableEq, Repr

/-- A common arc between two operators; it may have none of the three relations. -/
structure OperatorArc where
  addr : ℕ
  source : ℕ
  target : ℕ
  relation : Option RelType
  deriving DecidableEq, Repr

/-- The arcs are in the order of the store, the newest first. `afterAllPrevious` is the class
`scp_operator_executable_after_all_previous`. -/
structure ScpProcess where
  arcs : List OperatorArc
  afterAllPrevious : ℕ → Bool
  nodup : (arcs.map OperatorArc.addr).Nodup

/-- Marks, the newest first, and the operators that have been marked active, each with the marks at that
time. No code reads the second. -/
structure SyncState where
  memory : List MarkArc
  activations : List (ℕ × List MarkArc)

/-- `erase_executed_mark`. -/
def eraseExecutedMark (memory : List MarkArc) (scpOperator : ℕ) : List MarkArc :=
  match memory.find? fun a => a.operator = scpOperator ∧ a.mark.execType?.isSome with
  | some arc1 => memory.erase arc1
  | none => memory

/-- `erase_executed_mark` and `genElStr3` at the end of `start_next_operator`. -/
def activate (alloc : List MarkArc → ℕ) (scpOperator : ℕ) (s : SyncState) : SyncState :=
  let memory := eraseExecutedMark s.memory scpOperator
  ⟨⟨alloc memory, .activeScpOperator, scpOperator⟩ :: memory, (scpOperator, memory) :: s.activations⟩

/-- The inner loop over the marks of a previous operator. -/
def execTypeOf (memory : List MarkArc) (prevOperator : ℕ) : Option ExecType :=
  memory.findSome? fun a => if a.operator = prevOperator then a.mark.execType? else none

def RelType.fits : RelType → ExecType → Bool
  | .nrelGoto, _ => true
  | .nrelThen, execType => execType = .successfullyExecuted
  | .nrelElse, execType => execType = .unsuccessfullyExecuted

/-- The loop of `start_next_operator` over the arcs to the operator. -/
def allPrevious (memory : List MarkArc) (currArc : OperatorArc) : List OperatorArc → Bool
  | [] => true
  | arc3 :: rest =>
    if currArc.addr = arc3.addr then allPrevious memory currArc rest
    else
      match arc3.relation with
      | none => allPrevious memory currArc rest
      | some relType =>
        match execTypeOf memory arc3.source with
        | none => false
        | some execType => if relType.fits execType then allPrevious memory currArc rest else false

/-- `start_next_operator`. -/
def startNextOperator (p : ScpProcess) (alloc : List MarkArc → ℕ) (scpOperator : ℕ)
    (currArc : OperatorArc) (s : SyncState) : SyncState :=
  if !p.afterAllPrevious scpOperator then activate alloc scpOperator s
  else if allPrevious s.memory currArc (p.arcs.filter fun a => a.target = scpOperator) then
    activate alloc scpOperator s
  else s

/-- `searchElStr3` for an arc from `active_scp_operator`. -/
def isActive (memory : List MarkArc) (scpOperator : ℕ) : Bool :=
  memory.any fun a => a.operator = scpOperator ∧ a.mark = .activeScpOperator

/-- One of the loops of `syncronize_scp_operator`. -/
def syncLoop (p : ScpProcess) (alloc : List MarkArc → ℕ) : List OperatorArc → SyncState → SyncState
  | [], s => s
  | arc3 :: rest, s =>
    syncLoop p alloc rest
      (if isActive s.memory arc3.target then s else startNextOperator p alloc arc3.target arc3 s)

/-- The arcs of an iterator over what follows the operator in a relation. -/
def ScpProcess.next (p : ScpProcess) (operatorNode : ℕ) (relType : RelType) : List OperatorArc :=
  p.arcs.filter fun a => a.source = operatorNode ∧ a.relation = some relType

/-- `syncronize_scp_operator` for the arc that it is told of. What it reads of the arc is what the arc is
now. -/
def syncronizeScpOperator (p : ScpProcess) (alloc : List MarkArc → ℕ) (arg : ℕ) (s : SyncState) :
    SyncState :=
  match s.memory.find? fun a => a.addr = arg with
  | none => s
  | some arc1 =>
    let s1 :=
      match arc1.mark with
      | .executedMark .successfullyExecuted => syncLoop p alloc (p.next arc1.operator .nrelThen) s
      | .executedMark .unsuccessfullyExecuted => syncLoop p alloc (p.next arc1.operator .nrelElse) s
      | _ => s
    syncLoop p alloc (p.next arc1.operator .nrelGoto) s1

/-- `queue` holds the arcs of the calls of `syncronize_scp_operator` to come, and `started` the operators
that an agent has started. -/
structure ProcessState extends SyncState where
  queue : List ℕ
  started : List ℕ

inductive ProcessEvent where
  | mark (scpOperator : ℕ) (execType : ExecType)
  | syncronize (arg : ℕ)
  | start (scpOperator : ℕ)

/-- A step: an operator that has been started receives a mark, a call of the synchronizer runs, or an
agent starts an active operator. A new arc may have any address that is not in use. -/
inductive ProcessStep (p : ScpProcess) (s : ProcessState) : ProcessEvent → ProcessState → Prop where
  | mark (scpOperator : ℕ) (execType : ExecType) (addr : ℕ) (hstarted : scpOperator ∈ s.started)
      (hfresh : addr ∉ s.memory.map MarkArc.addr) :
    ProcessStep p s (.mark scpOperator execType)
      ⟨⟨⟨addr, .executedMark execType, scpOperator⟩ :: s.memory, s.activations⟩, addr :: s.queue,
        s.started⟩
  | syncronize (arg : ℕ) (alloc : List MarkArc → ℕ) (hqueued : arg ∈ s.queue)
      (hfresh : ∀ memory, alloc memory ∉ memory.map MarkArc.addr) :
    ProcessStep p s (.syncronize arg)
      ⟨syncronizeScpOperator p alloc arg s.toSyncState, s.queue.erase arg, s.started⟩
  | start (scpOperator addr : ℕ) (hactive : ⟨addr, .activeScpOperator, scpOperator⟩ ∈ s.memory) :
    ProcessStep p s (.start scpOperator)
      ⟨⟨s.memory.erase ⟨addr, .activeScpOperator, scpOperator⟩, s.activations⟩, s.queue,
        scpOperator :: s.started⟩

/-- The process as it is created: some operators are active. -/
structure ProcessState.Created (s : ProcessState) : Prop where
  active : ∀ a ∈ s.memory, a.mark = .activeScpOperator
  fresh : s.activations = [] ∧ s.queue = [] ∧ s.started = []

/-- Some arc with a relation leads from the first operator to the second. -/
def ScpProcess.Precedes (p : ScpProcess) (a b : ℕ) : Prop :=
  ∃ arc ∈ p.arcs, arc.source = a ∧ arc.target = b ∧ arc.relation.isSome

def ScpProcess.Acyclic (p : ScpProcess) : Prop := ∀ a, ¬ Relation.TransGen p.Precedes a a

end ScMachine.Scp
