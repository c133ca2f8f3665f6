import ScMachine.Runs
import ScMachine.StateExcept

/-! Threads over a shared state that take locks: what each of them has taken, and when some of them
wait for each other in a circle. -/
namespace ScMachine.LockThreads
open ScMachine.StateExcept ScMachine.Runs

/-- What happens to a thread that asks for a lock it has: with a `plain` one it waits for itself, an
`owned` one it keeps and gives back at once, a `counted` one it gives back as often as it took it. -/
inductive LockKind where
  | plain
  | owned
  | counted
  deriving DecidableEq

/-- The thread that has a lock, and how often it has taken it once more. -/
abbrev Owner := Option (ℕ × ℕ)

/-- The lock once thread `t` has taken it, or `none` if `t` has to wait. -/
def LockKind.take (kind : LockKind) (t : ℕ) : Owner → Option (ℕ × ℕ)
  | none => some (t, 0)
  | some (u, n) =>
    if u = t then
      match kind with
      | .plain => none
      | .owned => some (u, 0)
      | .counted => some (u, n+1)
    else none

/-- The lock once thread `t` has given it back, or `none` if `t` does not have it. -/
def LockKind.give (kind : LockKind) (t : ℕ) : Owner → Option Owner
  | none => none
  | some (u, n) =>
    if u = t then
      match kind, n with
      | .counted, n + 1 => some (some (u, n))
      | _, _ => some none
    else none

/-- How often `t` has taken a lock that is in this state. -/
def heldBy (t : ℕ) : Owner → ℕ
  | none => 0
  | some (u, n) => if u = t then n+1 else 0

/-- How often a thread has taken a lock after one more time. -/
def LockKind.more : LockKind → ℕ → ℕ
  | .counted, n => n+1
  | _, _ => 1

/-- How often it has taken the lock once it has given it back. -/
def LockKind.less : LockKind → ℕ → ℕ
  | .counted, n => n-1
  | _, _ => 0

/-- What a thread does next. A `tryAcquire` may fail although the lock is free. -/
inductive Move (L σ ε P : Type) where
  | acquire (l : L) (next : P)
  | tryAcquire (l : L) (next failed : P)
  | release (l : L) (next : P)
  | act (x : StateT σ (Except ε) P)

/-- The points of a program with the move that is made at each of them; at a point without one a
thread starts at any of the entries. -/
structure Program (L σ ε P : Type) where
  kind : L → LockKind
  move : P → Option (Move L σ ε P)
  entry : ℕ → σ → P → Bool

structure State (L σ P : Type) where
  shared : σ
  owner : L → Owner
  point : ℕ → P

inductive Action (P : Type) where
  | start (t : ℕ) (p : P)
  | step (t : ℕ)
  | giveUp (t : ℕ)

section
variable {L σ ε P : Type}

def State.goto (s : State L σ P) (t : ℕ) (p : P) : State L σ P :=
  { s with point := Function.update s.point t p }

def State.setOwner [DecidableEq L] (s : State L σ P) (l : L) (o : Owner) : State L σ P :=
  { s with owner := Function.update s.owner l o }

/-- How often `t` has taken the lock without giving it back. -/
def State.held (s : State L σ P) (t : ℕ) (l : L) : ℕ := heldBy t (s.owner l)

/-- The state after the move of `t`, or `none` if `t` waits or the program has stopped. -/
def Program.advance [DecidableEq L] (m : Program L σ ε P) (s : State L σ P) (t : ℕ) :
    Option (State L σ P) :=
  match m.move (s.point t) with
  | none => none
  | some (.acquire l p) =>
    ((m.kind l).take t (s.owner l)).map fun o => (s.setOwner l (some o)).goto t p
  | some (.tryAcquire l p q) =>
    match (m.kind l).take t (s.owner l) with
    | some o => some ((s.setOwner l (some o)).goto t p)
    | none => some (s.goto t q)
  | some (.release l p) => ((m.kind l).give t (s.owner l)).map fun o => (s.setOwner l o).goto t p
  | some (.act x) =>
    match x s.shared with
    | .ok (p, shared) => some { s.goto t p with shared := shared }
    | .error _ => none

/-- A `tryAcquire` of `t` fails. -/
def Program.giveUp (m : Program L σ ε P) (s : State L σ P) (t : ℕ) : Option (State L σ P) :=
  match m.move (s.point t) with
  | some (.tryAcquire _ _ q) => some (s.goto t q)
  | _ => none

def Program.perform [DecidableEq L] (m : Program L σ ε P) (s : State L σ P) :
    Action P → Option (State L σ P)
  | .start t p =>
    if (m.move (s.point t)).isNone && m.entry t s.shared p then some (s.goto t p) else none
  | .step t => m.advance s t
  | .giveUp t => m.giveUp s t

def Program.performAll [DecidableEq L] (m : Program L σ ε P) :
    State L σ P → List (Action P) → Option (State L σ P)
  | s, [] => some s
  | s, a :: as => (m.perform s a).bind fun s' => m.performAll s' as

def Program.Step [DecidableEq L] (m : Program L σ ε P) (s : State L σ P) (a : Action P)
    (s' : State L σ P) : Prop := m.perform s a = some s'

/-- Thread `t` asks for `l` and does not get it. -/
def Program.WaitsOn (m : Program L σ ε P) (s : State L σ P) (t : ℕ) (l : L) : Prop :=
  (∃ p, m.move (s.point t) = some (.acquire l p)) ∧ (m.kind l).take t (s.owner l) = none

/-- Thread `t` waits for a lock that `u` has. -/
def Program.WaitsFor (m : Program L σ ε P) (s : State L σ P) (t u : ℕ) : Prop :=
  ∃ l, m.WaitsOn s t l ∧ 0 < s.held u l

/-- The same, computed. -/
def Program.waitsFor (m : Program L σ ε P) (s : State L σ P) (t u : ℕ) : Bool :=
  match m.move (s.point t) with
  | some (.acquire l _) => ((m.kind l).take t (s.owner l)).isNone && 0 < s.held u l
  | _ => false

/-- Some threads wait, each for a lock that the next one has. -/
def Program.Deadlocked (m : Program L σ ε P) (s : State L σ P) : Prop :=
  ∃ t, Relation.TransGen (m.WaitsFor s) t t

/-- Wherever the move leads, `J` holds of what the thread has taken and of the point it is at, and
`I` of the shared state. -/
def Move.Leads [DecidableEq L] (kind : L → LockKind) (I : σ → Prop) (J : (L → ℕ) → P → Prop)
    (H : L → ℕ) : Move L σ ε P → Prop
  | .acquire l p => J (Function.update H l ((kind l).more (H l))) p
  | .tryAcquire l p q => J (Function.update H l ((kind l).more (H l))) p ∧ J H q
  | .release l p => 0 < H l → J (Function.update H l ((kind l).less (H l))) p
  | .act x => ∀ s, I s → IfReturns x (fun p s' => I s' ∧ J H p) s

/-- The point and the shared state after the move. -/
def Move.To : Move L σ ε P → σ → P → σ → Prop
  | .acquire _ p, a, p', a' | .release _ p, a, p', a' => p' = p ∧ a' = a
  | .tryAcquire _ p q, a, p', a' => (p' = p ∨ p' = q) ∧ a' = a
  | .act x, a, p', a' => x a = .ok (p', a')

/-- Every thread that follows the program keeps `I` and `J`. -/
structure Program.Follows [DecidableEq L] (m : Program L σ ε P) (I : σ → Prop)
    (J : (L → ℕ) → P → Prop) : Prop where
  entry : ∀ H p t s q, J H p → m.move p = none → m.entry t s q → J H q
  move : ∀ H p mv, J H p → m.move p = some mv → mv.Leads m.kind I J H

variable {kind : LockKind} {t u : ℕ} {o : Owner}

theorem take_self {o' : ℕ × ℕ} (h : kind.take t o = some o') :
    heldBy t (some o') = kind.more (heldBy t o) := by
  cases o with
  | none =>
    obtain rfl : (t, 0) = o' := by simpa [LockKind.take] using h
    cases kind <;> simp [heldBy, LockKind.more]
  | some p =>
    by_cases hp : p.1 = t
    · cases kind <;> simp [LockKind.take, hp] at h
      all_goals
        subst h
        simp [heldBy, LockKind.more, hp]
    · simp [LockKind.take, hp] at h

theorem take_other {o' : ℕ × ℕ} (h : kind.take t o = some o') (hu : u ≠ t) :
    heldBy u (some o') = heldBy u o := by
  cases o with
  | none =>
    obtain rfl : (t, 0) = o' := by simpa [LockKind.take] using h
    simp [heldBy, hu.symm]
  | some p =>
    by_cases hp : p.1 = t
    · cases kind <;> simp [LockKind.take, hp] at h
      all_goals
        subst h
        simp [heldBy, hp, hu.symm]
    · simp [LockKind.take, hp] at h

theorem give_self {o' : Owner} (h : kind.give t o = some o') :
    0 < heldBy t o ∧ heldBy t o' = kind.less (heldBy t o) := by
  cases o with
  | none => simp [LockKind.give] at h
  | some p =>
    obtain ⟨v, n⟩ := p
    by_cases hv : v = t
    · cases kind <;> cases n <;> simp [LockKind.give, hv] at h
      all_goals
        subst h
        simp [heldBy, LockKind.less, hv]
    · simp [LockKind.give, hv] at h

theorem give_other {o' : Owner} (h : kind.give t o = some o') (hu : u ≠ t) :
    heldBy u o' = heldBy u o := by
  cases o with
  | none => simp [LockKind.give] at h
  | some p =>
    obtain ⟨v, n⟩ := p
    by_cases hv : v = t
    · cases kind <;> cases n <;> simp [LockKind.give, hv] at h
      all_goals
        subst h
        simp [heldBy, hv, hu.symm]
    · simp [LockKind.give, hv] at h

variable {m : Program L σ ε P} {s s' : State L σ P} {l l' : L}

theorem held_unique (ht : 0 < s.held t l) (hu : 0 < s.held u l) : t = u := by
  unfold State.held heldBy at ht hu
  cases ho : s.owner l with
  | none => simp [ho] at ht
  | some p =>
    have hpt : p.1 = t := by
      by_contra hne
      simp [ho, hne] at ht
    have hpu : p.1 = u := by
      by_contra hne
      simp [ho, hne] at hu
    exact hpt.symm.trans hpu

theorem held_setOwner [DecidableEq L] (o : Owner) :
    (s.setOwner l o).held u = Function.update (s.held u) l (heldBy u o) := by
  funext l'
  unfold State.held State.setOwner
  by_cases hl : l' = l
  · subst hl
    simp
  · simp [hl]

/-- What a thread waits on is what its next move asks for. -/
theorem waitsOn_unique (h : m.WaitsOn s t l) (h' : m.WaitsOn s t l') : l = l' := by
  obtain ⟨p, hp⟩ := h.1
  obtain ⟨p', hp'⟩ := h'.1
  rw [hp, Option.some.injEq, Move.acquire.injEq] at hp'
  exact hp'.1

theorem advance_to [DecidableEq L] (h : m.advance s t = some s') :
    ∃ mv p', m.move (s.point t) = some mv ∧ mv.To s.shared p' s'.shared ∧
      s'.point = Function.update s.point t p' := by
  unfold Program.advance at h
  cases hmove : m.move (s.point t) with
  | none => simp [hmove] at h
  | some mv =>
    rw [hmove] at h
    cases mv with
    | acquire l p =>
      obtain ⟨o, _, rfl⟩ := Option.map_eq_some_iff.mp h
      exact ⟨_, p, rfl, ⟨rfl, rfl⟩, rfl⟩
    | tryAcquire l p q =>
      cases htake : (m.kind l).take t (s.owner l) with
      | none =>
        simp only [htake, Option.some.injEq] at h
        subst h
        exact ⟨_, q, rfl, ⟨Or.inr rfl, rfl⟩, rfl⟩
      | some o =>
        simp only [htake, Option.some.injEq] at h
        subst h
        exact ⟨_, p, rfl, ⟨Or.inl rfl, rfl⟩, rfl⟩
    | release l p =>
      obtain ⟨o, _, rfl⟩ := Option.map_eq_some_iff.mp h
      exact ⟨_, p, rfl, ⟨rfl, rfl⟩, rfl⟩
    | act x =>
      cases hx : x s.shared with
      | error e => simp [hx] at h
      | ok r =>
        simp only [hx, Option.some.injEq] at h
        subst h
        exact ⟨_, r.1, rfl, hx, rfl⟩

theorem giveUp_to (h : m.giveUp s t = some s') :
    ∃ l p q, m.move (s.point t) = some (.tryAcquire l p q) ∧ s' = s.goto t q := by
  unfold Program.giveUp at h
  cases hmove : m.move (s.point t) with
  | none => simp [hmove] at h
  | some mv =>
    cases mv with
    | tryAcquire l p q =>
      simp only [hmove, Option.some.injEq] at h
      exact ⟨l, p, q, rfl, h.symm⟩
    | acquire l p | release l p | act x => simp [hmove] at h

/-! What the program says of a thread alone holds of all of them together. -/

/-- The lock and the point of thread `t` change, the other threads keep what they have. -/
theorem invariant_setOwner [DecidableEq L] {J : (L → ℕ) → P → Prop} {o : Owner} {p : P}
    (hJ : ∀ u, J (s.held u) (s.point u))
    (hself : J (Function.update (s.held t) l (heldBy t o)) p)
    (hother : ∀ u, u ≠ t → heldBy u o = s.held u l) (u : ℕ) :
    J (((s.setOwner l o).goto t p).held u) (((s.setOwner l o).goto t p).point u) := by
  have hheld : ((s.setOwner l o).goto t p).held u = (s.setOwner l o).held u := rfl
  rw [hheld, held_setOwner]
  by_cases hu : u = t
  · subst hu
    simpa [State.goto, State.setOwner] using hself
  · rw [hother u hu, Function.update_eq_self]
    simpa [State.goto, State.setOwner, hu] using hJ u

theorem invariant_goto {J : (L → ℕ) → P → Prop} {p : P} (hJ : ∀ u, J (s.held u) (s.point u))
    (hself : J (s.held t) p) (u : ℕ) : J ((s.goto t p).held u) ((s.goto t p).point u) := by
  have hheld : (s.goto t p).held u = s.held u := rfl
  rw [hheld]
  by_cases hu : u = t
  · subst hu
    simpa [State.goto] using hself
  · simpa [State.goto, hu] using hJ u

theorem Program.Follows.advance [DecidableEq L] {I : σ → Prop} {J : (L → ℕ) → P → Prop}
    (hm : m.Follows I J) (hI : I s.shared) (hJ : ∀ u, J (s.held u) (s.point u))
    (h : m.advance s t = some s') : I s'.shared ∧ ∀ u, J (s'.held u) (s'.point u) := by
  unfold Program.advance at h
  cases hmove : m.move (s.point t) with
  | none => simp [hmove] at h
  | some mv =>
    have hleads := hm.move _ _ mv (hJ t) hmove
    rw [hmove] at h
    cases mv with
    | acquire l p =>
      obtain ⟨o, ho, rfl⟩ := Option.map_eq_some_iff.mp h
      refine ⟨hI, invariant_setOwner hJ ?_ fun u hu => take_other ho hu⟩
      rw [take_self ho]
      exact hleads
    | tryAcquire l p q =>
      cases htake : (m.kind l).take t (s.owner l) with
      | none =>
        simp only [htake, Option.some.injEq] at h
        subst h
        exact ⟨hI, invariant_goto hJ hleads.2⟩
      | some o =>
        simp only [htake, Option.some.injEq] at h
        subst h
        refine ⟨hI, invariant_setOwner hJ ?_ fun u hu => take_other htake hu⟩
        rw [take_self htake]
        exact hleads.1
    | release l p =>
      obtain ⟨o, ho, rfl⟩ := Option.map_eq_some_iff.mp h
      obtain ⟨hheld, hless⟩ := give_self ho
      refine ⟨hI, invariant_setOwner hJ ?_ fun u hu => give_other ho hu⟩
      rw [hless]
      exact hleads hheld
    | act x =>
      cases hx : x s.shared with
      | error e => simp [hx] at h
      | ok r =>
        simp only [hx, Option.some.injEq] at h
        subst h
        have hreturns : IfReturns x (fun p a => I a ∧ J (s.held t) p) s.shared := hleads s.shared hI
        obtain ⟨hI', hpoint⟩ := wp_ok hreturns hx
        exact ⟨hI', invariant_goto hJ hpoint⟩

theorem Program.Follows.step [DecidableEq L] {I : σ → Prop} {J : (L → ℕ) → P → Prop}
    (hm : m.Follows I J) {a : Action P} (hI : I s.shared) (hJ : ∀ u, J (s.held u) (s.point u))
    (h : m.Step s a s') : I s'.shared ∧ ∀ u, J (s'.held u) (s'.point u) := by
  unfold Program.Step Program.perform at h
  cases a with
  | start t p =>
    rw [Option.ite_none_right_eq_some, Bool.and_eq_true, Option.isNone_iff_eq_none] at h
    obtain ⟨⟨hnone, hentry⟩, hs⟩ := h
    rw [← Option.some.inj hs]
    exact ⟨hI, invariant_goto hJ (hm.entry _ _ _ _ _ (hJ t) hnone hentry)⟩
  | step t => exact hm.advance hI hJ h
  | giveUp t =>
    obtain ⟨l, p, q, hmove, rfl⟩ := giveUp_to h
    exact ⟨hI, invariant_goto hJ (hm.move _ _ _ (hJ t) hmove).2⟩

theorem run_of_performAll [DecidableEq L] (as : List (Action P))
    (h : m.performAll s as = some s') : Run m.Step s as s' := by
  induction as generalizing s with
  | nil => exact (Option.some.inj h).symm
  | cons a as ih =>
    obtain ⟨s₁, hs₁, h⟩ := Option.bind_eq_some_iff.mp h
    exact ⟨s₁, hs₁, ih h⟩

/-! Circles of threads that wait. -/

theorem waitsFor_of_waitsFor (h : m.waitsFor s t u = true) : m.WaitsFor s t u := by
  unfold Program.waitsFor at h
  cases hmove : m.move (s.point t) with
  | none => simp [hmove] at h
  | some mv =>
    cases mv with
    | acquire l p =>
      simp only [hmove, Bool.and_eq_true, Option.isNone_iff_eq_none, decide_eq_true_eq] at h
      exact ⟨l, ⟨⟨p, hmove⟩, h.1⟩, h.2⟩
    | tryAcquire l p q | release l p | act x => simp [hmove] at h

/-- Two threads that wait for each other, after the actions `as`. -/
theorem deadlock_of_performAll [DecidableEq L] (as : List (Action P)) (t u : ℕ)
    (h : (m.performAll s as).any fun s' => m.waitsFor s' t u && m.waitsFor s' u t) :
    ∃ s', Run m.Step s as s' ∧ m.Deadlocked s' := by
  obtain ⟨s', hs', hwaits⟩ := (Option.any_eq_true _ _).mp h
  rw [Bool.and_eq_true] at hwaits
  have htu := waitsFor_of_waitsFor hwaits.1
  have hut := waitsFor_of_waitsFor hwaits.2
  exact ⟨s', run_of_performAll as hs', t, (Relation.TransGen.single htu).tail hut⟩

theorem waitsFor_held (h : Relation.TransGen (m.WaitsFor s) t u) : ∃ l, 0 < s.held u l := by
  cases h with
  | single h =>
    obtain ⟨l, _, hl⟩ := h
    exact ⟨l, hl⟩
  | tail _ h =>
    obtain ⟨l, _, hl⟩ := h
    exact ⟨l, hl⟩

/-- There is no circle where every lock that a waiting thread asks for ranks below the one that the
thread which has it asks for. It is enough to see this for threads that have some lock. -/
theorem not_deadlocked_of_rank (rank : L → ℕ)
    (hrank : ∀ t u l l' l₀, 0 < s.held t l₀ → m.WaitsOn s t l → 0 < s.held u l →
      m.WaitsOn s u l' → rank l < rank l') : ¬ m.Deadlocked s := by
  intro ⟨t, ht⟩
  obtain ⟨l₀, hl₀⟩ := waitsFor_held ht
  -- along the circle the locks that are asked for rise
  have hrise (u : ℕ) (hu : Relation.TransGen (m.WaitsFor s) t u) :
      ∀ l l', m.WaitsOn s t l → m.WaitsOn s u l' → rank l < rank l' := by
    induction hu with
    | single h =>
      intro l l' hl hl'
      obtain ⟨l₁, hl₁, hheld⟩ := h
      rw [waitsOn_unique hl hl₁]
      exact hrank _ _ _ _ _ hl₀ hl₁ hheld hl'
    | tail hv h ih =>
      intro l l' hl hl'
      obtain ⟨l₁, hl₁, hheld⟩ := h
      obtain ⟨l₂, hl₂⟩ := waitsFor_held hv
      calc rank l < rank l₁ := ih l l₁ hl hl₁
        _ < rank l' := hrank _ _ _ _ _ hl₂ hl₁ hheld hl'
  obtain ⟨u, ⟨l, hl, _⟩, _⟩ := Relation.TransGen.head'_iff.mp ht
  exact lt_irrefl _ (hrise t ht l l hl hl)

end

end ScMachine.LockThreads
