import ScMachine.Runs
import ScMachine.ScSegment

/-! The re-entrant section lock of `sc_segment.c`, with every atomic access as one step of one
thread. Any number of threads run `sc_segment_section_lock`, `sc_segment_section_lock_try` and
`sc_segment_section_unlock` on one section, interleaved in any order. -/
namespace ScMachine.SectionLock
open ScMachine.Runs

/-- The value of an `sc_int` after an atomic addition: 32 bits, two's complement. -/
def scIntWrap (x : ℤ) : ℤ := (x+2147483648)%4294967296-2147483648

/-- A call that takes the lock, with the local variables of `lock_try`. -/
inductive LockCall where
  | lock
  | lockTry (maxAttempts attempts : BitVec 16)
  deriving DecidableEq, Repr

/-- The next atomic access of a thread. -/
inductive Pc where
  | idle
  | cas (c : LockCall)
  | readOwner (c : LockCall)
  | rereadOwner (c : LockCall)
  | backOff (c : LockCall)
  | setOwner (c : LockCall)
  | incCount (c : LockCall)
  | leave (c : LockCall)
  | unlockCas
  | assertOwner
  | decCount
  | clearOwner
  | unlockLeave
  | aborted
  deriving DecidableEq, Repr

/-- The three shared words of the section, the place of every thread in its code, and the
acquisitions that every thread has not given back yet. -/
structure LockState (T : Type) where
  internalLock : Bool
  threadLock : Option T
  lockCount : ℤ
  pc : T → Pc
  held : T → ℕ

def LockState.initial (T : Type) : LockState T := ⟨false, none, 0, fun _ => .idle, fun _ => 0⟩

section
variable {T : Type} [DecidableEq T]

def LockState.goto (s : LockState T) (t : T) (p : Pc) : LockState T :=
  { s with pc := Function.update s.pc t p }

/-- The next access of `t`: the state after it, and the result if the call returns with it. -/
def advance (s : LockState T) (t : T) : Option (Option Bool × LockState T) :=
  match s.pc t with
  | .idle => none
  | .aborted => none
  | .cas c =>
    if s.internalLock = false then
      some (none, { s.goto t (.readOwner c) with internalLock := true })
    else
      match c with
      | .lock => some (none, s)
      | .lockTry maxAttempts attempts =>
        if maxAttempts.toNat < attempts.toNat then some (some false, s.goto t .idle)
        else some (none, s.goto t (.cas (.lockTry maxAttempts (attempts+1))))
  | .readOwner c =>
    some (none, s.goto t (if s.threadLock = none then .setOwner c else .rereadOwner c))
  | .rereadOwner c =>
    some (none, s.goto t (if s.threadLock = some t then .setOwner c else .backOff c))
  | .backOff c =>
    match c with
    | .lock => some (none, { s.goto t (.cas .lock) with internalLock := false })
    | .lockTry maxAttempts attempts =>
      if maxAttempts.toNat ≤ (attempts+1).toNat then
        some (some false, { s.goto t .idle with internalLock := false })
      else
        some (none,
          { s.goto t (.cas (.lockTry maxAttempts (attempts+1))) with internalLock := false })
  | .setOwner c => some (none, { s.goto t (.incCount c) with threadLock := some t })
  | .incCount c => some (none, { s.goto t (.leave c) with lockCount := scIntWrap (s.lockCount+1) })
  | .leave _ =>
    some (some true, { s.goto t .idle with
      internalLock := false
      held := Function.update s.held t (s.held t+1) })
  | .unlockCas =>
    if s.internalLock = false then some (none, { s.goto t .assertOwner with internalLock := true })
    else some (none, s)
  | .assertOwner => some (none, s.goto t (if s.threadLock = some t then .decCount else .aborted))
  | .decCount =>
    let n := scIntWrap (s.lockCount-1)
    some (none, { s.goto t (if n = 0 then .clearOwner else .unlockLeave) with lockCount := n })
  | .clearOwner => some (none, { s.goto t .unlockLeave with threadLock := none })
  | .unlockLeave =>
    some (some true, { s.goto t .idle with
      internalLock := false
      held := Function.update s.held t (s.held t-1) })

inductive LockEvent (T : Type) where
  | callLock (t : T)
  | callLockTry (t : T) (maxAttempts : BitVec 16)
  | callUnlock (t : T)
  | access (t : T)
  | returned (t : T) (result : Bool)

/-- A thread starts a call when it is in none, gives back only what it has acquired, and
otherwise makes the next access of its call. -/
inductive LockStep : LockState T → LockEvent T → LockState T → Prop where
  | callLock (s : LockState T) (t : T) (h : s.pc t = .idle) :
      LockStep s (.callLock t) (s.goto t (.cas .lock))
  | callLockTry (s : LockState T) (t : T) (maxAttempts : BitVec 16) (h : s.pc t = .idle) :
      LockStep s (.callLockTry t maxAttempts) (s.goto t (.cas (.lockTry maxAttempts 0)))
  | callUnlock (s : LockState T) (t : T) (h : s.pc t = .idle) (hheld : 0 < s.held t) :
      LockStep s (.callUnlock t) (s.goto t .unlockCas)
  | access (s s' : LockState T) (t : T) (h : advance s t = some (none, s')) :
      LockStep s (.access t) s'
  | returned (s s' : LockState T) (t : T) (result : Bool)
      (h : advance s t = some (some result, s')) : LockStep s (.returned t result) s'

/-- Between the successful exchange of `internal_lock` and its release. -/
def Pc.critical : Pc → Prop
  | .idle | .cas _ | .unlockCas | .aborted => False
  | _ => True

def Pc.unlocking : Pc → Prop
  | .unlockCas | .assertOwner | .decCount | .clearOwner | .unlockLeave => True
  | _ => False

/-- The three words agree with the acquisitions. -/
def Quiet (s : LockState T) : Prop :=
  (s.threadLock = none ∧ s.lockCount = 0 ∧ ∀ t, s.held t = 0) ∨
  (∃ t, s.threadLock = some t ∧ 0 < s.held t ∧ s.lockCount = s.held t ∧
    ∀ u, u ≠ t → s.held u = 0)

/-- What the words are while `t` is in the critical region, access by access. -/
def CritOk (s : LockState T) (t : T) : Pc → Prop
  | .readOwner _ | .assertOwner => Quiet s
  | .rereadOwner _ => Quiet s ∧ s.threadLock ≠ none
  | .backOff _ => Quiet s ∧ s.threadLock ≠ none ∧ s.threadLock ≠ some t
  | .setOwner _ => Quiet s ∧ (s.threadLock = none ∨ s.threadLock = some t)
  | .incCount _ => s.threadLock = some t ∧ s.lockCount = s.held t ∧ ∀ u, u ≠ t → s.held u = 0
  | .leave _ =>
    s.threadLock = some t ∧ s.lockCount = scIntWrap (s.held t+1) ∧ ∀ u, u ≠ t → s.held u = 0
  | .decCount => Quiet s ∧ s.threadLock = some t
  | .clearOwner => s.lockCount = 0 ∧ s.held t = 1 ∧ ∀ u, u ≠ t → s.held u = 0
  | .unlockLeave => (∀ u, u ≠ t → s.held u = 0) ∧
    ((s.held t = 1 ∧ s.threadLock = none ∧ s.lockCount = 0) ∨
      (1 < s.held t ∧ s.threadLock = some t ∧ s.lockCount = s.held t-1))
  | _ => True

structure LockInv (s : LockState T) : Prop where
  locked : s.internalLock = true ↔ ∃ t, (s.pc t).critical
  one : ∀ t u, (s.pc t).critical → (s.pc u).critical → t = u
  quiet : s.internalLock = false → Quiet s
  crit : ∀ t, (s.pc t).critical → CritOk s t (s.pc t)
  unlocking : ∀ t, (s.pc t).unlocking → 0 < s.held t
  notAborted : ∀ t, s.pc t ≠ .aborted

omit [DecidableEq T] in
theorem Quiet.congr {s s' : LockState T} (h : Quiet s) (ht : s'.threadLock = s.threadLock)
    (hc : s'.lockCount = s.lockCount) (hh : s'.held = s.held) : Quiet s' := by
  unfold Quiet
  rw [ht, hc, hh]
  exact h

omit [DecidableEq T] in
theorem lockInv_initial : LockInv (LockState.initial T) where
  locked := by simp [LockState.initial, Pc.critical]
  one := by simp [LockState.initial, Pc.critical]
  quiet := fun _ => Or.inl ⟨rfl, rfl, fun _ => rfl⟩
  crit := by simp [LockState.initial, Pc.critical]
  unlocking := by simp [LockState.initial, Pc.unlocking]
  notAborted := by simp [LockState.initial]

theorem goto_forall (s : LockState T) (t : T) (p : Pc) (P : T → Pc → Prop)
    (hother : ∀ u, u ≠ t → P u (s.pc u)) (hp : P t p) (u : T) : P u ((s.goto t p).pc u) := by
  by_cases h : u = t
  · subst h
    have hpc : (s.goto u p).pc u = p := Function.update_self ..
    rw [hpc]
    exact hp
  · have hpc : (s.goto t p).pc u = s.pc u := Function.update_of_ne h _ _
    rw [hpc]
    exact hother u h

/-- A thread outside the critical region moves outside it. -/
theorem LockInv.outside {s : LockState T} (hi : LockInv s) (t : T) (p : Pc)
    (hold : ¬ (s.pc t).critical) (hnew : ¬ p.critical) (ha : p ≠ .aborted)
    (hu : p.unlocking → 0 < s.held t) : LockInv (s.goto t p) := by
  have hcrit : ∀ u, ((s.goto t p).pc u).critical ↔ (s.pc u).critical :=
    goto_forall s t p (fun u q => q.critical ↔ (s.pc u).critical) (fun _ _ => Iff.rfl)
      (by simp [hold, hnew])
  refine ⟨?_, ?_, ?_, ?_, ?_, ?_⟩
  · simp only [hcrit]
    exact hi.locked
  · intro u v hu hv
    exact hi.one u v ((hcrit u).1 hu) ((hcrit v).1 hv)
  · intro h
    exact (hi.quiet h).congr rfl rfl rfl
  · intro u hu
    have hcu := (hcrit u).1 hu
    have hne : u ≠ t := fun h => hold (h ▸ hcu)
    have hpc : (s.goto t p).pc u = s.pc u := Function.update_of_ne hne _ _
    rw [hpc]
    exact hi.crit u hcu
  · exact goto_forall s t p (fun u q => q.unlocking → 0 < s.held u)
      (fun u _ => hi.unlocking u) hu
  · exact goto_forall s t p (fun _ q => q ≠ .aborted) (fun u _ => hi.notAborted u) ha

/-- The exchange that takes `internal_lock`. -/
theorem LockInv.enter {s : LockState T} (hi : LockInv s) (t : T) (p : Pc)
    (hfree : s.internalLock = false) (hnew : p.critical) (ha : p ≠ .aborted)
    (hq : Quiet s → CritOk s t p) (hu : p.unlocking → 0 < s.held t) :
    LockInv { s.goto t p with internalLock := true } := by
  have hnone : ∀ u, ¬ (s.pc u).critical := by
    intro u hu
    have := hi.locked.2 ⟨u, hu⟩
    simp [hfree] at this
  have hcrit : ∀ u, ((s.goto t p).pc u).critical → u = t :=
    goto_forall s t p (fun u q => q.critical → u = t) (fun u _ h => absurd h (hnone u)) (fun _ => rfl)
  refine ⟨?_, ?_, ?_, ?_, ?_, ?_⟩
  · refine ⟨fun _ => ⟨t, ?_⟩, fun _ => rfl⟩
    simpa [LockState.goto] using hnew
  · intro u v hu hv
    rw [hcrit u hu, hcrit v hv]
  · intro h
    simp at h
  · intro u h
    obtain rfl := hcrit u h
    have hpc : (s.goto u p).pc u = p := Function.update_self ..
    have hok : CritOk s u p := hq (hi.quiet hfree)
    show CritOk _ u ((s.goto u p).pc u)
    rw [hpc]
    exact hok
  · exact goto_forall s t p (fun u q => q.unlocking → 0 < s.held u)
      (fun u _ => hi.unlocking u) hu
  · exact goto_forall s t p (fun _ q => q ≠ .aborted) (fun u _ => hi.notAborted u) ha

/-- A move inside the critical region: only the thread there may change the two other words. -/
theorem LockInv.inside {s : LockState T} (hi : LockInv s) (t : T) (p : Pc) (o : Option T) (n : ℤ)
    (hold : (s.pc t).critical) (hnew : p.critical) (ha : p ≠ .aborted)
    (hok : CritOk { s.goto t p with threadLock := o, lockCount := n } t p)
    (hu : p.unlocking → 0 < s.held t) :
    LockInv { s.goto t p with threadLock := o, lockCount := n } := by
  have hlock : s.internalLock = true := hi.locked.2 ⟨t, hold⟩
  have hcrit : ∀ u, ((s.goto t p).pc u).critical → u = t :=
    goto_forall s t p (fun u q => q.critical → u = t) (fun u _ h => hi.one u t h hold)
      (fun _ => rfl)
  refine ⟨?_, ?_, ?_, ?_, ?_, ?_⟩
  · refine ⟨fun _ => ⟨t, ?_⟩, fun _ => hlock⟩
    simpa [LockState.goto] using hnew
  · intro u v hu hv
    rw [hcrit u hu, hcrit v hv]
  · intro h
    simp [LockState.goto, hlock] at h
  · intro u h
    obtain rfl := hcrit u h
    have hpc : (s.goto u p).pc u = p := Function.update_self ..
    show CritOk _ u ((s.goto u p).pc u)
    rw [hpc]
    exact hok
  · exact goto_forall s t p (fun u q => q.unlocking → 0 < s.held u)
      (fun u _ => hi.unlocking u) hu
  · exact goto_forall s t p (fun _ q => q ≠ .aborted) (fun u _ => hi.notAborted u) ha

/-- The store that releases `internal_lock`. -/
theorem LockInv.exit {s : LockState T} (hi : LockInv s) (t : T) (p : Pc) (held : T → ℕ)
    (hold : (s.pc t).critical) (hnew : ¬ p.critical) (ha : p ≠ .aborted) (hp : ¬ p.unlocking)
    (hheld : ∀ u, u ≠ t → held u = s.held u)
    (hq : Quiet { s.goto t p with internalLock := false, held := held }) :
    LockInv { s.goto t p with internalLock := false, held := held } := by
  have hcrit : ∀ u, ¬ ((s.goto t p).pc u).critical :=
    goto_forall s t p (fun _ q => ¬ q.critical) (fun u hut h => hut (hi.one u t h hold)) hnew
  refine ⟨?_, ?_, ?_, ?_, ?_, ?_⟩
  · refine ⟨fun h => by simp at h, ?_⟩
    rintro ⟨u, h⟩
    exact absurd h (hcrit u)
  · intro u v h
    exact absurd h (hcrit u)
  · intro _
    exact hq
  · intro u h
    exact absurd h (hcrit u)
  · refine goto_forall s t p (fun u q => q.unlocking → 0 < held u) ?_ (fun h => absurd h hp)
    intro u hut h
    rw [hheld u hut]
    exact hi.unlocking u h
  · exact goto_forall s t p (fun _ q => q ≠ .aborted) (fun u _ => hi.notAborted u) ha

theorem scIntWrap_of_small (n : ℤ) (h0 : -2147483648 ≤ n) (h : n < 2147483648) :
    scIntWrap n = n := by
  unfold scIntWrap
  omega

/-! What the words say in each place of the critical region, and one lemma for each access. -/

omit [DecidableEq T] in
/-- Only the owner has acquisitions to give back. -/
theorem Quiet.owner {s : LockState T} (hq : Quiet s) {t : T} (hp : 0 < s.held t) :
    s.threadLock = some t := by
  rcases hq with ⟨-, -, hheld⟩ | ⟨u, hu, -, -, hheld⟩
  · exact absurd (hheld t) hp.ne'
  · by_cases hut : t = u
    · rw [hu, hut]
    · exact absurd (hheld t hut) hp.ne'

omit [DecidableEq T] in
/-- For a thread that may take the section, the count is its own. -/
theorem Quiet.count {s : LockState T} (hq : Quiet s) {t : T}
    (hown : s.threadLock = none ∨ s.threadLock = some t) :
    s.lockCount = s.held t ∧ ∀ u, u ≠ t → s.held u = 0 := by
  rcases hq with ⟨-, hc, hheld⟩ | ⟨u, hu, -, hc, hheld⟩
  · -- a free section has no holder
    exact ⟨by simp [hc, hheld t], fun u _ => hheld u⟩
  · have hut : u = t := by simpa [hu] using hown
    subst hut
    exact ⟨hc, hheld⟩

theorem held_update_other {s : LockState T} {t : T} (h : ∀ u, u ≠ t → s.held u = 0) (n : ℕ)
    (u : T) (hu : u ≠ t) : Function.update s.held t n u = 0 := by
  rw [Function.update_of_ne hu]
  exact h u hu

omit [DecidableEq T] in
/-- What is known of the words where `t` is in the critical region. -/
theorem LockInv.words {s : LockState T} (hi : LockInv s) {t : T} {p : Pc} (hpc : s.pc t = p)
    (hp : p.critical) : (s.pc t).critical ∧ CritOk s t p := by
  subst hpc
  exact ⟨hp, hi.crit t hp⟩

/-- A failing exchange of a call that locks, whatever it leads to. -/
theorem LockInv.retry {s : LockState T} (hi : LockInv s) {t : T} {c : LockCall}
    (hpc : s.pc t = .cas c) (p : Pc) (hp : p = .idle ∨ ∃ c', p = .cas c') :
    LockInv (s.goto t p) := by
  have hout : ¬ (s.pc t).critical := by simp [hpc, Pc.critical]
  rcases hp with rfl | ⟨c', rfl⟩
  · exact hi.outside t _ hout (by simp [Pc.critical]) (by simp) (by simp [Pc.unlocking])
  · exact hi.outside t _ hout (by simp [Pc.critical]) (by simp) (by simp [Pc.unlocking])

/-- The owner is read: the section is free, or the next access compares the owner. -/
theorem LockInv.readOwner {s : LockState T} (hi : LockInv s) {t : T} {c : LockCall}
    (hpc : s.pc t = .readOwner c) :
    LockInv (s.goto t (if s.threadLock = none then .setOwner c else .rereadOwner c)) := by
  obtain ⟨hcrit, hq⟩ := hi.words hpc trivial
  have hq : Quiet s := hq
  split_ifs with hnone
  · exact hi.inside t _ s.threadLock s.lockCount hcrit trivial (by simp) ⟨hq, Or.inl hnone⟩
      (fun h => h.elim)
  · exact hi.inside t _ s.threadLock s.lockCount hcrit trivial (by simp) ⟨hq, hnone⟩
      (fun h => h.elim)

theorem LockInv.rereadOwner {s : LockState T} (hi : LockInv s) {t : T} {c : LockCall}
    (hpc : s.pc t = .rereadOwner c) :
    LockInv (s.goto t (if s.threadLock = some t then .setOwner c else .backOff c)) := by
  obtain ⟨hcrit, hok⟩ := hi.words hpc trivial
  obtain ⟨hq, hsome⟩ : Quiet s ∧ s.threadLock ≠ none := hok
  split_ifs with hown
  · exact hi.inside t _ s.threadLock s.lockCount hcrit trivial (by simp) ⟨hq, Or.inr hown⟩
      (fun h => h.elim)
  · exact hi.inside t _ s.threadLock s.lockCount hcrit trivial (by simp) ⟨hq, hsome, hown⟩
      (fun h => h.elim)

/-- A section of another thread is left as it was found. -/
theorem LockInv.backOff {s : LockState T} (hi : LockInv s) {t : T} {c : LockCall}
    (hpc : s.pc t = .backOff c) (p : Pc) (hp : p = .idle ∨ ∃ c', p = .cas c') :
    LockInv { s.goto t p with internalLock := false } := by
  obtain ⟨hcrit, hok⟩ := hi.words hpc trivial
  obtain ⟨hq, -⟩ : Quiet s ∧ s.threadLock ≠ none ∧ s.threadLock ≠ some t := hok
  have hq' : Quiet { s.goto t p with internalLock := false } := hq.congr rfl rfl rfl
  rcases hp with rfl | ⟨c', rfl⟩
  · exact hi.exit t _ s.held hcrit (by simp [Pc.critical]) (by simp) (by simp [Pc.unlocking])
      (fun _ _ => rfl) hq'
  · exact hi.exit t _ s.held hcrit (by simp [Pc.critical]) (by simp) (by simp [Pc.unlocking])
      (fun _ _ => rfl) hq'

theorem LockInv.setOwner {s : LockState T} (hi : LockInv s) {t : T} {c : LockCall}
    (hpc : s.pc t = .setOwner c) :
    LockInv { s.goto t (.incCount c) with threadLock := some t } := by
  obtain ⟨hcrit, hok⟩ := hi.words hpc trivial
  obtain ⟨hq, hown⟩ : Quiet s ∧ (s.threadLock = none ∨ s.threadLock = some t) := hok
  obtain ⟨hc, hheld⟩ := hq.count hown
  exact hi.inside t _ (some t) s.lockCount hcrit trivial (by simp) ⟨rfl, hc, hheld⟩
    (fun h => h.elim)

theorem LockInv.incCount {s : LockState T} (hi : LockInv s) {t : T} {c : LockCall}
    (hpc : s.pc t = .incCount c) :
    LockInv { s.goto t (.leave c) with lockCount := scIntWrap (s.lockCount+1) } := by
  obtain ⟨hcrit, hok⟩ := hi.words hpc trivial
  obtain ⟨hown, hc, hheld⟩ : s.threadLock = some t ∧ s.lockCount = s.held t ∧
      ∀ u, u ≠ t → s.held u = 0 := hok
  exact hi.inside t _ s.threadLock _ hcrit trivial (by simp) ⟨hown, by rw [hc]; rfl, hheld⟩
    (fun h => h.elim)

/-- The lock is taken: one acquisition more, which the count has already. -/
theorem LockInv.leave {s : LockState T} (hi : LockInv s) {t : T} {c : LockCall}
    (hpc : s.pc t = .leave c) (hb : s.held t+1 < 2147483648) :
    LockInv { s.goto t .idle with
      internalLock := false, held := Function.update s.held t (s.held t+1) } := by
  obtain ⟨hcrit, hok⟩ := hi.words hpc trivial
  obtain ⟨hown, hc, hheld⟩ : s.threadLock = some t ∧ s.lockCount = scIntWrap (s.held t+1) ∧
      ∀ u, u ≠ t → s.held u = 0 := hok
  have hcount : s.lockCount = ((s.held t+1 : ℕ) : ℤ) := by
    rw [hc, scIntWrap_of_small _ (by omega) (by omega)]
    push_cast
    rfl
  refine hi.exit t _ _ hcrit (by simp [Pc.critical]) (by simp) (by simp [Pc.unlocking])
    (fun u hu => Function.update_of_ne hu _ _) (Or.inr ⟨t, hown, ?_⟩)
  exact ⟨by simp, by simpa [LockState.goto] using hcount, held_update_other hheld _⟩

/-- The assertion of `unlock` holds: who has an acquisition is the owner. -/
theorem LockInv.assertOwner {s : LockState T} (hi : LockInv s) {t : T}
    (hpc : s.pc t = .assertOwner) :
    s.threadLock = some t ∧ LockInv (s.goto t .decCount) := by
  have hp : 0 < s.held t := hi.unlocking t (by simp [hpc, Pc.unlocking])
  obtain ⟨hcrit, hq⟩ := hi.words hpc trivial
  have hq : Quiet s := hq
  have hown := hq.owner hp
  exact ⟨hown, hi.inside t _ s.threadLock s.lockCount hcrit trivial (by simp) ⟨hq, hown⟩
    (fun _ => hp)⟩

theorem LockInv.decCount {s : LockState T} (hi : LockInv s) {t : T} (hpc : s.pc t = .decCount)
    (hb : s.held t < 2147483648) :
    LockInv { s.goto t (if scIntWrap (s.lockCount-1) = 0 then .clearOwner else .unlockLeave) with
      lockCount := scIntWrap (s.lockCount-1) } := by
  have hp : 0 < s.held t := hi.unlocking t (by simp [hpc, Pc.unlocking])
  obtain ⟨hcrit, hok⟩ := hi.words hpc trivial
  obtain ⟨hq, hown⟩ : Quiet s ∧ s.threadLock = some t := hok
  obtain ⟨hc, hheld⟩ := hq.count (Or.inr hown)
  have hw : scIntWrap (s.lockCount-1) = (s.held t : ℤ)-1 := by
    rw [hc]
    exact scIntWrap_of_small _ (by omega) (by omega)
  rw [hw]
  split_ifs with hzero
  · -- the last acquisition
    have hone : s.held t = 1 := by omega
    exact hi.inside t _ s.threadLock _ hcrit trivial (by simp) ⟨hzero, hone, hheld⟩ (fun _ => hp)
  · have hmany : 1 < s.held t := by omega
    exact hi.inside t _ s.threadLock _ hcrit trivial (by simp)
      ⟨hheld, Or.inr ⟨hmany, hown, rfl⟩⟩ (fun _ => hp)

theorem LockInv.clearOwner {s : LockState T} (hi : LockInv s) {t : T}
    (hpc : s.pc t = .clearOwner) :
    LockInv { s.goto t .unlockLeave with threadLock := none } := by
  have hp : 0 < s.held t := hi.unlocking t (by simp [hpc, Pc.unlocking])
  obtain ⟨hcrit, hok⟩ := hi.words hpc trivial
  obtain ⟨hc, hone, hheld⟩ : s.lockCount = 0 ∧ s.held t = 1 ∧ ∀ u, u ≠ t → s.held u = 0 := hok
  exact hi.inside t _ none s.lockCount hcrit trivial (by simp) ⟨hheld, Or.inl ⟨hone, rfl, hc⟩⟩
    (fun _ => hp)

/-- One acquisition is given back: the section is free, or still the thread's own. -/
theorem LockInv.unlockLeave {s : LockState T} (hi : LockInv s) {t : T}
    (hpc : s.pc t = .unlockLeave) :
    LockInv { s.goto t .idle with
      internalLock := false, held := Function.update s.held t (s.held t-1) } := by
  obtain ⟨hcrit, hok⟩ := hi.words hpc trivial
  obtain ⟨hheld, hcase⟩ : (∀ u, u ≠ t → s.held u = 0) ∧
      ((s.held t = 1 ∧ s.threadLock = none ∧ s.lockCount = 0) ∨
        (1 < s.held t ∧ s.threadLock = some t ∧ s.lockCount = s.held t-1)) := hok
  refine hi.exit t _ _ hcrit (by simp [Pc.critical]) (by simp) (by simp [Pc.unlocking])
    (fun u hu => Function.update_of_ne hu _ _) ?_
  have hother := held_update_other hheld (s.held t-1)
  rcases hcase with ⟨hone, hnone, hc⟩ | ⟨hmany, hown, hc⟩
  · refine Or.inl ⟨hnone, hc, ?_⟩
    intro u
    by_cases hu : u = t
    · simp [hu, hone]
    · exact hother u hu
  · have hcount : s.lockCount = ((s.held t-1 : ℕ) : ℤ) := by omega
    exact Or.inr ⟨t, hown, by simpa using hmany,
      by simpa [LockState.goto] using hcount, hother⟩

/-- One access keeps the invariant, as long as no thread holds 2^31 acquisitions. -/
theorem LockInv.advance {s s' : LockState T} (hi : LockInv s) (t : T) (r : Option Bool)
    (hb : ∀ u, s'.held u < 2147483648) (h : advance s t = some (r, s')) : LockInv s' := by
  unfold SectionLock.advance at h
  cases hpc : s.pc t with
  | idle => simp [hpc] at h
  | aborted => simp [hpc] at h
  | cas c =>
    rw [hpc] at h
    simp only at h
    split_ifs at h with hfree
    · simp only [Option.some.injEq, Prod.mk.injEq] at h
      obtain ⟨-, rfl⟩ := h
      exact hi.enter t _ hfree trivial (by simp) id (fun h => h.elim)
    · cases c with
      | lock =>
        simp only [Option.some.injEq, Prod.mk.injEq] at h
        exact h.2 ▸ hi
      | lockTry maxAttempts attempts =>
        simp only at h
        split_ifs at h <;> simp only [Option.some.injEq, Prod.mk.injEq] at h <;> obtain ⟨-, rfl⟩ := h
        · exact hi.retry hpc _ (Or.inl rfl)
        · exact hi.retry hpc _ (Or.inr ⟨_, rfl⟩)
  | readOwner c =>
    simp only [hpc, Option.some.injEq, Prod.mk.injEq] at h
    exact h.2 ▸ hi.readOwner hpc
  | rereadOwner c =>
    simp only [hpc, Option.some.injEq, Prod.mk.injEq] at h
    exact h.2 ▸ hi.rereadOwner hpc
  | backOff c =>
    cases c with
    | lock =>
      simp only [hpc, Option.some.injEq, Prod.mk.injEq] at h
      exact h.2 ▸ hi.backOff hpc _ (Or.inr ⟨_, rfl⟩)
    | lockTry maxAttempts attempts =>
      simp only [hpc] at h
      split_ifs at h <;> simp only [Option.some.injEq, Prod.mk.injEq] at h <;> obtain ⟨-, rfl⟩ := h
      · exact hi.backOff hpc _ (Or.inl rfl)
      · exact hi.backOff hpc _ (Or.inr ⟨_, rfl⟩)
  | setOwner c =>
    simp only [hpc, Option.some.injEq, Prod.mk.injEq] at h
    exact h.2 ▸ hi.setOwner hpc
  | incCount c =>
    simp only [hpc, Option.some.injEq, Prod.mk.injEq] at h
    exact h.2 ▸ hi.incCount hpc
  | leave c =>
    simp only [hpc, Option.some.injEq, Prod.mk.injEq] at h
    obtain ⟨-, rfl⟩ := h
    exact hi.leave hpc (by simpa using hb t)
  | unlockCas =>
    have hp : 0 < s.held t := hi.unlocking t (by simp [hpc, Pc.unlocking])
    simp only [hpc] at h
    split_ifs at h with hfree
    · simp only [Option.some.injEq, Prod.mk.injEq] at h
      obtain ⟨-, rfl⟩ := h
      exact hi.enter t _ hfree trivial (by simp) id (fun _ => hp)
    · simp only [Option.some.injEq, Prod.mk.injEq] at h
      exact h.2 ▸ hi
  | assertOwner =>
    obtain ⟨hown, hinv⟩ := hi.assertOwner hpc
    simp only [hpc, hown, if_true, Option.some.injEq, Prod.mk.injEq] at h
    exact h.2 ▸ hinv
  | decCount =>
    simp only [hpc, Option.some.injEq, Prod.mk.injEq] at h
    obtain ⟨-, rfl⟩ := h
    exact hi.decCount hpc (hb t)
  | clearOwner =>
    simp only [hpc, Option.some.injEq, Prod.mk.injEq] at h
    exact h.2 ▸ hi.clearOwner hpc
  | unlockLeave =>
    simp only [hpc, Option.some.injEq, Prod.mk.injEq] at h
    exact h.2 ▸ hi.unlockLeave hpc

theorem LockInv.step {s s' : LockState T} (hi : LockInv s) (e : LockEvent T)
    (hb : ∀ u, s'.held u < 2147483648) (h : LockStep s e s') : LockInv s' := by
  cases h with
  | callLock t hidle =>
    exact hi.outside t _ (by simp [hidle, Pc.critical]) (by simp [Pc.critical]) (by simp)
      (by simp [Pc.unlocking])
  | callLockTry t maxAttempts hidle =>
    exact hi.outside t _ (by simp [hidle, Pc.critical]) (by simp [Pc.critical]) (by simp)
      (by simp [Pc.unlocking])
  | callUnlock t hidle hheld =>
    exact hi.outside t _ (by simp [hidle, Pc.critical]) (by simp [Pc.critical]) (by simp)
      (fun _ => hheld)
  | access s' t h => exact hi.advance t none hb h
  | returned s' t result h => exact hi.advance t (some result) hb h

/-- Whatever the place of the critical thread, at most one thread has acquisitions. -/
theorem LockInv.exclusive {s : LockState T} (hi : LockInv s) (t u : T) (ht : 0 < s.held t)
    (hu : 0 < s.held u) : t = u := by
  have hsole (c : T) (h0 : ∀ v, v ≠ c → s.held v = 0) : t = u := by
    have heq (v : T) (hv : 0 < s.held v) : v = c := by
      by_contra h
      exact hv.ne' (h0 v h)
    rw [heq t ht, heq u hu]
  have hquiet (h : Quiet s) : t = u := by
    rcases h with ⟨-, -, h0⟩ | ⟨c, -, -, -, h0⟩
    · exact absurd (h0 t) ht.ne'
    · exact hsole c h0
  cases hl : s.internalLock with
  | false => exact hquiet (hi.quiet hl)
  | true =>
    obtain ⟨c, hc⟩ := hi.locked.1 hl
    have hok := hi.crit c hc
    cases hpc : s.pc c with
    | idle => simp [hpc, Pc.critical] at hc
    | cas _ => simp [hpc, Pc.critical] at hc
    | unlockCas => simp [hpc, Pc.critical] at hc
    | aborted => simp [hpc, Pc.critical] at hc
    | readOwner _ => exact hquiet (by simpa only [hpc, CritOk] using hok)
    | rereadOwner _ => exact hquiet (hpc ▸ hok).1
    | backOff _ => exact hquiet (hpc ▸ hok).1
    | setOwner _ => exact hquiet (hpc ▸ hok).1
    | incCount _ => exact hsole c (hpc ▸ hok).2.2
    | leave _ => exact hsole c (hpc ▸ hok).2.2
    | assertOwner => exact hquiet (by simpa only [hpc, CritOk] using hok)
    | decCount => exact hquiet (hpc ▸ hok).1
    | clearOwner => exact hsole c (hpc ▸ hok).2.2
    | unlockLeave => exact hsole c (hpc ▸ hok).1

def LockEvent.thread : LockEvent T → T
  | .callLock t | .callLockTry t _ | .callUnlock t | .access t | .returned t _ => t

theorem advance_pc_other {s s' : LockState T} {t u : T} {r : Option Bool} (hne : t ≠ u)
    (h : advance s u = some (r, s')) : s'.pc t = s.pc t := by
  have hgoto (p : Pc) : (s.goto u p).pc t = s.pc t := Function.update_of_ne hne _ _
  unfold advance at h
  cases hpc : s.pc u with
  | idle => simp [hpc] at h
  | aborted => simp [hpc] at h
  | cas c =>
    cases c <;> simp only [hpc] at h <;> split_ifs at h <;>
      simp only [Option.some.injEq, Prod.mk.injEq] at h <;> rw [← h.2]
    all_goals first | rfl | exact hgoto _
  | backOff c =>
    cases c <;> simp only [hpc] at h
    · simp only [Option.some.injEq, Prod.mk.injEq] at h
      rw [← h.2]
      exact hgoto _
    · split_ifs at h <;> simp only [Option.some.injEq, Prod.mk.injEq] at h <;> rw [← h.2] <;>
        exact hgoto _
  | unlockCas =>
    simp only [hpc] at h
    split_ifs at h <;> simp only [Option.some.injEq, Prod.mk.injEq] at h <;> rw [← h.2]
    exact hgoto _
  | _ =>
    simp only [hpc, Option.some.injEq, Prod.mk.injEq] at h
    rw [← h.2]
    exact hgoto _

theorem step_pc_other {s s' : LockState T} {e : LockEvent T} {t : T} (hne : e.thread ≠ t)
    (h : LockStep s e s') : s'.pc t = s.pc t := by
  cases h with
  | callLock u _ => exact Function.update_of_ne (Ne.symm hne) _ _
  | callLockTry u _ _ => exact Function.update_of_ne (Ne.symm hne) _ _
  | callUnlock u _ _ => exact Function.update_of_ne (Ne.symm hne) _ _
  | access s' u h => exact advance_pc_other (Ne.symm hne) h
  | returned s' u r h => exact advance_pc_other (Ne.symm hne) h

/-- `lock_try` has not decided to take the section yet, or it has. -/
def Pc.trying : Pc → Prop
  | .cas (.lockTry _ _) | .readOwner (.lockTry _ _) | .rereadOwner (.lockTry _ _)
  | .backOff (.lockTry _ _) => True
  | _ => False

def Pc.taking : Pc → Prop
  | .setOwner _ | .incCount _ | .leave _ => True
  | _ => False

/-- From the decision on, `lock_try` goes straight to its `return SC_TRUE`. -/
theorem taking_step {s s' : LockState T} {e : LockEvent T} {t : T} (ht : (s.pc t).taking)
    (h : LockStep s e s') (hne : ∀ r, e ≠ .returned t r) : (s'.pc t).taking := by
  by_cases het : e.thread = t
  · cases h with
    | callLock u hidle => simp [show t = u from het.symm, hidle, Pc.taking] at ht
    | callLockTry u _ hidle => simp [show t = u from het.symm, hidle, Pc.taking] at ht
    | callUnlock u hidle _ => simp [show t = u from het.symm, hidle, Pc.taking] at ht
    | returned s' u r h => exact absurd (congrArg (LockEvent.returned · r) het) (hne r)
    | access s' u h =>
      obtain rfl : u = t := het
      unfold advance at h
      cases hpc : s.pc u <;> simp only [hpc, Pc.taking] at ht
      all_goals
        simp only [hpc, Option.some.injEq, Prod.mk.injEq, reduceCtorEq, false_and] at h
        try rw [← h.2]
        try simp [LockState.goto, Pc.taking]
  · rw [step_pc_other het h]
    exact ht

/-- Before the decision, no access of `lock_try` writes the two words. -/
theorem trying_advance {s s' : LockState T} {t : T} {r : Option Bool} (ht : (s.pc t).trying)
    (h : advance s t = some (r, s')) :
    s'.threadLock = s.threadLock ∧ s'.lockCount = s.lockCount ∧
      (r = none → (s'.pc t).trying ∨ (s'.pc t).taking) := by
  have hgoto (p : Pc) : (s.goto t p).pc t = p := Function.update_self ..
  unfold advance at h
  cases hpc : s.pc t with
  | cas c =>
    rw [hpc] at h ht
    cases c with
    | lock => exact ht.elim
    | lockTry maxAttempts attempts =>
      simp only at h
      split_ifs at h
      · simp only [Option.some.injEq, Prod.mk.injEq] at h
        rw [← h.2]
        exact ⟨rfl, rfl, fun _ => Or.inl (by simp only [hgoto]; trivial)⟩
      · simp only [Option.some.injEq, Prod.mk.injEq] at h
        rw [← h.1, ← h.2]
        exact ⟨rfl, rfl, fun h => by simp at h⟩
      · simp only [Option.some.injEq, Prod.mk.injEq] at h
        rw [← h.2]
        exact ⟨rfl, rfl, fun _ => Or.inl (by simp only [hgoto]; trivial)⟩
  | readOwner c =>
    simp only [hpc, Option.some.injEq, Prod.mk.injEq] at h
    rw [hpc] at ht
    rw [← h.2, hgoto]
    refine ⟨rfl, rfl, fun _ => ?_⟩
    split_ifs
    · exact Or.inr trivial
    · cases c with
      | lock => exact ht.elim
      | lockTry _ _ => exact Or.inl trivial
  | rereadOwner c =>
    simp only [hpc, Option.some.injEq, Prod.mk.injEq] at h
    rw [hpc] at ht
    rw [← h.2, hgoto]
    refine ⟨rfl, rfl, fun _ => ?_⟩
    split_ifs
    · exact Or.inr trivial
    · cases c with
      | lock => exact ht.elim
      | lockTry _ _ => exact Or.inl trivial
  | backOff c =>
    rw [hpc] at h ht
    cases c with
    | lock => exact ht.elim
    | lockTry maxAttempts attempts =>
      simp only at h
      split_ifs at h
      · simp only [Option.some.injEq, Prod.mk.injEq] at h
        rw [← h.1, ← h.2]
        exact ⟨rfl, rfl, fun h => by simp at h⟩
      · simp only [Option.some.injEq, Prod.mk.injEq] at h
        rw [← h.2]
        exact ⟨rfl, rfl, fun _ => Or.inl (by simp only [hgoto]; trivial)⟩
  | _ =>
    rw [hpc] at ht
    exact ht.elim

theorem trying_step {s s' : LockState T} {e : LockEvent T} {t : T} (ht : (s.pc t).trying)
    (h : LockStep s e s') (hne : ∀ r, e ≠ .returned t r) :
    (s'.pc t).trying ∨ (s'.pc t).taking := by
  by_cases het : e.thread = t
  · cases h with
    | callLock u hidle => simp [show t = u from het.symm, hidle, Pc.trying] at ht
    | callLockTry u _ hidle => simp [show t = u from het.symm, hidle, Pc.trying] at ht
    | callUnlock u hidle _ => simp [show t = u from het.symm, hidle, Pc.trying] at ht
    | returned s' u r h => exact absurd (congrArg (LockEvent.returned · r) het) (hne r)
    | access s' u h =>
      obtain rfl : u = t := het
      exact (trying_advance ht h).2.2 rfl
  · rw [step_pc_other het h]
    exact Or.inl ht

/-- For thread `t`, `evs` is what is left of a call that returns `SC_FALSE`. -/
def EndsInFalse (t : T) (evs : List (LockEvent T)) : Prop :=
  ∃ mid, evs = mid ++ [.returned t false] ∧ ∀ r, .returned t r ∉ mid

omit [DecidableEq T] in
theorem EndsInFalse.of_cons {t : T} {e : LockEvent T} {evs : List (LockEvent T)}
    (h : EndsInFalse t (e :: evs)) :
    (e = .returned t false ∧ evs = []) ∨ ((∀ r, e ≠ .returned t r) ∧ EndsInFalse t evs) := by
  obtain ⟨mid, heq, hmid⟩ := h
  cases mid with
  | nil =>
    simp only [List.nil_append, List.cons.injEq] at heq
    exact Or.inl heq
  | cons e' mid =>
    simp only [List.cons_append, List.cons.injEq] at heq
    obtain ⟨rfl, rfl⟩ := heq
    refine Or.inr ⟨?_, mid, rfl, ?_⟩
    · intro r hr
      exact hmid r (hr ▸ List.mem_cons_self)
    · intro r hr
      exact hmid r (List.mem_cons_of_mem _ hr)

/-- A call that has decided to take the section does not return `SC_FALSE`. -/
theorem taking_not_false {s s' : LockState T} {evs : List (LockEvent T)} {t : T}
    (ht : (s.pc t).taking) (hr : Run LockStep s evs s') : ¬ EndsInFalse t evs := by
  induction evs generalizing s with
  | nil =>
    rintro ⟨mid, heq, -⟩
    simp at heq
  | cons e evs ih =>
    intro hf
    obtain ⟨m, hs, hr⟩ := hr
    rcases hf.of_cons with ⟨rfl, -⟩ | ⟨hne, hf⟩
    · cases hs with
      | returned _ _ _ h =>
        unfold advance at h
        cases hpc : s.pc t <;> rw [hpc] at h ht <;> simp [Pc.taking] at ht h
    · exact ih (taking_step ht hs hne) hr hf

/-- So every access of a call that returns `SC_FALSE` leaves the two words as they were. -/
theorem trying_run_frame {s a b s' : LockState T} {p q : List (LockEvent T)} {e : LockEvent T}
    {t : T} (ht : (s.pc t).trying) (hp : Run LockStep s p a) (he : LockStep a e b)
    (hq : Run LockStep b q s') (hf : EndsInFalse t (p ++ e :: q)) (het : e.thread = t) :
    b.threadLock = a.threadLock ∧ b.lockCount = a.lockCount := by
  induction p generalizing s with
  | nil =>
    obtain rfl : a = s := hp
    cases he with
    | callLock u hidle => simp [show t = u from het.symm, hidle, Pc.trying] at ht
    | callLockTry u _ hidle => simp [show t = u from het.symm, hidle, Pc.trying] at ht
    | callUnlock u hidle _ => simp [show t = u from het.symm, hidle, Pc.trying] at ht
    | access s' u h =>
      obtain rfl : u = t := het
      exact ⟨(trying_advance ht h).1, (trying_advance ht h).2.1⟩
    | returned s' u r h =>
      obtain rfl : u = t := het
      exact ⟨(trying_advance ht h).1, (trying_advance ht h).2.1⟩
  | cons e' p ih =>
    obtain ⟨m, hs, hp⟩ := hp
    rw [List.cons_append] at hf
    rcases hf.of_cons with ⟨-, hnil⟩ | ⟨hne, hf⟩
    · simp at hnil
    · rcases trying_step ht hs hne with htry | htake
      · exact ih htry hp hf
      · have hrun : Run LockStep m (p ++ e :: q) s' := by
          rw [run_append]
          exact ⟨a, hp, b, he, hq⟩
        exact absurd hf (taking_not_false htake hrun)

/-- A step after which every thread has fewer than 2^31 acquisitions, the range of the
`sc_int` that counts them. -/
def CountedStep (s : LockState T) (e : LockEvent T) (s' : LockState T) : Prop :=
  LockStep s e s' ∧ ∀ u, s'.held u < 2147483648

theorem lockInv_run (evs : List (LockEvent T)) (s : LockState T)
    (hr : Run CountedStep (LockState.initial T) evs s) : LockInv s :=
  run_invariant LockInv (fun _ e _ hi hs => hi.step e hs.2 hs.1) evs _ s lockInv_initial hr

/-- For any number of threads and any interleaving. -/
theorem section_lock_correct (evs : List (LockEvent T)) (s : LockState T)
    (hr : Run CountedStep (LockState.initial T) evs s) :
    (∀ t u, 0 < s.held t → 0 < s.held u → t = u) ∧
    (s.internalLock = false →
      (s.threadLock ≠ none ↔ ∃ t, 0 < s.held t) ∧
      (∀ t, s.threadLock = some t → 0 < s.held t ∧ s.lockCount = s.held t) ∧
      (s.threadLock = none → s.lockCount = 0)) ∧
    (∀ t, s.pc t ≠ .aborted) ∧
    (∀ t maxAttempts s1 p a e b q s2, LockStep s (.callLockTry t maxAttempts) s1 →
      Run LockStep s1 p a → LockStep a e b → Run LockStep b q s2 →
      EndsInFalse t (p ++ e :: q) → e.thread = t →
      b.threadLock = a.threadLock ∧ b.lockCount = a.lockCount) := by
  have hi := lockInv_run evs s hr
  refine ⟨hi.exclusive, ?_, hi.notAborted, ?_⟩
  · intro hfree
    rcases hi.quiet hfree with ⟨hnone, hc, h0⟩ | ⟨o, hown, hpos, hc, -⟩
    · exact ⟨by simp [hnone, h0], by simp [hnone], fun _ => hc⟩
    · refine ⟨?_, ?_, by simp [hown]⟩
      · exact ⟨fun _ => ⟨o, hpos⟩, fun _ => by simp [hown]⟩
      · intro t ht
        obtain rfl : o = t := by simpa [hown] using ht
        exact ⟨hpos, hc⟩
  · intro t maxAttempts s1 p a e b q s2 hcall hp he hq hf het
    have htry : (s1.pc t).trying := by
      cases hcall with
      | callLockTry _ _ hidle =>
        have hpc : (s.goto t (.cas (.lockTry maxAttempts 0))).pc t = .cas (.lockTry maxAttempts 0) :=
          Function.update_self ..
        rw [hpc]
        trivial
    exact trying_run_frame htry hp he hq hf het

/-- The accesses of one `sc_segment_section_lock` call on a free section, and on one that the
caller owns already. -/
def acquireFree (t : T) : List (LockEvent T) :=
  [.callLock t, .access t, .access t, .access t, .access t, .returned t true]

def acquireOwned (t : T) : List (LockEvent T) :=
  [.callLock t, .access t, .access t, .access t, .access t, .access t, .returned t true]

def LockState.acquired (s : LockState T) (t : T) : LockState T :=
  { s with
    threadLock := some t
    lockCount := scIntWrap (s.lockCount+1)
    held := Function.update s.held t (s.held t+1) }

/-- Thread `t` alone in the critical region, about to make access `p`. -/
def LockState.inside (s : LockState T) (t : T) (p : Pc) (owner : Option T) (n : ℤ) : LockState T :=
  ⟨true, owner, n, Function.update s.pc t p, s.held⟩

theorem inside_step (s : LockState T) (t : T) (p q : Pc) (o o' : Option T) (n n' : ℤ)
    (h : advance (s.inside t p o n) t = some (none, { (s.inside t p o n).goto t q with
      threadLock := o', lockCount := n' })) :
    LockStep (s.inside t p o n) (.access t) (s.inside t q o' n') := by
  apply LockStep.access
  rw [h]
  simp [LockState.inside, LockState.goto]

theorem enter_step (s : LockState T) (t : T) (hfree : s.internalLock = false) :
    LockStep (s.goto t (.cas .lock)) (.access t)
      (s.inside t (.readOwner .lock) s.threadLock s.lockCount) := by
  apply LockStep.access
  simp [advance, LockState.goto, LockState.inside, hfree]

/-- From `setOwner` on, the call writes both words and returns. -/
theorem take_run (s : LockState T) (t : T) (o : Option T) (hidle : s.pc t = .idle)
    (hfree : s.internalLock = false) :
    Run LockStep (s.inside t (.setOwner .lock) o s.lockCount)
      [.access t, .access t, .returned t true] (s.acquired t) := by
  refine ⟨_, inside_step s t _ (.incCount .lock) _ (some t) _ s.lockCount ?_,
    _, inside_step s t _ (.leave .lock) _ (some t) _ (scIntWrap (s.lockCount+1)) ?_,
    s.acquired t, ?_, rfl⟩
  · simp [advance, LockState.inside, LockState.goto]
  · simp [advance, LockState.inside, LockState.goto]
  · apply LockStep.returned
    simp [advance, LockState.inside, LockState.goto, LockState.acquired, hfree, ← hidle]

theorem acquireFree_run (s : LockState T) (t : T) (hidle : s.pc t = .idle)
    (hfree : s.internalLock = false) (hown : s.threadLock = none) :
    Run LockStep s (acquireFree t) (s.acquired t) := by
  refine ⟨_, .callLock s t hidle, _, enter_step s t hfree, ?_⟩
  refine ⟨_, inside_step s t _ (.setOwner .lock) _ s.threadLock _ s.lockCount ?_,
    take_run s t _ hidle hfree⟩
  simp [advance, LockState.inside, LockState.goto, hown]

theorem acquireOwned_run (s : LockState T) (t : T) (hidle : s.pc t = .idle)
    (hfree : s.internalLock = false) (hown : s.threadLock = some t) :
    Run LockStep s (acquireOwned t) (s.acquired t) := by
  refine ⟨_, .callLock s t hidle, _, enter_step s t hfree, ?_⟩
  refine ⟨_, inside_step s t _ (.rereadOwner .lock) _ s.threadLock _ s.lockCount ?_,
    _, inside_step s t _ (.setOwner .lock) _ s.threadLock _ s.lockCount ?_,
    take_run s t _ hidle hfree⟩
  · simp [advance, LockState.inside, LockState.goto, hown]
  · simp [advance, LockState.inside, LockState.goto, hown]

/-- `n + 1` nested acquisitions of one thread. -/
def acquireMany (t : T) : ℕ → List (LockEvent T)
  | 0 => acquireFree t
  | n + 1 => acquireMany t n ++ acquireOwned t

/-- The state after them, with the 32-bit count. -/
def LockState.nested (t : T) (n : ℕ) : LockState T :=
  { LockState.initial T with
    threadLock := some t
    lockCount := scIntWrap n
    held := Function.update (fun _ => 0) t n }

theorem acquireMany_run (t : T) (n m : ℕ) (hm : m = n+1) :
    Run LockStep (LockState.initial T) (acquireMany t n) (LockState.nested t m) := by
  subst hm
  induction n with
  | zero => exact acquireFree_run (LockState.initial T) t rfl rfl rfl
  | succ n ih =>
    rw [acquireMany, run_append]
    refine ⟨_, ih, ?_⟩
    have hnext : (LockState.nested t (n+1)).acquired t = LockState.nested t (n+1+1) := by
      have hwrap : scIntWrap (scIntWrap ((n+1 : ℕ) : ℤ)+1) = scIntWrap ((n+1+1 : ℕ) : ℤ) := by
        unfold scIntWrap
        omega
      simp only [LockState.acquired, LockState.nested, hwrap, Function.update_self,
        Function.update_idem]
    rw [← hnext]
    exact acquireOwned_run (LockState.nested t (n+1)) t rfl rfl rfl

attribute [irreducible] acquireMany

/-- After 2^31 nested acquisitions the count is negative. -/
theorem nested_acquisitions_overflow :
    Run LockStep (LockState.initial Unit) (acquireMany () 2147483647)
      (LockState.nested () 2147483648) ∧
    (LockState.nested () 2147483648).internalLock = false ∧
    (LockState.nested () 2147483648).threadLock = some () ∧
    (LockState.nested () 2147483648).held () = 2147483648 ∧
    (LockState.nested () 2147483648).lockCount = -2147483648 := by
  refine ⟨?_, rfl, rfl, by simp only [LockState.nested, Function.update_self], ?_⟩
  · exact acquireMany_run () 2147483647 2147483648 (by omega)
  · simp only [LockState.nested, scIntWrap, Nat.cast_ofNat]
    decide

theorem advance_held_le {s s' : LockState T} {t : T} {r : Option Bool}
    (h : advance s t = some (r, s')) (u : T) : s'.held u ≤ s.held u+1 := by
  have hupdate (n : ℕ) (hn : n ≤ s.held t+1) : Function.update s.held t n u ≤ s.held u+1 := by
    by_cases hu : u = t
    · subst hu
      simpa using hn
    · simp [Function.update_of_ne hu]
  unfold advance at h
  cases hpc : s.pc t with
  | idle => simp [hpc] at h
  | aborted => simp [hpc] at h
  | cas c =>
    cases c <;> simp only [hpc] at h <;> split_ifs at h <;>
      simp only [Option.some.injEq, Prod.mk.injEq] at h <;> rw [← h.2] <;> exact Nat.le_succ _
  | backOff c =>
    cases c <;> simp only [hpc] at h
    · simp only [Option.some.injEq, Prod.mk.injEq] at h
      rw [← h.2]
      exact Nat.le_succ _
    · split_ifs at h <;> simp only [Option.some.injEq, Prod.mk.injEq] at h <;> rw [← h.2] <;>
        exact Nat.le_succ _
  | unlockCas =>
    simp only [hpc] at h
    split_ifs at h <;> simp only [Option.some.injEq, Prod.mk.injEq] at h <;> rw [← h.2] <;>
      exact Nat.le_succ _
  | leave c =>
    simp only [hpc, Option.some.injEq, Prod.mk.injEq] at h
    rw [← h.2]
    exact hupdate _ le_rfl
  | unlockLeave =>
    simp only [hpc, Option.some.injEq, Prod.mk.injEq] at h
    rw [← h.2]
    exact hupdate _ (by omega)
  | _ =>
    simp only [hpc, Option.some.injEq, Prod.mk.injEq] at h
    rw [← h.2]
    exact Nat.le_succ _

/-- A run of fewer than 2^31 steps stays in the range of the count. -/
theorem counted_of_short {s s' : LockState T} {evs : List (LockEvent T)}
    (hlen : ∀ u, s.held u+evs.length < 2147483648) (hr : Run LockStep s evs s') :
    Run CountedStep s evs s' := by
  induction evs generalizing s with
  | nil => exact hr
  | cons e evs ih =>
    obtain ⟨m, hs, hr⟩ := hr
    have hm (u : T) : m.held u ≤ s.held u+1 := by
      cases hs with
      | callLock t _ => exact Nat.le_succ _
      | callLockTry t _ _ => exact Nat.le_succ _
      | callUnlock t _ _ => exact Nat.le_succ _
      | access s' t h => exact advance_held_le h u
      | returned s' t r h => exact advance_held_le h u
    have hnext (u : T) : m.held u+evs.length < 2147483648 := by
      have hlu := hlen u
      have hmu := hm u
      rw [List.length_cons] at hlu
      omega
    exact ⟨m, ⟨hs, fun u => lt_of_le_of_lt (Nat.le_add_right _ _) (hnext u)⟩, ih hnext hr⟩

end

/-- One thread of two takes the section. -/
theorem section_lock_correct_two_threads :
    Run CountedStep (LockState.initial Bool) (acquireFree true)
      ((LockState.initial Bool).acquired true) ∧
    0 < ((LockState.initial Bool).acquired true).held true ∧
    ((LockState.initial Bool).acquired true).lockCount =
      ((LockState.initial Bool).acquired true).held true := by
  have hrun : Run CountedStep (LockState.initial Bool) (acquireFree true)
      ((LockState.initial Bool).acquired true) :=
    counted_of_short (fun u => by simp [LockState.initial, acquireFree])
      (acquireFree_run (LockState.initial Bool) true rfl rfl rfl)
  exact ⟨hrun, ((section_lock_correct _ _ hrun).2.1 rfl).2.1 true rfl⟩

end ScMachine.SectionLock
