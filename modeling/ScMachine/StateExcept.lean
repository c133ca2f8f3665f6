import Mathlib

/-! Weakest preconditions of computations with a state and an exception. The exceptional
postcondition tells partial correctness (`True`) from total correctness (`False`). -/
namespace ScMachine.StateExcept

section
variable {σ ε α β : Type}

/-- Run from `s`, `x` returns with `Q` or stops with `E`. -/
def Wp (x : StateT σ (Except ε) α) (Q : α → σ → Prop) (E : ε → Prop) (s : σ) : Prop :=
  match x s with
  | .ok (r, s') => Q r s'
  | .error e => E e

/-- Partial correctness: nothing is said of a run that stops. -/
abbrev IfReturns (x : StateT σ (Except ε) α) (Q : α → σ → Prop) (s : σ) : Prop :=
  Wp x Q (fun _ => True) s

theorem wp_pure (a : α) (Q : α → σ → Prop) (E : ε → Prop) (s : σ) :
    Wp (pure a) Q E s ↔ Q a s := Iff.rfl

theorem wp_get (Q : σ → σ → Prop) (E : ε → Prop) (s : σ) :
    Wp (get : StateT σ (Except ε) σ) Q E s ↔ Q s s := Iff.rfl

theorem wp_modify (f : σ → σ) (Q : PUnit → σ → Prop) (E : ε → Prop) (s : σ) :
    Wp (modify f : StateT σ (Except ε) PUnit) Q E s ↔ Q ⟨⟩ (f s) := Iff.rfl

theorem wp_throw (e : ε) (Q : α → σ → Prop) (E : ε → Prop) (s : σ) :
    Wp (throw e : StateT σ (Except ε) α) Q E s ↔ E e := Iff.rfl

theorem ok_bind (a : α) (f : α → Except ε β) : ((.ok a : Except ε α) >>= f) = f a := rfl

/-- A sequence returns when both of its parts do. -/
theorem bind_ok {x : Except ε α} {f : α → Except ε β} {r : β} (h : (x >>= f) = .ok r) :
    ∃ a, x = .ok a ∧ f a = .ok r := by
  cases x with
  | error e => cases h
  | ok a => exact ⟨a, rfl, h⟩

theorem run_bind_ok {x : StateT σ (Except ε) α} {s s' : σ} {a : α} (hx : x s = .ok (a, s'))
    (f : α → StateT σ (Except ε) β) : (x >>= f) s = f a s' := by
  have hrun : (x >>= f) s = (x s >>= fun p => f p.1 p.2) := rfl
  rw [hrun, hx]
  rfl

theorem run_bind_error {x : StateT σ (Except ε) α} {s : σ} {e : ε} (hx : x s = .error e)
    (f : α → StateT σ (Except ε) β) : (x >>= f) s = .error e := by
  have hrun : (x >>= f) s = (x s >>= fun p => f p.1 p.2) := rfl
  rw [hrun, hx]
  rfl

theorem wp_bind (x : StateT σ (Except ε) α) (f : α → StateT σ (Except ε) β) (Q : β → σ → Prop)
    (E : ε → Prop) (s : σ) :
    Wp (x >>= f) Q E s ↔ Wp x (fun a s' => Wp (f a) Q E s') E s := by
  have hrun : (x >>= f) s = (x s >>= fun p => f p.1 p.2) := rfl
  unfold Wp
  rw [hrun]
  cases x s with
  | error e => exact Iff.rfl
  | ok p => exact Iff.rfl

theorem wp_ite (c : Prop) [Decidable c] (x y : StateT σ (Except ε) α) (Q : α → σ → Prop)
    (E : ε → Prop) (s : σ) :
    Wp (if c then x else y) Q E s ↔ (c → Wp x Q E s) ∧ (¬ c → Wp y Q E s) := by
  by_cases h : c
  · simp [h]
  · simp [h]

theorem wp_mono {x : StateT σ (Except ε) α} {Q Q' : α → σ → Prop} {E E' : ε → Prop} {s : σ}
    (h : Wp x Q E s) (hQ : ∀ r s', Q r s' → Q' r s') (hE : ∀ e, E e → E' e) : Wp x Q' E' s := by
  unfold Wp at *
  cases hx : x s with
  | error e =>
    rw [hx] at h
    exact hE e h
  | ok p =>
    rw [hx] at h
    exact hQ p.1 p.2 h

theorem wp_and {x : StateT σ (Except ε) α} {Q Q' : α → σ → Prop} {E E' : ε → Prop} {s : σ}
    (h : Wp x Q E s) (h' : Wp x Q' E' s) :
    Wp x (fun r s' => Q r s' ∧ Q' r s') (fun e => E e ∧ E' e) s := by
  unfold Wp at *
  cases hx : x s with
  | error e =>
    rw [hx] at h h'
    exact ⟨h, h'⟩
  | ok p =>
    rw [hx] at h h'
    exact ⟨h, h'⟩

/-- What a precondition says of a run that returned. -/
theorem wp_ok {x : StateT σ (Except ε) α} {Q : α → σ → Prop} {E : ε → Prop} {s s' : σ} {r : α}
    (h : Wp x Q E s) (hx : x s = .ok (r, s')) : Q r s' := by
  unfold Wp at h
  rw [hx] at h
  exact h

theorem ifReturns_of_ok {x : StateT σ (Except ε) α} {Q : α → σ → Prop} {s : σ}
    (h : ∀ r s', x s = .ok (r, s') → Q r s') : IfReturns x Q s := by
  unfold IfReturns Wp
  cases hx : x s with
  | error e => trivial
  | ok p => exact h p.1 p.2 hx

/-- A computation that cannot stop returns. -/
theorem wp_returns {x : StateT σ (Except ε) α} {Q : α → σ → Prop} {s : σ}
    (h : Wp x Q (fun _ => False) s) : ∃ r s', x s = .ok (r, s') ∧ Q r s' := by
  unfold Wp at h
  cases hx : x s with
  | error e =>
    rw [hx] at h
    exact h.elim
  | ok p =>
    rw [hx] at h
    exact ⟨p.1, p.2, rfl, h⟩

theorem wp_iff_of_eq {x : StateT σ (Except ε) α} {s s' : σ} {r : α} (hx : x s = .ok (r, s'))
    (Q : α → σ → Prop) (E : ε → Prop) : Wp x Q E s ↔ Q r s' := by
  unfold Wp
  rw [hx]

theorem wp_congr {x y : StateT σ (Except ε) α} {s t : σ} (h : x s = y t) (Q : α → σ → Prop)
    (E : ε → Prop) : Wp x Q E s ↔ Wp y Q E t := by
  unfold Wp
  rw [h]

/-- Every run of `x` that returns keeps `P`. -/
def Keeps (P : σ → Prop) (x : StateT σ (Except ε) α) : Prop :=
  ∀ s, P s → IfReturns x (fun _ s' => P s') s

theorem keeps_pure (P : σ → Prop) (a : α) : Keeps P (pure a : StateT σ (Except ε) α) :=
  fun _ h => h

theorem keeps_throw (P : σ → Prop) (e : ε) : Keeps P (throw e : StateT σ (Except ε) α) :=
  fun _ _ => trivial

theorem keeps_get (P : σ → Prop) : Keeps P (get : StateT σ (Except ε) σ) :=
  fun _ h => h

theorem keeps_modify (P : σ → Prop) (f : σ → σ) (hf : ∀ s, P s → P (f s)) :
    Keeps P (modify f : StateT σ (Except ε) PUnit) :=
  fun s h => hf s h

theorem Keeps.bind {P : σ → Prop} {x : StateT σ (Except ε) α} {f : α → StateT σ (Except ε) β}
    (hx : Keeps P x) (hf : ∀ a, Keeps P (f a)) : Keeps P (x >>= f) := by
  intro s h
  rw [IfReturns, wp_bind]
  exact wp_mono (hx s h) (fun a s' hs' => hf a s' hs') (fun _ _ => trivial)

theorem Keeps.ite {P : σ → Prop} {c : Prop} [Decidable c] {x y : StateT σ (Except ε) α}
    (hx : Keeps P x) (hy : Keeps P y) : Keeps P (if c then x else y) := by
  split_ifs
  · exact hx
  · exact hy

end

end ScMachine.StateExcept
