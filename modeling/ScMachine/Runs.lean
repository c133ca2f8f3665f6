import Mathlib

/-! Runs of a labelled transition relation. -/
namespace ScMachine.Runs

/-- The labels `evs`, in order, lead from the first state to the second. -/
def Run {σ ε : Type*} (step : σ → ε → σ → Prop) : σ → List ε → σ → Prop
  | s, [], t => t = s
  | s, e :: evs, t => ∃ m, step s e m ∧ Run step m evs t

section
variable {σ ε : Type*} {step : σ → ε → σ → Prop}

theorem run_append (s t : σ) (l l' : List ε) :
    Run step s (l ++ l') t ↔ ∃ m, Run step s l m ∧ Run step m l' t := by
  induction l generalizing s with
  | nil => simp [Run]
  | cons e l ih =>
    simp only [List.cons_append, Run, ih]
    constructor
    · rintro ⟨m, hm, n, hn, ht⟩
      exact ⟨n, ⟨m, hm, hn⟩, ht⟩
    · rintro ⟨n, ⟨m, hm, hn⟩, ht⟩
      exact ⟨m, hm, n, hn, ht⟩

/-- A property kept by every step with a label of a run is kept by the run. -/
theorem run_invariant_on (P : σ → Prop) (evs : List ε) (s t : σ)
    (hstep : ∀ a e b, e ∈ evs → P a → step a e b → P b) (h0 : P s) (hr : Run step s evs t) :
    P t := by
  induction evs generalizing s with
  | nil => exact hr ▸ h0
  | cons e evs ih =>
    obtain ⟨m, hm, hr⟩ := hr
    exact ih m (fun a e b he => hstep a e b (List.mem_cons_of_mem _ he))
      (hstep s e m List.mem_cons_self h0 hm) hr

theorem run_invariant (P : σ → Prop) (hstep : ∀ a e b, P a → step a e b → P b)
    (evs : List ε) (s t : σ) (h0 : P s) (hr : Run step s evs t) : P t :=
  run_invariant_on P evs s t (fun a e b _ => hstep a e b) h0 hr

theorem run_mono {step' : σ → ε → σ → Prop} (h : ∀ a e b, step a e b → step' a e b) (evs : List ε)
    (s t : σ) (hr : Run step s evs t) : Run step' s evs t := by
  induction evs generalizing s with
  | nil => exact hr
  | cons e evs ih =>
    obtain ⟨m, hm, hr⟩ := hr
    exact ⟨m, h s e m hm, ih m hr⟩

/-- In a run whose states all have a property, each step is taken from a state with it. -/
theorem run_with (P : σ → Prop) (evs : List ε) (s t : σ)
    (h : ∀ evs' s', Run step s evs' s' → P s') (hr : Run step s evs t) :
    Run (fun s e s' => P s ∧ step s e s') s evs t := by
  induction evs generalizing s with
  | nil => exact hr
  | cons e evs ih =>
    obtain ⟨m, hm, hr⟩ := hr
    exact ⟨m, ⟨h [] s rfl, hm⟩, ih m (fun evs' s' hr' => h (e :: evs') s' ⟨m, hm, hr'⟩) hr⟩

end

end ScMachine.Runs
