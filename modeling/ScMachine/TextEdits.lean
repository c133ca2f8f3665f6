import Mathlib.Data.List.Infix
import Mathlib.Order.Basic

/-! Texts that are edited in place by a loop that goes on behind what it has written. -/
namespace ScMachine.Text

section
variable {σ ρ : Type*}

/-- A loop of at most as many rounds; its body goes on or breaks with a result. -/
def loop (body : σ → σ ⊕ ρ) : ℕ → σ → Option ρ
  | 0, _ => none
  | fuel+1, s =>
    match body s with
    | .inl s' => loop body fuel s'
    | .inr r => some r

/-- A loop whose body preserves `P` and goes on wherever it holds does not end. -/
theorem loop_diverges {body : σ → σ ⊕ ρ} {P : σ → Prop}
    (hstep : ∀ s, P s → ∃ s', body s = .inl s' ∧ P s')
    {s : σ} (hs : P s) (fuel : ℕ) : loop body fuel s = none := by
  induction fuel generalizing s with
  | zero => rfl
  | succ fuel ih =>
    obtain ⟨s', hbody, hs'⟩ := hstep s hs
    simp only [loop, hbody]
    exact ih hs'

end

section
variable {α : Type*}

/-- A loop over a text and a position, each round of which writes a part of what is behind the
position and goes on behind the part. What is written is never read again. -/
theorem loop_edits {body : List α × ℕ → (List α × ℕ) ⊕ List α}
    {edit : List α → Option (List α × List α)}
    {pass : List α → List α}
    (hend : ∀ done rest, edit rest = none → body (done ++ rest, done.length) = .inr (done ++ rest))
    (hedit : ∀ done rest out rest', edit rest = some (out, rest') →
      body (done ++ rest, done.length) = .inl (done ++ out ++ rest', (done ++ out).length))
    (hshrink : ∀ rest out rest', edit rest = some (out, rest') → rest'.length < rest.length)
    (hpass : ∀ rest, pass rest = match edit rest with
      | none => rest
      | some (out, rest') => out ++ pass rest')
    (rest done : List α) (fuel : ℕ) (hfuel : rest.length < fuel) :
    loop body fuel (done ++ rest, done.length) = some (done ++ pass rest) := by
  induction fuel generalizing rest done with
  | zero => omega
  | succ fuel ih =>
    rw [hpass rest]
    cases he : edit rest with
    | none =>
      simp only [loop, hend done rest he]
    | some p =>
      obtain ⟨out, rest'⟩ := p
      have hlt := hshrink rest out rest' he
      simp only [loop, hedit done rest out rest' he]
      rw [ih rest' (done ++ out) (by omega), List.append_assoc]

/-- `replace`: `n` characters from the position on become another text. -/
def replace (s : List α) (pos n : ℕ) (new : List α) : List α := s.take pos ++ new ++ s.drop (pos+n)

theorem replace_behind (done pre what rest new : List α) {pos : ℕ}
    (hpos : pos = done.length+pre.length) :
    replace (done ++ (pre ++ (what ++ rest))) pos what.length new = done ++ pre ++ new ++ rest := by
  subst hpos
  unfold replace
  rw [← List.append_assoc, ← List.append_assoc, ← List.length_append, List.append_assoc (done ++ pre),
    List.take_left, ← List.append_assoc (done ++ pre), ← List.length_append, List.drop_left]

end

section
variable {α : Type*} [DecidableEq α] {what rest s : List α} {n : ℕ}

/-- How many characters stand before the first occurrence. -/
def findFirst (what : List α) : List α → Option ℕ
  | [] => if what = [] then some 0 else none
  | c :: cs => if what <+: c :: cs then some 0 else (findFirst what cs).map (·+1)

/-- `find`: the first occurrence that does not begin before the position. -/
def find (s what : List α) (pos : ℕ) : Option ℕ :=
  if pos ≤ s.length then (findFirst what (s.drop pos)).map (pos+·) else none

theorem findFirst_empty (s : List α) : findFirst [] s = some 0 := by
  cases s with
  | nil => rfl
  | cons c cs => exact if_pos List.nil_prefix

theorem findFirst_cons_pos {c : α} (h : what <+: c :: s) : findFirst what (c :: s) = some 0 :=
    if_pos h

theorem findFirst_cons_neg {c : α} (h : ¬ what <+: c :: s) :
    findFirst what (c :: s) = (findFirst what s).map (·+1) :=
  if_neg h

theorem findFirst_some (h : findFirst what s = some n) :
    ∃ rest, s = s.take n ++ (what ++ rest) ∧ (s.take n).length = n := by
  induction s generalizing n with
  | nil =>
    unfold findFirst at h
    split_ifs at h with hw
    obtain rfl := Option.some.inj h
    exact ⟨[], by rw [hw, List.append_nil, List.take_nil, List.append_nil], rfl⟩
  | cons c cs ih =>
    by_cases hp : what <+: c :: cs
    · rw [findFirst_cons_pos hp] at h
      obtain rfl := Option.some.inj h
      obtain ⟨rest, hrest⟩ := hp
      exact ⟨rest, hrest.symm, rfl⟩
    · rw [findFirst_cons_neg hp] at h
      obtain ⟨m, hm, rfl⟩ := Option.map_eq_some_iff.mp h
      obtain ⟨rest, hrest, hlen⟩ := ih hm
      refine ⟨rest, ?_, ?_⟩
      · rw [List.take_succ_cons, List.cons_append, ← hrest]
      · rw [List.take_succ_cons, List.length_cons, hlen]

theorem findFirst_singleton {c : α} (h : findFirst [c] s = some n) :
    ∃ pre rest, s = pre ++ c :: rest ∧ c ∉ pre ∧ pre.length = n := by
  induction s generalizing n with
  | nil => cases h
  | cons d s ih =>
    by_cases hd : c = d
    · subst hd
      rw [findFirst_cons_pos ⟨s, rfl⟩] at h
      obtain rfl := Option.some.inj h
      exact ⟨[], s, rfl, List.not_mem_nil, rfl⟩
    · rw [findFirst_cons_neg fun hp => hd (List.cons_prefix_cons.mp hp).1] at h
      obtain ⟨m, hm, rfl⟩ := Option.map_eq_some_iff.mp h
      obtain ⟨pre, rest, rfl, hnot, rfl⟩ := ih hm
      exact ⟨d :: pre, rest, rfl, fun hmem => (List.mem_cons.mp hmem).elim hd hnot, rfl⟩

theorem findFirst_singleton_none {c : α} (h : findFirst [c] s = none) : c ∉ s := by
  induction s with
  | nil => exact List.not_mem_nil
  | cons d s ih =>
    by_cases hd : c = d
    · subst hd
      rw [findFirst_cons_pos ⟨s, rfl⟩] at h
      cases h
    · rw [findFirst_cons_neg fun hp => hd (List.cons_prefix_cons.mp hp).1] at h
      have hnot := ih (Option.map_eq_none_iff.mp h)
      exact fun hmem => (List.mem_cons.mp hmem).elim hd hnot

/-- Behind what is written, the search sees only what is left. -/
theorem find_behind (done : List α) : find (done ++ rest) what done.length =
    (findFirst what rest).map (done.length+·) := by
  unfold find
  rw [if_pos (by rw [List.length_append]; omega), List.drop_left]

end

end ScMachine.Text
