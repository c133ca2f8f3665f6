import Mathlib.Data.List.Nodup
import Mathlib.Data.Set.Basic
import Mathlib.Logic.Function.Basic

/-! Inverted indexes: for each key the list of what stands under it, with a list that becomes
empty taken out. An index is kept by appends and removals of single pairs. -/
namespace ScMachine.InvertedIndex

variable {κ α : Type*}

/-- What stands under a key. -/
def entries (idx : κ → Option (List α)) (k : κ) : List α := (idx k).getD []

/-- No list that is there is empty. -/
def NoEmpty (idx : κ → Option (List α)) : Prop := ∀ k, idx k ≠ some []

/-- On the keys of `T` the index holds exactly the pairs of the relation, each of them once. -/
structure Indexes (T : Set κ) (idx : κ → Option (List α)) (R : α → κ → Prop) : Prop where
  nodup : ∀ k ∈ T, (entries idx k).Nodup
  mem : ∀ k ∈ T, ∀ a, a ∈ entries idx k ↔ R a k

theorem Indexes.congr {T : Set κ} {idx : κ → Option (List α)} {R R' : α → κ → Prop}
    (h : Indexes T idx R) (hR : ∀ a, ∀ k ∈ T, R' a k ↔ R a k) : Indexes T idx R' := by
  refine ⟨h.nodup, ?_⟩
  intro k hk a
  rw [hR a k hk]
  exact h.mem k hk a

section
variable [DecidableEq κ] {T : Set κ} {idx : κ → Option (List α)} {R R' : α → κ → Prop} {k : κ}
  {a : α}

def append (idx : κ → Option (List α)) (k : κ) (a : α) : κ → Option (List α) :=
  Function.update idx k (some (entries idx k ++ [a]))

theorem entries_append (idx : κ → Option (List α)) (k : κ) (a : α) :
    entries (append idx k a) = Function.update (entries idx) k (entries idx k ++ [a]) := by
  funext k'
  unfold append
  by_cases hk : k' = k
  · subst hk
    simp [entries]
  · simp [entries, Function.update_of_ne hk]

theorem Indexes.append (h : Indexes T idx R) (hnew : k ∈ T → ¬ R a k)
    (hR : ∀ b, ∀ k' ∈ T, R' b k' ↔ R b k' ∨ b = a ∧ k' = k) :
    Indexes T (append idx k a) R' := by
  have hother (k' : κ) (hk : k' ≠ k) : entries (InvertedIndex.append idx k a) k' = entries idx k' := by
    rw [entries_append, Function.update_of_ne hk]
  have hself : entries (InvertedIndex.append idx k a) k = entries idx k ++ [a] := by
    rw [entries_append, Function.update_self]
  constructor
  · intro k' hk'
    by_cases hk : k' = k
    · subst hk
      rw [hself, List.nodup_append]
      refine ⟨h.nodup k' hk', List.nodup_singleton a, ?_⟩
      intro b hb c hc hbc
      rw [List.mem_singleton.mp hc] at hbc
      exact hnew hk' ((h.mem k' hk' a).mp (hbc ▸ hb))
    · rw [hother k' hk]
      exact h.nodup k' hk'
  · intro k' hk' b
    rw [hR b k' hk']
    by_cases hk : k' = k
    · subst hk
      rw [hself, List.mem_append, List.mem_singleton, h.mem k' hk']
      simp
    · rw [hother k' hk, h.mem k' hk']
      simp [hk]

theorem NoEmpty.append (h : NoEmpty idx) (k : κ) (a : α) : NoEmpty (append idx k a) := by
  intro k'
  unfold InvertedIndex.append
  by_cases hk : k' = k
  · subst hk
    simp
  · rw [Function.update_of_ne hk]
    exact h k'

variable [DecidableEq α]

def remove (idx : κ → Option (List α)) (k : κ) (a : α) : κ → Option (List α) :=
  match idx k with
  | none => idx
  | some l => Function.update idx k (if l.erase a = [] then none else some (l.erase a))

theorem entries_remove (idx : κ → Option (List α)) (k : κ) (a : α) :
    entries (remove idx k a) = Function.update (entries idx) k ((entries idx k).erase a) := by
  funext k'
  unfold remove
  cases hl : idx k with
  | none =>
    have hnil : entries idx k = [] := by simp [entries, hl]
    have hsame : Function.update (entries idx) k ((entries idx k).erase a) = entries idx := by
      rw [hnil, List.erase_nil, ← hnil, Function.update_eq_self]
    rw [hsame]
  | some l =>
    by_cases hk : k' = k
    · subst hk
      by_cases he : l.erase a = []
      · simp [entries, hl, he]
      · simp [entries, hl, he]
    · simp [entries, Function.update_of_ne hk]

theorem Indexes.remove (h : Indexes T idx R)
    (hR : ∀ b, ∀ k' ∈ T, R' b k' ↔ R b k' ∧ ¬ (b = a ∧ k' = k)) :
    Indexes T (remove idx k a) R' := by
  have hother (k' : κ) (hk : k' ≠ k) : entries (InvertedIndex.remove idx k a) k' = entries idx k' := by
    rw [entries_remove, Function.update_of_ne hk]
  have hself : entries (InvertedIndex.remove idx k a) k = (entries idx k).erase a := by
    rw [entries_remove, Function.update_self]
  constructor
  · intro k' hk'
    by_cases hk : k' = k
    · subst hk
      rw [hself]
      exact (h.nodup k' hk').erase a
    · rw [hother k' hk]
      exact h.nodup k' hk'
  · intro k' hk' b
    rw [hR b k' hk']
    by_cases hk : k' = k
    · subst hk
      rw [hself, (h.nodup k' hk').mem_erase_iff, h.mem k' hk']
      simp only [and_true]
      exact and_comm
    · rw [hother k' hk, h.mem k' hk']
      simp [hk]

theorem NoEmpty.remove (h : NoEmpty idx) (k : κ) (a : α) : NoEmpty (remove idx k a) := by
  intro k'
  unfold InvertedIndex.remove
  cases hl : idx k with
  | none => exact h k'
  | some l =>
    by_cases hk : k' = k
    · subst hk
      by_cases he : l.erase a = []
      · simp [he]
      · simp [he]
    · simp only [Function.update_of_ne hk]
      exact h k'

/-- A removal opens no new key. -/
theorem remove_none {k' : κ} (h : idx k' = none) : remove idx k a k' = none := by
  unfold InvertedIndex.remove
  cases hl : idx k with
  | none => exact h
  | some l =>
    have hk : k' ≠ k := by
      rintro rfl
      rw [h] at hl
      exact absurd hl (by simp)
    simp only [Function.update_of_ne hk]
    exact h

end

end ScMachine.InvertedIndex
