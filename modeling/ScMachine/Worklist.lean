import Mathlib

/-! Breadth-first search with a list of the nodes still to visit: the order in which nodes are
taken off the list, and the set that it covers. -/
namespace ScMachine.Worklist

section
variable {α : Type*} [DecidableEq α]

/-- The members of a list that are not in `seen`, each one once. -/
def fresh (seen : List α) : List α → List α
  | [] => []
  | x :: xs => if x ∈ seen then fresh seen xs else x :: fresh (seen ++ [x]) xs

/-- The nodes that the search takes off its list, in order, when `done` were taken before and
`queue` is the list. -/
def bfs (succ : α → List α) : ℕ → List α → List α → List α
  | 0, _, _ => []
  | _ + 1, _, [] => []
  | n + 1, done, x :: queue =>
    x :: bfs succ n (done ++ [x]) (queue ++ fresh (done ++ x :: queue) (succ x))

theorem fresh_cons (seen : List α) (x : α) (xs : List α) : fresh seen (x :: xs) =
    if x ∈ seen then fresh seen xs else x :: fresh (seen ++ [x]) xs := rfl

theorem mem_fresh (seen xs : List α) (y : α) : y ∈ fresh seen xs ↔ y ∈ xs ∧ y ∉ seen := by
  induction xs generalizing seen with
  | nil => simp [fresh]
  | cons x xs ih =>
    rw [fresh_cons]
    split_ifs with hx
    · rw [ih, List.mem_cons]
      constructor
      · rintro ⟨hy, hs⟩
        exact ⟨Or.inr hy, hs⟩
      · rintro ⟨rfl | hy, hs⟩
        · exact absurd hx hs
        · exact ⟨hy, hs⟩
    · rw [List.mem_cons, ih, List.mem_cons, List.mem_append, List.mem_singleton]
      constructor
      · rintro (rfl | ⟨hy, hs⟩)
        · exact ⟨Or.inl rfl, hx⟩
        · exact ⟨Or.inr hy, fun hh => hs (Or.inl hh)⟩
      · rintro ⟨hy, hs⟩
        by_cases hyx : y = x
        · exact Or.inl hyx
        · exact Or.inr ⟨hy.resolve_left hyx, fun hh => hh.elim hs hyx⟩

theorem nodup_fresh (seen xs : List α) : (fresh seen xs).Nodup := by
  induction xs generalizing seen with
  | nil => exact List.nodup_nil
  | cons x xs ih =>
    rw [fresh_cons]
    split_ifs with hx
    · exact ih seen
    · refine List.nodup_cons.mpr ⟨?_, ih _⟩
      rw [mem_fresh]
      simp

theorem fresh_append (seen xs ys : List α) :
    fresh seen (xs ++ ys) = fresh seen xs ++ fresh (seen ++ fresh seen xs) ys := by
  induction xs generalizing seen with
  | nil => simp [fresh]
  | cons x xs ih =>
    rw [List.cons_append, fresh_cons, fresh_cons]
    split_ifs with hx
    · exact ih seen
    · rw [ih, List.cons_append, List.append_assoc, List.singleton_append]

/-- No node is there twice, and the successors of the nodes taken are there. -/
structure Progress (succ : α → List α) (done queue : List α) : Prop where
  nodup : (done ++ queue).Nodup
  closed : ∀ x ∈ done, ∀ y ∈ succ x, y ∈ done ++ queue

theorem Progress.step {succ : α → List α} {done queue : List α} {x : α}
    (h : Progress succ done (x :: queue)) :
    Progress succ (done ++ [x]) (queue ++ fresh (done ++ x :: queue) (succ x)) := by
  have hassoc : (done ++ [x]) ++ (queue ++ fresh (done ++ x :: queue) (succ x)) =
      (done ++ x :: queue) ++ fresh (done ++ x :: queue) (succ x) := by simp
  refine ⟨?_, ?_⟩
  · rw [hassoc]
    refine List.Nodup.append h.nodup (nodup_fresh _ _) ?_
    intro y hy hf
    exact ((mem_fresh _ _ _).mp hf).2 hy
  · intro z hz y hy
    rw [hassoc, List.mem_append, mem_fresh]
    by_cases hin : y ∈ done ++ x :: queue
    · exact Or.inl hin
    · rcases List.mem_append.mp hz with hz | hz
      · exact absurd (h.closed z hz y hy) hin
      · obtain rfl := List.mem_singleton.mp hz
        exact Or.inr ⟨hy, hin⟩

/-- With more fuel than there are nodes the search covers a closed set, no node twice. -/
theorem bfs_closed {succ : α → List α} {N : ℕ} (hN : ∀ l : List α, l.Nodup → l.length ≤ N)
    (fuel : ℕ) (done queue : List α) (h : Progress succ done queue)
    (hfuel : N < fuel+done.length) :
    (done ++ bfs succ fuel done queue).Nodup ∧ (∀ x ∈ queue, x ∈ done ++ bfs succ fuel done queue) ∧
      ∀ x ∈ done ++ bfs succ fuel done queue, ∀ y ∈ succ x, y ∈ done ++ bfs succ fuel done queue := by
  induction fuel generalizing done queue with
  | zero =>
    have hlen := hN done (List.Nodup.of_append_left h.nodup)
    omega
  | succ fuel ih =>
    cases queue with
    | nil =>
      simp only [bfs]
      refine ⟨h.nodup, by simp, ?_⟩
      intro x hx
      exact h.closed x (by simpa using hx)
    | cons x queue =>
      have hrec := ih (done ++ [x]) _ h.step (by rw [List.length_append]; simp; omega)
      have hassoc : done ++ bfs succ (fuel+1) done (x :: queue) =
          (done ++ [x]) ++ bfs succ fuel (done ++ [x])
            (queue ++ fresh (done ++ x :: queue) (succ x)) := by
        simp [bfs]
      rw [hassoc]
      refine ⟨hrec.1, ?_, hrec.2.2⟩
      intro y hy
      rcases List.mem_cons.mp hy with rfl | hy
      · simp
      · exact hrec.2.1 y (List.mem_append_left _ hy)

/-- Every node that the search takes belongs to each closed set with the nodes of its list. -/
theorem bfs_least {succ : α → List α} (P : α → Prop) (hP : ∀ x, P x → ∀ y ∈ succ x, P y)
    (fuel : ℕ) (done queue : List α) (hq : ∀ x ∈ queue, P x) :
    ∀ x ∈ bfs succ fuel done queue, P x := by
  induction fuel generalizing done queue with
  | zero => simp [bfs]
  | succ fuel ih =>
    cases queue with
    | nil => simp [bfs]
    | cons x queue =>
      intro y hy
      rcases List.mem_cons.mp hy with rfl | hy
      · exact hq y List.mem_cons_self
      · refine ih _ _ ?_ y hy
        intro z hz
        rcases List.mem_append.mp hz with hz | hz
        · exact hq z (List.mem_cons_of_mem x hz)
        · exact hP x (hq x List.mem_cons_self) z ((mem_fresh _ _ _).mp hz).1

end

end ScMachine.Worklist
