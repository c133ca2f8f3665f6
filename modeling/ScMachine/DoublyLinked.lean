import Mathlib

/-! Intrusive doubly linked lists: two pointer functions on the nodes, and a list of nodes that
they thread. -/
namespace ScMachine.DoublyLinked

section
variable {α : Type*} {next prev next' prev' : α → α} {nil p x : α} {l : List α}

/-- The pointers thread the nodes of `l` in order; `p` is before the first one and `nil` after
the last one. -/
def Linked (next prev : α → α) (nil : α) : α → List α → Prop
  | _, [] => True
  | p, x :: xs => x ≠ nil ∧ prev x = p ∧ next x = xs.headD nil ∧ Linked next prev nil x xs

/-- The nodes that a walk along `next` from `x` visits in at most `n` steps. -/
def walk [DecidableEq α] (next : α → α) (nil : α) : ℕ → α → List α
  | 0, _ => []
  | n + 1, x => if x = nil then [] else x :: walk next nil n (next x)

theorem Linked.congr (h : Linked next prev nil p l)
    (hl : ∀ x ∈ l, next' x = next x ∧ prev' x = prev x) : Linked next' prev' nil p l := by
  induction l generalizing p with
  | nil => trivial
  | cons x xs ih =>
    obtain ⟨hne, hp, hn, ht⟩ := h
    obtain ⟨hn', hp'⟩ := hl x List.mem_cons_self
    refine ⟨hne, hp'.trans hp, hn'.trans hn, ?_⟩
    exact ih ht fun y hy => hl y (List.mem_cons_of_mem x hy)

theorem Linked.ne_nil (h : Linked next prev nil p l) (hx : x ∈ l) : x ≠ nil := by
  induction l generalizing p with
  | nil => simp at hx
  | cons y ys ih =>
    rcases List.mem_cons.mp hx with rfl | hx
    · exact h.1
    · exact ih h.2.2.2 hx

/-- The list determines the pointers of its nodes. -/
theorem Linked.unique (h : Linked next prev nil p l) (h' : Linked next' prev' nil p l)
    (hx : x ∈ l) : next' x = next x ∧ prev' x = prev x := by
  induction l generalizing p with
  | nil => simp at hx
  | cons y ys ih =>
    obtain ⟨_, hp, hn, ht⟩ := h
    obtain ⟨_, hp', hn', ht'⟩ := h'
    rcases List.mem_cons.mp hx with rfl | hx
    · exact ⟨hn'.trans hn.symm, hp'.trans hp.symm⟩
    · exact ih ht ht' hx

/-- The nodes behind `x`, where `x` points to the first of them. -/
theorem Linked.behind {pre : List α} (h : Linked next prev nil p (pre ++ x :: l)) :
    next x = l.headD nil ∧ Linked next prev nil x l := by
  induction pre generalizing p with
  | nil => exact h.2.2
  | cons y ys ih => exact ih h.2.2.2

theorem Linked.suffix {pre : List α} (h : Linked next prev nil p (pre ++ l)) :
    ∃ q, Linked next prev nil q l := by
  induction pre generalizing p with
  | nil => exact ⟨p, h⟩
  | cons y ys ih => exact ih h.2.2.2

theorem Linked.walk_eq [DecidableEq α] (h : Linked next prev nil p l) (n : ℕ) (hn : l.length ≤ n) :
    walk next nil n (l.headD nil) = l := by
  induction l generalizing p n with
  | nil =>
    cases n with
    | zero => rfl
    | succ n => simp [walk]
  | cons x xs ih =>
    cases n with
    | zero => simp at hn
    | succ n =>
      obtain ⟨hne, _, hx, ht⟩ := h
      simp only [List.headD_cons, walk, if_neg hne, hx]
      rw [ih ht n (by simpa using hn)]

/-- The node before `x` is the one before the list, for its head, and a node of the list
otherwise. -/
theorem Linked.prev_cases (h : Linked next prev nil p l) (hx : x ∈ l) (hd : l.Nodup) :
    (l.headD nil = x ∧ prev x = p) ∨ (l.headD nil ≠ x ∧ prev x ∈ l) := by
  induction l generalizing p with
  | nil => simp at hx
  | cons y ys ih =>
    obtain ⟨_, hp, _, ht⟩ := h
    obtain ⟨hy, hd⟩ := List.nodup_cons.mp hd
    rcases List.mem_cons.mp hx with rfl | hx
    · exact Or.inl ⟨rfl, hp⟩
    · refine Or.inr ⟨?_, ?_⟩
      · rintro rfl
        exact hy hx
      · rcases ih ht hx hd with ⟨_, hpx⟩ | ⟨_, hpx⟩
        · rw [hpx]
          exact List.mem_cons_self
        · exact List.mem_cons_of_mem y hpx

theorem Linked.next_cases (h : Linked next prev nil p l) (hx : x ∈ l) :
    next x = nil ∨ next x ∈ l.tail := by
  induction l generalizing p with
  | nil => simp at hx
  | cons y ys ih =>
    obtain ⟨_, _, hn, ht⟩ := h
    rcases List.mem_cons.mp hx with rfl | hx
    · cases ys with
      | nil => exact Or.inl hn
      | cons z zs =>
        right
        rw [hn]
        exact List.mem_cons_self
    · rcases ih ht hx with h0 | h1
      · exact Or.inl h0
      · exact Or.inr (List.mem_of_mem_tail h1)

/-- A new node at the head. -/
theorem Linked.push [DecidableEq α] (h : Linked next prev nil nil l) (hd : l.Nodup) (hx : x ≠ nil)
    (hnx : next' x = l.headD nil) (hpx : prev' x = nil)
    (hn : ∀ y ∈ l, next' y = next y)
    (hp : ∀ y ∈ l, prev' y = if y = l.headD nil then x else prev y) :
    Linked next' prev' nil nil (x :: l) := by
  refine ⟨hx, hpx, hnx, ?_⟩
  cases l with
  | nil => trivial
  | cons y ys =>
    obtain ⟨hy, _, hny, ht⟩ := h
    obtain ⟨hmem, _⟩ := List.nodup_cons.mp hd
    refine ⟨hy, ?_, ?_, ?_⟩
    · rw [hp y List.mem_cons_self, List.headD_cons, if_pos rfl]
    · rw [hn y List.mem_cons_self, hny]
    · refine ht.congr fun z hz => ⟨hn z (List.mem_cons_of_mem y hz), ?_⟩
      rw [hp z (List.mem_cons_of_mem y hz), List.headD_cons, if_neg]
      rintro rfl
      exact hmem hz

/-- The two neighbours of `x` are linked to each other. -/
def Bypass [DecidableEq α] (next prev : α → α) (x : α) (next' prev' : α → α) (l : List α) : Prop :=
  ∀ y ∈ l, y ≠ x → next' y = (if y = prev x then next x else next y) ∧
    prev' y = if y = next x then prev x else prev y

/-- The head of the list without `x`. -/
theorem Linked.headD_filter [DecidableEq α] (h : Linked next prev nil p l) (hd : l.Nodup)
    (hx : x ∈ l) : (l.filter fun y => y ≠ x).headD nil =
      if l.headD nil = x then next x else l.headD nil := by
  cases l with
  | nil => simp at hx
  | cons y ys =>
    obtain ⟨_, _, hn, _⟩ := h
    obtain ⟨hy, _⟩ := List.nodup_cons.mp hd
    by_cases hyx : y = x
    · subst hyx
      have hall : ys.filter (fun z => z ≠ y) = ys := by
        refine List.filter_eq_self.mpr fun z hz => ?_
        have hzy : z ≠ y := fun he => hy (he ▸ hz)
        simpa using hzy
      rw [List.filter_cons_of_neg (by simp), hall, List.headD_cons, if_pos rfl, hn]
    · rw [List.filter_cons_of_pos (by simpa using hyx)]
      simp [hyx]

theorem Linked.filter [DecidableEq α] (h : Linked next prev nil p l) (hd : l.Nodup) (hp : p ∉ l)
    (hx : x ∈ l) (hb : Bypass next prev x next' prev' l) :
    Linked next' prev' nil p (l.filter fun y => y ≠ x) := by
  induction l generalizing p with
  | nil => simp at hx
  | cons y ys ih =>
    obtain ⟨hne, hpy, hn, ht⟩ := h
    obtain ⟨hy, hds⟩ := List.nodup_cons.mp hd
    by_cases hyx : y = x
    · -- the head goes: its successor, if any, gets `p` before it
      subst hyx
      have hall : ys.filter (fun z => z ≠ y) = ys := by
        refine List.filter_eq_self.mpr fun z hz => ?_
        have hzy : z ≠ y := fun he => hy (he ▸ hz)
        simpa using hzy
      rw [List.filter_cons_of_neg (by simp), hall]
      have hmem (z : α) (hz : z ∈ ys) : next' z = next z := by
        have hzy : z ≠ y := fun he => hy (he ▸ hz)
        rw [(hb z (List.mem_cons_of_mem y hz) hzy).1, if_neg]
        rintro rfl
        exact hp (hpy ▸ List.mem_cons_of_mem y hz)
      cases ys with
      | nil => trivial
      | cons z zs =>
        obtain ⟨hnz, _, hnz', hts⟩ := ht
        rw [List.headD_cons] at hn
        have hzy : z ≠ y := fun he => hy (he ▸ List.mem_cons_self)
        obtain ⟨hz, _⟩ := List.nodup_cons.mp hds
        refine ⟨hnz, ?_, ?_, ?_⟩
        · rw [(hb z (by simp) hzy).2, if_pos hn.symm, hpy]
        · rw [hmem z List.mem_cons_self, hnz']
        · refine hts.congr fun w hw => ⟨hmem w (List.mem_cons_of_mem z hw), ?_⟩
          have hwy : w ≠ y := fun he => hy (he ▸ List.mem_cons_of_mem z hw)
          rw [(hb w (by simp [hw]) hwy).2, if_neg]
          intro hwn
          exact hz (hn ▸ hwn ▸ hw)
    · have hxs : x ∈ ys := (List.mem_cons.mp hx).resolve_left (Ne.symm hyx)
      rw [List.filter_cons_of_pos (by simpa using hyx)]
      obtain ⟨hb1, hb2⟩ := hb y List.mem_cons_self hyx
      refine ⟨hne, ?_, ?_, ?_⟩
      · rw [hb2, if_neg]
        · exact hpy
        · intro hnx
          rcases ht.next_cases hxs with h0 | h1
          · exact hne (hnx.trans h0)
          · exact hy (hnx ▸ List.mem_of_mem_tail h1)
      · rw [hb1, ht.headD_filter hds hxs]
        rcases ht.prev_cases hxs hds with ⟨hhead, hpx⟩ | ⟨hhead, hpx⟩
        · rw [if_pos hpx.symm, if_pos hhead]
        · rw [if_neg hhead, if_neg, hn]
          rintro rfl
          exact hy hpx
      · exact ih ht hds hy hxs fun z hz => hb z (List.mem_cons_of_mem y hz)

end

end ScMachine.DoublyLinked
