import ScMachine.StateExcept

/-! Resumable enumeration: a call looks for the next entry of a list with some property, behind the
one of the call before, and a sequence of calls gives the entries in order. -/
namespace ScMachine.Enumeration
open ScMachine.StateExcept

section
variable {α : Type} {m : α → Bool} {x : α} {l : List α}

/-- The entries up to and with the first that has the property. -/
def visited (m : α → Bool) : List α → List α
  | [] => []
  | x :: xs => if m x then [x] else x :: visited m xs

/-- The entries behind it. -/
def behind (m : α → Bool) : List α → List α
  | [] => []
  | x :: xs => if m x then xs else behind m xs

theorem visited_append_behind (m : α → Bool) (l : List α) : visited m l ++ behind m l = l := by
  induction l with
  | nil => rfl
  | cons x xs ih =>
    unfold visited behind
    split_ifs
    · rfl
    · rw [List.cons_append, ih]

theorem filter_of_find (m : α → Bool) (l : List α) :
    l.filter m = (l.find? m).toList ++ (behind m l).filter m := by
  induction l with
  | nil => rfl
  | cons x xs ih =>
    unfold behind
    by_cases hx : m x = true
    · simp [hx]
    · simp [hx, ih]

/-- All that was visited before the one that is found lacks the property. -/
theorem filter_visited (m : α → Bool) (l : List α) :
    (visited m l).filter m = (l.find? m).toList := by
  induction l with
  | nil => rfl
  | cons x xs ih =>
    unfold visited
    by_cases hx : m x = true
    · simp [hx]
    · simp [hx, ih]

/-- What was visited is what was passed over and what was found. -/
theorem count_visited [BEq α] [LawfulBEq α] (m : α → Bool) (l : List α) (y : α) :
    (visited m l).count y =
      ((visited m l).filter fun z => !m z).count y+(l.find? m).toList.count y := by
  have hperm := List.filter_append_perm (fun z => !m z) (visited m l)
  simp only [Bool.not_not] at hperm
  rw [filter_visited] at hperm
  rw [← hperm.count_eq y, List.count_append]

theorem visited_of_none (h : l.find? m = none) : visited m l = l ∧ behind m l = [] := by
  induction l with
  | nil => exact ⟨rfl, rfl⟩
  | cons x xs ih =>
    have hx : m x = false := by
      have hall := List.find?_eq_none.mp h x List.mem_cons_self
      simpa using hall
    have hxs : xs.find? m = none := by
      rw [List.find?_cons, hx] at h
      exact h
    unfold visited behind
    rw [hx]
    exact ⟨by rw [if_neg Bool.false_ne_true, (ih hxs).1], by rw [if_neg Bool.false_ne_true, (ih hxs).2]⟩

/-- The entry that is found is the last one visited. -/
theorem visited_of_some (h : l.find? m = some x) : ∃ pre, visited m l = pre ++ [x] := by
  induction l with
  | nil => simp at h
  | cons y ys ih =>
    unfold visited
    by_cases hy : m y = true
    · rw [List.find?_cons, hy] at h
      obtain rfl : y = x := by simpa using h
      exact ⟨[], by simp [hy]⟩
    · rw [List.find?_cons_of_neg hy] at h
      obtain ⟨pre, hpre⟩ := ih h
      exact ⟨y :: pre, by simp [hy, hpre]⟩

theorem length_behind_lt (h : l.find? m = some x) : (behind m l).length < l.length := by
  obtain ⟨pre, hpre⟩ := visited_of_some h
  have hlen := congrArg List.length (visited_append_behind m l)
  rw [hpre] at hlen
  simp only [List.length_append, List.length_cons, List.length_nil] at hlen
  omega

theorem visited_subset (m : α → Bool) (l : List α) : ∀ y ∈ visited m l, y ∈ l := by
  intro y hy
  rw [← visited_append_behind m l]
  exact List.mem_append_left _ hy

theorem behind_subset (m : α → Bool) (l : List α) : ∀ y ∈ behind m l, y ∈ l := by
  intro y hy
  rw [← visited_append_behind m l]
  exact List.mem_append_right _ hy

end

section
variable {σ ε ι κ β : Type}

/-- The results of one call for each entry of a list of arguments, and the enumerator after
them. -/
def callEach (next : κ → ι → StateT σ (Except ε) (Option β × ι)) :
    List κ → ι → StateT σ (Except ε) (List (Option β) × ι)
  | [], it => pure ([], it)
  | k :: ks, it => do
    let (r, it) ← next k it
    let (rs, it) ← callEach next ks it
    pure (r :: rs, it)

/-- What `n` calls return that enumerate `l`: its first entries, and none after its end. -/
def firstOf (l : List β) (n : ℕ) : List (Option β) := (List.range n).map fun i => l[i]?

theorem firstOf_succ_cons (y : β) (l : List β) (n : ℕ) :
    firstOf (y :: l) (n+1) = some y :: firstOf l n := by
  simp [firstOf, List.range_succ_eq_map, Function.comp_def]

theorem firstOf_succ_nil (n : ℕ) : firstOf ([] : List β) (n+1) = none :: firstOf [] n := by
  simp [firstOf, List.range_succ_eq_map, Function.comp_def]

/-- `At l it s`: in the state `s`, the enumerator `it` still has to give the entries of `l`. -/
structure Cursor (next : κ → ι → StateT σ (Except ε) (Option β × ι)) (At : List β → ι → σ → Prop)
    (E : ε → Prop) : Prop where
  more : ∀ k y l it s, At (y :: l) it s →
    Wp (next k it) (fun r s' => r.1 = some y ∧ At l r.2 s') E s
  done : ∀ k it s, At [] it s → Wp (next k it) (fun r s' => r.1 = none ∧ At [] r.2 s') E s

/-- One call and then the others. -/
theorem callEach_cons {next : κ → ι → StateT σ (Except ε) (Option β × ι)} {k : κ} {ks : List κ}
    {it : ι} {s : σ} {Q : List (Option β) × ι → σ → Prop} {E : ε → Prop}
    (h : Wp (next k it)
      (fun r s' => Wp (callEach next ks r.2) (fun rs s2 => Q (r.1 :: rs.1, rs.2) s2) E s') E s) :
    Wp (callEach next (k :: ks) it) Q E s := by
  unfold callEach
  rw [wp_bind]
  apply wp_mono h _ (fun _ he => he)
  intro r s' hr
  rw [wp_bind]
  exact hr

/-- A sequence of calls gives the entries in order, each once, and nothing after the last one. -/
theorem Cursor.calls {next : κ → ι → StateT σ (Except ε) (Option β × ι)}
    {At : List β → ι → σ → Prop} {E : ε → Prop} (h : Cursor next At E) (ks : List κ) (l : List β)
    (it : ι) (s : σ) (hat : At l it s) :
    Wp (callEach next ks it)
      (fun r s' => r.1 = firstOf l ks.length ∧ At (l.drop ks.length) r.2 s') E s := by
  induction ks generalizing l it s with
  | nil => exact ⟨rfl, hat⟩
  | cons k ks ih =>
    apply callEach_cons
    cases l with
    | nil =>
      apply wp_mono (h.done k it s hat) _ (fun _ he => he)
      intro r s' ⟨hr, hat'⟩
      apply wp_mono (ih [] r.2 s' hat') _ (fun _ he => he)
      intro rs s2 ⟨hrs, hat2⟩
      rw [List.drop_nil] at hat2
      refine ⟨?_, by rwa [List.drop_nil]⟩
      rw [hr, hrs]
      exact (firstOf_succ_nil _).symm
    | cons y l =>
      apply wp_mono (h.more k y l it s hat) _ (fun _ he => he)
      intro r s' ⟨hr, hat'⟩
      apply wp_mono (ih l r.2 s' hat') _ (fun _ he => he)
      intro rs s2 ⟨hrs, hat2⟩
      refine ⟨?_, hat2⟩
      rw [hr, hrs]
      exact (firstOf_succ_cons y l _).symm

/-- A bound on what is left goes down with every call. -/
theorem callEach_countdown {next : κ → ι → StateT σ (Except ε) (Option β × ι)}
    {At : ℕ → ι → σ → Prop} {E : ε → Prop}
    (h : ∀ k n it s, At n it s → Wp (next k it) (fun r s' => At (n-1) r.2 s') E s)
    (ks : List κ) (n : ℕ) (it : ι) (s : σ) (hat : At n it s) :
    Wp (callEach next ks it) (fun r s' => At (n-ks.length) r.2 s') E s := by
  induction ks generalizing n it s with
  | nil => exact hat
  | cons k ks ih =>
    apply callEach_cons
    apply wp_mono (h k n it s hat) _ (fun _ he => he)
    intro r s' hat'
    apply wp_mono (ih (n-1) r.2 s' hat') _ (fun _ he => he)
    intro rs s2 hat2
    have hlen : n-1-ks.length = n-(k :: ks).length := by
      rw [List.length_cons]
      omega
    rwa [hlen] at hat2

end

/-- A loop over what an enumerator gives, with what happens when there are more rounds than expected. -/
def whileNext {m : Type → Type} [Monad m] {ι α β : Type} (out : m (α × ι)) (next : ι → m (Option β × ι))
    (body : β → α → m α) : ℕ → ι → α → m (α × ι)
  | 0, _, _ => out
  | rounds+1, it, acc => do
    let (found, it) ← next it
    match found with
    | none => pure (acc, it)
    | some y =>
      let acc ← body y acc
      whileNext out next body rounds it acc

section
variable {σ ε ι α β : Type}

/-- The rule for the loop: `Before l` holds where the entries of `l` are still to be given, and `After l`
once the next call has looked for the first of them. -/
theorem whileNext_wp {next : ι → StateT σ (Except ε) (Option β × ι)} {body : β → α → StateT σ (Except ε) α}
    {out : StateT σ (Except ε) (α × ι)} {E : ε → Prop} {Before After : List β → ι → α → σ → Prop}
    (hnext : ∀ l it acc s, Before l it acc s →
      Wp (next it) (fun r s' => r.1 = l.head? ∧ After l r.2 acc s') E s)
    (hbody : ∀ y l it acc s, After (y :: l) it acc s →
      Wp (body y acc) (fun acc' s' => Before l it acc' s') E s)
    (l : List β) (rounds : ℕ) (hrounds : l.length < rounds) (it : ι) (acc : α) (s : σ)
    (h : Before l it acc s) :
    Wp (whileNext out next body rounds it acc) (fun r s' => After [] r.2 r.1 s') E s := by
  induction l generalizing rounds it acc s with
  | nil =>
    obtain ⟨k, rfl⟩ := Nat.exists_eq_succ_of_ne_zero (Nat.ne_zero_of_lt hrounds)
    unfold whileNext
    rw [wp_bind]
    apply wp_mono (hnext [] it acc s h) _ (fun _ he => he)
    rintro ⟨found, it'⟩ s' ⟨hfound, hafter⟩
    obtain rfl : found = none := hfound
    exact hafter
  | cons y l ih =>
    obtain ⟨k, rfl⟩ := Nat.exists_eq_succ_of_ne_zero (Nat.ne_zero_of_lt hrounds)
    have hk : l.length < k := by simpa using hrounds
    unfold whileNext
    rw [wp_bind]
    apply wp_mono (hnext (y :: l) it acc s h) _ (fun _ he => he)
    rintro ⟨found, it'⟩ s' ⟨hfound, hafter⟩
    obtain rfl : found = some y := hfound
    simp only [wp_bind]
    apply wp_mono (hbody y l it' acc s' hafter) _ (fun _ he => he)
    intro acc' s2 hbefore
    exact ih k hk it' acc' s2 hbefore

end

end ScMachine.Enumeration
