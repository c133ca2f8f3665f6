import Mathlib

/-! Backtracking with a stack of iterators. A problem says which choices there are behind a path of
choices and which of them are accepted; a machine that keeps, for each choice of the path, what its
iterator still has, gives all paths of the full length in the order of a depth-first search. -/
namespace ScMachine.Backtracking

section
variable {α β ε : Type}

/-- What a search gives before it stops. -/
abbrev Outcome (β ε : Type) : Type := List β × Option ε

/-- The second search follows when the first has not stopped. -/
def andThen (r o : Outcome β ε) : Outcome β ε :=
  match r.2 with
  | some e => (r.1, some e)
  | none => (r.1 ++ o.1, o.2)

theorem andThen_assoc (r o u : Outcome β ε) :
    andThen (andThen r o) u = andThen r (andThen o u) := by
  obtain ⟨out, stop⟩ := r
  cases stop with
  | some e => rfl
  | none =>
    obtain ⟨out', stop'⟩ := o
    cases stop' with
    | some e => rfl
    | none => exact congrArg (fun l => (l, u.2)) (List.append_assoc out out' u.1)

theorem andThen_end (r : Outcome β ε) : andThen r ([], none) = r := by
  obtain ⟨out, stop⟩ := r
  cases stop with
  | some e => rfl
  | none => exact congrArg (fun l => (l, (none : Option ε))) (List.append_nil out)

/-- One search after the other. -/
def chain (f : α → Outcome β ε) : List α → Outcome β ε
  | [] => ([], none)
  | c :: cs => andThen (f c) (chain f cs)

theorem mem_chain {f : α → Outcome β ε} {cs : List α} {q : β} (h : q ∈ (chain f cs).1) :
    ∃ c ∈ cs, q ∈ (f c).1 := by
  induction cs with
  | nil => exact absurd h List.not_mem_nil
  | cons c cs ih =>
    unfold chain andThen at h
    split at h
    · exact ⟨c, List.mem_cons_self, h⟩
    · rcases List.mem_append.mp h with h | h
      · exact ⟨c, List.mem_cons_self, h⟩
      · obtain ⟨c', hc', hq⟩ := ih h
        exact ⟨c', List.mem_cons_of_mem c hc', hq⟩

/-- A chain that has not stopped has run every search to its end. -/
theorem chain_complete {f : α → Outcome β ε} {cs : List α} (h : (chain f cs).2 = none) {c : α}
    (hc : c ∈ cs) : (f c).2 = none ∧ ∀ q ∈ (f c).1, q ∈ (chain f cs).1 := by
  induction cs with
  | nil => exact absurd hc List.not_mem_nil
  | cons c' cs ih =>
    unfold chain andThen at h ⊢
    split at h
    · cases h
    · rename_i hstop
      rcases List.mem_cons.mp hc with rfl | hc
      · exact ⟨hstop, fun q hq => List.mem_append_left _ hq⟩
      · obtain ⟨hnone, hall⟩ := ih h hc
        exact ⟨hnone, fun q hq => List.mem_append_right _ (hall q hq)⟩

theorem chain_nodup {f : α → Outcome β ε} {cs : List α} (hcs : cs.Nodup)
    (hf : ∀ c ∈ cs, (f c).1.Nodup)
    (hdisj : ∀ c ∈ cs, ∀ c' ∈ cs, ∀ q, q ∈ (f c).1 → q ∈ (f c').1 → c = c') :
    (chain f cs).1.Nodup := by
  induction cs with
  | nil => exact List.nodup_nil
  | cons c cs ih =>
    obtain ⟨hnot, hcs'⟩ := List.nodup_cons.mp hcs
    have hrest := ih hcs' (fun c hc => hf c (List.mem_cons_of_mem _ hc))
      (fun c hc c' hc' => hdisj c (List.mem_cons_of_mem _ hc) c' (List.mem_cons_of_mem _ hc'))
    unfold chain andThen
    split
    · exact hf c List.mem_cons_self
    · apply List.Nodup.append (hf c List.mem_cons_self) hrest
      intro q hq hq'
      obtain ⟨c', hc', hqc'⟩ := mem_chain hq'
      have he := hdisj c List.mem_cons_self c' (List.mem_cons_of_mem _ hc') q hq hqc'
      rw [he] at hnot
      exact hnot hc'

/-- A path has the last choice first. -/
structure Problem (α ε : Type) where
  opens : List α → Except ε (List α)
  accepts : List α → α → Bool
  depth : ℕ

/-- Depth-first search behind a path, through the levels that are left. -/
def Problem.explore (p : Problem α ε) : ℕ → List α → Outcome (List α) ε
  | 0, path => ([path], none)
  | k + 1, path =>
    match p.opens path with
    | .error e => ([], some e)
    | .ok cs => chain (fun c => p.explore k (c :: path)) (cs.filter (p.accepts path))

/-- The paths that accepted choices lead to. -/
inductive Problem.Extends (p : Problem α ε) (start : List α) : List α → Prop
  | start : p.Extends start start
  | choose {path cs : List α} {c : α} : p.Extends start path → p.opens path = .ok cs → c ∈ cs →
      p.accepts path c = true → p.Extends start (c :: path)

variable {p : Problem α ε} {path start q : List α} {k : ℕ}

theorem Problem.Extends.trans (h : p.Extends start path) (h' : p.Extends path q) :
    p.Extends start q := by
  induction h' with
  | start => exact h
  | choose _ hopen hc hacc ih => exact ih.choose hopen hc hacc

theorem Problem.Extends.suffix (h : p.Extends start q) : start <:+ q := by
  induction h with
  | start => exact List.suffix_refl start
  | choose _ _ _ _ ih => exact ih.trans (List.suffix_cons _ _)

theorem Problem.explore_sound (h : q ∈ (p.explore k path).1) :
    p.Extends path q ∧ q.length = path.length+k := by
  induction k generalizing path with
  | zero =>
    obtain rfl := List.mem_singleton.mp h
    exact ⟨Problem.Extends.start, rfl⟩
  | succ k ih =>
    unfold Problem.explore at h
    split at h
    · exact absurd h List.not_mem_nil
    · rename_i cs hopen
      obtain ⟨c, hc, hq⟩ := mem_chain h
      obtain ⟨hmem, hacc⟩ := List.mem_filter.mp hc
      obtain ⟨hext, hlen⟩ := ih hq
      refine ⟨(Problem.Extends.start.choose hopen hmem hacc).trans hext, ?_⟩
      rw [List.length_cons] at hlen
      omega

/-- The first choice behind `start` of a longer path. -/
theorem Problem.Extends.first (h : p.Extends start q) (hlt : start.length < q.length) :
    ∃ cs c, p.opens start = .ok cs ∧ c ∈ cs ∧ p.accepts start c = true ∧ p.Extends (c :: start) q := by
  induction h with
  | start => exact absurd hlt (lt_irrefl _)
  | choose hext hopen hc hacc ih =>
    rename_i path cs c
    by_cases he : start.length < path.length
    · obtain ⟨cs', c', hopen', hc', hacc', hext'⟩ := ih he
      exact ⟨cs', c', hopen', hc', hacc', hext'.choose hopen hc hacc⟩
    · have heq : start = path :=
        List.IsSuffix.eq_of_length_le hext.suffix (not_lt.mp he)
      subst heq
      exact ⟨cs, c, hopen, hc, hacc, Problem.Extends.start⟩

/-- A search that has not stopped has found every path. -/
theorem Problem.explore_complete (hstop : (p.explore k path).2 = none) (h : p.Extends path q)
    (hlen : q.length = path.length+k) : q ∈ (p.explore k path).1 := by
  induction k generalizing path with
  | zero =>
    have he : path = q := List.IsSuffix.eq_of_length h.suffix hlen.symm
    rw [he]
    exact List.mem_singleton_self q
  | succ k ih =>
    obtain ⟨cs, c, hopen, hc, hacc, hext⟩ := h.first (by omega)
    unfold Problem.explore at hstop ⊢
    rw [hopen] at hstop ⊢
    obtain ⟨hnone, hall⟩ := chain_complete hstop (List.mem_filter.mpr ⟨hc, hacc⟩)
    apply hall
    apply ih hnone hext
    rw [List.length_cons]
    omega

/-- A search that has not stopped has opened every path that is not full. -/
theorem Problem.opens_of_complete (hstop : (p.explore k path).2 = none) (h : p.Extends path q)
    (hlen : q.length < path.length+k) : ∃ cs, p.opens q = .ok cs := by
  induction k generalizing path with
  | zero => exact absurd hlen (not_lt.mpr h.suffix.length_le)
  | succ k ih =>
    unfold Problem.explore at hstop
    cases hopen : p.opens path with
    | error e =>
      rw [hopen] at hstop
      cases hstop
    | ok cs =>
      rw [hopen] at hstop
      by_cases hlt : path.length < q.length
      · obtain ⟨cs', c, hopen', hc, hacc, hext⟩ := h.first hlt
        obtain rfl := Except.ok.inj (hopen.symm.trans hopen')
        obtain ⟨hnone, _⟩ := chain_complete hstop (List.mem_filter.mpr ⟨hc, hacc⟩)
        apply ih hnone hext
        rw [List.length_cons]
        omega
      · have heq : path = q := List.IsSuffix.eq_of_length_le h.suffix (not_lt.mp hlt)
        exact ⟨cs, heq ▸ hopen⟩

theorem Problem.explore_nodup (hopens : ∀ path cs, p.opens path = .ok cs → cs.Nodup) (k : ℕ)
    (path : List α) : (p.explore k path).1.Nodup := by
  induction k generalizing path with
  | zero => exact List.nodup_singleton path
  | succ k ih =>
    unfold Problem.explore
    split
    · exact List.nodup_nil
    · rename_i cs hopen
      apply chain_nodup ((hopens path cs hopen).filter _) (fun c _ => ih (c :: path))
      intro c _ c' _ q hq hq'
      -- both are the choice right above `path`
      have hs := (explore_sound hq).1.suffix
      have hs' := (explore_sound hq').1.suffix
      have heq : c :: path = c' :: path :=
        List.IsSuffix.eq_of_length ((List.suffix_or_suffix_of_suffix hs hs').elim id
          fun h => (List.IsSuffix.eq_of_length h rfl) ▸ List.suffix_refl _) rfl
      exact (List.cons.inj heq).1

/-- The first choice that is accepted, and what is behind it. -/
def nextAccepted (accept : α → Bool) : List α → Option (α × List α)
  | [] => none
  | c :: cs => if accept c then some (c, cs) else nextAccepted accept cs

/-- The stack, with its top first: the choice of each level and what its iterator still has. A fresh
machine opens a level, another one goes on with the iterator at the top. -/
structure Machine (α : Type) where
  frames : List (α × List α)
  fresh : Bool

def Machine.choices (s : Machine α) : List α := s.frames.map Prod.fst

/-- The iterator `it` is moved on; true stands for a path of the full length. -/
def Problem.advance (p : Problem α ε) (below : List (α × List α)) (it : List α) :
    Bool × Machine α :=
  match nextAccepted (p.accepts (below.map Prod.fst)) it with
  | none => (false, ⟨below, false⟩)
  | some (c, cs) =>
    (decide (below.length+1 = p.depth), ⟨(c, cs) :: below, !decide (below.length+1 = p.depth)⟩)

def Problem.round (p : Problem α ε) (s : Machine α) : Except ε (Bool × Machine α) :=
  if s.fresh then
    match p.opens s.choices with
    | .error e => .error e
    | .ok it => .ok (p.advance s.frames it)
  else
    match s.frames with
    | [] => .ok (false, s)
    | (_, it) :: below => .ok (p.advance below it)

/-- There is something left to do. -/
def Machine.Running (s : Machine α) : Prop := s.frames ≠ [] ∨ s.fresh = true

/-- The rounds from a state on give the outcome. -/
inductive Problem.Yields (p : Problem α ε) : Machine α → Outcome (List α) ε → Prop
  | done : p.Yields ⟨[], false⟩ ([], none)
  | stop {s : Machine α} {e : ε} : s.Running → p.round s = .error e → p.Yields s ([], some e)
  | quiet {s s' : Machine α} {o : Outcome (List α) ε} : s.Running → p.round s = .ok (false, s') →
      p.Yields s' o → p.Yields s o
  | found {s s' : Machine α} {o : Outcome (List α) ε} : s.Running → p.round s = .ok (true, s') →
      p.Yields s' o → p.Yields s (s'.choices :: o.1, o.2)

/-- The outcome of what a round has left. -/
def Problem.After (p : Problem α ε) (r : Bool × Machine α) (o : Outcome (List α) ε) : Prop :=
  match r.1 with
  | true => ∃ u, o = (r.2.choices :: u.1, u.2) ∧ p.Yields r.2 u
  | false => p.Yields r.2 o

theorem Problem.Yields.of_round {s : Machine α} {r : Bool × Machine α}
    {o : Outcome (List α) ε} (hs : s.Running) (hr : p.round s = .ok r) (h : p.After r o) :
    p.Yields s o := by
  obtain ⟨b, s'⟩ := r
  cases b with
  | true =>
    obtain ⟨u, rfl, hu⟩ := h
    exact Problem.Yields.found hs hr hu
  | false => exact Problem.Yields.quiet hs hr h

/-- The iterator of a level gives the searches behind its choices, one after the other, when each of
these is what the machine does with the choice. -/
theorem Problem.yields_chain {below : List (α × List α)} {o : Outcome (List α) ε}
    (hlen : below.length+(k+1) = p.depth)
    (hfresh : ∀ c cs u, 0 < k → p.Yields ⟨(c, cs) :: below, false⟩ u →
      p.Yields ⟨(c, cs) :: below, true⟩ (andThen (p.explore k (c :: below.map Prod.fst)) u))
    (ho : p.Yields ⟨below, false⟩ o) (it : List α) :
    p.After (p.advance below it) (andThen
      (chain (fun c => p.explore k (c :: below.map Prod.fst))
        (it.filter (p.accepts (below.map Prod.fst)))) o) := by
  induction it with
  | nil => exact ho
  | cons c cs ih =>
    by_cases hc : p.accepts (below.map Prod.fst) c = true
    · rw [List.filter_cons_of_pos hc]
      have hnext : nextAccepted (p.accepts (below.map Prod.fst)) (c :: cs) = some (c, cs) := by
        unfold nextAccepted
        rw [if_pos hc]
      have hpop : p.Yields ⟨(c, cs) :: below, false⟩ _ :=
        Problem.Yields.of_round (Or.inl (List.cons_ne_nil _ _)) rfl ih
      unfold Problem.advance
      rw [hnext]
      unfold chain
      rw [andThen_assoc]
      cases k with
      | zero =>
        have hlast : below.length+1 = p.depth := hlen
        simp only [hlast, decide_true, Bool.not_true]
        exact ⟨_, rfl, hpop⟩
      | succ k =>
        have hnot : ¬ below.length+1 = p.depth := by omega
        simp only [hnot, decide_false, Bool.not_false]
        exact hfresh c cs _ (Nat.succ_pos k) hpop
    · rw [List.filter_cons_of_neg hc]
      have hskip : p.advance below (c :: cs) = p.advance below cs := by
        unfold Problem.advance nextAccepted
        rw [if_neg hc]
        cases cs <;> rfl
      rw [hskip]
      exact ih

theorem Problem.yields_fresh {below : List (α × List α)} {o : Outcome (List α) ε} (hk : 0 < k)
    (hlen : below.length+k = p.depth) (ho : p.Yields ⟨below, false⟩ o) :
    p.Yields ⟨below, true⟩ (andThen (p.explore k (below.map Prod.fst)) o) := by
  induction k generalizing below o with
  | zero => exact absurd hk (lt_irrefl 0)
  | succ k ih =>
    unfold Problem.explore
    cases hopen : p.opens (below.map Prod.fst) with
    | error e =>
      apply Problem.Yields.stop (Or.inr rfl)
      unfold Problem.round Machine.choices
      rw [if_pos rfl, hopen]
    | ok it =>
      have hround : p.round ⟨below, true⟩ = .ok (p.advance below it) := by
        unfold Problem.round Machine.choices
        rw [if_pos rfl, hopen]
      apply Problem.Yields.of_round (Or.inr rfl) hround
      apply Problem.yields_chain hlen _ ho
      intro c cs u hpos hu
      apply ih hpos _ hu
      rw [List.length_cons]
      omega

/-- The machine gives what the depth-first search gives. -/
theorem Problem.yields_explore (hdepth : 0 < p.depth) :
    p.Yields ⟨[], true⟩ (p.explore p.depth []) := by
  have hend : p.Yields ⟨[], false⟩ ([], none) := Problem.Yields.done
  have h : p.Yields ⟨[], true⟩ (andThen (p.explore p.depth []) ([], none)) :=
    Problem.yields_fresh hdepth (Nat.zero_add _) hend
  rwa [andThen_end] at h

theorem nextAccepted_some {accept : α → Bool} {it cs : List α} {c : α}
    (h : nextAccepted accept it = some (c, cs)) : accept c = true ∧ c ∈ it ∧ cs ⊆ it := by
  induction it with
  | nil => cases h
  | cons c' it ih =>
    unfold nextAccepted at h
    split_ifs at h with hacc
    · obtain ⟨rfl, rfl⟩ := Prod.mk.inj (Option.some.inj h)
      exact ⟨hacc, List.mem_cons_self, List.subset_cons_self _ _⟩
    · obtain ⟨h1, h2, h3⟩ := ih h
      exact ⟨h1, List.mem_cons_of_mem _ h2, List.Subset.trans h3 (List.subset_cons_self _ _)⟩

/-- Each level of the stack was opened on a path with `Q`, and its choice is an accepted one. -/
inductive Problem.FramesOk (p : Problem α ε) (Q : List α → Prop) : List (α × List α) → Prop
  | nil : p.FramesOk Q []
  | cons {below : List (α × List α)} {c : α} {it cs : List α} : p.FramesOk Q below →
      p.opens (below.map Prod.fst) = .ok cs → Q (below.map Prod.fst) → c ∈ cs → it ⊆ cs →
      p.accepts (below.map Prod.fst) c = true → p.FramesOk Q ((c, it) :: below)

variable {Q : List α → Prop}

theorem Problem.FramesOk.advance {below : List (α × List α)} {it cs : List α}
    (h : p.FramesOk Q below) (hopen : p.opens (below.map Prod.fst) = .ok cs)
    (hq : Q (below.map Prod.fst)) (hit : it ⊆ cs) : p.FramesOk Q (p.advance below it).2.frames := by
  unfold Problem.advance
  cases hnext : nextAccepted (p.accepts (below.map Prod.fst)) it with
  | none => exact h
  | some r =>
    obtain ⟨c, rest⟩ := r
    obtain ⟨hacc, hc, hrest⟩ := nextAccepted_some hnext
    exact h.cons hopen hq (hit hc) (List.Subset.trans hrest hit) hacc

/-- A round keeps the levels in order when those that it opens have `Q`. -/
theorem Problem.FramesOk.round {s : Machine α} {r : Bool × Machine α} (h : p.FramesOk Q s.frames)
    (hq : s.fresh = true → Q s.choices) (hr : p.round s = .ok r) : p.FramesOk Q r.2.frames := by
  obtain ⟨frames, fresh⟩ := s
  unfold Problem.round at hr
  cases fresh with
  | true =>
    rw [if_pos rfl] at hr
    cases hopen : p.opens (Machine.choices ⟨frames, true⟩) with
    | error e =>
      rw [hopen] at hr
      cases hr
    | ok it =>
      rw [hopen] at hr
      obtain rfl := Except.ok.inj hr
      exact h.advance hopen (hq rfl) (List.Subset.refl it)
  | false =>
    rw [if_neg Bool.false_ne_true] at hr
    cases h with
    | nil =>
      obtain rfl := Except.ok.inj hr
      exact Problem.FramesOk.nil
    | cons hbelow hopen hqb _ hit _ =>
      obtain rfl := Except.ok.inj hr
      exact hbelow.advance hopen hqb hit

/-- A round that leaves no level leaves nothing to do. -/
theorem Problem.round_empty {s : Machine α} {r : Bool × Machine α} (hs : s.Running)
    (hr : p.round s = .ok r) (he : r.2.frames = []) : r.2 = ⟨[], false⟩ := by
  have hadv (below : List (α × List α)) (it : List α) (h : r = p.advance below it) :
      r.2 = ⟨[], false⟩ := by
    rw [h] at he ⊢
    unfold Problem.advance at he ⊢
    cases hnext : nextAccepted (p.accepts (below.map Prod.fst)) it with
    | none =>
      rw [hnext] at he
      simp only at he ⊢
      rw [he]
    | some q =>
      rw [hnext] at he
      exact absurd he (List.cons_ne_nil _ _)
  unfold Problem.round at hr
  split_ifs at hr with hfresh
  · cases hopen : p.opens s.choices with
    | error e =>
      rw [hopen] at hr
      cases hr
    | ok it =>
      rw [hopen] at hr
      exact hadv _ _ (Except.ok.inj hr).symm
  · cases hf : s.frames with
    | nil => exact (hs.elim (fun h => h hf) hfresh).elim
    | cons frame below =>
      rw [hf] at hr
      exact hadv _ _ (Except.ok.inj hr).symm

theorem Problem.Yields.of_done {o : Outcome (List α) ε} (h : p.Yields ⟨[], false⟩ o) :
    o = ([], none) := by
  have hno : ¬ Machine.Running (⟨[], false⟩ : Machine α) := by
    rintro (h | h)
    · exact h rfl
    · cases h
  cases h with
  | done => rfl
  | stop hs _ => exact absurd hs hno
  | quiet hs _ _ => exact absurd hs hno
  | found hs _ _ => exact absurd hs hno

/-- A path of the full length is given only when the stack has it. -/
theorem Problem.round_found {s s' : Machine α} (hr : p.round s = .ok (true, s')) :
    s'.frames.length = p.depth ∧ s'.frames ≠ [] := by
  have hadv (below : List (α × List α)) (it : List α) (h : p.advance below it = (true, s')) :
      s'.frames.length = p.depth ∧ s'.frames ≠ [] := by
    unfold Problem.advance at h
    cases hnext : nextAccepted (p.accepts (below.map Prod.fst)) it with
    | none =>
      rw [hnext] at h
      cases h
    | some r =>
      rw [hnext] at h
      obtain ⟨hd, rfl⟩ := Prod.mk.inj h
      exact ⟨of_decide_eq_true hd, List.cons_ne_nil _ _⟩
  unfold Problem.round at hr
  split_ifs at hr
  · cases hopen : p.opens s.choices with
    | error e =>
      rw [hopen] at hr
      cases hr
    | ok it =>
      rw [hopen] at hr
      exact hadv _ _ (Except.ok.inj hr)
  · cases hf : s.frames with
    | nil =>
      rw [hf] at hr
      cases hr
    | cons frame below =>
      rw [hf] at hr
      exact hadv _ _ (Except.ok.inj hr)

end

end ScMachine.Backtracking
