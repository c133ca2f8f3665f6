import ScMachine.SearchPaths
import ScMachine.Runs

/-! Runs of a search, round by round and result by result. A search ends, and what it gives is what the
depth-first search over the triples gives. -/
namespace ScMachine.Template
open ScMachine.Store ScMachine.Backtracking ScMachine.Runs

/-- A round of the loop of `DoIter`; there is none when the stack is empty after the first. -/
def SearchSetup.Step (m : SearchSetup) (s : SearchState) (found : Bool) (s' : SearchState) : Prop :=
  (s.iterators ≠ [] ∨ s.newIteration = true) ∧ m.round s = .ok (found, s')

/-- A name of the path stands for the empty address, so that no result is made of it. -/
def SearchSetup.MakeFails (m : SearchSetup) (q : List (Triple ScAddr)) : Prop :=
  m.asserts = true ∧ (m.data.elements.any fun item =>
    item.hasReplacementName && isInvalid (m.replsOf q) item.replacementName) = true

/-- `r` has what has been found on the full path `q`. -/
structure SearchSetup.IsResult (m : SearchSetup) (q : List (Triple ScAddr)) (r : SearchResult) : Prop where
  made : ¬ m.MakeFails q
  length : q.length = m.data.triples.length
  names : r.names = fun name => (m.replsOf q name).map (·.addr)
  addrsLength : r.addrs.length = m.data.triples.length
  addrs : ∀ found below, found :: below <:+ q →
    r.addrs[m.processOrder.getD below.length 0]? = some found

def searchEnd (stop : Option SearchStop) : SearchEnd :=
  match stop with
  | none => .finished
  | some e => .stopped e

/-- The results and the end of a search with these paths: it stops at the first path of which no
result is made. -/
inductive SearchSetup.Given (m : SearchSetup) :
    Outcome (List (Triple ScAddr)) SearchStop → List SearchResult → SearchEnd → Prop
  | done (stop : Option SearchStop) : m.Given ([], stop) [] (searchEnd stop)
  | fails {q : List (Triple ScAddr)} {out : List (List (Triple ScAddr))} {stop : Option SearchStop} :
      m.MakeFails q → m.Given (q :: out, stop) [] (.stopped (.thrown .assertion))
  | result {q : List (Triple ScAddr)} {r : SearchResult} {out : List (List (Triple ScAddr))}
      {stop : Option SearchStop} {rs : List SearchResult} {e : SearchEnd} : m.IsResult q r →
      m.Given (out, stop) rs e → m.Given (q :: out, stop) (r :: rs) e

section
variable {m : SearchSetup} {s s' : SearchState} {k k' : Machine (Triple ScAddr)}
  {o : Outcome (List (Triple ScAddr)) SearchStop}

theorem SearchSetup.Matches.running (h : m.Matches s k) :
    (s.iterators ≠ [] ∨ s.newIteration = true) ↔ k.Running := by
  unfold Machine.Running
  rw [h.iterators, h.newIteration, ne_eq, ne_eq, List.map_eq_nil_iff]

/-- A full stack gives the result of its path, unless none is made of it. -/
theorem SearchSetup.Matches.makeResult (h : m.Matches s k)
    (hlen : k.frames.length = m.data.triples.length) :
    (∃ r, m.makeResult s = .ok r ∧ m.IsResult k.choices r) ∨
      m.makeResult s = .error (.thrown .assertion) ∧ m.MakeFails k.choices := by
  have hfails : (m.asserts = true ∧ (m.data.elements.any fun item =>
      item.hasReplacementName && isInvalid s.repls item.replacementName) = true) ↔
      m.MakeFails k.choices := by
    unfold SearchSetup.MakeFails
    rw [h.repls]
  unfold SearchSetup.makeResult
  split_ifs with hinvalid
  · exact Or.inr ⟨rfl, hfails.mp hinvalid⟩
  · refine Or.inl ⟨_, rfl, fun hf => hinvalid (hfails.mpr hf), ?_, ?_, h.resultLength, h.resultAddrs⟩
    · unfold Machine.choices
      rw [List.length_map, hlen]
    · rw [h.repls]

/-- Every state of a run belongs to a state of the machine, and the levels that it has were opened
under the condition of the run. -/
theorem run_matches (hord : m.Ordered) (Q : List (Triple ScAddr) → Prop)
    (C : SearchState → Prop)
    (hC : ∀ s k, m.Matches s k → k.fresh = true → C s → Q k.choices) (founds : List Bool)
    (hrun : Run (fun s found s' => C s ∧ m.Step s found s') m.reset founds s) :
    ∃ k, m.Matches s k ∧ m.problem.FramesOk Q k.frames := by
  apply run_invariant (fun s => ∃ k, m.Matches s k ∧ m.problem.FramesOk Q k.frames) _ founds m.reset s
    ⟨⟨[], true⟩, matches_reset hord, Problem.FramesOk.nil⟩ hrun
  rintro a found b ⟨k, hm, hok⟩ ⟨hc, hlive, hround⟩
  have hsim := hm.round hord (hm.running.mp hlive)
  cases hk : m.problem.round k with
  | error e =>
    rw [hk] at hsim
    rw [hround] at hsim
    cases hsim
  | ok r =>
    rw [hk] at hsim
    obtain ⟨s1, h1, hm1⟩ := hsim
    rw [hround] at h1
    obtain ⟨_, rfl⟩ := Prod.mk.inj (Except.ok.inj h1)
    exact ⟨r.2, hm1, hok.round (fun hf => hC a k hm hf hc) hk⟩

/-- A run that ends with a result has a full path. -/
theorem run_result (hord : m.Ordered) (Q : List (Triple ScAddr) → Prop) (C : SearchState → Prop)
    (hC : ∀ s k, m.Matches s k → k.fresh = true → C s → Q k.choices) (founds : List Bool)
    (hrun : Run (fun s found s' => C s ∧ m.Step s found s') m.reset (founds ++ [true]) s)
    {res : SearchResult} (hmake : m.makeResult s = .ok res) :
    ∃ k : Machine (Triple ScAddr), m.IsResult k.choices res ∧ m.problem.FramesOk Q k.frames := by
  obtain ⟨s1, hr1, s2, ⟨hc, hlive, hround⟩, rfl⟩ := (run_append _ _ _ _).mp hrun
  obtain ⟨k, hm, hok⟩ := run_matches hord Q C hC founds hr1
  have hsim := hm.round hord (hm.running.mp hlive)
  cases hk : m.problem.round k with
  | error e =>
    rw [hk] at hsim
    rw [hround] at hsim
    cases hsim
  | ok r =>
    rw [hk] at hsim
    obtain ⟨s3, h1, hm1⟩ := hsim
    rw [hround] at h1
    obtain ⟨hfound, rfl⟩ := Prod.mk.inj (Except.ok.inj h1)
    obtain ⟨b, k1⟩ := r
    have hb : b = true := hfound.symm
    subst hb
    refine ⟨k1, ?_, hok.round (fun hf => hC s1 k hm hf hc) hk⟩
    rcases hm1.makeResult (Problem.round_found hk).1 with ⟨res', hres, hisres⟩ | ⟨hres, _⟩
    · obtain rfl := Except.ok.inj (hmake.symm.trans hres)
      exact hisres
    · rw [hmake] at hres
      cases hres

theorem doIterLoop_mono {rounds rounds' : ℕ} {r : Except SearchStop (Bool × SearchState)}
    (h : m.doIterLoop rounds s = some r) (hle : rounds ≤ rounds') :
    m.doIterLoop rounds' s = some r := by
  induction rounds generalizing s rounds' with
  | zero => cases h
  | succ rounds ih =>
    obtain ⟨n, rfl⟩ : ∃ n, rounds' = n+1 := ⟨rounds'-1, by omega⟩
    unfold SearchSetup.doIterLoop at h ⊢
    cases hround : m.round s with
    | error e =>
      rw [hround] at h
      exact h
    | ok p =>
      rw [hround] at h
      simp only at h ⊢
      split_ifs at h ⊢ with hgo
      · exact ih h (by omega)
      · exact h

theorem doIter_mono {rounds rounds' : ℕ} {r : Except SearchStop (Bool × SearchState)}
    (h : m.doIter rounds s = some r) (hle : rounds ≤ rounds') : m.doIter rounds' s = some r := by
  unfold SearchSetup.doIter at h ⊢
  split_ifs at h ⊢
  · exact h
  · exact doIterLoop_mono h hle

/-- More rounds and calls only add to what a search has given. -/
theorem results_mono {rounds rounds' calls calls' : ℕ} (s : SearchState) (hr : rounds ≤ rounds')
    (hc : calls ≤ calls') :
    ((m.results rounds calls s).2 ≠ .running → m.results rounds' calls' s = m.results rounds calls s) ∧
      (m.results rounds calls s).1 <+: (m.results rounds' calls' s).1 := by
  induction calls generalizing s calls' with
  | zero => exact ⟨fun h => absurd rfl h, List.nil_prefix⟩
  | succ calls ih =>
    obtain ⟨n, rfl⟩ : ∃ n, calls' = n+1 := ⟨calls'-1, by omega⟩
    unfold SearchSetup.results
    cases hd : m.doIter rounds s with
    | none => exact ⟨fun h => absurd rfl h, List.nil_prefix⟩
    | some r =>
      rw [doIter_mono hd hr]
      rcases r with e | ⟨_ | _, s1⟩
      · exact ⟨fun _ => rfl, List.prefix_refl _⟩
      · exact ⟨fun _ => rfl, List.prefix_refl _⟩
      · simp only
        cases m.makeResult s1 with
        | error e => exact ⟨fun _ => rfl, List.prefix_refl _⟩
        | ok res =>
          obtain ⟨h1, h2⟩ := ih s1 (show calls ≤ n by omega)
          refine ⟨fun h => ?_, ?_⟩
          · simp only [h1 h]
          · exact List.cons_prefix_cons.mpr ⟨rfl, h2⟩

/-- What one call of `DoIter` gives of an outcome, with `r` its result. -/
def SearchSetup.FirstOf (m : SearchSetup) (o : Outcome (List (Triple ScAddr)) SearchStop)
    (r : Except SearchStop (Bool × SearchState)) : Prop :=
  match o.1, o.2 with
  | [], none => ∃ s', r = .ok (false, s')
  | [], some e => r = .error e
  | q :: out, stop => ∃ s' k', r = .ok (true, s') ∧ m.Matches s' k' ∧ k'.Running ∧ k'.choices = q ∧
      k'.frames.length = m.data.triples.length ∧ m.problem.Yields k' (out, stop)

theorem SearchSetup.Matches.isFinished_eq (h : m.Matches s k) (hk : k.frames ≠ []) :
    ({ s with isFinished := s.isFinished || s.iterators.isEmpty } : SearchState) = s := by
  have hne : s.iterators.isEmpty = false := by
    rw [h.iterators]
    simpa using hk
  rw [hne, Bool.or_false]

/-- A call of `DoIter` comes to the first path that the machine gives. -/
theorem doIterLoop_yields (hord : m.Ordered) (hy : m.problem.Yields k o) (hm : m.Matches s k)
    (hrun : k.Running) : ∃ N r, (∀ rounds, N ≤ rounds → m.doIterLoop rounds s = some r) ∧
      m.FirstOf o r := by
  induction hy generalizing s with
  | done => exact absurd rfl (hrun.resolve_right Bool.false_ne_true)
  | stop _ hk =>
    rename_i k1 e _
    have hsim := hm.round hord hrun
    rw [hk] at hsim
    refine ⟨1, .error e, ?_, rfl⟩
    intro rounds hle
    obtain ⟨n, rfl⟩ : ∃ n, rounds = n+1 := ⟨rounds-1, by omega⟩
    unfold SearchSetup.doIterLoop
    rw [hsim]
  | quiet _ hk hrest ih =>
    rename_i k1 k2 o _
    have hsim := hm.round hord hrun
    rw [hk] at hsim
    obtain ⟨s2, hs2, hm2⟩ := hsim
    -- the loop goes on unless the stack has become empty
    by_cases hempty : s2.iterators = []
    · refine ⟨1, .ok (false, { s2 with isFinished := s2.isFinished || s2.iterators.isEmpty }), ?_, ?_⟩
      · intro rounds hle
        obtain ⟨n, rfl⟩ : ∃ n, rounds = n+1 := ⟨rounds-1, by omega⟩
        unfold SearchSetup.doIterLoop
        rw [hs2]
        simp only [hempty, ne_eq, not_true_eq_false, and_false, if_false]
      · have hk2 : k2.frames = [] := by
          have hi := hm2.iterators
          rw [hempty] at hi
          exact List.map_eq_nil_iff.mp hi.symm
        have hdone := Problem.round_empty hrun hk hk2
        simp only at hdone
        rw [hdone] at hrest
        obtain rfl := hrest.of_done
        exact ⟨_, rfl⟩
    · have hrun2 : k2.Running := hm2.running.mp (Or.inl hempty)
      obtain ⟨N, r, hN, hfirst⟩ := ih hm2 hrun2
      refine ⟨N+1, r, ?_, hfirst⟩
      intro rounds hle
      obtain ⟨n, rfl⟩ : ∃ n, rounds = n+1 := ⟨rounds-1, by omega⟩
      unfold SearchSetup.doIterLoop
      rw [hs2]
      simp only
      rw [if_pos ⟨trivial, hempty⟩]
      exact hN n (by omega)
  | found _ hk hrest ih =>
    rename_i k1 k2 o _
    have hsim := hm.round hord hrun
    rw [hk] at hsim
    obtain ⟨s2, hs2, hm2⟩ := hsim
    obtain ⟨hdepth, hne⟩ := Problem.round_found hk
    refine ⟨1, .ok (true, s2), ?_, s2, k2, rfl, hm2, Or.inl hne, rfl, hdepth, hrest⟩
    intro rounds hle
    obtain ⟨n, rfl⟩ : ∃ n, rounds = n+1 := ⟨rounds-1, by omega⟩
    unfold SearchSetup.doIterLoop
    rw [hs2]
    simp only [Bool.true_eq_false, false_and, if_false]
    rw [hm2.isFinished_eq hne]

/-- The results of a search are those of the machine, path by path. -/
theorem results_yields (hord : m.Ordered) (out : List (List (Triple ScAddr)))
    (stop : Option SearchStop) (hy : m.problem.Yields k (out, stop)) (hm : m.Matches s k)
    (hrun : k.Running) : ∃ N rs e, (∀ rounds calls, N ≤ rounds → N ≤ calls →
      m.results rounds calls s = (rs, e)) ∧ m.Given (out, stop) rs e := by
  induction out generalizing k s with
  | nil =>
    obtain ⟨N, r, hN, hfirst⟩ := doIterLoop_yields hord hy hm hrun
    refine ⟨N+1, [], searchEnd stop, ?_, SearchSetup.Given.done stop⟩
    intro rounds calls hr hc
    obtain ⟨n, rfl⟩ : ∃ n, calls = n+1 := ⟨calls-1, by omega⟩
    unfold SearchSetup.results SearchSetup.doIter
    rw [if_neg (by rw [hm.notFinished]; exact Bool.false_ne_true), hN rounds (by omega)]
    cases stop with
    | none =>
      obtain ⟨s', rfl⟩ := hfirst
      rfl
    | some e =>
      have hr : r = .error e := hfirst
      rw [hr]
      rfl
  | cons q out ih =>
    obtain ⟨N, r, hN, s', k', rfl, hm', hrun', rfl, hlen, hy'⟩ := doIterLoop_yields hord hy hm hrun
    have hdo (rounds : ℕ) (hr : N ≤ rounds) : m.doIter rounds s = some (.ok (true, s')) := by
      unfold SearchSetup.doIter
      rw [if_neg (by rw [hm.notFinished]; exact Bool.false_ne_true), hN rounds hr]
    have hstops {e : SearchStop} (hmade : m.makeResult s' = .error e) (rounds calls : ℕ) (hr : N ≤ rounds) :
        m.results rounds (calls+1) s = ([], .stopped e) := by
      rw [SearchSetup.results, hdo rounds hr]
      simp only [hmade]
    have hgoes {result : SearchResult} (hmade : m.makeResult s' = .ok result) (rounds calls : ℕ)
        (hr : N ≤ rounds) : m.results rounds (calls+1) s =
          (result :: (m.results rounds calls s').1, (m.results rounds calls s').2) := by
      rw [SearchSetup.results, hdo rounds hr]
      simp only [hmade]
    rcases hm'.makeResult hlen with ⟨res, hres, hisres⟩ | ⟨hres, hfails⟩
    · obtain ⟨N', rs, e, hN', hgiven⟩ := ih hy' hm' hrun'
      refine ⟨max N N'+1, res :: rs, e, ?_, SearchSetup.Given.result hisres hgiven⟩
      intro rounds calls hr hc
      obtain ⟨n, rfl⟩ : ∃ n, calls = n+1 := ⟨calls-1, by omega⟩
      have hmax := le_max_left N N'
      have hmax' := le_max_right N N'
      rw [hgoes hres rounds n (by omega), hN' rounds n (by omega) (by omega)]
    · refine ⟨N+1, [], _, ?_, SearchSetup.Given.fails hfails⟩
      intro rounds calls hr hc
      obtain ⟨n, rfl⟩ : ∃ n, calls = n+1 := ⟨calls-1, by omega⟩
      rw [hstops hres rounds n (by omega)]

/-- A search ends, with the results of the depth-first search. -/
theorem results_explore (hord : m.Ordered) : ∃ N rs e, (∀ rounds calls, N ≤ rounds → N ≤ calls →
    m.results rounds calls m.reset = (rs, e)) ∧
      m.Given (m.problem.explore m.data.triples.length []) rs e :=
  results_yields hord _ _ (Problem.yields_explore (p := m.problem) hord.nonempty) (matches_reset hord)
    (Or.inr rfl)

/-- A search that runs to its end has made a result of every path. -/
theorem SearchSetup.Given.finished {o : Outcome (List (Triple ScAddr)) SearchStop}
    {rs : List SearchResult} {e : SearchEnd} (h : m.Given o rs e) (he : e = .finished) :
    o.2 = none ∧ List.Forall₂ m.IsResult o.1 rs := by
  induction h with
  | done stop =>
    cases stop with
    | none => exact ⟨rfl, List.Forall₂.nil⟩
    | some e => cases he
  | fails _ => cases he
  | result hres _ ih =>
    obtain ⟨hstop, hrest⟩ := ih he
    exact ⟨hstop, List.Forall₂.cons hres hrest⟩

theorem SearchSetup.Given.not_running {o : Outcome (List (Triple ScAddr)) SearchStop}
    {rs : List SearchResult} {e : SearchEnd} (h : m.Given o rs e) : e ≠ .running := by
  induction h with
  | done stop =>
    cases stop with
    | none => exact fun h => SearchEnd.noConfusion h
    | some e => exact fun h => SearchEnd.noConfusion h
  | fails _ => exact fun h => SearchEnd.noConfusion h
  | result _ _ ih => exact ih

theorem doIterLoop_run (hord : m.Ordered) {rounds : ℕ} (hm : m.Matches s k) (hrun : k.Running)
    (h : m.doIterLoop rounds s = some (.ok (true, s'))) :
    (∃ founds, Run m.Step s (founds ++ [true]) s') ∧ ∃ k', m.Matches s' k' ∧ k'.Running := by
  induction rounds generalizing s k with
  | zero => cases h
  | succ rounds ih =>
    unfold SearchSetup.doIterLoop at h
    have hsim := hm.round hord hrun
    cases hk : m.problem.round k with
    | error e =>
      rw [hk] at hsim
      rw [hsim] at h
      cases h
    | ok r =>
      rw [hk] at hsim
      obtain ⟨s1, hs1, hm1⟩ := hsim
      obtain ⟨b, k1⟩ := r
      rw [hs1] at h
      simp only at h
      have hstep : m.Step s b s1 := ⟨hm.running.mpr hrun, hs1⟩
      by_cases hgo : b = false ∧ s1.iterators ≠ []
      · rw [if_pos hgo] at h
        obtain ⟨⟨founds, hr⟩, hk'⟩ := ih hm1 (hm1.running.mp (Or.inl hgo.2)) h
        exact ⟨⟨b :: founds, s1, hstep, hr⟩, hk'⟩
      · rw [if_neg hgo] at h
        obtain ⟨rfl, rfl⟩ := Prod.mk.inj (Except.ok.inj (Option.some.inj h))
        obtain ⟨_, hne⟩ := Problem.round_found hk
        rw [hm1.isFinished_eq hne]
        exact ⟨⟨[], s1, hstep, rfl⟩, k1, hm1, Or.inl hne⟩

/-- What stops a call of `DoIter` is a round that its rounds lead to. -/
theorem doIterLoop_stopped (hord : m.Ordered) {rounds : ℕ} {e : SearchStop} (hm : m.Matches s k)
    (hrun : k.Running) (h : m.doIterLoop rounds s = some (.error e)) :
    ∃ founds s', Run m.Step s founds s' ∧ (s'.iterators ≠ [] ∨ s'.newIteration = true) ∧
      m.round s' = .error e := by
  induction rounds generalizing s k with
  | zero => cases h
  | succ rounds ih =>
    unfold SearchSetup.doIterLoop at h
    have hsim := hm.round hord hrun
    cases hk : m.problem.round k with
    | error e' =>
      rw [hk] at hsim
      rw [hsim] at h
      obtain rfl := Except.error.inj (Option.some.inj h)
      exact ⟨[], s, rfl, hm.running.mpr hrun, hsim⟩
    | ok r =>
      rw [hk] at hsim
      obtain ⟨s1, hs1, hm1⟩ := hsim
      obtain ⟨b, k1⟩ := r
      rw [hs1] at h
      simp only at h
      have hstep : m.Step s b s1 := ⟨hm.running.mpr hrun, hs1⟩
      split_ifs at h with hgo
      · obtain ⟨founds, s', hr, hrest⟩ := ih hm1 (hm1.running.mp (Or.inl hgo.2)) h
        exact ⟨b :: founds, s', ⟨s1, hstep, hr⟩, hrest⟩
      · cases h

/-- What stops a search is a round, or the result that is made after one. -/
theorem results_stopped (hord : m.Ordered) {rounds calls : ℕ} {e : SearchStop} (hm : m.Matches s k)
    (hrun : k.Running) (h : (m.results rounds calls s).2 = .stopped e) :
    ∃ founds s', Run m.Step s founds s' ∧ ((s'.iterators ≠ [] ∨ s'.newIteration = true) ∧
      m.round s' = .error e ∨ m.makeResult s' = .error e) := by
  induction calls generalizing s k with
  | zero => cases h
  | succ calls ih =>
    unfold SearchSetup.results SearchSetup.doIter at h
    rw [if_neg (by rw [hm.notFinished]; exact Bool.false_ne_true)] at h
    cases hd : m.doIterLoop rounds s with
    | none =>
      rw [hd] at h
      cases h
    | some res =>
      rw [hd] at h
      rcases res with e' | ⟨_ | _, s1⟩
      · obtain rfl := SearchEnd.stopped.inj h
        obtain ⟨founds, s', hr, hstop⟩ := doIterLoop_stopped hord hm hrun hd
        exact ⟨founds, s', hr, Or.inl hstop⟩
      · cases h
      · obtain ⟨⟨founds, hrun1⟩, k1, hm1, hk1⟩ := doIterLoop_run hord hm hrun hd
        simp only at h
        cases hmake : m.makeResult s1 with
        | error e' =>
          rw [hmake] at h
          obtain rfl := SearchEnd.stopped.inj h
          exact ⟨founds ++ [true], s1, hrun1, Or.inr hmake⟩
        | ok res =>
          rw [hmake] at h
          obtain ⟨founds', s', hr', hrest⟩ := ih hm1 hk1 h
          exact ⟨founds ++ [true] ++ founds', s', (run_append _ _ _ _).mpr ⟨s1, hrun1, hr'⟩, hrest⟩

theorem makeResult_stopped {e : SearchStop} (h : m.makeResult s = .error e) :
    m.asserts = true ∧ e = .thrown .assertion := by
  unfold SearchSetup.makeResult at h
  split_ifs at h with hfails
  exact ⟨hfails.1, (Except.error.inj h).symm⟩

/-- Every result is that of a run which ends with a found path. -/
theorem results_run (hord : m.Ordered) {rounds calls : ℕ} (hm : m.Matches s k) (hrun : k.Running)
    {r : SearchResult} (hr : r ∈ (m.results rounds calls s).1) :
    ∃ founds s', Run m.Step s (founds ++ [true]) s' ∧ m.makeResult s' = .ok r := by
  induction calls generalizing s k with
  | zero => exact absurd hr List.not_mem_nil
  | succ calls ih =>
    unfold SearchSetup.results SearchSetup.doIter at hr
    rw [if_neg (by rw [hm.notFinished]; exact Bool.false_ne_true)] at hr
    cases hd : m.doIterLoop rounds s with
    | none =>
      rw [hd] at hr
      exact absurd hr List.not_mem_nil
    | some res =>
      rw [hd] at hr
      rcases res with e | ⟨_ | _, s1⟩
      · exact absurd hr List.not_mem_nil
      · exact absurd hr List.not_mem_nil
      · obtain ⟨⟨founds, hrun1⟩, k1, hm1, hk1⟩ := doIterLoop_run hord hm hrun hd
        simp only at hr
        cases hmake : m.makeResult s1 with
        | error e =>
          rw [hmake] at hr
          exact absurd hr List.not_mem_nil
        | ok res =>
          rw [hmake] at hr
          rcases List.mem_cons.mp hr with rfl | hr
          · exact ⟨founds, s1, hrun1, hmake⟩
          · obtain ⟨founds', s', hrun', he⟩ := ih hm1 hk1 hr
            refine ⟨founds ++ [true] ++ founds', s', ?_, he⟩
            rw [List.append_assoc]
            exact (run_append _ _ _ _).mpr ⟨s1, hrun1, hrun'⟩

end

end ScMachine.Template
