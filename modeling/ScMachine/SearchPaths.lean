import ScMachine.SearchOrder
import ScMachine.Backtracking

/-! The state of a search is determined by the path of the triples found so far. The search is a
backtracking machine, and what it takes back is exactly what it has put in. -/
namespace ScMachine.Template
open ScMachine.Store ScMachine.Backtracking

/-- The items of the triple that is processed on a level. -/
def SearchSetup.itemsAt (m : SearchSetup) (level : ℕ) : Triple ScTemplateArg :=
  m.data.items (m.data.triples.getD (m.processOrder.getD level 0) ⟨0, 0, 0⟩)

/-- The three calls of `RefReplacement`. -/
def refTriple (t : Triple ScTemplateArg) (found : Triple ScAddr)
    (repls : String → Option ReplCounter) : String → Option ReplCounter :=
  refReplacement t.target found.target (refReplacement t.edge found.edge
    (refReplacement t.source found.source repls))

/-- The names that a path has, the last level first. -/
def SearchSetup.replsOf (m : SearchSetup) : List (Triple ScAddr) → String → Option ReplCounter
  | [] => fun _ => none
  | found :: path => refTriple (m.itemsAt path.length) found (m.replsOf path)

/-- The search as a backtracking problem. -/
def SearchSetup.problem (m : SearchSetup) : Problem (Triple ScAddr) SearchStop where
  opens path := m.openIterator (m.replsOf path) (m.itemsAt path.length)
  accepts path found := m.accepts (path.map Triple.edge) found
  depth := m.data.triples.length

/-- What `UpdateSearchCache` gives for a template with triples. -/
structure SearchSetup.Ordered (m : SearchSetup) : Prop where
  perm : m.processOrder.Perm (List.range m.data.triples.length)
  nonempty : 0 < m.data.triples.length

/-- The state of a search at a state of the machine. -/
structure SearchSetup.Matches (m : SearchSetup) (s : SearchState) (k : Machine (Triple ScAddr)) :
    Prop where
  iterators : s.iterators = k.frames.map Prod.snd
  newIteration : s.newIteration = k.fresh
  notFinished : s.isFinished = false
  usedEdges : s.usedEdges = k.choices.map Triple.edge
  repls : s.repls = m.replsOf k.choices
  depth : k.frames.length ≤ m.data.triples.length
  room : k.fresh = true → k.frames.length < m.data.triples.length
  edgesLength : s.edges.length = m.data.triples.length
  edges : ∀ found below, found :: below <:+ k.choices → s.edges[below.length]? = some found.edge
  resultLength : s.resultAddrs.length = m.data.triples.length
  resultAddrs : ∀ found below, found :: below <:+ k.choices →
    s.resultAddrs[m.processOrder.getD below.length 0]? = some found

section
variable {m : SearchSetup} {s : SearchState} {k : Machine (Triple ScAddr)}
  {R R' : String → Option ReplCounter} {item : ScTemplateArg} {a : ScAddr} {c : String → ℕ}

/-- How often the name of an item counts. -/
def nameCount (item : ScTemplateArg) (name : String) : ℕ :=
  if item.hasReplacementName = true ∧ item.replacementName = name then 1 else 0

/-- `R'` has `c` references more than `R`. -/
def RefsAbove (R : String → Option ReplCounter) (c : String → ℕ) (R' : String → Option ReplCounter) :
    Prop :=
  ∀ name, (c name = 0 → R' name = R name) ∧ (0 < c name →
    (∃ a, R name = none ∧ R' name = some ⟨a, c name⟩) ∨
      ∃ r, R name = some r ∧ R' name = some ⟨r.addr, r.refs+c name⟩)

theorem refReplacement_self (hname : item.hasReplacementName = true) :
    refReplacement item a R item.replacementName =
      match R item.replacementName with
      | none => some ⟨a, 1⟩
      | some r => some ⟨r.addr, r.refs+1⟩ := by
  unfold refReplacement
  rw [if_pos hname]
  cases R item.replacementName with
  | none => exact Function.update_self _ _ _
  | some r => exact Function.update_self _ _ _

theorem refReplacement_other {name : String}
    (h : ¬ (item.hasReplacementName = true ∧ item.replacementName = name)) :
    refReplacement item a R name = R name := by
  unfold refReplacement
  by_cases hname : item.hasReplacementName = true
  · have hne : name ≠ item.replacementName := fun he => h ⟨hname, he.symm⟩
    rw [if_pos hname]
    cases R item.replacementName with
    | none => exact Function.update_of_ne hne _ _
    | some r => exact Function.update_of_ne hne _ _
  · rw [if_neg hname]

theorem RefsAbove.ref (h : RefsAbove R c R') (item : ScTemplateArg) (a : ScAddr) :
    RefsAbove R (fun name => c name+nameCount item name) (refReplacement item a R') := by
  intro name
  beta_reduce
  by_cases hn : item.hasReplacementName = true ∧ item.replacementName = name
  · obtain ⟨hname, rfl⟩ := hn
    have hcount : nameCount item item.replacementName = 1 := if_pos ⟨hname, rfl⟩
    rw [hcount, refReplacement_self hname]
    refine ⟨fun h0 => absurd h0 (Nat.succ_ne_zero _), fun _ => ?_⟩
    by_cases h0 : c item.replacementName = 0
    · rw [(h item.replacementName).1 h0, h0]
      cases hr : R item.replacementName with
      | none => exact Or.inl ⟨a, rfl, rfl⟩
      | some r => exact Or.inr ⟨r, rfl, rfl⟩
    · rcases (h item.replacementName).2 (Nat.pos_of_ne_zero h0) with ⟨b, hr, hr'⟩ | ⟨r, hr, hr'⟩
      · rw [hr']
        exact Or.inl ⟨b, hr, rfl⟩
      · rw [hr']
        exact Or.inr ⟨r, hr, rfl⟩
  · have hcount : nameCount item name = 0 := if_neg hn
    rw [hcount, refReplacement_other hn]
    exact h name

/-- A reference that was taken is given back. -/
theorem RefsAbove.unref (asserts : Bool) (h : RefsAbove R c R') (item : ScTemplateArg)
    (hpos : ∀ name r, R name = some r → 1 ≤ r.refs) (hc : ∀ name, nameCount item name ≤ c name) :
    ∃ R'', unrefReplacement asserts item R' = .ok R'' ∧
      RefsAbove R (fun name => c name-nameCount item name) R'' := by
  unfold unrefReplacement
  by_cases hname : item.hasReplacementName = true
  · rw [if_pos hname]
    have hcount : nameCount item item.replacementName = 1 := if_pos ⟨hname, rfl⟩
    have hother (name : String) (hne : name ≠ item.replacementName) : nameCount item name = 0 :=
      if_neg fun hh => hne hh.2.symm
    have hle := hc item.replacementName
    rw [hcount] at hle
    rcases (h item.replacementName).2 hle with ⟨b, hr, hr'⟩ | ⟨r, hr, hr'⟩
    · rw [hr']
      refine ⟨_, rfl, ?_⟩
      intro name
      beta_reduce
      by_cases hne : name = item.replacementName
      · subst hne
        rw [hcount, Function.update_self]
        refine ⟨fun h0 => ?_, fun hgt => Or.inl ⟨b, hr, ?_⟩⟩
        · rw [if_neg (by simp only; omega), hr]
        · rw [if_pos (by simp only; omega)]
      · rw [hother name hne, Function.update_of_ne hne]
        exact h name
    · rw [hr']
      have hr1 := hpos _ r hr
      refine ⟨_, rfl, ?_⟩
      intro name
      beta_reduce
      by_cases hne : name = item.replacementName
      · subst hne
        rw [hcount, Function.update_self]
        have hbig : 1 < r.refs+c item.replacementName := by omega
        refine ⟨fun h0 => ?_, fun hgt => Or.inr ⟨r, hr, ?_⟩⟩
        · rw [if_pos hbig, hr]
          have he : r.refs+c item.replacementName-1 = r.refs := by omega
          simp only [he]
        · rw [if_pos hbig]
          have he : r.refs+c item.replacementName-1 = r.refs+(c item.replacementName-1) := by omega
          simp only [he]
      · rw [hother name hne, Function.update_of_ne hne]
        exact h name
  · rw [if_neg hname]
    have h0 (name : String) : nameCount item name = 0 := if_neg fun hh => hname hh.1
    refine ⟨R', rfl, ?_⟩
    intro name
    beta_reduce
    rw [h0]
    exact h name

theorem RefsAbove.eq (h : RefsAbove R (fun _ => 0) R') : R' = R :=
  funext fun name => (h name).1 rfl

theorem refsAbove_refl (R : String → Option ReplCounter) : RefsAbove R (fun _ => 0) R :=
  fun _ => ⟨fun _ => rfl, fun h => absurd h (lt_irrefl 0)⟩

theorem refTriple_above (t : Triple ScTemplateArg) (found : Triple ScAddr)
    (R : String → Option ReplCounter) :
    RefsAbove R (fun name => 0+nameCount t.source name+nameCount t.edge name+nameCount t.target name)
      (refTriple t found R) :=
  (((refsAbove_refl R).ref t.source found.source).ref t.edge found.edge).ref t.target found.target

/-- What a triple has put in is taken back as a whole. -/
theorem unref_refTriple (asserts : Bool) (hpos : ∀ name r, R name = some r → 1 ≤ r.refs)
    (t : Triple ScTemplateArg) (found : Triple ScAddr) :
    ∃ R1 R2, unrefReplacement asserts t.source (refTriple t found R) = .ok R1 ∧
      unrefReplacement asserts t.edge R1 = .ok R2 ∧ unrefReplacement asserts t.target R2 = .ok R := by
  obtain ⟨R1, h1, ha1⟩ := (refTriple_above t found R).unref asserts t.source hpos
    (fun name => by omega)
  obtain ⟨R2, h2, ha2⟩ := ha1.unref asserts t.edge hpos (fun name => by omega)
  obtain ⟨R3, h3, ha3⟩ := ha2.unref asserts t.target hpos (fun name => by omega)
  have hzero : (fun name => 0+nameCount t.source name+nameCount t.edge name+nameCount t.target name-
      nameCount t.source name-nameCount t.edge name-nameCount t.target name) = fun _ => 0 := by
    funext name
    omega
  rw [hzero] at ha3
  exact ⟨R1, R2, h1, h2, ha3.eq ▸ h3⟩

theorem replsOf_pos (m : SearchSetup) (path : List (Triple ScAddr)) (name : String)
    (r : ReplCounter) (h : m.replsOf path name = some r) : 1 ≤ r.refs := by
  induction path generalizing r with
  | nil => cases h
  | cons found path ih =>
    have habove := refTriple_above (m.itemsAt path.length) found (m.replsOf path) name
    unfold SearchSetup.replsOf at h
    rcases Nat.eq_zero_or_pos (0+nameCount (m.itemsAt path.length).source name+
      nameCount (m.itemsAt path.length).edge name+nameCount (m.itemsAt path.length).target name) with
      h0 | hgt
    · rw [habove.1 h0] at h
      exact ih r h
    · rcases habove.2 hgt with ⟨b, _, hr⟩ | ⟨r', _, hr⟩
      · rw [hr] at h
        obtain rfl := Option.some.inj h
        exact hgt
      · rw [hr] at h
        obtain rfl := Option.some.inj h
        exact le_trans hgt (Nat.le_add_left _ _)

theorem nextAccepted_eq (m : SearchSetup) (used : List ScAddr) (it : List (Triple ScAddr)) :
    m.nextAccepted used it = nextAccepted (m.accepts used) it := by
  induction it with
  | nil => rfl
  | cons found rest ih =>
    unfold SearchSetup.nextAccepted nextAccepted
    rw [ih]

theorem SearchSetup.Ordered.index (h : m.Ordered) {level : ℕ} (hl : level < m.data.triples.length) :
    ∃ j, m.processOrder[level]? = some j ∧ m.processOrder.getD level 0 = j ∧
      j < m.data.triples.length ∧ m.data.triples[j]? = some (m.data.triples.getD j ⟨0, 0, 0⟩) := by
  have hlen : m.processOrder.length = m.data.triples.length := by
    rw [h.perm.length_eq, List.length_range]
  have hget : m.processOrder[level]? = some m.processOrder[level] :=
    List.getElem?_eq_getElem (by omega)
  have hlt : m.processOrder[level] < m.data.triples.length :=
    List.mem_range.mp (h.perm.mem_iff.mp (List.getElem_mem _))
  refine ⟨m.processOrder[level], hget, ?_, hlt, ?_⟩
  · rw [List.getD_eq_getElem?_getD, hget]
    rfl
  · rw [List.getD_eq_getElem?_getD, List.getElem?_eq_getElem hlt]
    rfl

theorem SearchSetup.Ordered.index_injective (h : m.Ordered) {l l' : ℕ}
    (hl : l < m.data.triples.length) (hl' : l' < m.data.triples.length)
    (he : m.processOrder.getD l 0 = m.processOrder.getD l' 0) : l = l' := by
  have hnodup : m.processOrder.Nodup := h.perm.nodup_iff.mpr List.nodup_range
  have hlen : m.processOrder.length = m.data.triples.length := by
    rw [h.perm.length_eq, List.length_range]
  rw [List.getD_eq_getElem _ _ (by omega), List.getD_eq_getElem _ _ (by omega)] at he
  exact (hnodup.getElem_inj_iff).mp he

/-- What a state and a machine share while an iterator is moved on. -/
theorem SearchSetup.Matches.advance (hord : m.Ordered) {below : List (Triple ScAddr × List (Triple ScAddr))}
    {it : List (Triple ScAddr)} {fresh : Bool}
    (h : m.Matches { s with newIteration := fresh, iterators := below.map Prod.snd } ⟨below, fresh⟩)
    (hroom : below.length < m.data.triples.length) :
    ∃ s', m.advance s (m.processOrder.getD below.length 0) (m.itemsAt below.length) it
        (below.map Prod.snd) = .ok ((m.problem.advance below it).1, s') ∧
      m.Matches s' (m.problem.advance below it).2 := by
  have hused : s.usedEdges = (below.map Prod.fst).map Triple.edge := h.usedEdges
  obtain ⟨j, hj, hjd, hjlt, _⟩ := hord.index hroom
  unfold SearchSetup.advance Problem.advance
  have hacc : m.accepts ((below.map Prod.fst).map Triple.edge) = m.problem.accepts (below.map Prod.fst) :=
    rfl
  rw [nextAccepted_eq, hused, hacc]
  cases hnext : Backtracking.nextAccepted (m.problem.accepts (below.map Prod.fst)) it with
  | none =>
    refine ⟨_, rfl, ?_⟩
    have hfresh : (false : Bool) = true → below.length < m.data.triples.length := fun _ => hroom
    exact ⟨rfl, rfl, h.notFinished, rfl, h.repls, h.depth, hfresh, h.edgesLength, h.edges,
      h.resultLength, h.resultAddrs⟩
  | some p =>
    obtain ⟨found, rest⟩ := p
    have hlen : (below.map Prod.snd).length = below.length := List.length_map _
    have hedgesLength : s.edges.length = m.data.triples.length := h.edgesLength
    have hresultLength : s.resultAddrs.length = m.data.triples.length := h.resultLength
    have hin : ¬ (s.edges.length ≤ below.length ∨
        s.resultAddrs.length ≤ m.processOrder.getD below.length 0) := by
      rw [hedgesLength, hresultLength, hjd]
      omega
    have hlast : (below.length+1 == m.data.triples.length) =
        decide (below.length+1 = m.problem.depth) := by
      rw [Bool.eq_iff_iff, beq_iff_eq, decide_eq_true_iff]
      rfl
    dsimp only
    rw [hlen, if_neg hin, hlast]
    refine ⟨_, rfl, ?_⟩
    -- a suffix of the new path is the whole of it or one of the old one
    have hsuffix (f : Triple ScAddr) (b : List (Triple ScAddr))
        (hs : f :: b <:+ found :: below.map Prod.fst) :
        f = found ∧ b = below.map Prod.fst ∨
          f :: b <:+ below.map Prod.fst ∧ b.length < below.length := by
      rcases List.suffix_cons_iff.mp hs with he | hs
      · obtain ⟨h1, h2⟩ := List.cons.inj he
        exact Or.inl ⟨h1, h2⟩
      · have hle := hs.length_le
        rw [List.length_cons, List.length_map] at hle
        exact Or.inr ⟨hs, hle⟩
    refine ⟨rfl, rfl, h.notFinished, ?_, ?_, ?_, ?_, ?_, ?_, ?_, ?_⟩
    · rfl
    · have hrepls : s.repls = m.replsOf (below.map Prod.fst) := h.repls
      show refTriple (m.itemsAt below.length) found s.repls =
        refTriple (m.itemsAt (below.map Prod.fst).length) found (m.replsOf (below.map Prod.fst))
      rw [hrepls, List.length_map]
    · exact hroom
    · intro hfresh
      have hne : ¬ below.length+1 = m.problem.depth := by simpa using hfresh
      have hne' : ¬ below.length+1 = m.data.triples.length := hne
      show below.length+1 < m.data.triples.length
      omega
    · exact (List.length_set).trans hedgesLength
    · intro f b hs
      rcases hsuffix f b hs with ⟨rfl, rfl⟩ | ⟨hs, hlt⟩
      · show (s.edges.set below.length f.edge)[(below.map Prod.fst).length]? = some f.edge
        rw [List.length_map, List.getElem?_set_self (by omega)]
      · show (s.edges.set below.length found.edge)[b.length]? = some f.edge
        rw [List.getElem?_set_ne (by omega)]
        exact h.edges f b hs
    · exact (List.length_set).trans hresultLength
    · intro f b hs
      rcases hsuffix f b hs with ⟨rfl, rfl⟩ | ⟨hs, hlt⟩
      · show (s.resultAddrs.set (m.processOrder.getD below.length 0) f)[m.processOrder.getD
          (below.map Prod.fst).length 0]? = some f
        rw [List.length_map, List.getElem?_set_self (by rw [hjd]; omega)]
      · show (s.resultAddrs.set (m.processOrder.getD below.length 0) found)[m.processOrder.getD
          b.length 0]? = some f
        rw [List.getElem?_set_ne]
        · exact h.resultAddrs f b hs
        · intro he
          have hidx := hord.index_injective hroom (by omega) he
          omega

theorem SearchSetup.Matches.takeBack {found : Triple ScAddr} {it : List (Triple ScAddr)}
    {below : List (Triple ScAddr × List (Triple ScAddr))}
    (h : m.Matches s ⟨(found, it) :: below, false⟩) :
    ∃ s', m.takeBack s below.length (m.itemsAt below.length) = .ok s' ∧
      s'.iterators = it :: below.map Prod.snd ∧
      m.Matches { s' with newIteration := false, iterators := below.map Prod.snd } ⟨below, false⟩ := by
  have hrepls : s.repls = refTriple (m.itemsAt (below.map Prod.fst).length) found
      (m.replsOf (below.map Prod.fst)) := h.repls
  rw [List.length_map] at hrepls
  obtain ⟨R1, R2, h1, h2, h3⟩ := unref_refTriple m.asserts (replsOf_pos m (below.map Prod.fst))
    (m.itemsAt below.length) found
  have hedge := h.edges found (below.map Prod.fst) (List.suffix_refl _)
  rw [List.length_map] at hedge
  have hused : s.usedEdges = found.edge :: (below.map Prod.fst).map Triple.edge := h.usedEdges
  unfold SearchSetup.takeBack
  rw [hrepls, h1]
  simp only [StateExcept.ok_bind]
  rw [h2]
  simp only [StateExcept.ok_bind]
  rw [h3]
  simp only [StateExcept.ok_bind, hedge]
  refine ⟨_, rfl, h.iterators, ?_⟩
  have hsuffix (f : Triple ScAddr) (b : List (Triple ScAddr)) (hs : f :: b <:+ below.map Prod.fst) :
      f :: b <:+ Machine.choices ⟨(found, it) :: below, false⟩ := hs.trans (List.suffix_cons _ _)
  refine ⟨rfl, rfl, h.notFinished, ?_, rfl, ?_, fun hf => Bool.noConfusion hf, h.edgesLength,
    fun f b hs => h.edges f b (hsuffix f b hs), h.resultLength,
    fun f b hs => h.resultAddrs f b (hsuffix f b hs)⟩
  · show s.usedEdges.erase found.edge = (below.map Prod.fst).map Triple.edge
    rw [hused, List.erase_cons_head]
  · exact le_trans (Nat.le_succ _) h.depth

/-- A round of the search is a round of the machine. -/
theorem SearchSetup.Matches.round (hord : m.Ordered) (h : m.Matches s k) (hrun : k.Running) :
    match m.problem.round k with
    | .error e => m.round s = .error e
    | .ok r => ∃ s', m.round s = .ok (r.1, s') ∧ m.Matches s' r.2 := by
  obtain ⟨frames, fresh⟩ := k
  have hnew : s.newIteration = fresh := h.newIteration
  have hiter : s.iterators = frames.map Prod.snd := h.iterators
  cases fresh with
  | true =>
    have hroom : frames.length < m.data.triples.length := h.room rfl
    obtain ⟨j, hj, hjd, hjlt, htriple⟩ := hord.index hroom
    have hitems : m.data.items (m.data.triples.getD j ⟨0, 0, 0⟩) = m.itemsAt frames.length := by
      unfold SearchSetup.itemsAt
      rw [hjd]
    have hlen : s.iterators.length = frames.length := by
      rw [hiter, List.length_map]
    have hrepls : s.repls = m.replsOf (frames.map Prod.fst) := h.repls
    have hround : m.round s =
        (m.openIterator (m.replsOf (frames.map Prod.fst)) (m.itemsAt frames.length) >>= fun it =>
          m.advance s j (m.itemsAt frames.length) it s.iterators) := by
      unfold SearchSetup.round
      simp only [hnew, if_true, hlen, hj, htriple, hitems, hrepls]
    have hopens : m.problem.opens (frames.map Prod.fst) =
        m.openIterator (m.replsOf (frames.map Prod.fst)) (m.itemsAt frames.length) := by
      show m.openIterator _ (m.itemsAt (frames.map Prod.fst).length) = _
      rw [List.length_map]
    rw [hround]
    unfold Problem.round Machine.choices
    rw [if_pos rfl, hopens]
    cases m.openIterator (m.replsOf (frames.map Prod.fst)) (m.itemsAt frames.length) with
    | error e => rfl
    | ok it =>
      simp only [StateExcept.ok_bind]
      have hm : m.Matches { s with newIteration := true, iterators := frames.map Prod.snd }
          ⟨frames, true⟩ := by
        have hs : ({ s with newIteration := true, iterators := frames.map Prod.snd } : SearchState) = s := by
          rw [← hiter, ← hnew]
        rw [hs]
        exact h
      rw [hiter, ← hjd]
      exact hm.advance hord hroom
  | false =>
    cases frames with
    | nil =>
      rcases hrun with h0 | h0
      · exact absurd rfl h0
      · cases h0
    | cons frame below =>
      obtain ⟨found, it⟩ := frame
      have hroom : below.length < m.data.triples.length := h.depth
      obtain ⟨j, hj, hjd, hjlt, htriple⟩ := hord.index hroom
      have hitems : m.data.items (m.data.triples.getD j ⟨0, 0, 0⟩) = m.itemsAt below.length := by
        unfold SearchSetup.itemsAt
        rw [hjd]
      have hlen : s.iterators.length-1 = below.length := by
        rw [hiter, List.map_cons, List.length_cons, List.length_map]
        rfl
      obtain ⟨s1, htake, hit, hm⟩ := h.takeBack
      have hround : m.round s = m.advance s1 j (m.itemsAt below.length) it (below.map Prod.snd) := by
        unfold SearchSetup.round
        simp only [hnew, Bool.false_eq_true, if_false, hlen, hj, htriple, hitems, htake,
          StateExcept.ok_bind, hit]
      have hmachine : m.problem.round ⟨(found, it) :: below, false⟩ =
          .ok (m.problem.advance below it) := rfl
      rw [hmachine, hround, ← hjd]
      exact hm.advance hord hroom

/-- `Reset` leaves a state at the start of the machine. -/
theorem matches_reset (hord : m.Ordered) : m.Matches m.reset ⟨[], true⟩ := by
  have hnone (found : Triple ScAddr) (below : List (Triple ScAddr))
      (hs : found :: below <:+ Machine.choices ⟨[], true⟩) : False := by
    have hnil : found :: below = [] := List.suffix_nil.mp hs
    exact List.cons_ne_nil _ _ hnil
  exact ⟨rfl, rfl, rfl, rfl, rfl, Nat.zero_le _, fun _ => hord.nonempty, List.length_replicate,
    fun f b hs => (hnone f b hs).elim, List.length_replicate, fun f b hs => (hnone f b hs).elim⟩

end

end ScMachine.Template
