import ScMachine.ScpOperandValues

/-! The search for a superset of a given class (`scp_operator_interpreter_functions.c`) in a store at
rest. It follows the inclusions upwards without a record of where it has been. -/
namespace ScMachine.Scp
open ScMachine.Store ScMachine.Template ScMachine.Runs

section
variable (c : Cells) (ctx : ScContext) (nrelInclusion classNode : ScAddr)

/-- The search in the class for an element. -/
def foundInClass (x : ScAddr) : Bool :=
  (searchElStr3 c ctx (fixedOperand classNode) defaultArc (fixedOperand x)).1 = .true

/-- The iterator over the supersets of a set. -/
def supersetParams (set : ScAddr) : Iterator5Params :=
  .aaf varValue.elementType commonArc.elementType set ⟨defaultArc.elementType, .addr nrelInclusion⟩

/-- The rounds of the loop that are left; `superset` is what the operand holds. -/
def supersetLoop (recurse : ScAddr → ScAddr → Option (ScpResult × ScAddr)) :
    List FiveAddrs → ScAddr → Option (ScpResult × ScAddr)
  | [], superset => some (.true, superset)
  | (currSuperset, _) :: rest, superset =>
    if foundInClass c ctx classNode currSuperset then some (.true, currSuperset)
    else
      match recurse currSuperset superset with
      | none => none
      | some (result, superset) =>
        if result = .true then some (.true, superset) else supersetLoop recurse rest superset

/-- `search_superset_relating_to_given_class`, of at most as many calls inside each other: its result
and what `superset` holds. It does not return where a null iterator is read. -/
def searchSupersetRelatingToGivenClass : ℕ → ScAddr → ScAddr → Option (ScpResult × ScAddr)
  | 0, _, _ => none
  | fuel+1, set, superset =>
    -- without an element the first `next` is an error, which ends the loop
    if ¬ Live c set ∨ ¬ Live c nrelInclusion then some (.true, superset)
    else
      match iterator5 c ctx (supersetParams nrelInclusion set) with
      | none => none
      | some found =>
        supersetLoop c ctx classNode (searchSupersetRelatingToGivenClass fuel) found superset

/-- The superset that the iterator finds first. -/
def IsFirstSuperset (set superset : ScAddr) : Prop :=
  ((iterator5 c ctx (supersetParams nrelInclusion set)).getD []).head?.map Prod.fst = some superset

end

/-- The first is a superset of the second. -/
def Includes (c : Cells) (nrelInclusion superset set : ScAddr) : Prop :=
  ∃ e a, ValueArc c nrelInclusion superset e set a

/-- The element belongs to the class. -/
def BelongsTo (c : Cells) (classNode x : ScAddr) : Prop :=
  ∃ e, LiveArc c e ∧ ownerOf c .out e = classNode ∧ ownerOf c .inp e = x ∧
    HasType c e scpTypeArcPosConstPerm

/-- A member of the class is reached by one or more inclusions upwards. -/
def IsSupersetIn (c : Cells) (nrelInclusion classNode set x : ScAddr) : Prop :=
  Relation.TransGen (fun y z => Includes c nrelInclusion z y) set x ∧ BelongsTo c classNode x

/-- Whatever `superset` holds before, the search returns; it is true exactly if there is a superset in
the class, and then `superset` holds one. -/
def DecidesSupersets (c : Cells) (ctx : ScContext) (nrelInclusion classNode set : ScAddr) : Prop :=
  ∀ superset, ∃ result superset', (∃ n, ∀ fuel ≥ n,
      searchSupersetRelatingToGivenClass c ctx nrelInclusion classNode fuel set superset =
        some (result, superset')) ∧
    (result = .true ↔ ∃ x, IsSupersetIn c nrelInclusion classNode set x) ∧
    (result = .true → IsSupersetIn c nrelInclusion classNode set superset')

section
variable {c : Cells} {ctx : ScContext} {nrelInclusion classNode set x y : ScAddr}

theorem mem_supersets (hc : ArcsOk c) {t : FiveAddrs}
    (ht : t ∈ (iterator5 c ctx (supersetParams nrelInclusion set)).getD []) :
    Includes c nrelInclusion t.1 set := by
  obtain ⟨x, e, v, a, f⟩ := t
  have htype : Iterator5Params.ofType .aafaf (.type varValue.elementType)
    (.type commonArc.elementType)
      (.addr set) (.type defaultArc.elementType) (.addr nrelInclusion) =
        some (supersetParams nrelInclusion set) := rfl
  have h := (mem_iterator5 hc htype x e v a f).mp ht
  obtain ⟨_, he, _, ha, _⟩ := h.live
  obtain ⟨harc, hs, hv⟩ := h.first
  obtain ⟨hmark, hf, hi⟩ := h.second
  obtain ⟨_, hte, htv, hta, htf⟩ := h.fits
  refine ⟨e, a, ⟨he, harc⟩, hs, hv.trans htv, hte, ⟨ha, hmark⟩, hf.trans htf, hi, hta⟩

theorem IsFirstSuperset.includes (hc : ArcsOk c) (h : IsFirstSuperset c ctx nrelInclusion set x) :
    Includes c nrelInclusion x set := by
  obtain ⟨t, ht, rfl⟩ := Option.map_eq_some_iff.mp h
  exact mem_supersets hc (List.mem_of_mem_head? ht)

/-- What is found in the class belongs to it, and the other way round where everything may be read. -/
theorem foundInClass_iff (hc : ArcsOk c) : foundInClass c ctx classNode x = true ↔
    ∃ e, IsTriple c (.addr classNode) (.type scpTypeArcPosConstPerm) (.addr x) ⟨classNode, e, x⟩ ∧
      ReadableTriple c ctx ⟨classNode, e, x⟩ := by
  have hmem (t : Triple ScAddr) := @mem_iterator3 c ctx _ _ _ _ hc _
    (show listParams (.faf classNode scpTypeArcPosConstPerm x) = some _ from rfl) ⟨rfl, rfl, rfl⟩ t
  have hsearch : searchElStr3 c ctx (fixedOperand classNode) defaultArc (fixedOperand x) =
      if ¬ Live c classNode ∨ ¬ Live c x then
        (.error, fixedOperand classNode, defaultArc, fixedOperand x)
      else searchElStr3FAF c ctx (fixedOperand classNode) defaultArc (fixedOperand x) := by
    unfold searchElStr3
    rw [noValue_fixed, noValue_fixed]
    change (if (decide _ || false || false || decide _) = true then _ else _) = _
    simp only [Bool.or_false, Bool.or_eq_true, decide_eq_true_eq]
    rfl
  unfold foundInClass
  rw [hsearch, decide_eq_true_eq]
  constructor
  · intro h
    split_ifs at h with hlive
    unfold searchElStr3FAF iterated at h
    split at h
    · rename_i t ht
      have hfits := (hmem t).mp (List.mem_of_mem_head? ht)
      obtain ⟨source, e, target⟩ := t
      obtain rfl : source = classNode := hfits.1.fits.1
      obtain rfl : target = x := hfits.1.fits.2.2
      exact ⟨e, hfits⟩
    · cases h
  · rintro ⟨e, htriple⟩
    have hs : Live c classNode := by
      have h := hc.endpoint e .out htriple.1.arc
      rwa [htriple.1.source] at h
    have ht : Live c x := by
      have h := hc.endpoint e .inp htriple.1.arc
      rwa [htriple.1.target] at h
    have hin := (hmem ⟨classNode, e, x⟩).mpr htriple
    rw [if_neg fun h => h.elim (fun h => h hs) fun h => h ht]
    unfold searchElStr3FAF iterated
    split
    · rfl
    · rename_i hnone
      have hnil := List.head?_eq_none_iff.mp hnone
      exact absurd (hnil ▸ hin) List.not_mem_nil

theorem foundInClass_belongsTo (hc : ArcsOk c) (h : foundInClass c ctx classNode x = true) :
    BelongsTo c classNode x := by
  obtain ⟨e, ht, _⟩ := (foundInClass_iff hc).mp h
  exact ⟨e, ht.arc, ht.source, ht.target, ht.fits.2.1⟩

/-! The chain of first supersets. -/

/-- Every way out of the function is a true result. -/
theorem supersetLoop_true {recurse : ScAddr → ScAddr → Option (ScpResult × ScAddr)}
    {found : List FiveAddrs}
    {superset : ScAddr} {r : ScpResult × ScAddr}
    (h : supersetLoop c ctx classNode recurse found superset = some r) : r.1 = .true := by
  induction found generalizing superset with
  | nil => exact Option.some.inj h ▸ rfl
  | cons t rest ih =>
    unfold supersetLoop at h
    split_ifs at h with hin
    · exact Option.some.inj h ▸ rfl
    · cases hrec : recurse t.1 superset with
      | none =>
        rw [hrec] at h
        cases h
      | some q =>
        rw [hrec] at h
        dsimp only at h
        split_ifs at h
        · exact Option.some.inj h ▸ rfl
        · exact ih h

theorem search_true {fuel : ℕ} {superset : ScAddr} {r : ScpResult × ScAddr}
    (h : searchSupersetRelatingToGivenClass c ctx nrelInclusion classNode fuel set superset =
      some r) :
    r.1 = .true := by
  cases fuel with
  | zero => cases h
  | succ fuel =>
    unfold searchSupersetRelatingToGivenClass at h
    split_ifs at h
    · exact Option.some.inj h ▸ rfl
    · split at h
      · cases h
      · exact supersetLoop_true h

/-- The loop ends in its first round, which finds the first superset in the class or takes the
result of the search from there. -/
theorem search_first (hc : ArcsOk c) (hfirst : IsFirstSuperset c ctx nrelInclusion set x) (fuel : ℕ)
    (superset : ScAddr) :
    searchSupersetRelatingToGivenClass c ctx nrelInclusion classNode (fuel+1) set superset =
      if foundInClass c ctx classNode x then some (.true, x)
      else searchSupersetRelatingToGivenClass c ctx nrelInclusion classNode fuel x superset := by
  obtain ⟨e, a, hv⟩ := hfirst.includes hc
  obtain ⟨_, hset, hn⟩ := hv.live hc
  obtain ⟨t, ht, rfl⟩ := Option.map_eq_some_iff.mp hfirst
  rw [searchSupersetRelatingToGivenClass, if_neg fun h => h.elim (fun h => h hset) fun h => h hn]
  cases hiter : iterator5 c ctx (supersetParams nrelInclusion set) with
  | none =>
    rw [hiter] at ht
    cases ht
  | some found =>
    rw [hiter] at ht
    obtain ⟨rest, rfl⟩ : ∃ rest, found = t :: rest := List.head?_eq_some_iff.mp ht
    change supersetLoop c ctx classNode _ (t :: rest) superset = _
    rw [supersetLoop]
    split_ifs
    · rfl
    · cases hrec : searchSupersetRelatingToGivenClass c ctx nrelInclusion classNode fuel t.1
        superset with
      | none => rfl
      | some r =>
        obtain ⟨result, superset'⟩ := r
        obtain rfl : result = .true := search_true hrec
        rfl

/-- Where the chain ends, so does the search, and `superset` is as before. -/
theorem search_last (hlast : ∀ x, ¬ IsFirstSuperset c ctx nrelInclusion set x) {fuel : ℕ}
    {superset : ScAddr} {r : ScpResult × ScAddr}
    (h : searchSupersetRelatingToGivenClass c ctx nrelInclusion classNode fuel set superset =
      some r) :
    r.2 = superset := by
  cases fuel with
  | zero => cases h
  | succ fuel =>
    rw [searchSupersetRelatingToGivenClass] at h
    split_ifs at h
    · exact Option.some.inj h ▸ rfl
    · cases hiter : iterator5 c ctx (supersetParams nrelInclusion set) with
      | none =>
        rw [hiter] at h
        cases h
      | some found =>
        rw [hiter] at h
        cases found with
        | nil => exact Option.some.inj h ▸ rfl
        | cons t rest =>
          refine absurd ?_ (hlast t.1)
          unfold IsFirstSuperset
          rw [hiter]
          rfl

/-- A member of the class on the chain is found. -/
theorem search_finds (hc : ArcsOk c)
    (hchain : Relation.TransGen (IsFirstSuperset c ctx nrelInclusion) set x)
    (hx : foundInClass c ctx classNode x = true) (superset : ScAddr) :
    ∃ y n, IsSupersetIn c nrelInclusion classNode set y ∧ ∀ fuel ≥ n,
      searchSupersetRelatingToGivenClass c ctx nrelInclusion classNode fuel set superset =
        some (.true, y) := by
  induction hchain using Relation.TransGen.head_induction_on with
  | single hfirst =>
    refine ⟨x, 1, ⟨.single (hfirst.includes hc), foundInClass_belongsTo hc hx⟩, fun fuel hfuel => ?_⟩
    obtain ⟨fuel, rfl⟩ := Nat.exists_eq_add_of_le' hfuel
    rw [search_first hc hfirst, if_pos hx]
  | @head set next hfirst _ ih =>
    by_cases hnext : foundInClass c ctx classNode next = true
    · refine ⟨next, 1, ⟨.single (hfirst.includes hc), foundInClass_belongsTo hc hnext⟩,
        fun fuel hfuel => ?_⟩
      obtain ⟨fuel, rfl⟩ := Nat.exists_eq_add_of_le' hfuel
      rw [search_first hc hfirst, if_pos hnext]
    · obtain ⟨y, n, ⟨hreach, hy⟩, hn⟩ := ih
      refine ⟨y, n+1, ⟨.head (hfirst.includes hc) hreach, hy⟩, fun fuel hfuel => ?_⟩
      obtain ⟨fuel, rfl⟩ : ∃ k, fuel = k+1 := ⟨fuel-1, by omega⟩
      rw [search_first hc hfirst, if_neg hnext]
      exact hn fuel (by omega)

/-- What the search stores is a member of the class on the chain. -/
theorem search_stores (hc : ArcsOk c) {fuel : ℕ} {superset : ScAddr} {r : ScpResult × ScAddr}
    (h : searchSupersetRelatingToGivenClass c ctx nrelInclusion classNode fuel set superset =
      some r) :
    r.2 = superset ∨ ∃ x, Relation.TransGen (IsFirstSuperset c ctx nrelInclusion) set x ∧
      foundInClass c ctx classNode x = true := by
  induction fuel generalizing set with
  | zero => cases h
  | succ fuel ih =>
    by_cases hfirst : ∃ x, IsFirstSuperset c ctx nrelInclusion set x
    · obtain ⟨x, hfirst⟩ := hfirst
      rw [search_first hc hfirst] at h
      split_ifs at h with hx
      · exact Or.inr ⟨x, .single hfirst, hx⟩
      · rcases ih h with hsame | ⟨y, hchain, hy⟩
        · exact Or.inl hsame
        · exact Or.inr ⟨y, .head hfirst hchain, hy⟩
    · exact Or.inl (search_last (fun x hx => hfirst ⟨x, hx⟩) h)

/-- On a chain that goes on outside of the class, as every cycle does, the search does not return. -/
theorem search_diverges (hc : ArcsOk c) {P : ScAddr → Prop}
    (hchain : ∀ y, P y → ∃ z, IsFirstSuperset c ctx nrelInclusion y z ∧
      foundInClass c ctx classNode z = false ∧ P z)
    (hset : P set) (superset : ScAddr) (fuel : ℕ) :
    searchSupersetRelatingToGivenClass c ctx nrelInclusion classNode fuel set superset = none := by
  induction fuel generalizing set with
  | zero => rfl
  | succ fuel ih =>
    obtain ⟨z, hfirst, hout, hz⟩ := hchain set hset
    rw [search_first hc hfirst, hout, if_neg Bool.false_ne_true]
    exact ih hz

/-- The search decides whether there is a superset in the class exactly if the chain of first
supersets comes to one: at the end of the chain it is true all the same, and a cycle it does not
leave. -/
theorem superset_search_decides_iff (thread : ℕ) (evs : List StoreEvent) (st : ScStorage)
    (hr : Run (OwnStep thread) ScStorage.empty evs st) (ctx : ScContext)
    (nrelInclusion classNode set : ScAddr) :
    DecidesSupersets st.cell ctx nrelInclusion classNode set ↔
      ∃ x, Relation.TransGen (IsFirstSuperset st.cell ctx nrelInclusion) set x ∧
        foundInClass st.cell ctx classNode x = true := by
  have hc := (ownRun_storeOk evs st hr).cells.arcs
  constructor
  · intro h
    obtain ⟨result, superset, ⟨n, hn⟩, _, hstored⟩ := h ScAddr.empty
    have hrun := hn n le_rfl
    have htrue : result = .true := search_true hrun
    rcases search_stores hc hrun with hsame | hfound
    · -- nothing has been stored
      obtain ⟨_, e, harc, _, hi, _⟩ := hstored htrue
      have hlive := hc.endpoint e .inp harc
      rw [hi] at hlive
      exact absurd (hsame ▸ hlive) hc.notEmpty
    · exact hfound
  · rintro ⟨x, hchain, hx⟩ superset
    obtain ⟨y, n, hy, hn⟩ := search_finds hc hchain hx superset
    exact ⟨.true, y, ⟨n, hn⟩, iff_of_true rfl ⟨y, hy⟩, fun _ => hy⟩

theorem superset_search_decides_value :
    DecidesSupersets storeWithValue.cell exampleContext ⟨0, 1⟩ ⟨0, 1⟩ ⟨0, 65⟩ ↔
      ∃ x, Relation.TransGen (IsFirstSuperset storeWithValue.cell exampleContext ⟨0, 1⟩) ⟨0, 65⟩ x ∧
        foundInClass storeWithValue.cell exampleContext ⟨0, 1⟩ x = true :=
  superset_search_decides_iff 1 valueEvents storeWithValue storeWithValue_run exampleContext ⟨0, 1⟩
    ⟨0, 1⟩ ⟨0, 65⟩

/-- A set without any superset: the search is true, and stores nothing. -/
theorem superset_search_exhausted :
    Run (OwnStep 1) ScStorage.empty valueEvents storeWithValue ∧
      searchSupersetRelatingToGivenClass storeWithValue.cell exampleContext ⟨0, 1⟩ ⟨0, 65⟩ 1 ⟨0, 33⟩
        ScAddr.empty = some (.true, ScAddr.empty) ∧
      (∀ x, ¬ Includes storeWithValue.cell ⟨0, 1⟩ x ⟨0, 33⟩) ∧
      ¬ DecidesSupersets storeWithValue.cell exampleContext ⟨0, 1⟩ ⟨0, 65⟩ ⟨0, 33⟩ := by
  have hc := (ownRun_storeOk _ _ storeWithValue_run).cells.arcs
  have hno : ∀ x, ¬ Includes storeWithValue.cell ⟨0, 1⟩ x ⟨0, 33⟩ := by
    intro x ⟨e, a, hv⟩
    have hlist : Live storeWithValue.cell ⟨0, 33⟩ ∧ arcList storeWithValue.cell .inp ⟨0, 33⟩ =
      [] := by
      decide +kernel
    have he := ((hc.arcList hlist.1).mem e).mpr ⟨hv.arc, hv.target⟩
    rw [hlist.2] at he
    cases he
  have hrun : searchSupersetRelatingToGivenClass storeWithValue.cell exampleContext ⟨0, 1⟩ ⟨0, 65⟩ 1
      ⟨0, 33⟩ ScAddr.empty = some (.true, ScAddr.empty) := by
    decide +kernel
  refine ⟨storeWithValue_run, hrun, hno, fun h => ?_⟩
  obtain ⟨result, superset, ⟨n, hn⟩, hiff, _⟩ := h ScAddr.empty
  have htrue : result = .true := search_true (hn n le_rfl)
  obtain ⟨x, hreach, _⟩ := hiff.mp htrue
  obtain ⟨y, hy, _⟩ := Relation.TransGen.head'_iff.mp hreach
  exact hno y hy

end

end ScMachine.Scp
