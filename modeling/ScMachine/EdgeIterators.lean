import ScMachine.IteratorExact

/-! The iterators whose second element is fixed, beside what they are to yield: the arc, if it is one
that joins what the iterator asks for. -/
namespace ScMachine.Store
open ScMachine.StateExcept ScMachine.Runs ScMachine.Enumeration

/-- What the iterator asks for at the first and at the third place. -/
def Iterator3Params.beginParam : Iterator3Params → ScIteratorParam
  | .faa beg _ _ | .faf beg _ _ | .ffa beg _ _ | .fff beg _ _ => .addr beg
  | .aaf begType _ _ | .afa begType _ _ | .aff begType _ _ => .type begType

def Iterator3Params.endParam : Iterator3Params → ScIteratorParam
  | .aaf _ _ end_ | .faf _ _ end_ | .aff _ _ end_ | .fff _ _ end_ => .addr end_
  | .faa _ _ endType | .afa _ _ endType | .ffa _ _ endType => .type endType

/-- A fixed end is that element. -/
def ScIteratorParam.Is (x : ScAddr) : ScIteratorParam → Prop
  | .addr a => a = x
  | .type _ => True

/-- A fixed end is live, and the context may read it. -/
def ScIteratorParam.Given (c : Cells) (ctx : ScContext) : ScIteratorParam → Prop
  | .addr a => Live c a ∧ CanRead ctx c a
  | .type _ => True

/-- An end that is not fixed has the type, and the context may read it. -/
def ScIteratorParam.Found (c : Cells) (ctx : ScContext) (x : ScAddr) : ScIteratorParam → Prop
  | .addr _ => True
  | .type t => CanRead ctx c x ∧ HasType c x t

instance (x : ScAddr) (p : ScIteratorParam) : Decidable (p.Is x) := by
  cases p <;> unfold ScIteratorParam.Is <;> infer_instance

instance (c : Cells) (ctx : ScContext) (x : ScAddr) (p : ScIteratorParam) :
    Decidable (p.Found c ctx x) := by
  cases p <;> unfold ScIteratorParam.Found <;> infer_instance

instance (c : Cells) (ctx : ScContext) (p : ScIteratorParam) : Decidable (p.Given c ctx) := by
  cases p <;> unfold ScIteratorParam.Given <;> infer_instance

section
variable (c : Cells) (ctx : ScContext) (params : Iterator3Params)

/-- The words of the second element that are the begin and the end of an arc are the fixed ends. -/
def EndsAre : Prop :=
  params.beginParam.Is (ownerOf c .out params.edge) ∧ params.endParam.Is (ownerOf c .inp params.edge)

def EndsGiven : Prop := params.beginParam.Given c ctx ∧ params.endParam.Given c ctx

def EndsFound : Prop :=
  params.beginParam.Found c ctx (ownerOf c .out params.edge) ∧
    params.endParam.Found c ctx (ownerOf c .inp params.edge)

/-- The second element is an arc that the context may read and that joins what is asked for. -/
def IsTriple : Prop :=
  LiveArc c params.edge ∧ CanRead ctx c params.edge ∧ EndsAre c params ∧ EndsFound c ctx params

instance : Decidable (EndsAre c params) := inferInstanceAs (Decidable (_ ∧ _))

instance : Decidable (EndsGiven c ctx params) := inferInstanceAs (Decidable (_ ∧ _))

instance : Decidable (EndsFound c ctx params) := inferInstanceAs (Decidable (_ ∧ _))

instance : Decidable (IsTriple c ctx params) := inferInstanceAs (Decidable (_ ∧ _ ∧ _ ∧ _))

/-- What the calls yield. -/
def edgeYield : List (ScAddr × ScAddr × ScAddr) :=
  if params.Creatable c ctx ∧ EndsAre c params then [arcTriple c params.edge] else []

/-- What they are to yield. -/
def edgeTriples : List (ScAddr × ScAddr × ScAddr) :=
  if IsTriple c ctx params then [arcTriple c params.edge] else []

/-- What an iterator yields that walks along a list of the same ends, as far as it is about the
second element. -/
def listedTriples : List (ScAddr × ScAddr × ScAddr) :=
  match params with
  | .afa begType edge endType =>
    (outTriples c ctx (ownerOf c .out edge) 0 endType).filter fun t =>
      t.2.1 = edge ∧ HasType c t.1 begType
  | .ffa beg edge endType => (outTriples c ctx beg 0 endType).filter fun t => t.2.1 = edge
  | .aff begType edge end_ => (inpTriples c ctx begType 0 end_).filter fun t => t.2.1 = edge
  | .fff beg edge end_ => (betweenTriples c ctx beg 0 end_).filter fun t => t.2.1 = edge
  | _ => []

end

section
variable {env : ScEnv} {L : SectionKey → LockWord} {c : Cells} {base : ScAddr → ℤ}
  {st s : ScStorage} {ctx : ScContext} {E : ScStop → Prop} {params : Iterator3Params}
  {it : ScIterator3} {l : List ScAddr} {e : ScAddr}

theorem creatable_iff (hp : params.arcs = none) :
    params.Creatable c ctx ↔
      (Live c params.edge ∧ CanRead ctx c params.edge) ∧ EndsGiven c ctx params := by
  unfold Iterator3Params.Creatable EndsGiven
  cases params with
  | faa _ _ _ => cases hp
  | aaf _ _ _ => cases hp
  | faf _ _ _ => cases hp
  | afa _ edge _ =>
    simp [Iterator3Params.fixed, Iterator3Params.edge, Iterator3Params.beginParam,
      Iterator3Params.endParam, ScIteratorParam.Given]
  | ffa beg edge _ =>
    simp [Iterator3Params.fixed, Iterator3Params.edge, Iterator3Params.beginParam,
      Iterator3Params.endParam, ScIteratorParam.Given, and_comm]
  | aff _ edge end_ =>
    simp [Iterator3Params.fixed, Iterator3Params.edge, Iterator3Params.beginParam,
      Iterator3Params.endParam, ScIteratorParam.Given]
  | fff beg edge end_ =>
    simp [Iterator3Params.fixed, Iterator3Params.edge, Iterator3Params.beginParam,
      Iterator3Params.endParam, ScIteratorParam.Given, and_left_comm]

theorem endsFit_iff (hp : params.arcs = none) :
    params.endsFit (c params.edge) = true ↔ EndsAre c params := by
  unfold EndsAre
  cases params with
  | faa _ _ _ => cases hp
  | aaf _ _ _ => cases hp
  | faf _ _ _ => cases hp
  | afa _ _ _ => exact iff_of_true rfl ⟨trivial, trivial⟩
  | ffa _ _ _ => exact decide_eq_true_iff.trans (and_iff_left trivial).symm
  | aff _ _ _ => exact decide_eq_true_iff.trans (and_iff_right trivial).symm
  | fff _ _ _ => exact Bool.and_eq_true_iff.trans (and_congr decide_eq_true_iff decide_eq_true_iff)

/-- The iterator has not been called yet, or it has nothing left. -/
def EdgeAt (env : ScEnv) (L : SectionKey → LockWord) (c : Cells) (base : ScAddr → ℤ)
    (ctx : ScContext) (params : Iterator3Params) (l : List (ScAddr × ScAddr × ScAddr))
    (it : ScIterator3) (s : ScStorage) : Prop :=
  Iterating env L [] c base params.fixed s ∧
    ((it = params.fresh ctx ∧ l = if EndsAre c params then [arcTriple c params.edge] else []) ∨
      (it.finished = true ∧ l = []))

/-- The first call reads the cell, whatever it holds, and there is no second result. -/
theorem edge_cursor (hset : Undisturbed env L c base) (hp : params.arcs = none)
    (hlive : ∀ a ∈ params.fixed, Live c a) :
    Cursor (nextTriple env) (EdgeAt env L c base ctx params) E := by
  have hfirst (unset : ScAddr → ScType) (s : ScStorage)
      (h : Iterating env L [] c base params.fixed s) :
      Wp (nextTriple env unset (params.fresh ctx))
        (fun r s' => r.1 = (if EndsAre c params then some (arcTriple c params.edge) else none) ∧
          EdgeAt env L c base ctx params [] r.2 s') E s := by
    have hnext : scIterator3Next env unset (params.fresh ctx) = (do
        let el ← readEdge env params.edge
        return edgeResult (params.fresh ctx) params.edge el (params.endsFit el)) :=
      next_edge_eq hp rfl unset
    unfold nextTriple
    rw [hnext, wp_bind, wp_bind]
    apply wp_mono (readEdge_wp hset (hlive _ (edge_mem_fixed hp)) h) _ (fun _ he => he)
    rintro el s1 ⟨hel, h1⟩
    subst hel
    rw [wp_pure, wp_pure]
    have hfit := endsFit_iff (c := c) hp
    have hfinished := (edgeResult_same (params.fresh ctx) params.edge (c params.edge)
      (params.endsFit (c params.edge))).2.2
    refine ⟨?_, h1, Or.inr ⟨hfinished, rfl⟩⟩
    by_cases hends : EndsAre c params
    · have hfound : params.endsFit (c params.edge) = true := hfit.mpr hends
      simp only [Iterator3Params.fresh, hfound, edgeResult, if_true, if_pos hends]
      rfl
    · have hfound : params.endsFit (c params.edge) = false :=
        Bool.eq_false_iff.mpr (fun h => hends (hfit.mp h))
      simp only [Iterator3Params.fresh, hfound, edgeResult, Bool.false_eq_true, if_false,
        if_neg hends]
  have hlater (unset : ScAddr → ScType) (it : ScIterator3) (s : ScStorage)
      (h : Iterating env L [] c base params.fixed s) (hfinished : it.finished = true) :
      Wp (nextTriple env unset it) (fun r s' => r.1 = none ∧ EdgeAt env L c base ctx params [] r.2 s')
        E s := by
    unfold nextTriple scIterator3Next
    rw [if_pos hfinished, wp_bind, wp_pure, wp_pure]
    exact ⟨rfl, h, Or.inr ⟨hfinished, rfl⟩⟩
  constructor
  · rintro unset y l it s ⟨h, hat⟩
    rcases hat with ⟨rfl, hl⟩ | ⟨_, hl⟩
    · apply wp_mono (hfirst unset s h) _ (fun _ he => he)
      rintro r s' ⟨hr, hat'⟩
      split_ifs at hl hr with hends
      obtain ⟨rfl, rfl⟩ := List.cons.inj hl
      exact ⟨hr, hat'⟩
    · cases hl
  · rintro unset it s ⟨h, hat⟩
    rcases hat with ⟨rfl, hl⟩ | ⟨hfinished, _⟩
    · apply wp_mono (hfirst unset s h) _ (fun _ he => he)
      rintro r s' ⟨hr, hat'⟩
      split_ifs at hl hr with hends
      exact ⟨hr, hat'⟩
    · exact hlater unset it s h hfinished

/-- The calls yield the second element whatever it is, if its words are the fixed ends. -/
theorem edge_iterate3_enumerates (hok : StoreOk env.thread st) (ctx : ScContext)
    (hp : params.arcs = none) :
    Enumerates (iterate3 env (params.create env ctx)) st (CreateRoom st params)
      (edgeYield st.cell ctx params) := by
  have hen := iterate3_of_cursor hok ctx params
    (if EndsAre st.cell params then [arcTriple st.cell params.edge] else [])
    (EdgeAt env st.locks st.cell st.refCount ctx params)
    (fun hc => edge_cursor (undisturbed_of_storeOk hok) hp (fun a ha => (hc a ha).1))
    (fun s h => ⟨by rwa [List.append_nil] at h, Or.inl ⟨rfl, rfl⟩⟩)
  apply hen.congr (fun hroom => hroom)
  unfold edgeYield
  by_cases hc : params.Creatable st.cell ctx
  · simp only [hc, true_and, if_true]
  · simp only [hc, false_and, if_false]

/-- Of a list without repetitions the filter leaves one entry of a given value at most. -/
theorem filter_one {β : Type} (hl : l.Nodup) (p : ScAddr → Prop) [DecidablePred p]
    (f : ScAddr → β) (q : β → Prop) [DecidablePred q] (r : Prop) [Decidable r]
    (hq : ∀ x, q (f x) ↔ x = e ∧ r) :
    ((l.filter fun x => p x).map f).filter (fun t => q t) =
      if e ∈ l ∧ p e ∧ r then [f e] else [] := by
  rw [List.filter_map, List.filter_filter]
  have hsame : (l.filter fun x => ((fun t => decide (q t)) ∘ f) x && decide (p x)) =
      (l.filter fun x => x == e).filter (fun x => decide (p x) && decide r) := by
    rw [List.filter_filter]
    apply List.filter_congr
    intro x _
    simp only [Function.comp_apply, hq, Bool.decide_and]
    by_cases hx : x = e
    · simp [hx, Bool.and_comm]
    · simp [hx]
  rw [hsame]
  by_cases he : e ∈ l
  · have hone : (l.filter fun x => x == e) = [e] := by
      rw [List.filter_beq, List.count_eq_one_of_mem hl he]
      rfl
    rw [hone]
    by_cases hpr : p e ∧ r
    · simp [he, hpr.1, hpr.2]
    · rw [if_neg (fun h => hpr h.2), List.filter_singleton]
      have hfalse : (decide (p e) && decide r) = false := by
        rw [← Bool.decide_and]
        exact decide_eq_false hpr
      rw [hfalse]
      rfl
  · have hnone : (l.filter fun x => x == e) = [] := by
      rw [List.filter_beq, List.count_eq_zero.mpr he]
      rfl
    rw [hnone, if_neg (fun h => he h.1)]
    rfl

theorem hasType_zero (c : Cells) (x : ScAddr) : HasType c x 0 := BitVec.zero_and

theorem single_congr {β : Type} {P Q : Prop} [Decidable P] [Decidable Q] {x y : β} (h : P ↔ Q)
    (hxy : P → x = y) : (if P then [x] else []) = (if Q then [y] else []) := by
  by_cases hP : P
  · rw [if_pos hP, if_pos (h.mp hP), hxy hP]
  · rw [if_neg hP, if_neg (fun hQ => hP (h.mpr hQ))]

/-- The entry of one arc in the list of its begin. -/
theorem outTriples_filter (harcs : ArcsOk c) (beg : ScAddr) (endType : ScType)
    (q : ScAddr × ScAddr × ScAddr → Prop) [DecidablePred q] (r : Prop) [Decidable r]
    (hq : ∀ x, q (beg, x, ownerOf c .inp x) ↔ x = e ∧ r) :
    ((outTriples c ctx beg 0 endType).filter fun t => q t) =
      if (Live c beg ∧ CanRead ctx c beg) ∧ (LiveArc c e ∧ ownerOf c .out e = beg) ∧
          (HasType c (ownerOf c .inp e) endType ∧ CanRead ctx c e ∧
            CanRead ctx c (ownerOf c .inp e)) ∧ r then
        [arcTriple c e]
      else [] := by
  unfold outTriples
  by_cases hbeg : Live c beg ∧ CanRead ctx c beg
  · have hchain := harcs.arcList hbeg.1 (d := .out)
    rw [if_pos hbeg, filter_one hchain.nodup _ _ q r hq]
    apply single_congr
    · rw [hchain.mem e]
      simp only [hasType_zero, true_and, hbeg, and_self]
    · intro h
      rw [arcTriple, ((hchain.mem e).mp h.1).2]
  · rw [if_neg hbeg, if_neg (fun h => hbeg h.1)]
    rfl

theorem inpTriples_filter (harcs : ArcsOk c) (begType : ScType) (end_ : ScAddr) :
    ((inpTriples c ctx begType 0 end_).filter fun t => t.2.1 = e) =
      if (Live c end_ ∧ CanRead ctx c end_) ∧ (LiveArc c e ∧ ownerOf c .inp e = end_) ∧
          (HasType c (ownerOf c .out e) begType ∧ CanRead ctx c e ∧
            CanRead ctx c (ownerOf c .out e)) then
        [arcTriple c e]
      else [] := by
  unfold inpTriples
  by_cases hend : Live c end_ ∧ CanRead ctx c end_
  · have hchain := harcs.arcList hend.1 (d := .inp)
    rw [if_pos hend, filter_one hchain.nodup _ _ _ True (fun x => (and_iff_left trivial).symm)]
    apply single_congr
    · rw [hchain.mem e]
      simp only [hasType_zero, true_and, hend, and_self, and_true]
    · intro h
      rw [arcTriple, ((hchain.mem e).mp h.1).2]
  · rw [if_neg hend, if_neg (fun h => hend h.1)]
    rfl

theorem betweenTriples_filter (harcs : ArcsOk c) (beg end_ : ScAddr) :
    ((betweenTriples c ctx beg 0 end_).filter fun t => t.2.1 = e) =
      if ((Live c beg ∧ CanRead ctx c beg) ∧ Live c end_ ∧ CanRead ctx c end_) ∧
          (LiveArc c e ∧ ownerOf c .inp e = end_) ∧ ownerOf c .out e = beg ∧ CanRead ctx c e then
        [arcTriple c e]
      else [] := by
  unfold betweenTriples
  by_cases hends : (Live c beg ∧ CanRead ctx c beg) ∧ Live c end_ ∧ CanRead ctx c end_
  · have hchain := harcs.arcList hends.2.1 (d := .inp)
    rw [if_pos hends, filter_one hchain.nodup _ _ _ True (fun x => (and_iff_left trivial).symm)]
    apply single_congr
    · rw [hchain.mem e]
      simp only [hasType_zero, true_and, hends, and_self, and_true]
    · intro h
      rw [arcTriple, ((hchain.mem e).mp h.1).2, h.2.1.1]
  · rw [if_neg hends, if_neg (fun h => hends h.1)]
    rfl

/-- The lists of the ends agree with the triple, as far as the context may read the ends. -/
theorem listedTriples_eq (harcs : ArcsOk c) (hp : params.arcs = none) :
    listedTriples c ctx params =
      if IsTriple c ctx params ∧ EndsGiven c ctx params then [arcTriple c params.edge] else [] := by
  have hlive {x : ScAddr} (hx : LiveArc c x) (d : Dir) : Live c (ownerOf c d x) :=
    harcs.endpoint x d hx
  unfold listedTriples IsTriple EndsAre EndsFound EndsGiven
  cases params with
  | faa _ _ _ => cases hp
  | aaf _ _ _ => cases hp
  | faf _ _ _ => cases hp
  | afa begType edge endType =>
    dsimp only [Iterator3Params.edge, Iterator3Params.beginParam, Iterator3Params.endParam,
      ScIteratorParam.Is, ScIteratorParam.Given, ScIteratorParam.Found]
    rw [outTriples_filter (e := edge) harcs (ownerOf c .out edge) endType _
      (HasType c (ownerOf c .out edge) begType) (fun x => Iff.rfl)]
    apply single_congr _ (fun _ => rfl)
    constructor
    · rintro ⟨⟨_, hbeg⟩, ⟨harc, _⟩, ⟨htype, hread, hend⟩, hbegType⟩
      exact ⟨⟨harc, hread, ⟨trivial, trivial⟩, ⟨hbeg, hbegType⟩, hend, htype⟩, trivial, trivial⟩
    · rintro ⟨⟨harc, hread, _, ⟨hbeg, hbegType⟩, hend, htype⟩, _⟩
      exact ⟨⟨hlive harc .out, hbeg⟩, ⟨harc, rfl⟩, ⟨htype, hread, hend⟩, hbegType⟩
  | ffa beg edge endType =>
    dsimp only [Iterator3Params.edge, Iterator3Params.beginParam, Iterator3Params.endParam,
      ScIteratorParam.Is, ScIteratorParam.Given, ScIteratorParam.Found]
    rw [outTriples_filter (e := edge) harcs beg endType _ True (fun x => (and_iff_left trivial).symm)]
    apply single_congr _ (fun _ => rfl)
    constructor
    · rintro ⟨hbeg, ⟨harc, howner⟩, ⟨htype, hread, hend⟩, _⟩
      exact ⟨⟨harc, hread, ⟨howner.symm, trivial⟩, trivial, hend, htype⟩, hbeg, trivial⟩
    · rintro ⟨⟨harc, hread, ⟨howner, _⟩, _, hend, htype⟩, hbeg, _⟩
      exact ⟨hbeg, ⟨harc, howner.symm⟩, ⟨htype, hread, hend⟩, trivial⟩
  | aff begType edge end_ =>
    dsimp only [Iterator3Params.edge, Iterator3Params.beginParam, Iterator3Params.endParam,
      ScIteratorParam.Is, ScIteratorParam.Given, ScIteratorParam.Found]
    rw [inpTriples_filter harcs begType end_]
    apply single_congr _ (fun _ => rfl)
    constructor
    · rintro ⟨hend, ⟨harc, howner⟩, htype, hread, hbeg⟩
      exact ⟨⟨harc, hread, ⟨trivial, howner.symm⟩, ⟨hbeg, htype⟩, trivial⟩, trivial, hend⟩
    · rintro ⟨⟨harc, hread, ⟨_, howner⟩, ⟨hbeg, htype⟩, _⟩, _, hend⟩
      exact ⟨hend, ⟨harc, howner.symm⟩, htype, hread, hbeg⟩
  | fff beg edge end_ =>
    dsimp only [Iterator3Params.edge, Iterator3Params.beginParam, Iterator3Params.endParam,
      ScIteratorParam.Is, ScIteratorParam.Given, ScIteratorParam.Found]
    rw [betweenTriples_filter harcs beg end_]
    apply single_congr _ (fun _ => rfl)
    constructor
    · rintro ⟨hgiven, ⟨harc, howner⟩, hbeg, hread⟩
      exact ⟨⟨harc, hread, ⟨hbeg.symm, howner.symm⟩, trivial, trivial⟩, hgiven⟩
    · rintro ⟨⟨harc, hread, ⟨hbeg, howner⟩, _⟩, hgiven⟩
      exact ⟨hgiven, ⟨harc, howner.symm⟩, hbeg.symm, hread⟩

/-- A call tells a list with one entry from the empty list. -/
theorem firstOf_single_iff {β : Type} {P Q : Prop} [Decidable P] [Decidable Q] (x : β) {n : ℕ}
    (hn : n ≠ 0) :
    firstOf (if P then [x] else []) n = firstOf (if Q then [x] else []) n ↔ (P ↔ Q) := by
  obtain ⟨m, rfl⟩ := Nat.exists_eq_succ_of_ne_zero hn
  by_cases hP : P
  · by_cases hQ : Q
    · simp [hP, hQ]
    · simp [hP, hQ, firstOf_succ_cons, firstOf_succ_nil]
  · by_cases hQ : Q
    · simp [hP, hQ, firstOf_succ_cons, firstOf_succ_nil]
    · simp [hP, hQ]

end

/-- Where the second element passes what the code checks, it is an arc whose other ends are what the
iterator asks for, unless a fixed end stops the iterator from being created. -/
def EdgeChecked (c : Cells) (ctx : ScContext) (params : Iterator3Params) : Prop :=
  Live c params.edge → CanRead ctx c params.edge → EndsAre c params →
    (EndsGiven c ctx params ↔ (c params.edge).isArc = true ∧ EndsFound c ctx params)

/-- With enough room for references all calls return. They yield the triple of the second element, and
what the lists of its ends have of it, if and only if it passes no check that it should fail. -/
theorem edge_iterators_exact_iff (thread : ℕ) (evs : List StoreEvent) (st : ScStorage)
    (hr : Run (OwnStep thread) ScStorage.empty evs st) (env : ScEnv) (henv : env.thread = thread)
    (ctx : ScContext) (params : Iterator3Params) (hp : params.arcs = none) :
    (CreateRoom st params →
      ∀ unsets, ∃ out st', iterate3 env (params.create env ctx) unsets st = .ok (out, st')) ∧
    ∀ unsets out st', unsets ≠ [] →
      iterate3 env (params.create env ctx) unsets st = .ok (out, st') →
        (out = firstOf (edgeTriples st.cell ctx params) unsets.length ∧
            out = firstOf (listedTriples st.cell ctx params) unsets.length ↔
          EdgeChecked st.cell ctx params) := by
  subst henv
  have hok := ownRun_storeOk evs st hr
  have hen := edge_iterate3_enumerates hok ctx hp
  refine ⟨hen.returns, fun unsets out st' hne hrun => ?_⟩
  have hlength : unsets.length ≠ 0 := fun h => hne (List.length_eq_zero_iff.mp h)
  have hout := hen.exact unsets out st' hrun
  rw [hout, listedTriples_eq hok.cells.arcs hp]
  unfold edgeYield edgeTriples
  rw [firstOf_single_iff _ hlength, firstOf_single_iff _ hlength, creatable_iff hp]
  unfold EdgeChecked IsTriple LiveArc
  tauto

theorem edge_iterators_exact_storeWithArc :
    (CreateRoom storeWithArc (.ffa ⟨0, 1⟩ ⟨0, 65⟩ 0) →
      ∀ unsets, ∃ out st', iterate3 exampleEnv
        (scIterator3FFANew exampleEnv exampleContext ⟨0, 1⟩ ⟨0, 65⟩ 0) unsets storeWithArc =
          .ok (out, st')) ∧
    ∀ unsets out st', unsets ≠ [] →
      iterate3 exampleEnv (scIterator3FFANew exampleEnv exampleContext ⟨0, 1⟩ ⟨0, 65⟩ 0) unsets
          storeWithArc = .ok (out, st') →
        (out = firstOf (edgeTriples storeWithArc.cell exampleContext (.ffa ⟨0, 1⟩ ⟨0, 65⟩ 0))
              unsets.length ∧
            out = firstOf (listedTriples storeWithArc.cell exampleContext (.ffa ⟨0, 1⟩ ⟨0, 65⟩ 0))
              unsets.length ↔
          EdgeChecked storeWithArc.cell exampleContext (.ffa ⟨0, 1⟩ ⟨0, 65⟩ 0)) :=
  edge_iterators_exact_iff 1 arcEvents storeWithArc storeWithArc_run exampleEnv rfl exampleContext
    (.ffa ⟨0, 1⟩ ⟨0, 65⟩ 0) rfl

/-- An iterator whose second element is a node yields the node, between two empty addresses; and one
with the arc yields it for a begin of any type. -/
theorem node_yielded_as_arc :
    Run (OwnStep 1) ScStorage.empty arcEvents storeWithArc ∧
      (iterate3 exampleEnv (scIterator3AFANew exampleEnv exampleContext 0 ⟨0, 1⟩ 0) [fun _ => 0]
        storeWithArc).toOption.map Prod.fst = some [some (ScAddr.empty, ⟨0, 1⟩, ScAddr.empty)] ∧
      edgeTriples storeWithArc.cell exampleContext (.afa 0 ⟨0, 1⟩ 0) = [] ∧
      (iterate3 exampleEnv (scIterator3AFANew exampleEnv exampleContext scTypeLink ⟨0, 65⟩ 0)
        [fun _ => 0] storeWithArc).toOption.map Prod.fst =
          some [some (⟨0, 1⟩, ⟨0, 65⟩, ⟨0, 33⟩)] ∧
      edgeTriples storeWithArc.cell exampleContext (.afa scTypeLink ⟨0, 65⟩ 0) = [] :=
  ⟨storeWithArc_run, by decide +kernel, by decide +kernel, by decide +kernel, by decide +kernel⟩

end ScMachine.Store
