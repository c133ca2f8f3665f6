import ScMachine.ReferenceHolders

/-! The references of iterators, whatever else is done with the store: an iterator that exists has
a reference of each of its fixed parameters and one of the arc it stands on. -/
namespace ScMachine.Store
open ScMachine.StateExcept ScMachine.Runs

/-- After a call of `next` on an iterator with these parameters. -/
structure AfterNext (env : ScEnv) (L : SectionKey → LockWord) (params : Iterator3Params)
    (ctx : ScContext) (held : List ScAddr) (r : Bool × ScIterator3) (s : ScStorage) : Prop where
  params_eq : r.2.params = params
  ctx_eq : r.2.ctx = ctx
  tracked : Tracked env L [] (r.2.held ++ held) s

section
variable {env : ScEnv} {L : SectionKey → LockWord} {as held : List ScAddr} {st s : ScStorage}
  {a : ScAddr} {ctx : ScContext} {d : Dir} {params : Iterator3Params} {it : ScIterator3}

/-! Creation. -/

theorem refElementLoop_tracked (a : ScAddr) (n : ℕ) (h : Tracked env L as held st) :
    IfReturns (refElementLoop env a n)
      (fun r s => Tracked env L as (if r then a :: held else held) s) st := by
  induction n generalizing st with
  | zero => exact h
  | succ n ih =>
    unfold refElementLoop
    rw [IfReturns, wp_bind]
    apply wp_mono (lock_tracked h a) _ (fun _ _ => trivial)
    intro r s1 h1
    cases r with
    | false =>
      simp only [Bool.not_false, if_true]
      exact ih h1
    | true =>
      simp only [Bool.not_true, Bool.false_eq_true, if_false, wp_bind, wp_readCell]
      rw [wp_ite]
      constructor
      · intro _
        rw [wp_bind]
        apply wp_mono (ref_tracked h1 a) _ (fun _ _ => trivial)
        intro _ s2 h2
        rw [wp_bind]
        exact wp_mono (unlock_tracked h2) (fun _ _ h3 => h3) (fun _ _ => trivial)
      · intro _
        rw [wp_bind]
        exact wp_mono (unlock_tracked h1) (fun _ _ h2 => ih h2) (fun _ _ => trivial)

theorem refElements_tracked (l : List ScAddr) (h : Tracked env L as held st) :
    IfReturns (refElements env l)
      (fun r s => Tracked env L as ((if r then l else []) ++ held) s) st := by
  induction l generalizing st held with
  | nil => exact h
  | cons a l ih =>
    unfold refElements scIteratorRefElement
    rw [IfReturns, wp_bind]
    apply wp_mono (refElementLoop_tracked a 1000 h) _ (fun _ _ => trivial)
    intro r s1 h1
    cases r with
    | false =>
      simp only [Bool.false_eq_true, if_false] at h1 ⊢
      exact h1
    | true =>
      simp only [if_true] at h1 ⊢
      apply wp_mono (ih h1) _ (fun _ _ => trivial)
      intro r s2 h2
      -- what was taken before a failure stays, and nobody counts it
      apply h2.mono
      intro y
      cases r with
      | true =>
        simp only [if_true, List.count_append, List.count_cons]
        omega
      | false =>
        simp only [Bool.false_eq_true, if_false, List.nil_append]
        exact List.count_le_count_cons

/-- A new iterator holds its fixed parameters. -/
theorem newWithParams_tracked (ctx : ScContext) (params : Iterator3Params)
    (h : Tracked env L as held st) :
    IfReturns (newWithParams env ctx params)
      (fun r s => Tracked env L as (r.toList.flatMap ScIterator3.held ++ held) s) st := by
  unfold newWithParams
  rw [IfReturns, wp_bind]
  apply wp_mono (refElements_tracked params.fixed h) _ (fun _ _ => trivial)
  intro r s1 h1
  rw [wp_ite]
  constructor
  · intro hr
    rw [hr, if_pos rfl] at h1
    rw [wp_pure]
    simpa [ScIterator3.held, ScIterator3.currentArc] using h1
  · intro hr
    rw [if_neg hr] at h1
    exact h1

theorem scIterator3New_tracked (ctx : ScContext) (type : ScIterator3Type)
    (p1 p2 p3 : ScIteratorParam) (h : Tracked env L as held st) :
    IfReturns (scIterator3New env ctx type p1 p2 p3)
      (fun r s => Tracked env L as (r.toList.flatMap ScIterator3.held ++ held) s) st := by
  unfold scIterator3New
  split
  all_goals
    first
    | exact newWithParams_tracked ctx _ h
    | exact h

theorem checkReadable_tracked (ctx : ScContext) (l : List ScAddr) (h : Tracked env L as held st) :
    IfReturns (checkReadable env ctx l) (fun _ s => Tracked env L as held s) st := by
  induction l generalizing st with
  | nil => exact h
  | cons a l ih =>
    unfold checkReadable
    rw [IfReturns, wp_bind]
    apply wp_mono (getAccessLevels_tracked h ctx a) _ (fun _ _ => trivial)
    intro r s1 h1
    split
    · rw [wp_ite]
      exact ⟨fun _ => ih h1, fun _ => h1⟩
    · exact h1

theorem newIfReadable_tracked (ctx : ScContext) (l : List ScAddr) (type : ScIterator3Type)
    (p1 p2 p3 : ScIteratorParam) (h : Tracked env L as held st) :
    IfReturns (newIfReadable env ctx l type p1 p2 p3)
      (fun r s => Tracked env L as (r.toList.flatMap ScIterator3.held ++ held) s) st := by
  unfold newIfReadable
  rw [IfReturns, wp_bind]
  apply wp_mono (checkReadable_tracked ctx l h) _ (fun _ _ => trivial)
  intro r s1 h1
  rw [wp_ite]
  exact ⟨fun _ => scIterator3New_tracked ctx type p1 p2 p3 h1, fun _ => h1⟩

theorem create_tracked (ctx : ScContext) (params : Iterator3Params) (h : Tracked env L as held st) :
    IfReturns (params.create env ctx)
      (fun r s => Tracked env L as (r.toList.flatMap ScIterator3.held ++ held) s) st := by
  cases params <;> exact newIfReadable_tracked ctx _ _ _ _ _ h

/-! One call of `next`. -/

theorem resumeArc_tracked (hfinished : it.finished = false) (anchor : ScAddr)
    (h : Tracked env L [] (it.held ++ held) st) :
    IfReturns (resumeArc env d anchor it)
      (fun _ s => Tracked env L [] (it.params.fixed ++ held) s) st := by
  unfold resumeArc ScIterator3.held ScIterator3.currentArc at *
  by_cases hempty : it.result1 = ScAddr.empty
  · rw [if_neg (fun hcur => hcur.2 hempty), Option.toList_none, List.append_nil] at h
    rw [if_pos hempty, IfReturns, wp_bind]
    apply wp_mono (lock_tracked h anchor) _ (fun _ _ => trivial)
    intro r s1 h1
    cases r with
    | false => trivial
    | true =>
      simp only [Bool.not_true, Bool.false_eq_true, if_false, wp_bind, wp_readCell]
      exact wp_mono (unlock_tracked h1) (fun _ _ h2 => h2) (fun _ _ => trivial)
  · -- the arc of the last result is given back
    rw [if_pos ⟨hfinished, hempty⟩, Option.toList_some] at h
    have h' : Tracked env L [] (it.result1 :: (it.params.fixed ++ held)) st := by
      apply h.mono
      intro y
      simp only [List.count_append, List.count_cons, List.count_nil]
      omega
    rw [if_neg hempty, IfReturns, wp_bind]
    apply wp_mono (lock_tracked h' it.result1) _ (fun _ _ => trivial)
    intro r s1 h1
    cases r with
    | false => trivial
    | true =>
      simp only [Bool.not_true, Bool.false_eq_true, if_false, wp_bind, wp_readCell]
      apply wp_mono (unref_tracked h1) _ (fun _ _ => trivial)
      intro _ s2 h2
      exact wp_mono (unlock_tracked h2) (fun _ _ h3 => h3) (fun _ _ => trivial)

/-- The loop holds the arc that it returns. -/
theorem walkArcs_tracked {accept : ScAddr → ScElement → StoreM Bool}
    (haccept : ∀ a el held st, Tracked env L (a :: as) held st →
      IfReturns (accept a el) (fun _ s => Tracked env L as held s) st)
    (fuel : ℕ) (a : ScAddr) (h : Tracked env L as held st) :
    IfReturns (walkArcs env d accept fuel a)
      (fun r s => (∀ p, r = some p → p.1 ≠ ScAddr.empty) ∧
        Tracked env L as ((r.map Prod.fst).toList ++ held) s) st := by
  induction fuel generalizing a st with
  | zero => trivial
  | succ fuel ih =>
    unfold walkArcs
    by_cases hempty : a = ScAddr.empty
    · rw [if_pos hempty]
      exact ⟨by simp, h⟩
    rw [if_neg hempty, IfReturns, wp_bind]
    apply wp_mono (lockTry_tracked h a) _ (fun _ _ => trivial)
    intro r s1 h1
    cases r with
    | false => trivial
    | true =>
      simp only [Bool.not_true, Bool.false_eq_true, if_false, wp_bind]
      apply wp_mono (ref_tracked h1 a) _ (fun _ _ => trivial)
      intro _ s2 h2
      simp only [wp_readCell]
      rw [wp_ite]
      constructor
      · intro _
        rw [wp_bind]
        apply wp_mono (unref_tracked h2) _ (fun _ _ => trivial)
        intro _ s3 h3
        rw [wp_bind]
        exact wp_mono (unlock_tracked h3) (fun _ _ h4 => ih _ h4) (fun _ _ => trivial)
      · intro _
        rw [wp_bind]
        apply wp_mono (haccept a _ _ s2 h2) _ (fun _ _ => trivial)
        intro r s3 h3
        rw [wp_ite]
        constructor
        · intro _
          refine ⟨?_, h3⟩
          intro p hp
          obtain rfl := Option.some.inj hp
          exact hempty
        · -- an arc that does not match keeps the reference, and nobody counts it
          intro _
          apply ih
          exact h3.mono fun y => List.count_le_count_cons

theorem acceptOther_tracked (ctx : ScContext) (arcType otherType : ScType)
    (unset : ScAddr → ScType) (a : ScAddr) (el : ScElement) (h : Tracked env L (a :: as) held st) :
    IfReturns (acceptOther env ctx d arcType otherType unset a el)
      (fun _ s => Tracked env L as held s) st := by
  unfold acceptOther
  rw [IfReturns, wp_bind]
  apply wp_mono (getAccessLevels_tracked h ctx _) _ (fun _ _ => trivial)
  intro r s1 h1
  simp only [wp_bind]
  apply wp_mono (unlock_tracked h1) _ (fun _ _ => trivial)
  intro _ s2 h2
  exact wp_mono (getElementType_tracked h2 ctx _) (fun _ _ h3 => h3) (fun _ _ => trivial)

theorem acceptBetween_tracked (ctx : ScContext) (beg : ScAddr) (arcType : ScType) (a : ScAddr)
    (el : ScElement) (h : Tracked env L (a :: as) held st) :
    IfReturns (acceptBetween env ctx beg arcType a el) (fun _ s => Tracked env L as held s) st := by
  unfold acceptBetween
  rw [IfReturns, wp_bind]
  exact wp_mono (unlock_tracked h) (fun _ _ h2 => h2) (fun _ _ => trivial)

/-- The common part of the three kinds that walk along a list. -/
theorem walkKind_tracked {accept : ScAddr → ScElement → StoreM Bool}
    {k : Option (ScAddr × ScElement) → StoreM (Bool × ScIterator3)} {anchor : ScAddr}
    (it : ScIterator3) (found : ScAddr → ScElement → ScIterator3) (ended : ScIterator3)
    (hparams : it.params = params) (hfinished : it.finished = false)
    (haccept : ∀ a el held st, Tracked env L [a] held st →
      IfReturns (accept a el) (fun _ s => Tracked env L [] held s) st)
    (hfound : ∀ x el, k (some (x, el)) = pure (true, found x el)) (hended : k none = pure (false, ended))
    (hsame : ∀ x el, (found x el).params = params ∧ (found x el).ctx = ctx ∧
      (found x el).finished = false ∧ (found x el).result1 = x)
    (hsame' : ended.params = params ∧ ended.ctx = ctx ∧ ended.finished = true)
    (h : Tracked env L [] (it.held ++ held) st) :
    IfReturns (do
        let start ← resumeArc env d anchor it
        k (← walkArcs env d accept walkFuel start))
      (fun r s => AfterNext env L params ctx held r s) st := by
  rw [IfReturns, wp_bind]
  apply wp_mono (resumeArc_tracked hfinished anchor h) _ (fun _ _ => trivial)
  intro start s1 h1
  rw [hparams] at h1
  rw [wp_bind]
  apply wp_mono (walkArcs_tracked haccept walkFuel start h1) _ (fun _ _ => trivial)
  rintro r s2 ⟨hne, h2⟩
  cases r with
  | none =>
    rw [hended, wp_pure]
    refine ⟨hsame'.1, hsame'.2.1, ?_⟩
    have hheld : ended.held = params.fixed := by
      unfold ScIterator3.held ScIterator3.currentArc
      rw [if_neg (by simp [hsame'.2.2]), hsame'.1]
      exact List.append_nil _
    rw [hheld]
    exact h2
  | some p =>
    obtain ⟨x, el⟩ := p
    rw [hfound, wp_pure]
    obtain ⟨hpar, hctx, hfin, hresult⟩ := hsame x el
    refine ⟨hpar, hctx, ?_⟩
    have hheld : (found x el).held = params.fixed ++ [x] := by
      unfold ScIterator3.held ScIterator3.currentArc
      rw [if_pos ⟨hfin, by rw [hresult]; exact hne _ rfl⟩, hpar, hresult]
      rfl
    rw [hheld]
    apply h2.mono
    intro y
    simp only [Option.map_some, Option.toList_some, List.count_append, List.count_cons,
      List.count_nil]
    omega

theorem readEdge_tracked (edge : ScAddr) (h : Tracked env L as held st) :
    IfReturns (readEdge env edge) (fun _ s => Tracked env L as held s) st := by
  unfold readEdge
  rw [IfReturns, wp_bind]
  apply wp_mono (lock_tracked h edge) _ (fun _ _ => trivial)
  intro r s1 h1
  cases r with
  | false => trivial
  | true =>
    simp only [Bool.not_true, Bool.false_eq_true, if_false, wp_bind, wp_readCell]
    exact wp_mono (unlock_tracked h1) (fun _ _ h2 => h2) (fun _ _ => trivial)

/-- A kind with a fixed arc is finished with its first call. -/
theorem edgeKind_tracked (it : ScIterator3) (edge : ScAddr) (found : ScElement → Bool)
    (hparams : it.params = params) (hctx : it.ctx = ctx)
    (h : Tracked env L [] (it.held ++ held) st) :
    IfReturns (do
        let el ← readEdge env edge
        return edgeResult it edge el (found el))
      (fun r s => AfterNext env L params ctx held r s) st := by
  rw [IfReturns, wp_bind]
  apply wp_mono (readEdge_tracked edge h) _ (fun _ _ => trivial)
  intro el s1 h1
  rw [wp_pure]
  have hsame : (edgeResult it edge el (found el)).2.params = it.params ∧
      (edgeResult it edge el (found el)).2.ctx = it.ctx ∧
      (edgeResult it edge el (found el)).2.finished = true := by
    unfold edgeResult
    split_ifs <;> exact ⟨rfl, rfl, rfl⟩
  refine ⟨hsame.1.trans hparams, hsame.2.1.trans hctx, h1.mono fun y => ?_⟩
  unfold ScIterator3.held ScIterator3.currentArc
  rw [if_neg (by simp [hsame.2.2]), hsame.1]
  simp only [Option.toList_none, List.append_nil, List.count_append]
  omega

/-- A call of `next` of any kind. -/
theorem next_tracked (hparams : it.params = params) (hctx : it.ctx = ctx)
    (unset : ScAddr → ScType) (h : Tracked env L [] (it.held ++ held) st) :
    IfReturns (scIterator3Next env unset it)
      (fun r s => AfterNext env L params ctx held r s) st := by
  unfold scIterator3Next
  by_cases hfinished : it.finished = true
  · rw [if_pos hfinished]
    exact ⟨hparams, hctx, h⟩
  have hfin : it.finished = false := by simpa using hfinished
  rw [if_neg hfinished, hparams]
  cases params with
  | faa beg arcType endType =>
    exact walkKind_tracked { it with result0 := beg }
      (fun x el => { it with result0 := beg, result1 := x, result2 := el.arc .arcEnd })
      { it with result0 := beg, finished := true } hparams hfin
      (fun a el held st => acceptOther_tracked it.ctx arcType endType unset a el)
      (fun _ _ => rfl) rfl (fun _ _ => ⟨hparams, hctx, hfin, rfl⟩) ⟨hparams, hctx, rfl⟩ h
  | aaf begType arcType end_ =>
    exact walkKind_tracked { it with result2 := end_ }
      (fun x el => { it with result2 := end_, result1 := x, result0 := el.arc .arcBegin })
      { it with result2 := end_, finished := true } hparams hfin
      (fun a el held st => acceptOther_tracked it.ctx arcType begType (fun _ => 0) a el)
      (fun _ _ => rfl) rfl (fun _ _ => ⟨hparams, hctx, hfin, rfl⟩) ⟨hparams, hctx, rfl⟩ h
  | faf beg arcType end_ =>
    exact walkKind_tracked { it with result0 := beg, result2 := end_ }
      (fun x _ => { it with result0 := beg, result2 := end_, result1 := x })
      { it with result0 := beg, result2 := end_, finished := true } hparams hfin
      (fun a el held st => acceptBetween_tracked it.ctx beg arcType a el)
      (fun _ _ => rfl) rfl (fun _ _ => ⟨hparams, hctx, hfin, rfl⟩) ⟨hparams, hctx, rfl⟩ h
  | afa begType edge endType => exact edgeKind_tracked it edge (fun _ => true) hparams hctx h
  | ffa beg edge endType =>
    exact edgeKind_tracked it edge (fun el => beg = el.arc .arcBegin) hparams hctx h
  | aff begType edge end_ =>
    exact edgeKind_tracked it edge (fun el => end_ = el.arc .arcEnd) hparams hctx h
  | fff beg edge end_ =>
    exact edgeKind_tracked it edge (fun el => beg = el.arc .arcBegin && end_ = el.arc .arcEnd)
      hparams hctx h

/-! Release. -/

theorem unrefElements_tracked (l : List ScAddr) (h : Tracked env L as (l ++ held) st) :
    IfReturns (unrefElements env l) (fun _ s => Tracked env L as held s) st := by
  induction l generalizing st with
  | nil => exact h
  | cons a l ih =>
    unfold unrefElements
    rw [IfReturns, wp_bind]
    exact wp_mono (unref_tracked h) (fun _ _ h1 => ih h1) (fun _ _ => trivial)

/-- The release gives back what the iterator holds. -/
theorem free_tracked (h : Tracked env L [] (it.held ++ held) st) :
    IfReturns (scIterator3Free env it) (fun _ s => Tracked env L [] held s) st := by
  unfold ScIterator3.held at h
  unfold scIterator3Free
  cases hcur : it.currentArc with
  | none =>
    rw [hcur, Option.toList_none, List.append_nil] at h
    exact unrefElements_tracked _ h
  | some a =>
    have h' : Tracked env L [] (a :: (it.params.fixed ++ held)) st := by
      apply h.mono
      intro y
      rw [hcur]
      simp only [Option.toList_some, List.count_append, List.count_cons, List.count_nil]
      omega
    unfold dropCurrentArc
    simp only [IfReturns, wp_bind]
    apply wp_mono (lock_tracked h' a) _ (fun _ _ => trivial)
    intro r s1 h1
    cases r with
    | false => trivial
    | true =>
      simp only [Bool.not_true, Bool.false_eq_true, if_false, wp_bind]
      apply wp_mono (unref_tracked h1) _ (fun _ _ => trivial)
      intro _ s2 h2
      apply wp_mono (unlock_tracked h2) _ (fun _ _ => trivial)
      intro _ s3 h3
      exact unrefElements_tracked _ h3

end

/-! Iterators over five elements. -/

/-- The two iterators that one over five elements consists of. -/
def ScIterator5.parts (it : ScIterator5) : List ScIterator3 := it.main :: it.attr.toList

def ScIterator5.held (it : ScIterator5) : List ScAddr := it.parts.flatMap ScIterator3.held

section
variable {env : ScEnv} {L : SectionKey → LockWord} {held : List ScAddr} {st s : ScStorage}
  {ctx : ScContext}

theorem held_five (it : ScIterator5) :
    it.held = it.main.held ++ it.attr.toList.flatMap ScIterator3.held := rfl

theorem create5_tracked (ctx : ScContext) (params : Iterator5Params)
    (h : Tracked env L [] held st) :
    IfReturns (params.create env ctx)
      (fun r s => Tracked env L [] (r.toList.flatMap ScIterator5.held ++ held) s) st := by
  unfold Iterator5Params.create
  rw [IfReturns, wp_bind]
  apply wp_mono (create_tracked ctx params.main h) _ (fun _ _ => trivial)
  intro r s1 h1
  cases r with
  | none => exact h1
  | some main =>
    rw [wp_pure]
    have hheld : (params.start ctx main).held = main.held := by
      cases params <;> exact List.append_nil _
    simpa [hheld] using h1

theorem scIterator5New_tracked (ctx : ScContext) (type : ScIterator5Type)
    (p1 p2 p3 p4 p5 : ScIteratorParam) (h : Tracked env L [] held st) :
    IfReturns (scIterator5New env ctx type p1 p2 p3 p4 p5)
      (fun r s => Tracked env L [] (r.toList.flatMap ScIterator5.held ++ held) s) st := by
  unfold scIterator5New
  cases Iterator5Params.ofType type p1 p2 p3 p4 p5 with
  | none => exact h
  | some params => exact create5_tracked ctx params h

/-- The loop over the first arcs, entered without an inner iterator. -/
theorem attrLoop_tracked (unset : ScAddr → ScType) (fuel : ℕ) (it : ScIterator5)
    (hattr : it.attr = none) (h : Tracked env L [] (it.main.held ++ held) st) :
    IfReturns (attrLoop env unset fuel it)
      (fun r s => Tracked env L [] (r.2.held ++ held) s) st := by
  induction fuel generalizing it st with
  | zero => trivial
  | succ fuel ih =>
    unfold attrLoop
    rw [IfReturns, wp_bind]
    apply wp_mono (next_tracked rfl rfl unset h) _ (fun _ _ => trivial)
    intro r s1 h1
    have h1' := h1.tracked
    have hnone : ({ it with main := r.2 } : ScIterator5).held = r.2.held := by
      rw [held_five, hattr]
      exact List.append_nil _
    rw [wp_ite]
    constructor
    · intro _
      rw [wp_pure, hnone]
      exact h1'
    · intro _
      rw [wp_bind]
      apply wp_mono (create_tracked it.ctx (it.params.attr.params r.2.result1) h1') _
        (fun _ _ => trivial)
      intro attr s2 h2
      cases attr with
      | none =>
        rw [wp_pure, hnone]
        exact h2
      | some attr =>
        simp only [Option.toList_some, List.flatMap_cons, List.flatMap_nil, List.append_nil] at h2
        rw [wp_bind]
        apply wp_mono (next_tracked rfl rfl unset h2) _ (fun _ _ => trivial)
        intro ra s3 h3
        have h3' := h3.tracked
        rw [wp_ite]
        constructor
        · intro _
          rw [wp_pure]
          apply h3'.mono
          intro y
          have hheld : (({ it with main := r.2 } : ScIterator5).storeResults ra.2).held =
              r.2.held ++ (ra.2.held ++ []) := rfl
          rw [hheld]
          simp only [List.count_append, List.count_nil]
          omega
        · intro _
          rw [wp_bind]
          apply wp_mono (free_tracked h3') _ (fun _ _ => trivial)
          intro _ s4 h4
          exact ih { it with main := r.2 } hattr h4

theorem next5_tracked (unset : ScAddr → ScType) (it : ScIterator5)
    (h : Tracked env L [] (it.held ++ held) st) :
    IfReturns (scIterator5Next env unset it)
      (fun r s => Tracked env L [] (r.2.held ++ held) s) st := by
  unfold scIterator5Next
  have hclear : it.clearResults.attr = it.attr := rfl
  rw [held_five] at h
  cases hattr : it.attr with
  | none =>
    rw [hattr] at h hclear
    simp only [Option.toList_none, List.flatMap_nil, List.append_nil] at h
    simp only [hclear]
    exact attrLoop_tracked unset walkFuel it.clearResults hclear h
  | some attr =>
    rw [hattr] at h hclear
    simp only [Option.toList_some, List.flatMap_cons, List.flatMap_nil, List.append_nil] at h
    have h' : Tracked env L [] (attr.held ++ (it.main.held ++ held)) st := by
      apply h.mono
      intro y
      simp only [List.count_append]
      omega
    simp only [hclear]
    rw [IfReturns, wp_bind]
    apply wp_mono (next_tracked rfl rfl unset h') _ (fun _ _ => trivial)
    intro r s1 h1
    have h1' := h1.tracked
    rw [wp_ite]
    constructor
    · intro _
      rw [wp_pure]
      apply h1'.mono
      intro y
      have hheld : (it.clearResults.storeResults r.2).held = it.main.held ++ (r.2.held ++ []) := rfl
      rw [hheld]
      simp only [List.count_append, List.count_nil]
      omega
    · intro _
      rw [wp_bind]
      apply wp_mono (free_tracked h1') _ (fun _ _ => trivial)
      intro _ s2 h2
      exact attrLoop_tracked unset walkFuel { it.clearResults with attr := none } rfl h2

theorem free5_tracked (it : ScIterator5) (h : Tracked env L [] (it.held ++ held) st) :
    IfReturns (scIterator5Free env it) (fun _ s => Tracked env L [] held s) st := by
  unfold scIterator5Free
  rw [held_five] at h
  rw [IfReturns, wp_bind]
  cases hattr : it.attr with
  | none =>
    rw [hattr] at h
    simp only [Option.toList_none, List.flatMap_nil, List.append_nil] at h
    exact free_tracked h
  | some attr =>
    rw [hattr] at h
    simp only [Option.toList_some, List.flatMap_cons, List.flatMap_nil, List.append_nil] at h
    have h' : Tracked env L [] (attr.held ++ (it.main.held ++ held)) st := by
      apply h.mono
      intro y
      simp only [List.count_append]
      omega
    apply wp_mono (free_tracked h') _ (fun _ _ => trivial)
    intro _ s1 h1
    exact free_tracked h1

end

end ScMachine.Store
