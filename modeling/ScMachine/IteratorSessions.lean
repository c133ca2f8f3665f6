import ScMachine.IteratorWalk

/-! The life of an iterator with nothing else going on: creation, calls of `next`, release. -/
namespace ScMachine.Store
open ScMachine.StateExcept ScMachine.Runs ScMachine.DoublyLinked ScMachine.Enumeration

/-- The fixed parameters in the order in which their access levels are checked. -/
def Iterator3Params.checked : Iterator3Params → List ScAddr
  | .aff _ edge end_ => [end_, edge]
  | .fff beg edge end_ => [beg, end_, edge]
  | params => params.fixed

/-- An iterator right after its creation. -/
def Iterator3Params.fresh (params : Iterator3Params) (ctx : ScContext) : ScIterator3 :=
  ⟨params, ctx, ScAddr.empty, ScAddr.empty, ScAddr.empty, false⟩

/-- The parameters whose references are taken before one is found that is no element. -/
def takenRefs (c : Cells) (l : List ScAddr) : List ScAddr := l.takeWhile fun a => scElementIsValid (c a)

/-- The access levels of the fixed parameters let the context pass. -/
def Iterator3Params.Readable (st : ScStorage) (ctx : ScContext) (params : Iterator3Params) : Prop :=
  ∀ a ∈ params.fixed, Loaded st a ∧ CanRead ctx st.cell a

/-- All fixed parameters are elements that the context may read. -/
def Iterator3Params.Creatable (c : Cells) (ctx : ScContext) (params : Iterator3Params) : Prop :=
  ∀ a ∈ params.fixed, Live c a ∧ CanRead ctx c a

instance (c : Cells) (ctx : ScContext) (params : Iterator3Params) :
    Decidable (params.Creatable c ctx) :=
  inferInstanceAs (Decidable (∀ a ∈ params.fixed, scElementIsValid (c a) = true ∧ CanRead ctx c a))

section
variable {env : ScEnv} {L : SectionKey → LockWord} {as held : List ScAddr} {c : Cells}
  {base : ScAddr → ℤ} {st s : ScStorage} {a x : ScAddr} {ctx : ScContext} {E : ScStop → Prop}
  {d : Dir} {params : Iterator3Params} {it : ScIterator3}

theorem create_eq (env : ScEnv) (ctx : ScContext) (params : Iterator3Params) :
    params.create env ctx = (do
      if ← checkReadable env ctx params.checked then newWithParams env ctx params
      else return none) := by
  cases params <;> rfl

theorem mem_checked (params : Iterator3Params) (a : ScAddr) :
    a ∈ params.checked ↔ a ∈ params.fixed := by
  cases params with
  | aff _ edge end_ => simp [Iterator3Params.checked, Iterator3Params.fixed, or_comm]
  | fff beg edge end_ =>
    simp only [Iterator3Params.checked, Iterator3Params.fixed, List.mem_cons, List.not_mem_nil,
      or_false]
    tauto
  | faa _ _ _ => rfl
  | aaf _ _ _ => rfl
  | faf _ _ _ => rfl
  | afa _ _ _ => rfl
  | ffa _ _ _ => rfl

theorem checkReadable_wp (hset : Undisturbed env L c base) (ctx : ScContext) (l : List ScAddr)
    (hE : ∀ a ∈ l, 65535 ≤ a.offset.toNat → ∀ e, E e) (h : Iterating env L as c base held st) :
    Wp (checkReadable env ctx l)
      (fun r s => s.unlocked = st.unlocked ∧ Iterating env L as c base held s ∧
        (r = true ↔ ∀ a ∈ l, Loaded st a ∧ CanRead ctx c a)) E st := by
  induction l generalizing st with
  | nil => exact ⟨rfl, h, by simp⟩
  | cons a l ih =>
    unfold checkReadable
    rw [wp_bind]
    apply wp_mono (getAccessLevels_iterating hset h ctx a)
    swap
    · intro e hoff
      exact hE a List.mem_cons_self hoff e
    intro r s1 ⟨hu, h1, hloaded, hmissing⟩
    by_cases hl : Loaded st a
    · rw [hloaded hl]
      unfold levelsOutcome
      by_cases hread : scAccessLvlCheckRead ctx.accessLevels (c a).accessLevels = true
      · rw [if_pos hread]
        simp only [hread, if_true]
        apply wp_mono (ih (fun b hb => hE b (List.mem_cons_of_mem _ hb)) h1) _ (fun _ he => he)
        intro r s2 ⟨hu2, h2, hr⟩
        refine ⟨hu2.trans hu, h2, ?_⟩
        rw [hr]
        constructor
        · intro hall b hb
          rcases List.mem_cons.mp hb with rfl | hb
          · exact ⟨hl, hread⟩
          · exact ⟨(loaded_of_unlocked hu b).mp (hall b hb).1, (hall b hb).2⟩
        · intro hall b hb
          have hb' := hall b (List.mem_cons_of_mem _ hb)
          exact ⟨(loaded_of_unlocked hu b).mpr hb'.1, hb'.2⟩
      · rw [if_neg hread]
        refine ⟨hu, h1, ?_⟩
        simp only [Bool.false_eq_true, false_iff]
        intro hall
        exact hread (hall a List.mem_cons_self).2
    · rw [hmissing hl]
      refine ⟨hu, h1, ?_⟩
      simp only [Bool.false_eq_true, false_iff]
      intro hall
      exact hl (hall a List.mem_cons_self).1

/-- One attempt is enough for an element, and a thousand are not for what is none. -/
theorem refElementLoop_wp (hset : Undisturbed env L c base) (a : ScAddr)
    (hoff : 65535 ≤ a.offset.toNat → ∀ e, E e) (n : ℕ)
    (hE : 4294967295 ≤ base a+held.count a+1 → ∀ e, E e) (h : Iterating env L as c base held st) :
    Wp (refElementLoop env a n)
      (fun r s => (Live c a → 0 < n → r = true ∧ Iterating env L as c base (a :: held) s) ∧
        (¬ Live c a → r = false ∧ Iterating env L as c base held s)) E st := by
  induction n generalizing st with
  | zero => exact ⟨fun _ hn => absurd hn (lt_irrefl 0), fun _ => ⟨rfl, h⟩⟩
  | succ n ih =>
    unfold refElementLoop
    rw [wp_bind]
    apply wp_mono (elementLock_wp h.holds a)
    swap
    · intro e hstop
      rcases hstop with hoff' | hlock
      · exact hoff hoff' e
      · exact absurd (hset.own _) hlock
    intro r s1 ⟨hu, hloaded, h1⟩
    cases r with
    | false =>
      have hdead : ¬ Live c a := by
        intro hlive
        exact absurd (hloaded.mpr (h.loaded hlive)) Bool.false_ne_true
      simp only [Bool.not_false, if_true]
      apply wp_mono (ih (h.of_unlocked hu h1)) _ (fun _ he => he)
      intro r s2 ⟨_, h2⟩
      exact ⟨fun hlive => absurd hlive hdead, h2⟩
    | true =>
      have hit := h.of_unlocked hu h1
      simp only [Bool.not_true, Bool.false_eq_true, if_false, wp_bind, wp_readCell, hit.cell]
      rw [wp_ite]
      constructor
      · intro hlive
        have hlive' : Live c a := hlive
        rw [wp_bind]
        apply wp_mono (ref_live hset hit hlive')
        swap
        · intro e hlimit
          exact hE hlimit e
        intro _ s2 h2
        rw [wp_bind]
        apply wp_mono (unlock_iterating h2 E) _ (fun _ he => he)
        intro _ s3 h3
        exact ⟨fun _ _ => ⟨rfl, h3⟩, fun hdead => absurd hlive' hdead⟩
      · intro hdead
        have hdead' : ¬ Live c a := hdead
        rw [wp_bind]
        apply wp_mono (unlock_iterating hit E) _ (fun _ he => he)
        intro _ s2 h2
        apply wp_mono (ih h2) _ (fun _ he => he)
        intro r s3 ⟨_, h3⟩
        exact ⟨fun hlive => absurd hlive hdead', h3⟩

/-- References are taken up to the first parameter that is no element. -/
theorem refElements_wp (hset : Undisturbed env L c base) (l : List ScAddr)
    (hoff : ∀ a ∈ l, 65535 ≤ a.offset.toNat → ∀ e, E e)
    (hE : ∀ a ∈ l, 4294967295 ≤ base a+(l ++ held).count a → ∀ e, E e)
    (h : Iterating env L as c base held st) :
    Wp (refElements env l)
      (fun r s => (r = true ↔ ∀ a ∈ l, Live c a) ∧
        Iterating env L as c base (takenRefs c l ++ held) s) E st := by
  induction l generalizing st held with
  | nil => exact ⟨by simp, h⟩
  | cons a l ih =>
    unfold refElements scIteratorRefElement
    rw [wp_bind]
    have hE1 : 4294967295 ≤ base a+held.count a+1 → ∀ e, E e := by
      intro hlimit
      apply hE a List.mem_cons_self
      rw [List.cons_append, List.count_cons_self, List.count_append]
      push_cast
      omega
    apply wp_mono (refElementLoop_wp hset a (hoff a List.mem_cons_self) 1000 hE1 h) _
      (fun _ he => he)
    intro r s1 ⟨hlive, hdead⟩
    by_cases ha : Live c a
    · obtain ⟨rfl, h1⟩ := hlive ha (by norm_num)
      have hE2 : ∀ b ∈ l, 4294967295 ≤ base b+(l ++ a :: held).count b → ∀ e, E e := by
        intro b hb hlimit
        apply hE b (List.mem_cons_of_mem _ hb)
        rw [List.perm_middle.count_eq b] at hlimit
        exact hlimit
      rw [if_pos rfl]
      apply wp_mono (ih (fun b hb => hoff b (List.mem_cons_of_mem _ hb)) hE2 h1) _ (fun _ he => he)
      intro r s2 ⟨hr, h2⟩
      have hvalid : scElementIsValid (c a) = true := ha
      refine ⟨?_, h2.congr fun y => ?_⟩
      · rw [hr, List.forall_mem_cons]
        exact ⟨fun hall => ⟨ha, hall⟩, fun hall => hall.2⟩
      · unfold takenRefs
        simp only [List.takeWhile_cons, hvalid, if_true]
        exact (List.perm_middle.count_eq y).symm
    · obtain ⟨rfl, h1⟩ := hdead ha
      have hvalid : scElementIsValid (c a) = false := by
        unfold Live at ha
        simpa using ha
      rw [if_neg Bool.false_ne_true]
      refine ⟨?_, ?_⟩
      · simp only [Bool.false_eq_true, List.forall_mem_cons, false_iff]
        exact fun hall => ha hall.1
      · unfold takenRefs
        rw [List.takeWhile_cons, hvalid]
        exact h1

open Classical in
/-- An iterator is created if its fixed parameters are elements and readable; what is taken for it
otherwise is not given back. -/
theorem create_wp (hset : Undisturbed env L c base) (params : Iterator3Params)
    (hoffset : ∀ a ∈ params.fixed, 65535 ≤ a.offset.toNat → ∀ e, E e)
    (hE : ∀ a ∈ params.fixed, 4294967295 ≤ base a+(params.fixed ++ held).count a → ∀ e, E e)
    (h : Iterating env L as c base held st) :
    Wp (params.create env ctx)
      (fun r s => r = (if params.Creatable c ctx then some (params.fresh ctx) else none) ∧
        Iterating env L as c base
          ((if params.Readable st ctx then takenRefs c params.fixed else []) ++ held) s) E st := by
  rw [create_eq, wp_bind]
  have hcheck := checkReadable_wp hset ctx params.checked
    (fun a ha => hoffset a ((mem_checked params a).mp ha)) h
  apply wp_mono hcheck _ (fun _ he => he)
  intro r s1 ⟨hu, h1, hr⟩
  simp only [mem_checked, ← h.cell] at hr
  have hreadable : r = true ↔ params.Readable st ctx := hr
  by_cases hread : params.Readable st ctx
  · rw [if_pos (hreadable.mpr hread), if_pos hread]
    unfold newWithParams
    rw [wp_bind]
    apply wp_mono (refElements_wp hset params.fixed hoffset hE h1) _ (fun _ he => he)
    intro r2 s2 ⟨hr2, h2⟩
    have hcreate : r2 = true ↔ params.Creatable c ctx := by
      rw [hr2]
      constructor
      · intro hall a ha
        refine ⟨hall a ha, ?_⟩
        rw [← h.cell]
        exact (hread a ha).2
      · intro hall a ha
        exact (hall a ha).1
    by_cases hc : params.Creatable c ctx
    · rw [if_pos (hcreate.mpr hc), if_pos hc]
      exact ⟨rfl, h2⟩
    · rw [if_neg (fun hr => hc (hcreate.mp hr)), if_neg hc]
      exact ⟨rfl, h2⟩
  · have hc : ¬ params.Creatable c ctx := by
      intro hc
      apply hread
      intro a ha
      refine ⟨h.loaded (hc a ha).1, ?_⟩
      rw [h.cell]
      exact (hc a ha).2
    rw [if_neg (fun hr => hread (hreadable.mp hr)), if_neg hread, if_neg hc]
    exact ⟨rfl, h1⟩

theorem takenRefs_live {l : List ScAddr} (h : ∀ a ∈ l, Live c a) : takenRefs c l = l :=
  List.takeWhile_eq_self_iff.mpr h

/-- A created iterator holds its fixed parameters. -/
theorem create_creatable (hset : Undisturbed env L c base) (params : Iterator3Params)
    (hc : params.Creatable c ctx)
    (hE : ∀ a ∈ params.fixed, 4294967295 ≤ base a+(params.fixed ++ held).count a → ∀ e, E e)
    (h : Iterating env L as c base held st) :
    Wp (params.create env ctx)
      (fun r s => r = some (params.fresh ctx) ∧
        Iterating env L as c base (params.fixed ++ held) s) E st := by
  have hread : params.Readable st ctx := by
    intro a ha
    refine ⟨h.loaded (hc a ha).1, ?_⟩
    rw [h.cell]
    exact (hc a ha).2
  have hoff : ∀ a ∈ params.fixed, 65535 ≤ a.offset.toNat → ∀ e, E e := by
    intro a ha hoff
    have hin := h.offset (hc a ha).1
    omega
  apply wp_mono (create_wp hset params hoff hE h) _ (fun _ he => he)
  intro r s ⟨hr, hs⟩
  rw [if_pos hc] at hr
  rw [if_pos hread, takenRefs_live fun a ha => (hc a ha).1] at hs
  exact ⟨hr, hs⟩

/-- A new iterator has its whole list before it. -/
theorem standing_fresh {anchor : ScAddr} (hp : params.arcs = some (d, anchor)) :
    Standing c ctx params (params.fresh ctx) [] (arcList c d anchor) := by
  refine ⟨rfl, rfl, ?_, ?_, ?_⟩
  · intro d' anchor' hp'
    obtain ⟨rfl, rfl⟩ : d = d' ∧ anchor = anchor' := by simpa using hp.symm.trans hp'
    rfl
  · intro _
    rfl
  · intro hf
    exact absurd hf (by simp [Iterator3Params.fresh])

theorem held_fresh (params : Iterator3Params) (ctx : ScContext) :
    (params.fresh ctx).held = params.fixed := by
  unfold ScIterator3.held ScIterator3.currentArc Iterator3Params.fresh
  simp

/-! Release. -/

theorem unrefElements_wp (hset : Undisturbed env L c base) (l : List ScAddr)
    (hlive : ∀ a ∈ l, Live c a) (h : Iterating env L as c base (l ++ held) st) :
    Wp (unrefElements env l) (fun _ s => Iterating env L as c base held s) E st := by
  induction l generalizing st with
  | nil => exact h
  | cons a l ih =>
    unfold unrefElements
    rw [wp_bind]
    apply wp_mono (unref_live hset h (hlive a List.mem_cons_self) E) _ (fun _ he => he)
    intro _ s1 h1
    exact ih (fun b hb => hlive b (List.mem_cons_of_mem _ hb)) h1

theorem dropCurrentArc_wp (hset : Undisturbed env L c base) (hx : Live c x)
    (h : Iterating env L as c base (x :: held) st) :
    Wp (dropCurrentArc env x) (fun _ s => Iterating env L as c base held s) E st := by
  unfold dropCurrentArc
  rw [wp_bind]
  apply wp_mono (lock_live hset h hx E) _ (fun _ he => he)
  intro r s1 ⟨hr, h1⟩
  simp only [hr, Bool.not_true, Bool.false_eq_true, if_false, wp_bind]
  apply wp_mono (unref_live hset h1 hx E) _ (fun _ he => he)
  intro _ s2 h2
  exact unlock_iterating h2 E

/-- Release gives back everything that the iterator holds. -/
theorem free_wp (hset : Undisturbed env L c base) (hlive : ∀ a ∈ it.held, Live c a)
    (h : Iterating env L as c base (it.held ++ held) st) :
    Wp (scIterator3Free env it) (fun _ s => Iterating env L as c base held s) E st := by
  unfold ScIterator3.held at h hlive
  unfold scIterator3Free
  cases hcur : it.currentArc with
  | none =>
    rw [hcur, Option.toList_none, List.append_nil] at h
    exact unrefElements_wp hset _ (fun a ha => hlive a (List.mem_append_left _ ha)) h
  | some x =>
    have hx : Live c x := by
      apply hlive x
      simp [hcur]
    have hcount (y : ScAddr) : (x :: (it.params.fixed ++ held)).count y =
        (it.params.fixed ++ it.currentArc.toList ++ held).count y := by
      rw [hcur]
      simp only [Option.toList_some, List.count_append, List.count_cons, List.count_nil]
      omega
    simp only [wp_bind]
    apply wp_mono (dropCurrentArc_wp hset hx (h.congr hcount)) _ (fun _ he => he)
    intro _ s1 h1
    exact unrefElements_wp hset _ (fun a ha => hlive a (List.mem_append_left _ ha)) h1

/-- What an iterator holds is live: its parameters, and an arc of its list. -/
theorem held_live {anchor : ScAddr} {done rest : List ScAddr}
    (hchain : ArcChain c d anchor (done ++ rest)) (hst : Standing c ctx params it done rest)
    (hfixed : ∀ a ∈ params.fixed, Live c a) : ∀ a ∈ it.held, Live c a := by
  intro a ha
  unfold ScIterator3.held at ha
  rw [hst.params_eq] at ha
  rcases List.mem_append.mp ha with ha | ha
  · exact hfixed a ha
  · unfold ScIterator3.currentArc at ha
    split_ifs at ha with hcur
    · obtain rfl : a = it.result1 := by simpa using ha
      rcases List.eq_nil_or_concat done with rfl | ⟨pre, x, rfl⟩
      · exact absurd (hst.current hcur.1) hcur.2
      · have hx : it.result1 = x := by
          rw [hst.current hcur.1]
          simp
        rw [hx]
        exact ((hchain.mem x).mp (by simp)).1.1
    · simp at ha

/-! Kinds with a fixed arc. -/

theorem readEdge_wp (hset : Undisturbed env L c base) (hx : Live c x)
    (h : Iterating env L as c base held st) :
    Wp (readEdge env x) (fun r s => r = c x ∧ Iterating env L as c base held s) E st := by
  unfold readEdge
  rw [wp_bind]
  apply wp_mono (lock_live hset h hx E) _ (fun _ he => he)
  intro r s1 ⟨hr, h1⟩
  simp only [hr, Bool.not_true, Bool.false_eq_true, if_false, wp_bind, wp_readCell, h1.cell]
  apply wp_mono (unlock_iterating h1 E) _ (fun _ he => he)
  intro _ s2 h2
  exact ⟨rfl, h2⟩

theorem edgeResult_same (it : ScIterator3) (edge : ScAddr) (el : ScElement) (found : Bool) :
    (edgeResult it edge el found).2.params = it.params ∧
      (edgeResult it edge el found).2.ctx = it.ctx ∧
      (edgeResult it edge el found).2.finished = true := by
  unfold edgeResult
  split_ifs <;> exact ⟨rfl, rfl, rfl⟩

theorem held_of_finished (h : it.finished = true) : it.held = it.params.fixed := by
  unfold ScIterator3.held ScIterator3.currentArc
  rw [if_neg (by simp [h])]
  exact List.append_nil _

/-- The second element, where it is fixed. -/
def Iterator3Params.edge : Iterator3Params → ScAddr
  | .afa _ edge _ => edge
  | .ffa _ edge _ => edge
  | .aff _ edge _ => edge
  | .fff _ edge _ => edge
  | _ => ScAddr.empty

/-- The comparison of the fixed ends with those that are read from the cell. -/
def Iterator3Params.endsFit (el : ScElement) : Iterator3Params → Bool
  | .ffa beg _ _ => beg = el.arc .arcBegin
  | .aff _ _ end_ => end_ = el.arc .arcEnd
  | .fff beg _ end_ => beg = el.arc .arcBegin && end_ = el.arc .arcEnd
  | _ => true

theorem edge_mem_fixed (hp : params.arcs = none) : params.edge ∈ params.fixed := by
  cases params <;> simp_all [Iterator3Params.arcs, Iterator3Params.edge, Iterator3Params.fixed]

theorem next_edge_eq (hp : it.params.arcs = none) (hfinished : it.finished = false)
    (unset : ScAddr → ScType) :
    scIterator3Next env unset it = (do
      let el ← readEdge env it.params.edge
      return edgeResult it it.params.edge el (it.params.endsFit el)) := by
  unfold scIterator3Next
  rw [hfinished, if_neg Bool.false_ne_true]
  cases hparams : it.params with
  | faa _ _ _ =>
    rw [hparams] at hp
    cases hp
  | aaf _ _ _ =>
    rw [hparams] at hp
    cases hp
  | faf _ _ _ =>
    rw [hparams] at hp
    cases hp
  | afa _ _ _ => rfl
  | ffa _ _ _ => rfl
  | aff _ _ _ => rfl
  | fff _ _ _ => rfl

/-- They take no references besides those of their fixed parameters. -/
theorem next_edge_wp (hset : Undisturbed env L c base) (hp : params.arcs = none)
    (hlive : ∀ a ∈ params.fixed, Live c a) (hst : Standing c ctx params it [] [])
    (h : Iterating env L as c base (it.held ++ held) st) (unset : ScAddr → ScType) :
    Wp (scIterator3Next env unset it)
      (fun r s => Standing c ctx params r.2 [] [] ∧
        Iterating env L as c base (r.2.held ++ held) s) E st := by
  by_cases hfinished : it.finished = true
  · rw [scIterator3Next, if_pos hfinished, wp_pure]
    exact ⟨hst, h⟩
  have hfinished' : it.finished = false := by simpa using hfinished
  have hempty : it.result1 = ScAddr.empty := hst.current hfinished'
  have hheld : it.held = params.fixed := by
    unfold ScIterator3.held ScIterator3.currentArc
    rw [if_neg (by simp [hempty]), hst.params_eq]
    exact List.append_nil _
  rw [hheld] at h
  rw [← hst.params_eq] at hp hlive h
  -- whatever is found, the iterator is finished and holds what it held
  rw [next_edge_eq hp hfinished', wp_bind]
  apply wp_mono (readEdge_wp hset (hlive _ (edge_mem_fixed hp)) h) _ (fun _ he => he)
  intro el s1 ⟨_, h1⟩
  obtain ⟨hpar, hctx, hfin⟩ := edgeResult_same it it.params.edge el (it.params.endsFit el)
  rw [wp_pure, held_of_finished hfin, hpar]
  refine ⟨⟨hpar.trans hst.params_eq, hctx.trans hst.ctx_eq, ?_, ?_, ?_⟩, h1⟩
  · intro d anchor hd
    rw [← hst.params_eq, hp] at hd
    cases hd
  · intro hf
    exact absurd (hfin.symm.trans hf) (by decide)
  · intro _
    rfl

end

end ScMachine.Store
