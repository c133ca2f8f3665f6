import ScMachine.IteratorSessions
import ScMachine.DeletionExact

/-! Iterators that walk along an arc list yield exactly the arcs that match, in the order of the
list. -/
namespace ScMachine.Store
open ScMachine.StateExcept ScMachine.Runs ScMachine.DoublyLinked ScMachine.Enumeration

/-- A call of `sc_iterator3_next` and the three values after it. -/
def nextTriple (env : ScEnv) (unset : ScAddr → ScType) (it : ScIterator3) :
    StoreM (Option (ScAddr × ScAddr × ScAddr) × ScIterator3) := do
  let (found, it) ← scIterator3Next env unset it
  return (if found then some it.results else none, it)

/-- What the calls of `next` on a new iterator return, one for each entry of `unsets`. On a null
pointer `next` returns false. -/
def iterate3 (env : ScEnv) (create : StoreM (Option ScIterator3)) (unsets : List (ScAddr → ScType)) :
    StoreM (List (Option (ScAddr × ScAddr × ScAddr))) := do
  match ← create with
  | none => return unsets.map fun _ => none
  | some it =>
    let (out, _) ← callEach (nextTriple env) unsets it
    return out

/-- Every count is at least `k` below the limit that `_sc_storage_ref_common` asserts. -/
def RefRoom (st : ScStorage) (k : ℤ) : Prop := ∀ y, st.refCount y+k < 4294967295

/-- Calls that return give the entries of `l` in order, and then none; with enough room for
references all calls return. -/
structure Enumerates {β : Type} (calls : List (ScAddr → ScType) → StoreM (List (Option β)))
    (st : ScStorage) (room : Prop) (l : List β) : Prop where
  exact : ∀ unsets out st', calls unsets st = .ok (out, st') → out = firstOf l unsets.length
  returns : room → ∀ unsets, ∃ out st', calls unsets st = .ok (out, st')

/-- The iterator still has to yield the triples of `l`; `more` are the references of others. -/
def WalkAt (env : ScEnv) (L : SectionKey → LockWord) (c : Cells) (base : ScAddr → ℤ)
    (ctx : ScContext) (params : Iterator3Params) (more : List ScAddr)
    (l : List (ScAddr × ScAddr × ScAddr)) (it : ScIterator3) (s : ScStorage) : Prop :=
  ∃ done rest, Standing c ctx params it done rest ∧
    l = (rest.filter (params.matching c ctx)).map (arcTriple c) ∧
    Iterating env L [] c base (it.held ++ (params.skipped c ctx done ++ more)) s

section
variable {env : ScEnv} {L : SectionKey → LockWord} {as held more : List ScAddr} {c : Cells}
  {base : ScAddr → ℤ} {st s : ScStorage} {a x : ScAddr} {ctx : ScContext} {E : ScStop → Prop}
  {d : Dir} {params : Iterator3Params} {it : ScIterator3} {anchor : ScAddr}

theorem undisturbed_of_storeOk (h : StoreOk env.thread st) :
    Undisturbed env st.locks st.cell st.refCount := ⟨h.own, h.cells.referenced⟩

theorem iterating_start (h : StoreOk env.thread st) :
    Iterating env st.locks [] st.cell st.refCount [] st := by
  refine ⟨holds_start env.thread st h.wf.1 h.wf.2, h.cells, rfl, ?_⟩
  intro y
  simp

theorem enumerates_of_wp {β : Type} {calls : List (ScAddr → ScType) → StoreM (List (Option β))}
    {room : Prop} {l : List β}
    (h : ∀ unsets, Wp (calls unsets) (fun out _ => out = firstOf l unsets.length)
      (fun _ => ¬ room) st) : Enumerates calls st room l := by
  constructor
  · intro unsets out st' hrun
    exact wp_ok (Q := fun out _ => out = firstOf l unsets.length) (h unsets) hrun
  · intro hroom unsets
    have hwp := wp_mono (h unsets) (fun _ _ hq => hq) (fun _ hn => hn hroom)
    obtain ⟨out, st', hrun, _⟩ := wp_returns hwp
    exact ⟨out, st', hrun⟩

theorem firstOf_nil {β : Type} (n : ℕ) : firstOf ([] : List β) n = List.replicate n none := by
  unfold firstOf
  simp

/-- Between two calls nothing is lost and nothing is repeated. -/
theorem walk_cursor (hset : Undisturbed env L c base) (harcs : ArcsOk c)
    (hp : params.arcs = some (d, anchor)) (hanchor : Live c anchor)
    (hE : ∀ x ∈ arcList c d anchor, 4294967295 ≤ base x+(params.fixed ++ more).count x+1 →
      ∀ e, E e) :
    Cursor (nextTriple env) (WalkAt env L c base ctx params more) E := by
  have hstep (unset : ScAddr → ScType) (it : ScIterator3) (s : ScStorage) (done rest : List ScAddr)
      (hst : Standing c ctx params it done rest)
      (h : Iterating env L [] c base (it.held ++ (params.skipped c ctx done ++ more)) s) :
      Wp (nextTriple env unset it)
        (fun r s' => r.1 = (rest.find? (params.matching c ctx)).map (arcTriple c) ∧
          WalkAt env L c base ctx params more
            (((behind (params.matching c ctx) rest).filter (params.matching c ctx)).map
              (arcTriple c)) r.2 s') E s := by
    have hE' : ∀ x ∈ rest, 4294967295 ≤ base x+(params.fixed ++ more).count x+1 → ∀ e, E e := by
      intro x hx
      apply hE
      rw [hst.list d anchor hp]
      exact List.mem_append_right _ hx
    unfold nextTriple
    rw [wp_bind]
    apply wp_mono (next_wp hset harcs hp hanchor hst hE' h unset) _ (fun _ he => he)
    intro r s' hr
    rw [wp_pure]
    refine ⟨?_, _, _, hr.standing, rfl, hr.counts⟩
    rw [hr.found]
    cases hfind : rest.find? (params.matching c ctx) with
    | none => rfl
    | some x =>
      rw [Option.map_some, ← hr.results x hfind]
      rfl
  constructor
  · intro unset y l it s ⟨done, rest, hst, hl, h⟩
    rw [filter_of_find] at hl
    apply wp_mono (hstep unset it s done rest hst h) _ (fun _ he => he)
    intro r s' ⟨hr, hat⟩
    cases hfind : rest.find? (params.matching c ctx) with
    | none =>
      -- behind the end there is nothing left
      rw [hfind, (visited_of_none hfind).2] at hl
      simp at hl
    | some x =>
      rw [hfind] at hl hr
      simp only [Option.toList_some, List.singleton_append, List.map_cons, List.cons.injEq] at hl
      rw [← hl.2] at hat
      exact ⟨hr.trans (congrArg some hl.1.symm), hat⟩
  · intro unset it s ⟨done, rest, hst, hl, h⟩
    apply wp_mono (hstep unset it s done rest hst h) _ (fun _ he => he)
    intro r s' ⟨hr, hat⟩
    have hnone : rest.filter (params.matching c ctx) = [] := List.map_eq_nil_iff.mp hl.symm
    have hfind : rest.find? (params.matching c ctx) = none := by
      rw [List.find?_eq_none]
      exact List.filter_eq_nil_iff.mp hnone
    rw [hfind] at hr
    rw [(visited_of_none hfind).2] at hat
    exact ⟨hr, hat⟩

theorem walkAt_fresh (hp : params.arcs = some (d, anchor))
    (h : Iterating env L [] c base (params.fixed ++ more) s) :
    WalkAt env L c base ctx params more
      (((arcList c d anchor).filter (params.matching c ctx)).map (arcTriple c))
      (params.fresh ctx) s := by
  refine ⟨[], arcList c d anchor, standing_fresh hp, rfl, ?_⟩
  rw [held_fresh]
  exact h

theorem count_fixed_le (params : Iterator3Params) (x : ScAddr) : params.fixed.count x ≤ 3 := by
  apply le_trans List.count_le_length
  cases params <;> simp [Iterator3Params.fixed]

theorem count_fixed_le_two (hp : params.arcs = some (d, anchor)) (x : ScAddr) :
    params.fixed.count x ≤ 2 := by
  apply le_trans List.count_le_length
  cases params <;> simp_all [Iterator3Params.fixed, Iterator3Params.arcs]

theorem mem_fixed_anchor (hp : params.arcs = some (d, anchor)) : anchor ∈ params.fixed := by
  cases params <;> simp_all [Iterator3Params.fixed, Iterator3Params.arcs]

/-- The store has room for the references of an iterator with these parameters. -/
def CreateRoom (st : ScStorage) (params : Iterator3Params) : Prop :=
  RefRoom st 3 ∧ ∀ a ∈ params.fixed, a.offset.toNat < 65535

/-- The calls on a new iterator enumerate what a cursor gives that starts with it. -/
theorem iterate3_of_cursor (hok : StoreOk env.thread st) (ctx : ScContext) (params : Iterator3Params)
    (l : List (ScAddr × ScAddr × ScAddr))
    (At : List (ScAddr × ScAddr × ScAddr) → ScIterator3 → ScStorage → Prop)
    (hcursor : params.Creatable st.cell ctx →
      Cursor (nextTriple env) At (fun _ => ¬ CreateRoom st params))
    (hfresh : ∀ s, Iterating env st.locks [] st.cell st.refCount (params.fixed ++ []) s →
      At l (params.fresh ctx) s) :
    Enumerates (iterate3 env (params.create env ctx)) st (CreateRoom st params)
      (if params.Creatable st.cell ctx then l else []) := by
  apply enumerates_of_wp
  intro unsets
  have hset := undisturbed_of_storeOk hok
  unfold iterate3
  rw [wp_bind]
  have hoffset : ∀ a ∈ params.fixed, 65535 ≤ a.offset.toNat → ∀ _ : ScStop,
      ¬ CreateRoom st params := by
    intro a ha hoff _ hroom
    have hlt := hroom.2 a ha
    omega
  have hlimit : ∀ a ∈ params.fixed, 4294967295 ≤ st.refCount a+(params.fixed ++ []).count a →
      ∀ _ : ScStop, ¬ CreateRoom st params := by
    intro a _ hlimit _ hroom
    have hlt := hroom.1 a
    have hle := count_fixed_le params a
    rw [List.append_nil] at hlimit
    omega
  apply wp_mono (create_wp hset params hoffset hlimit (iterating_start hok)) _ (fun _ he => he)
  intro r s1 ⟨hr, h1⟩
  subst hr
  by_cases hc : params.Creatable st.cell ctx
  · have hread : params.Readable st ctx := by
      intro a ha
      exact ⟨hok.cells.loaded hok.wf.2 (type_of_live (hc a ha).1), (hc a ha).2⟩
    rw [if_pos hread, takenRefs_live fun a ha => (hc a ha).1] at h1
    simp only [if_pos hc, wp_bind]
    apply wp_mono ((hcursor hc).calls unsets _ _ _ (hfresh s1 h1)) _ (fun _ he => he)
    intro out s2 ⟨hout, _⟩
    exact hout
  · simp only [if_neg hc, wp_pure, firstOf_nil]
    exact List.map_const'

/-- The calls on a new iterator of a kind that walks along a list. -/
theorem iterate3_enumerates (hok : StoreOk env.thread st) (ctx : ScContext)
    (hp : params.arcs = some (d, anchor)) :
    Enumerates (iterate3 env (params.create env ctx)) st (CreateRoom st params)
      (if params.Creatable st.cell ctx then
        ((arcList st.cell d anchor).filter (params.matching st.cell ctx)).map (arcTriple st.cell)
      else []) := by
  apply iterate3_of_cursor hok ctx params _ (WalkAt env st.locks st.cell st.refCount ctx params [])
    _ (fun s h => walkAt_fresh hp h)
  intro hc
  have hanchor := (hc anchor (mem_fixed_anchor hp)).1
  apply walk_cursor (undisturbed_of_storeOk hok) hok.cells.arcs hp hanchor
  intro x _ hlimit _ hroom
  have hlt := hroom.1 x
  have hle := count_fixed_le_two hp x
  rw [List.append_nil] at hlimit
  omega

theorem Enumerates.congr {β : Type} {calls : List (ScAddr → ScType) → StoreM (List (Option β))}
    {room room' : Prop} {l l' : List β} (h : Enumerates calls st room l) (hroom : room' → room)
    (hl : l' = l) : Enumerates calls st room' l' := by
  subst hl
  exact ⟨h.exact, fun hr => h.returns (hroom hr)⟩

end

/-- The arcs that an iterator with a fixed begin yields. -/
def outTriples (c : Cells) (ctx : ScContext) (el : ScAddr) (arcType endType : ScType) :
    List (ScAddr × ScAddr × ScAddr) :=
  if Live c el ∧ CanRead ctx c el then
    ((arcList c .out el).filter fun x => HasType c x arcType ∧
      HasType c (ownerOf c .inp x) endType ∧ CanRead ctx c x ∧
      CanRead ctx c (ownerOf c .inp x)).map fun x => (el, x, ownerOf c .inp x)
  else []

/-- The arcs that an iterator with a fixed end yields. -/
def inpTriples (c : Cells) (ctx : ScContext) (begType arcType : ScType) (el : ScAddr) :
    List (ScAddr × ScAddr × ScAddr) :=
  if Live c el ∧ CanRead ctx c el then
    ((arcList c .inp el).filter fun x => HasType c x arcType ∧
      HasType c (ownerOf c .out x) begType ∧ CanRead ctx c x ∧
      CanRead ctx c (ownerOf c .out x)).map fun x => (ownerOf c .out x, x, el)
  else []

/-- The arcs that an iterator with both ends fixed yields. -/
def betweenTriples (c : Cells) (ctx : ScContext) (beg : ScAddr) (arcType : ScType)
    (end_ : ScAddr) : List (ScAddr × ScAddr × ScAddr) :=
  if (Live c beg ∧ CanRead ctx c beg) ∧ Live c end_ ∧ CanRead ctx c end_ then
    ((arcList c .inp end_).filter fun x => ownerOf c .out x = beg ∧ HasType c x arcType ∧
      CanRead ctx c x).map fun x => (beg, x, end_)
  else []

theorem list_iterators_exact (thread : ℕ) (evs : List StoreEvent) (st : ScStorage)
    (hr : Run (OwnStep thread) ScStorage.empty evs st) (env : ScEnv) (henv : env.thread = thread)
    (ctx : ScContext) :
    (∀ el arcType endType, Enumerates (iterate3 env (scIterator3FAANew env ctx el arcType endType))
      st (RefRoom st 3 ∧ el.offset.toNat < 65535)
      (outTriples st.cell ctx el arcType endType)) ∧
    (∀ begType arcType el, Enumerates (iterate3 env (scIterator3AAFNew env ctx begType arcType el))
      st (RefRoom st 3 ∧ el.offset.toNat < 65535)
      (inpTriples st.cell ctx begType arcType el)) ∧
    (∀ beg arcType end_, Enumerates (iterate3 env (scIterator3FAFNew env ctx beg arcType end_))
      st (RefRoom st 3 ∧ beg.offset.toNat < 65535 ∧ end_.offset.toNat < 65535)
      (betweenTriples st.cell ctx beg arcType end_)) := by
  subst henv
  have hok := ownRun_storeOk evs st hr
  have hmem {a : ScAddr} (ha : Live st.cell a) (d : Dir) (x : ScAddr) :=
    (hok.cells.arcs.arcList ha (d := d)).mem x
  refine ⟨?_, ?_, ?_⟩
  · intro el arcType endType
    have hen := @iterate3_enumerates env st .out (.faa el arcType endType) el hok ctx rfl
    apply hen.congr
    · intro hroom
      exact ⟨hroom.1, by simpa [Iterator3Params.fixed] using hroom.2⟩
    · unfold outTriples Iterator3Params.Creatable
      simp only [Iterator3Params.fixed, List.mem_singleton, forall_eq]
      split_ifs with hlive
      · apply List.map_congr_left
        intro x hx
        have howner := ((hmem hlive.1 .out x).mp (List.mem_filter.mp hx).1).2
        rw [arcTriple, howner]
      · rfl
  · intro begType arcType el
    have hen := @iterate3_enumerates env st .inp (.aaf begType arcType el) el hok ctx rfl
    apply hen.congr
    · intro hroom
      exact ⟨hroom.1, by simpa [Iterator3Params.fixed] using hroom.2⟩
    · unfold inpTriples Iterator3Params.Creatable
      simp only [Iterator3Params.fixed, List.mem_singleton, forall_eq]
      split_ifs with hlive
      · apply List.map_congr_left
        intro x hx
        have howner := ((hmem hlive.1 .inp x).mp (List.mem_filter.mp hx).1).2
        rw [arcTriple, howner]
      · rfl
  · intro beg arcType end_
    have hen := @iterate3_enumerates env st .inp (.faf beg arcType end_) end_ hok ctx rfl
    apply hen.congr
    · intro hroom
      exact ⟨hroom.1, by simpa [Iterator3Params.fixed] using hroom.2⟩
    · unfold betweenTriples Iterator3Params.Creatable
      simp only [Iterator3Params.fixed, List.forall_mem_cons, List.not_mem_nil, false_implies,
        implies_true, and_true]
      split_ifs with hlive
      · apply List.map_congr_left
        intro x hx
        have hfilter := List.mem_filter.mp hx
        have howner := ((hmem hlive.2.1 .inp x).mp hfilter.1).2
        have hbeg : ownerOf st.cell .out x = beg := (of_decide_eq_true hfilter.2).1
        rw [arcTriple, howner, hbeg]
      · rfl

/-- A store with an arc from one node to the other, and a new iterator over the arcs of the first
one: the first call finds the arc, the second one the end. -/
theorem list_iterators_exact_storeWithArc :
    Run (OwnStep 1) ScStorage.empty arcEvents storeWithArc ∧
      Enumerates (iterate3 exampleEnv (scIterator3FAANew exampleEnv exampleContext ⟨0, 1⟩ 0 0))
        storeWithArc (RefRoom storeWithArc 3 ∧ (⟨0, 1⟩ : ScAddr).offset.toNat < 65535)
        (outTriples storeWithArc.cell exampleContext ⟨0, 1⟩ 0 0) :=
  ⟨storeWithArc_run,
    (list_iterators_exact 1 arcEvents storeWithArc storeWithArc_run exampleEnv rfl
      exampleContext).1 ⟨0, 1⟩ 0 0⟩

section
variable {env : ScEnv} {L : SectionKey → LockWord} {held more : List ScAddr} {c : Cells}
  {base : ScAddr → ℤ} {st s : ScStorage} {a x : ScAddr} {ctx : ScContext} {d : Dir}
  {params : Iterator3Params} {anchor : ScAddr}

/-- References of an element can be taken one after the other, up to the limit. -/
theorem refs_run (hok : StoreOk env.thread st) (ha : Live st.cell a) (n : ℕ)
    (hn : st.refCount a+n < 4294967295) :
    ∃ st', Run (OwnStep env.thread) st (List.replicate n ⟨env, .ref a⟩) st' ∧
      st'.cell = st.cell ∧ st'.refCount a = st.refCount a+n := by
  induction n generalizing st with
  | zero => exact ⟨st, rfl, rfl, by simp⟩
  | succ n ih =>
    push_cast at hn
    have href := ref_live (undisturbed_of_storeOk hok) (iterating_start hok) ha
    have hwp : Wp (scStorageElementRef env a)
        (fun _ s => Iterating env st.locks [] st.cell st.refCount [a] s) (fun _ => False) st := by
      apply wp_mono href (fun _ _ hq => hq)
      intro _ hlimit
      simp only [List.count_nil, Nat.cast_zero, add_zero] at hlimit
      omega
    obtain ⟨_, s1, hrun, h1⟩ := wp_returns hwp
    have hstep : OwnStep env.thread st ⟨env, .ref a⟩ s1 := ⟨rfl, trivial, hrun⟩
    have hcount : s1.refCount a = st.refCount a+1 := by
      rw [h1.refCount]
      simp
    have hlive : Live s1.cell a := by
      rw [h1.cell]
      exact ha
    obtain ⟨st', hrun', hcell, hcount'⟩ := ih (storeOk_step st _ s1 hok hstep) hlive (by omega)
    refine ⟨st', ⟨s1, hstep, hrun'⟩, hcell.trans h1.cell, ?_⟩
    rw [hcount', hcount]
    push_cast
    omega

/-- The loop stops at the assertion if the first arc has all the references it can have. -/
theorem walkArcs_limit (hset : Undisturbed env L c base) (h : Iterating env L [] c base held st)
    (hx : Live c x) (hlimit : 4294967295 ≤ base x+held.count x+1)
    (accept : ScAddr → ScElement → StoreM Bool) (fuel : ℕ) :
    IfReturns (walkArcs env d accept fuel x) (fun _ _ => False) st := by
  cases fuel with
  | zero => trivial
  | succ fuel =>
    simp only [walkArcs, h.notEmpty hx, if_false, IfReturns, wp_bind]
    apply wp_mono (lockTry_live hset h hx _) _ (fun _ he => he)
    rintro r s1 ⟨hr, h1⟩
    simp only [hr, Bool.not_true, Bool.false_eq_true, if_false, wp_bind]
    apply wp_mono (elementRef_wp h1.holds x) _ (fun _ _ => trivial)
    rintro _ s2 ⟨hcount, _⟩
    have hb := hcount.bounded
    rw [h1.refCount] at hb
    omega

/-- So does the first call of `next` on a new iterator. -/
theorem next_limit (hset : Undisturbed env L c base) {el : ScAddr} {xs : List ScAddr}
    (hel : Live c el) (hchain : ArcChain c .out el (x :: xs)) (hlimit : 4294967295 ≤ base x+1)
    (arcType endType : ScType) (unset : ScAddr → ScType)
    (h : Iterating env L [] c base ((Iterator3Params.faa el arcType endType).fixed ++ []) st) :
    IfReturns (scIterator3Next env unset ((Iterator3Params.faa el arcType endType).fresh ctx))
      (fun _ _ => False) st := by
  have hx : LiveArc c x := ((hchain.mem x).mp List.mem_cons_self).1
  show Wp (scIterator3FAANext env unset ((Iterator3Params.faa el arcType endType).fresh ctx) el
    arcType endType) _ _ st
  unfold scIterator3FAANext
  rw [wp_bind]
  -- the list starts with `x`
  have hresume := @resumeArc_wp env L c base st (fun _ => True) .out hset
    { (Iterator3Params.faa el arcType endType).fresh ctx with result0 := el } el [] (x :: xs) []
    hchain hel rfl rfl h
  apply wp_mono hresume _ (fun _ he => he)
  intro start s2 ⟨hstart, h2⟩
  rw [hstart, wp_bind]
  have hlimit' : 4294967295 ≤ base x+(([el] ++ []).count x : ℕ)+1 := by omega
  exact wp_mono (walkArcs_limit hset h2 hx.1 hlimit' _ _) (fun _ _ hf => hf.elim) (fun _ he => he)

theorem firstCall_limit (hok : StoreOk env.thread st) {el : ScAddr} {xs : List ScAddr}
    (hel : Live st.cell el ∧ CanRead ctx st.cell el)
    (hlist : arcList st.cell .out el = x :: xs) (hlimit : 4294967295 ≤ st.refCount x+1)
    (arcType endType : ScType) (unset : ScAddr → ScType) :
    IfReturns (iterate3 env (scIterator3FAANew env ctx el arcType endType) [unset])
      (fun _ _ => False) st := by
  have hset := undisturbed_of_storeOk hok
  have hchain := hok.cells.arcs.arcList hel.1 (d := .out)
  rw [hlist] at hchain
  have hcreate : (Iterator3Params.faa el arcType endType).Creatable st.cell ctx := by
    intro a ha
    rw [List.mem_singleton.mp ha]
    exact hel
  unfold iterate3
  rw [IfReturns, wp_bind]
  apply wp_mono (create_creatable hset (.faa el arcType endType) hcreate
    (fun _ _ _ _ => trivial) (iterating_start hok)) _ (fun _ _ => trivial)
  rintro r s1 ⟨hr, h1⟩
  subst hr
  simp only [wp_bind]
  apply callEach_cons
  unfold nextTriple
  rw [wp_bind]
  exact wp_mono (next_limit hset hel.1 hchain hlimit arcType endType unset h1)
    (fun _ _ hf => hf.elim) (fun _ he => he)

end

/-- An arc with all the references that an assertion lets it have: the first call of `next` stops
there. -/
theorem list_iterator_stops_at_limit :
    ∃ st, Run (OwnStep 1) ScStorage.empty
        (arcEvents ++ List.replicate 4294967293 ⟨exampleEnv, .ref ⟨0, 65⟩⟩) st ∧
      outTriples st.cell exampleContext ⟨0, 1⟩ 0 0 = [(⟨0, 1⟩, ⟨0, 65⟩, ⟨0, 33⟩)] ∧
      ∀ out st', iterate3 exampleEnv (scIterator3FAANew exampleEnv exampleContext ⟨0, 1⟩ 0 0)
        [fun _ => 0] st ≠ .ok (out, st') := by
  have hok := ownRun_storeOk arcEvents storeWithArc storeWithArc_run
  have hcount : storeWithArc.refCount ⟨0, 65⟩ = 1 := by decide +kernel
  obtain ⟨st, hrun, hcell, href⟩ := @refs_run exampleEnv storeWithArc ⟨0, 65⟩ hok
    (by unfold Live; decide +kernel) 4294967293 (by rw [hcount]; norm_num)
  have hrun' : Run (OwnStep 1) ScStorage.empty
      (arcEvents ++ List.replicate 4294967293 ⟨exampleEnv, .ref ⟨0, 65⟩⟩) st :=
    (run_append _ _ _ _).mpr ⟨storeWithArc, storeWithArc_run, hrun⟩
  refine ⟨st, hrun', ?_, ?_⟩
  · rw [hcell]
    decide +kernel
  · intro out st' hcalls
    have hlist : arcList st.cell .out ⟨0, 1⟩ = ⟨0, 65⟩ :: [] := by
      rw [hcell]
      decide +kernel
    have hel : Live st.cell ⟨0, 1⟩ ∧ CanRead exampleContext st.cell ⟨0, 1⟩ := by
      rw [hcell]
      decide +kernel
    have hlimit : 4294967295 ≤ st.refCount ⟨0, 65⟩+1 := by
      rw [href, hcount]
      norm_num
    have hok' := ownRun_storeOk _ st hrun'
    have hstop := @firstCall_limit exampleEnv st ⟨0, 65⟩ exampleContext hok' ⟨0, 1⟩ [] hel hlist hlimit
      0 0 fun _ => 0
    exact wp_ok hstop hcalls

end ScMachine.Store
