import ScMachine.SctpFraming
import ScMachine.IteratorConservation
import ScMachine.IteratorsAtRest

/-! The iterators of a construction, on the store. Several of them are open at the same time, one for the
results of the other, and what an iterator passes over keeps its references when it is released. -/
namespace ScMachine.Sctp
open ScMachine.Store ScMachine.StateExcept ScMachine.Template ScMachine.Enumeration ScMachine.Runs

/-- What `sc_iterator3_new` or `sc_iterator5_new` has returned. -/
inductive ServerIterator where
  | three (it : ScIterator3)
  | five (it : ScIterator5)

def ofThree (x : StoreM (Option ScIterator3)) : StoreM (Option ServerIterator) := do
  return (← x).map ServerIterator.three

def ofFive (x : StoreM (Option ScIterator5)) : StoreM (Option ServerIterator) := do
  return (← x).map ServerIterator.five

/-- `startIterate`. -/
def startIterate (env : ScEnv) (ctx : ScContext) : SctpIterator → StoreM (Option ServerIterator)
  | .f3_a_a a1 t2 t3 => ofThree (scIterator3New env ctx .faa (.addr a1) (.type t2) (.type t3))
  | .a3_a_f t1 t2 a3 => ofThree (scIterator3New env ctx .aaf (.type t1) (.type t2) (.addr a3))
  | .f3_a_f a1 t2 a3 => ofThree (scIterator3New env ctx .faf (.addr a1) (.type t2) (.addr a3))
  | .f5_a_a_a_f a1 t2 t3 t4 a5 =>
    ofFive (scIterator5New env ctx .faaaf (.addr a1) (.type t2) (.type t3) (.type t4) (.addr a5))
  | .a5_a_f_a_f t1 t2 a3 t4 a5 =>
    ofFive (scIterator5New env ctx .aafaf (.type t1) (.type t2) (.addr a3) (.type t4) (.addr a5))
  | .f5_a_f_a_f a1 t2 a3 t4 a5 =>
    ofFive (scIterator5New env ctx .fafaf (.addr a1) (.type t2) (.addr a3) (.type t4) (.addr a5))
  | .f5_a_f_a_a a1 t2 a3 t4 t5 =>
    ofFive (scIterator5New env ctx .fafaa (.addr a1) (.type t2) (.addr a3) (.type t4) (.type t5))
  | .f5_a_a_a_a a1 t2 t3 t4 t5 =>
    ofFive (scIterator5New env ctx .faaaa (.addr a1) (.type t2) (.type t3) (.type t4) (.type t5))
  | .a5_a_f_a_a t1 t2 a3 t4 t5 =>
    ofFive (scIterator5New env ctx .aafaa (.type t1) (.type t2) (.addr a3) (.type t4) (.type t5))

def tripleRow : ScAddr × ScAddr × ScAddr → List ScAddr
  | (a, e, b) => [a, e, b]

def fiveRow : FiveAddrs → List ScAddr
  | (a, e1, b, e2, f) => [a, e1, b, e2, f]

/-- What the variable that `sc_iterator3_next` leaves unset holds by chance, in each call. -/
abbrev UnsetTypes := ServerIterator → ScStorage → ScAddr → ScType

/-- `nextIterate`, and the values that `copyResults` asks for. -/
def nextIterate (env : ScEnv) (unsets : UnsetTypes) (it : ServerIterator) :
    StoreM (Option (List ScAddr) × ServerIterator) := do
  let st ← get
  match it with
  | .three it3 =>
    let (found, it3) ← nextTriple env (unsets it st) it3
    return (found.map tripleRow, .three it3)
  | .five it5 =>
    let (found, it5) ← nextFive env (unsets it st) it5
    return (found.map fiveRow, .five it5)

/-- `stopIterate`. -/
def stopIterate (env : ScEnv) : ServerIterator → StoreM Unit
  | .three it3 => scIterator3Free env it3
  | .five it5 => scIterator5Free env it5

def rowValue (row : List ScAddr) (i : ℕ) : ScAddr := row.getD i ScAddr.empty

/-- The calls of a construction, made on the store. -/
def constructionCalls (env : ScEnv) (ctx : ScContext) (unsets : UnsetTypes)
    (others : ServerCalls ScStorage ServerIterator) : ServerCalls ScStorage ServerIterator :=
  { others with
    iteratorNew := fun it => ofStore id (startIterate env ctx it)
    iteratorNext := fun it => ofStore (fun r => (r.1.map rowValue, r.2)) (nextIterate env unsets it)
    iteratorFree := fun it => ofStore id (stopIterate env it) }

/-- The iterator with its parameters, over three elements or over five. -/
def SctpIterator.params : SctpIterator → Iterator3Params ⊕ Iterator5Params
  | .f3_a_a a1 t2 t3 => .inl (.faa a1 t2 t3)
  | .a3_a_f t1 t2 a3 => .inl (.aaf t1 t2 a3)
  | .f3_a_f a1 t2 a3 => .inl (.faf a1 t2 a3)
  | .f5_a_a_a_f a1 t2 t3 t4 a5 => .inr (.faa a1 t2 t3 ⟨t4, .addr a5⟩)
  | .a5_a_f_a_f t1 t2 a3 t4 a5 => .inr (.aaf t1 t2 a3 ⟨t4, .addr a5⟩)
  | .f5_a_f_a_f a1 t2 a3 t4 a5 => .inr (.faf a1 t2 a3 ⟨t4, .addr a5⟩)
  | .f5_a_f_a_a a1 t2 a3 t4 t5 => .inr (.faf a1 t2 a3 ⟨t4, .type t5⟩)
  | .f5_a_a_a_a a1 t2 t3 t4 t5 => .inr (.faa a1 t2 t3 ⟨t4, .type t5⟩)
  | .a5_a_f_a_a t1 t2 a3 t4 t5 => .inr (.aaf t1 t2 a3 ⟨t4, .type t5⟩)

/-- The given elements. -/
def SctpIterator.given (it : SctpIterator) : List ScAddr :=
  match it.params with
  | .inl params => params.fixed
  | .inr params => params.main.fixed ++ (match params.attr.beg with
    | .addr a5 => [a5]
    | .type _ => [])

section
variable (c : Cells) (ctx : ScContext)

/-- What `sc_iterator3_new` gives to walk along: nobody asks whether the given elements may be read. -/
def rowsThree (params : Iterator3Params) : List (List ScAddr) :=
  match params.arcs with
  | none => []
  | some (d, anchor) =>
    if ∀ a ∈ params.fixed, Live c a then
      (((arcList c d anchor).filter (params.matching c ctx)).map (arcTriple c)).map tripleRow
    else []

/-- The rows of an iterator, in the order in which it comes to them. -/
def SctpIterator.rows (it : SctpIterator) : List (List ScAddr) :=
  match it.params with
  | .inl params => rowsThree c ctx params
  | .inr params => ((iterator5 c ctx params).getD []).map fiveRow

/-- An open iterator, the rows that it still has before it, and its references. Those of an iterator over five
elements are what it takes to stand where it does, whatever else is referred to. -/
inductive Held (room : Prop) : ServerIterator → List (List ScAddr) → List ScAddr → Prop where
  | three (params : Iterator3Params) (d : Dir) (anchor : ScAddr) (it : ScIterator3) (done rest : List ScAddr) :
      params.arcs = some (d, anchor) → (∀ a ∈ params.fixed, Live c a) → Standing c ctx params it done rest →
      Held room (.three it) (((rest.filter (params.matching c ctx)).map (arcTriple c)).map tripleRow)
        (it.held ++ params.skipped c ctx done)
  | five (params : Iterator5Params) (d : Dir) (anchor : ScAddr) (it : ScIterator5) (n : ℕ)
      (tuples : List FiveAddrs) (refs : List ScAddr) :
      params.main.arcs = some (d, anchor) → (∀ a ∈ params.main.fixed, Live c a) →
      (∀ a5, params.attr.beg = .addr a5 → room → a5.offset.toNat < 65535) → (∀ z, refs.count z ≤ 9) →
      (∀ env L base s, Iterating env L [] c base refs s → JoinAt env L c base ctx params n tuples it s) →
      Held room (.five it) (tuples.map fiveRow) refs

/-- The iterators of `stack` are open, the last one first, and `k` have been released before. -/
def Opened (env : ScEnv) (L : SectionKey → LockWord) (base : ScAddr → ℤ) (room : Prop) (k : ℕ)
    (stack : List (ServerIterator × List (List ScAddr))) (s : ScStorage) : Prop :=
  ∃ refs left, List.Forall₂ (fun p => Held c ctx room p.1 p.2) stack refs ∧
    (∀ z, left.count z ≤ 9*k) ∧ Iterating env L [] c base (refs.flatten ++ left) s

end

/-- The setting of an iteration with at most `limit` iterators: no count comes near the limit, if there is
room. -/
structure Served (env : ScEnv) (L : SectionKey → LockWord) (c : Cells) (base : ScAddr → ℤ) (limit : ℕ)
    (room : Prop) : Prop where
  undisturbed : Undisturbed env L c base
  arcs : ArcsOk c
  below : room → ∀ x, base x+9*limit < 4294967295

section
variable {env : ScEnv} {L : SectionKey → LockWord} {as refs more : List ScAddr} {c : Cells}
  {base : ScAddr → ℤ} {s : ScStorage} {ctx : ScContext} {limit : ℕ} {room : Prop}

theorem startIterate_eq (it : SctpIterator) :
    startIterate env ctx it = (match it.params with
      | .inl params => ofThree (newWithParams env ctx params)
      | .inr params => ofFive (params.create env ctx)) := by
  cases it <;> rfl

/-- The kinds over three elements go along a list. -/
theorem params_arcs {it : SctpIterator} {params : Iterator3Params} (hp : it.params = .inl params) :
    ∃ d anchor, params.arcs = some (d, anchor) := by
  cases it <;> cases hp <;> exact ⟨_, _, rfl⟩

/-- References of others may be counted before or with the rest. -/
theorem iterating_shift : Iterating env L as c base (refs ++ more) s ↔
    Iterating env L as c (fun y => base y+more.count y) refs s := by
  have hcount (y : ScAddr) : base y+((refs ++ more).count y : ℤ) = base y+more.count y+refs.count y := by
    rw [List.count_append]
    push_cast
    omega
  constructor
  · intro h
    exact ⟨h.holds, h.cells, h.cell, fun y => (h.refCount y).trans (hcount y)⟩
  · intro h
    exact ⟨h.holds, h.cells, h.cell, fun y => (h.refCount y).trans (hcount y).symm⟩

theorem Served.shift (hset : Served env L c base limit room) (more : List ScAddr) :
    Undisturbed env L c fun y => base y+more.count y := by
  refine ⟨hset.undisturbed.own, fun y hy => ?_⟩
  have hone := hset.undisturbed.referenced y hy
  omega

/-- An iterator over five elements among the references of others. -/
theorem Served.join (hset : Served env L c base limit room) {params : Iterator5Params} {d : Dir}
    {anchor : ScAddr} (hp : params.main.arcs = some (d, anchor)) (hlive : ∀ a ∈ params.main.fixed, Live c a)
    (hoffset : ∀ a5, params.attr.beg = .addr a5 → room → a5.offset.toNat < 65535)
    (hmore : ∀ z, more.count z+9 ≤ 9*limit) :
    JoinSetting env L c (fun y => base y+more.count y) params d anchor (fun _ => ¬ room) := by
  refine ⟨hset.shift more, hset.arcs, hp, hlive anchor (mem_fixed_anchor hp), ?_, ?_⟩
  · intro x hlarge _ hroom
    have hlt := hset.below hroom x
    have hle := hmore x
    omega
  · intro a5 hbeg hlarge _ hroom
    have hlt := hoffset a5 hbeg hroom
    omega

/-- Where an iterator over five elements stands does not depend on the counts besides its own references. -/
theorem joinAt_refs {params : Iterator5Params} {d : Dir} {anchor : ScAddr} {E : ScStop → Prop}
    (hset : JoinSetting env L c base params d anchor E) {n : ℕ} {tuples : List FiveAddrs} {it : ScIterator5}
    (h : JoinAt env L c base ctx params n tuples it s) :
    ∃ refs, Iterating env L [] c base refs s ∧ (∀ z, refs.count z ≤ 9) ∧
      ∀ env L base s, Iterating env L [] c base refs s → JoinAt env L c base ctx params n tuples it s := by
  cases h with
  | outer _ _ done rest hit hctx hfix hattr hst hn h =>
    refine ⟨_, h, fun z => ?_, fun env L base s h => JoinAt.outer n it s done rest hit hctx hfix hattr hst hn h⟩
    have hle := hset.outer_count hst (fun z => le_rfl) z
    omega
  | inner _ _ done rest attr x attrDone attrRest before hit hctx hfix hattr hst hmain hm hx hc hast hn hbefore
      h =>
    refine ⟨_, h, fun z => ?_, fun env L base s h => JoinAt.inner n it s done rest attr x attrDone attrRest before
      hit hctx hfix hattr hst hmain hm hx hc hast hn hbefore h⟩
    obtain ⟨_, hlive⟩ := hset.nodup hst
    have hxlive : Live c x := (hlive x (List.mem_append_left _ hx)).1.1
    have hless (z : ScAddr) : before.count z ≤ (params.innerSkipped c ctx done).count z := by
      rw [hbefore z, List.count_append]
      exact Nat.le_add_left _ _
    have hlist := (hset.arcs.arcList hxlive (d := .inp)).nodup
    rw [hast.list .inp x (attr_arcs params.attr x)] at hlist
    -- three of the inner iterator itself, one that it has passed over, and five of the outer one
    have hheld := held_count_le hast.params_eq (attr_arcs params.attr x) z
    have hskipped := @skipped_count_le c ctx attrDone (params.attr.params x) (List.nodup_append.mp hlist).1 z
    have houter := hset.outer_count hst hless z
    simp only [List.count_append] at houter ⊢
    omega

/-- No iterator has more than nine references of one element. -/
theorem held_count (harcs : ArcsOk c) {it : ServerIterator} {rows : List (List ScAddr)}
    (h : Held c ctx room it rows refs) (z : ScAddr) : refs.count z ≤ 9 := by
  cases h with
  | three params d anchor it done rest hp hlive hst =>
    have hlist := (harcs.arcList (hlive anchor (mem_fixed_anchor hp)) (d := d)).nodup
    rw [hst.list d anchor hp] at hlist
    have hheld := held_count_le hst.params_eq hp z
    have hskipped := @skipped_count_le c ctx done params (List.nodup_append.mp hlist).1 z
    rw [List.count_append]
    omega
  | five params d anchor it n tuples _ hp hlive hoffset hcount hat => exact hcount z

theorem stack_count (harcs : ArcsOk c) {stack : List (ServerIterator × List (List ScAddr))}
    {held : List (List ScAddr)} (h : List.Forall₂ (fun p => Held c ctx room p.1 p.2) stack held) (z : ScAddr) :
    held.flatten.count z ≤ 9*stack.length := by
  induction h with
  | nil => exact Nat.zero_le _
  | cons hhead _ ih =>
    have hle := held_count harcs hhead z
    rw [List.flatten_cons, List.count_append, List.length_cons]
    omega

end

section
variable {env : ScEnv} {L : SectionKey → LockWord} {c : Cells} {base : ScAddr → ℤ} {s : ScStorage}
  {ctx : ScContext} {limit : ℕ} {room : Prop} {k : ℕ} {stack : List (ServerIterator × List (List ScAddr))}

/-- What has been taken for an iterator that is no longer there is left. -/
theorem opened_left {held : List (List ScAddr)} {left kept : List ScAddr}
    (hheld : List.Forall₂ (fun p => Held c ctx room p.1 p.2) stack held) (hleft : ∀ z, left.count z ≤ 9*k)
    (hkept : ∀ z, kept.count z ≤ 9) (h : Iterating env L [] c base (kept ++ (held.flatten ++ left)) s) :
    Opened c ctx env L base room (k+1) stack s := by
  refine ⟨held, kept ++ left, hheld, fun z => ?_, h.congr fun z => ?_⟩
  · have h1 := hkept z
    have h2 := hleft z
    rw [List.count_append]
    omega
  · simp only [List.count_append]
    omega

theorem opened_cons {iter : ServerIterator} {rows held : List (List ScAddr)} {left own : List ScAddr}
    (hown : Held c ctx room iter rows own)
    (hheld : List.Forall₂ (fun p => Held c ctx room p.1 p.2) stack held) (hleft : ∀ z, left.count z ≤ 9*k)
    (h : Iterating env L [] c base (own ++ (held.flatten ++ left)) s) :
    Opened c ctx env L base room k ((iter, rows) :: stack) s := by
  refine ⟨own :: held, left, List.Forall₂.cons hown hheld, hleft, ?_⟩
  rw [List.flatten_cons, List.append_assoc]
  exact h

/-- What others have taken leaves room for one iterator more. -/
theorem count_others {held : List (List ScAddr)} {left : List ScAddr} (hset : Served env L c base limit room)
    (hk : k+stack.length < limit) (hheld : List.Forall₂ (fun p => Held c ctx room p.1 p.2) stack held)
    (hleft : ∀ z, left.count z ≤ 9*k) (z : ScAddr) : (held.flatten ++ left).count z+9 ≤ 9*limit := by
  have h1 := stack_count hset.arcs hheld z
  have h2 := hleft z
  rw [List.count_append]
  omega

/-- There is no room if a count of a given element reaches the limit. -/
theorem Served.fixed_count (hset : Served env L c base limit room) {more : List ScAddr}
    (hmore : ∀ z, more.count z+9 ≤ 9*limit) (params : Iterator3Params) (a : ScAddr)
    (hlarge : 4294967295 ≤ base a+(params.fixed ++ more).count a) : ¬ room := by
  intro hroom
  have hbelow := hset.below hroom a
  have h1 := count_fixed_le params a
  have h2 := hmore a
  rw [List.count_append] at hlarge
  push_cast at hlarge
  omega

theorem takenRefs_count (params : Iterator3Params) (z : ScAddr) : (takenRefs c params.fixed).count z ≤ 9 := by
  have h1 := (List.takeWhile_sublist (fun a => scElementIsValid (c a)) (l := params.fixed)).count_le z
  have h2 := count_fixed_le params z
  unfold takenRefs
  omega

theorem Served.start_three (hset : Served env L c base limit room) (hk : k+stack.length < limit)
    {it : SctpIterator} {params : Iterator3Params} (hp : it.params = .inl params)
    (hgiven : room → ∀ a ∈ it.given, a.offset.toNat < 65535) (h : Opened c ctx env L base room k stack s) :
    Wp (ofThree (newWithParams env ctx params))
      (fun r s' => (r = none ∧ it.rows c ctx = [] ∧ Opened c ctx env L base room (k+1) stack s') ∨
        ∃ iter, r = some iter ∧ Opened c ctx env L base room k ((iter, it.rows c ctx) :: stack) s')
      (fun _ => ¬ room) s := by
  obtain ⟨refs, left, hheld, hleft, hit⟩ := h
  have hmore := count_others hset hk hheld hleft
  obtain ⟨d, anchor, harcs⟩ := params_arcs hp
  have hrows : it.rows c ctx = if ∀ a ∈ params.fixed, Live c a then
      (((arcList c d anchor).filter (params.matching c ctx)).map (arcTriple c)).map tripleRow else [] := by
    unfold SctpIterator.rows rowsThree
    rw [hp]
    dsimp only
    rw [harcs]
  have hoffset : ∀ a ∈ params.fixed, 65535 ≤ a.offset.toNat → ∀ _ : ScStop, ¬ room := by
    intro a ha hlarge _ hroom
    have hlt := hgiven hroom a (by unfold SctpIterator.given; rw [hp]; exact ha)
    omega
  unfold ofThree newWithParams
  simp only [wp_bind]
  apply wp_mono (refElements_wp hset.undisturbed params.fixed hoffset
    (fun a _ hlarge _ => hset.fixed_count hmore params a hlarge) hit) _ (fun _ he => he)
  rintro r s1 ⟨hr, h1⟩
  by_cases hlive : ∀ a ∈ params.fixed, Live c a
  · rw [if_pos (hr.mpr hlive)]
    rw [takenRefs_live hlive] at h1
    have hstart := @Held.three c ctx room params d anchor (params.fresh ctx) [] (arcList c d anchor) harcs
      hlive (standing_fresh harcs)
    rw [held_fresh, Iterator3Params.skipped, List.filter_nil, List.append_nil] at hstart
    rw [hrows, if_pos hlive]
    exact Or.inr ⟨.three (params.fresh ctx), rfl, opened_cons hstart hheld hleft h1⟩
  · have hfalse : r = false := by
      rw [← Bool.not_eq_true]
      exact fun hno => hlive (hr.mp hno)
    rw [hfalse, if_neg Bool.false_ne_true]
    exact Or.inl ⟨rfl, by rw [hrows, if_neg hlive], opened_left hheld hleft (takenRefs_count params) h1⟩

theorem Served.start_five (hset : Served env L c base limit room) (hk : k+stack.length < limit)
    {it : SctpIterator} {params : Iterator5Params} (hp : it.params = .inr params)
    (hgiven : room → ∀ a ∈ it.given, a.offset.toNat < 65535) (h : Opened c ctx env L base room k stack s) :
    Wp (ofFive (params.create env ctx))
      (fun r s' => (r = none ∧ it.rows c ctx = [] ∧ Opened c ctx env L base room (k+1) stack s') ∨
        ∃ iter, r = some iter ∧ Opened c ctx env L base room k ((iter, it.rows c ctx) :: stack) s')
      (fun _ => ¬ room) s := by
  obtain ⟨refs, left, hheld, hleft, hit⟩ := h
  have hmore := count_others hset hk hheld hleft
  obtain ⟨d, anchor, harcs⟩ := main_arcs params
  have hrows : it.rows c ctx = if params.main.Creatable c ctx then
      (params.joined c ctx (arcList c d anchor)).map fiveRow else [] := by
    unfold SctpIterator.rows iterator5
    rw [hp]
    dsimp only
    split_ifs
    · cases params <;> cases harcs <;> rfl
    · rfl
  have hmem (a : ScAddr) (ha : a ∈ params.main.fixed) : a ∈ it.given := by
    unfold SctpIterator.given
    rw [hp]
    exact List.mem_append_left _ ha
  have hoffset : ∀ a ∈ params.main.fixed, 65535 ≤ a.offset.toNat → ∀ _ : ScStop, ¬ room := by
    intro a ha hlarge _ hroom
    have hlt := hgiven hroom a (hmem a ha)
    omega
  have hattr (a5 : ScAddr) (hbeg : params.attr.beg = .addr a5) (hroom : room) : a5.offset.toNat < 65535 := by
    apply hgiven hroom
    unfold SctpIterator.given
    rw [hp]
    dsimp only
    rw [hbeg]
    exact List.mem_append_right _ (List.mem_singleton.mpr rfl)
  unfold ofFive Iterator5Params.create
  simp only [wp_bind]
  apply wp_mono (create_wp hset.undisturbed params.main hoffset
    (fun a _ hlarge _ => hset.fixed_count hmore params.main a hlarge) hit) _ (fun _ he => he)
  rintro r s1 ⟨rfl, h1⟩
  by_cases hc : params.main.Creatable c ctx
  · have hlive : ∀ a ∈ params.main.fixed, Live c a := fun a ha => (hc a ha).1
    have hread : params.main.Readable s ctx := by
      intro a ha
      refine ⟨hit.loaded (hlive a ha), ?_⟩
      rw [hit.cell]
      exact (hc a ha).2
    rw [if_pos hread, takenRefs_live hlive] at h1
    have hcount (z : ScAddr) : params.main.fixed.count z ≤ 9 := by
      have hle := count_fixed_le params.main z
      omega
    have hstart := @Held.five c ctx room params d anchor (params.start ctx (params.main.fresh ctx)) _ _
      params.main.fixed harcs hlive hattr hcount
      (fun env L base s h => joinAt_start harcs (by rwa [List.append_nil]))
    simp only [if_pos hc, wp_pure]
    rw [hrows, if_pos hc]
    exact Or.inr ⟨.five (params.start ctx (params.main.fresh ctx)), rfl, opened_cons hstart hheld hleft h1⟩
  · simp only [if_neg hc, wp_pure]
    refine Or.inl ⟨rfl, by rw [hrows, if_neg hc], opened_left hheld hleft (fun z => ?_) h1⟩
    split_ifs
    · exact takenRefs_count params.main z
    · exact Nat.zero_le _

/-- A new iterator has all its rows before it. A null pointer has none, and keeps what has been taken for it. -/
theorem Served.start (hset : Served env L c base limit room) (hk : k+stack.length < limit) {it : SctpIterator}
    (hgiven : room → ∀ a ∈ it.given, a.offset.toNat < 65535) (h : Opened c ctx env L base room k stack s) :
    Wp (startIterate env ctx it)
      (fun r s' => (r = none ∧ it.rows c ctx = [] ∧ Opened c ctx env L base room (k+1) stack s') ∨
        ∃ iter, r = some iter ∧ Opened c ctx env L base room k ((iter, it.rows c ctx) :: stack) s')
      (fun _ => ¬ room) s := by
  rw [startIterate_eq]
  cases hp : it.params with
  | inl params => exact hset.start_three hk hp hgiven h
  | inr params => exact hset.start_five hk hp hgiven h

/-- A step of the iterator that has been opened last gives its next row; the others stand where they are. -/
theorem Served.step (hset : Served env L c base limit room) (hk : k+stack.length < limit) (unsets : UnsetTypes)
    {iter : ServerIterator} {rows : List (List ScAddr)}
    (h : Opened c ctx env L base room k ((iter, rows) :: stack) s) :
    Wp (nextIterate env unsets iter)
      (fun r s' => r.1 = rows.head? ∧ Opened c ctx env L base room k ((r.2, rows.tail) :: stack) s')
      (fun _ => ¬ room) s := by
  obtain ⟨refs, left, hheld, hleft, hit⟩ := h
  obtain ⟨own, others, hown, hothers, rfl⟩ := List.forall₂_cons_left_iff.mp hheld
  have hmore := count_others hset hk hothers hleft
  rw [List.flatten_cons, List.append_assoc] at hit
  unfold nextIterate
  rw [wp_bind, wp_get]
  cases hown with
  | three params d anchor it done rest hp hlive hst =>
    have hE : ∀ x ∈ rest, 4294967295 ≤ base x+(params.fixed ++ (others.flatten ++ left)).count x+1 →
        ∀ _ : ScStop, ¬ room := by
      intro x _ hlarge _ hroom
      have hbelow := hset.below hroom x
      have h1 := count_fixed_le_two hp x
      have h2 := hmore x
      rw [List.count_append] at hlarge
      push_cast at hlarge
      omega
    rw [List.append_assoc] at hit
    dsimp only
    unfold nextTriple
    simp only [wp_bind, bind_assoc, pure_bind]
    apply wp_mono (next_wp hset.undisturbed hset.arcs hp (hlive anchor (mem_fixed_anchor hp)) hst hE hit _) _
      (fun _ he => he)
    rintro ⟨found, it'⟩ s1 hadv
    have hafter := @Held.three c ctx room params d anchor it' _ _ hp hlive hadv.standing
    have hcounts := hadv.counts
    rw [← List.append_assoc] at hcounts
    have hopen : Opened c ctx env L base room k ((.three it',
        (((behind (params.matching c ctx) rest).filter (params.matching c ctx)).map (arcTriple c)).map
          tripleRow) :: stack) s1 := opened_cons hafter hothers hleft hcounts
    have hfound := hadv.found
    dsimp only at hfound
    rw [filter_of_find]
    cases hfind : rest.find? (params.matching c ctx) with
    | none =>
      rw [hfind] at hfound
      subst hfound
      rw [(visited_of_none hfind).2] at hopen ⊢
      exact ⟨rfl, hopen⟩
    | some x =>
      have hresults := hadv.results x hfind
      rw [hfind] at hfound
      subst hfound
      refine ⟨?_, hopen⟩
      simp only [Option.toList_some, List.singleton_append, List.map_cons, List.head?_cons, ← hresults]
      rfl
  | five params d anchor it n tuples own hp hlive hoffset hcount hat =>
    have hjoin := hset.join hp hlive hoffset hmore
    dsimp only
    simp only [wp_bind]
    apply wp_mono (hjoin.nextFive _ (hat env L _ s (iterating_shift.mp hit))) _ (fun _ he => he)
    rintro ⟨found, it'⟩ s1 ⟨hfound, hafter⟩
    obtain ⟨own', hit', hcount', hat'⟩ := joinAt_refs hjoin hafter
    dsimp only at hfound
    subst hfound
    refine ⟨(List.head?_map ..).symm, opened_cons ?_ hothers hleft (iterating_shift.mpr hit')⟩
    dsimp only
    rw [← List.map_tail]
    exact Held.five params d anchor it' (n-1) tuples.tail own' hp hlive hoffset hcount' hat'

/-- The release leaves the references of what has been passed over. -/
theorem Served.stop (hset : Served env L c base limit room) (hk : k+stack.length < limit) {iter : ServerIterator}
    {rows : List (List ScAddr)} (h : Opened c ctx env L base room k ((iter, rows) :: stack) s) :
    Wp (stopIterate env iter) (fun _ s' => Opened c ctx env L base room (k+1) stack s') (fun _ => ¬ room) s := by
  obtain ⟨refs, left, hheld, hleft, hit⟩ := h
  obtain ⟨own, others, hown, hothers, rfl⟩ := List.forall₂_cons_left_iff.mp hheld
  rw [List.flatten_cons, List.append_assoc] at hit
  cases hown with
  | three params d anchor it done rest hp hlive hst =>
    have hlist := hset.arcs.arcList (hlive anchor (mem_fixed_anchor hp)) (d := d)
    rw [hst.list d anchor hp] at hlist
    rw [List.append_assoc] at hit
    apply wp_mono (free_wp hset.undisturbed (held_live hlist hst hlive) hit) _ (fun _ he => he)
    intro _ s1 h1
    refine opened_left hothers hleft (fun z => ?_) h1
    have hle := @skipped_count_le c ctx done params (List.nodup_append.mp hlist.nodup).1 z
    omega
  | five params d anchor it n tuples own hp hlive hoffset hcount hat =>
    have hmore := count_others hset hk hothers hleft
    have hjoin := hset.join hp hlive hoffset hmore
    apply wp_mono (hjoin.free hlive (hat env L _ s (iterating_shift.mp hit))) _ (fun _ he => he)
    rintro _ s1 ⟨kept, h1, hkept, _⟩
    refine opened_left hothers hleft (fun z => ?_) (iterating_shift.mpr h1)
    -- an arc is passed over once as a first arc and once as a second one
    have hanchor := hlive anchor (mem_fixed_anchor hp)
    have hchain := hset.arcs.arcList hanchor (d := d)
    have hwalked : params.main.walked c = arcList c d anchor := walked_of_some hp
    have hfirst := @skipped_count_le c ctx _ params.main hchain.nodup z
    have hsecond := List.nodup_iff_count_le_one.mp (@innerSkipped_nodup c ctx params _ hset.arcs hchain.nodup
      fun x hx => ((hchain.mem x).mp hx).1.1) z
    have hle := hkept z
    rw [hwalked, List.count_append] at hle
    omega

end

end ScMachine.Sctp
