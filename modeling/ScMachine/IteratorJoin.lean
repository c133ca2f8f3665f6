import ScMachine.IteratorExact

/-! Iterators over five elements: the loop over the first arcs with the loop over the arcs that end
in them, as a machine that is left and entered again between two results. -/
namespace ScMachine.Store
open ScMachine.StateExcept ScMachine.Runs ScMachine.DoublyLinked ScMachine.Enumeration

abbrev FiveAddrs := ScAddr × ScAddr × ScAddr × ScAddr × ScAddr

/-- Begin, arc and end of the first arc `x`, the second arc `y` and its begin. -/
def joinTuple (c : Cells) (x y : ScAddr) : FiveAddrs :=
  (ownerOf c .out x, x, ownerOf c .inp x, y, ownerOf c .out y)

/-- The results with `x` as the first arc. -/
def Iterator5Params.block (c : Cells) (ctx : ScContext) (params : Iterator5Params) (x : ScAddr) :
    List FiveAddrs :=
  if (params.attr.params x).Creatable c ctx then
    ((arcList c .inp x).filter ((params.attr.params x).matching c ctx)).map (joinTuple c x)
  else []

/-- The results with a first arc among `l`. -/
def Iterator5Params.joined (c : Cells) (ctx : ScContext) (params : Iterator5Params)
    (l : List ScAddr) : List FiveAddrs :=
  (l.filter (params.main.matching c ctx)).flatMap (params.block c ctx)

/-- The arcs that the inner iterator passes over with `x` as the first arc. -/
def Iterator5Params.blockSkipped (c : Cells) (ctx : ScContext) (params : Iterator5Params)
    (x : ScAddr) : List ScAddr :=
  if (params.attr.params x).Creatable c ctx then
    (params.attr.params x).skipped c ctx (arcList c .inp x)
  else []

def Iterator5Params.innerSkipped (c : Cells) (ctx : ScContext) (params : Iterator5Params)
    (l : List ScAddr) : List ScAddr :=
  (l.filter (params.main.matching c ctx)).flatMap (params.blockSkipped c ctx)

/-- The results that stand for fixed parameters hold them. -/
def ScIterator5.FixedResults (it : ScIterator5) : Prop :=
  (match it.params with
    | .faa p1 _ _ _ => it.result0 = p1
    | .aaf _ _ p3 _ => it.result2 = p3
    | .faf p1 _ p3 _ => it.result0 = p1 ∧ it.result2 = p3) ∧
  match it.params.attr.beg with
    | .addr p5 => it.result4 = p5
    | .type _ => True

/-- Where an iterator stands with `l` still to be yielded: between two first arcs, or on the first
arc `x` with the inner iterator open. At most `n` more calls reach the end of the outer list. -/
inductive JoinAt (env : ScEnv) (L : SectionKey → LockWord) (c : Cells) (base : ScAddr → ℤ)
    (ctx : ScContext) (params : Iterator5Params) :
    ℕ → List FiveAddrs → ScIterator5 → ScStorage → Prop where
  | outer (n : ℕ) (it : ScIterator5) (s : ScStorage) (done rest : List ScAddr) :
      it.params = params → it.ctx = ctx → it.FixedResults → it.attr = none →
      Standing c ctx params.main it.main done rest →
      rest.length+(params.joined c ctx rest).length ≤ n →
      Iterating env L [] c base (it.main.held ++
        (params.main.skipped c ctx done ++ params.innerSkipped c ctx done)) s →
      JoinAt env L c base ctx params n (params.joined c ctx rest) it s
  | inner (n : ℕ) (it : ScIterator5) (s : ScStorage) (done rest : List ScAddr) (attr : ScIterator3)
      (x : ScAddr) (attrDone attrRest before : List ScAddr) :
      it.params = params → it.ctx = ctx → it.FixedResults → it.attr = some attr →
      Standing c ctx params.main it.main done rest → it.main.results = arcTriple c x →
      params.main.Matches c ctx x → x ∈ done → (params.attr.params x).Creatable c ctx →
      Standing c ctx (params.attr.params x) attr attrDone attrRest →
      1+rest.length+((attrRest.filter ((params.attr.params x).matching c ctx)).length+
        (params.joined c ctx rest).length) ≤ n →
      (∀ z, (params.innerSkipped c ctx done).count z =
        (params.blockSkipped c ctx x ++ before).count z) →
      Iterating env L [] c base (attr.held ++ ((params.attr.params x).skipped c ctx attrDone ++
        (it.main.held ++ (params.main.skipped c ctx done ++ before)))) s →
      JoinAt env L c base ctx params n
        ((attrRest.filter ((params.attr.params x).matching c ctx)).map (joinTuple c x) ++
          params.joined c ctx rest) it s

/-- A call yields the first entry of `l`, if there is one. -/
structure JoinStep (env : ScEnv) (L : SectionKey → LockWord) (c : Cells) (base : ScAddr → ℤ)
    (ctx : ScContext) (params : Iterator5Params) (n : ℕ) (l : List FiveAddrs)
    (r : Bool × ScIterator5) (s : ScStorage) : Prop where
  found : r.1 = l.head?.isSome
  results : ∀ t, l.head? = some t → r.2.results = t
  after : JoinAt env L c base ctx params n l.tail r.2 s

/-- The setting of an iteration over five elements: the counts stay away from the limit, and the
fixed begin of the second arc has the offset of a cell. -/
structure JoinSetting (env : ScEnv) (L : SectionKey → LockWord) (c : Cells) (base : ScAddr → ℤ)
    (params : Iterator5Params) (d : Dir) (anchor : ScAddr) (E : ScStop → Prop) : Prop where
  undisturbed : Undisturbed env L c base
  arcs : ArcsOk c
  list : params.main.arcs = some (d, anchor)
  anchorLive : Live c anchor
  limit : ∀ x, 4294967295 ≤ base x+9 → ∀ e, E e
  offset : ∀ p5, params.attr.beg = .addr p5 → 65535 ≤ p5.offset.toNat → ∀ e, E e

section
variable {env : ScEnv} {L : SectionKey → LockWord} {held more : List ScAddr} {c : Cells}
  {base : ScAddr → ℤ} {st s : ScStorage} {a x y : ScAddr} {ctx : ScContext} {E : ScStop → Prop}
  {d : Dir} {params : Iterator5Params} {it : ScIterator5} {anchor : ScAddr} {done rest : List ScAddr}

theorem main_arcs (params : Iterator5Params) : ∃ d anchor, params.main.arcs = some (d, anchor) := by
  cases params with
  | faa p1 _ _ _ => exact ⟨.out, p1, rfl⟩
  | aaf _ _ p3 _ => exact ⟨.inp, p3, rfl⟩
  | faf _ _ p3 _ => exact ⟨.inp, p3, rfl⟩

theorem attr_arcs (attr : AttrParams) (x : ScAddr) : (attr.params x).arcs = some (.inp, x) := by
  unfold AttrParams.params
  cases attr.beg <;> rfl

theorem joined_of_none (h : rest.find? (params.main.matching c ctx) = none) :
    params.joined c ctx rest = [] := by
  unfold Iterator5Params.joined
  rw [filter_of_find, h, (visited_of_none h).2]
  rfl

theorem joined_of_some (h : rest.find? (params.main.matching c ctx) = some x) :
    params.joined c ctx rest = params.block c ctx x ++
      params.joined c ctx (behind (params.main.matching c ctx) rest) := by
  unfold Iterator5Params.joined
  rw [filter_of_find, h, Option.toList_some, List.singleton_append, List.flatMap_cons]

theorem innerSkipped_visited (done rest : List ScAddr) :
    params.innerSkipped c ctx (done ++ visited (params.main.matching c ctx) rest) =
      params.innerSkipped c ctx done ++
        (rest.find? (params.main.matching c ctx)).toList.flatMap (params.blockSkipped c ctx) := by
  unfold Iterator5Params.innerSkipped
  rw [List.filter_append, filter_visited, List.flatMap_append]

/-- A matching first arc may be read, and so may what is fixed of the second one or not at all. -/
theorem canRead_of_matches {p : Iterator3Params} (h : p.Matches c ctx x) : CanRead ctx c x := by
  cases p with
  | faa _ _ _ => exact h.2.2.1
  | aaf _ _ _ => exact h.2.2.1
  | faf _ _ _ => exact h.2.2
  | afa _ _ _ => exact h.elim
  | ffa _ _ _ => exact h.elim
  | aff _ _ _ => exact h.elim
  | fff _ _ _ => exact h.elim

/-- The inner iterator can be created for all matching first arcs or for none. -/
theorem attr_creatable_iff (attr : AttrParams) (hx : Live c x ∧ CanRead ctx c x) :
    (attr.params x).Creatable c ctx ↔
      ∀ p5, attr.beg = .addr p5 → Live c p5 ∧ CanRead ctx c p5 := by
  unfold AttrParams.params Iterator3Params.Creatable
  cases hbeg : attr.beg with
  | addr p5 =>
    simp only [Iterator3Params.fixed, List.forall_mem_cons, List.not_mem_nil, false_implies,
      implies_true, and_true, ScIteratorParam.addr.injEq, forall_eq']
    exact ⟨fun h => h.1, fun h => ⟨h, hx⟩⟩
  | type t =>
    simp only [Iterator3Params.fixed, List.mem_singleton, forall_eq, hx, reduceCtorEq,
      false_implies, implies_true, and_self]

theorem joined_of_not_creatable (hx : Live c x ∧ CanRead ctx c x)
    (hc : ¬ (params.attr.params x).Creatable c ctx) (l : List ScAddr) (hl : ∀ z ∈ l, Live c z) :
    params.joined c ctx l = [] := by
  unfold Iterator5Params.joined
  rw [List.flatMap_eq_nil_iff]
  intro z hz
  obtain ⟨hzl, hm⟩ := List.mem_filter.mp hz
  have hzok : Live c z ∧ CanRead ctx c z := ⟨hl z hzl, canRead_of_matches (of_decide_eq_true hm)⟩
  have hc' : ¬ (params.attr.params z).Creatable c ctx := by
    rw [attr_creatable_iff _ hzok, ← attr_creatable_iff _ hx]
    exact hc
  unfold Iterator5Params.block
  rw [if_neg hc']

/-- What is taken for an inner iterator that cannot be created is nothing. -/
theorem attr_create_wp (hset : Undisturbed env L c base) (attr : AttrParams)
    (hx : Live c x ∧ CanRead ctx c x)
    (hoffset : ∀ p5, attr.beg = .addr p5 → 65535 ≤ p5.offset.toNat → ∀ e, E e)
    (hE : ∀ a ∈ (attr.params x).fixed,
      4294967295 ≤ base a+((attr.params x).fixed ++ held).count a → ∀ e, E e)
    (h : Iterating env L [] c base held st) :
    Wp ((attr.params x).create env ctx)
      (fun r s => r = (if (attr.params x).Creatable c ctx then some ((attr.params x).fresh ctx)
          else none) ∧
        Iterating env L [] c base
          ((if (attr.params x).Creatable c ctx then (attr.params x).fixed else []) ++ held) s)
      E st := by
  by_cases hc : (attr.params x).Creatable c ctx
  · simp only [if_pos hc]
    exact create_creatable hset (attr.params x) hc hE h
  simp only [if_neg hc, List.nil_append]
  obtain ⟨p5, hbeg, hbad⟩ : ∃ p5, attr.beg = .addr p5 ∧ ¬ (Live c p5 ∧ CanRead ctx c p5) := by
    rw [attr_creatable_iff attr hx] at hc
    push Not at hc
    obtain ⟨p5, hbeg, hbad⟩ := hc
    exact ⟨p5, hbeg, fun hh => hbad hh.1 hh.2⟩
  have hfixed : (attr.params x).fixed = [p5, x] := by
    unfold AttrParams.params
    rw [hbeg]
    rfl
  have hoff : ∀ a ∈ (attr.params x).fixed, 65535 ≤ a.offset.toNat → ∀ e, E e := by
    intro a ha hlarge
    rw [hfixed] at ha
    rcases List.mem_cons.mp ha with rfl | ha
    · exact hoffset a hbeg hlarge
    · rw [List.mem_singleton.mp ha] at hlarge
      have hin := h.offset hx.1
      omega
  apply wp_mono (create_wp hset (attr.params x) hoff hE h) _ (fun _ he => he)
  intro r s ⟨hr, hs⟩
  rw [if_neg hc] at hr
  refine ⟨hr, ?_⟩
  -- the begin comes first: it is dead, or its levels have been refused before
  split_ifs at hs with hread
  · have hdead : ¬ Live c p5 := by
      intro hlive
      apply hbad
      refine ⟨hlive, ?_⟩
      rw [← h.cell]
      exact (hread p5 (by rw [hfixed]; exact List.mem_cons_self)).2
    have hvalid : scElementIsValid (c p5) = false := by
      unfold Live at hdead
      simpa using hdead
    rw [hfixed, takenRefs, List.takeWhile_cons, hvalid] at hs
    exact hs
  · exact hs

/-! No element gets more than a few references. -/

theorem held_count_le {p : Iterator3Params} {it : ScIterator3} (hit : it.params = p)
    (hp : p.arcs = some (d, anchor)) (z : ScAddr) : it.held.count z ≤ 3 := by
  have hfixed := count_fixed_le_two hp z
  have hcur : it.currentArc.toList.count z ≤ 1 := by
    apply le_trans List.count_le_length
    cases it.currentArc <;> simp
  unfold ScIterator3.held
  rw [hit, List.count_append]
  omega

theorem skipped_count_le {p : Iterator3Params} (hd : done.Nodup) (z : ScAddr) :
    (p.skipped c ctx done).count z ≤ 1 :=
  List.nodup_iff_count_le_one.mp (hd.filter _) z

/-- The arcs that end in different arcs are different. -/
theorem innerSkipped_nodup (harcs : ArcsOk c) (hd : done.Nodup) (hlive : ∀ x ∈ done, Live c x) :
    (params.innerSkipped c ctx done).Nodup := by
  have hsub (x : ScAddr) (hx : x ∈ done) (y : ScAddr) (hy : y ∈ params.blockSkipped c ctx x) :
      y ∈ arcList c .inp x := by
    unfold Iterator5Params.blockSkipped Iterator3Params.skipped at hy
    split_ifs at hy
    · exact (List.mem_filter.mp hy).1
    · simp at hy
  unfold Iterator5Params.innerSkipped
  rw [List.nodup_flatMap]
  constructor
  · intro x hx
    have hx' := (List.mem_filter.mp hx).1
    unfold Iterator5Params.blockSkipped Iterator3Params.skipped
    split_ifs
    · exact (harcs.arcList (hlive x hx')).nodup.filter _
    · exact List.nodup_nil
  · apply List.Pairwise.imp_of_mem _ (hd.filter _)
    intro x x' hx hx' hne y hy hy'
    have hx1 := (List.mem_filter.mp hx).1
    have hx1' := (List.mem_filter.mp hx').1
    have ho := ((harcs.arcList (hlive x hx1)).mem y).mp (hsub x hx1 y hy)
    have ho' := ((harcs.arcList (hlive x' hx1')).mem y).mp (hsub x' hx1' y hy')
    exact hne (ho.2.symm.trans ho'.2)

/-! The results of the two iterators. -/

theorem FixedResults.store (h : it.FixedResults) (attr : ScIterator3) :
    (it.storeResults attr).FixedResults := by
  unfold ScIterator5.FixedResults ScIterator5.storeResults at *
  cases hp : it.params <;> cases hb : it.params.attr.beg <;> simp_all

theorem FixedResults.clear (h : it.FixedResults) : it.clearResults.FixedResults := by
  unfold ScIterator5.FixedResults ScIterator5.clearResults at *
  cases hp : it.params <;> cases hb : it.params.attr.beg <;> simp_all

/-- The fixed ends of a matching first arc. -/
theorem main_ends (hp : params.main.arcs = some (d, anchor)) (ho : ownerOf c d x = anchor)
    (hm : params.main.Matches c ctx x) :
    match params with
    | .faa p1 _ _ _ => ownerOf c .out x = p1
    | .aaf _ _ p3 _ => ownerOf c .inp x = p3
    | .faf p1 _ p3 _ => ownerOf c .out x = p1 ∧ ownerOf c .inp x = p3 := by
  cases params with
  | faa p1 _ _ _ =>
    simp only [Iterator5Params.main, Iterator3Params.arcs, Option.some.injEq, Prod.mk.injEq] at hp
    obtain ⟨rfl, rfl⟩ := hp
    exact ho
  | aaf _ _ p3 _ =>
    simp only [Iterator5Params.main, Iterator3Params.arcs, Option.some.injEq, Prod.mk.injEq] at hp
    obtain ⟨rfl, rfl⟩ := hp
    exact ho
  | faf p1 _ p3 _ =>
    simp only [Iterator5Params.main, Iterator3Params.arcs, Option.some.injEq, Prod.mk.injEq] at hp
    obtain ⟨rfl, rfl⟩ := hp
    exact ⟨hm.1, ho⟩

theorem attr_begin {attr : AttrParams} (hm : (attr.params x).Matches c ctx y) :
    ∀ p5, attr.beg = .addr p5 → ownerOf c .out y = p5 := by
  intro p5 hbeg
  unfold AttrParams.params at hm
  rw [hbeg] at hm
  exact hm.1

theorem storeResults_results (hit : it.params = params) (hfix : it.FixedResults)
    {attr : ScIterator3} (hmain : it.main.results = arcTriple c x)
    (hattr : attr.results = arcTriple c y) (hp : params.main.arcs = some (d, anchor))
    (ho : ownerOf c d x = anchor) (hm : params.main.Matches c ctx x)
    (hmy : (params.attr.params x).Matches c ctx y) :
    (it.storeResults attr).results = joinTuple c x y := by
  have hends := main_ends hp ho hm
  have hbeg := attr_begin hmy
  unfold ScIterator3.results arcTriple at hmain hattr
  simp only [Prod.mk.injEq] at hmain hattr
  unfold ScIterator5.results ScIterator5.storeResults joinTuple
  unfold ScIterator5.FixedResults at hfix
  rw [hit] at hfix ⊢
  cases params with
  | faa p1 p2 p3 attr' =>
    simp only [Iterator5Params.attr] at hfix hbeg ⊢
    cases hb : attr'.beg with
    | addr p5 => simp_all
    | type p5 => simp_all
  | aaf p1 p2 p3 attr' =>
    simp only [Iterator5Params.attr] at hfix hbeg ⊢
    cases hb : attr'.beg with
    | addr p5 => simp_all
    | type p5 => simp_all
  | faf p1 p2 p3 attr' =>
    simp only [Iterator5Params.attr] at hfix hbeg ⊢
    cases hb : attr'.beg with
    | addr p5 => simp_all
    | type p5 => simp_all

/-! One call. -/

theorem JoinSetting.nodup (hset : JoinSetting env L c base params d anchor E)
    {main : ScIterator3} (hst : Standing c ctx params.main main done rest) :
    (done ++ rest).Nodup ∧ ∀ x ∈ done ++ rest, LiveArc c x ∧ ownerOf c d x = anchor := by
  have hchain := hset.arcs.arcList hset.anchorLive (d := d)
  rw [hst.list d anchor hset.list] at hchain
  exact ⟨hchain.nodup, fun x => (hchain.mem x).mp⟩

/-- The references besides those of the inner iterator. -/
theorem JoinSetting.outer_count (hset : JoinSetting env L c base params d anchor E)
    {main : ScIterator3} (hst : Standing c ctx params.main main done rest)
    {before : List ScAddr} (hbefore : ∀ z, before.count z ≤ (params.innerSkipped c ctx done).count z)
    (z : ScAddr) :
    (main.held ++ (params.main.skipped c ctx done ++ before)).count z ≤ 5 := by
  obtain ⟨hnodup, hlive⟩ := hset.nodup hst
  have hd : done.Nodup := (List.nodup_append.mp hnodup).1
  have h1 := held_count_le hst.params_eq hset.list z
  have h2 := @skipped_count_le c ctx done params.main hd z
  have h3 := List.nodup_iff_count_le_one.mp
    (@innerSkipped_nodup c ctx params done hset.arcs hd fun x hx =>
      (hlive x (List.mem_append_left _ hx)).1.1) z
  have h4 := hbefore z
  simp only [List.count_append]
  omega

/-- The inner iterator, with `x` as the first arc. -/
theorem JoinSetting.attr_next (hset : JoinSetting env L c base params d anchor E) (hx : Live c x)
    {attr : ScIterator3} {attrDone attrRest : List ScAddr}
    (hst : Standing c ctx (params.attr.params x) attr attrDone attrRest)
    (hmore : ∀ z, more.count z ≤ 5)
    (h : Iterating env L [] c base
      (attr.held ++ ((params.attr.params x).skipped c ctx attrDone ++ more)) s)
    (unset : ScAddr → ScType) :
    Wp (scIterator3Next env unset attr)
      (fun r s => Advanced env L c base ctx (params.attr.params x) attrDone attrRest more r s)
      E s := by
  apply next_wp hset.undisturbed hset.arcs (attr_arcs params.attr x) hx hst _ h
  intro z _ hlimit
  apply hset.limit z
  have h1 := count_fixed_le_two (attr_arcs params.attr x) z
  have h2 := hmore z
  rw [List.count_append] at hlimit
  push_cast at hlimit
  omega

/-- What the inner iterator holds is live. -/
theorem attr_held_live (harcs : ArcsOk c) (hc : (params.attr.params x).Creatable c ctx)
    {attr : ScIterator3} {attrDone attrRest : List ScAddr}
    (hst : Standing c ctx (params.attr.params x) attr attrDone attrRest) :
    ∀ a ∈ attr.held, Live c a := by
  have hx : Live c x := (hc x (mem_fixed_anchor (attr_arcs params.attr x))).1
  have hchain := harcs.arcList hx (d := .inp)
  rw [hst.list .inp x (attr_arcs params.attr x)] at hchain
  exact held_live hchain hst fun a ha => (hc a ha).1

/-- The inner iterator has found `y`. -/
theorem JoinSetting.found (hset : JoinSetting env L c base params d anchor E) {n : ℕ}
    {attrDone attrRest before : List ScAddr} {r : Bool × ScIterator3} (it : ScIterator5) (hit : it.params = params)
    (hctx : it.ctx = ctx) (hfix : it.FixedResults)
    (hst : Standing c ctx params.main it.main done rest) (hmain : it.main.results = arcTriple c x)
    (hm : params.main.Matches c ctx x) (hx : x ∈ done)
    (hc : (params.attr.params x).Creatable c ctx)
    (hy : attrRest.find? ((params.attr.params x).matching c ctx) = some y)
    (hn : 1+rest.length+((attrRest.filter ((params.attr.params x).matching c ctx)).length+
      (params.joined c ctx rest).length) ≤ n+1)
    (hbefore : ∀ z, (params.innerSkipped c ctx done).count z =
      (params.blockSkipped c ctx x ++ before).count z)
    (hadv : Advanced env L c base ctx (params.attr.params x) attrDone attrRest
      (it.main.held ++ (params.main.skipped c ctx done ++ before)) r s) :
    JoinStep env L c base ctx params n
      ((attrRest.filter ((params.attr.params x).matching c ctx)).map (joinTuple c x) ++
        params.joined c ctx rest) (true, it.storeResults r.2) s := by
  obtain ⟨_, hlive⟩ := hset.nodup hst
  have ho := (hlive x (List.mem_append_left _ hx)).2
  have hmy : (params.attr.params x).Matches c ctx y := by
    have hmatch := List.find?_some hy
    exact of_decide_eq_true hmatch
  have hfilter : attrRest.filter ((params.attr.params x).matching c ctx) =
      y :: (behind ((params.attr.params x).matching c ctx) attrRest).filter
        ((params.attr.params x).matching c ctx) := by
    rw [filter_of_find, hy]
    rfl
  rw [hfilter] at hn ⊢
  rw [List.map_cons, List.cons_append]
  refine ⟨rfl, ?_, ?_⟩
  · intro t ht
    obtain rfl : joinTuple c x y = t := by simpa using ht
    exact storeResults_results hit hfix hmain (hadv.results y hy) hset.list ho hm hmy
  · apply JoinAt.inner n (it.storeResults r.2) s done rest r.2 x
      (attrDone ++ visited ((params.attr.params x).matching c ctx) attrRest)
      (behind ((params.attr.params x).matching c ctx) attrRest) before hit hctx
      (FixedResults.store hfix r.2) rfl hst hmain hm hx hc hadv.standing _ hbefore hadv.counts
    simp only [List.length_cons] at hn
    omega

/-- The inner iterator has come to its end and is released. -/
theorem JoinSetting.exhausted (hset : JoinSetting env L c base params d anchor E)
    {attrDone attrRest before : List ScAddr} {main : ScIterator3} {r : Bool × ScIterator3}
    (hc : (params.attr.params x).Creatable c ctx)
    (hnone : attrRest.find? ((params.attr.params x).matching c ctx) = none)
    (hbefore : ∀ z, (params.innerSkipped c ctx done).count z =
      (params.blockSkipped c ctx x ++ before).count z)
    (hadv : Advanced env L c base ctx (params.attr.params x) attrDone attrRest
      (main.held ++ (params.main.skipped c ctx done ++ before)) r s) :
    Wp (scIterator3Free env r.2)
      (fun _ s' => Iterating env L [] c base
        (main.held ++ (params.main.skipped c ctx done ++ params.innerSkipped c ctx done)) s') E s := by
  have hlive := attr_held_live hset.arcs hc hadv.standing
  apply wp_mono (free_wp hset.undisturbed hlive hadv.counts) _ (fun _ he => he)
  intro _ s' h'
  -- all arcs that end in `x` have been visited
  have hall : attrDone ++ visited ((params.attr.params x).matching c ctx) attrRest =
      arcList c .inp x := by
    have hlist := hadv.standing.list .inp x (attr_arcs params.attr x)
    rw [(visited_of_none hnone).2, List.append_nil] at hlist
    exact hlist.symm
  rw [hall] at h'
  apply h'.congr
  intro z
  have hcount := hbefore z
  unfold Iterator5Params.blockSkipped at hcount
  rw [if_pos hc] at hcount
  simp only [List.count_append] at hcount ⊢
  omega

/-- The loop over the first arcs. -/
theorem JoinSetting.attrLoop (hset : JoinSetting env L c base params d anchor E)
    (unset : ScAddr → ScType) (fuel n : ℕ) (it : ScIterator5) (hfuel : rest.length < fuel)
    (hit : it.params = params) (hctx : it.ctx = ctx) (hfix : it.FixedResults)
    (hattr : it.attr = none)
    (hst : Standing c ctx params.main it.main done rest)
    (hn : rest.length+(params.joined c ctx rest).length ≤ n)
    (h : Iterating env L [] c base (it.main.held ++
      (params.main.skipped c ctx done ++ params.innerSkipped c ctx done)) s) :
    Wp (attrLoop env unset fuel it)
      (fun r s => JoinStep env L c base ctx params (n-1) (params.joined c ctx rest) r s) E s := by
  -- each round takes at least one arc of the rest
  induction fuel generalizing it s done rest with
  | zero => simp at hfuel
  | succ fuel ih =>
    obtain ⟨hnodup, hlive⟩ := hset.nodup hst
    have hlimit : ∀ z ∈ rest, 4294967295 ≤
        base z+(params.main.fixed ++ params.innerSkipped c ctx done).count z+1 → ∀ e, E e := by
      intro z _ hlarge
      apply hset.limit z
      have h1 := count_fixed_le_two hset.list z
      have h2 := List.nodup_iff_count_le_one.mp (@innerSkipped_nodup c ctx params done hset.arcs
        (List.nodup_append.mp hnodup).1 fun x hx => (hlive x (List.mem_append_left _ hx)).1.1) z
      rw [List.count_append] at hlarge
      push_cast at hlarge
      omega
    unfold Store.attrLoop
    rw [wp_bind]
    apply wp_mono (next_wp hset.undisturbed hset.arcs hset.list hset.anchorLive hst hlimit h unset) _
      (fun _ he => he)
    intro r s1 hadv
    have hvis := @innerSkipped_visited c ctx params done rest
    cases hfind : rest.find? (params.main.matching c ctx) with
    | none =>
      have hfalse : r.1 = false := by
        rw [hadv.found, hfind]
        rfl
      rw [hfind, Option.toList_none, List.flatMap_nil, List.append_nil] at hvis
      have hst' := hadv.standing
      rw [(visited_of_none hfind).2] at hst'
      simp only [hfalse, Bool.not_false, if_true, wp_pure]
      rw [joined_of_none hfind]
      refine ⟨rfl, by simp, ?_⟩
      apply JoinAt.outer (n-1) { it with main := r.2 } s1 _ [] hit hctx hfix hattr hst' (by simp
        [Iterator5Params.joined])
      have hcounts := hadv.counts
      rw [← hvis] at hcounts
      exact hcounts
    | some x =>
      have htrue : r.1 = true := by
        rw [hadv.found, hfind]
        rfl
      have hxrest := List.mem_of_find?_eq_some hfind
      have hxlive := hlive x (List.mem_append_right _ hxrest)
      have hm : params.main.Matches c ctx x := by
        have hmatch := List.find?_some hfind
        exact of_decide_eq_true hmatch
      have hxok : Live c x ∧ CanRead ctx c x := ⟨hxlive.1.1, canRead_of_matches hm⟩
      have hresults := hadv.results x hfind
      have hresult1 : r.2.result1 = x :=
        congrArg (fun t : ScAddr × ScAddr × ScAddr => t.2.1) hresults
      rw [hfind, Option.toList_some, List.flatMap_singleton] at hvis
      have hbefore : ∀ z, (params.innerSkipped c ctx
          (done ++ visited (params.main.matching c ctx) rest)).count z =
          (params.blockSkipped c ctx x ++ params.innerSkipped c ctx done).count z := by
        intro z
        rw [hvis, List.count_append, List.count_append]
        omega
      have hless : ∀ z, (params.innerSkipped c ctx done).count z ≤ (params.innerSkipped c ctx
          (done ++ visited (params.main.matching c ctx) rest)).count z := by
        intro z
        rw [hbefore z, List.count_append]
        omega
      have hcount5 := hset.outer_count hadv.standing hless
      have hxdone : x ∈ done ++ visited (params.main.matching c ctx) rest := by
        obtain ⟨pre, hpre⟩ := visited_of_some hfind
        rw [hpre]
        simp
      have hlen := length_behind_lt hfind
      simp only [htrue, Bool.not_true, Bool.false_eq_true, if_false, wp_bind, hresult1]
      have hcall : (it.params.attr.params x).create env it.ctx =
          (params.attr.params x).create env ctx := by rw [hit, hctx]
      rw [hcall]
      have hcreate := attr_create_wp (E := E) hset.undisturbed params.attr hxok hset.offset (by
        intro a _ hlarge
        apply hset.limit a
        have h1 := count_fixed_le_two (attr_arcs params.attr x) a
        have h2 := hcount5 a
        rw [List.count_append] at hlarge
        push_cast at hlarge
        omega) hadv.counts
      apply wp_mono hcreate _ (fun _ he => he)
      intro attr s2 ⟨hr2, h2⟩
      subst hr2
      rw [joined_of_some hfind] at hn ⊢
      by_cases hc : (params.attr.params x).Creatable c ctx
      · -- the inner iterator is created, and its list is walked from the start
        rw [if_pos hc] at h2
        simp only [if_pos hc, wp_bind]
        have hast : Standing c ctx (params.attr.params x) ((params.attr.params x).fresh ctx) []
            (arcList c .inp x) := standing_fresh (attr_arcs params.attr x)
        rw [← held_fresh (params.attr.params x) ctx] at h2
        apply wp_mono (hset.attr_next hxok.1 hast hcount5 h2 unset) _ (fun _ he => he)
        intro ra s3 hadv2
        have hblock : params.block c ctx x =
            ((arcList c .inp x).filter ((params.attr.params x).matching c ctx)).map
              (joinTuple c x) := by
          unfold Iterator5Params.block
          rw [if_pos hc]
        cases hy : (arcList c .inp x).find? ((params.attr.params x).matching c ctx) with
        | some y =>
          have hatrue : ra.1 = true := by
            rw [hadv2.found, hy]
            rfl
          simp only [hatrue, if_true, wp_pure]
          rw [hblock] at hn ⊢
          apply hset.found { it with main := r.2 } hit hctx hfix hadv.standing hresults hm hxdone hc hy _
            hbefore hadv2
          simp only [List.length_append, List.length_map] at hn
          omega
        | none =>
          have hafalse : ra.1 = false := by
            rw [hadv2.found, hy]
            rfl
          have hempty : params.block c ctx x = [] := by
            rw [hblock, filter_of_find, hy, (visited_of_none hy).2]
            rfl
          simp only [hafalse, Bool.false_eq_true, if_false, wp_bind]
          rw [hempty, List.nil_append] at hn ⊢
          apply wp_mono (hset.exhausted hc hy hbefore hadv2) _ (fun _ he => he)
          intro _ s4 h4
          exact ih { it with main := r.2 } (by omega) hit hctx hfix hattr hadv.standing (by omega) h4
      · -- without an inner iterator there are no results at all
        rw [if_neg hc, List.nil_append] at h2
        simp only [if_neg hc, wp_pure]
        have hblock : params.block c ctx x = [] := by
          unfold Iterator5Params.block
          rw [if_neg hc]
        have hrest : params.joined c ctx (behind (params.main.matching c ctx) rest) = [] := by
          apply joined_of_not_creatable hxok hc
          intro z hz
          exact (hlive z (List.mem_append_right _ (behind_subset _ _ z hz))).1.1
        have hskip : params.blockSkipped c ctx x = [] := by
          unfold Iterator5Params.blockSkipped
          rw [if_neg hc]
        rw [hskip, List.append_nil] at hvis
        rw [← hvis] at h2
        rw [hblock, List.nil_append, hrest] at hn ⊢
        refine ⟨rfl, by simp, ?_⟩
        have hout := JoinAt.outer (n-1) { it with main := r.2 } s2 _ _ hit hctx hfix hattr
          hadv.standing (by rw [hrest]; simp only [List.length_nil] at hn ⊢; omega) h2
        rw [hrest] at hout
        exact hout

/-- A call of `next`, wherever the iterator stands. -/
theorem JoinSetting.next (hset : JoinSetting env L c base params d anchor E)
    (unset : ScAddr → ScType) {n : ℕ} {l : List FiveAddrs}
    (h : JoinAt env L c base ctx params n l it s) :
    Wp (scIterator5Next env unset it)
      (fun r s => JoinStep env L c base ctx params (n-1) l r s) E s := by
  unfold scIterator5Next
  cases h with
  | outer _ _ done rest hit hctx hfix hattr hst hn h =>
    obtain ⟨hnodup, _⟩ := hset.nodup hst
    have hlen := length_le_of_nodup_addrs _ hnodup
    have hfuel : rest.length < walkFuel := by
      rw [List.length_append] at hlen
      unfold walkFuel
      omega
    have hattr' : it.clearResults.attr = none := hattr
    simp only [hattr']
    exact hset.attrLoop unset walkFuel n it.clearResults hfuel hit hctx (FixedResults.clear hfix)
      hattr' hst hn h
  | inner _ _ done rest attr x attrDone attrRest before hit hctx hfix hattr hst hmain hm hx hc hast
      hn hbefore h =>
    obtain ⟨hnodup, hlive⟩ := hset.nodup hst
    have hlen := length_le_of_nodup_addrs _ hnodup
    have hfuel : rest.length < walkFuel := by
      rw [List.length_append] at hlen
      unfold walkFuel
      omega
    have hxlive : Live c x := (hlive x (List.mem_append_left _ hx)).1.1
    have hless : ∀ z, before.count z ≤ (params.innerSkipped c ctx done).count z := by
      intro z
      rw [hbefore z, List.count_append]
      omega
    have hcount5 := hset.outer_count hst hless
    have hattr' : it.clearResults.attr = some attr := hattr
    simp only [hattr', wp_bind]
    apply wp_mono (hset.attr_next hxlive hast hcount5 h unset) _ (fun _ he => he)
    intro r s1 hadv
    cases hy : attrRest.find? ((params.attr.params x).matching c ctx) with
    | some y =>
      have htrue : r.1 = true := by
        rw [hadv.found, hy]
        rfl
      simp only [htrue, if_true, wp_pure]
      apply hset.found it.clearResults hit hctx (FixedResults.clear hfix) hst hmain hm hx hc hy _
        hbefore hadv
      omega
    | none =>
      have hfalse : r.1 = false := by
        rw [hadv.found, hy]
        rfl
      have hempty : attrRest.filter ((params.attr.params x).matching c ctx) = [] := by
        rw [filter_of_find, hy, (visited_of_none hy).2]
        rfl
      simp only [hfalse, Bool.false_eq_true, if_false, wp_bind]
      rw [hempty] at hn ⊢
      apply wp_mono (hset.exhausted hc hy hbefore hadv) _ (fun _ he => he)
      intro _ s2 h2
      apply hset.attrLoop unset walkFuel n { it.clearResults with attr := none } hfuel hit hctx
        (FixedResults.clear hfix) rfl hst _ h2
      simp only [List.length_nil] at hn
      omega

/-- A call of `sc_iterator5_next` and the five values after it. -/
def nextFive (env : ScEnv) (unset : ScAddr → ScType) (it : ScIterator5) :
    StoreM (Option FiveAddrs × ScIterator5) := do
  let (found, it) ← scIterator5Next env unset it
  return (if found then some it.results else none, it)

/-- What the calls of `next` on a new iterator return. -/
def iterate5 (env : ScEnv) (create : StoreM (Option ScIterator5)) (unsets : List (ScAddr → ScType)) :
    StoreM (List (Option FiveAddrs)) := do
  match ← create with
  | none => return unsets.map fun _ => none
  | some it =>
    let (out, _) ← callEach (nextFive env) unsets it
    return out

theorem JoinSetting.nextFive (hset : JoinSetting env L c base params d anchor E)
    (unset : ScAddr → ScType) {n : ℕ} {l : List FiveAddrs}
    (h : JoinAt env L c base ctx params n l it s) :
    Wp (Store.nextFive env unset it)
      (fun r s => r.1 = l.head? ∧ JoinAt env L c base ctx params (n-1) l.tail r.2 s) E s := by
  unfold Store.nextFive
  rw [wp_bind]
  apply wp_mono (hset.next unset h) _ (fun _ he => he)
  intro r s1 hr
  rw [wp_pure]
  refine ⟨?_, hr.after⟩
  rw [hr.found]
  cases hl : l.head? with
  | none => rfl
  | some t =>
    rw [← hr.results t hl]
    rfl

theorem join_cursor (hset : JoinSetting env L c base params d anchor E) :
    Cursor (Store.nextFive env)
      (fun l it s => ∃ n, JoinAt env L c base ctx params n l it s) E := by
  constructor
  · intro unset t l it s ⟨n, h⟩
    apply wp_mono (hset.nextFive unset h) _ (fun _ he => he)
    intro r s1 ⟨hr, hat⟩
    exact ⟨hr, n-1, hat⟩
  · intro unset it s ⟨n, h⟩
    apply wp_mono (hset.nextFive unset h) _ (fun _ he => he)
    intro r s1 ⟨hr, hat⟩
    exact ⟨hr, n-1, hat⟩

theorem FixedResults.start (params : Iterator5Params) (ctx : ScContext) (main : ScIterator3) :
    (params.start ctx main).FixedResults := by
  unfold ScIterator5.FixedResults Iterator5Params.start
  cases params <;> simp only [Iterator5Params.attr] <;> split <;> simp_all

/-- A new iterator has everything before it. -/
theorem joinAt_start (hp : params.main.arcs = some (d, anchor))
    (h : Iterating env L [] c base (params.main.fixed ++ []) s) :
    JoinAt env L c base ctx params
      ((arcList c d anchor).length+(params.joined c ctx (arcList c d anchor)).length)
      (params.joined c ctx (arcList c d anchor))
      (params.start ctx (params.main.fresh ctx)) s := by
  have hmain : (params.start ctx (params.main.fresh ctx)).main = params.main.fresh ctx := by
    cases params <;> rfl
  apply JoinAt.outer _ _ s [] (arcList c d anchor)
  · cases params <;> rfl
  · cases params <;> rfl
  · exact FixedResults.start params ctx _
  · cases params <;> rfl
  · rw [hmain]
    exact standing_fresh hp
  · exact le_rfl
  · rw [hmain, held_fresh]
    exact h

/-- The calls on a new iterator. -/
theorem iterate5_enumerates (hok : StoreOk env.thread st) (ctx : ScContext)
    (params : Iterator5Params) (hp : params.main.arcs = some (d, anchor)) :
    Enumerates (iterate5 env (params.create env ctx)) st
      (RefRoom st 9 ∧ (∀ a ∈ params.main.fixed, a.offset.toNat < 65535) ∧
        ∀ p5, params.attr.beg = .addr p5 → p5.offset.toNat < 65535)
      (if params.main.Creatable st.cell ctx then
        params.joined st.cell ctx (arcList st.cell d anchor) else []) := by
  apply enumerates_of_wp
  intro unsets
  have hund := undisturbed_of_storeOk hok
  set room : Prop := RefRoom st 9 ∧ (∀ a ∈ params.main.fixed, a.offset.toNat < 65535) ∧
    ∀ p5, params.attr.beg = .addr p5 → p5.offset.toNat < 65535 with hroomdef
  have hoffset : ∀ a ∈ params.main.fixed, 65535 ≤ a.offset.toNat → ∀ _ : ScStop, ¬ room := by
    intro a ha hoff _ hroom
    have hlt := hroom.2.1 a ha
    omega
  have hlimit : ∀ a ∈ params.main.fixed,
      4294967295 ≤ st.refCount a+(params.main.fixed ++ []).count a → ∀ _ : ScStop, ¬ room := by
    intro a _ hlimit _ hroom
    have hlt := hroom.1 a
    have hle := count_fixed_le params.main a
    rw [List.append_nil] at hlimit
    omega
  unfold iterate5 Iterator5Params.create
  simp only [wp_bind]
  apply wp_mono (create_wp hund params.main hoffset hlimit (iterating_start hok)) _ (fun _ he => he)
  intro r s1 ⟨hr, h1⟩
  subst hr
  by_cases hc : params.main.Creatable st.cell ctx
  · have hread : params.main.Readable st ctx := by
      intro a ha
      exact ⟨hok.cells.loaded hok.wf.2 (type_of_live (hc a ha).1), (hc a ha).2⟩
    rw [if_pos hread, takenRefs_live fun a ha => (hc a ha).1] at h1
    simp only [if_pos hc, wp_bind, wp_pure]
    have hset : JoinSetting env st.locks st.cell st.refCount params d anchor (fun _ => ¬ room) := by
      refine ⟨hund, hok.cells.arcs, hp, (hc anchor (mem_fixed_anchor hp)).1, ?_, ?_⟩
      · intro x hlarge _ hroom
        have hlt := hroom.1 x
        omega
      · intro p5 hbeg hoff _ hroom
        have hlt := hroom.2.2 p5 hbeg
        omega
    have hstart : ∃ n, JoinAt env st.locks st.cell st.refCount ctx params n
        (params.joined st.cell ctx (arcList st.cell d anchor))
        (params.start ctx (params.main.fresh ctx)) s1 := ⟨_, joinAt_start hp h1⟩
    apply wp_mono ((join_cursor hset).calls unsets _ _ _ hstart) _ (fun _ he => he)
    intro out s2 ⟨hout, _⟩
    exact hout
  · simp only [if_neg hc, wp_pure, firstOf_nil]
    exact List.map_const'

/-! The results as a relation of five elements. -/

/-- A position of the construction: the given address, or an element with all bits of the given
type. -/
def ScIteratorParam.Fits (c : Cells) (param : ScIteratorParam) (a : ScAddr) : Prop :=
  match param with
  | .addr p => a = p
  | .type t => HasType c a t

/-- `e1` is an arc from `a` to `b`, `e2` an arc from `f` to `e1`, all five may be read, and each
fits its parameter. -/
structure IsJoin (c : Cells) (ctx : ScContext) (p1 p2 p3 p4 p5 : ScIteratorParam) (a e1 b e2 f : ScAddr) :
    Prop where
  live : Live c a ∧ Live c e1 ∧ Live c b ∧ Live c e2 ∧ Live c f
  first : (c e1).isArc = true ∧ (c e1).arc .arcBegin = a ∧ (c e1).arc .arcEnd = b
  second : (c e2).isArc = true ∧ (c e2).arc .arcBegin = f ∧ (c e2).arc .arcEnd = e1
  readable : CanRead ctx c a ∧ CanRead ctx c e1 ∧ CanRead ctx c b ∧ CanRead ctx c e2 ∧
    CanRead ctx c f
  fits : p1.Fits c a ∧ p2.Fits c e1 ∧ p3.Fits c b ∧ p4.Fits c e2 ∧ p5.Fits c f

/-- The parameters of the first arc. -/
def Iterator5Params.Takes (params : Iterator5Params) (p1 p2 p3 : ScIteratorParam) : Prop :=
  match params with
  | .faa q1 q2 q3 _ => p1 = .addr q1 ∧ p2 = .type q2 ∧ p3 = .type q3
  | .aaf q1 q2 q3 _ => p1 = .type q1 ∧ p2 = .type q2 ∧ p3 = .addr q3
  | .faf q1 q2 q3 _ => p1 = .addr q1 ∧ p2 = .type q2 ∧ p3 = .addr q3

/-- The first arcs that an iterator stops at. -/
theorem mem_main (harcs : ArcsOk c) (hp : params.main.arcs = some (d, anchor)) (x : ScAddr)
    (p1 p2 p3 : ScIteratorParam)
    (hparams : params.Takes p1 p2 p3) :
    (params.main.Creatable c ctx ∧ x ∈ arcList c d anchor ∧ params.main.Matches c ctx x) ↔
      LiveArc c x ∧ (CanRead ctx c (ownerOf c .out x) ∧ CanRead ctx c x ∧
        CanRead ctx c (ownerOf c .inp x)) ∧
      p1.Fits c (ownerOf c .out x) ∧ p2.Fits c x ∧ p3.Fits c (ownerOf c .inp x) := by
  cases params with
  | faa q1 q2 q3 _ =>
    obtain ⟨rfl, rfl, rfl⟩ := hparams
    simp only [Iterator5Params.main, Iterator3Params.arcs, Option.some.injEq, Prod.mk.injEq] at hp
    obtain ⟨rfl, rfl⟩ := hp
    simp only [Iterator5Params.main, Iterator3Params.Creatable, Iterator3Params.fixed,
      List.mem_singleton, forall_eq, Iterator3Params.Matches, ScIteratorParam.Fits]
    constructor
    · rintro ⟨⟨hlive, hread⟩, hx, hm⟩
      obtain ⟨harc, ho⟩ := ((harcs.arcList hlive).mem x).mp hx
      exact ⟨harc, ⟨by rw [ho]; exact hread, hm.2.2.1, hm.2.2.2⟩, ho, hm.1, hm.2.1⟩
    · rintro ⟨harc, hread, ho, ht, ht'⟩
      have hlive : Live c q1 := by
        rw [← ho]
        exact harcs.endpoint x .out harc
      rw [ho] at hread
      exact ⟨⟨hlive, hread.1⟩, ((harcs.arcList hlive).mem x).mpr ⟨harc, ho⟩, ht, ht', hread.2⟩
  | aaf q1 q2 q3 _ =>
    obtain ⟨rfl, rfl, rfl⟩ := hparams
    simp only [Iterator5Params.main, Iterator3Params.arcs, Option.some.injEq, Prod.mk.injEq] at hp
    obtain ⟨rfl, rfl⟩ := hp
    simp only [Iterator5Params.main, Iterator3Params.Creatable, Iterator3Params.fixed,
      List.mem_singleton, forall_eq, Iterator3Params.Matches, ScIteratorParam.Fits]
    constructor
    · rintro ⟨⟨hlive, hread⟩, hx, hm⟩
      obtain ⟨harc, ho⟩ := ((harcs.arcList hlive).mem x).mp hx
      exact ⟨harc, ⟨hm.2.2.2, hm.2.2.1, by rw [ho]; exact hread⟩, hm.2.1, hm.1, ho⟩
    · rintro ⟨harc, hread, ht', ht, ho⟩
      have hlive : Live c q3 := by
        rw [← ho]
        exact harcs.endpoint x .inp harc
      rw [ho] at hread
      exact ⟨⟨hlive, hread.2.2⟩, ((harcs.arcList hlive).mem x).mpr ⟨harc, ho⟩, ht, ht', hread.2.1,
        hread.1⟩
  | faf q1 q2 q3 _ =>
    obtain ⟨rfl, rfl, rfl⟩ := hparams
    simp only [Iterator5Params.main, Iterator3Params.arcs, Option.some.injEq, Prod.mk.injEq] at hp
    obtain ⟨rfl, rfl⟩ := hp
    simp only [Iterator5Params.main, Iterator3Params.Creatable, Iterator3Params.fixed,
      List.forall_mem_cons, List.not_mem_nil, false_implies, implies_true, and_true,
      Iterator3Params.Matches, ScIteratorParam.Fits]
    constructor
    · rintro ⟨⟨hbeg, hend⟩, hx, hm⟩
      obtain ⟨harc, ho⟩ := ((harcs.arcList hend.1).mem x).mp hx
      refine ⟨harc, ⟨?_, hm.2.2, ?_⟩, hm.1, hm.2.1, ho⟩
      · rw [hm.1]
        exact hbeg.2
      · rw [ho]
        exact hend.2
    · rintro ⟨harc, hread, hb, ht, ho⟩
      have hlive : Live c q3 := by
        rw [← ho]
        exact harcs.endpoint x .inp harc
      have hlive' : Live c q1 := by
        rw [← hb]
        exact harcs.endpoint x .out harc
      rw [ho, hb] at hread
      exact ⟨⟨⟨hlive', hread.1⟩, hlive, hread.2.2⟩, ((harcs.arcList hlive).mem x).mpr ⟨harc, ho⟩,
        hb, ht, hread.2.1⟩

/-- The second arcs that the inner iterator stops at. -/
theorem mem_attr (harcs : ArcsOk c) (hx : Live c x ∧ CanRead ctx c x) (attr : AttrParams)
    (y : ScAddr) :
    ((attr.params x).Creatable c ctx ∧ y ∈ arcList c .inp x ∧ (attr.params x).Matches c ctx y) ↔
      (LiveArc c y ∧ ownerOf c .inp y = x) ∧ (CanRead ctx c y ∧ CanRead ctx c (ownerOf c .out y)) ∧
      HasType c y attr.arcType ∧ attr.beg.Fits c (ownerOf c .out y) := by
  rw [attr_creatable_iff attr hx, (harcs.arcList hx.1).mem]
  unfold AttrParams.params ScIteratorParam.Fits
  cases attr.beg with
  | addr p5 =>
    simp only [ScIteratorParam.addr.injEq, forall_eq', Iterator3Params.Matches]
    constructor
    · intro ⟨hp5, hy, hb, ht, hread⟩
      exact ⟨hy, ⟨hread, by rw [hb]; exact hp5.2⟩, ht, hb⟩
    · intro ⟨hy, hread, ht, hb⟩
      have hlive := harcs.endpoint y .out hy.1
      rw [hb] at hlive hread
      exact ⟨⟨hlive, hread.2⟩, hy, hb, ht, hread.1⟩
  | type p5 =>
    simp only [reduceCtorEq, false_implies, implies_true, true_and, Iterator3Params.Matches]
    tauto

theorem mem_block (y : FiveAddrs) : y ∈ params.block c ctx x ↔ ∃ z,
    ((params.attr.params x).Creatable c ctx ∧ z ∈ arcList c .inp x ∧
      (params.attr.params x).Matches c ctx z) ∧ joinTuple c x z = y := by
  unfold Iterator5Params.block
  split_ifs with hc
  · simp only [List.mem_map, List.mem_filter, Iterator3Params.matching, decide_eq_true_eq, hc,
      true_and]
  · simp only [List.not_mem_nil, hc, false_and, exists_false]

/-- The second entry of a result is its first arc and the fourth one its second arc. -/
theorem joined_nodup (harcs : ArcsOk c) {l : List ScAddr} (hl : l.Nodup) (hlive : ∀ x ∈ l, Live c x) :
    (params.joined c ctx l).Nodup := by
  unfold Iterator5Params.joined
  rw [List.nodup_flatMap]
  constructor
  · intro x hx
    have hxlive := hlive x (List.mem_filter.mp hx).1
    unfold Iterator5Params.block
    split_ifs
    · apply List.Nodup.map _ ((harcs.arcList hxlive).nodup.filter _)
      intro y y' heq
      exact congrArg (fun t : FiveAddrs => t.2.2.2.1) heq
    · exact List.nodup_nil
  · apply List.Pairwise.imp_of_mem _ (hl.filter _)
    intro x x' _ _ hne t ht ht'
    obtain ⟨y, _, rfl⟩ := (mem_block t).mp ht
    obtain ⟨y', _, heq⟩ := (mem_block _).mp ht'
    apply hne
    exact congrArg (fun t : FiveAddrs => t.2.1) heq.symm

/-- What each kind takes its parameters for. -/
theorem ofType_some {type : ScIterator5Type} {p1 p2 p3 p4 p5 : ScIteratorParam}
    (h : Iterator5Params.ofType type p1 p2 p3 p4 p5 = some params) :
    params.Takes p1 p2 p3 ∧ p4 = .type params.attr.arcType ∧ p5 = params.attr.beg := by
  unfold Iterator5Params.ofType at h
  split at h
  all_goals
    first
    | (obtain rfl := Option.some.inj h; exact ⟨⟨rfl, rfl, rfl⟩, rfl, rfl⟩)
    | (exact absurd h (by simp))

/-- The joined lists hold the constructions of five elements, and no others. -/
theorem mem_joined (harcs : ArcsOk c) (hp : params.main.arcs = some (d, anchor))
    {type : ScIterator5Type} {p1 p2 p3 p4 p5 : ScIteratorParam}
    (htype : Iterator5Params.ofType type p1 p2 p3 p4 p5 = some params) (a e1 b e2 f : ScAddr) :
    (params.main.Creatable c ctx ∧ (a, e1, b, e2, f) ∈ params.joined c ctx (arcList c d anchor)) ↔
      IsJoin c ctx p1 p2 p3 p4 p5 a e1 b e2 f := by
  obtain ⟨hmain, rfl, rfl⟩ := ofType_some htype
  have hmem := fun x => @mem_main c ctx d params anchor harcs hp x p1 p2 p3 hmain
  unfold Iterator5Params.joined
  simp only [List.mem_flatMap, List.mem_filter, Iterator3Params.matching, decide_eq_true_eq,
    mem_block, joinTuple, Prod.mk.injEq]
  constructor
  · intro ⟨hcreate, x, hx, y, hy, ha, he1, hb, he2, hf⟩
    subst ha he1 hb he2 hf
    obtain ⟨hxarc, hread, hfits⟩ := (hmem x).mp ⟨hcreate, hx⟩
    obtain ⟨⟨hyarc, ho⟩, hread', ht, hbeg⟩ :=
      (mem_attr harcs ⟨hxarc.1, hread.2.1⟩ params.attr y).mp hy
    exact {
      live := ⟨harcs.endpoint x .out hxarc, hxarc.1, harcs.endpoint x .inp hxarc, hyarc.1,
        harcs.endpoint y .out hyarc⟩
      first := ⟨hxarc.2, rfl, rfl⟩
      second := ⟨hyarc.2, rfl, ho⟩
      readable := ⟨hread.1, hread.2.1, hread.2.2, hread'.1, hread'.2⟩
      fits := ⟨hfits.1, hfits.2.1, hfits.2.2, ht, hbeg⟩ }
  · intro h
    -- the arcs determine their ends
    obtain ⟨harc, rfl, rfl⟩ := h.first
    obtain ⟨harc', rfl, hend⟩ := h.second
    obtain ⟨hra, hr1, hrb, hr2, hrf⟩ := h.readable
    obtain ⟨hf1, hf2, hf3, hf4, hf5⟩ := h.fits
    obtain ⟨_, hl1, _, hl2, _⟩ := h.live
    obtain ⟨hcreate, hx⟩ := (hmem e1).mpr ⟨⟨hl1, harc⟩, ⟨hra, hr1, hrb⟩, hf1, hf2, hf3⟩
    have hy := (mem_attr harcs ⟨hl1, hr1⟩ params.attr e2).mpr
      ⟨⟨⟨hl2, harc'⟩, hend⟩, ⟨hr2, hrf⟩, hf4, hf5⟩
    exact ⟨hcreate, e1, hx, e2, hy, rfl, rfl, rfl, rfl, rfl⟩

end

theorem five_iterators_exact (thread : ℕ) (evs : List StoreEvent) (st : ScStorage)
    (hr : Run (OwnStep thread) ScStorage.empty evs st) (env : ScEnv) (henv : env.thread = thread)
    (ctx : ScContext) (type : ScIterator5Type) (p1 p2 p3 p4 p5 : ScIteratorParam)
    (htype : (Iterator5Params.ofType type p1 p2 p3 p4 p5).isSome = true) :
    ∃ l : List FiveAddrs,
      Enumerates (iterate5 env (scIterator5New env ctx type p1 p2 p3 p4 p5)) st
        (RefRoom st 9 ∧ ∀ p ∈ [p1, p2, p3, p4, p5], ∀ a, p = .addr a → a.offset.toNat < 65535) l ∧
      l.Nodup ∧
      ∀ a e1 b e2 f, (a, e1, b, e2, f) ∈ l ↔ IsJoin st.cell ctx p1 p2 p3 p4 p5 a e1 b e2 f := by
  subst henv
  have hok := ownRun_storeOk evs st hr
  obtain ⟨params, hparams⟩ := Option.isSome_iff_exists.mp htype
  obtain ⟨d, anchor, hp⟩ := main_arcs params
  have hmem := @mem_joined st.cell ctx d params anchor hok.cells.arcs hp type p1 p2 p3 p4 p5 hparams
  have hen := @iterate5_enumerates env st d anchor hok ctx params hp
  unfold scIterator5New
  rw [hparams]
  refine ⟨_, hen.congr ?_ rfl, ?_, ?_⟩
  · intro ⟨hroom, hoff⟩
    obtain ⟨hmain, rfl, rfl⟩ := ofType_some hparams
    refine ⟨hroom, ?_, ?_⟩
    · intro a ha
      cases params with
      | faa q1 q2 q3 _ =>
        obtain ⟨rfl, rfl, rfl⟩ := hmain
        rw [List.mem_singleton.mp ha]
        exact hoff (.addr q1) (by simp) q1 rfl
      | aaf q1 q2 q3 _ =>
        obtain ⟨rfl, rfl, rfl⟩ := hmain
        rw [List.mem_singleton.mp ha]
        exact hoff (.addr q3) (by simp) q3 rfl
      | faf q1 q2 q3 _ =>
        obtain ⟨rfl, rfl, rfl⟩ := hmain
        rcases List.mem_cons.mp ha with rfl | ha
        · exact hoff (.addr a) (by simp) a rfl
        · rw [List.mem_singleton.mp ha]
          exact hoff (.addr q3) (by simp) q3 rfl
    · intro p5 hbeg
      exact hoff params.attr.beg (by simp) p5 hbeg
  · split_ifs with hc
    · have hlive := (hc anchor (mem_fixed_anchor hp)).1
      have hchain := hok.cells.arcs.arcList hlive (d := d)
      exact joined_nodup hok.cells.arcs hchain.nodup fun x hx => ((hchain.mem x).mp hx).1.1
    · exact List.nodup_nil
  · intro a e1 b e2 f
    rw [← hmem a e1 b e2 f]
    split_ifs with hc
    · simp only [hc, true_and]
    · simp only [List.not_mem_nil, hc, false_and]

/-- An arc between two nodes, and an arc from the second node that ends in it. -/
def attributeEvents : List StoreEvent :=
  arcEvents ++ [⟨exampleEnv, .call (.arcNew exampleContext scTypeArcCommon ⟨0, 33⟩ ⟨0, 65⟩)⟩]

def storeWithAttribute : ScStorage := stateAfterEvents attributeEvents ScStorage.empty

theorem storeWithAttribute_run : Run (OwnStep 1) ScStorage.empty attributeEvents storeWithAttribute :=
  ownRun_of_ownEvents attributeEvents _ (by decide +kernel)

theorem storeWithAttribute_join : IsJoin storeWithAttribute.cell exampleContext (.addr ⟨0, 1⟩)
    (.type 0) (.type 0) (.type 0) (.type 0) ⟨0, 1⟩ ⟨0, 65⟩ ⟨0, 33⟩ ⟨0, 97⟩ ⟨0, 33⟩ := by
  constructor
  · unfold Live
    decide +kernel
  · decide +kernel
  · decide +kernel
  · decide +kernel
  · unfold ScIteratorParam.Fits
    decide +kernel

theorem five_iterators_exact_storeWithAttribute :
    IsJoin storeWithAttribute.cell exampleContext (.addr ⟨0, 1⟩) (.type 0) (.type 0) (.type 0)
        (.type 0) ⟨0, 1⟩ ⟨0, 65⟩ ⟨0, 33⟩ ⟨0, 97⟩ ⟨0, 33⟩ ∧
      ∃ l : List FiveAddrs,
        Enumerates (iterate5 exampleEnv (scIterator5New exampleEnv exampleContext .faaaa
          (.addr ⟨0, 1⟩) (.type 0) (.type 0) (.type 0) (.type 0))) storeWithAttribute
          (RefRoom storeWithAttribute 9 ∧ ∀ p ∈ [ScIteratorParam.addr ⟨0, 1⟩, .type 0, .type 0,
            .type 0, .type 0], ∀ a, p = .addr a → a.offset.toNat < 65535) l ∧
        (⟨0, 1⟩, ⟨0, 65⟩, ⟨0, 33⟩, ⟨0, 97⟩, ⟨0, 33⟩) ∈ l := by
  obtain ⟨l, hen, _, hmem⟩ := five_iterators_exact 1 attributeEvents storeWithAttribute
    storeWithAttribute_run exampleEnv rfl exampleContext .faaaa (.addr ⟨0, 1⟩) (.type 0) (.type 0)
    (.type 0) (.type 0) rfl
  exact ⟨storeWithAttribute_join, l, hen, (hmem _ _ _ _ _).mpr storeWithAttribute_join⟩

/-- The first call stops if the first arc has all the references it can have. -/
theorem firstFive_limit {env : ScEnv} {st : ScStorage} {ctx : ScContext} {el x : ScAddr}
    {xs : List ScAddr} (hok : StoreOk env.thread st)
    (hel : Live st.cell el ∧ CanRead ctx st.cell el)
    (hlist : arcList st.cell .out el = x :: xs) (hlimit : 4294967295 ≤ st.refCount x+1)
    (p2 p3 : ScType) (attr : AttrParams) (unset : ScAddr → ScType) :
    IfReturns (iterate5 env ((Iterator5Params.faa el p2 p3 attr).create env ctx) [unset])
      (fun _ _ => False) st := by
  have hset := undisturbed_of_storeOk hok
  have hchain := hok.cells.arcs.arcList hel.1 (d := .out)
  rw [hlist] at hchain
  have hcreate : (Iterator3Params.faa el p2 p3).Creatable st.cell ctx := by
    intro a ha
    rw [List.mem_singleton.mp ha]
    exact hel
  unfold iterate5 Iterator5Params.create
  simp only [IfReturns, wp_bind]
  apply wp_mono (create_creatable hset (.faa el p2 p3) hcreate (fun _ _ _ _ => trivial)
    (iterating_start hok)) _ (fun _ _ => trivial)
  intro r s1 ⟨hr, h1⟩
  subst hr
  simp only [wp_bind, wp_pure]
  apply callEach_cons
  unfold nextFive
  rw [wp_bind]
  -- the outer iterator is called first
  show Wp (attrLoop env unset (walkFuel-1+1) _) _ _ s1
  unfold attrLoop
  rw [wp_bind]
  exact wp_mono (next_limit hset hel.1 hchain hlimit p2 p3 unset h1) (fun _ _ hf => hf.elim)
    (fun _ he => he)

/-- An arc with all the references that an assertion lets it have: the first call of `next` stops
there, though there is a construction to be found. -/
theorem five_iterator_stops_at_limit :
    ∃ st, Run (OwnStep 1) ScStorage.empty
        (attributeEvents ++ List.replicate 4294967293 ⟨exampleEnv, .ref ⟨0, 65⟩⟩) st ∧
      IsJoin st.cell exampleContext (.addr ⟨0, 1⟩) (.type 0) (.type 0) (.type 0) (.type 0)
        ⟨0, 1⟩ ⟨0, 65⟩ ⟨0, 33⟩ ⟨0, 97⟩ ⟨0, 33⟩ ∧
      ∀ out st', iterate5 exampleEnv (scIterator5FAAAANew exampleEnv exampleContext ⟨0, 1⟩ 0 0 0 0)
        [fun _ => 0] st ≠ .ok (out, st') := by
  have hok := ownRun_storeOk attributeEvents storeWithAttribute storeWithAttribute_run
  have hcount : storeWithAttribute.refCount ⟨0, 65⟩ = 1 := by decide +kernel
  obtain ⟨st, hrun, hcell, href⟩ := @refs_run exampleEnv storeWithAttribute ⟨0, 65⟩ hok
    (by unfold Live; decide +kernel) 4294967293 (by rw [hcount]; norm_num)
  have hrun' : Run (OwnStep 1) ScStorage.empty
      (attributeEvents ++ List.replicate 4294967293 ⟨exampleEnv, .ref ⟨0, 65⟩⟩) st :=
    (run_append _ _ _ _).mpr ⟨storeWithAttribute, storeWithAttribute_run, hrun⟩
  refine ⟨st, hrun', ?_, ?_⟩
  · rw [hcell]
    exact storeWithAttribute_join
  · intro out st' hcalls
    have hlist : arcList st.cell .out ⟨0, 1⟩ = ⟨0, 65⟩ :: [] := by
      rw [hcell]
      decide +kernel
    have hel : Live st.cell ⟨0, 1⟩ ∧ CanRead exampleContext st.cell ⟨0, 1⟩ := by
      rw [hcell]
      decide +kernel
    have hlimit : 4294967295 ≤ st.refCount ⟨0, 65⟩+1 := by
      rw [href, hcount]
      norm_num
    have hok' := ownRun_storeOk _ st hrun'
    have hstop := @firstFive_limit exampleEnv st exampleContext ⟨0, 1⟩ ⟨0, 65⟩ [] hok' hel hlist
      hlimit 0 0 ⟨0, .type 0⟩ fun _ => 0
    exact wp_ok hstop hcalls

end ScMachine.Store
