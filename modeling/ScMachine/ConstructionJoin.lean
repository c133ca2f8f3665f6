import ScMachine.ConstructionIterators

/-! Iteration over constructions (`IterConstsr` in `sctpCommand.cpp`) as a nested join: the results of one
iterator for each result of those before it. -/
namespace ScMachine.Sctp
open ScMachine.Store ScMachine.Template ScMachine.WireFormat

section
variable (c : Cells) (ctx : ScContext)

def IteratorData.rows (it : IteratorData) : List (List ScAddr) :=
  (it.iterator.map (SctpIterator.rows c ctx)).getD []

/-- The arguments with the elements that stand earlier in the row. -/
def replaceArgs (row : List ScAddr) : List (ℕ × Byte) → List IterParam → List IterParam
  | [], args => args
  | (pos, repl) :: rest, args => replaceArgs row rest
      (if repl = 255 then args
      else args.modify pos fun p => { p with addr := row.getD repl.toNat ScAddr.empty })

/-- The replacements of an iterator, each with the place that it is for. -/
def IteratorData.replaces (it : IteratorData) : List (ℕ × Byte) := (it.type.elim [] fixedPositions).zip it.repl

def IteratorData.replaced (first : Bool) (row : List ScAddr) (it : IteratorData) : IteratorData :=
  if first then it else { it with args := replaceArgs row it.replaces it.args }

/-- The rows that begin with `row` and go on with one result of each iterator. -/
def joinFrom : Bool → List IteratorData → List ScAddr → List (List ScAddr)
  | _, [], row => [row]
  | first, it :: rest, row =>
    ((it.replaced first row).rows c ctx).flatMap fun r => joinFrom false rest (row ++ r)

/-- How many iterators are started for them. -/
def starts : Bool → List IteratorData → List ScAddr → ℕ
  | _, [], _ => 0
  | first, it :: rest, row =>
    1+(((it.replaced first row).rows c ctx).map fun r => starts false rest (row ++ r)).sum

end

section
variable {c : Cells} {ctx : ScContext}

theorem mem_rowsThree (hc : ArcsOk c) {params : Iterator3Params} {r : List ScAddr}
    (hr : r ∈ rowsThree c ctx params) : ∃ x, LiveArc c x ∧ r = tripleRow (arcTriple c x) := by
  unfold rowsThree at hr
  cases hp : params.arcs with
  | none =>
    rw [hp] at hr
    cases hr
  | some p =>
    obtain ⟨d, anchor⟩ := p
    rw [hp] at hr
    dsimp only at hr
    split_ifs at hr with hlive
    · rw [List.map_map] at hr
      obtain ⟨x, hx, rfl⟩ := List.mem_map.mp hr
      have hlist := (hc.arcList (hlive anchor (mem_fixed_anchor hp)) (d := d)).mem x
      exact ⟨x, (hlist.mp (List.mem_filter.mp hx).1).1, rfl⟩
    · cases hr

/-- The rows of an iterator are made of elements. -/
theorem live_rows (hc : ArcsOk c) {it : SctpIterator} {r : List ScAddr} (hr : r ∈ it.rows c ctx) :
    ∀ a ∈ r, Live c a := by
  unfold SctpIterator.rows at hr
  cases hp : it.params with
  | inl params =>
    rw [hp] at hr
    obtain ⟨x, hx, rfl⟩ := mem_rowsThree hc hr
    intro a ha
    simp only [tripleRow, arcTriple, List.mem_cons, List.not_mem_nil, or_false] at ha
    rcases ha with rfl | rfl | rfl
    · exact hc.endpoint x .out hx
    · exact hx.1
    · exact hc.endpoint x .inp hx
  | inr params =>
    rw [hp] at hr
    obtain ⟨⟨a, e1, b, e2, f⟩, ht, rfl⟩ := List.mem_map.mp hr
    obtain ⟨type, p1, p2, p3, p4, p5, hparams⟩ := exists_ofType params
    obtain ⟨ha, he1, hb, he2, hf⟩ := ((@mem_iterator5 c ctx params p1 p2 p3 p4 p5 hc type hparams a e1 b e2 f).mp
      ht).live
    intro x hx
    simp only [fiveRow, List.mem_cons, List.not_mem_nil, or_false] at hx
    rcases hx with rfl | rfl | rfl | rfl | rfl
    · exact ha
    · exact he1
    · exact hb
    · exact he2
    · exact hf

/-- An arc list has an entry for an address at most, and a join one for two addresses. -/
theorem length_iteratorRows (hc : ArcsOk c) (it : SctpIterator) : (it.rows c ctx).length < iterateRounds := by
  have hlist {d : Dir} {a : ScAddr} (ha : Live c a) : (arcList c d a).length ≤ 2^32 :=
    length_le_of_nodup_addrs _ (hc.arcList ha).nodup
  unfold SctpIterator.rows iterateRounds
  cases it.params with
  | inl params =>
    dsimp only
    unfold rowsThree
    cases hp : params.arcs with
    | none => exact Nat.succ_pos _
    | some p =>
      obtain ⟨d, anchor⟩ := p
      dsimp only
      split_ifs with hlive
      · rw [List.length_map, List.length_map]
        have hle := hlist (hlive anchor (mem_fixed_anchor hp)) (d := d)
        have hfilter := List.length_filter_le (params.matching c ctx) (arcList c d anchor)
        omega
      · exact Nat.succ_pos _
  | inr params =>
    obtain ⟨d, anchor, hp⟩ := main_arcs params
    dsimp only
    rw [List.length_map]
    have hrows : (iterator5 c ctx params).getD [] = if params.main.Creatable c ctx then
        params.joined c ctx (arcList c d anchor) else [] := by
      unfold iterator5
      split_ifs
      · cases params <;> cases hp <;> rfl
      · rfl
    rw [hrows]
    split_ifs with hcreate
    · have hanchor := (hcreate anchor (mem_fixed_anchor hp)).1
      have hblock : ∀ n ∈ ((arcList c d anchor).filter (params.main.matching c ctx)).map
          (fun x => (params.block c ctx x).length), n ≤ 2^32 := by
        intro n hn
        obtain ⟨x, hx, rfl⟩ := List.mem_map.mp hn
        have hlive := (((hc.arcList hanchor (d := d)).mem x).mp (List.mem_filter.mp hx).1).1.1
        unfold Iterator5Params.block
        split_ifs
        · rw [List.length_map]
          exact (List.length_filter_le _ _).trans (hlist hlive)
        · exact Nat.zero_le _
      have hsum := List.sum_le_card_nsmul _ _ hblock
      have hle := (List.length_filter_le (params.main.matching c ctx) (arcList c d anchor)).trans
        (hlist hanchor (d := d))
      unfold Iterator5Params.joined
      rw [List.length_flatMap]
      rw [List.length_map, smul_eq_mul] at hsum
      calc _ ≤ ((arcList c d anchor).filter (params.main.matching c ctx)).length*2^32 := hsum
        _ ≤ 2^32*2^32 := Nat.mul_le_mul_right _ hle
        _ < 2^64+1 := by norm_num
    · exact Nat.succ_pos _

theorem mem_rows {it : IteratorData} {r : List ScAddr} (hr : r ∈ it.rows c ctx) :
    ∃ iterator, it.iterator = some iterator ∧ r ∈ iterator.rows c ctx := by
  unfold IteratorData.rows at hr
  cases hiter : it.iterator with
  | none =>
    rw [hiter] at hr
    cases hr
  | some iterator =>
    rw [hiter] at hr
    exact ⟨iterator, rfl, hr⟩

theorem length_rows {it : IteratorData} {r : List ScAddr} (hr : r ∈ it.rows c ctx) :
    r.length = argsCount it.type := by
  obtain ⟨iterator, hiter, hr⟩ := mem_rows hr
  have hthree {params : Iterator3Params} (h : r ∈ rowsThree c ctx params) : r.length = 3 := by
    unfold rowsThree at h
    cases hp : params.arcs with
    | none =>
      rw [hp] at h
      cases h
    | some p =>
      rw [hp] at h
      dsimp only at h
      split_ifs at h
      · obtain ⟨t, _, rfl⟩ := List.mem_map.mp h
        rfl
      · cases h
  have hfive (l : List FiveAddrs) (h : r ∈ l.map fiveRow) : r.length = 5 := by
    obtain ⟨t, _, rfl⟩ := List.mem_map.mp h
    rfl
  have hcount : iterator.argsCount = argsCount it.type := by
    unfold IteratorData.iterator at hiter
    cases htype : it.type with
    | none =>
      rw [htype] at hiter
      cases hiter
    | some type =>
      rw [htype] at hiter
      cases type <;> cases hiter <;> rfl
  rw [← hcount]
  cases iterator with
  | f3_a_a _ _ _ => exact @hthree (.faa _ _ _) hr
  | a3_a_f _ _ _ => exact @hthree (.aaf _ _ _) hr
  | f3_a_f _ _ _ => exact @hthree (.faf _ _ _) hr
  | f5_a_a_a_f _ _ _ _ _ => exact hfive _ hr
  | a5_a_f_a_f _ _ _ _ _ => exact hfive _ hr
  | f5_a_f_a_f _ _ _ _ _ => exact hfive _ hr
  | f5_a_f_a_a _ _ _ _ _ => exact hfive _ hr
  | f5_a_a_a_a _ _ _ _ _ => exact hfive _ hr
  | a5_a_f_a_a _ _ _ _ _ => exact hfive _ hr

@[simp] theorem replaced_type (first : Bool) (row : List ScAddr) (it : IteratorData) :
    (it.replaced first row).type = it.type := by
  unfold IteratorData.replaced
  split_ifs <;> rfl

/-- The given elements of an iterator are addresses of its arguments. -/
theorem given_args {it : IteratorData} {iterator : SctpIterator} (hiter : it.iterator = some iterator)
    {a : ScAddr} (ha : a ∈ iterator.given) : ∃ i, a = it.argAddr i := by
  unfold IteratorData.iterator at hiter
  cases htype : it.type with
  | none =>
    rw [htype] at hiter
    cases hiter
  | some type =>
    rw [htype] at hiter
    cases type <;> cases hiter <;>
      simp only [SctpIterator.given, SctpIterator.params, Iterator3Params.fixed, Iterator5Params.main,
        Iterator5Params.attr, List.mem_append, List.mem_cons, List.not_mem_nil, or_false] at ha <;>
      grind

/-- An argument keeps its address or gets one of the row. -/
theorem replaceArgs_addr {P : ScAddr → Prop} {row : List ScAddr} (hempty : P ScAddr.empty)
    (hrow : ∀ a ∈ row, P a) (pairs : List (ℕ × Byte)) (args : List IterParam) (hargs : ∀ p ∈ args, P p.addr) :
    ∀ p ∈ replaceArgs row pairs args, P p.addr := by
  induction pairs generalizing args with
  | nil => exact hargs
  | cons pair pairs ih =>
    obtain ⟨pos, repl⟩ := pair
    rw [replaceArgs]
    apply ih
    split_ifs
    · exact hargs
    · have hget : P (row.getD repl.toNat ScAddr.empty) := by
        rw [List.getD_eq_getElem?_getD]
        cases hk : row[repl.toNat]? with
        | none => exact hempty
        | some a => exact hrow a (List.mem_of_getElem? hk)
      intro p hp
      obtain ⟨i, hi, rfl⟩ := List.mem_iff_getElem.mp hp
      rw [List.getElem_modify]
      split_ifs
      · exact hget
      · exact hargs _ (List.getElem_mem _)

theorem length_joinFrom (its : List IteratorData) (first : Bool) (row full : List ScAddr)
    (h : full ∈ joinFrom c ctx first its row) : full.length = row.length+oneResultSize its := by
  induction its generalizing first row with
  | nil =>
    obtain rfl := List.mem_singleton.mp h
    rfl
  | cons it rest ih =>
    obtain ⟨r, hr, hin⟩ := List.mem_flatMap.mp h
    have hsize : oneResultSize (it :: rest) = argsCount it.type+oneResultSize rest := rfl
    rw [ih false (row ++ r) hin, List.length_append, length_rows hr, replaced_type, hsize, Nat.add_assoc]

/-- A result is written behind what is there. -/
theorem copyResults_append {β : Type} (n : ℕ) (values : ℕ → β) (row junk : List β) (h : n ≤ junk.length) :
    copyResults n row.length values (row ++ junk) = row ++ ((List.range n).map values ++ junk.drop n) := by
  induction n with
  | zero => simp [copyResults]
  | succ n ih =>
    have hstep : copyResults (n+1) row.length values (row ++ junk) =
        (copyResults n row.length values (row ++ junk)).set (row.length+n) (values n) := by
      unfold copyResults
      rw [List.range_succ, List.foldl_append]
      rfl
    have hlen : ((List.range n).map values).length = n := by rw [List.length_map, List.length_range]
    rw [hstep, ih (by omega), List.set_append_right _ _ (by omega), Nat.add_sub_cancel_left,
      List.set_append_right _ _ (by omega), hlen, Nat.sub_self, List.drop_eq_getElem_cons h, List.set_cons_zero,
      List.range_succ, List.map_append, List.map_singleton, List.append_assoc, List.singleton_append]

end

end ScMachine.Sctp
