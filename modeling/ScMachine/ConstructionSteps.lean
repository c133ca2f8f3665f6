import ScMachine.ConstructionJoin

/-! The steps of an iteration over a construction once more, with a fault for each access outside of a vector
and each use of an address that nothing has been written to: they make the nested join, and where there is no
fault the steps themselves do the same. -/
namespace ScMachine.Sctp
open ScMachine.Store ScMachine.WireFormat ScMachine.Template ScMachine.StateExcept ScMachine.Enumeration

/-- What must not happen while a request is processed. -/
inductive IterFault where
  | assertion
  | iteratorIndex
  | resultIndex
  | unsetAddress
  | zeroStride
  deriving DecidableEq, Repr

/-- What ends a request before it is answered: a fault of the server, or the memory, which has stopped the
process or does not come to the end of an iterator. -/
inductive IterStop where
  | fault (f : IterFault)
  | memory

/-- An iterator as it is read, and which of its arguments the request has in full; an argument to be
replaced is not in the request. -/
structure CheckedIterator where
  data : IteratorData
  read : List Bool

/-- The loop of `buildParams`, for what the request has. -/
def paramsRead (fixed : List ℕ) (repl : List Byte) : ℕ → ℕ → ℕ → List Byte → List Bool
  | 0, _, _, _ => []
  | n+1, i, rCount, l =>
    if i ∈ fixed then
      if repl.getD rCount 255 ≠ 255 then true :: paramsRead fixed repl n (i+1) (rCount+1) l
      else decide (Raw.size ScAddr ≤ l.length) ::
        paramsRead fixed repl n (i+1) (rCount+1) (l.drop (Raw.size ScAddr))
    else decide (Raw.size ScType ≤ l.length) ::
      paramsRead fixed repl n (i+1) rCount (l.drop (Raw.size ScType))

/-- The loop of `IterConstsr::build`. -/
def checkedIterators : ℕ → Bool → List Byte → Option (List CheckedIterator)
  | 0, _, _ => some []
  | n+1, first, l =>
    match read Byte l with
    | none => none
    | some (code, l) =>
      let type := SctpIteratorType.ofCode code
      let fixed := type.elim [] fixedPositions
      let (repl, l) := buildRepl (if first then 0 else fixedCount type) l
      let (args, rest) := buildParams fixed repl (argsCount type) 0 0 l
      match checkedIterators n false rest with
      | none => none
      | some its => some (⟨⟨type, repl, args⟩, paramsRead fixed repl (argsCount type) 0 0 l⟩ :: its)

def checkedBuild (l : List Byte) : Option (List CheckedIterator) :=
  match read Byte l with
  | none => none
  | some (iterCount, l) => if iterCount > 50 then none else checkedIterators iterCount.toNat true l

/-- The replacements, from a vector in which nothing stands for the addresses not yet written. -/
def checkedReplaces (asserts : Bool) (resultPos : ℕ) (result : List (Option ScAddr)) :
    List (ℕ × Byte) → List IterParam → Except IterFault (List IterParam)
  | [], args => .ok args
  | (pos, repl) :: rest, args =>
    if repl = 255 then checkedReplaces asserts resultPos result rest args
    else if asserts = true ∧ ¬ repl.toNat < resultPos then .error .assertion
    else
      match result[repl.toNat]? with
      | none => .error .resultIndex
      | some none => .error .unsetAddress
      | some (some addr) =>
        if asserts = true ∧ addr = ScAddr.empty then .error .assertion
        else checkedReplaces asserts resultPos result rest (args.modify pos fun p => { p with addr := addr })

/-- Every given element that is not replaced is in the request. -/
def CheckedIterator.givenRead (it : CheckedIterator) : Bool :=
  it.data.replaces.all fun p => decide (p.2 ≠ 255) || it.read.getD p.1 false

/-- What comes before `startIterate`. -/
def checkedEnter (asserts first : Bool) (it : CheckedIterator) (resultPos : ℕ) (result : List (Option ScAddr)) :
    Except IterFault IteratorData :=
  if asserts = true ∧ ¬ resultPos < result.length then .error .assertion
  else if it.givenRead = false then .error .unsetAddress
  else if first then .ok it.data
  else (checkedReplaces asserts resultPos result it.data.replaces it.data.args).map
    fun args => { it.data with args := args }

section
variable {σ ι α β : Type}

def orFault (x : Except IterFault α) : StateT σ (Except IterStop) α :=
  match x with
  | .ok a => pure a
  | .error f => throw (.fault f)

def inMemory (x : ServerCall σ α) : StateT σ (Except IterStop) α := fun mem =>
  match x mem with
  | some p => .ok p
  | none => .error .memory

/-- `iterateStep`; nothing stands in the vector for an address not yet written. -/
def checkedStep (asserts : Bool) (calls : ServerCalls σ ι) : Bool → List CheckedIterator → ℕ → List ScAddr →
    List (Option ScAddr) → StateT σ (Except IterStop) (List ScAddr × List (Option ScAddr))
  | _, [], _, _, _ => throw (.fault .iteratorIndex)
  | first, it :: rest, resultPos, results, result => do
    let data ← orFault (checkedEnter asserts first it resultPos result)
    match data.iterator with
    | none => pure (results, result)
    | some iterator =>
      match ← inMemory (calls.iteratorNew iterator) with
      | none => pure (results, result)
      | some iter =>
        let (acc, iter) ← whileNext (throw .memory) (fun iter => inMemory (calls.iteratorNext iter)) (fun row acc =>
          let result := copyResults (argsCount data.type) resultPos (fun i => some (row i)) acc.2
          if rest = [] then pure (acc.1 ++ result.map (fun a => a.getD ScAddr.empty), result)
          else checkedStep asserts calls false rest (resultPos+argsCount data.type) acc.1 result)
          iterateRounds iter (results, result)
        inMemory (calls.iteratorFree iter)
        pure acc

end

section
variable {c : Cells} {ctx : ScContext} {asserts : Bool}

/-- Nothing else is read than before. -/
theorem checkedIterators_data (n : ℕ) (first : Bool) (l : List Byte) :
    (checkedIterators n first l).map (List.map CheckedIterator.data) = (buildIterators n first l).map Prod.fst := by
  induction n generalizing first l with
  | zero => rfl
  | succ n ih =>
    unfold checkedIterators buildIterators
    cases read Byte l with
    | none => rfl
    | some p =>
      obtain ⟨code, l⟩ := p
      dsimp only
      have hrest := ih false (buildParams ((SctpIteratorType.ofCode code).elim [] fixedPositions)
        (buildRepl (if first = true then 0 else fixedCount (SctpIteratorType.ofCode code)) l).1
        (argsCount (SctpIteratorType.ofCode code)) 0 0
        (buildRepl (if first = true then 0 else fixedCount (SctpIteratorType.ofCode code)) l).2).2
      cases hc : checkedIterators n false _ <;> cases hb : buildIterators n false _ <;> rw [hc, hb] at hrest
      · rfl
      · cases hrest
      · cases hrest
      · have hits := Option.some.inj hrest
        simp only [Option.map_some, List.map_cons, Option.some.injEq, List.cons.injEq, true_and]
        exact hits

theorem checkedBuild_data (l : List Byte) :
    (checkedBuild l).map (List.map CheckedIterator.data) = build l := by
  unfold checkedBuild build
  cases read Byte l with
  | none => rfl
  | some p =>
    obtain ⟨iterCount, l⟩ := p
    dsimp only
    split_ifs
    · rfl
    · exact checkedIterators_data _ _ _

end

/-- The iterator may be started behind `pos` results: in a build with assertions there is room for a result,
the places are those of earlier results, and the given elements are in the request. -/
structure FitsAt (asserts : Bool) (n : ℕ) (first : Bool) (pos : ℕ) (it : CheckedIterator) : Prop where
  room : asserts = true → pos < n
  earlier : first = false → ∀ p ∈ it.data.replaces, p.2 ≠ 255 → p.2.toNat < pos
  given : it.givenRead = true

/-- Every iterator that the iteration comes to may be started there. -/
def Sound (asserts : Bool) (c : Cells) (ctx : ScContext) (n : ℕ) :
    Bool → List CheckedIterator → List ScAddr → Prop
  | _, [], _ => True
  | first, it :: rest, row => FitsAt asserts n first row.length it ∧
      ∀ r ∈ (it.data.replaced first row).rows c ctx, Sound asserts c ctx n false rest (row ++ r)

/-- What is left in the vector behind the row: nothing, or what earlier rows of iterators that may be started
have left there. -/
def Known (asserts : Bool) (n : ℕ) : Bool → ℕ → List CheckedIterator → List (Option ScAddr) → Prop
  | _, _, [], _ => True
  | first, pos, it :: rest, junk => (∀ a ∈ junk, a = none) ∨ (FitsAt asserts n first pos it ∧
      Known asserts n false (pos+argsCount it.data.type) rest (junk.drop (argsCount it.data.type)))

section
variable {c : Cells} {ctx : ScContext} {asserts : Bool} {row : List ScAddr} {junk : List (Option ScAddr)}
  {it : CheckedIterator} {first : Bool} {n : ℕ}

theorem known_of_none (its : List CheckedIterator) (first : Bool) (pos : ℕ) (h : ∀ a ∈ junk, a = none) :
    Known asserts n first pos its junk := by
  cases its with
  | nil => trivial
  | cons it rest => exact Or.inl h

theorem checkedReplaces_ok (hrow : ∀ a ∈ row, a ≠ ScAddr.empty) (pairs : List (ℕ × Byte)) (args : List IterParam)
    (h : ∀ p ∈ pairs, p.2 ≠ 255 → p.2.toNat < row.length) :
    checkedReplaces asserts row.length (row.map some ++ junk) pairs args = .ok (replaceArgs row pairs args) := by
  induction pairs generalizing args with
  | nil => rfl
  | cons p pairs ih =>
    obtain ⟨pos, repl⟩ := p
    have hrest : ∀ p ∈ pairs, p.2 ≠ 255 → p.2.toNat < row.length := fun p hp =>
      h p (List.mem_cons_of_mem _ hp)
    unfold checkedReplaces replaceArgs
    by_cases hrepl : repl = 255
    · simp only [hrepl, if_true]
      exact ih args hrest
    · have hlt : repl.toNat < row.length := h (pos, repl) List.mem_cons_self hrepl
      have hget : (row.map some ++ junk)[repl.toNat]? = some (some row[repl.toNat]) := by
        rw [List.getElem?_append_left (by rwa [List.length_map]), List.getElem?_map,
          List.getElem?_eq_getElem hlt]
        rfl
      have hgetD : row.getD repl.toNat ScAddr.empty = row[repl.toNat] := by
        rw [List.getD_eq_getElem?_getD, List.getElem?_eq_getElem hlt, Option.getD_some]
      have hne : row[repl.toNat] ≠ ScAddr.empty := hrow _ (List.getElem_mem hlt)
      simp only [hrepl, if_false, hlt, not_true_eq_false, and_false, hget, hne, hgetD]
      exact ih _ hrest

/-- A place behind the row is outside of the vector, or nothing has been written there. -/
theorem checkedReplaces_fault (hnone : ∀ a ∈ junk, a = none) (pairs : List (ℕ × Byte)) (args : List IterParam)
    (h : ¬ ∀ p ∈ pairs, p.2 ≠ 255 → p.2.toNat < row.length) :
    ∃ fault, checkedReplaces asserts row.length (row.map some ++ junk) pairs args = .error fault := by
  induction pairs generalizing args with
  | nil => exact absurd (fun p hp => nomatch hp) h
  | cons p pairs ih =>
    obtain ⟨pos, repl⟩ := p
    rw [List.forall_mem_cons, not_and_or] at h
    unfold checkedReplaces
    by_cases hrepl : repl = 255
    · simp only [hrepl, if_true]
      exact ih args (h.resolve_left fun hno => hno fun hne => absurd hrepl hne)
    · by_cases hlt : repl.toNat < row.length
      · have hnext := h.resolve_left fun hno => hno fun _ => hlt
        have hget : (row.map some ++ junk)[repl.toNat]? = some (some row[repl.toNat]) := by
          rw [List.getElem?_append_left (by rwa [List.length_map]), List.getElem?_map,
            List.getElem?_eq_getElem hlt]
          rfl
        simp only [hrepl, if_false, hlt, not_true_eq_false, and_false, hget]
        split_ifs
        · exact ⟨_, rfl⟩
        · exact ih _ hnext
      · have hget : (row.map some ++ junk)[repl.toNat]? = junk[repl.toNat-row.length]? := by
          rw [List.getElem?_append_right (by rw [List.length_map]; omega), List.length_map]
        simp only [hrepl, if_false, hlt, not_false_eq_true, and_true, hget]
        split_ifs
        · exact ⟨_, rfl⟩
        · cases hj : junk[repl.toNat-row.length]? with
          | none => exact ⟨_, rfl⟩
          | some a =>
            obtain rfl := hnone a (List.mem_of_getElem? hj)
            exact ⟨_, rfl⟩

theorem checkedEnter_ok (hrow : ∀ a ∈ row, a ≠ ScAddr.empty)
    (h : FitsAt asserts (row.length+junk.length) first row.length it) :
    checkedEnter asserts first it row.length (row.map some ++ junk) = .ok (it.data.replaced first row) := by
  unfold checkedEnter IteratorData.replaced
  rw [List.length_append, List.length_map, if_neg fun hno => hno.2 (h.room hno.1), h.given]
  cases first with
  | true => rfl
  | false =>
    simp only [Bool.true_eq_false, Bool.false_eq_true, if_false]
    rw [checkedReplaces_ok hrow _ _ (h.earlier rfl)]
    rfl

theorem checkedEnter_fault (hnone : ∀ a ∈ junk, a = none)
    (h : ¬ FitsAt asserts (row.length+junk.length) first row.length it) :
    ∃ fault, checkedEnter asserts first it row.length (row.map some ++ junk) = .error fault := by
  unfold checkedEnter
  rw [List.length_append, List.length_map]
  by_cases hroom : asserts = true ∧ ¬ row.length < row.length+junk.length
  · rw [if_pos hroom]
    exact ⟨_, rfl⟩
  · rw [if_neg hroom]
    by_cases hgiven : it.givenRead = false
    · rw [if_pos hgiven]
      exact ⟨_, rfl⟩
    · rw [if_neg hgiven]
      have hearlier : ¬ (first = false → ∀ p ∈ it.data.replaces, p.2 ≠ 255 → p.2.toNat < row.length) := by
        intro hno
        refine h ⟨fun ha => ?_, hno, by simpa using hgiven⟩
        by_contra hlt
        exact hroom ⟨ha, hlt⟩
      obtain ⟨rfl, hplaces⟩ : first = false ∧
          ¬ ∀ p ∈ it.data.replaces, p.2 ≠ 255 → p.2.toNat < row.length := by
        simpa only [Classical.not_imp] using hearlier
      obtain ⟨fault, hfault⟩ := @checkedReplaces_fault asserts row junk hnone it.data.replaces it.data.args hplaces
      refine ⟨fault, ?_⟩
      simp only [Bool.false_eq_true, if_false, hfault]
      rfl

end

/-- What is known of a stop: there has been a fault only if something is not sound, and the memory has stopped
only without room. -/
def Stops (room sound : Prop) : IterStop → Prop
  | .fault _ => ¬ sound
  | .memory => ¬ room

theorem inMemory_wp {α β : Type} {x : StoreM α} {f : α → β} {Q : α → ScStorage → Prop}
    {Q' : β → ScStorage → Prop} {room sound : Prop} {s : ScStorage} (h : Wp x Q (fun _ => ¬ room) s)
    (hQ : ∀ a s', Q a s' → Q' (f a) s') : Wp (inMemory (ofStore f x)) Q' (Stops room sound) s := by
  unfold Wp at *
  unfold inMemory ofStore
  cases hx : x s with
  | error e =>
    rw [hx] at h
    exact h
  | ok p =>
    rw [hx] at h
    exact hQ p.1 p.2 h

section
variable (env : ScEnv) (L : SectionKey → LockWord) (c : Cells) (base : ScAddr → ℤ) (ctx : ScContext) (room : Prop)
  (asserts : Bool) (n k : ℕ) (stack : List (ServerIterator × List (List ScAddr)))

/-- In the loop over the results of one iterator: of its rows `all`, those before `l` have been joined with the
results of the rest, and it has those of `ahead` before it. -/
def Rounds (it : CheckedIterator) (rest : List CheckedIterator) (row results : List ScAddr) (size : ℕ)
    (all l ahead : List (List ScAddr)) (iter : ServerIterator) (acc : List ScAddr × List (Option ScAddr))
    (s : ScStorage) : Prop :=
  ∃ done junk, all = done ++ l ∧ (∀ r ∈ done, Sound asserts c ctx n false rest (row ++ r)) ∧
    acc = (results ++
      (done.flatMap fun r => joinFrom c ctx false (rest.map CheckedIterator.data) (row ++ r)).flatten,
        row.map some ++ junk) ∧
    junk.length = size ∧ Known asserts n false (row.length+argsCount it.data.type) rest
      (junk.drop (argsCount it.data.type)) ∧
    Opened c ctx env L base room
      (k+(done.map fun r => starts c ctx false (rest.map CheckedIterator.data) (row ++ r)).sum)
      ((iter, ahead) :: stack) s

/-- The iterators behind a row have made their join, and are released. -/
def Joined (first : Bool) (its : List CheckedIterator) (row results : List ScAddr) (size : ℕ)
    (r : List ScAddr × List (Option ScAddr)) (s : ScStorage) : Prop :=
  Sound asserts c ctx n first its row ∧
    (∃ junk, r = (results ++ (joinFrom c ctx first (its.map CheckedIterator.data) row).flatten,
        row.map some ++ junk) ∧ junk.length = size ∧ Known asserts n first row.length its junk) ∧
    Opened c ctx env L base room (k+starts c ctx first (its.map CheckedIterator.data) row) stack s

/-- The iterators of `rest` make their join behind each of the rows. -/
def JoinsBehind (limit : ℕ) (unsets : UnsetTypes) (others : ServerCalls ScStorage ServerIterator)
    (rest : List CheckedIterator) (row : List ScAddr) (all : List (List ScAddr)) : Prop :=
  ∀ r ∈ all, rest ≠ [] → ∀ (results : List ScAddr) (junk : List (Option ScAddr)) (k : ℕ)
    (stack : List (ServerIterator × List (List ScAddr))) (s : ScStorage),
      junk.length = oneResultSize (rest.map CheckedIterator.data) →
        Known asserts n false (row ++ r).length rest junk →
          k+starts c ctx false (rest.map CheckedIterator.data) (row ++ r)+stack.length ≤ limit →
            Opened c ctx env L base room k stack s →
              Wp (checkedStep asserts (constructionCalls env ctx unsets others) false rest (row ++ r).length results
                  ((row ++ r).map some ++ junk))
                (Joined env L c base ctx room asserts n k stack false rest (row ++ r) results junk.length)
                (Stops room (Sound asserts c ctx n false rest (row ++ r))) s

end

section
variable {env : ScEnv} {L : SectionKey → LockWord} {c : Cells} {base : ScAddr → ℤ} {s : ScStorage}
  {ctx : ScContext} {limit : ℕ} {room sound : Prop} {asserts : Bool} {n k : ℕ}
  {stack : List (ServerIterator × List (List ScAddr))} {it : CheckedIterator} {rest : List CheckedIterator}
  {row results : List ScAddr} {size : ℕ} {all : List (List ScAddr)} {unsets : UnsetTypes}
  {others : ServerCalls ScStorage ServerIterator}

theorem wp_orFault {σ α : Type} {a : α} {Q : α → σ → Prop} {E : IterStop → Prop} {s : σ} :
    Wp (orFault (.ok a)) Q E s ↔ Q a s := Iff.rfl

theorem Opened.mono {k' : ℕ} (h : Opened c ctx env L base room k stack s) (hk : k ≤ k') :
    Opened c ctx env L base room k' stack s := by
  obtain ⟨refs, left, hheld, hleft, hit⟩ := h
  refine ⟨refs, left, hheld, fun z => (hleft z).trans ?_, hit⟩
  omega

/-- The iterators started for some of the rows. -/
theorem starts_le {done l : List (List ScAddr)} (f : List ScAddr → ℕ) (hall : all = done ++ l) :
    (done.map f).sum ≤ (all.map f).sum := by
  rw [hall, List.map_append, List.sum_append]
  exact Nat.le_add_right _ _

/-- The next row, if there is one. -/
theorem Served.round (hset : Served env L c base limit room)
    (hk : k+(all.map fun r => starts c ctx false (rest.map CheckedIterator.data) (row ++ r)).sum+stack.length <
      limit) (l : List (ℕ → ScAddr)) (iter : ServerIterator) (acc : List ScAddr × List (Option ScAddr))
    (s : ScStorage) (h : ∃ rows, l = rows.map rowValue ∧
      Rounds env L c base ctx room asserts n k stack it rest row results size all rows rows iter acc s) :
    Wp (inMemory ((constructionCalls env ctx unsets others).iteratorNext iter))
      (fun r s' => r.1 = l.head? ∧ ∃ rows, l = rows.map rowValue ∧
        Rounds env L c base ctx room asserts n k stack it rest row results size all rows rows.tail r.2 acc s')
      (Stops room sound) s := by
  obtain ⟨rows, rfl, done, junk, hall, hsound, hacc, hsize, hknown, hopen⟩ := h
  have hle := starts_le (fun r => starts c ctx false (rest.map CheckedIterator.data) (row ++ r)) hall
  apply inMemory_wp (hset.step (by omega) unsets hopen)
  rintro ⟨found, iter'⟩ s' ⟨hfound, hopen'⟩
  refine ⟨?_, rows, rfl, done, junk, hall, hsound, hacc, hsize, hknown, hopen'⟩
  dsimp only at hfound ⊢
  rw [hfound, List.head?_map]

theorem map_rowValue (r : List ScAddr) :
    (List.range r.length).map (fun i => some (rowValue r i)) = r.map some := by
  apply List.ext_getElem
  · rw [List.length_map, List.length_range, List.length_map]
  · intro i hi hi'
    rw [List.length_map] at hi'
    rw [List.getElem_map, List.getElem_range, List.getElem_map, rowValue, List.getD_eq_getElem?_getD,
      List.getElem?_eq_getElem hi', Option.getD_some]

/-- The values of an iterator come behind the row, over what was there. -/
theorem copyResults_row {r : List ScAddr} {junk : List (Option ScAddr)} (h : r.length ≤ junk.length) :
    copyResults r.length row.length (fun i => some (rowValue r i)) (row.map some ++ junk) =
      (row ++ r).map some ++ junk.drop r.length := by
  have happ := copyResults_append r.length (fun i => some (rowValue r i)) (row.map some) junk h
  rw [List.length_map, map_rowValue] at happ
  rw [happ, List.map_append, List.append_assoc]

/-- One row more has been joined. -/
theorem rounds_concat (results : List ScAddr) {done rows : List (List ScAddr)} {r : List ScAddr}
    {junk : List (Option ScAddr)} {iter : ServerIterator} (hall : all = done ++ r :: rows)
    (hrlen : r.length = argsCount it.data.type)
    (hsound : ∀ r ∈ done, Sound asserts c ctx n false rest (row ++ r))
    (hnew : Sound asserts c ctx n false rest (row ++ r)) (hsize : size = r.length+junk.length)
    (hknown : Known asserts n false (row.length+argsCount it.data.type) rest junk)
    (hopen : Opened c ctx env L base room
      (k+(done.map fun r => starts c ctx false (rest.map CheckedIterator.data) (row ++ r)).sum+
        starts c ctx false (rest.map CheckedIterator.data) (row ++ r)) ((iter, rows) :: stack) s) :
    Rounds env L c base ctx room asserts n k stack it rest row results size all rows rows iter
      (results ++ (done.flatMap fun r => joinFrom c ctx false (rest.map CheckedIterator.data) (row ++ r)).flatten ++
        (joinFrom c ctx false (rest.map CheckedIterator.data) (row ++ r)).flatten,
          (row ++ r).map some ++ junk) s := by
  have hkept : (r.map some ++ junk).drop (argsCount it.data.type) = junk := by
    rw [← hrlen, ← List.length_map (f := some), List.drop_left]
  refine ⟨done ++ [r], r.map some ++ junk, ?_, ?_, ?_, ?_, ?_, ?_⟩
  · rw [hall, List.append_assoc, List.singleton_append]
  · intro r' hr'
    rcases List.mem_append.mp hr' with hr' | hr'
    · exact hsound r' hr'
    · rw [List.mem_singleton.mp hr']
      exact hnew
  · rw [List.flatMap_append, List.flatMap_singleton, List.flatten_append, List.map_append, List.append_assoc,
      List.append_assoc]
  · rw [List.length_append, List.length_map, hsize]
  · rw [hkept]
    exact hknown
  · rw [List.map_append, List.sum_append, List.map_singleton, List.sum_singleton, ← Nat.add_assoc]
    exact hopen

/-- The work for one row: it is a result, or the rest of the iterators go on from it. -/
theorem rowStep_wp {data : IteratorData} (htype : data.type = it.data.type)
    (hlen : ∀ r ∈ all, r.length = argsCount it.data.type)
    (hsize : size = argsCount it.data.type+oneResultSize (rest.map CheckedIterator.data))
    (hk : k+(all.map fun r => starts c ctx false (rest.map CheckedIterator.data) (row ++ r)).sum+stack.length <
      limit)
    (hrest : JoinsBehind env L c base ctx room asserts n limit unsets others rest row all)
    (y : ℕ → ScAddr) (l : List (ℕ → ScAddr)) (iter : ServerIterator) (acc : List ScAddr × List (Option ScAddr))
    (s : ScStorage) (h : ∃ rows, y :: l = rows.map rowValue ∧
      Rounds env L c base ctx room asserts n k stack it rest row results size all rows rows.tail iter acc s) :
    Wp (if rest = [] then pure (acc.1 ++ (copyResults (argsCount data.type) row.length (fun i => some (y i))
            acc.2).map (fun a => a.getD ScAddr.empty),
          copyResults (argsCount data.type) row.length (fun i => some (y i)) acc.2)
        else checkedStep asserts (constructionCalls env ctx unsets others) false rest
          (row.length+argsCount data.type) acc.1
          (copyResults (argsCount data.type) row.length (fun i => some (y i)) acc.2))
      (fun acc' s' => ∃ rows, l = rows.map rowValue ∧
        Rounds env L c base ctx room asserts n k stack it rest row results size all rows rows iter acc' s')
      (Stops room (∀ r ∈ all, Sound asserts c ctx n false rest (row ++ r))) s := by
  obtain ⟨rows, hrows, done, junk, hall, hsound, rfl, hjunk, hknown, hopen⟩ := h
  obtain ⟨r, rows, rfl⟩ : ∃ r rest, rows = r :: rest := by
    cases rows with
    | nil => cases hrows
    | cons r rest => exact ⟨r, rest, rfl⟩
  obtain ⟨rfl, rfl⟩ : y = rowValue r ∧ l = rows.map rowValue := by simpa using hrows
  have hr : r ∈ all := hall ▸ List.mem_append_right _ List.mem_cons_self
  have hrlen := hlen r hr
  have hdrop : (junk.drop r.length).length = oneResultSize (rest.map CheckedIterator.data) := by
    rw [List.length_drop]
    omega
  have hleft : size = r.length+(junk.drop r.length).length := by omega
  rw [← hrlen] at hknown
  dsimp only
  rw [htype, ← hrlen, copyResults_row (by omega)]
  by_cases hnil : rest = []
  · -- the last iterator: the row is a result
    subst hnil
    have hfull : junk.drop r.length = [] := List.eq_nil_of_length_eq_zero hdrop
    have hgetD : ((row ++ r).map some).map (fun a => a.getD ScAddr.empty) = row ++ r := by
      rw [List.map_map]
      exact List.map_id _
    rw [hfull] at hleft
    rw [if_pos rfl, wp_pure, hfull, List.append_nil, hgetD]
    have hone := rounds_concat results hall hrlen hsound trivial hleft trivial hopen
    rw [List.append_nil] at hone
    refine ⟨rows, rfl, ?_⟩
    simpa only [List.map_nil, joinFrom, List.flatten_singleton] using hone
  · have hrow : (row ++ r).length = row.length+r.length := List.length_append
    have hle := starts_le (fun r => starts c ctx false (rest.map CheckedIterator.data) (row ++ r))
      (hall.trans (List.append_cons done r rows))
    rw [List.map_append, List.sum_append, List.map_singleton, List.sum_singleton] at hle
    rw [if_neg hnil, ← hrow]
    apply wp_mono (hrest r hr hnil _ (junk.drop r.length) _ ((iter, rows) :: stack) s hdrop (hrow ▸ hknown) _ hopen)
    · rintro acc' s' ⟨hnew, ⟨junk', rfl, hj', hk'⟩, hopen'⟩
      rw [hrow, hrlen] at hk'
      exact ⟨rows, rfl, rounds_concat results hall hrlen hsound hnew (hj' ▸ hleft) hk' hopen'⟩
    · intro e he
      cases e with
      | fault f => exact fun hno => he (hno r hr)
      | memory => exact he
    · rw [List.length_cons]
      omega

/-- The elements given to an iterator are given in the request, or found before. -/
theorem given_inRange {first : Bool} {iterator : SctpIterator}
    (hiter : (it.data.replaced first row).iterator = some iterator)
    (hrow : ∀ a ∈ row, a.offset.toNat < 65535) (hargs : ∀ p ∈ it.data.args, p.addr.offset.toNat < 65535) :
    ∀ a ∈ iterator.given, a.offset.toNat < 65535 := by
  intro a ha
  obtain ⟨i, rfl⟩ := given_args hiter ha
  have hall : ∀ p ∈ (it.data.replaced first row).args, p.addr.offset.toNat < 65535 := by
    unfold IteratorData.replaced
    split_ifs
    · exact hargs
    · exact replaceArgs_addr (P := fun a => a.offset.toNat < 65535) (by decide) hrow _ _ hargs
  unfold IteratorData.argAddr
  cases hget : (it.data.replaced first row).args[i]? with
  | none => exact Nat.zero_lt_succ _
  | some p => exact hall p (List.mem_of_getElem? hget)

theorem starts_cons (first : Bool) : starts c ctx first ((it :: rest).map CheckedIterator.data) row =
    1+(((it.data.replaced first row).rows c ctx).map fun r =>
      starts c ctx false (rest.map CheckedIterator.data) (row ++ r)).sum := rfl

/-- Without rows nothing is added. -/
theorem joined_nothing {first : Bool} {junk : List (Option ScAddr)}
    (hfits : FitsAt asserts n first row.length it) (hrows : (it.data.replaced first row).rows c ctx = [])
    (hknown : Known asserts n false (row.length+argsCount it.data.type) rest (junk.drop (argsCount it.data.type)))
    (hopen : Opened c ctx env L base room (k+1) stack s) :
    Joined env L c base ctx room asserts n k stack first (it :: rest) row results junk.length
      (results, row.map some ++ junk) s := by
  refine ⟨⟨hfits, ?_⟩, ⟨junk, ?_, rfl, Or.inr ⟨hfits, hknown⟩⟩, ?_⟩
  · rw [hrows]
    intro r hr
    cases hr
  · rw [List.map_cons, joinFrom, hrows, List.flatMap_nil, List.flatten_nil, List.append_nil]
  · rw [starts_cons, hrows]
    exact hopen

/-- An iterator that has been started is gone through and released. -/
theorem rounds_wp (hset : Served env L c base limit room) {first : Bool} {junk : List (Option ScAddr)}
    {iter : ServerIterator} (hfits : FitsAt asserts n first row.length it)
    (hjunk : junk.length = oneResultSize ((it :: rest).map CheckedIterator.data))
    (hknown : Known asserts n false (row.length+argsCount it.data.type) rest (junk.drop (argsCount it.data.type)))
    (hcount : ((it.data.replaced first row).rows c ctx).length < iterateRounds)
    (hk : k+starts c ctx first ((it :: rest).map CheckedIterator.data) row+stack.length ≤ limit)
    (hrest : JoinsBehind env L c base ctx room asserts n limit unsets others rest row
      ((it.data.replaced first row).rows c ctx))
    (hopen : Opened c ctx env L base room k ((iter, (it.data.replaced first row).rows c ctx) :: stack) s) :
    Wp (do
        let (acc, iter) ← whileNext (throw .memory)
          (fun iter => inMemory ((constructionCalls env ctx unsets others).iteratorNext iter))
          (fun y acc =>
            let result := copyResults (argsCount (it.data.replaced first row).type) row.length
              (fun i => some (y i)) acc.2
            if rest = [] then pure (acc.1 ++ result.map (fun a => a.getD ScAddr.empty), result)
            else checkedStep asserts (constructionCalls env ctx unsets others) false rest
              (row.length+argsCount (it.data.replaced first row).type) acc.1 result)
          iterateRounds iter (results, row.map some ++ junk)
        inMemory ((constructionCalls env ctx unsets others).iteratorFree iter)
        pure acc)
      (Joined env L c base ctx room asserts n k stack first (it :: rest) row results junk.length)
      (Stops room (Sound asserts c ctx n first (it :: rest) row)) s := by
  have htype : (it.data.replaced first row).type = it.data.type := replaced_type first row it.data
  have hlimit : k+(((it.data.replaced first row).rows c ctx).map fun r =>
      starts c ctx false (rest.map CheckedIterator.data) (row ++ r)).sum+stack.length < limit := by
    rw [starts_cons] at hk
    omega
  have hlength : (((it.data.replaced first row).rows c ctx).map rowValue).length < iterateRounds := by
    rw [List.length_map]
    exact hcount
  have hrow1 := @rowStep_wp env L c base ctx limit room asserts n k stack it rest row results junk.length
    ((it.data.replaced first row).rows c ctx) unsets others _ htype (fun r hr => by rw [length_rows hr, htype])
    hjunk hlimit hrest
  have hrounds := @whileNext_wp ScStorage IterStop ServerIterator (List ScAddr × List (Option ScAddr))
    (ℕ → ScAddr) (fun iter => inMemory ((constructionCalls env ctx unsets others).iteratorNext iter)) _
    (throw .memory) _
    (fun l iter acc s => ∃ rows, l = rows.map rowValue ∧ Rounds env L c base ctx room asserts n k stack it rest
      row results junk.length ((it.data.replaced first row).rows c ctx) rows rows iter acc s)
    (fun l iter acc s => ∃ rows, l = rows.map rowValue ∧ Rounds env L c base ctx room asserts n k stack it rest
      row results junk.length ((it.data.replaced first row).rows c ctx) rows rows.tail iter acc s)
    (fun l iter acc s h => hset.round hlimit l iter acc s h) hrow1
    (((it.data.replaced first row).rows c ctx).map rowValue) iterateRounds hlength iter
    (results, row.map some ++ junk) s ⟨_, rfl, [], junk, rfl, by simp, by simp, rfl, hknown, hopen⟩
  rw [wp_bind]
  apply wp_mono hrounds
  · rintro ⟨acc, iter'⟩ s2 ⟨rows, hnil, done, junk', hall, hsound, rfl, hj', hknown', hopen'⟩
    obtain rfl : rows = [] := List.map_eq_nil_iff.mp hnil.symm
    rw [List.append_nil] at hall
    subst hall
    rw [wp_bind]
    apply inMemory_wp (hset.stop (by omega) hopen')
    intro _ s3 hopen3
    rw [wp_pure]
    refine ⟨⟨hfits, hsound⟩, ⟨junk', rfl, hj', Or.inr ⟨hfits, hknown'⟩⟩, ?_⟩
    rw [starts_cons, Nat.add_comm 1, ← Nat.add_assoc]
    exact hopen3
  · intro e he
    cases e with
    | fault f => exact fun hno => he hno.2
    | memory => exact he

/-- The iteration makes the join when it is sound, and else there is a fault; the memory stops it only
without room. -/
theorem checkedStep_wp (hset : Served env L c base limit room) (hinRange : ∀ a, Live c a → a.offset.toNat < 65535)
    (its : List CheckedIterator) (first : Bool) (row results : List ScAddr) (junk : List (Option ScAddr)) (k : ℕ)
    (stack : List (ServerIterator × List (List ScAddr))) (s : ScStorage) (hne : its ≠ [])
    (hrow : ∀ a ∈ row, Live c a) (hjunk : junk.length = oneResultSize (its.map CheckedIterator.data))
    (hn : row.length+junk.length = n) (hknown : Known asserts n first row.length its junk)
    (hgiven : room → ∀ it ∈ its, ∀ p ∈ it.data.args, p.addr.offset.toNat < 65535)
    (hk : k+starts c ctx first (its.map CheckedIterator.data) row+stack.length ≤ limit)
    (h : Opened c ctx env L base room k stack s) :
    Wp (checkedStep asserts (constructionCalls env ctx unsets others) first its row.length results
        (row.map some ++ junk))
      (Joined env L c base ctx room asserts n k stack first its row results junk.length)
      (Stops room (Sound asserts c ctx n first its row)) s := by
  induction its generalizing first row results junk k stack s with
  | nil => exact absurd rfl hne
  | cons it rest ih =>
    have hnotEmpty : ∀ a ∈ row, a ≠ ScAddr.empty := by
      rintro a ha rfl
      exact hset.arcs.notEmpty (hrow _ ha)
    unfold checkedStep
    rw [wp_bind]
    by_cases hfits : FitsAt asserts n first row.length it
    · have henter := checkedEnter_ok hnotEmpty (hn.symm ▸ hfits : FitsAt asserts (row.length+junk.length) first
        row.length it)
      have hrest : Known asserts n false (row.length+argsCount it.data.type) rest
          (junk.drop (argsCount it.data.type)) := by
        rcases hknown with hnone | ⟨_, hk⟩
        · exact known_of_none rest _ _ fun a ha => hnone a (List.mem_of_mem_drop ha)
        · exact hk
      rw [henter, wp_orFault]
      cases hiter : (it.data.replaced first row).iterator with
      | none =>
        have hrows : (it.data.replaced first row).rows c ctx = [] := by
          unfold IteratorData.rows
          rw [hiter]
          rfl
        dsimp only
        rw [wp_pure]
        exact joined_nothing hfits hrows hrest (h.mono (Nat.le_succ k))
      | some iterator =>
        have hrows : (it.data.replaced first row).rows c ctx = iterator.rows c ctx := by
          unfold IteratorData.rows
          rw [hiter]
          rfl
        have hoffsets : room → ∀ a ∈ iterator.given, a.offset.toNat < 65535 := fun hroom =>
          given_inRange hiter (fun a ha => hinRange a (hrow a ha)) (hgiven hroom it List.mem_cons_self)
        -- the rest goes on from each row
        have hbehind : JoinsBehind env L c base ctx room asserts n limit unsets others rest row
            ((it.data.replaced first row).rows c ctx) := by
          intro r hr hnil results junk' k' stack' s' hj hk hbudget hopen
          obtain ⟨_, _, hin⟩ := mem_rows hr
          refine ih false (row ++ r) results junk' k' stack' s' hnil ?_ hj ?_ hk
            (fun hroom it' hit' => hgiven hroom it' (List.mem_cons_of_mem _ hit')) hbudget hopen
          · intro a ha
            rcases List.mem_append.mp ha with ha | ha
            · exact hrow a ha
            · exact live_rows hset.arcs hin a ha
          · have hlen : r.length = argsCount it.data.type := by rw [length_rows hr, replaced_type]
            have hsize : junk.length = argsCount it.data.type+oneResultSize (rest.map CheckedIterator.data) :=
              hjunk
            rw [List.length_append, hj, hlen, ← hn, hsize]
            omega
        have hroomLeft : k+1+stack.length ≤ limit := by
          rw [starts_cons] at hk
          omega
        dsimp only
        rw [wp_bind]
        apply inMemory_wp (hset.start (by omega) hoffsets h)
        rintro found s1 (⟨rfl, hnone, hopen⟩ | ⟨iter, rfl, hopen⟩)
        · exact joined_nothing hfits (hrows.trans hnone) hrest hopen
        · rw [← hrows] at hopen
          exact rounds_wp hset hfits hjunk hrest (hrows ▸ length_iteratorRows hset.arcs iterator) hk hbehind hopen
    · -- nothing has been written behind the row, or the iterator would have been started
      have hnone : ∀ a ∈ junk, a = none := by
        rcases hknown with hnone | ⟨hfits', _⟩
        · exact hnone
        · exact absurd hfits' hfits
      obtain ⟨fault, hfault⟩ := @checkedEnter_fault asserts row junk it first hnone (hn.symm ▸ hfits)
      rw [hfault]
      exact fun hsound => hfits hsound.1

end

section
variable {σ ι α β γ δ : Type} {f : α → β} {g : γ → δ}

/-- Where the first returns, the second returns the same, seen through `f`; where the memory stops the first,
it stops the second. Nothing is said where there is a fault. -/
def Mirrors (f : α → β) (x : StateT σ (Except IterStop) α) (y : ServerCall σ β) : Prop :=
  ∀ s, (∀ a s', x s = .ok (a, s') → y s = some (f a, s')) ∧ (x s = .error .memory → y s = none)

theorem mirrors_pure (f : α → β) (a : α) : Mirrors (σ := σ) f (pure a) (pure (f a)) := by
  intro s
  refine ⟨fun a' s' h => ?_, nofun⟩
  cases h
  rfl

theorem mirrors_fault (fault : IterFault) (y : ServerCall σ β) : Mirrors f (throw (.fault fault)) y :=
  fun _ => ⟨nofun, nofun⟩

theorem mirrors_inMemory (x : ServerCall σ α) : Mirrors id (inMemory x) x := by
  intro s
  unfold inMemory
  cases hx : x s with
  | none => exact ⟨nofun, fun _ => rfl⟩
  | some p =>
    refine ⟨fun a s' h => ?_, nofun⟩
    cases h
    rfl

theorem mirrors_bind {x : StateT σ (Except IterStop) α} {y : ServerCall σ β}
    {k : α → StateT σ (Except IterStop) γ} {k' : β → ServerCall σ δ} (hx : Mirrors f x y)
    (hk : ∀ a, Mirrors g (k a) (k' (f a))) : Mirrors g (x >>= k) (y >>= k') := by
  intro s
  have hbind : (x >>= k) s = (x s) >>= fun p => k p.1 p.2 := rfl
  have hbind' : (y >>= k') s = (y s) >>= fun p => k' p.1 p.2 := rfl
  rw [hbind, hbind']
  cases hs : x s with
  | ok p =>
    rw [(hx s).1 p.1 p.2 hs]
    exact hk p.1 p.2
  | error e =>
    refine ⟨nofun, fun h => ?_⟩
    cases h
    rw [(hx s).2 hs]
    rfl

theorem mirrors_whileNext {next : ι → ServerCall σ (Option γ × ι)} {body : γ → α → StateT σ (Except IterStop) α}
    {body' : γ → β → ServerCall σ β} (hbody : ∀ y acc, Mirrors f (body y acc) (body' y (f acc))) (rounds : ℕ)
    (it : ι) (acc : α) :
    Mirrors (fun p : α × ι => (f p.1, p.2))
      (whileNext (throw .memory) (fun it => inMemory (next it)) body rounds it acc)
      (whileNext failure next body' rounds it (f acc)) := by
  induction rounds generalizing it acc with
  | zero => exact fun s => ⟨nofun, fun _ => rfl⟩
  | succ rounds ih =>
    unfold whileNext
    apply mirrors_bind (mirrors_inMemory (next it))
    rintro ⟨found, it'⟩
    cases found with
    | none => exact mirrors_pure _ (acc, it')
    | some y => exact mirrors_bind (hbody y acc) fun acc' => ih it' acc'

end

/-- The vector as it is: an address that nothing has been written to is taken as it comes. -/
def filled (result : List (Option ScAddr)) : List ScAddr := result.map fun a => a.getD ScAddr.empty

section
variable {asserts : Bool} {resultPos : ℕ} {result : List (Option ScAddr)}

theorem applyReplaces_of_checked {pairs : List (ℕ × Byte)} {args args' : List IterParam}
    (h : checkedReplaces asserts resultPos result pairs args = .ok args') :
    applyReplaces asserts resultPos (filled result) pairs args = some args' := by
  induction pairs generalizing args with
  | nil =>
    cases h
    rfl
  | cons p pairs ih =>
    obtain ⟨pos, repl⟩ := p
    unfold checkedReplaces at h
    unfold applyReplaces filled
    rw [List.getElem?_map]
    split_ifs at h ⊢
    · exact ih h
    · rcases hget : result[repl.toNat]? with _ | _ | addr <;> rw [hget] at h
      · cases h
      · cases h
      · dsimp only [Option.map_some, Option.getD_some] at h ⊢
        split_ifs at h ⊢
        exact ih h

theorem enterStep_of_checked {first : Bool} {it : CheckedIterator} {data : IteratorData}
    (h : checkedEnter asserts first it resultPos result = .ok data) :
    enterStep asserts first it.data resultPos (filled result) = some data := by
  unfold checkedEnter at h
  unfold enterStep
  rw [filled, List.length_map]
  split_ifs at h ⊢
  · cases h
    rfl
  · unfold IteratorData.replaces at h
    cases hr : checkedReplaces asserts resultPos result
        ((it.data.type.elim [] fixedPositions).zip it.data.repl) it.data.args with
    | error fault =>
      rw [hr] at h
      cases h
    | ok args =>
      rw [hr] at h
      cases h
      have happlied := applyReplaces_of_checked hr
      rw [filled] at happlied
      rw [happlied]
      rfl

theorem filled_copyResults (count : ℕ) (row : ℕ → ScAddr) :
    filled (copyResults count resultPos (fun i => some (row i)) result) =
      copyResults count resultPos row (filled result) := by
  unfold copyResults
  induction count with
  | zero => rfl
  | succ count ih =>
    rw [List.range_succ, List.foldl_append, List.foldl_append, ← ih]
    exact List.map_set

/-- Without a fault the steps do what is checked. -/
theorem checkedStep_mirrors {σ ι : Type} (calls : ServerCalls σ ι) (its : List CheckedIterator) (first : Bool)
    (resultPos : ℕ) (results : List ScAddr) (result : List (Option ScAddr)) :
    Mirrors (fun acc : List ScAddr × List (Option ScAddr) => (acc.1, filled acc.2))
      (checkedStep asserts calls first its resultPos results result)
      (iterateStep asserts calls first (its.map CheckedIterator.data) resultPos results (filled result)) := by
  induction its generalizing first resultPos results result with
  | nil => exact mirrors_fault _ _
  | cons it rest ih =>
    unfold checkedStep
    rw [List.map_cons, iterateStep]
    cases henter : checkedEnter asserts first it resultPos result with
    | error fault => exact fun s => ⟨nofun, nofun⟩
    | ok data =>
      rw [enterStep_of_checked henter]
      dsimp only [orFault]
      rw [pure_bind]
      cases data.iterator with
      | none => exact mirrors_pure _ (results, result)
      | some iterator =>
        dsimp only
        apply mirrors_bind (mirrors_inMemory (calls.iteratorNew iterator))
        intro found
        cases found with
        | none => exact mirrors_pure _ (results, result)
        | some iter =>
          dsimp only [id]
          refine mirrors_bind (mirrors_whileNext (f := fun acc : List ScAddr × List (Option ScAddr) =>
            (acc.1, filled acc.2)) (fun row acc => ?_) iterateRounds iter (results, result)) ?_
          · dsimp only
            rw [← filled_copyResults]
            by_cases hrest : rest = []
            · rw [if_pos hrest, if_pos (List.map_eq_nil_iff.mpr hrest)]
              exact mirrors_pure _ (_, _)
            · rw [if_neg hrest, if_neg fun hno => hrest (List.map_eq_nil_iff.mp hno)]
              exact ih _ _ _ _
          · rintro ⟨acc, iter'⟩
            exact mirrors_bind (mirrors_inMemory (calls.iteratorFree iter')) fun _ => mirrors_pure _ acc

end

/-- Room for the references of the iterators that are started, and addresses that are within a segment. -/
structure ConstructionRoom (st : ScStorage) (ctx : ScContext) (data : List IteratorData) : Prop where
  refs : RefRoom st (9*starts st.cell ctx true data [])
  offsets : ∀ it ∈ data, ∀ p ∈ it.args, p.addr.offset.toNat < 65535

section
variable {env : ScEnv} {st : ScStorage} {ctx : ScContext} {asserts : Bool} {unsets : UnsetTypes}
  {others : ServerCalls ScStorage ServerIterator} {its : List CheckedIterator}

/-- The iteration in a store at rest. -/
theorem checkedStep_at_rest (hok : StoreOk env.thread st) (hne : its ≠ []) :
    Wp (checkedStep asserts (constructionCalls env ctx unsets others) true its 0 []
        (List.replicate (oneResultSize (its.map CheckedIterator.data)) none))
      (fun r st' => Sound asserts st.cell ctx (oneResultSize (its.map CheckedIterator.data)) true its [] ∧
        r.1 = (joinFrom st.cell ctx true (its.map CheckedIterator.data) []).flatten ∧ st'.cell = st.cell)
      (Stops (ConstructionRoom st ctx (its.map CheckedIterator.data))
        (Sound asserts st.cell ctx (oneResultSize (its.map CheckedIterator.data)) true its [])) st := by
  set data := its.map CheckedIterator.data
  have hset : Served env st.locks st.cell st.refCount (starts st.cell ctx true data [])
      (ConstructionRoom st ctx data) := by
    refine ⟨undisturbed_of_storeOk hok, hok.cells.arcs, fun hroom x => ?_⟩
    exact hroom.refs x
  have hinRange (a : ScAddr) (ha : Live st.cell a) : a.offset.toNat < 65535 :=
    hok.cells.inRange a (type_of_live ha)
  have hgiven (hroom : ConstructionRoom st ctx data) (it : CheckedIterator) (hit : it ∈ its) :
      ∀ p ∈ it.data.args, p.addr.offset.toNat < 65535 := hroom.offsets it.data (List.mem_map_of_mem hit)
  have hopen : Opened st.cell ctx env st.locks st.refCount (ConstructionRoom st ctx data) 0 [] st :=
    ⟨[], [], List.Forall₂.nil, fun z => le_of_eq List.count_nil, iterating_start hok⟩
  have hrun := @checkedStep_wp env st.locks st.cell st.refCount ctx (starts st.cell ctx true data [])
    (ConstructionRoom st ctx data) asserts (oneResultSize data) unsets others hset hinRange its true [] []
    (List.replicate (oneResultSize data) none) 0 [] st hne (fun _ ha => absurd ha List.not_mem_nil)
    List.length_replicate (by rw [List.length_replicate, List.length_nil, Nat.zero_add])
    (known_of_none its true _ fun a ha => List.eq_of_mem_replicate ha) hgiven
    (by rw [Nat.zero_add, List.length_nil, Nat.add_zero]) hopen
  rw [List.length_nil, List.map_nil, List.nil_append] at hrun
  apply wp_mono hrun _ (fun _ he => he)
  rintro r st' ⟨hsound, ⟨junk, rfl, _⟩, refs, left, _, _, hit⟩
  exact ⟨hsound, rfl, hit.cell⟩

/-- A sound construction gives its join, and comes to its end with enough room. -/
theorem iterateStep_sound (hok : StoreOk env.thread st) (hne : its ≠ [])
    (hsound : Sound asserts st.cell ctx (oneResultSize (its.map CheckedIterator.data)) true its []) :
    (∀ r st', iterateStep asserts (constructionCalls env ctx unsets others) true (its.map CheckedIterator.data) 0 []
        (emptyResult (its.map CheckedIterator.data)) st = some (r, st') →
      r.1 = (joinFrom st.cell ctx true (its.map CheckedIterator.data) []).flatten ∧ st'.cell = st.cell) ∧
    (ConstructionRoom st ctx (its.map CheckedIterator.data) →
      ∃ r st', iterateStep asserts (constructionCalls env ctx unsets others) true (its.map CheckedIterator.data) 0 []
        (emptyResult (its.map CheckedIterator.data)) st = some (r, st')) := by
  have hrun := @checkedStep_at_rest env st ctx asserts unsets others its hok hne
  have hmirror := @checkedStep_mirrors asserts _ _ (constructionCalls env ctx unsets others) its true 0 []
    (List.replicate (oneResultSize (its.map CheckedIterator.data)) none) st
  have hfilled : filled (List.replicate (oneResultSize (its.map CheckedIterator.data)) none) =
      emptyResult (its.map CheckedIterator.data) := List.map_replicate
  rw [hfilled] at hmirror
  unfold Wp at hrun
  cases hchecked : checkedStep asserts (constructionCalls env ctx unsets others) true its 0 []
      (List.replicate (oneResultSize (its.map CheckedIterator.data)) none) st with
  | ok p =>
    rw [hchecked] at hrun
    have hstep := hmirror.1 p.1 p.2 hchecked
    refine ⟨fun r st' h => ?_, fun _ => ⟨_, _, hstep⟩⟩
    rw [hstep] at h
    cases h
    exact hrun.2
  | error e =>
    rw [hchecked] at hrun
    cases e with
    | fault f => exact absurd hsound hrun
    | memory =>
      have hstep := hmirror.2 hchecked
      refine ⟨fun r st' h => ?_, fun hroom => absurd hroom hrun⟩
      rw [hstep] at h
      cases h

end

end ScMachine.Sctp
