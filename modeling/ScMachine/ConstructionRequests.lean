import ScMachine.ConstructionSteps

/-! Requests to iterate over a construction: their bytes, and what is made of them. -/
namespace ScMachine.Sctp
open ScMachine.Store ScMachine.WireFormat ScMachine.Template ScMachine.Runs ScMachine.StateExcept
  ScMachine.Enumeration

/-- A given element: its address, or the place of an earlier result. -/
inductive ConstrElement where
  | addr (a : ScAddr)
  | result (i : ℕ)

/-- An iterator of a construction, by the elements that are given. -/
inductive ConstrIterator where
  | f3_a_a (element1 : ConstrElement) (type2 type3 : ScType)
  | a3_a_f (type1 type2 : ScType) (element3 : ConstrElement)
  | f3_a_f (element1 : ConstrElement) (type2 : ScType) (element3 : ConstrElement)
  | f5_a_a_a_f (element1 : ConstrElement) (type2 type3 type4 : ScType) (element5 : ConstrElement)
  | a5_a_f_a_f (type1 type2 : ScType) (element3 : ConstrElement) (type4 : ScType) (element5 : ConstrElement)
  | f5_a_f_a_f (element1 : ConstrElement) (type2 : ScType) (element3 : ConstrElement) (type4 : ScType)
      (element5 : ConstrElement)
  | f5_a_f_a_a (element1 : ConstrElement) (type2 : ScType) (element3 : ConstrElement) (type4 type5 : ScType)
  | f5_a_a_a_a (element1 : ConstrElement) (type2 type3 type4 type5 : ScType)
  | a5_a_f_a_a (type1 type2 : ScType) (element3 : ConstrElement) (type4 type5 : ScType)

def ConstrIterator.type : ConstrIterator → SctpIteratorType
  | .f3_a_a .. => .f3_a_a
  | .a3_a_f .. => .a3_a_f
  | .f3_a_f .. => .f3_a_f
  | .f5_a_a_a_f .. => .f5_a_a_a_f
  | .a5_a_f_a_f .. => .a5_a_f_a_f
  | .f5_a_f_a_f .. => .f5_a_f_a_f
  | .f5_a_f_a_a .. => .f5_a_f_a_a
  | .f5_a_a_a_a .. => .f5_a_a_a_a
  | .a5_a_f_a_a .. => .a5_a_f_a_a

/-- The arguments in their order: the given elements, and the types of the others. -/
def ConstrIterator.args : ConstrIterator → List (ConstrElement ⊕ ScType)
  | .f3_a_a e1 t2 t3 => [.inl e1, .inr t2, .inr t3]
  | .a3_a_f t1 t2 e3 => [.inr t1, .inr t2, .inl e3]
  | .f3_a_f e1 t2 e3 => [.inl e1, .inr t2, .inl e3]
  | .f5_a_a_a_f e1 t2 t3 t4 e5 => [.inl e1, .inr t2, .inr t3, .inr t4, .inl e5]
  | .a5_a_f_a_f t1 t2 e3 t4 e5 => [.inr t1, .inr t2, .inl e3, .inr t4, .inl e5]
  | .f5_a_f_a_f e1 t2 e3 t4 e5 => [.inl e1, .inr t2, .inl e3, .inr t4, .inl e5]
  | .f5_a_f_a_a e1 t2 e3 t4 t5 => [.inl e1, .inr t2, .inl e3, .inr t4, .inr t5]
  | .f5_a_a_a_a e1 t2 t3 t4 t5 => [.inl e1, .inr t2, .inr t3, .inr t4, .inr t5]
  | .a5_a_f_a_a t1 t2 e3 t4 t5 => [.inr t1, .inr t2, .inl e3, .inr t4, .inr t5]

def ConstrIterator.elements (it : ConstrIterator) : List ConstrElement := it.args.filterMap Sum.getLeft?

/-- The number that stands for the place of the element, 255 for none. -/
def ConstrElement.repl : ConstrElement → Byte
  | .addr _ => 255
  | .result i => BitVec.ofNat 8 i

def argBytes : ConstrElement ⊕ ScType → List Byte
  | .inl (.addr a) => bytes a
  | .inl (.result _) => []
  | .inr t => bytes t

/-- The first iterator has no numbers of places. -/
def ConstrIterator.bytes (first : Bool) (it : ConstrIterator) : List Byte :=
  Raw.bytes it.type.code ++ ((if first then [] else it.elements.map ConstrElement.repl) ++
    it.args.flatMap argBytes)

def iteratorsBytes : Bool → List ConstrIterator → List Byte
  | _, [] => []
  | first, it :: rest => it.bytes first ++ iteratorsBytes false rest

/-- The parameters of the command. -/
def constructionBytes (its : List ConstrIterator) : List Byte :=
  bytes (BitVec.ofNat 8 its.length) ++ iteratorsBytes true its

def ConstrElement.at (row : List ScAddr) : ConstrElement → ScAddr
  | .addr a => a
  | .result i => row.getD i ScAddr.empty

/-- The iterator of the memory behind a row of earlier results. -/
def ConstrIterator.at (row : List ScAddr) : ConstrIterator → SctpIterator
  | .f3_a_a e1 t2 t3 => .f3_a_a (e1.at row) t2 t3
  | .a3_a_f t1 t2 e3 => .a3_a_f t1 t2 (e3.at row)
  | .f3_a_f e1 t2 e3 => .f3_a_f (e1.at row) t2 (e3.at row)
  | .f5_a_a_a_f e1 t2 t3 t4 e5 => .f5_a_a_a_f (e1.at row) t2 t3 t4 (e5.at row)
  | .a5_a_f_a_f t1 t2 e3 t4 e5 => .a5_a_f_a_f t1 t2 (e3.at row) t4 (e5.at row)
  | .f5_a_f_a_f e1 t2 e3 t4 e5 => .f5_a_f_a_f (e1.at row) t2 (e3.at row) t4 (e5.at row)
  | .f5_a_f_a_a e1 t2 e3 t4 t5 => .f5_a_f_a_a (e1.at row) t2 (e3.at row) t4 t5
  | .f5_a_a_a_a e1 t2 t3 t4 t5 => .f5_a_a_a_a (e1.at row) t2 t3 t4 t5
  | .a5_a_f_a_a t1 t2 e3 t4 t5 => .a5_a_f_a_a t1 t2 (e3.at row) t4 t5

/-- The rows that go on with one result of each iterator, those of the first one outermost. -/
def nestedJoin (c : Cells) (ctx : ScContext) : List ConstrIterator → List ScAddr → List (List ScAddr)
  | [], row => [row]
  | it :: rest, row =>
    ((it.at row).rows c ctx).flatMap fun r => nestedJoin c ctx rest (row ++ r)

/-- Every place is one of the `n` results of the iterators before. -/
def PlacesOk : ℕ → List ConstrIterator → Prop
  | _, [] => True
  | n, it :: rest => (∀ e ∈ it.elements, ∀ i, e = .result i → i < n) ∧ PlacesOk (n+it.args.length) rest

structure WellFormed (its : List ConstrIterator) : Prop where
  some : its ≠ []
  count : its.length ≤ 50
  places : PlacesOk 0 its

def argParam : ConstrElement ⊕ ScType → IterParam
  | .inl (.addr a) => ⟨false, 0, a, 255⟩
  | .inl (.result i) => ⟨false, 0, ScAddr.empty, BitVec.ofNat 8 i⟩
  | .inr t => ⟨true, t, ScAddr.empty, 255⟩

/-- The iterator as it is read. -/
def ConstrIterator.data (first : Bool) (it : ConstrIterator) : IteratorData :=
  let repl := if first then [] else it.elements.map ConstrElement.repl
  ⟨some it.type, repl ++ List.replicate (5-repl.length) 255, it.args.map argParam⟩

def iteratorsData : Bool → List ConstrIterator → List IteratorData
  | _, [] => []
  | first, it :: rest => it.data first :: iteratorsData false rest

section
variable {it : ConstrIterator}

theorem readRawData_bytes {α : Type} [Raw α] (old a : α) (rest : List Byte) :
    readRawData old (bytes a ++ rest) = (a, rest) := by
  have hlen : (bytes a).length = Raw.size α := Raw.length_bytes a
  have hold : ((bytes old).drop (Raw.size α)) = [] := by
    rw [← Raw.length_bytes old, List.drop_length]
  unfold readRawData
  simp only
  rw [← hlen, List.take_left, List.drop_left, hlen, hold, List.append_nil, Raw.ofBytes_bytes]

theorem argsCount_le (type : Option SctpIteratorType) : argsCount type ≤ 5 := by
  cases type with
  | none => decide
  | some type => cases type <;> decide

theorem length_args (it : ConstrIterator) : it.args.length = argsCount (some it.type) := by
  cases it <;> rfl

/-- The elements stand at the fixed places. -/
theorem isLeft_args (it : ConstrIterator) (j : ℕ) (hj : j < it.args.length) :
    j ∈ fixedPositions it.type ↔ it.args[j].isLeft = true := by
  cases it <;> simp only [ConstrIterator.args, List.length_cons, List.length_nil] at hj <;>
    interval_cases j <;> simp [fixedPositions, ConstrIterator.type, ConstrIterator.args]

theorem length_elements (it : ConstrIterator) : it.elements.length = fixedCount (some it.type) := by
  cases it <;> rfl

/-- The loop over the arguments reads them back, the elements with the numbers that are left. -/
theorem buildParams_bytes (fixed : List ℕ) (repl : List Byte) (args : List (ConstrElement ⊕ ScType))
    (i rCount : ℕ) (rest : List Byte) (hfixed : ∀ j (hj : j < args.length), i+j ∈ fixed ↔ args[j].isLeft = true)
    (hrepl : ∀ k (hk : k < (args.filterMap Sum.getLeft?).length),
      repl.getD (rCount+k) 255 = (args.filterMap Sum.getLeft?)[k].repl)
    (hplaces : ∀ i, Sum.inl (.result i) ∈ args → i < 255) :
    buildParams fixed repl args.length i rCount (args.flatMap argBytes ++ rest) =
      (args.map argParam, rest) := by
  induction args generalizing i rCount with
  | nil => rfl
  | cons arg args ih =>
    have hhead := hfixed 0 (by simp)
    have htail (j : ℕ) (hj : j < args.length) : i+1+j ∈ fixed ↔ args[j].isLeft = true := by
      have hnext := hfixed (j+1) (by simpa using hj)
      rw [Nat.add_assoc, Nat.add_comm 1 j]
      exact hnext
    have hrest : ∀ i, Sum.inl (.result i) ∈ args → i < 255 := fun i hi =>
      hplaces i (List.mem_cons_of_mem _ hi)
    rw [List.length_cons, List.flatMap_cons, List.map_cons, List.append_assoc]
    unfold buildParams
    cases arg with
    | inr t =>
      have hno : i ∉ fixed := by simpa using hhead
      simp only [hno, if_false, argBytes, readRawData_bytes]
      rw [ih (i+1) rCount htail (fun k hk => hrepl k hk) hrest]
      rfl
    | inl e =>
      have hin : i ∈ fixed := by simpa using hhead
      have hfirst : repl.getD rCount 255 = e.repl := by
        have h0 := hrepl 0 (by simp)
        simpa using h0
      have hrepl' (k : ℕ) (hk : k < (args.filterMap Sum.getLeft?).length) :
          repl.getD (rCount+1+k) 255 = (args.filterMap Sum.getLeft?)[k].repl := by
        have hnext := hrepl (k+1) (by simpa using hk)
        rw [Nat.add_assoc, Nat.add_comm 1 k]
        simpa using hnext
      simp only [hin, if_true, hfirst]
      cases e with
      | addr a =>
        simp only [ConstrElement.repl, ne_eq, not_true_eq_false, if_false, argBytes, readRawData_bytes]
        rw [ih (i+1) (rCount+1) htail hrepl' hrest]
        rfl
      | result k =>
        have hk : k < 255 := hplaces k List.mem_cons_self
        have hne : BitVec.ofNat 8 k ≠ 255 := by
          intro he
          have hval := congrArg BitVec.toNat he
          rw [BitVec.toNat_ofNat, Nat.mod_eq_of_lt (by omega)] at hval
          simp at hval
          omega
        simp only [ConstrElement.repl, ne_eq, hne, not_false_eq_true, if_true, argBytes, List.nil_append]
        rw [ih (i+1) (rCount+1) htail hrepl' hrest]
        rfl

theorem mem_elements {e : ConstrElement} : e ∈ it.elements ↔ Sum.inl e ∈ it.args := by
  unfold ConstrIterator.elements
  rw [List.mem_filterMap]
  constructor
  · rintro ⟨arg, harg, he⟩
    cases arg with
    | inl e' =>
      obtain rfl := Option.some.inj he
      exact harg
    | inr t => cases he
  · exact fun h => ⟨Sum.inl e, h, rfl⟩

/-- The first iterator has no earlier results, so its elements are given by their addresses. -/
theorem first_repl (hfirst : ∀ e ∈ it.elements, ∀ i, e = .result i → i < 0) {e : ConstrElement}
    (he : e ∈ it.elements) : e.repl = 255 := by
  cases e with
  | addr a => rfl
  | result i => exact absurd (hfirst _ he i rfl) (Nat.not_lt_zero i)

/-- The iterators are read back. -/
theorem buildIterators_bytes (its : List ConstrIterator) (first : Bool) (n : ℕ) (rest : List Byte)
    (hplaces : PlacesOk n its) (hn : n+5*its.length ≤ 255) (hfirst : first = true → n = 0) :
    buildIterators its.length first (iteratorsBytes first its ++ rest) = some (iteratorsData first its, rest) := by
  induction its generalizing first n with
  | nil => rfl
  | cons it its ih =>
    obtain ⟨hit, hits⟩ := hplaces
    rw [List.length_cons] at hn ⊢
    have hargs : it.args.length ≤ 5 := length_args it ▸ argsCount_le _
    unfold buildIterators iteratorsBytes ConstrIterator.bytes
    simp only [List.append_assoc, read_bytes, SctpIteratorType.ofCode_code, Option.elim_some]
    -- the numbers of the places
    have hcount : buildRepl (if first = true then 0 else fixedCount (some it.type))
        ((if first = true then [] else it.elements.map ConstrElement.repl) ++
          (it.args.flatMap argBytes ++ (iteratorsBytes false its ++ rest))) =
        ((it.data first).repl, it.args.flatMap argBytes ++ (iteratorsBytes false its ++ rest)) := by
      unfold buildRepl ConstrIterator.data
      cases first with
      | true => simp
      | false =>
        have hlen : (it.elements.map ConstrElement.repl).length = fixedCount (some it.type) := by
          rw [List.length_map, length_elements]
        simp only [Bool.false_eq_true, if_false]
        rw [← hlen, List.take_left, List.drop_left]
    rw [hcount]
    simp only
    rw [← length_args, buildParams_bytes (fixedPositions it.type) (it.data first).repl it.args 0 0 _ ?_ ?_ ?_]
    · simp only
      rw [ih false (n+it.args.length) hits (by omega) nofun]
      rfl
    · intro j hj
      rw [Nat.zero_add]
      exact isLeft_args it j hj
    · intro k hk
      rw [Nat.zero_add]
      have hmem : it.elements[k] ∈ it.elements := List.getElem_mem hk
      unfold ConstrIterator.data
      cases first with
      | true =>
        simp only [if_true, List.nil_append, List.length_nil]
        rw [List.getD_eq_getElem?_getD, List.getElem?_replicate]
        have h255 : it.elements[k].repl = 255 := by
          have hzero := hfirst rfl
          subst hzero
          exact first_repl hit hmem
        change _ = it.elements[k].repl
        rw [h255]
        split_ifs <;> rfl
      | false =>
        have hk' : k < it.elements.length := hk
        simp only [Bool.false_eq_true, if_false]
        rw [List.getD_eq_getElem?_getD, List.getElem?_append_left (by rw [List.length_map]; exact hk'),
          List.getElem?_map, List.getElem?_eq_getElem hk']
        rfl
    · intro i hi
      have hlt := hit _ (mem_elements.mpr hi) i rfl
      omega

theorem build_bytes {its : List ConstrIterator} (h : WellFormed its) (rest : List Byte) :
    build (constructionBytes its ++ rest) = some (iteratorsData true its) := by
  have hlt : its.length < 256 := by
    have := h.count
    omega
  have hcount : ¬ BitVec.ofNat 8 its.length > 50 := by
    have hle := h.count
    rw [gt_iff_lt, BitVec.lt_def, BitVec.toNat_ofNat, Nat.mod_eq_of_lt (by omega)]
    simpa using hle
  unfold build constructionBytes
  rw [List.append_assoc, read_bytes]
  simp only [hcount, if_false]
  rw [BitVec.toNat_ofNat, Nat.mod_eq_of_lt (by omega),
    buildIterators_bytes its true 0 rest h.places (by have := h.count; omega) fun _ => rfl]
  rfl

theorem result_repl {i : ℕ} (hi : i < 255) :
    (ConstrElement.result i).repl ≠ 255 ∧ (ConstrElement.result i).repl.toNat = i := by
  have hval : (ConstrElement.result i).repl.toNat = i := by
    rw [ConstrElement.repl, BitVec.toNat_ofNat, Nat.mod_eq_of_lt (by omega)]
  refine ⟨fun he => ?_, hval⟩
  rw [he] at hval
  have h255 : (255 : Byte).toNat = 255 := by decide
  omega

/-- The replacement puts the earlier element at its place. -/
theorem replaceArgs_element {row : List ScAddr} {e : ConstrElement} (he : ∀ i, e = .result i → i < 255)
    (pos : ℕ) (pairs : List (ℕ × Byte)) (args : List IterParam) (p : IterParam)
    (hp : args[pos]? = some p) (hold : ∀ a, e = .addr a → p.addr = a) :
    replaceArgs row ((pos, e.repl) :: pairs) args =
      replaceArgs row pairs (args.set pos { p with addr := e.at row }) := by
  obtain ⟨hlt, hget⟩ := List.getElem?_eq_some_iff.mp hp
  rw [replaceArgs]
  cases e with
  | addr a =>
    have hsame : ({ p with addr := (ConstrElement.addr a).at row } : IterParam) = p := by
      obtain ⟨_, _, addr, _⟩ := p
      obtain rfl : addr = a := hold a rfl
      rfl
    rw [hsame, ← hget, List.set_getElem_self]
    rfl
  | result i =>
    obtain ⟨hne, hval⟩ := result_repl (he i rfl)
    rw [if_neg hne, hval, List.modify_eq_set_getElem? , hp]
    rfl

/-- The places of the elements with their numbers, from the place `i` on. -/
def elementPlaces : ℕ → List (ConstrElement ⊕ ScType) → List (ℕ × Byte)
  | _, [] => []
  | i, .inl e :: args => (i, e.repl) :: elementPlaces (i+1) args
  | i, .inr _ :: args => elementPlaces (i+1) args

def resolvedParam (row : List ScAddr) : ConstrElement ⊕ ScType → IterParam
  | .inl e => { argParam (.inl e) with addr := e.at row }
  | .inr t => argParam (.inr t)

theorem replaceArgs_all {row : List ScAddr} (args : List (ConstrElement ⊕ ScType)) (before : List IterParam)
    (hplaces : ∀ i, Sum.inl (.result i) ∈ args → i < 255) :
    replaceArgs row (elementPlaces before.length args) (before ++ args.map argParam) =
      before ++ args.map (resolvedParam row) := by
  induction args generalizing before with
  | nil => rfl
  | cons arg args ih =>
    have hnext := ih (before ++ [resolvedParam row arg]) fun i hi => hplaces i (List.mem_cons_of_mem _ hi)
    rw [List.length_append, List.length_singleton, List.append_assoc, List.append_assoc,
      List.singleton_append, List.singleton_append] at hnext
    rw [List.map_cons, List.map_cons]
    cases arg with
    | inr t => exact hnext
    | inl e =>
      have hlt (i : ℕ) (he : e = .result i) : i < 255 := hplaces i (he ▸ List.mem_cons_self)
      have hget : (before ++ argParam (.inl e) :: args.map argParam)[before.length]? = some (argParam (.inl e)) := by
        rw [List.getElem?_append_right le_rfl, Nat.sub_self]
        rfl
      have hold (a : ScAddr) (he : e = .addr a) : (argParam (.inl e)).addr = a := by
        rw [he]
        rfl
      rw [elementPlaces, replaceArgs_element hlt _ _ _ _ hget hold, List.set_append_right _ _ le_rfl,
        Nat.sub_self, List.set_cons_zero]
      exact hnext

/-- With the places replaced it is the iterator behind the row. -/
theorem iterator_at {row : List ScAddr} (first : Bool) (it : ConstrIterator)
    (hplaces : ∀ e ∈ it.elements, ∀ i, e = .result i → i < 255)
    (hfirst : first = true → ∀ e ∈ it.elements, ∀ i, e ≠ .result i) :
    ((it.data first).replaced first row).iterator = some (it.at row) := by
  have hargs : ((it.data first).replaced first row).args = it.args.map (resolvedParam row) := by
    cases first with
    | true =>
      -- nothing is replaced, and all elements are given
      apply List.map_congr_left
      intro arg harg
      cases arg with
      | inr t => rfl
      | inl e =>
        cases e with
        | addr a => rfl
        | result i => exact absurd rfl (hfirst rfl _ (mem_elements.mpr harg) i)
    | false =>
      have hreplaces : (it.data false).replaces = elementPlaces 0 it.args := by
        cases it <;> rfl
      have hall := @replaceArgs_all row it.args [] fun i hi => hplaces _ (mem_elements.mpr hi) i rfl
      change replaceArgs row (it.data false).replaces (it.args.map argParam) = _
      rw [hreplaces]
      exact hall
  have htype : ((it.data first).replaced first row).type = some it.type := replaced_type first row _
  unfold IteratorData.iterator IteratorData.argAddr IteratorData.argType
  rw [hargs, htype]
  cases it <;> rfl

/-- The join of the iterators as they are read is that of the request. -/
theorem joinFrom_data {c : Cells} {ctx : ScContext} (its : List ConstrIterator) (first : Bool)
    (row : List ScAddr) (hplaces : PlacesOk row.length its) (hrow : row.length+5*its.length ≤ 255)
    (hfirst : first = true → row.length = 0) :
    joinFrom c ctx first (iteratorsData first its) row = nestedJoin c ctx its row := by
  induction its generalizing first row with
  | nil => rfl
  | cons it its ih =>
    obtain ⟨hit, hits⟩ := hplaces
    rw [List.length_cons] at hrow
    have hiter := @iterator_at row first it (fun e he i hi => by have := hit e he i hi; omega)
      (fun hf e he i hi => by have := hit e he i hi; have := hfirst hf; omega)
    have hrows : ((it.data first).replaced first row).rows c ctx = (it.at row).rows c ctx := by
      unfold IteratorData.rows
      rw [hiter]
      rfl
    rw [iteratorsData, joinFrom, nestedJoin, hrows]
    apply List.flatMap_congr
    intro r hr
    have hlen : r.length = it.args.length := by
      rw [← hrows] at hr
      rw [length_rows hr, replaced_type, length_args]
      rfl
    have hargs : it.args.length ≤ 5 := length_args it ▸ argsCount_le _
    apply ih false (row ++ r)
    · rw [List.length_append, hlen]
      exact hits
    · rw [List.length_append]
      omega
    · intro h
      cases h

theorem places_repl (args : List (ConstrElement ⊕ ScType)) (i : ℕ) {p : ℕ × Byte}
    (hp : p ∈ elementPlaces i args) : ∃ e, Sum.inl e ∈ args ∧ p.2 = e.repl := by
  induction args generalizing i with
  | nil => cases hp
  | cons arg args ih =>
    cases arg with
    | inr t =>
      obtain ⟨e, he, hrepl⟩ := ih (i+1) hp
      exact ⟨e, List.mem_cons_of_mem _ he, hrepl⟩
    | inl e =>
      rcases List.mem_cons.mp hp with rfl | hp
      · exact ⟨e, List.mem_cons_self, rfl⟩
      · obtain ⟨e', he, hrepl⟩ := ih (i+1) hp
        exact ⟨e', List.mem_cons_of_mem _ he, hrepl⟩

theorem oneResultSize_data (its : List ConstrIterator) (first : Bool) :
    oneResultSize (iteratorsData first its) = (its.map fun it => it.args.length).sum := by
  induction its generalizing first with
  | nil => rfl
  | cons it its ih =>
    have hsize : oneResultSize (iteratorsData first (it :: its)) =
        argsCount (some it.type)+oneResultSize (iteratorsData false its) := rfl
    rw [hsize, ih, List.map_cons, List.sum_cons, length_args]

theorem fixedPositions_lt {type : SctpIteratorType} {i : ℕ} (hi : i ∈ fixedPositions type) : i < 5 := by
  cases type <;> simp only [fixedPositions, List.mem_cons, List.not_mem_nil, or_false] at hi <;> omega

/-- The iterators as they are read from a request that has all of them. -/
def iteratorsRead (first : Bool) (its : List ConstrIterator) : List CheckedIterator :=
  (iteratorsData first its).map fun data => ⟨data, List.replicate 5 true⟩

theorem iteratorsRead_data (first : Bool) (its : List ConstrIterator) :
    (iteratorsRead first its).map CheckedIterator.data = iteratorsData first its := by
  unfold iteratorsRead
  rw [List.map_map]
  exact List.map_id _

/-- Every iterator of a well-formed request may be started. -/
theorem sound_data {c : Cells} {ctx : ScContext} {asserts : Bool} (its : List ConstrIterator) (first : Bool)
    (row : List ScAddr) (n : ℕ) (hplaces : PlacesOk row.length its) (hrow : row.length+5*its.length ≤ 255)
    (hn : row.length+oneResultSize (iteratorsData first its) ≤ n) :
    Sound asserts c ctx n first (iteratorsRead first its) row := by
  induction its generalizing first row with
  | nil => trivial
  | cons it its ih =>
    obtain ⟨hit, hits⟩ := hplaces
    rw [List.length_cons] at hrow
    rw [oneResultSize_data, List.map_cons, List.sum_cons] at hn
    refine ⟨⟨?_, ?_, ?_⟩, ?_⟩
    · intro _
      have hpos : 0 < it.args.length := by
        cases it <;> exact Nat.succ_pos _
      omega
    · rintro hf p hp hne
      subst hf
      have hreplaces : (it.data false).replaces = elementPlaces 0 it.args := by
        cases it <;> rfl
      rw [hreplaces] at hp
      obtain ⟨e, he, hrepl⟩ := places_repl it.args 0 hp
      rw [hrepl] at hne ⊢
      cases e with
      | addr a => exact absurd rfl hne
      | result i =>
        have hlt := hit _ (mem_elements.mpr he) i rfl
        rwa [(result_repl (show i < 255 by omega)).2]
    · apply List.all_eq_true.mpr
      rintro ⟨pos, repl⟩ hp
      have hpos : pos < 5 := fixedPositions_lt (List.of_mem_zip hp).1
      dsimp only
      rw [List.getD_eq_getElem?_getD, List.getElem?_replicate, if_pos hpos]
      exact Bool.or_true _
    · intro r hr
      have hlen : r.length = it.args.length := by
        rw [length_rows hr, replaced_type, length_args]
        rfl
      have hargs : it.args.length ≤ 5 := length_args it ▸ argsCount_le _
      apply ih false (row ++ r)
      · rw [List.length_append, hlen]
        exact hits
      · rw [List.length_append]
        omega
      · rw [List.length_append, oneResultSize_data, hlen]
        omega

theorem length_nestedJoin {c : Cells} {ctx : ScContext} (its : List ConstrIterator) (row full : List ScAddr)
    (h : full ∈ nestedJoin c ctx its row) :
    full.length = row.length+(its.map fun it => it.args.length).sum := by
  induction its generalizing row with
  | nil =>
    obtain rfl := List.mem_singleton.mp h
    rfl
  | cons it its ih =>
    obtain ⟨r, hr, hfull⟩ := List.mem_flatMap.mp h
    have hlen : r.length = it.args.length := by
      have hiter : (⟨some it.type, [], it.args.map (resolvedParam row)⟩ : IteratorData).iterator =
          some (it.at row) := by
        cases it <;> rfl
      have hin : r ∈ (⟨some it.type, [], it.args.map (resolvedParam row)⟩ : IteratorData).rows c ctx := by
        unfold IteratorData.rows
        rw [hiter]
        exact hr
      rw [length_rows hin, length_args]
    rw [ih _ hfull, List.length_append, List.map_cons, List.sum_cons, hlen]
    omega

end

theorem sum_args_le (its : List ConstrIterator) : (its.map fun it => it.args.length).sum ≤ 5*its.length := by
  induction its with
  | nil => exact Nat.zero_le _
  | cons it its ih =>
    have hargs : it.args.length ≤ 5 := length_args it ▸ argsCount_le _
    rw [List.map_cons, List.sum_cons, List.length_cons]
    omega

/-- A well-formed request is read as it has been written, and the iteration gives the join of its iterators, one
row after the other, whenever it comes to its end; it does with room for the references. No place of a result is
beyond 8 bits. -/
theorem construction_iterated (thread : ℕ) (evs : List StoreEvent) (st : ScStorage)
    (hr : Run (OwnStep thread) ScStorage.empty evs st) (env : ScEnv) (henv : env.thread = thread) (ctx : ScContext)
    (asserts : Bool) (unsets : UnsetTypes) (others : ServerCalls ScStorage ServerIterator)
    (its : List ConstrIterator) (h : WellFormed its) (rest : List Byte) :
    ∃ data, build (constructionBytes its ++ rest) = some data ∧
      (∀ r st', iterateStep asserts (constructionCalls env ctx unsets others) true data 0 [] (emptyResult data) st =
          some (r, st') → r.1 = (nestedJoin st.cell ctx its []).flatten ∧ st'.cell = st.cell) ∧
      (ConstructionRoom st ctx data → ∃ r st', iterateStep asserts (constructionCalls env ctx unsets others) true
        data 0 [] (emptyResult data) st = some (r, st')) ∧
      (∀ row ∈ nestedJoin st.cell ctx its [], row.length = oneResultSize data) ∧
      ∀ k, oneResultSize (data.take k) < 256 := by
  subst henv
  have hok := ownRun_storeOk evs st hr
  have hcount := h.count
  have hne : iteratorsRead true its ≠ [] := by
    cases its with
    | nil => exact absurd rfl h.some
    | cons it its => exact List.cons_ne_nil _ _
  have hsound : Sound asserts st.cell ctx (oneResultSize (iteratorsData true its)) true (iteratorsRead true its)
      [] := by
    apply sound_data its true [] _ h.places
    · rw [List.length_nil]
      omega
    · rw [List.length_nil, Nat.zero_add]
  have hsteps := @iterateStep_sound env st ctx asserts unsets others (iteratorsRead true its) hok hne
  rw [iteratorsRead_data, joinFrom_data its true [] h.places (by rw [List.length_nil]; omega) fun _ => rfl] at hsteps
  refine ⟨iteratorsData true its, build_bytes h rest, (hsteps hsound).1, (hsteps hsound).2, ?_, ?_⟩
  · intro row hrow
    rw [length_nestedJoin its [] row hrow, oneResultSize_data, List.length_nil, Nat.zero_add]
  · intro k
    have hsum := sum_args_le its
    have hle : oneResultSize ((iteratorsData true its).take k) ≤ oneResultSize (iteratorsData true its) := by
      unfold oneResultSize
      rw [List.map_take]
      exact List.Sublist.sum_le_sum (List.take_sublist _ _) fun _ _ => Nat.zero_le _
    rw [oneResultSize_data] at hle
    omega

/-- The arcs out of a node, with the arcs from their ends into them. -/
def exampleConstruction : List ConstrIterator :=
  [.f3_a_a (.addr ⟨0, 1⟩) 0 0, .f3_a_f (.result 2) 0 (.result 1)]

theorem exampleConstruction_wellFormed : WellFormed exampleConstruction := by
  refine ⟨by decide, by decide, ?_⟩
  simp [exampleConstruction, PlacesOk, ConstrIterator.elements, ConstrIterator.args]

/-- The calls of a construction for the store of an example. -/
def exampleIterators : ServerCalls ScStorage ServerIterator :=
  constructionCalls exampleEnv exampleContext (fun _ _ _ => 0) bareCalls

theorem construction_iterated_attribute :
    ∃ data, build (constructionBytes exampleConstruction ++ []) = some data ∧
      (∀ r st', iterateStep true exampleIterators true data 0 [] (emptyResult data) storeWithAttribute =
          some (r, st') → r.1 = (nestedJoin storeWithAttribute.cell exampleContext exampleConstruction []).flatten ∧
            st'.cell = storeWithAttribute.cell) ∧
      (ConstructionRoom storeWithAttribute exampleContext data → ∃ r st', iterateStep true exampleIterators true data
        0 [] (emptyResult data) storeWithAttribute = some (r, st')) ∧
      (∀ row ∈ nestedJoin storeWithAttribute.cell exampleContext exampleConstruction [],
        row.length = oneResultSize data) ∧
      ∀ k, oneResultSize (data.take k) < 256 :=
  construction_iterated 1 attributeEvents storeWithAttribute storeWithAttribute_run exampleEnv rfl exampleContext true
    (fun _ _ _ => 0) bareCalls exampleConstruction exampleConstruction_wellFormed []

example : nestedJoin storeWithAttribute.cell exampleContext exampleConstruction [] =
    [[⟨0, 1⟩, ⟨0, 65⟩, ⟨0, 33⟩, ⟨0, 33⟩, ⟨0, 97⟩, ⟨0, 65⟩]] := by
  decide +kernel

/-- The arcs out of a node. -/
def limitConstruction : List ConstrIterator := [.f3_a_a (.addr ⟨0, 1⟩) 0 0]

theorem limitConstruction_wellFormed : WellFormed limitConstruction := by
  refine ⟨by decide, by decide, ?_⟩
  simp [limitConstruction, PlacesOk, ConstrIterator.elements, ConstrIterator.args]

/-- The first step of the iterator stops the process, if the first arc has all the references it can have. -/
theorem iterateStep_limit {env : ScEnv} {st : ScStorage} {ctx : ScContext} {asserts : Bool} {unsets : UnsetTypes}
    {others : ServerCalls ScStorage ServerIterator} {x : ScAddr} {xs : List ScAddr} (hok : StoreOk env.thread st)
    (hel : Live st.cell ⟨0, 1⟩) (hlist : arcList st.cell .out ⟨0, 1⟩ = x :: xs)
    (hlimit : 4294967295 ≤ st.refCount x+1) :
    iterateStep asserts (constructionCalls env ctx unsets others) true (iteratorsData true limitConstruction) 0 []
      (emptyResult (iteratorsData true limitConstruction)) st = none := by
  have hset := undisturbed_of_storeOk hok
  have hchain := hok.cells.arcs.arcList hel (d := .out)
  rw [hlist] at hchain
  have hlive : ∀ a ∈ (Iterator3Params.faa ⟨0, 1⟩ 0 0).fixed, Live st.cell a := by
    intro a ha
    rwa [List.mem_singleton.mp ha]
  have hstart : Wp (startIterate env ctx (.f3_a_a ⟨0, 1⟩ 0 0))
      (fun r s => r = some (.three ((Iterator3Params.faa ⟨0, 1⟩ 0 0).fresh ctx)) ∧
        Iterating env st.locks [] st.cell st.refCount ((Iterator3Params.faa ⟨0, 1⟩ 0 0).fixed ++ []) s)
      (fun _ => ¬ False) st := by
    rw [startIterate_eq]
    dsimp only [SctpIterator.params]
    unfold ofThree newWithParams
    simp only [wp_bind]
    apply wp_mono (refElements_wp hset (Iterator3Params.faa ⟨0, 1⟩ 0 0).fixed (fun _ _ _ _ => not_false)
      (fun _ _ _ _ => not_false) (iterating_start hok)) _ (fun _ he => he)
    rintro r s ⟨hr, h1⟩
    rw [if_pos (hr.mpr hlive)]
    rw [takenRefs_live hlive] at h1
    exact ⟨rfl, h1⟩
  have henter : checkedEnter asserts true ⟨(ConstrIterator.f3_a_a (.addr ⟨0, 1⟩) 0 0).data true,
      List.replicate 5 true⟩ 0 (List.replicate 3 none) =
        .ok ((ConstrIterator.f3_a_a (.addr ⟨0, 1⟩) 0 0).data true) := by
    cases asserts <;> rfl
  have hiter : ((ConstrIterator.f3_a_a (.addr ⟨0, 1⟩) 0 0).data true).iterator = some (.f3_a_a ⟨0, 1⟩ 0 0) := rfl
  obtain ⟨rounds, hrounds⟩ : ∃ rounds, iterateRounds = rounds+1 := ⟨2^64, rfl⟩
  have hchecked : Wp (checkedStep asserts (constructionCalls env ctx unsets others) true
      [⟨(ConstrIterator.f3_a_a (.addr ⟨0, 1⟩) 0 0).data true, List.replicate 5 true⟩] 0 [] (List.replicate 3 none))
      (fun _ _ => False) (Stops False True) st := by
    unfold checkedStep
    rw [wp_bind, henter, wp_orFault, hiter]
    dsimp only
    rw [wp_bind]
    apply inMemory_wp hstart
    rintro r s ⟨rfl, h1⟩
    dsimp only [id]
    rw [wp_bind, hrounds, whileNext, wp_bind]
    -- the list starts with `x`
    have hnext : Wp (nextIterate env unsets (.three ((Iterator3Params.faa ⟨0, 1⟩ 0 0).fresh ctx)))
        (fun _ _ => False) (fun _ => ¬ False) s := by
      unfold nextIterate
      rw [wp_bind, wp_get]
      dsimp only
      unfold nextTriple
      simp only [wp_bind, bind_assoc]
      exact wp_mono (next_limit hset hel hchain hlimit 0 0 _ h1) (fun _ _ hf => hf.elim) (fun _ _ => not_false)
    exact inMemory_wp hnext fun _ _ hf => hf.elim
  have hmirror := @checkedStep_mirrors asserts _ _ (constructionCalls env ctx unsets others)
    [⟨(ConstrIterator.f3_a_a (.addr ⟨0, 1⟩) 0 0).data true, List.replicate 5 true⟩] true 0 []
    (List.replicate 3 none) st
  apply hmirror.2
  unfold Wp at hchecked
  cases hrun : checkedStep asserts (constructionCalls env ctx unsets others) true
      [⟨(ConstrIterator.f3_a_a (.addr ⟨0, 1⟩) 0 0).data true, List.replicate 5 true⟩] 0 [] (List.replicate 3 none)
      st with
  | ok p =>
    rw [hrun] at hchecked
    exact hchecked.elim
  | error e =>
    rw [hrun] at hchecked
    cases e with
    | fault f => exact absurd trivial hchecked
    | memory => rfl

/-- A request for the one arc of a node, that has all the references it can have, has a result, but the server
stops. -/
theorem construction_stops_at_limit :
    ∃ st, Run (OwnStep 1) ScStorage.empty
        (arcEvents ++ List.replicate 4294967293 ⟨exampleEnv, .ref ⟨0, 65⟩⟩) st ∧ WellFormed limitConstruction ∧
      nestedJoin st.cell exampleContext limitConstruction [] = [[⟨0, 1⟩, ⟨0, 65⟩, ⟨0, 33⟩]] ∧
      ∃ data, build (constructionBytes limitConstruction) = some data ∧
        iterateStep true exampleIterators true data 0 [] (emptyResult data) st = none := by
  have hok := ownRun_storeOk arcEvents storeWithArc storeWithArc_run
  have hcount : storeWithArc.refCount ⟨0, 65⟩ = 1 := by decide +kernel
  obtain ⟨st, hrun, hcell, href⟩ := @refs_run exampleEnv storeWithArc ⟨0, 65⟩ hok
    (by unfold Live; decide +kernel) 4294967293 (by rw [hcount]; norm_num)
  have hrun' : Run (OwnStep 1) ScStorage.empty
      (arcEvents ++ List.replicate 4294967293 ⟨exampleEnv, .ref ⟨0, 65⟩⟩) st :=
    (run_append _ _ _ _).mpr ⟨storeWithArc, storeWithArc_run, hrun⟩
  have hjoin : nestedJoin storeWithArc.cell exampleContext limitConstruction [] = [[⟨0, 1⟩, ⟨0, 65⟩, ⟨0, 33⟩]] := by
    decide +kernel
  refine ⟨st, hrun', limitConstruction_wellFormed, by rw [hcell, hjoin], iteratorsData true limitConstruction,
    (List.append_nil (constructionBytes limitConstruction)) ▸ build_bytes limitConstruction_wellFormed [], ?_⟩
  have hel : Live st.cell ⟨0, 1⟩ := by
    rw [hcell]
    unfold Live
    decide +kernel
  have hlist : arcList st.cell .out ⟨0, 1⟩ = ⟨0, 65⟩ :: [] := by
    rw [hcell]
    decide +kernel
  have hlimit : 4294967295 ≤ st.refCount ⟨0, 65⟩+1 := by
    rw [href, hcount]
    norm_num
  exact iterateStep_limit (ownRun_storeOk _ st hrun') hel hlist hlimit

end ScMachine.Sctp
