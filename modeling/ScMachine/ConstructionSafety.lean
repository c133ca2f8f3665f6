import ScMachine.ConstructionRequests

/-! What a construction request can make the server do: no access outside of a vector, no use of an address that
nothing has been written to, no division by zero, and a failure for what describes no construction. -/
namespace ScMachine.Sctp
open ScMachine.Store ScMachine.WireFormat ScMachine.Template ScMachine.Runs ScMachine.StateExcept

/-- `processIterateConstruction`: the addresses of the answer, or nothing for one with a failure. -/
def checkedIterate {σ ι : Type} (asserts : Bool) (calls : ServerCalls σ ι) (l : List Byte) :
    StateT σ (Except IterStop) (Option (List ScAddr)) :=
  match checkedBuild l with
  | none => pure none
  | some its => do
    let stride := oneResultSize (its.map CheckedIterator.data)
    let (results, _) ← checkedStep asserts calls true its 0 [] (List.replicate stride none)
    if stride = 0 then throw (.fault .zeroStride)
    else if results = [] then pure none
    else pure (some results)

/-- The kinds are known, and the places are those of earlier results. -/
def WellPlaced : Bool → ℕ → List CheckedIterator → Prop
  | _, _, [] => True
  | first, n, it :: rest => it.data.type ≠ none ∧
      (first = false → ∀ p ∈ it.data.replaces, p.2 ≠ 255 → p.2.toNat < n) ∧
      WellPlaced false (n+argsCount it.data.type) rest

/-- Nothing that is asked for is missing at the end of the request. -/
def AllRead (its : List CheckedIterator) : Prop := ∀ it ∈ its, ∀ b ∈ it.read, b = true

/-- The request does not describe a construction. -/
def Malformed (l : List Byte) : Prop :=
  ¬ ∃ its, checkedBuild l = some its ∧ its ≠ [] ∧ WellPlaced true 0 its ∧ AllRead its

section
variable {c : Cells} {ctx : ScContext} {asserts : Bool} {n : ℕ}

/-- A result goes through every iterator, so that each has a kind and its places are there. -/
theorem wellPlaced_of_result (its : List CheckedIterator) (first : Bool) (row full : List ScAddr)
    (h : Sound asserts c ctx n first its row)
    (hfull : full ∈ joinFrom c ctx first (its.map CheckedIterator.data) row) :
    WellPlaced first row.length its := by
  induction its generalizing first row with
  | nil => trivial
  | cons it rest ih =>
    obtain ⟨hfits, hrest⟩ := h
    obtain ⟨r, hr, hin⟩ := List.mem_flatMap.mp hfull
    have hlen : (row ++ r).length = row.length+argsCount it.data.type := by
      rw [List.length_append, length_rows hr, replaced_type]
    have htype : it.data.type ≠ none := by
      intro hnone
      unfold IteratorData.rows IteratorData.iterator at hr
      rw [replaced_type, hnone] at hr
      cases hr
    have hplaced := ih false (row ++ r) (hrest r hr) hin
    rw [hlen] at hplaced
    exact ⟨htype, hfits.earlier, hplaced⟩

/-- The iterators of a request that may be processed. -/
structure Sounds (asserts : Bool) (c : Cells) (ctx : ScContext) (its : List CheckedIterator) : Prop where
  some : its ≠ []
  stride : oneResultSize (its.map CheckedIterator.data) ≠ 0
  sound : Sound asserts c ctx (oneResultSize (its.map CheckedIterator.data)) true its []

end

section
variable {env : ScEnv} {st : ScStorage} {ctx : ScContext} {asserts : Bool} {unsets : UnsetTypes}
  {others : ServerCalls ScStorage ServerIterator} {l : List Byte}

theorem build_of_checked {its : List CheckedIterator} (h : checkedBuild l = some its) :
    build l = some (its.map CheckedIterator.data) := by
  rw [← checkedBuild_data, h]
  rfl

/-- A request is processed without a fault exactly when its iterators may be started. -/
theorem checkedIterate_wp (hok : StoreOk env.thread st) :
    Wp (checkedIterate asserts (constructionCalls env ctx unsets others) l)
      (fun _ _ => ∀ its, checkedBuild l = some its → Sounds asserts st.cell ctx its)
      (Stops (∀ data, build l = some data → ConstructionRoom st ctx data)
        (∀ its, checkedBuild l = some its → Sounds asserts st.cell ctx its)) st := by
  unfold checkedIterate
  cases hbuild : checkedBuild l with
  | none => exact nofun
  | some its =>
    simp only [Option.some.injEq, forall_eq']
    by_cases hnil : its = []
    · subst hnil
      exact fun hs => hs.some rfl
    rw [wp_bind]
    apply wp_mono (checkedStep_at_rest hok hnil)
    · rintro r st' ⟨hsound, _, _⟩
      by_cases hstride : oneResultSize (its.map CheckedIterator.data) = 0
      · rw [if_pos hstride]
        exact fun hs => hs.stride hstride
      · rw [if_neg hstride]
        split_ifs <;> exact ⟨hnil, hstride, hsound⟩
    · intro e he
      cases e with
      | fault f => exact fun hs => he hs.sound
      | memory => exact fun hroom => he (hroom _ (build_of_checked hbuild))

end

section
variable {σ ι : Type}

/-- The handler comes to its end, with an answer that has the property. -/
def Answers (x : SctpM σ SctpErrorCode) (server : SctpServer σ) (l : List Byte) (P : List Byte → Prop) : Prop :=
  ∃ s', x { server with params := l, out := [] } = .ok (.noError, s') ∧ P s'.out

def failAnswer (cmdCode : SctpCommandCode) (cmdId : BitVec 32) : List Byte :=
  resultHeaderBytes cmdCode.code cmdId .fail 0

/-- A request to iterate is processed without a fault, and what describes no construction fails. -/
def IterateSafe (asserts : Bool) (calls : ServerCalls σ ι) (cmdId : BitVec 32) (server : SctpServer σ)
    (l : List Byte) : Prop :=
  (∃ answer mem, checkedIterate asserts calls l server.mem = .ok (answer, mem)) ∧
    Answers (processIterateConstruction asserts calls cmdId) server l fun out =>
      Malformed l → out = failAnswer .iterateConstruction cmdId

/-- When it is so: the count is missing or above 50, or there are iterators with results, each that is come to
may be started, and where something is missing in the request there is no result. -/
def IterateFits (asserts : Bool) (c : Cells) (ctx : ScContext) (l : List Byte) : Prop :=
  ∀ its, checkedBuild l = some its → Sounds asserts c ctx its ∧
    (¬ AllRead its → joinFrom c ctx true (its.map CheckedIterator.data) [] = [])

/-- A request to generate comes to its end with a failure, where it describes no construction. -/
def GenerateSafe (asserts : Bool) (calls : ServerCalls σ ι) (cmdId : BitVec 32) (server : SctpServer σ)
    (l : List Byte) : Prop :=
  Answers (processGenerateConstruction asserts calls cmdId) server l fun out =>
    Malformed l → out = failAnswer .generateConstruction cmdId

/-- When it is so: the count is missing or above 50, or there is an iterator, with room for a result in a build
with assertions, and the one element that is made for it can be made and erased. -/
def GenerateFits (asserts : Bool) (calls : ServerCalls σ ι) (mem : σ) (l : List Byte) : Prop :=
  ∀ its, build l = some its → ∃ it rest, its = it :: rest ∧ (asserts = true → oneResultSize its ≠ 0) ∧
    (it.type = some .a3_a_f → Returns (generateNodeLink calls (it.argType 0)) mem fun addr mem =>
      addr ≠ ScAddr.empty → Returns (calls.elementFree addr) mem fun _ _ => True)

end

section
variable {σ ι : Type} {c : Cells} {ctx : ScContext} {asserts : Bool} {calls : ServerCalls σ ι} {cmdId : BitVec 32}
  {server : SctpServer σ} {l : List Byte}

theorem iterate_unread (h : checkedBuild l = none) :
    Answers (processIterateConstruction asserts calls cmdId) server l fun out =>
      out = failAnswer .iterateConstruction cmdId := by
  have hbuild : build l = none := by
    rw [← checkedBuild_data, h]
    rfl
  unfold Answers processIterateConstruction
  simp only [bind, StateT.bind, get, getThe, MonadStateOf.get, StateT.get, Except.bind, pure, Except.pure]
  rw [hbuild]
  exact ⟨_, rfl, rfl⟩

theorem call_none {α : Type} {x : ServerCall σ α} {s : SctpSession σ} (h : x s.mem = none) :
    call x s = .error .stop := by
  unfold call
  rw [h]

theorem call_some {α : Type} {x : ServerCall σ α} {s : SctpSession σ} {a : α} {mem : σ}
    (h : x s.mem = some (a, mem)) : call x s = .ok (a, { s with mem := mem }) := by
  unfold call
  rw [h]

/-- No answer comes from an iteration that does not return. -/
theorem iterate_returned {data : List IteratorData} {P : List Byte → Prop} (hdata : build l = some data)
    (h : Answers (processIterateConstruction asserts calls cmdId) server l P) :
    ∃ r mem, iterateStep asserts calls true data 0 [] (emptyResult data) server.mem = some (r, mem) := by
  obtain ⟨s', hrun, _⟩ := h
  unfold processIterateConstruction at hrun
  simp only [bind, StateT.bind, get, getThe, MonadStateOf.get, StateT.get, Except.bind, pure, Except.pure,
    hdata] at hrun
  cases hstep : iterateStep asserts calls true data 0 [] (emptyResult data) server.mem with
  | none =>
    rw [call_none hstep] at hrun
    cases hrun
  | some p => exact ⟨p.1, p.2, rfl⟩

/-- The answer is the join, or a failure when there is nothing in it. -/
theorem iterate_answers {its : List CheckedIterator} (hbuild : checkedBuild l = some its)
    (h : Sounds asserts c ctx its) {r : List ScAddr × List ScAddr} {mem : σ}
    (hrun : iterateStep asserts calls true (its.map CheckedIterator.data) 0 []
      (emptyResult (its.map CheckedIterator.data)) server.mem = some (r, mem))
    (hr : r.1 = (joinFrom c ctx true (its.map CheckedIterator.data) []).flatten) :
    Answers (processIterateConstruction asserts calls cmdId) server l fun out =>
      (out = failAnswer .iterateConstruction cmdId ↔
        joinFrom c ctx true (its.map CheckedIterator.data) [] = []) := by
  have hdata := build_of_checked hbuild
  have hstride : r.1.length % oneResultSize (its.map CheckedIterator.data) = 0 := by
    rw [hr, List.length_flatten]
    apply Nat.mod_eq_zero_of_dvd
    apply List.dvd_sum
    intro k hk
    obtain ⟨full, hfull, rfl⟩ := List.mem_map.mp hk
    rw [length_joinFrom _ _ _ _ hfull, List.length_nil, Nat.zero_add]
  have hflat : r.1 = [] ↔ joinFrom c ctx true (its.map CheckedIterator.data) [] = [] := by
    rw [hr]
    constructor
    · intro hnil
      rw [List.eq_nil_iff_forall_not_mem]
      intro full hfull
      have hfull0 : full = [] := List.flatten_eq_nil_iff.mp hnil full hfull
      have hsize := length_joinFrom _ _ _ _ hfull
      rw [hfull0, List.length_nil, Nat.zero_add] at hsize
      exact h.stride hsize.symm
    · intro hnil
      rw [hnil]
      rfl
  unfold Answers processIterateConstruction
  simp only [bind, StateT.bind, get, getThe, MonadStateOf.get, StateT.get, Except.bind, pure, Except.pure,
    StateT.pure, hdata, call, hrun, h.stride, if_false, qAssert, hstride, not_true_eq_false, and_false]
  by_cases hjoin : joinFrom c ctx true (its.map CheckedIterator.data) [] = []
  · simp only [hflat, hjoin, ne_eq, not_true_eq_false, if_false, iff_true]
    exact ⟨_, rfl, rfl⟩
  · simp only [hflat, hjoin, ne_eq, not_false_eq_true, if_true, iff_false]
    refine ⟨_, rfl, fun hno => ?_⟩
    unfold failAnswer at hno
    simp only [List.nil_append, List.append_assoc] at hno
    rw [← List.append_nil (resultHeaderBytes _ _ .fail _)] at hno
    exact nomatch (header_append_inj hno).2.2.1

theorem answers_congr {x : SctpM σ SctpErrorCode} {P Q : List Byte → Prop} (h : ∀ out, P out → Q out)
    (ha : Answers x server l P) : Answers x server l Q := by
  obtain ⟨s', hrun, hp⟩ := ha
  exact ⟨s', hrun, h s'.out hp⟩

/-- A sound request that has been answered has a failure if it describes no construction exactly when something
missing in it leaves no result. -/
theorem malformed_fails_iff {its : List CheckedIterator} (hbuild : checkedBuild l = some its)
    (hsounds : Sounds asserts c ctx its)
    (hanswer : Answers (processIterateConstruction asserts calls cmdId) server l fun out =>
      (out = failAnswer .iterateConstruction cmdId ↔
        joinFrom c ctx true (its.map CheckedIterator.data) [] = [])) :
    Answers (processIterateConstruction asserts calls cmdId) server l
        (fun out => Malformed l → out = failAnswer .iterateConstruction cmdId) ↔
      (¬ AllRead its → joinFrom c ctx true (its.map CheckedIterator.data) [] = []) := by
  have hmalformed : Malformed l ↔ ¬ (WellPlaced true 0 its ∧ AllRead its) := by
    unfold Malformed
    rw [hbuild, not_iff_not]
    constructor
    · rintro ⟨its', he, _, hplaced, hread⟩
      cases he
      exact ⟨hplaced, hread⟩
    · exact fun h => ⟨its, rfl, hsounds.some, h.1, h.2⟩
  have hplaced (hjoin : joinFrom c ctx true (its.map CheckedIterator.data) [] ≠ []) :
      WellPlaced true 0 its := by
    obtain ⟨full, hfull⟩ := List.exists_mem_of_ne_nil _ hjoin
    exact wellPlaced_of_result its true [] full hsounds.sound hfull
  obtain ⟨s', hrun, hout⟩ := hanswer
  constructor
  · rintro ⟨s'', hrun', hfail⟩ hread
    obtain rfl : s'' = s' := by
      rw [hrun] at hrun'
      cases hrun'
      rfl
    exact hout.mp (hfail (hmalformed.mpr fun hno => hread hno.2))
  · intro hnone
    refine ⟨s', hrun, fun hm => hout.mpr ?_⟩
    by_contra hjoin
    exact hmalformed.mp hm ⟨hplaced hjoin, not_not.mp fun hread => hjoin (hnone hread)⟩

end

section
variable {env : ScEnv} {ctx : ScContext} {asserts : Bool} {unsets : UnsetTypes}
  {others : ServerCalls ScStorage ServerIterator} {cmdId : BitVec 32} {server : SctpServer ScStorage}
  {l : List Byte}

theorem iterate_fits (hok : StoreOk env.thread server.mem)
    (h : IterateSafe asserts (constructionCalls env ctx unsets others) cmdId server l) :
    IterateFits asserts server.mem.cell ctx l := by
  obtain ⟨⟨answer, mem, hchecked⟩, hanswers⟩ := h
  have hwp := @checkedIterate_wp env server.mem ctx asserts unsets others l hok
  have hsounds := wp_ok hwp hchecked
  intro its hbuild
  have hs := hsounds its hbuild
  refine ⟨hs, ?_⟩
  obtain ⟨r, mem', hstep⟩ := iterate_returned (build_of_checked hbuild) hanswers
  have hr := ((iterateStep_sound hok hs.some hs.sound).1 r mem' hstep).1
  exact (malformed_fails_iff hbuild hs (iterate_answers hbuild hs hstep hr)).mp hanswers

/-- A request that fits is processed without a fault, and to its end with room for the references. -/
theorem iterate_safe (hok : StoreOk env.thread server.mem) (h : IterateFits asserts server.mem.cell ctx l) :
    (∀ fault, checkedIterate asserts (constructionCalls env ctx unsets others) l server.mem ≠
      .error (.fault fault)) ∧
    ((∀ data, build l = some data → ConstructionRoom server.mem ctx data) →
      IterateSafe asserts (constructionCalls env ctx unsets others) cmdId server l) := by
  have hwp := @checkedIterate_wp env server.mem ctx asserts unsets others l hok
  have hsounds : ∀ its, checkedBuild l = some its → Sounds asserts server.mem.cell ctx its :=
    fun its hbuild => (h its hbuild).1
  unfold Wp at hwp
  constructor
  · intro fault hfault
    rw [hfault] at hwp
    exact hwp hsounds
  · intro hroom
    constructor
    · cases hchecked : checkedIterate asserts (constructionCalls env ctx unsets others) l server.mem with
      | ok p => exact ⟨p.1, p.2, rfl⟩
      | error e =>
        rw [hchecked] at hwp
        cases e with
        | fault f => exact absurd hsounds hwp
        | memory => exact absurd hroom hwp
    · cases hbuild : checkedBuild l with
      | none => exact answers_congr (fun _ hout _ => hout) (iterate_unread hbuild)
      | some its =>
        obtain ⟨hs, hmissing⟩ := h its hbuild
        have hsteps := @iterateStep_sound env server.mem ctx asserts unsets others its hok hs.some hs.sound
        obtain ⟨r, mem, hstep⟩ := hsteps.2 (hroom _ (build_of_checked hbuild))
        exact (malformed_fails_iff hbuild hs (iterate_answers hbuild hs hstep (hsteps.1 r mem hstep).1)).mpr hmissing

end

section
variable {σ ι : Type} {asserts : Bool} {calls : ServerCalls σ ι} {cmdId : BitVec 32} {server : SctpServer σ}
  {l : List Byte}

/-- The one element that is made for the first iterator is erased again. -/
theorem generate_returns_iff (it : IteratorData) (n : ℕ) (mem : σ) :
    Returns (generate calls it 0 (List.replicate n ScAddr.empty)) mem (fun _ _ => True) ↔
      (it.type = some .a3_a_f → Returns (generateNodeLink calls (it.argType 0)) mem fun addr mem =>
        addr ≠ ScAddr.empty → Returns (calls.elementFree addr) mem fun _ _ => True) := by
  have hempty (i : ℕ) : (List.replicate n ScAddr.empty).getD i ScAddr.empty = ScAddr.empty := by
    rw [List.getD_eq_getElem?_getD, List.getElem?_replicate]
    split_ifs <;> rfl
  unfold Returns generate
  by_cases hbegin : it.type = some .a3_a_f
  · have hcount : argsCount (some .a3_a_f) = 3 := rfl
    have hplace (begin_ : ScAddr) : ((List.replicate n ScAddr.empty).set 0 begin_).getD (0+2) ScAddr.empty =
        ScAddr.empty := by
      rw [List.getD_eq_getElem?_getD, List.getElem?_set_ne (by omega), ← List.getD_eq_getElem?_getD]
      exact hempty (0+2)
    simp only [hbegin, hcount, if_true, forall_const]
    rcases hnew : generateNodeLink calls (it.argType 0) mem with _ | ⟨begin_, mem'⟩
    · simp
    · by_cases hmissing : begin_ = ScAddr.empty
      · simp [hmissing]
      · have hend' : ¬ some SctpIteratorType.a3_a_f = some SctpIteratorType.f3_a_a := by simp
        simp only [hmissing, hend', if_false, hplace, if_true]
        rcases hfree : calls.elementFree begin_ mem' with _ | ⟨freed, mem''⟩
        · simp [hmissing, hfree]
        · simp only [Option.map_some]
          exact iff_of_true ⟨_, _, rfl, trivial⟩ ⟨_, _, rfl, fun _ => ⟨_, _, hfree, trivial⟩⟩
  · refine iff_of_true ?_ fun hno => absurd hno hbegin
    by_cases hcount : argsCount it.type = 3
    · simp only [hcount, hbegin, if_false, hempty, if_true]
      exact ⟨_, _, rfl, trivial⟩
    · simp only [hcount, if_false]
      exact ⟨_, _, rfl, trivial⟩

/-- A construction is never generated, so that all answers are failures. -/
theorem generate_answers_iff (P : List Byte → Prop) :
    Answers (processGenerateConstruction asserts calls cmdId) server l P ↔
      GenerateFits asserts calls server.mem l ∧ P (failAnswer .generateConstruction cmdId) := by
  unfold Answers processGenerateConstruction GenerateFits
  simp only [bind, StateT.bind, get, getThe, MonadStateOf.get, StateT.get, Except.bind, pure, Except.pure]
  cases hbuild : build l with
  | none =>
    constructor
    · rintro ⟨s', hrun, hp⟩
      cases hrun
      exact ⟨nofun, hp⟩
    · exact fun h => ⟨_, rfl, h.2⟩
  | some its =>
    simp only [Option.some.injEq, forall_eq']
    cases its with
    | nil =>
      refine iff_of_false ?_ (by simp)
      rintro ⟨s', hrun, _⟩
      cases hrun
    | cons it rest =>
      have hpos : 0 < (emptyResult (it :: rest)).length ↔ oneResultSize (it :: rest) ≠ 0 := by
        rw [emptyResult, List.length_replicate, Nat.pos_iff_ne_zero]
      simp only [StateT.bind, bind, Except.bind]
      by_cases hsize : asserts = true ∧ ¬ 0 < (emptyResult (it :: rest)).length
      · refine iff_of_false ?_ ?_
        · rintro ⟨s', hrun, _⟩
          rw [call_none (by unfold generateStep enterStep; rw [if_pos hsize])] at hrun
          cases hrun
        · rintro ⟨⟨it', rest', _, hasserts, _⟩, _⟩
          exact hsize.2 (hpos.mpr (hasserts hsize.1))
      · have hasserts : asserts = true → oneResultSize (it :: rest) ≠ 0 :=
          fun ha => hpos.mp (not_not.mp fun hno => hsize ⟨ha, hno⟩)
        have hreturns := @generate_returns_iff σ ι calls it (oneResultSize (it :: rest)) server.mem
        have hstep := generateStep_eq asserts calls it rest server.mem hsize
        have hfits : (∃ it' rest', it :: rest = it' :: rest' ∧
            (asserts = true → oneResultSize (it :: rest) ≠ 0) ∧
              (it'.type = some .a3_a_f → Returns (generateNodeLink calls (it'.argType 0)) server.mem
                fun addr mem => addr ≠ ScAddr.empty → Returns (calls.elementFree addr) mem fun _ _ => True)) ↔
            Returns (generate calls it 0 (emptyResult (it :: rest))) server.mem fun _ _ => True := by
          constructor
          · rintro ⟨it', rest', he, _, hmade⟩
            cases he
            exact hreturns.mpr hmade
          · exact fun hret => ⟨it, rest, rfl, hasserts, hreturns.mp hret⟩
        rw [hfits]
        unfold Returns
        rcases hrun : generate calls it 0 (emptyResult (it :: rest)) server.mem with _ | ⟨⟨generated, result⟩, mem'⟩
        · rw [call_none (hstep.trans hrun)]
          simp
        · have hfalse : generated = false := generate_false calls it _ 0 server.mem _ hrun
          subst hfalse
          rw [call_some (hstep.trans hrun)]
          constructor
          · rintro ⟨s', hrun', hp⟩
            cases hrun'
            exact ⟨⟨_, _, rfl, trivial⟩, hp⟩
          · exact fun h => ⟨_, rfl, h.2⟩

theorem generate_safe_iff :
    GenerateSafe asserts calls cmdId server l ↔ GenerateFits asserts calls server.mem l :=
  (generate_answers_iff _).trans (and_iff_left fun _ => rfl)

end

/-- Requests to iterate that are processed without a fault, with a failure for those that describe no construction,
fit, and those that fit have no fault; with room for the references they are processed to their end. Requests to
generate are so exactly when they fit. -/
theorem construction_requests_safe_iff (thread : ℕ) (evs : List StoreEvent) (server : SctpServer ScStorage)
    (hr : Run (OwnStep thread) ScStorage.empty evs server.mem) (env : ScEnv) (henv : env.thread = thread)
    (ctx : ScContext) (asserts : Bool) (unsets : UnsetTypes) (others : ServerCalls ScStorage ServerIterator)
    (cmdId : BitVec 32) (l : List Byte) {σ ι : Type} (calls : ServerCalls σ ι) (server' : SctpServer σ) :
    (IterateSafe asserts (constructionCalls env ctx unsets others) cmdId server l →
      IterateFits asserts server.mem.cell ctx l) ∧
    (IterateFits asserts server.mem.cell ctx l → ∀ fault,
      checkedIterate asserts (constructionCalls env ctx unsets others) l server.mem ≠ .error (.fault fault)) ∧
    ((∀ data, build l = some data → ConstructionRoom server.mem ctx data) →
      (IterateSafe asserts (constructionCalls env ctx unsets others) cmdId server l ↔
        IterateFits asserts server.mem.cell ctx l)) ∧
    (GenerateSafe asserts calls cmdId server' l ↔ GenerateFits asserts calls server'.mem l) := by
  subst henv
  have hok := ownRun_storeOk evs server.mem hr
  refine ⟨iterate_fits hok, fun h => ?_, fun hroom => ⟨iterate_fits hok, fun h => ?_⟩, generate_safe_iff⟩
  · exact (@iterate_safe env ctx asserts unsets others cmdId server l hok h).1
  · exact (iterate_safe hok h).2 hroom

def attributeServer : SctpServer ScStorage := ⟨storeWithAttribute, [], [], 0⟩

theorem attributeServer_mem : attributeServer.mem = storeWithAttribute := by
  rw [attributeServer]

theorem construction_requests_safe_attribute :
    (IterateSafe false exampleIterators 1 attributeServer (constructionBytes exampleConstruction) →
      IterateFits false storeWithAttribute.cell exampleContext (constructionBytes exampleConstruction)) ∧
    (IterateFits false storeWithAttribute.cell exampleContext (constructionBytes exampleConstruction) → ∀ fault,
      checkedIterate false exampleIterators (constructionBytes exampleConstruction) storeWithAttribute ≠
        .error (.fault fault)) ∧
    ((∀ data, build (constructionBytes exampleConstruction) = some data →
        ConstructionRoom storeWithAttribute exampleContext data) →
      (IterateSafe false exampleIterators 1 attributeServer (constructionBytes exampleConstruction) ↔
        IterateFits false storeWithAttribute.cell exampleContext (constructionBytes exampleConstruction))) ∧
    (GenerateSafe false exampleCalls 1 attributeServer (constructionBytes exampleConstruction) ↔
      GenerateFits false exampleCalls storeWithAttribute (constructionBytes exampleConstruction)) := by
  have hsafe := construction_requests_safe_iff 1 attributeEvents attributeServer
    (attributeServer_mem ▸ storeWithAttribute_run) exampleEnv rfl exampleContext false (fun _ _ _ => 0) bareCalls 1
    (constructionBytes exampleConstruction) exampleCalls attributeServer
  rw [attributeServer_mem] at hsafe
  exact hsafe

/-- An iterator of the arcs out of a node, and one whose element is to stand at a place that is not there. -/
def misplacedConstruction : List ConstrIterator := [.f3_a_a (.addr ⟨0, 1⟩) 0 0, .f3_a_a (.result 200) 0 0]

/-- What ends the request, if it is a fault. -/
def faultOf {α : Type} : Except IterStop α → Option IterFault
  | .error (.fault fault) => some fault
  | _ => none

/-- No iterators, kinds that are not known, a place behind the results,
an address that is not in the request, and a type that is not there, where the answer has a result. -/
theorem construction_requests_unsafe :
    faultOf (checkedIterate false exampleIterators [0] storeWithAttribute) = some .iteratorIndex ∧
    faultOf (checkedIterate false exampleIterators [1, 255] storeWithAttribute) = some .zeroStride ∧
    faultOf (checkedIterate false exampleIterators (constructionBytes misplacedConstruction) storeWithAttribute) =
      some .resultIndex ∧
    faultOf (checkedIterate false exampleIterators [1, 0] storeWithAttribute) = some .unsetAddress ∧
    ¬ (∀ l, IterateSafe false exampleIterators 1 attributeServer l) ∧
    ¬ ∀ l, GenerateSafe false exampleCalls 1 attributeServer l := by
  have hindex : faultOf (checkedIterate false exampleIterators [0] storeWithAttribute) = some .iteratorIndex := by
    decide +kernel
  refine ⟨hindex, by decide +kernel, by decide +kernel, by decide +kernel, fun h => ?_, fun h => ?_⟩
  · obtain ⟨⟨answer, mem, hok⟩, _⟩ := h [0]
    rw [attributeServer_mem] at hok
    rw [hok] at hindex
    cases hindex
  · obtain ⟨it, rest, he, _⟩ := generate_safe_iff.mp (h [0]) [] rfl
    cases he

/-- A type that is not in the request is taken as none, and the construction has a result. -/
example : ((checkedIterate false exampleIterators ([1, 0] ++ bytes (⟨0, 1⟩ : ScAddr)) storeWithAttribute).toOption.map
    Prod.fst) = some (some [⟨0, 1⟩, ⟨0, 65⟩, ⟨0, 33⟩]) := by
  decide +kernel

end ScMachine.Sctp
