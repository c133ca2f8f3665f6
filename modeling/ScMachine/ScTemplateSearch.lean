import ScMachine.ScTemplateGenerate
import ScMachine.IteratorWalk

/-! Search by a template (`sc_template_search.cpp`) in a store at rest. `asserts` says whether `SC_ASSERT`
throws, as in a debug build, or is left out. -/
namespace ScMachine.Template
open ScMachine.Store

/-- What the standard library leaves open: the order of equal elements after `std::sort`, and the
order in which an `std::unordered_set` is iterated. -/
structure LibraryOrder where
  sort : (ℕ → BitVec 8) → List ℕ → List ℕ
  sort_perm : ∀ score l, (sort score l).Perm l
  sort_sorted : ∀ score l, (sort score l).Pairwise fun a b => score b ≤ score a
  setOrder : List ℕ → List ℕ
  setOrder_perm : ∀ l, (setOrder l).Perm l.dedup

def kScoreEdge : BitVec 8 := 5
def kScoreOther : BitVec 8 := 1

def calculateScore (t : Triple ScTemplateArg) : BitVec 8 :=
  if t.edge.kind = .addr ∧ t.source.kind = .type ∧ t.target.kind = .type then kScoreEdge
  else if t.source.kind = .addr ∧ t.edge.kind = .type ∧ t.target.kind = .addr then kScoreOther*2
  else if t.source.kind = .addr ∨ t.target.kind = .addr then kScoreOther
  else 0

/-- The entries of `replDependMap` under a name: the triple and the position, packed. -/
def replDepend (triples : List (Triple ScTemplateArg)) (name : String) : List ℕ :=
  (triples.zipIdx.map fun (t, i) =>
    (t.toList.zipIdx.filter fun (value, _) =>
      value.kind != .addr && value.hasReplacementName && value.replacementName == name).map
        fun (_, idx) => i*4+idx).flatten

/-- The variables of the loop that orders the triples. -/
structure OrderState where
  cache : List ℕ
  preCache : List ℕ
  tripleScores : ℕ → BitVec 8
  usedReplacements : List String

/-- The triples that depend on the names of `names` that have not been used before. -/
def resolvedTriples (triples : List (Triple ScTemplateArg)) :
    List String → List String → List ℕ × List String
  | [], used => ([], used)
  | name :: names, used =>
    if name ∈ used then resolvedTriples triples names used
    else
      let r := resolvedTriples triples names (name :: used)
      (replDepend triples name ++ r.1, r.2)

/-- The scores of the dependent triples are raised, and the best triple is found among them. The
comparison with 1 is one of the packed number. -/
def raiseScores (cache : List ℕ) : List ℕ → (ℕ → BitVec 8) → ℕ → (ℕ → BitVec 8) × ℕ
  | [], scores, best => (scores, best)
  | idx :: rest, scores, best =>
    let tripleIdx := idx/4
    if tripleIdx ∈ cache then raiseScores cache rest scores best
    else
      let raised := scores tripleIdx+(if idx = 1 then kScoreEdge else kScoreOther)
      let scores := Function.update scores tripleIdx raised
      raiseScores cache rest scores (if scores best < scores tripleIdx then tripleIdx else best)

/-- One round of the loop; `cache` is in reverse. -/
def orderRound (lib : LibraryOrder) (triples : List (Triple ScTemplateArg)) (s : OrderState) :
    OrderState :=
  let last := (triples[s.cache.headD 0]?.map fun t => t.toList.map (·.replacementName)).getD []
  let (resolved, used) := resolvedTriples triples (last.filter (· != "")) s.usedReplacements
  let preCache := s.preCache.dropWhile (· ∈ s.cache)
  let (scores, best) := raiseScores s.cache (lib.setOrder resolved) s.tripleScores (preCache.headD 0)
  ⟨best :: s.cache, preCache, scores, used⟩

/-- `UpdateSearchCache`: the order in which the triples are processed. -/
def updateSearchCache (lib : LibraryOrder) (triples : List (Triple ScTemplateArg)) : List ℕ :=
  let scores (i : ℕ) : BitVec 8 := (triples[i]?.map calculateScore).getD 0
  match lib.sort scores (List.range triples.length) with
  | [] => []
  | first :: rest =>
    ((orderRound lib triples)^[triples.length-1] ⟨[first], first :: rest, scores, []⟩).cache.reverse

/-- The element and how many items of the current triples have the name. -/
structure ReplCounter where
  addr : ScAddr
  refs : ℕ
  deriving DecidableEq

/-- Why a search does not go on: an exception, or an access behind the end of a vector. -/
inductive SearchStop where
  | thrown (e : ScException)
  | outOfRange
  deriving DecidableEq

/-- `iterators` is the stack, with its top first: each iterator is what its `next` still returns.
`resultAddrs` has three addresses for each triple. -/
structure SearchState where
  iterators : List (List (Triple ScAddr))
  edges : List ScAddr
  newIteration : Bool
  isFinished : Bool
  usedEdges : List ScAddr
  resultAddrs : List (Triple ScAddr)
  repls : String → Option ReplCounter

/-- What a search is made with. -/
structure SearchSetup where
  asserts : Bool
  cells : Cells
  ctx : ScContext
  data : ScTemplateData
  struct : ScAddr
  processOrder : List ℕ

/-- What `next` returns on a new iterator, call by call; null parameters give no iterator. -/
def iterator3 (c : Cells) (ctx : ScContext) (params : Iterator3Params) :
    Option (List (Triple ScAddr)) :=
  let triple (x : ScAddr) : Triple ScAddr := ⟨ownerOf c .out x, x, ownerOf c .inp x⟩
  if ∀ a ∈ params.fixed, Live c a ∧ CanRead ctx c a then
    some (match params with
      | .faa beg _ _ => ((arcList c .out beg).filter (params.matching c ctx)).map triple
      | .aaf _ _ end_ | .faf _ _ end_ =>
        ((arcList c .inp end_).filter (params.matching c ctx)).map triple
      | .afa _ edge _ => [triple edge]
      | .ffa beg edge _ => if beg = ownerOf c .out edge then [triple edge] else []
      | .aff _ edge end_ => if end_ = ownerOf c .inp edge then [triple edge] else []
      | .fff beg edge end_ =>
        if beg = ownerOf c .out edge ∧ end_ = ownerOf c .inp edge then [triple edge] else [])
  else none

/-- `sc_helper_check_arc` through `HelperCheckEdge`. -/
def helperCheckEdge (c : Cells) (ctx : ScContext) (beg end_ : ScAddr) (edgeType : ScType) : Bool :=
  match iterator3 c ctx (.faf beg edgeType end_) with
  | none => false
  | some found => !found.isEmpty

def scTypeEdgeAccessConstPosPerm : ScType := scTypeConst ||| scTypeArcAccess ||| 0x800 ||| 0x80

def SearchSetup.checkInStruct (m : SearchSetup) (a : ScAddr) : Bool :=
  helperCheckEdge m.cells m.ctx m.struct a scTypeEdgeAccessConstPosPerm

/-- `ScTemplateSearchImpl::ResolveAddr`; the empty address stands for nothing. -/
def searchResolveAddr (repls : String → Option ReplCounter) (value : ScTemplateArg) : ScAddr :=
  match value.kind with
  | .addr => value.addrValue
  | .replace | .type =>
    if value.hasReplacementName then ((repls value.replacementName).map (·.addr)).getD ScAddr.empty
    else ScAddr.empty

/-- A name stands for the empty address, which `IsValid` denies. -/
def isInvalid (repls : String → Option ReplCounter) (name : String) : Bool :=
  (repls name).any fun r => r.addr == ScAddr.empty

/-- The assertion of `ResolveAddr` fails. -/
def resolveFails (repls : String → Option ReplCounter) (value : ScTemplateArg) : Bool :=
  value.kind != .addr && value.hasReplacementName && isInvalid repls value.replacementName

def prepareType (type : ScType) : ScType := if type.hasConstancyFlag then type.upConstType else type

/-- `CreateIterator`: the parameters of the iterator, if there are any for what is resolved. -/
def createIterator (repls : String → Option ReplCounter) (t : Triple ScTemplateArg) :
    Option Iterator3Params :=
  let sourceAddr := searchResolveAddr repls t.source
  let edgeAddr := searchResolveAddr repls t.edge
  let targetAddr := searchResolveAddr repls t.target
  let source := prepareType t.source.typeValue
  let edge := prepareType t.edge.typeValue
  let target := prepareType t.target.typeValue
  if sourceAddr ≠ ScAddr.empty then
    if edgeAddr = ScAddr.empty then
      if targetAddr ≠ ScAddr.empty then some (.faf sourceAddr edge targetAddr)
      else some (.faa sourceAddr edge target)
    else if targetAddr ≠ ScAddr.empty then some (.fff sourceAddr edgeAddr targetAddr)
    else some (.ffa sourceAddr edgeAddr target)
  else if targetAddr ≠ ScAddr.empty then
    if edgeAddr ≠ ScAddr.empty then some (.aff source edgeAddr targetAddr)
    else some (.aaf source edge targetAddr)
  else if edgeAddr ≠ ScAddr.empty then some (.afa source edgeAddr target)
  else none

/-- What becomes of an access that an assertion checks before. -/
def failedAccess (asserts : Bool) : SearchStop := if asserts then .thrown .assertion else .outOfRange

def unrefReplacement (asserts : Bool) (item : ScTemplateArg) (repls : String → Option ReplCounter) :
    Except SearchStop (String → Option ReplCounter) :=
  if item.hasReplacementName then
    match repls item.replacementName with
    | none => .error (failedAccess asserts)
    | some r =>
      .ok (Function.update repls item.replacementName
        (if 1 < r.refs then some { r with refs := r.refs-1 } else none))
  else .ok repls

def refReplacement (item : ScTemplateArg) (a : ScAddr) (repls : String → Option ReplCounter) :
    String → Option ReplCounter :=
  if item.hasReplacementName then
    match repls item.replacementName with
    | none => Function.update repls item.replacementName (some ⟨a, 1⟩)
    | some r => Function.update repls item.replacementName (some { r with refs := r.refs+1 })
  else repls

/-- Whether a triple that an iterator has found is taken. -/
def SearchSetup.accepts (m : SearchSetup) (usedEdges : List ScAddr) (found : Triple ScAddr) : Bool :=
  (m.struct == ScAddr.empty ||
    (m.checkInStruct found.source && m.checkInStruct found.edge && m.checkInStruct found.target)) &&
    found.edge ∉ usedEdges

/-- `while (it->Next())`: the first triple that is taken, and what is behind it. -/
def SearchSetup.nextAccepted (m : SearchSetup) (usedEdges : List ScAddr) :
    List (Triple ScAddr) → Option (Triple ScAddr × List (Triple ScAddr))
  | [] => none
  | found :: rest =>
    if m.accepts usedEdges found then some (found, rest) else m.nextAccepted usedEdges rest

/-- The part of a round behind `make one iteration`; `it` is the iterator at the top and `below` are
the others. -/
def SearchSetup.advance (m : SearchSetup) (s : SearchState) (constrIndex : ℕ)
    (t : Triple ScTemplateArg) (it : List (Triple ScAddr)) (below : List (List (Triple ScAddr))) :
    Except SearchStop (Bool × SearchState) :=
  match m.nextAccepted s.usedEdges it with
  | none => .ok (false, { s with iterators := below, newIteration := false })
  | some (found, rest) =>
    let orderIndex := below.length
    if s.edges.length ≤ orderIndex ∨ s.resultAddrs.length ≤ constrIndex then .error .outOfRange
    else
      let isLast := orderIndex+1 == m.data.triples.length
      .ok (isLast, { s with
        iterators := rest :: below
        edges := s.edges.set orderIndex found.edge
        usedEdges := found.edge :: s.usedEdges
        resultAddrs := s.resultAddrs.set constrIndex found
        repls := refReplacement t.target found.target (refReplacement t.edge found.edge
          (refReplacement t.source found.source s.repls))
        newIteration := !isLast })

/-- The round's work on an iterator that was there before: the last result is taken back. -/
def SearchSetup.takeBack (m : SearchSetup) (s : SearchState) (orderIndex : ℕ) (t : Triple ScTemplateArg) :
    Except SearchStop SearchState := do
  let repls ← unrefReplacement m.asserts t.source s.repls
  let repls ← unrefReplacement m.asserts t.edge repls
  let repls ← unrefReplacement m.asserts t.target repls
  match s.edges[orderIndex]? with
  | none => .error .outOfRange
  | some edge => .ok { s with repls := repls, usedEdges := s.usedEdges.erase edge }

/-- The iterator of a new level, up to its first `Next`: that asserts that there is an iterator, and
finds nothing without one. -/
def SearchSetup.openIterator (m : SearchSetup) (repls : String → Option ReplCounter)
    (t : Triple ScTemplateArg) : Except SearchStop (List (Triple ScAddr)) :=
  if m.asserts = true ∧ t.toList.any (resolveFails repls) = true then .error (.thrown .assertion)
  else
    match createIterator repls t with
    | none => .error (.thrown (.invalidState "Invalid state during template search"))
    | some params =>
      match iterator3 m.cells m.ctx params with
      | none => if m.asserts then .error (.thrown .assertion) else .ok []
      | some it => .ok it

/-- One round of the loop of `DoIter`; true stands for `found`. -/
def SearchSetup.round (m : SearchSetup) (s : SearchState) : Except SearchStop (Bool × SearchState) :=
  let orderIndex := if s.newIteration then s.iterators.length else s.iterators.length-1
  match m.processOrder[orderIndex]? with
  | none => .error .outOfRange
  | some constrIndex =>
    match m.data.triples[constrIndex]? with
    | none => .error (failedAccess m.asserts)
    | some indices =>
      let t := m.data.items indices
      if s.newIteration then do
        let it ← m.openIterator s.repls t
        m.advance s constrIndex t it s.iterators
      else do
        let s ← m.takeBack s orderIndex t
        match s.iterators with
        | [] => .error .outOfRange
        | it :: below => m.advance s constrIndex t it below

/-- The loop of `DoIter` with the rounds that are left; `none` when there are not enough. -/
def SearchSetup.doIterLoop (m : SearchSetup) :
    ℕ → SearchState → Option (Except SearchStop (Bool × SearchState))
  | 0, _ => none
  | rounds + 1, s =>
    match m.round s with
    | .error e => some (.error e)
    | .ok (found, s) =>
      if found = false ∧ s.iterators ≠ [] then m.doIterLoop rounds s
      else some (.ok (found, { s with isFinished := s.isFinished || s.iterators.isEmpty }))

def SearchSetup.doIter (m : SearchSetup) (rounds : ℕ) (s : SearchState) :
    Option (Except SearchStop (Bool × SearchState)) :=
  if s.isFinished then some (.ok (false, s)) else m.doIterLoop rounds s

/-- `Reset`. -/
def SearchSetup.reset (m : SearchSetup) : SearchState :=
  ⟨[], List.replicate m.data.triples.length ScAddr.empty, true, false, [],
    List.replicate m.data.triples.length ⟨ScAddr.empty, ScAddr.empty, ScAddr.empty⟩, fun _ => none⟩

/-- The names, and the addresses that have no name in the order of the triples. -/
structure SearchResult where
  names : String → Option ScAddr
  addrs : List (Triple ScAddr)

/-- `MakeResult`; the names are those of the items. -/
def SearchSetup.makeResult (m : SearchSetup) (s : SearchState) : Except SearchStop SearchResult :=
  if m.asserts = true ∧ (m.data.elements.any fun item =>
      item.hasReplacementName && isInvalid s.repls item.replacementName) = true then
    .error (.thrown .assertion)
  else .ok ⟨fun name => (s.repls name).map (·.addr), s.resultAddrs⟩

inductive SearchEnd where
  | finished
  | stopped (e : SearchStop)
  | running
  deriving DecidableEq

/-- `begin` and the increments after it: the results, and how the search ends. -/
def SearchSetup.results (m : SearchSetup) (rounds : ℕ) : ℕ → SearchState → List SearchResult × SearchEnd
  | 0, _ => ([], .running)
  | calls + 1, s =>
    match m.doIter rounds s with
    | none => ([], .running)
    | some (.error e) => ([], .stopped e)
    | some (.ok (false, _)) => ([], .finished)
    | some (.ok (true, s)) =>
      match m.makeResult s with
      | .error e => ([], .stopped e)
      | .ok result =>
        let r := m.results rounds calls s
        (result :: r.1, r.2)

/-- The search after `Reset`. -/
def searchSetup (asserts : Bool) (lib : LibraryOrder) (c : Cells) (ctx : ScContext) (data : ScTemplateData)
    (struct : ScAddr) : SearchSetup :=
  ⟨asserts, c, ctx, data, struct, updateSearchCache lib (data.triples.map data.items)⟩

/-- `GetElementType`; what cannot be read has no type. -/
def getElementType (c : Cells) (ctx : ScContext) (a : ScAddr) : ScType :=
  if Live c a ∧ CanRead ctx c a then scFlagsRemove (c a).type else 0

/-- `ScTemplateSearch::begin` before the first result. -/
def scTemplateSearch (asserts : Bool) (lib : LibraryOrder) (c : Cells) (ctx : ScContext)
    (data : ScTemplateData) (params : ScTemplateParams) (struct : ScAddr) : Except ScException SearchSetup := do
  let data ← applyParameters (getElementType c ctx) data params.values
  .ok (searchSetup asserts lib c ctx data struct)

end ScMachine.Template
