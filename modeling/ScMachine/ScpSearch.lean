import ScMachine.IteratorMutation
import ScMachine.ScTemplateSearch

/-! Search by a pattern in scp (`sc_system_search.cpp`, `sc_system_operators.cpp`) in a store at rest. -/
namespace ScMachine.Scp
open ScMachine.Store ScMachine.Template

/-- `sc_addr_comparator`. -/
def scAddrComparator : ScAddr → ScAddr → Ordering := compareOn ScAddr.localToInt

instance : Std.TransCmp scAddrComparator := inferInstanceAs (Std.TransCmp (compareOn _))

instance : Std.LawfulEqCmp scAddrComparator where
  compare_self {a} := by
    unfold scAddrComparator compareOn
    exact Nat.compare_eq_eq.mpr rfl
  eq_of_compare h := localToInt_injective (Nat.compare_eq_eq.mp h)

/-- `sc_type_result`: what stands for the variables. -/
abbrev ScTypeResult := Std.TreeMap ScAddr ScAddr scAddrComparator

def findResultPairForVar (set : ScTypeResult) (varElement : ScAddr) : Option ScAddr := set[varElement]?

/-- The first variable that the element stands for. -/
def findResultPairForConst (set : ScTypeResult) (constElement : ScAddr) : Option ScAddr :=
  (set.toList.find? fun pair => pair.2 = constElement).map Prod.fst

/-- The results of one call are kept as a set of pointers, so their order is that of the allocator. -/
structure ResultOrder where
  cantorize : List ScTypeResult → List ScTypeResult
  cantorize_perm : ∀ results, (cantorize results).Perm results
  sort : List ScTypeResult → List ScTypeResult
  sort_perm : ∀ results, (sort results).Perm results
  sort_sorted : ∀ results, (sort results).Pairwise fun s1 s2 => s2.size ≤ s1.size

/-- What a search is made in. -/
structure PatternSearch where
  cells : Cells
  context : ScContext
  scPattern : ScAddr
  order : ResultOrder

section
variable (c : Cells) (ctx : ScContext)

/-- `sc_memory_get_element_type`, where it succeeds. -/
def scMemoryGetElementType (a : ScAddr) : Option ScType :=
  if Live c a ∧ CanRead ctx c a then some (scFlagsRemove (c a).type) else none

/-- `sc_memory_get_arc_begin` and `sc_memory_get_arc_end`, where they succeed. -/
def scMemoryGetArcOwner (d : Dir) (a : ScAddr) : Option ScAddr :=
  if LiveArc c a ∧ CanRead ctx c a then some (ownerOf c d a) else none

def scMemoryGetArcBegin (a : ScAddr) : Option ScAddr := scMemoryGetArcOwner c ctx .out a

def scMemoryGetArcEnd (a : ScAddr) : Option ScAddr := scMemoryGetArcOwner c ctx .inp a

/-- What an iterator still yields; a null iterator yields nothing. -/
def iterated (params : Iterator3Params) : List (Triple ScAddr) := (iterator3 c ctx params).getD []

end

def hasBits (type bits : ScType) : Bool := bits &&& type == bits

/-- Every level of the recursion goes on to an end of an arc; there are at most `2^32` of them. -/
def coherenceDepth : ℕ := 4294967296

section
variable (m : PatternSearch)

def PatternSearch.elementType (a : ScAddr) : Option ScType :=
  scMemoryGetElementType m.cells m.context a

def PatternSearch.arcBegin (a : ScAddr) : Option ScAddr := scMemoryGetArcBegin m.cells m.context a

def PatternSearch.arcEnd (a : ScAddr) : Option ScAddr := scMemoryGetArcEnd m.cells m.context a

def PatternSearch.iterated (params : Iterator3Params) : List (Triple ScAddr) :=
  Scp.iterated m.cells m.context params

/-- The arc is of the pattern, and has got its value since the search has come to this element. -/
def PatternSearch.newlyBound (result inpResult : ScTypeResult) (arc : ScAddr) : Bool :=
  helperCheckEdge m.cells m.context m.scPattern arc scTypeEdgeAccessConstPosPerm &&
    (findResultPairForVar result arc).isSome && (findResultPairForVar inpResult arc).isNone

/-- `check_coherence` -/
def PatternSearch.checkCoherence (result inpResult : ScTypeResult) :
    ℕ → ScAddr → ScAddr → Bool → Bool
  | 0, _, _, _ => false
  | depth + 1, element, checkedArc, output =>
    match iterator3 m.cells m.context (.faa element 0 0),
      iterator3 m.cells m.context (.aaf 0 0 element), m.elementType element with
    | some outArcs, some inArcs, some elementType =>
      (outArcs.all fun t =>
        (output && checkedArc == t.edge) || !m.newlyBound result inpResult t.edge) &&
      (inArcs.all fun t => t.source == m.scPattern ||
        (!output && checkedArc == t.edge) || !m.newlyBound result inpResult t.edge) &&
      (hasBits elementType scTypeNode ||
        match m.arcBegin element, m.arcEnd element with
        | some beg, some end_ => checkCoherence result inpResult depth beg element true &&
            checkCoherence result inpResult depth end_ element false
        | _, _ => false)
    | _, _, _ => false

/-- An element at the other end of a pattern arc, with what stands for it where this is known before the
search for constant arcs: it is constant, or has a value in the incoming result. -/
structure PatternEnd where
  element : ScAddr
  known : Option ScAddr

/-- A pattern arc that the loop goes on with. `outArcFlag` says that `next` is its end; `ends` are those
of `next` where it is no node. -/
structure PatternArc where
  arc : ScAddr
  type : ScType
  outArcFlag : Bool
  known : Option ScAddr
  next : PatternEnd
  nextType : ScType
  ends : Option (PatternEnd × PatternEnd)

/-- What stands for an element, unless it is not what the value of an arc leads to (`seen`). -/
def resolvePatternEnd (inpResult : ScTypeResult) (type : ScType) (element : ScAddr)
    (seen : Option ScAddr) : Option PatternEnd :=
  let known := if hasBits type scTypeConst then some element else findResultPairForVar inpResult element
  if ∀ k ∈ known, ∀ s ∈ seen, s = k then some ⟨element, known⟩ else none

/-- The other end of the arc: its end for as many arcs as are left of those out of the element. -/
def PatternSearch.nextPatternElement (outArcCount : ℕ) (patternArc : ScAddr) :
    ℕ × Option (ScType × Bool × ScAddr) :=
  match m.elementType patternArc with
  | none => (outArcCount, none)
  | some type =>
    if hasBits type scTypeConst then (outArcCount, none)
    else if 0 < outArcCount then
      match m.arcEnd patternArc with
      | none => (outArcCount, none)
      | some next => (outArcCount - 1, some (type, true, next))
    else (outArcCount, (m.arcBegin patternArc).map fun next => (type, false, next))

/-- The end of an arc that the flag says. -/
def PatternSearch.nextOf (outArcFlag : Bool) (arc : ScAddr) : Option ScAddr :=
  if outArcFlag then m.arcEnd arc else m.arcBegin arc

/-- Both ends of an arc. -/
def PatternSearch.arcEnds (arc : ScAddr) : Option (ScAddr × ScAddr) := do
  let beg ← m.arcBegin arc
  let end_ ← m.arcEnd arc
  return (beg, end_)

/-- The ends of the element at the other end; a node has none. -/
def PatternSearch.nextEnds (nextType : ScType) (next : ScAddr) : Option (Option (ScAddr × ScAddr)) :=
  if hasBits nextType scTypeNode then some none else (m.arcEnds next).map some

/-- What stands for these ends, against those of what stands for the element itself. -/
def PatternSearch.resolveEnds (inpResult : ScTypeResult) (ends : ScAddr × ScAddr)
    (nextConst : Option ScAddr) : Option (PatternEnd × PatternEnd) := do
  let beginType ← m.elementType ends.1
  let endType ← m.elementType ends.2
  let seen ← nextConst.mapM m.arcEnds
  let beg ← resolvePatternEnd inpResult beginType ends.1 (seen.map Prod.fst)
  let end_ ← resolvePatternEnd inpResult endType ends.2 (seen.map Prod.snd)
  return (beg, end_)

/-- The loop body up to the search for constant arcs; `none` is one of its `continue`s. -/
def PatternSearch.resolvePatternArc (pattern : Finset ScAddr) (inpResult : ScTypeResult)
    (patternArc : ScAddr) (type : ScType) (outArcFlag : Bool) (next : ScAddr) : Option PatternArc := do
  let nextType ← m.elementType next
  let nextEnds ← m.nextEnds nextType next
  if next ∉ pattern ∨ ∃ ends ∈ nextEnds, ends.1 ∉ pattern ∨ ends.2 ∉ pattern then none else
  let known := findResultPairForVar inpResult patternArc
  let seen ← known.mapM (m.nextOf outArcFlag)
  let nextEnd ← resolvePatternEnd inpResult nextType next seen
  let ends ← nextEnds.mapM fun ends => m.resolveEnds inpResult ends (nextEnd.known.or seen)
  return ⟨patternArc, type, outArcFlag, known, nextEnd, nextType, ends⟩

/-- The type of a constant element for a variable one. -/
def constTypeOf (type : ScType) : ScType := (~~~scTypeVar &&& type) ||| scTypeConst

/-- `const_arc_set`. -/
def PatternSearch.constArcSet (currConstElement : ScAddr) (p : PatternArc) : List ScAddr :=
  let constArcType := constTypeOf p.type
  -- a node has no bit of `sc_type_link`, so that any element does
  let nextConstElementType := if hasBits p.nextType scTypeNode
    then constTypeOf p.nextType &&& scTypeLink else constTypeOf p.nextType
  match p.known with
  | some constArc => [constArc]
  | none =>
    let found := m.iterated (match p.outArcFlag, p.next.known with
      | true, some next => .faf currConstElement constArcType next
      | true, none => .faa currConstElement constArcType nextConstElementType
      | false, some next => .faf next constArcType currConstElement
      | false, none => .aaf nextConstElementType constArcType currConstElement)
    (found.filter fun t => p.outArcFlag || t.source != m.scPattern).map (·.edge)

/-- A constant arc with what it leads to. -/
structure Candidate where
  constArc : ScAddr
  next : ScAddr
  ends : Option (ScAddr × ScAddr)

/-- The constant arc loop up to the loop over the results. The other end of an arc that was known before
is read again, at which it is the same. -/
def PatternSearch.candidate (p : PatternArc) (constArc : ScAddr) : Option Candidate := do
  let next ← m.nextOf p.outArcFlag constArc
  match p.ends with
  | none => return ⟨constArc, next, none⟩
  | some (beg, end_) =>
    let constEnds ← m.arcEnds next
    if (∀ k ∈ beg.known, k = constEnds.1) ∧ ∀ k ∈ end_.known, k = constEnds.2
    then return ⟨constArc, next, some constEnds⟩ else none

/-- The pairs for the elements behind the arc that were not known. -/
def openPairs (p : PatternArc) (cand : Candidate) : List (ScAddr × ScAddr) :=
  let pair (e : PatternEnd) (x : ScAddr) := if e.known.isNone then [(e.element, x)] else []
  pair p.next cand.next ++
    match p.ends, cand.ends with
    | some ends, some constEnds => pair ends.1 constEnds.1 ++ pair ends.2 constEnds.2
    | _, _ => []

/-- Another variable has the value. -/
def usedElsewhere (result : ScTypeResult) (pair : ScAddr × ScAddr) : Bool :=
  (findResultPairForConst result pair.2).any fun var => var != pair.1

/-- The variable has another value. -/
def boundElsewhere (result : ScTypeResult) (pair : ScAddr × ScAddr) : Bool :=
  (findResultPairForVar result pair.1).any fun x => x != pair.2

/-- `std::map::insert` leaves a key that is there as it is. -/
def insertPairs (result : ScTypeResult) (pairs : List (ScAddr × ScAddr)) : ScTypeResult :=
  pairs.foldl (fun r pair => r.insertIfNew pair.1 pair.2) result

def erasePairs (result : ScTypeResult) (pairs : List (ScAddr × ScAddr)) : ScTypeResult :=
  pairs.foldl (fun r pair => r.erase pair.1) result

/-- What becomes of one result with one constant arc: it is changed in place, or a copy of it is. -/
inductive Attempt where
  | changed (result : ScTypeResult)
  | copied (result : ScTypeResult)

/-- The results loop up to the recursion. -/
def PatternSearch.attempt (inpResult : ScTypeResult) (p : PatternArc) (cand : Candidate)
    (result : ScTypeResult) : Option Attempt :=
  let pairs := openPairs p cand
  let arcPair := (p.arc, cand.constArc)
  match p.known with
  | none =>
    if (findResultPairForConst result cand.constArc).isSome then none
    else if pairs.any (usedElsewhere result) then none
    else if (findResultPairForVar result p.arc).isSome then
      if m.checkCoherence result inpResult coherenceDepth p.next.element p.arc (!p.outArcFlag)
      then some (.copied (insertPairs (erasePairs result (arcPair :: pairs)) (arcPair :: pairs)))
      else none
    else if pairs.any (boundElsewhere result) then none
    else some (.changed (insertPairs result (arcPair :: pairs)))
  | some _ =>
    if (arcPair :: pairs).any (usedElsewhere result) then none
    else if (arcPair :: pairs).any (boundElsewhere result) then none
    else some (.changed (insertPairs result pairs))

/-- The recursions from one result: into the arc, into the element behind it and into its ends. -/
def deeper (recurse : Finset ScAddr → ScAddr → ScAddr → ScTypeResult → List ScTypeResult)
    (pattern : Finset ScAddr) (p : PatternArc) (cand : Candidate) (result : ScTypeResult) :
    List ScTypeResult :=
  let rest := (pattern.erase p.arc).erase p.next.element
  match p.ends, cand.ends with
  | some ends, some constEnds =>
    let rest' := (rest.erase ends.1.element).erase ends.2.element
    (recurse rest' cand.constArc p.arc result).flatMap fun elementResult =>
      (recurse rest' cand.next p.next.element elementResult).flatMap fun beginResult =>
        (recurse rest' constEnds.1 ends.1.element beginResult).flatMap fun endResult =>
          recurse rest' constEnds.2 ends.2.element endResult
  | _, _ =>
    (recurse rest cand.constArc p.arc result).flatMap fun elementResult =>
      recurse rest cand.next p.next.element elementResult

/-- A result in `common_result`, and whether it is in `del_result` too. -/
abbrev CommonResult := ScTypeResult × Bool

section
variable (recurse : Finset ScAddr → ScAddr → ScAddr → ScTypeResult → List ScTypeResult)
  (pattern : Finset ScAddr) (inpResult : ScTypeResult)

/-- One result with one constant arc, with the results found behind it. -/
def PatternSearch.resultStep (p : PatternArc) (cand : Candidate) (entry : CommonResult) :
    CommonResult × List ScTypeResult :=
  match m.attempt inpResult p cand entry.1 with
  | none => (entry, [])
  | some (.changed result) => ((result, true), deeper recurse pattern p cand result)
  | some (.copied result) => (entry, deeper recurse pattern p cand result)

def PatternSearch.constArcStep (p : PatternArc) (s : List CommonResult × List ScTypeResult)
    (constArc : ScAddr) : List CommonResult × List ScTypeResult :=
  match m.candidate p constArc with
  | none => s
  | some cand =>
    let steps := s.1.map (m.resultStep recurse pattern inpResult p cand)
    (steps.map Prod.fst, s.2 ++ steps.flatMap Prod.snd)

/-- One round of the pattern arcs loop, with `out_arc_count` and `common_result`. -/
def PatternSearch.patternArcStep (currConstElement : ScAddr) (s : ℕ × List ScTypeResult)
    (patternArc : ScAddr) : ℕ × List ScTypeResult :=
  match m.nextPatternElement s.1 patternArc with
  | (outArcCount, none) => (outArcCount, s.2)
  | (outArcCount, some (type, outArcFlag, next)) =>
    match m.resolvePatternArc pattern inpResult patternArc type outArcFlag next with
    | none => (outArcCount, s.2)
    | some p =>
      let found := (m.constArcSet currConstElement p).foldl
        (m.constArcStep recurse pattern inpResult p) (s.2.map fun result => (result, false), [])
      (outArcCount, found.2 ++ (found.1.filter fun entry => !entry.2).map Prod.fst)

/-- The pattern arcs out of the element and those into it. -/
def PatternSearch.patternArcSet (currPatternElement : ScAddr) : Option (List ScAddr × List ScAddr) := do
  let outArcs ← iterator3 m.cells m.context (.faa currPatternElement 0 0)
  let inArcs ← iterator3 m.cells m.context (.aaf 0 0 currPatternElement)
  return ((outArcs.map (·.edge)).filter (· ∈ pattern),
    ((inArcs.filter fun t => t.source != m.scPattern).map (·.edge)).filter (· ∈ pattern))

def PatternSearch.searchFrom (currConstElement currPatternElement : ScAddr) : List ScTypeResult :=
  match m.patternArcSet pattern currPatternElement with
  | none => []
  | some (outArcs, inArcs) =>
    m.order.cantorize ((outArcs ++ inArcs).foldl
      (m.patternArcStep recurse pattern inpResult currConstElement) (outArcs.length, [inpResult])).2

end

/-- `system_sys_search_recurse`, to a depth. A call goes on only from an element of `pattern`, which it
takes out, so that the number of these is depth enough. -/
def PatternSearch.systemSysSearchRecurse :
    ℕ → Finset ScAddr → ScAddr → ScAddr → ScTypeResult → List ScTypeResult
  | 0, pattern, currConstElement, currPatternElement, inpResult =>
    m.searchFrom (fun _ _ _ _ => []) pattern inpResult currConstElement currPatternElement
  | depth + 1, pattern, currConstElement, currPatternElement, inpResult =>
    m.searchFrom (systemSysSearchRecurse depth) pattern inpResult currConstElement currPatternElement

/-- `get_const_element`. -/
def PatternSearch.getConstElement : Option ScAddr :=
  (m.iterated (.faa m.scPattern scTypeEdgeAccessConstPosPerm scTypeConst)).head?.map (·.target)

/-- The elements that `copy_set_into_hash` goes through. -/
def PatternSearch.patternElements : List ScAddr :=
  (m.iterated (.faa m.scPattern scTypeEdgeAccessConstPosPerm 0)).map (·.target)

def PatternSearch.varCount : ℕ :=
  (m.patternElements.filter fun a => (m.elementType a).any fun type => hasBits type scTypeVar).length

/-- `system_sys_search_only_full`. -/
def PatternSearch.systemSysSearchOnlyFull (params : ScTypeResult) : ScResult × List ScTypeResult :=
  let start := match m.getConstElement with
    | some element => some (element, element)
    | none => params.toList.head?
  match start with
  | none => (.errorInvalidParams, [])
  | some (startPatternNode, startConstNode) =>
    let patternHash := m.patternElements.toFinset.erase startPatternNode
    let results := m.systemSysSearchRecurse patternHash.card patternHash startConstNode
      startPatternNode params
    (.ok, (m.order.sort results).takeWhile fun result => m.varCount ≤ result.size)

end

end ScMachine.Scp
