import ScMachine.DepthFirst
import ScMachine.ScTypes

/-! The sentence trees of the SCn translator (`uiSc2SCnJsonTranslator.cpp`). -/
namespace ScMachine.SCn
open ScMachine.Store ScMachine.DepthFirst

def isArcType (type : ScType) : Bool := type &&& scTypeArcMask != 0

/-- What is translated: `mObjects` in the order of the map, and the ends of arcs in the memory. -/
structure OutputConstruction where
  objects : List (ScAddr × ScType)
  arcBegin : ScAddr → Option ScAddr
  arcEnd : ScAddr → Option ScAddr
  nodup : (objects.map Prod.fst).Nodup

/-- `sScElementInfo`, with addresses for the pointers to others and nothing for null. -/
structure ScElementInfo where
  type : ScType
  source : Option ScAddr
  target : Option ScAddr
  outputArcs : List ScAddr
  inputArcs : List ScAddr

section
variable (o : OutputConstruction)

def OutputConstruction.addrs : List ScAddr := o.objects.map Prod.fst

/-- The ends of an arc, both of which are known in the memory and have an entry in `mScElementsInfo`. -/
def OutputConstruction.ends (object : ScAddr × ScType) : Option (ScAddr × ScAddr) :=
  if isArcType object.2 then
    match o.arcBegin object.1, o.arcEnd object.1 with
    | some begAddr, some endAddr =>
      if begAddr ∈ o.addrs ∧ endAddr ∈ o.addrs then some (begAddr, endAddr) else none
    | _, _ => none
  else none

/-- `collectScElementsInfo`: the entry of an element. An arc with an end that is not translated is in no list,
and a pointer to such an end is null. -/
def collectScElementsInfo (addr : ScAddr) : Option ScElementInfo :=
  (o.objects.lookup addr).map fun type =>
    let known (a : Option ScAddr) := if isArcType type ∧ (o.arcBegin addr).isSome ∧ (o.arcEnd addr).isSome
      then a.filter (· ∈ o.addrs) else none
    { type := type
      source := known (o.arcBegin addr)
      target := known (o.arcEnd addr)
      outputArcs := (o.objects.filter fun e => (o.ends e).map Prod.fst = some addr).map Prod.fst
      inputArcs := (o.objects.filter fun e => (o.ends e).map Prod.snd = some addr).map Prod.fst }

end

/-- `eSentenceNodeType`. -/
inductive SentenceType where
  | keyword
  | predicate
  | node
  deriving DecidableEq, Repr

/-- `uiSCnSentenceNode`. -/
inductive SentenceNode where
  | mk (type : SentenceType) (element : ScAddr) (childSentences : List SentenceNode)

namespace SentenceNode

def type : SentenceNode → SentenceType
  | ⟨type, _, _⟩ => type

def element : SentenceNode → ScAddr
  | ⟨_, element, _⟩ => element

def childSentences : SentenceNode → List SentenceNode
  | ⟨_, _, childSentences⟩ => childSentences

end SentenceNode

/-- The children that a node gets: for a predicate the other end of its arc, for another one a predicate for
each arc that is not in a tree. A failed assertion is nothing. -/
def createChilds (o : OutputConstruction) (type : SentenceType) (parent : Option ScAddr) (info : ScElementInfo)
    (inSentenceTree : List ScAddr) : Option (List (SentenceType × ScAddr)) :=
  if type = .predicate then
    (if parent = info.target then info.source else info.target).map fun el => [(.node, el)]
  else
    let arcs := (info.outputArcs ++ info.inputArcs).filter fun e => e ∉ inSentenceTree
    if arcs.all fun e => (collectScElementsInfo o e).any fun arc => isArcType arc.type then
      some (arcs.map fun e => (.predicate, e))
    else none

/-- The trees of all children, one after the other. -/
def buildChilds (build : SentenceType → ScAddr → List ScAddr → Option (SentenceNode × List ScAddr)) :
    List (SentenceType × ScAddr) → List ScAddr → Option (List SentenceNode × List ScAddr)
  | [], inSentenceTree => some ([], inSentenceTree)
  | (type, el) :: rest, inSentenceTree =>
    match build type el inSentenceTree with
    | none => none
    | some (child, inSentenceTree) =>
      (buildChilds build rest inSentenceTree).map fun r => (child :: r.1, r.2)

/-- `uiSCnSentenceNode::buildTree`, for a node with this type, element and element of its parent; the flags
`isInSentenceTree` are the list of the elements that have it. -/
def buildTree (o : OutputConstruction) : ℕ → Option ScAddr → SentenceType → ScAddr → List ScAddr →
    Option (SentenceNode × List ScAddr)
  | 0, _, _, _, _ => none
  | n+1, parent, type, el, inSentenceTree =>
    match collectScElementsInfo o el with
    | none => none
    | some info =>
      let inSentenceTree := el :: inSentenceTree
      match createChilds o type parent info inSentenceTree with
      | none => none
      | some childs =>
        (buildChilds (buildTree o n (some el)) childs inSentenceTree).map fun r => (⟨type, el, r.1⟩, r.2)

/-- The trees of `runImpl` for the keywords. -/
def buildSentences (o : OutputConstruction) (n : ℕ) (keywords : List ScAddr) : Option (List SentenceNode) :=
  (buildChilds (buildTree o n none) (keywords.map fun k => (.keyword, k)) []).map Prod.fst

mutual

/-- The predicates of a tree below its root, each with the element of its parent; those of a child are before
those of the node. -/
def SentenceNode.predicates : SentenceNode → List (ScAddr × SentenceNode)
  | ⟨_, el, cs⟩ => predicatesOf cs ++ (cs.filter fun c => c.type = .predicate).map fun c => (el, c)

def predicatesOf : List SentenceNode → List (ScAddr × SentenceNode)
  | [] => []
  | c :: cs => predicatesOf cs ++ c.predicates

end

mutual

/-- The elements that a tree has a node for. -/
def SentenceNode.elements : SentenceNode → List ScAddr
  | ⟨type, el, cs⟩ => (if type = .predicate then [] else [el]) ++ elementsOf cs

def elementsOf : List SentenceNode → List ScAddr
  | [] => []
  | c :: cs => c.elements ++ elementsOf cs

end

/-- The arcs that are shown, as often as they are. -/
def shownArcs (trees : List SentenceNode) : List ScAddr := (predicatesOf trees).map fun q => q.2.element

section
variable (o : OutputConstruction)

/-- The arcs of the construction between its elements. -/
def OutputConstruction.graph : ArcGraph ScAddr where
  arcs := (o.objects.filter fun e => isArcType e.2).map Prod.fst
  source e := (o.arcBegin e).getD ScAddr.empty
  target e := (o.arcEnd e).getD ScAddr.empty

/-- Both ends of every arc belong to the construction. -/
def OutputConstruction.Closed : Prop := ∀ object ∈ o.objects, isArcType object.2 = true →
  ∃ begAddr endAddr, o.arcBegin object.1 = some begAddr ∧ o.arcEnd object.1 = some endAddr ∧
    begAddr ∈ o.addrs ∧ endAddr ∈ o.addrs

end

/-- The predicate is below one end of its arc, and the other end is its only child. -/
def Shows (g : ArcGraph ScAddr) (q : ScAddr × SentenceNode) : Prop :=
  ∃ w, q.2.childSentences = [w] ∧ w.type = .node ∧ g.Joins q.2.element q.1 w.element

section
variable {o : OutputConstruction} {a e v : ScAddr}

theorem lookup_isSome (h : a ∈ o.addrs) : ∃ type, o.objects.lookup a = some type ∧ (a, type) ∈ o.objects := by
  unfold OutputConstruction.addrs at h
  generalize o.objects = l at h
  induction l with
  | nil => cases h
  | cons object l ih =>
    obtain ⟨b, type⟩ := object
    rw [List.lookup_cons]
    by_cases heq : a = b
    · subst heq
      exact ⟨type, by simp, List.mem_cons_self⟩
    · obtain ⟨type', hlookup, hmem⟩ := ih ((List.mem_cons.mp h).resolve_left heq)
      refine ⟨type', ?_, List.mem_cons_of_mem _ hmem⟩
      rw [beq_eq_false_iff_ne.mpr heq]
      exact hlookup

theorem type_unique {type type' : ScType} (h : (a, type) ∈ o.objects) (h' : (a, type') ∈ o.objects) :
    type = type' := by
  have hinj := List.inj_on_of_nodup_map o.nodup h h' rfl
  exact congrArg Prod.snd hinj

theorem mem_graph_arcs : e ∈ o.graph.arcs ↔ ∃ type, (e, type) ∈ o.objects ∧ isArcType type = true := by
  unfold OutputConstruction.graph
  simp only [List.mem_map, List.mem_filter, Prod.exists, exists_and_right, exists_eq_right]

theorem graph_arcs_nodup : o.graph.arcs.Nodup := (List.filter_sublist.map Prod.fst).nodup o.nodup

theorem graph_arcs_sub (h : e ∈ o.graph.arcs) : e ∈ o.addrs := by
  obtain ⟨type, hmem, _⟩ := mem_graph_arcs.mp h
  exact List.mem_map.mpr ⟨_, hmem, rfl⟩

theorem ends_of_closed (hclosed : o.Closed) {object : ScAddr × ScType} (h : object ∈ o.objects)
    (harc : isArcType object.2 = true) :
    o.ends object = some (o.graph.source object.1, o.graph.target object.1) ∧
      o.arcBegin object.1 = some (o.graph.source object.1) ∧ o.arcEnd object.1 = some (o.graph.target object.1) ∧
      o.graph.source object.1 ∈ o.addrs ∧ o.graph.target object.1 ∈ o.addrs := by
  obtain ⟨begAddr, endAddr, hb, he, hbin, hein⟩ := hclosed object h harc
  have hs : o.graph.source object.1 = begAddr := by
    change (o.arcBegin object.1).getD ScAddr.empty = begAddr
    rw [hb, Option.getD_some]
  have ht : o.graph.target object.1 = endAddr := by
    change (o.arcEnd object.1).getD ScAddr.empty = endAddr
    rw [he, Option.getD_some]
  rw [hs, ht]
  refine ⟨?_, hb, he, hbin, hein⟩
  unfold OutputConstruction.ends
  rw [if_pos harc, hb, he]
  exact if_pos ⟨hbin, hein⟩

theorem graph_ends_mem (hclosed : o.Closed) (h : e ∈ o.graph.arcs) {u w : ScAddr} (hjoins : o.graph.Joins e u w) :
    w ∈ o.addrs := by
  obtain ⟨type, hmem, harc⟩ := mem_graph_arcs.mp h
  obtain ⟨_, _, _, hs, ht⟩ := ends_of_closed hclosed hmem harc
  rcases hjoins with ⟨_, rfl⟩ | ⟨rfl, _⟩
  · exact ht
  · exact hs

/-- The arcs of one list of an entry are those of the construction with this end. -/
theorem arcs_of_end (hclosed : o.Closed) (q : ScAddr × ScAddr → ScAddr) (r : ScAddr → ScAddr)
    (hq : ∀ e, q (o.graph.source e, o.graph.target e) = r e) :
    (o.objects.filter fun e => (o.ends e).map q = some a).map Prod.fst =
      o.graph.arcs.filter fun e => r e = a := by
  have harcs : o.graph.arcs = (o.objects.filter fun e => isArcType e.2).map Prod.fst := rfl
  rw [harcs, List.filter_map, List.filter_filter]
  congr 1
  apply List.filter_congr
  intro object hobject
  rw [Bool.eq_iff_iff]
  simp only [Function.comp_apply, decide_eq_true_eq, Bool.and_eq_true]
  by_cases harc : isArcType object.2 = true
  · rw [(ends_of_closed hclosed hobject harc).1, Option.map_some, Option.some.injEq, hq]
    exact (and_iff_left harc).symm
  · have hnone : o.ends object = none := if_neg harc
    rw [hnone]
    exact iff_of_false nofun fun hno => harc hno.2

/-- The entry of an element of the construction. -/
theorem info_of_closed (hclosed : o.Closed) (h : a ∈ o.addrs) :
    ∃ info, collectScElementsInfo o a = some info ∧ (a, info.type) ∈ o.objects ∧
      info.outputArcs ++ info.inputArcs = o.graph.arcsAt a ∧
      (isArcType info.type = true →
        info.source = some (o.graph.source a) ∧ info.target = some (o.graph.target a)) := by
  obtain ⟨type, hlookup, hmem⟩ := lookup_isSome h
  unfold collectScElementsInfo
  rw [hlookup]
  refine ⟨_, rfl, hmem, ?_, fun harc => ?_⟩
  · rw [arcs_of_end hclosed Prod.fst o.graph.source fun _ => rfl,
      arcs_of_end hclosed Prod.snd o.graph.target fun _ => rfl]
    rfl
  · obtain ⟨_, hb, he, hbin, hein⟩ := ends_of_closed hclosed hmem harc
    simp only at harc hb he
    simp only [hb, he, harc, Option.isSome_some, and_self, if_true, Option.filter_some, hbin, hein,
      decide_true]

/-- A node of another kind than a predicate gets the arcs that have no flag. -/
theorem createChilds_node (hclosed : o.Closed) {type : SentenceType} (htype : type ≠ .predicate)
    (parent : Option ScAddr) {info : ScElementInfo} (harcs : info.outputArcs ++ info.inputArcs = o.graph.arcsAt a)
    (marked : List ScAddr) :
    createChilds o type parent info (a :: marked) =
      some ((fresh o.graph a marked).map fun e => (.predicate, e)) := by
  unfold createChilds
  rw [if_neg htype, harcs]
  refine if_pos ?_
  rw [List.all_eq_true]
  intro e he
  have harc := (mem_arcsAt.mp (mem_fresh.mp he).1).1
  obtain ⟨info', hinfo, hmem, _⟩ := info_of_closed hclosed (graph_arcs_sub harc)
  obtain ⟨type', hmem', harc'⟩ := mem_graph_arcs.mp harc
  rw [hinfo, Option.any_some, type_unique hmem hmem']
  exact harc'

/-- A predicate gets the end of its arc that is not its parent. -/
theorem createChilds_predicate {info : ScElementInfo} (hsource : info.source = some (o.graph.source e))
    (htarget : info.target = some (o.graph.target e)) (marked : List ScAddr) :
    createChilds o .predicate (some v) info marked = some [(.node, o.graph.other e v)] := by
  unfold createChilds ArcGraph.other
  rw [if_pos rfl, hsource, htarget]
  simp only [Option.some.injEq]
  split_ifs <;> rfl

/-- What is to be built can be come to. -/
def ChildReached (o : OutputConstruction) (keys : List ScAddr) (parent : Option ScAddr) :
    SentenceType × ScAddr → Prop
  | (.predicate, e) => ∃ v, parent = some v ∧ o.graph.Reached keys v ∧ e ∈ o.graph.arcsAt v
  | (_, el) => o.graph.Reached keys el ∧ el ∈ o.addrs

def stopOf (parent : Option ScAddr) : SentenceType × ScAddr → Stop ScAddr
  | (.predicate, e) => .arc e (parent.getD ScAddr.empty)
  | (_, el) => .element el

/-- What the trees of some children are like, with the flags before and after. -/
structure Grown (o : OutputConstruction) (keys : List ScAddr) (parent : Option ScAddr)
    (childs : List (SentenceType × ScAddr)) (marked : List ScAddr) (trees : List SentenceNode)
    (marked' : List ScAddr) : Prop where
  heads : trees.map (fun c => (c.type, c.element)) = childs
  kept : ∀ e ∈ marked, e ∈ marked'
  unmarked : ∀ e ∈ shownArcs trees, e ∉ marked
  connected : ∀ e ∈ shownArcs trees, o.graph.Connected keys e
  below : ∀ q ∈ predicatesOf trees, Shows o.graph q ∧ q.1 ∈ elementsOf trees ∧
    ∀ w ∈ q.2.childSentences, w.element ∈ elementsOf trees
  own : ∀ c ∈ trees, c.type = .predicate → ∀ v, parent = some v → Shows o.graph (v, c) ∧
    ∀ w ∈ c.childSentences, w.element ∈ elementsOf trees
  roots : ∀ c ∈ trees, c.type ≠ .predicate → c.element ∈ elementsOf trees
  forward : ∀ (rest : List (Stop ScAddr)) (met : List ScAddr), Orderly o.graph (childs.map (stopOf parent) ++ rest) marked met →
    Orderly o.graph rest marked' (shownArcs trees ++ met) ∧ (met.Nodup → (shownArcs trees ++ met).Nodup) ∧
      ∀ v ∈ elementsOf trees, ∀ e ∈ o.graph.arcsAt v, e ∈ shownArcs trees ++ met
  backward : ∀ (rest : List (Stop ScAddr)) (met later : List ScAddr), (∀ e, o.graph.Connected keys e → e ∈ shownArcs trees ∨ e ∈ met ∨ e ∈ later) →
    (∀ e ∈ later, e ∉ marked') → (shownArcs trees ++ met).Nodup →
      Orderly o.graph rest marked' (shownArcs trees ++ met) →
        Orderly o.graph (childs.map (stopOf parent) ++ rest) marked met

theorem shownArcs_cons (c : SentenceNode) (cs : List SentenceNode) :
    shownArcs (c :: cs) = shownArcs cs ++ shownArcs [c] := by
  unfold shownArcs
  rw [← List.map_append]
  congr 1

theorem shownArcs_mk (type : SentenceType) (el : ScAddr) (cs : List SentenceNode) :
    shownArcs [⟨type, el, cs⟩] =
      shownArcs cs ++ (cs.filter fun c => c.type = .predicate).map SentenceNode.element := by
  have hone : predicatesOf [⟨type, el, cs⟩] =
      predicatesOf cs ++ (cs.filter fun c => c.type = .predicate).map fun c => (el, c) := by
    rw [predicatesOf, predicatesOf, List.nil_append, SentenceNode.predicates]
  unfold shownArcs
  rw [hone, List.map_append, List.map_map]
  rfl

theorem elementsOf_cons (c : SentenceNode) (cs : List SentenceNode) :
    elementsOf (c :: cs) = elementsOf [c] ++ elementsOf cs := by
  simp [elementsOf]

/-- Children that are all predicates, with their arcs. -/
theorem heads_predicates {cs : List SentenceNode} {arcs : List ScAddr}
    (h : cs.map (fun c => (c.type, c.element)) = arcs.map fun e => (.predicate, e)) :
    (cs.filter fun c => c.type = .predicate) = cs ∧ cs.map SentenceNode.element = arcs := by
  constructor
  · rw [List.filter_eq_self]
    intro c hc
    have hmem : (c.type, c.element) ∈ arcs.map fun e => (SentenceType.predicate, e) :=
      h ▸ List.mem_map.mpr ⟨c, hc, rfl⟩
    obtain ⟨e, _, he⟩ := List.mem_map.mp hmem
    exact decide_eq_true (congrArg Prod.fst he).symm
  · have hsnd := congrArg (List.map Prod.snd) h
    simpa only [List.map_map, Function.comp_def, List.map_id'] using hsnd

variable {keys marked marked' : List ScAddr} {parent : Option ScAddr}

theorem grown_nil : Grown o keys parent [] marked [] marked where
  heads := rfl
  kept _ he := he
  unmarked := nofun
  connected := nofun
  below := nofun
  own := nofun
  roots := nofun
  forward _ _ h := ⟨h, id, nofun⟩
  backward _ _ _ _ _ _ h := h

/-- The trees of the children one after the other. -/
theorem grown_cons {child : SentenceType × ScAddr} {childs : List (SentenceType × ScAddr)} {c : SentenceNode}
    {cs : List SentenceNode} {marked1 : List ScAddr} (hc : Grown o keys parent [child] marked [c] marked1)
    (hcs : Grown o keys parent childs marked1 cs marked') :
    Grown o keys parent (child :: childs) marked (c :: cs) marked' := by
  have hmem {e : ScAddr} : e ∈ shownArcs (c :: cs) ↔ e ∈ shownArcs cs ∨ e ∈ shownArcs [c] := by
    rw [shownArcs_cons, List.mem_append]
  have hel {e : ScAddr} : e ∈ elementsOf (c :: cs) ↔ e ∈ elementsOf [c] ∨ e ∈ elementsOf cs := by
    rw [elementsOf_cons, List.mem_append]
  constructor
  · rw [List.map_cons, hcs.heads]
    exact congrArg (· :: childs) (List.singleton_inj.mp hc.heads)
  · exact fun e he => hcs.kept e (hc.kept e he)
  · intro e he
    rcases hmem.mp he with he | he
    · exact fun hno => hcs.unmarked e he (hc.kept e hno)
    · exact hc.unmarked e he
  · intro e he
    rcases hmem.mp he with he | he
    · exact hcs.connected e he
    · exact hc.connected e he
  · intro q hq
    rw [predicatesOf, List.mem_append] at hq
    rcases hq with hq | hq
    · obtain ⟨hshows, hp, hw⟩ := hcs.below q hq
      exact ⟨hshows, hel.mpr (Or.inr hp), fun w hmem => hel.mpr (Or.inr (hw w hmem))⟩
    · obtain ⟨hshows, hp, hw⟩ := hc.below q (by rwa [predicatesOf, predicatesOf, List.nil_append])
      exact ⟨hshows, hel.mpr (Or.inl hp), fun w hmem => hel.mpr (Or.inl (hw w hmem))⟩
  · intro c' hc' htype v hv
    rcases List.mem_cons.mp hc' with rfl | hc'
    · obtain ⟨hshows, hw⟩ := hc.own c' List.mem_cons_self htype v hv
      exact ⟨hshows, fun w hmem => hel.mpr (Or.inl (hw w hmem))⟩
    · obtain ⟨hshows, hw⟩ := hcs.own c' hc' htype v hv
      exact ⟨hshows, fun w hmem => hel.mpr (Or.inr (hw w hmem))⟩
  · intro c' hc' htype
    rcases List.mem_cons.mp hc' with rfl | hc'
    · exact hel.mpr (Or.inl (hc.roots c' List.mem_cons_self htype))
    · exact hel.mpr (Or.inr (hcs.roots c' hc' htype))
  · intro rest met horder
    obtain ⟨hnext, hnodup, hall⟩ := hc.forward (childs.map (stopOf parent) ++ rest) met horder
    obtain ⟨hnext', hnodup', hall'⟩ := hcs.forward rest _ hnext
    rw [shownArcs_cons, List.append_assoc]
    refine ⟨hnext', fun hmet => hnodup' (hnodup hmet), fun v hv e he => ?_⟩
    rcases hel.mp hv with hv | hv
    · exact List.mem_append_right _ (hall v hv e he)
    · exact hall' v hv e he
  · intro rest met later hcover hlater hnodup horder
    rw [shownArcs_cons, List.append_assoc] at hnodup horder
    have hnext := hcs.backward rest (shownArcs [c] ++ met) later (fun e he => ?_) hlater hnodup horder
    · refine hc.backward (childs.map (stopOf parent) ++ rest) met (shownArcs cs ++ later) (fun e he => ?_)
        (fun e he => ?_) (List.nodup_append.mp hnodup).2.1 hnext
      · rcases hcover e he with hs | hm | hl
        · rcases hmem.mp hs with hs | hs
          · exact Or.inr (Or.inr (List.mem_append_left _ hs))
          · exact Or.inl hs
        · exact Or.inr (Or.inl hm)
        · exact Or.inr (Or.inr (List.mem_append_right _ hl))
      · rcases List.mem_append.mp he with hs | hl
        · exact hcs.unmarked e hs
        · exact fun hno => hlater e hl (hcs.kept e hno)
    · rcases hcover e he with hs | hm | hl
      · rcases hmem.mp hs with hs | hs
        · exact Or.inl hs
        · exact Or.inr (Or.inl (List.mem_append_left _ hs))
      · exact Or.inr (Or.inl (List.mem_append_right _ hm))
      · exact Or.inr (Or.inr hl)

theorem elementsOf_mk (type : SentenceType) (el : ScAddr) (cs : List SentenceNode) :
    elementsOf [⟨type, el, cs⟩] = (if type = .predicate then [] else [el]) ++ elementsOf cs := by
  rw [elementsOf, elementsOf, List.append_nil, SentenceNode.elements]

theorem predicatesOf_mk (type : SentenceType) (el : ScAddr) (cs : List SentenceNode) :
    predicatesOf [⟨type, el, cs⟩] =
      predicatesOf cs ++ (cs.filter fun c => c.type = .predicate).map fun c => (el, c) := by
  rw [predicatesOf, predicatesOf, List.nil_append, SentenceNode.predicates]

/-- The tree of an element, from those of its predicates. -/
theorem grown_node {type : SentenceType} {cs : List SentenceNode} (htype : type ≠ .predicate)
    (hreached : o.graph.Reached keys a)
    (hcs : Grown o keys (some a) ((fresh o.graph a marked).map fun e => (.predicate, e)) (a :: marked) cs marked') :
    Grown o keys parent [(type, a)] marked [⟨type, a, cs⟩] marked' := by
  obtain ⟨hfilter, helements⟩ := heads_predicates hcs.heads
  have hshown : shownArcs [⟨type, a, cs⟩] = shownArcs cs ++ fresh o.graph a marked := by
    rw [shownArcs_mk, hfilter, helements]
  have hels : elementsOf [⟨type, a, cs⟩] = a :: elementsOf cs := by
    rw [elementsOf_mk, if_neg htype]
    rfl
  have hstop : stopOf parent (type, a) = .element a := by
    cases type with
    | keyword => rfl
    | predicate => exact absurd rfl htype
    | node => rfl
  have hstops : ((fresh o.graph a marked).map fun e => (SentenceType.predicate, e)).map (stopOf (some a)) =
      (fresh o.graph a marked).map (Stop.arc · a) := by
    rw [List.map_map]
    rfl
  have hpredicate {c : SentenceNode} (hc : c ∈ cs) : c.type = .predicate :=
    of_decide_eq_true (List.filter_eq_self.mp hfilter c hc)
  constructor
  · rfl
  · exact fun e he => hcs.kept e (List.mem_cons_of_mem _ he)
  · rw [hshown]
    intro e he hno
    rcases List.mem_append.mp he with he | he
    · exact hcs.unmarked e he (List.mem_cons_of_mem _ hno)
    · exact (mem_fresh.mp he).2 (List.mem_cons_of_mem _ hno)
  · rw [hshown]
    intro e he
    rcases List.mem_append.mp he with he | he
    · exact hcs.connected e he
    · exact connected_of_arcsAt hreached (mem_fresh.mp he).1
  · rw [predicatesOf_mk, hfilter, hels]
    intro q hq
    rcases List.mem_append.mp hq with hq | hq
    · obtain ⟨hshows, hp, hw⟩ := hcs.below q hq
      exact ⟨hshows, List.mem_cons_of_mem _ hp, fun w hmem => List.mem_cons_of_mem _ (hw w hmem)⟩
    · obtain ⟨c, hc, rfl⟩ := List.mem_map.mp hq
      obtain ⟨hshows, hw⟩ := hcs.own c hc (hpredicate hc) a rfl
      exact ⟨hshows, List.mem_cons_self, fun w hmem => List.mem_cons_of_mem _ (hw w hmem)⟩
  · intro c hc hpred
    obtain rfl := List.mem_singleton.mp hc
    exact absurd hpred htype
  · intro c hc _
    obtain rfl := List.mem_singleton.mp hc
    rw [hels]
    exact List.mem_cons_self
  · intro rest met horder
    rw [List.map_singleton, hstop, List.singleton_append, orderly_element_iff] at horder
    obtain ⟨hin, hnext⟩ := horder
    rw [← hstops] at hnext
    obtain ⟨hnext', hnodup, hall⟩ := hcs.forward rest _ hnext
    rw [hshown, hels, List.append_assoc]
    refine ⟨hnext', fun hmet => hnodup (List.Nodup.append hin.once hmet ?_), ?_⟩
    · exact fun e he hno => (mem_fresh.mp he).2 ((hin.marked_iff e (mem_fresh.mp he).1).mpr hno)
    · intro v hv e he
      rcases List.mem_cons.mp hv with rfl | hv
      · by_cases hmarked : e ∈ v :: marked
        · exact List.mem_append_right _ (List.mem_append_right _ ((hin.marked_iff e he).mp hmarked))
        · exact List.mem_append_right _ (List.mem_append_left _ (mem_fresh.mpr ⟨he, hmarked⟩))
      · exact hall v hv e he
  · intro rest met later hcover hlater hnodup horder
    rw [hshown, List.append_assoc] at hnodup horder
    rw [List.map_singleton, hstop, List.singleton_append, orderly_element_iff, ← hstops]
    have hcover' (e : ScAddr) (he : o.graph.Connected keys e) :
        e ∈ shownArcs cs ∨ e ∈ fresh o.graph a marked ++ met ∨ e ∈ later := by
      rcases hcover e he with hs | hm | hl
      · rw [hshown] at hs
        rcases List.mem_append.mp hs with hs | hf
        · exact Or.inl hs
        · exact Or.inr (Or.inl (List.mem_append_left _ hf))
      · exact Or.inr (Or.inl (List.mem_append_right _ hm))
      · exact Or.inr (Or.inr hl)
    have hsplit := List.nodup_append.mp (List.nodup_append.mp hnodup).2.1
    refine ⟨⟨fun e he => ⟨fun hmarked => ?_, fun hmet => ?_⟩, hsplit.1⟩, ?_⟩
    · -- what has the flag is not shown any more
      rcases hcover' e (connected_of_arcsAt hreached he) with hs | hm | hl
      · exact absurd hmarked (hcs.unmarked e hs)
      · rcases List.mem_append.mp hm with hf | hm
        · exact absurd hmarked (mem_fresh.mp hf).2
        · exact hm
      · exact absurd (hcs.kept e hmarked) (hlater e hl)
    · by_contra hmarked
      exact hsplit.2.2 e (mem_fresh.mpr ⟨he, hmarked⟩) e hmet rfl
    · exact hcs.backward rest _ later hcover' hlater hnodup horder

/-- The tree of a predicate, from that of the other end of its arc. -/
theorem grown_predicate {cs : List SentenceNode} (he : e ∈ o.graph.arcsAt v)
    (hcs : Grown o keys (some e) [(.node, o.graph.other e v)] (e :: marked) cs marked') :
    Grown o keys (some v) [(.predicate, e)] marked [⟨.predicate, e, cs⟩] marked' := by
  obtain ⟨w, rfl⟩ : ∃ w, cs = [w] := by
    have hlength := congrArg List.length hcs.heads
    rw [List.length_map] at hlength
    exact List.length_eq_one_iff.mp hlength
  obtain ⟨hwtype, hwel⟩ := Prod.mk.inj (List.singleton_inj.mp hcs.heads)
  have hnot : ¬ w.type = .predicate := by
    rw [hwtype]
    decide
  have hfilter : ([w].filter fun c => c.type = .predicate) = [] := List.filter_singleton.trans (by simp [hnot])
  have hshown : shownArcs [⟨.predicate, e, [w]⟩] = shownArcs [w] := by
    rw [shownArcs_mk, hfilter, List.map_nil, List.append_nil]
  have hpredicates : predicatesOf [⟨.predicate, e, [w]⟩] = predicatesOf [w] := by
    rw [predicatesOf_mk, hfilter, List.map_nil, List.append_nil]
  have hels : elementsOf [⟨.predicate, e, [w]⟩] = elementsOf [w] := by
    rw [elementsOf_mk, if_pos rfl, List.nil_append]
  have hstops : [(SentenceType.node, o.graph.other e v)].map (stopOf (some e)) =
      [.element (o.graph.other e v)] := rfl
  constructor
  · rfl
  · exact fun f hf => hcs.kept f (List.mem_cons_of_mem _ hf)
  · rw [hshown]
    exact fun f hf hno => hcs.unmarked f hf (List.mem_cons_of_mem _ hno)
  · rw [hshown]
    exact hcs.connected
  · rw [hpredicates, hels]
    exact hcs.below
  · intro c hc _ u hu
    obtain rfl := List.mem_singleton.mp hc
    obtain rfl := Option.some.inj hu
    refine ⟨⟨w, rfl, hwtype, hwel ▸ joins_other he⟩, fun w' hw' => ?_⟩
    obtain rfl := List.mem_singleton.mp hw'
    rw [hels]
    exact hcs.roots w' List.mem_cons_self hnot
  · intro c hc hno
    obtain rfl := List.mem_singleton.mp hc
    exact absurd rfl hno
  · intro rest met horder
    rw [hshown, hels]
    apply hcs.forward rest met
    rw [hstops]
    exact orderly_arc_iff.mp horder
  · intro rest met later hcover hlater hnodup horder
    rw [hshown] at hcover hnodup horder
    have hnext := hcs.backward rest met later hcover hlater hnodup horder
    rw [hstops] at hnext
    exact orderly_arc_iff.mpr hnext

theorem childReached_fresh {a : ScAddr} (hreached : o.graph.Reached keys a) (marked : List ScAddr)
    {c : SentenceType × ScAddr} (hc : c ∈ (fresh o.graph a marked).map fun e => (.predicate, e)) :
    ChildReached o keys (some a) c := by
  obtain ⟨e, he, rfl⟩ := List.mem_map.mp hc
  exact ⟨a, rfl, hreached, (mem_fresh.mp he).1⟩

theorem childReached_other (hclosed : o.Closed) (hreached : o.graph.Reached keys v)
    (he : e ∈ o.graph.arcsAt v) : ChildReached o keys (some e) (.node, o.graph.other e v) := by
  have harc := (mem_arcsAt.mp he).1
  exact ⟨reached_of_joins hreached harc (joins_other he), graph_ends_mem hclosed harc (joins_other he)⟩

/-- What a node builds for its children, whatever its type. -/
theorem buildTree_succ (hclosed : o.Closed) (n : ℕ) {child : SentenceType × ScAddr}
    (hchild : ChildReached o keys parent child) (marked : List ScAddr) :
    (child.1 ≠ .predicate ∧ o.graph.Reached keys child.2 ∧
      buildTree o (n+1) parent child.1 child.2 marked =
        (buildChilds (buildTree o n (some child.2)) ((fresh o.graph child.2 marked).map fun e => (.predicate, e))
          (child.2 :: marked)).map fun r => (⟨child.1, child.2, r.1⟩, r.2)) ∨
    (child.1 = .predicate ∧ ∃ v, parent = some v ∧ o.graph.Reached keys v ∧ child.2 ∈ o.graph.arcsAt v ∧
      buildTree o (n+1) parent child.1 child.2 marked =
        (buildChilds (buildTree o n (some child.2)) [(.node, o.graph.other child.2 v)]
          (child.2 :: marked)).map fun r => (⟨child.1, child.2, r.1⟩, r.2)) := by
  obtain ⟨type, el⟩ := child
  have helement (htype : type ≠ .predicate) (hreached : o.graph.Reached keys el) (hel : el ∈ o.addrs) :
      buildTree o (n+1) parent type el marked =
        (buildChilds (buildTree o n (some el)) ((fresh o.graph el marked).map fun e => (.predicate, e))
          (el :: marked)).map fun r => (⟨type, el, r.1⟩, r.2) := by
    obtain ⟨info, hinfo, _, harcs, _⟩ := info_of_closed hclosed hel
    rw [buildTree, hinfo]
    dsimp only
    rw [createChilds_node hclosed htype parent harcs marked]
  cases type with
  | keyword => exact Or.inl ⟨nofun, hchild.1, helement nofun hchild.1 hchild.2⟩
  | node => exact Or.inl ⟨nofun, hchild.1, helement nofun hchild.1 hchild.2⟩
  | predicate =>
    obtain ⟨v, rfl, hreached, hat⟩ := hchild
    refine Or.inr ⟨rfl, v, rfl, hreached, hat, ?_⟩
    have harc := (mem_arcsAt.mp hat).1
    obtain ⟨info, hinfo, hmem, _, hends⟩ := info_of_closed hclosed (graph_arcs_sub harc)
    obtain ⟨type', hmem', harc'⟩ := mem_graph_arcs.mp harc
    obtain ⟨hsource, htarget⟩ := hends (type_unique hmem hmem' ▸ harc')
    rw [buildTree, hinfo]
    dsimp only
    rw [createChilds_predicate hsource htarget]

/-- The trees are as described, whenever they are built. -/
theorem grown_of_build (hclosed : o.Closed) (n : ℕ) (parent : Option ScAddr)
    (childs : List (SentenceType × ScAddr)) (marked : List ScAddr) (trees : List SentenceNode)
    (marked' : List ScAddr) (hchilds : ∀ c ∈ childs, ChildReached o keys parent c)
    (hbuild : buildChilds (buildTree o n parent) childs marked = some (trees, marked')) :
    Grown o keys parent childs marked trees marked' := by
  induction n generalizing parent childs marked trees marked' with
  | zero =>
    cases childs with
    | nil =>
      cases hbuild
      exact grown_nil
    | cons c childs => cases hbuild
  | succ n ih =>
    induction childs generalizing marked trees with
    | nil =>
      cases hbuild
      exact grown_nil
    | cons child childs ihchilds =>
      have hchild := hchilds child List.mem_cons_self
      unfold buildChilds at hbuild
      cases htree : buildTree o (n+1) parent child.1 child.2 marked with
      | none =>
        rw [htree] at hbuild
        cases hbuild
      | some r =>
        rw [htree] at hbuild
        obtain ⟨⟨cs, _⟩, hrest, hpair⟩ := Option.map_eq_some_iff.mp hbuild
        cases hpair
        refine grown_cons ?_ (ihchilds r.2 cs (fun c hc => hchilds c (List.mem_cons_of_mem _ hc)) hrest)
        rcases buildTree_succ hclosed n hchild marked with ⟨htype, hreached, heq⟩ | ⟨htype, v, rfl, hreached, hat, heq⟩
        · rw [heq] at htree
          obtain ⟨⟨cs', marked1⟩, hcs, rfl⟩ := Option.map_eq_some_iff.mp htree
          exact grown_node htype hreached
            (ih _ _ _ _ _ (fun c hc => childReached_fresh hreached marked hc) hcs)
        · rw [heq] at htree
          obtain ⟨⟨cs', marked1⟩, hcs, rfl⟩ := Option.map_eq_some_iff.mp htree
          obtain ⟨type, el⟩ := child
          obtain rfl : type = .predicate := htype
          refine grown_predicate hat (ih _ _ _ _ _ (fun c hc => ?_) hcs)
          obtain rfl := List.mem_singleton.mp hc
          exact childReached_other hclosed hreached hat

/-- The depth that the tree of a child may have. -/
def depthOf (o : OutputConstruction) (marked : List ScAddr) : SentenceType × ScAddr → ℕ
  | (.predicate, e) => 2*unmet o.graph (e :: marked)+2
  | _ => 2*unmet o.graph marked+1

theorem unmet_anti {g : ArcGraph ScAddr} (h : ∀ e ∈ marked, e ∈ marked') : unmet g marked' ≤ unmet g marked := by
  unfold unmet
  apply Finset.card_le_card
  intro e he
  rw [Finset.mem_sdiff, List.mem_toFinset] at he ⊢
  exact ⟨he.1, fun hno => he.2 (List.mem_toFinset.mpr (h e (List.mem_toFinset.mp hno)))⟩

theorem unmet_cons {g : ArcGraph ScAddr} (harc : e ∈ g.arcs) (hnew : e ∉ marked) :
    unmet g (e :: marked)+1 = unmet g marked := by
  have happend := @unmet_append _ _ g [e] marked (List.nodup_singleton e)
    (fun f hf => List.mem_singleton.mp hf ▸ harc) (fun f hf => List.mem_singleton.mp hf ▸ hnew)
  exact happend

theorem depthOf_anti (h : ∀ e ∈ marked, e ∈ marked') (child : SentenceType × ScAddr) :
    depthOf o marked' child ≤ depthOf o marked child := by
  have hless := @unmet_anti marked marked' o.graph h
  obtain ⟨type, el⟩ := child
  cases type with
  | keyword => exact Nat.succ_le_succ (Nat.mul_le_mul_left 2 hless)
  | node => exact Nat.succ_le_succ (Nat.mul_le_mul_left 2 hless)
  | predicate =>
    have hcons := @unmet_anti (el :: marked) (el :: marked') o.graph fun f hf => by
      rcases List.mem_cons.mp hf with rfl | hf
      · exact List.mem_cons_self
      · exact List.mem_cons_of_mem _ (h f hf)
    exact Nat.add_le_add_right (Nat.mul_le_mul_left 2 hcons) 2

/-- The building comes to its end: an arc without the flag gets it below the predicate made for it. -/
theorem build_returns (hclosed : o.Closed) (n : ℕ) (parent : Option ScAddr)
    (childs : List (SentenceType × ScAddr)) (marked : List ScAddr)
    (hchilds : ∀ c ∈ childs, ChildReached o keys parent c) (hn : ∀ c ∈ childs, depthOf o marked c ≤ n) :
    ∃ r, buildChilds (buildTree o n parent) childs marked = some r := by
  induction n generalizing parent childs marked with
  | zero =>
    cases childs with
    | nil => exact ⟨_, rfl⟩
    | cons c childs =>
      have hno := hn c List.mem_cons_self
      obtain ⟨type, el⟩ := c
      cases type <;> exact absurd hno (Nat.not_succ_le_zero _)
  | succ n ih =>
    induction childs generalizing marked with
    | nil => exact ⟨_, rfl⟩
    | cons child childs ihchilds =>
      have hchild := hchilds child List.mem_cons_self
      have hdepth := hn child List.mem_cons_self
      have htree : ∃ r, buildTree o (n+1) parent child.1 child.2 marked = some r := by
        obtain ⟨type, el⟩ := child
        rcases buildTree_succ hclosed n hchild marked with ⟨htype, hreached, heq⟩ | ⟨htype, v, rfl, hreached, hat, heq⟩
        · have hless : 2*unmet o.graph marked+1 ≤ n+1 := by
            cases type with
            | keyword => exact hdepth
            | node => exact hdepth
            | predicate => exact absurd rfl htype
          obtain ⟨r, hr⟩ := ih (some el) ((fresh o.graph el marked).map fun e => (.predicate, e)) (el :: marked)
            (fun c hc => childReached_fresh hreached marked hc) (fun c hc => by
              obtain ⟨e, he, rfl⟩ := List.mem_map.mp hc
              have hcons := unmet_cons (mem_arcsAt.mp (mem_fresh.mp he).1).1 (mem_fresh.mp he).2
              have hanti := @unmet_anti marked (el :: marked) o.graph fun f hf => List.mem_cons_of_mem _ hf
              have hgoal : depthOf o (el :: marked) (.predicate, e) = 2*unmet o.graph (e :: el :: marked)+2 := rfl
              omega)
          exact ⟨_, heq.trans (by rw [hr]; rfl)⟩
        · obtain rfl : type = .predicate := htype
          obtain ⟨r, hr⟩ := ih (some el) [(.node, o.graph.other el v)] (el :: marked)
            (fun c hc => List.mem_singleton.mp hc ▸ childReached_other hclosed hreached hat) (fun c hc => by
              obtain rfl := List.mem_singleton.mp hc
              have hold : depthOf o marked (.predicate, el) = 2*unmet o.graph (el :: marked)+2 := rfl
              have hgoal : depthOf o (el :: marked) (.node, o.graph.other el v) =
                2*unmet o.graph (el :: marked)+1 := rfl
              omega)
          exact ⟨_, heq.trans (by rw [hr]; rfl)⟩
      obtain ⟨⟨tree, marked1⟩, htree⟩ := htree
      have hone : buildChilds (buildTree o (n+1) parent) [child] marked = some ([tree], marked1) := by
        unfold buildChilds
        rw [htree]
        rfl
      have hgrown := @grown_of_build o keys hclosed (n+1) parent [child] marked [tree] marked1
        (fun c hc => List.mem_singleton.mp hc ▸ hchild) hone
      obtain ⟨r, hr⟩ := ihchilds marked1 (fun c hc => hchilds c (List.mem_cons_of_mem _ hc))
        (fun c hc => (depthOf_anti hgrown.kept c).trans (hn c (List.mem_cons_of_mem _ hc)))
      unfold buildChilds
      rw [htree]
      dsimp only
      rw [hr]
      exact ⟨_, rfl⟩

theorem buildChilds_mono {f f' : SentenceType → ScAddr → List ScAddr → Option (SentenceNode × List ScAddr)}
    (h : ∀ type el marked r, f type el marked = some r → f' type el marked = some r)
    (childs : List (SentenceType × ScAddr)) (marked : List ScAddr) {r : List SentenceNode × List ScAddr}
    (hr : buildChilds f childs marked = some r) : buildChilds f' childs marked = some r := by
  induction childs generalizing marked r with
  | nil => exact hr
  | cons child childs ih =>
    unfold buildChilds at hr ⊢
    cases htree : f child.1 child.2 marked with
    | none =>
      rw [htree] at hr
      cases hr
    | some c =>
      rw [htree] at hr
      obtain ⟨cs, hcs, rfl⟩ := Option.map_eq_some_iff.mp hr
      rw [h _ _ _ _ htree]
      dsimp only
      rw [ih _ hcs]
      rfl

/-- More room changes nothing. -/
theorem buildTree_mono (n k : ℕ) (parent : Option ScAddr) (type : SentenceType) (el : ScAddr)
    (marked : List ScAddr) (r : SentenceNode × List ScAddr) (h : buildTree o n parent type el marked = some r) :
    buildTree o (n+k) parent type el marked = some r := by
  induction n generalizing parent type el marked r with
  | zero => cases h
  | succ n ih =>
    rw [Nat.succ_add]
    unfold buildTree at h ⊢
    cases hinfo : collectScElementsInfo o el with
    | none =>
      rw [hinfo] at h
      cases h
    | some info =>
      rw [hinfo] at h
      dsimp only at h ⊢
      cases hcreate : createChilds o type parent info (el :: marked) with
      | none =>
        rw [hcreate] at h
        cases h
      | some childs =>
        rw [hcreate] at h
        obtain ⟨r', hr', rfl⟩ := Option.map_eq_some_iff.mp h
        dsimp only
        rw [buildChilds_mono (fun type el marked r => ih (some _) type el marked r) childs _ hr']
        rfl

theorem joins_unique {g : ArcGraph ScAddr} {u w p c : ScAddr} (h : g.Joins e u w) (h' : g.Joins e p c) :
    w = p ∨ w = c := by
  rcases h with ⟨_, rfl⟩ | ⟨rfl, _⟩ <;> rcases h' with ⟨rfl, rfl⟩ | ⟨rfl, rfl⟩
  · exact Or.inr rfl
  · exact Or.inl rfl
  · exact Or.inl rfl
  · exact Or.inr rfl

/-- The trees of the keywords have a node for everything that can be come to, when all arcs at their elements
are shown. -/
theorem elements_of_reached {trees : List SentenceNode}
    (h : Grown o keys none (keys.map fun k => (.keyword, k)) marked trees marked')
    (hall : ∀ v ∈ elementsOf trees, ∀ e ∈ o.graph.arcsAt v, e ∈ shownArcs trees) (hv : o.graph.Reached keys v) :
    v ∈ elementsOf trees := by
  obtain ⟨k, hk, hlinked⟩ := hv
  induction hlinked with
  | refl =>
    have hmem : (SentenceType.keyword, k) ∈ trees.map fun c => (c.type, c.element) := by
      rw [h.heads]
      exact List.mem_map.mpr ⟨k, hk, rfl⟩
    obtain ⟨c, hc, hpair⟩ := List.mem_map.mp hmem
    obtain ⟨htype, rfl⟩ := Prod.mk.inj hpair
    exact h.roots c hc (by rw [htype]; decide)
  | tail _ hstep ih =>
    obtain ⟨e, harc, _, hjoins⟩ := hstep
    obtain ⟨q, hq, rfl⟩ := List.mem_map.mp (hall _ ih e (mem_arcsAt_of_joins harc hjoins))
    obtain ⟨⟨w, hchilds, _, hends⟩, hparent, hchild⟩ := h.below q hq
    rcases joins_unique hjoins hends with rfl | rfl
    · exact hparent
    · exact hchild w (hchilds ▸ List.mem_cons_self)

/-- The trees are built, every arc that can be come to from a keyword is a predicate once in all of them
together, below one of its ends and with the other one as its child, and no other arc is there. -/
def ShowsArcsOnce (o : OutputConstruction) (keywords : List ScAddr) : Prop :=
  ∃ trees n0, (∀ n, n0 ≤ n → buildSentences o n keywords = some trees) ∧
    (∀ q ∈ predicatesOf trees, Shows o.graph q) ∧
    (∀ e ∈ shownArcs trees, o.graph.Connected keywords e) ∧
    ∀ e, o.graph.Connected keywords e → (shownArcs trees).count e = 1

/-- The trees are always built, with the right ends and with no other arcs. Each arc is there once exactly when
the walk from the keywords comes to every element in order; where no arc that it comes to is an end of one or a
keyword, exactly when none of them lies on a cycle. -/
theorem shows_arcs_once_iff (o : OutputConstruction) (hclosed : o.Closed) (keywords : List ScAddr)
    (hkeys : ∀ k ∈ keywords, k ∈ o.addrs) :
    (∃ trees n0, (∀ n, n0 ≤ n → buildSentences o n keywords = some trees) ∧
      (∀ q ∈ predicatesOf trees, Shows o.graph q) ∧ ∀ e ∈ shownArcs trees, o.graph.Connected keywords e) ∧
    (ShowsArcsOnce o keywords ↔ Orderly o.graph (keywords.map .element) [] []) ∧
    ((∀ e, o.graph.Connected keywords e → ¬ o.graph.Reached keywords e) →
      (ShowsArcsOnce o keywords ↔ o.graph.NoCycle keywords)) := by
  have hchilds : ∀ c ∈ keywords.map fun k => (SentenceType.keyword, k), ChildReached o keywords none c := by
    intro c hc
    obtain ⟨k, hk, rfl⟩ := List.mem_map.mp hc
    exact ⟨⟨k, hk, Relation.ReflTransGen.refl⟩, hkeys k hk⟩
  have hdepth : ∀ c ∈ keywords.map fun k => (SentenceType.keyword, k),
      depthOf o [] c ≤ 2*unmet o.graph []+1 := by
    intro c hc
    obtain ⟨k, _, rfl⟩ := List.mem_map.mp hc
    exact le_rfl
  obtain ⟨⟨trees, marked⟩, hbuild⟩ := build_returns hclosed _ none _ [] hchilds hdepth
  have hgrown := grown_of_build hclosed _ none _ [] trees marked hchilds hbuild
  have hbuilds (n : ℕ) (hn : 2*unmet o.graph []+1 ≤ n) : buildSentences o n keywords = some trees := by
    obtain ⟨k, rfl⟩ := Nat.exists_eq_add_of_le hn
    unfold buildSentences
    rw [buildChilds_mono (fun type el m r => buildTree_mono _ k none type el m r) _ [] hbuild]
    rfl
  have hshape (q : ScAddr × SentenceNode) (hq : q ∈ predicatesOf trees) : Shows o.graph q :=
    (hgrown.below q hq).1
  have hstops : (keywords.map fun k => (SentenceType.keyword, k)).map (stopOf none) = keywords.map .element := by
    rw [List.map_map]
    rfl
  have honce : ShowsArcsOnce o keywords ↔ Orderly o.graph (keywords.map .element) [] [] := by
    constructor
    · rintro ⟨trees', n0, hbuilds', _, _, hcount⟩
      obtain rfl : trees' = trees := by
        have hn := hbuilds' (n0+(2*unmet o.graph []+1)) (Nat.le_add_right _ _)
        rw [hbuilds _ (Nat.le_add_left _ _)] at hn
        exact (Option.some.inj hn).symm
      have hnodup : (shownArcs trees' ++ []).Nodup := by
        rw [List.append_nil, List.nodup_iff_count_le_one]
        intro e
        by_cases he : e ∈ shownArcs trees'
        · exact (hcount e (hgrown.connected e he)).le
        · rw [List.count_eq_zero_of_not_mem he]
          exact Nat.zero_le 1
      have hback := hgrown.backward [] [] [] (fun e he => Or.inl ?_) nofun hnodup (Orderly.done _ _)
      · rwa [hstops, List.append_nil] at hback
      · exact List.count_pos_iff.mp (by rw [hcount e he]; exact Nat.one_pos)
    · intro horder
      rw [← hstops, ← List.append_nil (List.map _ _)] at horder
      obtain ⟨_, hnodup, hall⟩ := hgrown.forward [] [] horder
      rw [List.append_nil] at hnodup hall
      refine ⟨trees, _, hbuilds, hshape, hgrown.connected, fun e he => ?_⟩
      have hin := hall _ (elements_of_reached hgrown hall he.2) e (mem_arcsAt.mpr ⟨he.1, Or.inl rfl⟩)
      exact List.count_eq_one_of_mem (hnodup List.nodup_nil) hin
  exact ⟨⟨trees, _, hbuilds, hshape, hgrown.connected⟩, honce,
    fun hapart => honce.trans (orderly_iff_noCycle graph_arcs_nodup hapart)⟩

end

/-- A node with an arc to another one. -/
def arcConstruction : OutputConstruction where
  objects := [(⟨0, 1⟩, scTypeNode), (⟨0, 2⟩, scTypeNode), (⟨0, 3⟩, scTypeArcCommon)]
  arcBegin e := if e = ⟨0, 3⟩ then some ⟨0, 1⟩ else none
  arcEnd e := if e = ⟨0, 3⟩ then some ⟨0, 2⟩ else none
  nodup := by decide

theorem arcConstruction_closed : arcConstruction.Closed := by
  intro object hobject harc
  simp only [arcConstruction, List.mem_cons, List.not_mem_nil, or_false] at hobject
  rcases hobject with rfl | rfl | rfl
  · exact absurd harc (by decide)
  · exact absurd harc (by decide)
  · exact ⟨⟨0, 1⟩, ⟨0, 2⟩, rfl, rfl, by decide, by decide⟩

theorem shows_arcs_once_arc :
    (∃ trees n0, (∀ n, n0 ≤ n → buildSentences arcConstruction n [⟨0, 1⟩] = some trees) ∧
      (∀ q ∈ predicatesOf trees, Shows arcConstruction.graph q) ∧
        ∀ e ∈ shownArcs trees, arcConstruction.graph.Connected [⟨0, 1⟩] e) ∧
    (ShowsArcsOnce arcConstruction [⟨0, 1⟩] ↔
      Orderly arcConstruction.graph ([(⟨0, 1⟩ : ScAddr)].map .element) [] []) ∧
    ((∀ e, arcConstruction.graph.Connected [⟨0, 1⟩] e → ¬ arcConstruction.graph.Reached [⟨0, 1⟩] e) →
      (ShowsArcsOnce arcConstruction [⟨0, 1⟩] ↔ arcConstruction.graph.NoCycle [⟨0, 1⟩])) :=
  shows_arcs_once_iff arcConstruction arcConstruction_closed [⟨0, 1⟩] (by decide)

/-- A node with an arc to itself. -/
def loopConstruction : OutputConstruction where
  objects := [(⟨0, 1⟩, scTypeNode), (⟨0, 2⟩, scTypeArcCommon)]
  arcBegin e := if e = ⟨0, 2⟩ then some ⟨0, 1⟩ else none
  arcEnd e := if e = ⟨0, 2⟩ then some ⟨0, 1⟩ else none
  nodup := by decide

/-- The loop is an outgoing arc and an incoming one, and both times it has no flag. -/
theorem loop_shown_twice : loopConstruction.Closed ∧ ¬ ShowsArcsOnce loopConstruction [⟨0, 1⟩] := by
  refine ⟨?_, ?_⟩
  · intro object hobject harc
    simp only [loopConstruction, List.mem_cons, List.not_mem_nil, or_false] at hobject
    rcases hobject with rfl | rfl
    · exact absurd harc (by decide)
    · exact ⟨⟨0, 1⟩, ⟨0, 1⟩, rfl, rfl, by decide, by decide⟩
  · rintro ⟨trees, n0, hbuilds, _, _, hcount⟩
    have hshown : (buildSentences loopConstruction 4 [⟨0, 1⟩]).map shownArcs = some [⟨0, 2⟩, ⟨0, 2⟩] := by
      decide +kernel
    obtain ⟨trees', htrees', htwice⟩ := Option.map_eq_some_iff.mp hshown
    have hmore : buildSentences loopConstruction (4+n0) [⟨0, 1⟩] = some trees' := by
      unfold buildSentences at htrees' ⊢
      obtain ⟨r, hr, rfl⟩ := Option.map_eq_some_iff.mp htrees'
      rw [buildChilds_mono (fun type el m r => buildTree_mono 4 n0 none type el m r) _ [] hr]
      rfl
    rw [hbuilds _ (Nat.le_add_left _ _)] at hmore
    cases hmore
    have hone := hcount ⟨0, 2⟩ ⟨by decide, ⟨0, 1⟩, List.mem_cons_self, Relation.ReflTransGen.refl⟩
    rw [htwice] at hone
    exact absurd hone (by decide)

end ScMachine.SCn
