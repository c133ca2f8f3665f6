import ScMachine.TypeStatements

/-! Runs of the parser functions that the rules of `scs.g4` call, and what each call keeps: elements
and triples are only added, and a name leads to the element that bears it. -/
namespace ScMachine.Scs
open ScMachine.Store ScMachine.StateExcept ScMachine.Runs

/-- A call of one of the functions, with the handle that it returned. -/
inductive ParserEvent where
  | identifier (name : String) (h : ElementHandle)
  | identifierLevel1 (type name : String) (h : ElementHandle)
  | connector (connector : String) (h : ElementHandle)
  | content (content : String) (isVar : Bool) (h : ElementHandle)
  | fileURL (fileURL : String) (h : ElementHandle)
  | triple (source edge target : ElementHandle)
  | assign (name : String) (value : ElementHandle)
  | contourBegin (h : ElementHandle)
  | contourEnd (h : ElementHandle)

def ParserEvent.call (debug : Bool) : ParserEvent → ParserM (Option ElementHandle)
  | .identifier name _ => some <$> processIdentifier debug name
  | .identifierLevel1 type name _ => some <$> processIdentifierLevel1 debug type name
  | .connector c _ => some <$> processConnector debug c
  | .content text isVar _ => some <$> processContent debug text isVar
  | .fileURL url _ => some <$> processFileURL debug url
  | .triple source edge target => do
    processTriple debug source edge target
    pure none
  | .assign name value => do
    processAssign name value
    pure none
  | .contourBegin _ => some <$> processContourBegin debug
  | .contourEnd h => do
    processContourEnd debug h
    pure none

def ParserEvent.result : ParserEvent → Option ElementHandle
  | .identifier _ h | .identifierLevel1 _ _ h | .connector _ h | .content _ _ h | .fileURL _ h
  | .contourBegin h => some h
  | .triple _ _ _ | .assign _ _ | .contourEnd _ => none

/-- The call returns with the handle of the event. -/
def ParserStep (debug : Bool) (p : Parser) (ev : ParserEvent) (p' : Parser) : Prop :=
  ev.call debug p = .ok (ev.result, p')

/-- Calls between which every contour that begins also ends. -/
inductive Nested : List ParserEvent → Prop where
  | nil : Nested []
  | call (ev : ParserEvent) (evs : List ParserEvent) (hbegin : ∀ h, ev ≠ .contourBegin h)
      (hend : ∀ h, ev ≠ .contourEnd h) (hevs : Nested evs) : Nested (ev :: evs)
  | contour (h : ElementHandle) (body evs : List ParserEvent) (hbody : Nested body)
      (hevs : Nested evs) : Nested (.contourBegin h :: (body ++ .contourEnd h :: evs))

def edgeIdtf (n : ℕ) : String := "..edge_" ++ Nat.repr n

theorem repr_injective : Function.Injective Nat.repr := by
  intro m n h
  have hdigits : Nat.toDigits 10 m = Nat.toDigits 10 n := by
    rw [← Nat.toList_repr, ← Nat.toList_repr, h]
  rw [← @Nat.ofDigitChars_ten_toDigits m, ← @Nat.ofDigitChars_ten_toDigits n, hdigits]

theorem edgeIdtf_injective : Function.Injective edgeIdtf := by
  intro m n h
  apply repr_injective
  have hlist := congrArg String.toList h
  simp only [edgeIdtf, String.toList_append] at hlist
  exact String.toList_injective (List.append_cancel_left hlist)

/-- A name leads to the element that bears it, and a reversed connector has a generated name. -/
structure Parser.Valid (p : Parser) : Prop where
  named : ∀ name h, p.idtfToParsedElement name = some h →
    ∃ el, p.element h = some el ∧ el.idtf = name
  reversed : ∀ h el, p.element h = some el → el.isReversed = true →
    ∃ n < p.idtfCounter, el.idtf = edgeIdtf n

/-- Elements and triples are only added, and elements keep their names. -/
structure Grown (p p' : Parser) : Prop where
  triples : p.parsedTriples <+: p'.parsedTriples
  length : ∀ b, (p.container b).length ≤ (p'.container b).length
  element : ∀ h el, p.element h = some el → ∃ el', p'.element h = some el' ∧ el'.idtf = el.idtf
  counter : p.idtfCounter ≤ p'.idtfCounter

theorem Grown.refl (p : Parser) : Grown p p :=
  ⟨List.prefix_rfl, fun _ => le_rfl, fun _ el hel => ⟨el, hel, rfl⟩, le_rfl⟩

theorem Grown.trans {p q r : Parser} (h : Grown p q) (h' : Grown q r) : Grown p r := by
  refine ⟨h.triples.trans h'.triples, fun b => (h.length b).trans (h'.length b), fun x el hel => ?_,
    h.counter.trans h'.counter⟩
  obtain ⟨el', hel', hidtf⟩ := h.element x el hel
  obtain ⟨el'', hel'', hidtf'⟩ := h'.element x el' hel'
  exact ⟨el'', hel'', hidtf'.trans hidtf⟩

/-- What a call other than the begin and the end of a contour leaves. -/
structure Kept (p p' : Parser) : Prop where
  valid : p'.Valid
  grown : Grown p p'
  elementsStack : p'.contourElementsStack = p.contourElementsStack
  triplesStack : p'.contourTriplesStack = p.contourTriplesStack

theorem Kept.refl {p : Parser} (h : p.Valid) : Kept p p := ⟨h, Grown.refl p, rfl, rfl⟩

theorem Kept.trans {p q r : Parser} (h : Kept p q) (h' : Kept q r) : Kept p r :=
  ⟨h'.valid, h.grown.trans h'.grown, h'.elementsStack.trans h.elementsStack,
    h'.triplesStack.trans h.triplesStack⟩

theorem container_setContainer (p : Parser) (b c : Bool) (els : List ParsedElement) :
    (p.setContainer b els).container c = if c = b then els else p.container c := by
  cases b <;> cases c <;> rfl

theorem element_append (p : Parser) (el : ParsedElement) (x : ElementHandle) :
    (p.append el).2.element x = if x = (p.append el).1 then some el else p.element x := by
  obtain ⟨i, b⟩ := x
  have hcontainer : (p.append el).2.container b =
      if b = decide (el.visibility = .local) then
        p.container (decide (el.visibility = .local)) ++ [el]
      else p.container b := container_setContainer p _ b _
  have hnew : (p.append el).1 = ⟨(p.container (decide (el.visibility = .local))).length,
      decide (el.visibility = .local)⟩ := rfl
  rw [Parser.element, hcontainer, hnew, Parser.element]
  by_cases hb : b = decide (el.visibility = .local)
  · subst hb
    simp only [if_true, ElementHandle.mk.injEq, and_true, List.getElem?_append]
    split_ifs with h1 h2 h3
    · omega
    · rfl
    · simp [h3]
    · rw [List.getElem?_eq_none (by simp; omega), List.getElem?_eq_none (by omega)]
  · simp [hb]

theorem container_append (p : Parser) (el : ParsedElement) (b : Bool) :
    (p.append el).2.container b =
      if b = decide (el.visibility = .local) then
        p.container (decide (el.visibility = .local)) ++ [el]
      else p.container b :=
  container_setContainer p _ b _

theorem append_fields (p : Parser) (el : ParsedElement) :
    (p.append el).2.parsedTriples = p.parsedTriples ∧
      (p.append el).2.idtfCounter = p.idtfCounter ∧
      (p.append el).2.contourElementsStack = p.contourElementsStack ∧
      (p.append el).2.contourTriplesStack = p.contourTriplesStack ∧
      (p.append el).2.idtfToParsedElement =
        Function.update p.idtfToParsedElement el.idtf (some (p.append el).1) := by
  by_cases h : el.visibility = .local
  · simp [Parser.append, Parser.setContainer, h]
  · simp [Parser.append, Parser.setContainer, h]

/-- The new element has an index of its own. -/
theorem append_fresh (p : Parser) (el : ParsedElement) (x : ElementHandle) (d : ParsedElement)
    (hx : p.element x = some d) : x ≠ (p.append el).1 := by
  rintro rfl
  have hlt := (List.getElem?_eq_some_iff.mp hx).1
  exact lt_irrefl _ hlt

theorem Kept.append {p : Parser} (h : p.Valid) (el : ParsedElement)
    (hrev : el.isReversed = true → ∃ n < p.idtfCounter, el.idtf = edgeIdtf n) :
    Kept p (p.append el).2 := by
  obtain ⟨htriples, hcounter, helements, hstack, hmap⟩ := append_fields p el
  have hold (x : ElementHandle) (d : ParsedElement) (hx : p.element x = some d) :
      (p.append el).2.element x = some d := by
    rw [element_append, if_neg (append_fresh p el x d hx), hx]
  refine ⟨⟨fun name x hname => ?_, fun x d hx hd => ?_⟩, ⟨?_, fun b => ?_, fun x d hx => ?_, ?_⟩,
    helements, hstack⟩
  · rw [hmap, Function.update_apply] at hname
    split_ifs at hname with he
    · obtain rfl := Option.some.inj hname
      exact ⟨el, by rw [element_append, if_pos rfl], he.symm⟩
    · obtain ⟨d, hd, hidtf⟩ := h.named name x hname
      exact ⟨d, hold x d hd, hidtf⟩
  · rw [hcounter]
    rw [element_append] at hx
    split_ifs at hx
    · obtain rfl := Option.some.inj hx
      exact hrev hd
    · exact h.reversed x d hx hd
  · rw [htriples]
  · rw [container_append]
    split_ifs with hb
    · rw [hb, List.length_append]
      omega
    · exact le_rfl
  · exact ⟨d, hold x d hx, rfl⟩
  · rw [hcounter]

/-- Whenever the call returns, elements and triples have only been added. -/
def Keeping {α : Type} (x : ParserM α) : Prop :=
  ∀ p, p.Valid → IfReturns x (fun _ p' => Kept p p') p

section
variable {α β : Type}

theorem Keeping.bind {x : ParserM α} {f : α → ParserM β} (hx : Keeping x)
    (hf : ∀ a, Keeping (f a)) : Keeping (x >>= f) := by
  intro p hp
  rw [IfReturns, wp_bind]
  apply wp_mono (hx p hp) _ (fun _ _ => trivial)
  intro a q hq
  exact wp_mono (hf a q hq.valid) (fun _ _ hr => hq.trans hr) (fun _ _ => trivial)

theorem Keeping.pure (a : α) : Keeping (pure a : ParserM α) := fun _ hp => Kept.refl hp

theorem Keeping.throw (e : ScsError) : Keeping (throw e : ParserM α) := fun _ _ => trivial

theorem Keeping.get : Keeping (get : ParserM Parser) := fun _ hp => Kept.refl hp

theorem Keeping.ite {c : Prop} [Decidable c] {x y : ParserM α} (hx : Keeping x) (hy : Keeping y) :
    Keeping (if c then x else y) := by
  split_ifs
  · exact hx
  · exact hy

/-- A change of the fields that no call depends on. -/
theorem Keeping.modify (f : Parser → Parser)
    (hf : ∀ p, p.Valid → Kept p (f p)) : Keeping (modify f : ParserM PUnit) := fun p hp => hf p hp

end

theorem keeping_scAssert (debug b : Bool) : Keeping (scAssert debug b) :=
  Keeping.ite (Keeping.throw _) (Keeping.pure _)

theorem keeping_getParsedElement (h : ElementHandle) : Keeping (getParsedElement h) := by
  refine Keeping.get.bind (fun p => ?_)
  cases p.element h with
  | none => exact Keeping.throw _
  | some el => exact Keeping.pure el

theorem keeping_generateIdtf (start : String) : Keeping (generateIdtf start) := by
  refine Keeping.get.bind (fun _ => (Keeping.modify _ (fun p hp => ?_)).bind (fun _ => Keeping.pure _))
  refine ⟨⟨hp.named, fun x d hx hd => ?_⟩,
    ⟨List.prefix_rfl, fun _ => le_rfl, fun _ d hd => ⟨d, hd, rfl⟩, Nat.le_succ _⟩, rfl, rfl⟩
  obtain ⟨n, hn, hidtf⟩ := hp.reversed x d hx hd
  exact ⟨n, hn.trans (Nat.lt_succ_self _), hidtf⟩

theorem generateIdtf_run (start : String) (p : Parser) :
    generateIdtf start p =
      .ok (start ++ Nat.repr p.idtfCounter, { p with idtfCounter := p.idtfCounter+1 }) := rfl

theorem keeping_pushTriple (t : ParsedTriple) : Keeping (pushTriple t) := by
  refine Keeping.modify _ (fun p hp => ⟨⟨hp.named, hp.reversed⟩, ⟨⟨[t], rfl⟩, fun _ => le_rfl,
    fun _ d hd => ⟨d, hd, rfl⟩, le_rfl⟩, rfl, rfl⟩)

theorem setType_fields (p : Parser) (h : ElementHandle) (u : ScType) :
    (p.setType h u).parsedTriples = p.parsedTriples ∧
      (p.setType h u).idtfCounter = p.idtfCounter ∧
      (p.setType h u).contourElementsStack = p.contourElementsStack ∧
      (p.setType h u).contourTriplesStack = p.contourTriplesStack ∧
      (p.setType h u).idtfToParsedElement = p.idtfToParsedElement := by
  unfold Parser.setType Parser.setContainer
  split_ifs <;> exact ⟨rfl, rfl, rfl, rfl, rfl⟩

theorem Kept.setType {p : Parser} (hp : p.Valid) (h : ElementHandle) (u : ScType) :
    Kept p (p.setType h u) := by
  obtain ⟨htriples, hcounter, helements, hstack, hmap⟩ := setType_fields p h u
  have hold (x : ElementHandle) (d : ParsedElement) (hx : p.element x = some d) :
      ∃ d', (p.setType h u).element x = some d' ∧ d'.idtf = d.idtf := by
    rw [element_setType, hx]
    split_ifs
    · exact ⟨_, rfl, rfl⟩
    · exact ⟨d, rfl, rfl⟩
  refine ⟨⟨fun name x hname => ?_, fun x d hx hd => ?_⟩,
    ⟨by rw [htriples], fun b => ?_, hold, by rw [hcounter]⟩, helements, hstack⟩
  · rw [hmap] at hname
    obtain ⟨d, hd, hidtf⟩ := hp.named name x hname
    obtain ⟨d', hd', hidtf'⟩ := hold x d hd
    exact ⟨d', hd', hidtf'.trans hidtf⟩
  · rw [hcounter]
    rw [element_setType] at hx
    split_ifs at hx
    · obtain ⟨d', hd', rfl⟩ := Option.map_eq_some_iff.mp hx
      exact hp.reversed x d' hd' hd
    · exact hp.reversed x d hx hd
  · rw [Parser.setType, container_setContainer]
    split_ifs with hb
    · rw [hb, List.length_modify]
    · exact le_rfl

theorem keeping_addEdge (edgeEl : ParsedElement) (src e trg : ElementHandle) :
    Keeping (addEdge edgeEl src e trg) := by
  refine (keeping_getParsedElement src).bind (fun srcEl => Keeping.ite ?_ (keeping_pushTriple _))
  refine (keeping_getParsedElement trg).bind (fun targetEl => ?_)
  have hrest : Keeping (do
      let p ← get
      if p.contourTriplesStack ≠ [] then pushTriple ⟨src, e, trg⟩) :=
    Keeping.get.bind (fun p => Keeping.ite (keeping_pushTriple _) (Keeping.pure _))
  dsimp only
  split_ifs
  · exact (Keeping.modify _ (fun p hp => Kept.setType hp trg _)).bind (fun _ => hrest)
  · exact (Keeping.throw _).bind (fun _ => hrest)

theorem keeping_processTriple (debug : Bool) (source edge target : ElementHandle) :
    Keeping (processTriple debug source edge target) :=
  (keeping_getParsedElement edge).bind (fun edgeEl => (keeping_scAssert debug _).bind
    (fun _ => Keeping.ite (keeping_addEdge edgeEl _ _ _) (keeping_addEdge edgeEl _ _ _)))

theorem keeping_processAssign (name : String) (value : ElementHandle) :
    Keeping (processAssign name value) :=
  Keeping.modify _ (fun _ hp => ⟨⟨hp.named, hp.reversed⟩, ⟨List.prefix_rfl, fun _ => le_rfl,
    fun _ d hd => ⟨d, hd, rfl⟩, le_rfl⟩, rfl, rfl⟩)

/-- The identifier that an element is looked up and stored under. -/
def storedIdtf (p : Parser) (idtf : String) : String :=
  if isUnnamed idtf then "..node_" ++ Nat.repr p.idtfCounter else idtf

theorem unnamed_ne_edgeIdtf (n : ℕ) : isUnnamed (edgeIdtf n) = false := by
  have hne : edgeIdtf n ≠ "..." := by
    intro h
    have hlist := congrArg String.toList h
    simp [edgeIdtf, String.toList_append] at hlist
  simp [isUnnamed, hne]

theorem parsedElement_rule (debug : Bool) (idtf : String) (type : ScType) (isReversed : Bool)
    (value : String) (isURL : Bool) (p : Parser) :
    IfReturns (parsedElement debug idtf type isReversed value isURL)
      (fun el p' => p' = p ∧ el.idtf = idtf ∧ el.isReversed = isReversed ∧ el.type = type) p := by
  have hassert (b : Bool) (el : ParsedElement) (Q : ParsedElement → Parser → Prop) (hQ : Q el p) :
      IfReturns (do scAssert debug b; pure el : ParserM ParsedElement) Q p := by
    unfold scAssert
    split_ifs
    · trivial
    · exact hQ
  unfold parsedElement
  by_cases hvalue : value = ""
  · rw [if_neg (not_not_intro hvalue)]
    exact hassert _ _ _ ⟨rfl, rfl, rfl, rfl⟩
  · rw [if_pos hvalue]
    exact hassert _ _ _ ⟨rfl, rfl, rfl, rfl⟩

/-- The element of the name, which is made if there is none. -/
theorem namedElement_rule (debug : Bool) (type : ScType) (isReversed : Bool) (value : String)
    (isURL : Bool) (name : String) (q : Parser) (hq : q.Valid)
    (hrevq : isReversed = true → ∃ n < q.idtfCounter, name = edgeIdtf n) :
    IfReturns (do
      let p ← get
      match p.idtfToParsedElement name with
      | some h => pure h
      | none => do
        let el ← parsedElement debug name type isReversed value isURL
        let p ← get
        set (p.append el).2
        pure (p.append el).1 : ParserM ElementHandle)
      (fun h p' => Kept q p' ∧ ∃ el, p'.element h = some el ∧ el.idtf = name) q := by
  rw [IfReturns, wp_bind, wp_get]
  cases hfound : q.idtfToParsedElement name with
  | some h =>
    obtain ⟨el, hel, hidtf⟩ := hq.named name h hfound
    exact ⟨Kept.refl hq, el, hel, hidtf⟩
  | none =>
    simp only
    rw [wp_bind]
    apply wp_mono (parsedElement_rule debug name type isReversed value isURL q) _
      (fun _ _ => trivial)
    rintro el q' ⟨rfl, hidtf, hreversed, _⟩
    refine ⟨Kept.append hq el (fun hr => ?_), el, ?_, hidtf⟩
    · rw [hidtf]
      exact hrevq (hreversed ▸ hr)
    · rw [element_append, if_pos rfl]

/-- `AppendElement` returns the element of that name, which is a new one if there was none. -/
theorem appendElement_rule (debug : Bool) (idtf : String) (type : ScType) (isReversed : Bool)
    (value : String) (isURL : Bool) (p : Parser) (hp : p.Valid)
    (hrev : isReversed = true → ∃ n < p.idtfCounter, idtf = edgeIdtf n) :
    IfReturns (appendElement debug idtf type isReversed value isURL)
      (fun h p' => Kept p p' ∧ ∃ el, p'.element h = some el ∧ el.idtf = storedIdtf p idtf) p := by
  have hnamed := namedElement_rule debug type isReversed value isURL
  unfold appendElement
  dsimp only
  by_cases hempty : idtf = ""
  · rw [if_pos hempty]
    trivial
  rw [if_neg hempty]
  by_cases hunnamed : isUnnamed idtf = true
  · have hkeep := wp_ok (keeping_generateIdtf "..node_" p hp) (generateIdtf_run "..node_" p)
    have hnot : isReversed = true → False := fun hr => by
      obtain ⟨n, _, rfl⟩ := hrev hr
      rw [unnamed_ne_edgeIdtf] at hunnamed
      cases hunnamed
    rw [if_pos hunnamed, storedIdtf, if_pos hunnamed, IfReturns, wp_bind, generateNodeIdtf,
      wp_iff_of_eq (generateIdtf_run "..node_" p)]
    exact wp_mono (hnamed _ _ hkeep.valid (fun hr => (hnot hr).elim))
      (fun _ _ h => ⟨hkeep.trans h.1, h.2⟩) (fun _ _ => trivial)
  · rw [if_neg hunnamed, storedIdtf, if_neg hunnamed]
    exact hnamed idtf p hp hrev

theorem keeping_appendElement (debug : Bool) (idtf : String) (type : ScType) (value : String)
    (isURL : Bool) : Keeping (appendElement debug idtf type false value isURL) := fun p hp =>
  wp_mono (appendElement_rule debug idtf type false value isURL p hp nofun) (fun _ _ h => h.1)
    (fun _ _ => trivial)

/-- A connector is an element whose name has the next number. -/
theorem processConnector_rule (debug : Bool) (connector : String) (p : Parser) (hp : p.Valid) :
    IfReturns (processConnector debug connector)
      (fun h p' => Kept p p' ∧
        ∃ el, p'.element h = some el ∧ el.idtf = edgeIdtf p.idtfCounter) p := by
  have hkeep := wp_ok (keeping_generateIdtf "..edge_" p hp) (generateIdtf_run "..edge_" p)
  have happend := appendElement_rule debug (edgeIdtf p.idtfCounter) (getConnectorType connector)
    (isConnectorReversed connector) "" false { p with idtfCounter := p.idtfCounter+1 } hkeep.valid
    (fun _ => ⟨p.idtfCounter, Nat.lt_succ_self _, rfl⟩)
  rw [storedIdtf, unnamed_ne_edgeIdtf] at happend
  rw [IfReturns, processConnector, wp_bind]
  unfold scAssert
  split_ifs
  · trivial
  · rw [wp_pure, wp_bind, generateEdgeIdtf, wp_iff_of_eq (generateIdtf_run "..edge_" p)]
    exact wp_mono happend (fun _ _ h => ⟨hkeep.trans h.1, h.2⟩) (fun _ _ => trivial)

theorem keeping_processConnector (debug : Bool) (connector : String) :
    Keeping (processConnector debug connector) := fun p hp =>
  wp_mono (processConnector_rule debug connector p hp) (fun _ _ h => h.1) (fun _ _ => trivial)

/-- Every call but those at the ends of a contour keeps what is there. -/
theorem keeping_call (debug : Bool) (ev : ParserEvent) (hbegin : ∀ h, ev ≠ .contourBegin h)
    (hend : ∀ h, ev ≠ .contourEnd h) : Keeping (ev.call debug) := by
  have hmap (x : ParserM ElementHandle) (hx : Keeping x) : Keeping (some <$> x) :=
    hx.bind (fun h => Keeping.pure (some h))
  cases ev with
  | identifier name h =>
    exact hmap _ ((keeping_scAssert debug _).bind (fun _ => keeping_appendElement debug _ _ _ _))
  | identifierLevel1 type name h => exact hmap _ (keeping_appendElement debug _ _ _ _)
  | connector c h => exact hmap _ (keeping_processConnector debug c)
  | content text isVar h =>
    exact hmap _ ((keeping_generateIdtf _).bind (fun _ => keeping_appendElement debug _ _ _ _))
  | fileURL url h =>
    exact hmap _ ((keeping_generateIdtf _).bind (fun _ => keeping_appendElement debug _ _ _ _))
  | triple source edge target =>
    exact (keeping_processTriple debug source edge target).bind (fun _ => Keeping.pure none)
  | assign name value => exact (keeping_processAssign name value).bind (fun _ => Keeping.pure none)
  | contourBegin h => exact absurd rfl (hbegin h)
  | contourEnd h => exact absurd rfl (hend h)

def contourIdtf (n : ℕ) : String := "..contour_" ++ Nat.repr n

/-- The state that `ProcessContourBegin` leaves. -/
def Parser.enter (p : Parser) : Parser :=
  { p with
    contourElementsStack :=
      (p.parsedElements.length, p.parsedElementsLocal.length) :: p.contourElementsStack
    contourTriplesStack := p.parsedTriples.length :: p.contourTriplesStack }

theorem processContourBegin_rule (debug : Bool) (p : Parser) (hp : p.Valid) :
    IfReturns (processContourBegin debug)
      (fun h p' => ∃ q, p' = q.enter ∧ Kept p q ∧
        ∃ el, q.element h = some el ∧ el.idtf = contourIdtf p.idtfCounter) p := by
  have hkeep := wp_ok (keeping_generateIdtf "..contour_" p hp) (generateIdtf_run "..contour_" p)
  have happend := appendElement_rule debug (contourIdtf p.idtfCounter) ScType.nodeConstStruct false
    "" false { p with idtfCounter := p.idtfCounter+1 } hkeep.valid nofun
  have hnamed : isUnnamed (contourIdtf p.idtfCounter) = false := by
    have hne : contourIdtf p.idtfCounter ≠ "..." := by
      intro h
      have hlist := congrArg String.toList h
      simp [contourIdtf, String.toList_append] at hlist
    simp [isUnnamed, hne]
  rw [storedIdtf, hnamed] at happend
  rw [IfReturns, processContourBegin, wp_bind, generateContourIdtf,
    wp_iff_of_eq (generateIdtf_run "..contour_" p), wp_bind]
  exact wp_mono happend (fun h q hq => ⟨q, rfl, hkeep.trans hq.1, hq.2⟩) (fun _ _ => trivial)

theorem addMembers_keeping (debug : Bool) (contourHandle : ElementHandle)
    (els : List ElementHandle) : Keeping (addMembers debug contourHandle els) := by
  induction els with
  | nil => exact Keeping.pure _
  | cons el els ih =>
    exact ((keeping_processConnector debug "->").bind
      (fun edge => keeping_processTriple debug contourHandle edge el)).bind (fun _ => ih)

/-- The parser with other sizes on its stacks. -/
def Parser.withStacks (p : Parser) (elementsStack : List (ℕ × ℕ)) (triplesStack : List ℕ) : Parser :=
  { p with contourElementsStack := elementsStack, contourTriplesStack := triplesStack }

theorem valid_withStacks {p : Parser} (hp : p.Valid) (elementsStack : List (ℕ × ℕ))
    (triplesStack : List ℕ) : (p.withStacks elementsStack triplesStack).Valid :=
  ⟨hp.named, hp.reversed⟩

/-- The end of a contour takes the sizes of its begin off the stacks. -/
theorem processContourEnd_rule (debug : Bool) (contourHandle : ElementHandle) (p : Parser)
    (ind : ℕ × ℕ) (elementsStack : List (ℕ × ℕ)) (tripleFirst : ℕ)
    (triplesStack : List ℕ) (he : p.contourElementsStack = ind :: elementsStack)
    (ht : p.contourTriplesStack = tripleFirst :: triplesStack) :
    processContourEnd debug contourHandle p =
      addMembers debug contourHandle (newElements p ind tripleFirst)
        (p.withStacks elementsStack triplesStack) := by
  have hread : (get : ParserM Parser) p = .ok (p, p) := rfl
  have hassert (b : Bool) (hb : b = true) : scAssert debug b p = .ok ((), p) := by
    rw [hb, scAssert, Bool.not_true, Bool.and_false, if_neg Bool.false_ne_true]
    rfl
  have hpop : (modify (fun p : Parser => { p with
      contourElementsStack := elementsStack
      contourTriplesStack := triplesStack }) : ParserM PUnit) p =
      .ok (⟨⟩, p.withStacks elementsStack triplesStack) := rfl
  unfold processContourEnd
  rw [run_bind_ok hread, run_bind_ok (hassert _ (by simp [he])),
    run_bind_ok (hassert _ (by simp [ht])), he, ht]
  exact run_bind_ok hpop _

/-- Without an open contour there is none to end. -/
theorem processContourEnd_empty (debug : Bool) (contourHandle : ElementHandle) (p : Parser)
    (h : p.contourElementsStack = [] ∨ p.contourTriplesStack = []) :
    ∃ e, processContourEnd debug contourHandle p = .error e := by
  have hread : (get : ParserM Parser) p = .ok (p, p) := rfl
  have hassert (b : Bool) : scAssert debug b p = .ok ((), p) ∨
      scAssert debug b p = .error .assertion := by
    unfold scAssert
    split_ifs
    · exact Or.inr rfl
    · exact Or.inl rfl
  unfold processContourEnd
  rw [run_bind_ok hread]
  obtain h1 | h1 := hassert (p.contourElementsStack ≠ [])
  · rw [run_bind_ok h1]
    obtain h2 | h2 := hassert (p.contourTriplesStack ≠ [])
    · rw [run_bind_ok h2]
      obtain he | ht := h
      · rw [he]
        exact ⟨_, rfl⟩
      · rw [ht]
        cases p.contourElementsStack <;> exact ⟨_, rfl⟩
    · exact ⟨_, run_bind_error h2 _⟩
  · exact ⟨_, run_bind_error h1 _⟩

theorem valid_new : Parser.new.Valid := by
  refine ⟨nofun, fun h el hel => ?_⟩
  obtain ⟨i, b⟩ := h
  cases b <;> simp [Parser.element, Parser.container, Parser.new] at hel

theorem valid_enter {p : Parser} (hp : p.Valid) : p.enter.Valid := ⟨hp.named, hp.reversed⟩

theorem step_result {debug : Bool} {p p' : Parser} {ev : ParserEvent}
    {Q : Option ElementHandle → Parser → Prop} (h : IfReturns (ev.call debug) Q p)
    (hs : ParserStep debug p ev p') : Q ev.result p' := wp_ok h hs

theorem step_contourBegin {debug : Bool} {p p' : Parser} {h : ElementHandle} (hp : p.Valid)
    (hs : ParserStep debug p (.contourBegin h) p') :
    ∃ q, p' = q.enter ∧ Kept p q ∧ ∃ el n, q.element h = some el ∧ el.idtf = contourIdtf n := by
  have hrule : IfReturns ((ParserEvent.contourBegin h).call debug) (fun r p' => ∃ x, r = some x ∧
      ∃ q, p' = q.enter ∧ Kept p q ∧ ∃ el n, q.element x = some el ∧ el.idtf = contourIdtf n) p := by
    have hbegin := processContourBegin_rule debug p hp
    rw [IfReturns, ParserEvent.call, map_eq_pure_bind, wp_bind]
    refine wp_mono hbegin ?_ (fun _ _ => trivial)
    rintro x p' ⟨q, hq, hkept, el, hel, hidtf⟩
    exact ⟨x, rfl, q, hq, hkept, el, _, hel, hidtf⟩
  obtain ⟨x, hx, hrest⟩ := step_result hrule hs
  obtain rfl := Option.some.inj hx
  exact hrest

theorem step_contourEnd {debug : Bool} {p p' : Parser} {h : ElementHandle}
    (hs : ParserStep debug p (.contourEnd h) p') : processContourEnd debug h p = .ok ((), p') := by
  obtain ⟨⟨u, q⟩, hend, hrest⟩ := bind_ok hs
  obtain rfl : q = p' := congrArg Prod.snd (Except.ok.inj hrest)
  exact hend

/-- Every state that a run reaches is valid, whatever contours are open in it. -/
theorem step_valid (debug : Bool) (p : Parser) (ev : ParserEvent) (p' : Parser) (hp : p.Valid)
    (hs : ParserStep debug p ev p') : p'.Valid := by
  by_cases hbegin : ∃ h, ev = .contourBegin h
  · obtain ⟨h, rfl⟩ := hbegin
    obtain ⟨q, rfl, hkept, _⟩ := step_contourBegin hp hs
    exact valid_enter hkept.valid
  by_cases hend : ∃ h, ev = .contourEnd h
  · obtain ⟨h, rfl⟩ := hend
    have hrun := step_contourEnd hs
    cases he : p.contourElementsStack with
    | nil =>
      obtain ⟨e, herror⟩ := processContourEnd_empty debug h p (Or.inl he)
      cases herror.symm.trans hrun
    | cons ind elementsStack =>
      cases ht : p.contourTriplesStack with
      | nil =>
        obtain ⟨e, herror⟩ := processContourEnd_empty debug h p (Or.inr ht)
        cases herror.symm.trans hrun
      | cons tripleFirst triplesStack =>
        rw [processContourEnd_rule debug h p ind elementsStack tripleFirst triplesStack he ht] at hrun
        exact (wp_ok (addMembers_keeping debug h _ (p.withStacks elementsStack triplesStack)
          (valid_withStacks hp _ _)) hrun).valid
  · have hkeep := keeping_call debug ev (fun h he => hbegin ⟨h, he⟩) (fun h he => hend ⟨h, he⟩)
    exact (step_result (hkeep p hp) hs).valid

theorem kept_enter {p q r : Parser} (h : Kept p q) (h' : Kept q.enter r)
    (elementsStack : List (ℕ × ℕ)) (triplesStack : List ℕ)
    (he : elementsStack = q.contourElementsStack) (ht : triplesStack = q.contourTriplesStack) :
    Kept p (r.withStacks elementsStack triplesStack) :=
  ⟨valid_withStacks h'.valid _ _,
    h.grown.trans ⟨h'.grown.triples, h'.grown.length, h'.grown.element, h'.grown.counter⟩,
    he.trans h.elementsStack, ht.trans h.triplesStack⟩

/-- Calls with nested contours keep the sizes that open contours have saved. -/
theorem nested_kept (debug : Bool) (evs : List ParserEvent) (hn : Nested evs) (p p' : Parser)
    (hp : p.Valid) (hr : Run (ParserStep debug) p evs p') : Kept p p' := by
  induction hn generalizing p p' with
  | nil =>
    obtain rfl : p' = p := hr
    exact Kept.refl hp
  | call ev evs hbegin hend _ ih =>
    obtain ⟨q, hs, hrest⟩ := hr
    have hkept := step_result (keeping_call debug ev hbegin hend p hp) hs
    exact hkept.trans (ih q p' hkept.valid hrest)
  | contour h body evs _ _ ihBody ihEvs =>
    obtain ⟨pb, hbegin, hr⟩ := hr
    obtain ⟨p1, hbody, p2, hend, hrest⟩ := (run_append pb p' body _).mp hr
    obtain ⟨q, rfl, hkept, _⟩ := step_contourBegin hp hbegin
    have hinside := ihBody q.enter p1 (valid_enter hkept.valid) hbody
    have hrun := step_contourEnd hend
    rw [processContourEnd_rule debug h p1 _ _ _ _ hinside.elementsStack hinside.triplesStack] at hrun
    have hpopped := kept_enter hkept hinside q.contourElementsStack q.contourTriplesStack rfl rfl
    have hadded := wp_ok (addMembers_keeping debug h _
      (p1.withStacks q.contourElementsStack q.contourTriplesStack) hpopped.valid) hrun
    have hclosed := hpopped.trans hadded
    exact hclosed.trans (ihEvs p2 p' hclosed.valid hrest)

end ScMachine.Scs
