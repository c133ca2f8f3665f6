import ScMachine.SearchSound

/-! The types of what a search finds. A type is checked by the iterator that comes to an item first,
and an iterator with a known edge does not check any. -/
namespace ScMachine.Template
open ScMachine.Store ScMachine.StateExcept ScMachine.Backtracking ScMachine.Runs

/-- What must hold before a triple is matched: when its edge is known, the ends of the edge have the
types of the items that are not known. -/
def SearchSetup.TypedEdge (m : SearchSetup) (R : String → Option ReplCounter) (level : ℕ) : Prop :=
  let t := m.itemsAt level
  let edge := searchResolveAddr R t.edge
  edge ≠ ScAddr.empty →
    (searchResolveAddr R t.source = ScAddr.empty →
      HasType m.cells (ownerOf m.cells .out edge) (prepareType t.source.typeValue)) ∧
    (searchResolveAddr R t.target = ScAddr.empty →
      HasType m.cells (ownerOf m.cells .inp edge) (prepareType t.target.typeValue))

/-- The element fits the item that has a type. -/
def Fits (c : Cells) (item : ScTemplateArg) (a : ScAddr) : Prop :=
  item.kind = .type → HasType c a (prepareType item.typeValue)

/-- Every element that a result has for an item of the template fits it. -/
structure SearchResult.Typed (c : Cells) (data : ScTemplateData) (r : SearchResult) : Prop where
  addrs : ∀ (k : ℕ) (t : Triple ℕ) (f : Triple ScAddr), data.triples[k]? = some t →
    r.addrs[k]? = some f → Fits c (data.element t.source) f.source ∧
      Fits c (data.element t.edge) f.edge ∧ Fits c (data.element t.target) f.target
  names : ∀ i a, (data.element i).hasReplacementName = true →
    r.names (data.element i).replacementName = some a → Fits c (data.element i) a

section
variable {m : SearchSetup} {path : List (Triple ScAddr)} {cs : List (Triple ScAddr)}
  {f : Triple ScAddr} {R : String → Option ReplCounter} {data data' : ScTemplateData}
  {ctx : ScContext} {c : Cells} {i j : ℕ} {a : ScAddr} {values : List (String × ScAddr)}
  {typeOf : ScAddr → ScType}

theorem bit_of_isConst {type : ScType} (h : type.isConst = true) {n : ℕ}
    (hn : scTypeConst.getLsbD n = true) : type.getLsbD n = true := by
  have hbit (k : ℕ) : scTypeConst.getLsbD k = decide (k = 5) := by
    rcases Nat.lt_or_ge k 16 with hk | hk
    · interval_cases k <;> rfl
    · rw [BitVec.getLsbD_of_ge _ _ hk, decide_eq_false (by omega)]
  have hne : type &&& scTypeConst ≠ 0 := by simpa [ScType.isConst] using h
  by_contra hoff
  apply hne
  apply BitVec.eq_of_getLsbD_eq
  intro k _
  rw [BitVec.getLsbD_and, hbit]
  by_cases hk : k = 5
  · rw [hbit] at hn
    obtain rfl : n = 5 := of_decide_eq_true hn
    rw [hk, Bool.not_eq_true _ |>.mp hoff]
    rfl
  · simp [hk]

/-- An element that may be assigned to a variable item has its type, when it is a constant. -/
theorem hasType_of_canAssign {varType paramType : ScType}
    (h : canAssignParam varType paramType = true) (hconst : paramType.isConst = true) :
    prepareType varType &&& paramType = prepareType varType := by
  unfold canAssignParam at h
  dsimp only at h
  split_ifs at h with hclass hvar hsub
  have hvarType : varType.isVar = true := by
    by_contra hv
    exact hvar (by simp [hv])
  have hflag : varType.hasConstancyFlag = true := by
    have hne : varType &&& scTypeVar ≠ 0 := by simpa [ScType.isVar] using hvarType
    unfold ScType.hasConstancyFlag scTypeConstancyMask
    rw [bne_iff_ne]
    intro h0
    apply hne
    have hand : varType &&& scTypeVar = (varType &&& (scTypeConst ||| scTypeVar)) &&& scTypeVar := by
      rw [BitVec.and_assoc]
      rfl
    rw [hand, h0]
    rfl
  unfold prepareType ScType.upConstType
  rw [if_pos hflag]
  apply BitVec.eq_of_getLsbD_eq
  intro n hn
  -- the bits of the class and of the subtype are those of the element
  have hclassn := congrArg (fun x : ScType => x.getLsbD n) (show varType &&& scTypeElementMask =
    paramType &&& scTypeElementMask by simpa using hclass)
  have hsubn : varType &&& ~~~(scTypeElementMask ||| scTypeConstancyMask) = 0 ∨
      varType &&& ~~~(scTypeElementMask ||| scTypeConstancyMask) =
        paramType &&& ~~~(scTypeElementMask ||| scTypeConstancyMask) := by
    by_contra hno
    apply hsub
    push Not at hno
    simpa using hno
  have hbit := @bit_of_isConst paramType hconst n
  have hsubn' : (varType.getLsbD n && !(scTypeElementMask.getLsbD n ||
      (scTypeConst.getLsbD n || scTypeVar.getLsbD n))) = false ∨
      (varType.getLsbD n && !(scTypeElementMask.getLsbD n ||
        (scTypeConst.getLsbD n || scTypeVar.getLsbD n))) =
      (paramType.getLsbD n && !(scTypeElementMask.getLsbD n ||
        (scTypeConst.getLsbD n || scTypeVar.getLsbD n))) := by
    rcases hsubn with h0 | h0
    · have hb := congrArg (fun x : ScType => x.getLsbD n) h0
      left
      simpa [scTypeConstancyMask, hn] using hb
    · have hb := congrArg (fun x : ScType => x.getLsbD n) h0
      right
      simpa [scTypeConstancyMask, hn] using hb
  simp only [BitVec.getLsbD_and] at hclassn
  rw [BitVec.getLsbD_and, BitVec.getLsbD_or, BitVec.getLsbD_and, BitVec.getLsbD_not, decide_eq_true hn]
  revert hclassn hsubn' hbit
  cases varType.getLsbD n <;> cases paramType.getLsbD n <;> cases scTypeElementMask.getLsbD n <;>
    cases scTypeConst.getLsbD n <;> cases scTypeVar.getLsbD n <;> simp

/-- The item of an index when the parameters have been applied: it is as it was, or it is fixed. -/
def ParamItem (typeOf : ScAddr → ScType) (values : List (String × ScAddr)) (data : ScTemplateData)
    (i : ℕ) (item' : ScTemplateArg) : Prop :=
  item' = data.element i ∨ ∃ p ∈ values, data.repl p.1 = some i ∧ (data.element i).kind = .type ∧
    canAssignParam (data.element i).typeValue (typeOf p.2) = true ∧
    item' = { data.element i with kind := .addr, typeValue := 0, addrValue := p.2 }

/-- The parameters change only the items with a type that they stand for. -/
theorem applyParameters_items (happly : applyParameters typeOf data values = .ok data') :
    data'.repl = data.repl ∧ data'.triples = data.triples ∧
      ∀ i, ParamItem typeOf values data i (data'.element i) := by
  induction values generalizing data with
  | nil =>
    obtain rfl := Except.ok.inj happly
    exact ⟨rfl, rfl, fun _ => Or.inl rfl⟩
  | cons p values ih =>
    obtain ⟨key, value⟩ := p
    obtain ⟨data1, h1, h2⟩ := bind_ok happly
    obtain ⟨hrepl, htriples, hitems⟩ := ih h2
    obtain ⟨i, hone⟩ := applyParameter_applied h1
    refine ⟨hrepl.trans hone.repl, htriples.trans hone.triples, ?_⟩
    intro j
    by_cases hij : j = i
    · subst hij
      right
      refine ⟨(key, value), List.mem_cons_self, hone.key, hone.kind, hone.assign, ?_⟩
      -- a fixed item is not assigned again
      rcases hitems j with he | ⟨_, _, _, ht, _⟩
      · exact he.trans hone.item
      · rw [hone.item] at ht
        cases ht
    · have hsame := hitems j
      unfold ParamItem at hsame ⊢
      rw [hone.others j hij, hone.repl] at hsame
      apply hsame.imp_right
      rintro ⟨p, hp, hrest⟩
      exact ⟨p, List.mem_cons_of_mem _ hp, hrest⟩

theorem namesUnique_of_applied (hnames : NamesUnique data)
    (hitems : ∀ i, ParamItem typeOf values data i (data'.element i)) : NamesUnique data' := by
  have hname (i : ℕ) : (data'.element i).replacementName = (data.element i).replacementName := by
    rcases hitems i with he | ⟨_, _, _, _, _, he⟩ <;> rw [he]
  intro i j hi hij
  apply hnames i j
  · unfold ScTemplateArg.hasReplacementName at hi ⊢
    rw [← hname]
    exact hi
  · rw [← hname, ← hname]
    exact hij

/-- What the names of a path stand for fits the items with these names. -/
def NamesFit (c : Cells) (data : ScTemplateData) (R : String → Option ReplCounter) : Prop :=
  ∀ i r, (data.element i).hasReplacementName = true →
    R (data.element i).replacementName = some r → Fits c (data.element i) r.addr

theorem NamesFit.ref (hnames : NamesUnique data) (h : NamesFit c data R) {item : ScTemplateArg}
    (hitem : item.replacementName = (data.element i).replacementName)
    (ha : Fits c (data.element i) a) : NamesFit c data (refReplacement item a R) := by
  intro j r hj hr
  rcases refReplacement_cases hr with ⟨r0, hr0, hra⟩ | ⟨_, hname, hra⟩
  · rw [← hra]
    exact h j r0 hj hr0
  · obtain rfl := hnames j i hj (hitem.symm.trans hname)
    rw [hra]
    exact ha

/-- The values of the parameters are elements, and those that a search can look at are constants. -/
def ConstParams (c : Cells) (ctx : ScContext) (values : List (String × ScAddr)) : Prop :=
  ∀ p ∈ values, p.2 ≠ ScAddr.empty ∧
    (Live c p.2 → CanRead ctx c p.2 → (getElementType c ctx p.2).isConst = true)

/-- What is at a place fits its item: it is a parameter, it was found before under the name, or it has
been looked at now. -/
theorem fits_of_place {item' : ScTemplateArg}
    (hitem : ParamItem (getElementType c ctx) values data i item') (hparams : ConstParams c ctx values)
    (hnames : ∀ r, (data.element i).hasReplacementName = true →
      R (data.element i).replacementName = some r → Fits c (data.element i) r.addr)
    (hres : searchResolveAddr R item' ≠ ScAddr.empty →
      a = searchResolveAddr R item' ∧ Live c a ∧ CanRead ctx c a)
    (hnew : searchResolveAddr R item' = ScAddr.empty → HasType c a (prepareType item'.typeValue)) :
    Fits c (data.element i) a := by
  intro hk
  rcases hitem with rfl | ⟨p, hp, _, _, hassign, rfl⟩
  · by_cases hempty : searchResolveAddr R (data.element i) = ScAddr.empty
    · exact hnew hempty
    · have ha := (hres hempty).1
      unfold searchResolveAddr at hempty ha
      rw [hk] at hempty ha
      simp only at hempty ha
      split_ifs at hempty ha with hname
      · cases hr : R (data.element i).replacementName with
        | none =>
          rw [hr] at hempty
          exact absurd rfl hempty
        | some r =>
          rw [hr] at ha
          rw [ha]
          exact hnames r hname hr hk
      · exact absurd rfl hempty
  · obtain ⟨hne, hconst⟩ := hparams p hp
    obtain ⟨rfl, hlive, hread⟩ := hres hne
    have htype : getElementType c ctx p.2 = scFlagsRemove (c p.2).type := if_pos ⟨hlive, hread⟩
    have hhas := hasType_of_canAssign hassign (hconst hlive hread)
    rw [htype] at hhas
    exact hhas

/-- On the path everything that is found fits the items of the template. -/
structure SearchSetup.FitsAll (m : SearchSetup) (data : ScTemplateData) (path : List (Triple ScAddr)) :
    Prop where
  found : ∀ f below, f :: below <:+ path →
    Fits m.cells (data.element (m.indicesAt below.length).source) f.source ∧
      Fits m.cells (data.element (m.indicesAt below.length).edge) f.edge ∧
      Fits m.cells (data.element (m.indicesAt below.length).target) f.target
  names : NamesFit m.cells data (m.replsOf path)

theorem SearchSetup.FitsAll.cons (hc : ArcsOk m.cells) (hnames : NamesUnique data)
    (hitems : ∀ i, ParamItem (getElementType m.cells m.ctx) values data i (m.data.element i))
    (hparams : ConstParams m.cells m.ctx values) (h : m.FitsAll data path)
    (hopen : m.problem.opens path = .ok cs) (hf : f ∈ cs)
    (htyped : m.TypedEdge (m.replsOf path) path.length) : m.FitsAll data (f :: path) := by
  have hfound := foundBy_of_opens hc hopen hf
  have hname (i : ℕ) : (m.data.element i).replacementName = (data.element i).replacementName := by
    rcases hitems i with he | ⟨_, _, _, _, _, he⟩ <;> rw [he]
  have hedge (he : searchResolveAddr (m.replsOf path) (m.itemsAt path.length).edge ≠ ScAddr.empty) :
      f.edge = searchResolveAddr (m.replsOf path) (m.itemsAt path.length).edge := (hfound.edge he).1
  have hsource : Fits m.cells (data.element (m.indicesAt path.length).source) f.source := by
    apply fits_of_place (hitems _) hparams (fun r => h.names _ r)
    · intro hne
      obtain ⟨ha, hlive⟩ := hfound.source hne
      exact ⟨ha, ha ▸ hlive⟩
    · intro hempty
      by_cases he : searchResolveAddr (m.replsOf path) (m.itemsAt path.length).edge = ScAddr.empty
      · exact (hfound.arc he).2.2.1 hempty
      · rw [hfound.ends.1, hedge he]
        exact (htyped he).1 hempty
  have htarget : Fits m.cells (data.element (m.indicesAt path.length).target) f.target := by
    apply fits_of_place (hitems _) hparams (fun r => h.names _ r)
    · intro hne
      obtain ⟨ha, hlive⟩ := hfound.target hne
      exact ⟨ha, ha ▸ hlive⟩
    · intro hempty
      by_cases he : searchResolveAddr (m.replsOf path) (m.itemsAt path.length).edge = ScAddr.empty
      · exact (hfound.arc he).2.2.2 hempty
      · rw [hfound.ends.2, hedge he]
        exact (htyped he).2 hempty
  have hmid : Fits m.cells (data.element (m.indicesAt path.length).edge) f.edge := by
    apply fits_of_place (hitems _) hparams (fun r => h.names _ r)
    · intro hne
      obtain ⟨ha, hlive⟩ := hfound.edge hne
      exact ⟨ha, ha ▸ hlive⟩
    · intro hempty
      exact (hfound.arc hempty).2.1
  refine ⟨?_, ?_⟩
  · intro f' below hs
    rcases List.suffix_cons_iff.mp hs with he | hs
    · obtain ⟨rfl, rfl⟩ := List.cons.inj he
      exact ⟨hsource, hmid, htarget⟩
    · exact h.found f' below hs
  · exact ((h.names.ref hnames (hname _) hsource).ref hnames (hname _) hmid).ref hnames (hname _) htarget

def SearchSetup.TypedPath (m : SearchSetup) (path : List (Triple ScAddr)) : Prop :=
  m.TypedEdge (m.replsOf path) path.length

/-- The condition of a run, for the state before a round. -/
def SearchSetup.TypedStep (m : SearchSetup) (s : SearchState) : Prop :=
  s.newIteration = true → m.TypedEdge s.repls s.iterators.length

theorem typedPath_of_typedStep (s : SearchState) (k : Machine (Triple ScAddr)) (hm : m.Matches s k)
    (hf : k.fresh = true) (h : m.TypedStep s) : m.TypedPath k.choices := by
  have htyped := h (hm.newIteration.trans hf)
  rw [hm.repls, hm.iterators, List.length_map] at htyped
  unfold SearchSetup.TypedPath Machine.choices
  rw [List.length_map]
  exact htyped

theorem fits_of_frames (hc : ArcsOk m.cells) (hnames : NamesUnique data)
    (hitems : ∀ i, ParamItem (getElementType m.cells m.ctx) values data i (m.data.element i))
    (hparams : ConstParams m.cells m.ctx values)
    {frames : List (Triple ScAddr × List (Triple ScAddr))}
    (h : m.problem.FramesOk m.TypedPath frames) : m.FitsAll data (frames.map Prod.fst) := by
  induction h with
  | nil =>
    refine ⟨?_, fun _ _ _ hr => by cases hr⟩
    intro f below hs
    exact absurd (List.suffix_nil.mp hs) (List.cons_ne_nil _ _)
  | cons _ hopen htyped hmem _ _ ih => exact ih.cons hc hnames hitems hparams hopen hmem htyped

theorem SearchSetup.IsResult.typed (hord : m.Ordered) {r : SearchResult} (hres : m.IsResult path r)
    (htriples : m.data.triples = data.triples) (h : m.FitsAll data path) : r.Typed m.cells data := by
  refine ⟨?_, ?_⟩
  · intro k t f ht hf
    have hk : k < m.data.triples.length := by
      rw [htriples]
      exact (List.getElem?_eq_some_iff.mp ht).1
    obtain ⟨level, hl, rfl⟩ := hord.level hk
    have hlt : level < path.length := by
      rw [hres.length]
      exact hl
    obtain ⟨f', below, hs, rfl⟩ := exists_suffix hlt
    obtain rfl := Option.some.inj ((hres.addrs f' below hs).symm.trans hf)
    have hids := (hord.triple hl).1
    rw [htriples, ht] at hids
    obtain rfl := Option.some.inj hids
    exact h.found f' below hs
  · intro i a hname ha
    rw [hres.names] at ha
    beta_reduce at ha
    cases hr : m.replsOf path (data.element i).replacementName with
    | none =>
      rw [hr] at ha
      cases ha
    | some r' =>
      rw [hr] at ha
      obtain rfl := Option.some.inj ha
      exact h.names i r' hname hr

/-- In every memory state and for every template, parameters and structure: what the search gives are
the results of its rounds, and when these all meet the condition, every element fits its item. -/
theorem search_typed {thread : ℕ} {st : ScStorage} (evs : List StoreEvent)
    (hr : Run (OwnStep thread) ScStorage.empty evs st) (asserts : Bool) (lib : LibraryOrder)
    {ctx : ScContext} {data : ScTemplateData} (hdata : Built data) {params : ScTemplateParams}
    (hparams : ConstParams st.cell ctx params.values) (struct : ScAddr) {m : SearchSetup}
    (hm : scTemplateSearch asserts lib st.cell ctx data params struct = .ok m) :
    (∀ rounds calls, ∀ r ∈ (m.results rounds calls m.reset).1,
      ∃ founds s, Run m.Step m.reset (founds ++ [true]) s ∧ m.makeResult s = .ok r) ∧
    ∀ founds s r, Run (fun s found s' => m.TypedStep s ∧ m.Step s found s') m.reset (founds ++ [true]) s →
      m.makeResult s = .ok r → r.Typed st.cell data := by
  have hc := (ownRun_storeOk evs st hr).cells.arcs
  obtain ⟨data', happly, hm⟩ := bind_ok hm
  obtain rfl := Except.ok.inj hm
  obtain ⟨_, htriples, hitems⟩ := applyParameters_items happly
  refine ⟨?_, ?_⟩
  · intro rounds calls r hres
    have hord := ordered_of_result hres
    exact results_run hord (matches_reset hord) (Or.inr rfl) hres
  · intro founds s r hrun hmake
    have hord : (searchSetup asserts lib st.cell ctx data' struct).Ordered := by
      cases founds with
      | nil =>
        obtain ⟨_, hstep, _⟩ := hrun
        exact ordered_of_step hstep.2
      | cons b founds =>
        obtain ⟨_, hstep, _⟩ := hrun
        exact ordered_of_step hstep.2
    obtain ⟨k, hres, hok⟩ := run_result hord _ _ typedPath_of_typedStep founds hrun hmake
    exact hres.typed hord htriples (fits_of_frames hc hdata.itemsOk.namesUnique hitems hparams hok)

end

/-- The edge is known, its source is given by a parameter and its target is any node. -/
def knownEdge : Except ScException ScTemplateData :=
  ScTemplateData.empty.addTriple
    ⟨.ofType scTypeNodeVar "_x", .ofAddr ⟨0, 65⟩ "", .ofType scTypeNode "_y"⟩

theorem knownEdge_built : Built (templateOf knownEdge) :=
  Built.triple _ Built.empty (templateOf_ok (by decide +kernel))

def paramSearch : SearchSetup :=
  (scTemplateSearch true insertionLibrary (stateAfterEvents nodesWithArc ScStorage.empty).cell
    exampleContext (templateOf knownEdge) (oneParam "_x") ScAddr.empty).toOption.getD
      (exampleSearch ScTemplateData.empty)

theorem paramSearch_ok :
    scTemplateSearch true insertionLibrary (stateAfterEvents nodesWithArc ScStorage.empty).cell
      exampleContext (templateOf knownEdge) (oneParam "_x") ScAddr.empty = .ok paramSearch := by
  have hsome : (scTemplateSearch true insertionLibrary (stateAfterEvents nodesWithArc ScStorage.empty).cell
      exampleContext (templateOf knownEdge) (oneParam "_x") ScAddr.empty).toOption.isSome = true := by
    decide +kernel
  unfold paramSearch
  revert hsome
  cases scTemplateSearch true insertionLibrary (stateAfterEvents nodesWithArc ScStorage.empty).cell
      exampleContext (templateOf knownEdge) (oneParam "_x") ScAddr.empty with
  | error e => exact fun h => absurd h (by simp [Except.toOption])
  | ok m => exact fun _ => rfl

theorem search_typed_param : ∃ s r, paramSearch.round paramSearch.reset = .ok (true, s) ∧
    paramSearch.makeResult s = .ok r ∧
      r.Typed (stateAfterEvents nodesWithArc ScStorage.empty).cell (templateOf knownEdge) := by
  obtain ⟨s, r, hround, hmake⟩ := @exists_of_firstResult paramSearch (by decide +kernel)
  have htyped : paramSearch.TypedStep paramSearch.reset := by
    intro _ _
    refine ⟨fun hsource => absurd hsource ?_, fun _ => ?_⟩
    · decide +kernel
    · decide +kernel
  have hparams : ConstParams (stateAfterEvents nodesWithArc ScStorage.empty).cell exampleContext
      (oneParam "_x").values := by
    intro p hp
    obtain rfl := List.mem_singleton.mp hp
    exact ⟨by decide, fun _ _ => by decide +kernel⟩
  exact ⟨s, r, hround, hmake, (search_typed nodesWithArc nodesWithArc_run true insertionLibrary
    knownEdge_built hparams ScAddr.empty paramSearch_ok).2 [] s r
      ⟨s, ⟨htyped, Or.inr rfl, hround⟩, rfl⟩ hmake⟩

/-- A link is asked for at the source of an arc that is known. -/
def linkByEdge : Except ScException ScTemplateData :=
  ScTemplateData.empty.addTriple
    ⟨.ofType (scTypeLink ||| scTypeVar) "_x", .ofAddr ⟨0, 65⟩ "", .ofAddr ⟨0, 33⟩ ""⟩

/-- The source of the arc is a node. -/
theorem node_for_link : ¬ ∀ (asserts : Bool) (evs : List StoreEvent) (st : ScStorage)
    (lib : LibraryOrder) (ctx : ScContext) (data : ScTemplateData) (params : ScTemplateParams) (struct : ScAddr)
    (m : SearchSetup) (rounds calls : ℕ) (r : SearchResult), Run (OwnStep 1) ScStorage.empty evs st →
      Built data → scTemplateSearch asserts lib st.cell ctx data params struct = .ok m →
      r ∈ (m.results rounds calls m.reset).1 → r.Typed st.cell data := by
  intro hall
  have hbuilt : Built (templateOf linkByEdge) :=
    Built.triple _ Built.empty (templateOf_ok (by decide +kernel))
  have haddrs : ((exampleSearch (templateOf linkByEdge)).results 1 1
      (exampleSearch (templateOf linkByEdge)).reset).1.map (·.addrs) =
        [[⟨⟨0, 1⟩, ⟨0, 65⟩, ⟨0, 33⟩⟩]] := by decide +kernel
  cases hres : ((exampleSearch (templateOf linkByEdge)).results 1 1
      (exampleSearch (templateOf linkByEdge)).reset).1 with
  | nil =>
    rw [hres] at haddrs
    cases haddrs
  | cons r rest =>
    rw [hres] at haddrs
    have hr : r.addrs = [⟨⟨0, 1⟩, ⟨0, 65⟩, ⟨0, 33⟩⟩] := (List.cons.inj haddrs).1
    have htyped := hall true nodesWithArc _ insertionLibrary exampleContext (templateOf linkByEdge)
      ScTemplateParams.empty ScAddr.empty (exampleSearch (templateOf linkByEdge)) 1 1 r nodesWithArc_run
      hbuilt rfl (hres ▸ List.mem_cons_self)
    have htriples : (templateOf linkByEdge).triples = [⟨0, 1, 2⟩] := by decide +kernel
    have hfits := (htyped.addrs 0 ⟨0, 1, 2⟩ ⟨⟨0, 1⟩, ⟨0, 65⟩, ⟨0, 33⟩⟩ (by rw [htriples]; rfl)
      (by rw [hr]; rfl)).1 (by decide +kernel)
    revert hfits
    decide +kernel

end ScMachine.Template
