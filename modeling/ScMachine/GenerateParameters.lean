import ScMachine.GenerateSteps
import ScMachine.TemplateItems

/-! The parameters of a generation and of a search. A generation looks a parameter up by the own name
of an item, a search by every name that stands for it. -/
namespace ScMachine.Template
open ScMachine.Store ScMachine.StateExcept ScMachine.Runs

/-- The parameter under the own name of an item. -/
def ownParam (params : ScTemplateParams) (item : ScTemplateArg) : ScAddr :=
  if item.hasReplacementName then params.tryGet item.replacementName else ScAddr.empty

/-- The element that an item has by itself: the parameter under its own name, or its address. -/
def givenAddr (params : ScTemplateParams) (item : ScTemplateArg) : ScAddr :=
  if ownParam params item ≠ ScAddr.empty then ownParam params item
  else if item.kind = .addr then item.addrValue
  else ScAddr.empty

/-- The names of a result belong to items at the places `ps`, and stand for elements that were not
there before or that the items have by themselves. -/
def NamesFrom (data : ScTemplateData) (params : ScTemplateParams) (st0 : ScStorage) (ps : List ℕ)
    (result : ScTemplateNamedStruct) : Prop :=
  ∀ name a, result.names name = some a → ∃ i ∈ ps, (data.element i).replacementName = name ∧
    ((st0.cell a).type = 0 ∨ a = givenAddr params (data.element i))

/-- The element `a` of an end: the one that the item has by itself, or else a new one. -/
def EndFrom (params : ScTemplateParams) (st0 : ScStorage) (item : ScTemplateArg) (a : ScAddr) : Prop :=
  givenAddr params item ≠ ScAddr.empty ∧ a = givenAddr params item ∨
    givenAddr params item = ScAddr.empty ∧ (st0.cell a).type = 0

section
variable {ctx : ScContext} {data : ScTemplateData} {params : ScTemplateParams}
  {st0 st s st' : ScStorage} {g g' : GenerateState} {ps qs : List ℕ} {i : ℕ} {a : ScAddr}
  {result : ScTemplateNamedStruct} {item : ScTemplateArg} {name : String}

theorem knownAddr_eq (params : ScTemplateParams) (result : ScTemplateNamedStruct)
    (item : ScTemplateArg) : knownAddr params result item =
      if ownParam params item ≠ ScAddr.empty then ownParam params item
      else match item.kind with
        | .addr => item.addrValue
        | .type => if item.hasReplacementName then result.get item.replacementName else ScAddr.empty
        | .replace => result.get item.replacementName := rfl

theorem knownAddr_given (h : givenAddr params item ≠ ScAddr.empty) :
    knownAddr params result item = givenAddr params item := by
  rw [knownAddr_eq]
  unfold givenAddr at h ⊢
  by_cases hv : ownParam params item = ScAddr.empty
  · rw [if_neg (not_not.mpr hv)] at h ⊢
    by_cases hk : item.kind = .addr
    · rw [if_neg (not_not.mpr hv), if_pos hk, hk]
    · rw [if_neg hk] at h
      exact absurd rfl h
  · rw [if_pos hv, if_pos hv]

theorem ownParam_of_given (h : givenAddr params item = ScAddr.empty) :
    ownParam params item = ScAddr.empty := by
  unfold givenAddr at h
  by_contra hv
  rw [if_pos hv] at h
  exact hv h

theorem knownAddr_type (h : givenAddr params item = ScAddr.empty) (hk : item.kind = .type) :
    knownAddr params result item =
      if item.hasReplacementName then result.get item.replacementName else ScAddr.empty := by
  rw [knownAddr_eq, if_neg (not_not.mpr (ownParam_of_given h)), hk]

/-- An item of a template with nothing by itself is one of a type. -/
theorem ItemsOk.type_of_given (h : ItemsOk data ps)
    (hg : givenAddr params (data.element i) = ScAddr.empty) : (data.element i).kind = .type := by
  cases hk : (data.element i).kind with
  | type => rfl
  | replace => exact absurd hk (h.kinds i)
  | addr =>
    have hown := ownParam_of_given hg
    unfold givenAddr at hg
    rw [if_neg (not_not.mpr hown), if_pos hk] at hg
    exact absurd hg (h.addrs i hk).1

theorem get_some {a : ScAddr} (h : result.get name = a) (ha : a ≠ ScAddr.empty) :
    result.names name = some a := by
  unfold ScTemplateNamedStruct.get at h
  cases hn : result.names name with
  | none =>
    rw [hn] at h
    exact absurd h.symm ha
  | some b =>
    rw [hn] at h
    exact congrArg some h

/-- What an item without an element of its own resolves to. -/
theorem ItemResolved.type_cases (h : ItemResolved ctx params item st g a st' g')
    (hg : givenAddr params item = ScAddr.empty) (hk : item.kind = .type) :
    (item.hasReplacementName = true ∧ g.result.names item.replacementName = some a ∧ st' = st) ∨
      ((item.hasReplacementName = true → g.result.get item.replacementName = ScAddr.empty) ∧
        EndCreated ctx item.typeValue.upConstType st a st') := by
  cases h with
  | known hne =>
    have hknown : knownAddr params g.result item = _ := knownAddr_type hg hk
    rw [hknown] at hne ⊢
    split_ifs at hne ⊢ with hname
    · exact Or.inl ⟨hname, get_some rfl hne, rfl⟩
    · exact absurd rfl hne
  | fresh _ _ hunknown _ hcr =>
    refine Or.inr ⟨fun hname => ?_, hcr⟩
    rw [knownAddr_type hg hk, if_pos hname] at hunknown
    exact hunknown

theorem ItemResolved.given (h : ItemResolved ctx params item st g a st' g')
    (hg : givenAddr params item ≠ ScAddr.empty) : a = givenAddr params item ∧ st' = st := by
  cases h with
  | known _ => exact ⟨knownAddr_given hg, rfl⟩
  | fresh _ _ hunknown _ _ =>
    rw [knownAddr_given hg] at hunknown
    exact absurd hunknown hg

theorem ItemResolved.endFrom (hdata : ItemsOk data ps) {new : Set ScAddr} (hg : GrownBy st0 new st)
    (hn : NamesFrom data params st0 qs g.result)
    (h : ItemResolved ctx params (data.element i) st g a st' g') :
    EndFrom params st0 (data.element i) a := by
  by_cases he : givenAddr params (data.element i) = ScAddr.empty
  · refine Or.inr ⟨he, ?_⟩
    rcases h.type_cases he (hdata.type_of_given he) with ⟨hname, hres, _⟩ | ⟨_, hcr⟩
    · obtain ⟨j, _, hj, hnew | hgiven⟩ := hn _ _ hres
      · exact hnew
      · obtain rfl := hdata.name_injective hname hj
        exact absurd (hgiven.trans he) h.notEmpty
    · exact hg.was_free hcr.created.refCount.2.2.1
  · exact Or.inl ⟨he, (h.given he).1⟩

theorem EndFrom.from_or (h : EndFrom params st0 item a) :
    (st0.cell a).type = 0 ∨ a = givenAddr params item := by
  rcases h with ⟨_, h⟩ | ⟨_, h⟩
  · exact Or.inr h
  · exact Or.inl h

/-- The entry of an item keeps the origin of the names. -/
theorem NamesFrom.addResult (h : NamesFrom data params st0 qs result) (hi : i ∈ qs)
    (ha : (st0.cell a).type = 0 ∨ a = givenAddr params (data.element i)) :
    NamesFrom data params st0 qs
      (addResult (data.element i).replacementName a result) := by
  unfold Template.addResult
  split_ifs
  · exact h
  · intro name b hb
    unfold ScTemplateNamedStruct.add at hb
    by_cases hname : name = (data.element i).replacementName
    · rw [hname] at hb
      obtain rfl := Option.some.inj ((Function.update_self _ _ result.names).symm.trans hb)
      exact ⟨i, hi, hname.symm, ha⟩
    · exact h name b ((Function.update_of_ne hname _ result.names).symm.trans hb)

theorem NamesFrom.mono (h : NamesFrom data params st0 ps result) (hsub : ps ⊆ qs) :
    NamesFrom data params st0 qs result := by
  intro name a ha
  obtain ⟨i, hi, hrest⟩ := h name a ha
  exact ⟨i, hsub hi, hrest⟩

theorem TripleGenerated.names (hdata : ItemsOk data ps) {new : Set ScAddr}
    (hg : GrownBy st0 new st) (hn : NamesFrom data params st0 qs g.result) {t : Triple ℕ}
    {ends : Triple ScAddr} (h : TripleGenerated ctx params (data.items t) st g ends st' g') :
    EndFrom params st0 (data.element t.source) ends.source ∧
      EndFrom params st0 (data.element t.target) ends.target ∧
      NamesFrom data params st0 (qs ++ t.toList) g'.result := by
  obtain ⟨s1, g1, s2, g2, hres1, hres2, _, _, hcr⟩ := h.resolved
  obtain ⟨n1, hg1, _⟩ := hres1.grown
  obtain ⟨n2, hg2, _⟩ := hres2.grown
  have hn1 : NamesFrom data params st0 qs g1.result := by
    rw [hres1.result_eq]
    exact hn
  have hsource := hres1.endFrom hdata hg hn
  have htarget := hres2.endFrom hdata (hg.trans hg1) hn1
  have harc : (st0.cell ends.edge).type = 0 :=
    ((hg.trans hg1).trans hg2).was_free hcr.created.refCount.2.2.1
  refine ⟨hsource, htarget, ?_⟩
  rw [h.result]
  have hsub : qs ⊆ qs ++ t.toList := List.subset_append_left _ _
  have h1 := (hn.mono hsub).addResult (i := t.source) (by simp [Triple.toList]) hsource.from_or
  have h2 := h1.addResult (i := t.edge) (by simp [Triple.toList]) (Or.inl harc)
  exact h2.addResult (i := t.target) (by simp [Triple.toList]) htarget.from_or

/-- Every end of a generated arc is what its item has by itself, or new. -/
theorem TriplesGenerated.ends (hdata : ItemsOk data ps) {new : Set ScAddr}
    (hg : GrownBy st0 new st) (hn : NamesFrom data params st0 qs g.result) {ts : List (Triple ℕ)}
    {ends : List (Triple ScAddr)}
    (h : TriplesGenerated ctx params (ts.map data.items) st g ends st' g') (n : ℕ) {t : Triple ℕ}
    {e : Triple ScAddr} (ht : ts[n]? = some t) (he : ends[n]? = some e) :
    EndFrom params st0 (data.element t.source) e.source ∧
      EndFrom params st0 (data.element t.target) e.target := by
  induction ts generalizing st g ends n qs new with
  | nil => simp at ht
  | cons t1 ts ih =>
    rw [List.map_cons] at h
    cases h with
    | cons h1 h2 =>
      obtain ⟨hsource, htarget, hn1⟩ := h1.names hdata hg hn
      obtain ⟨n1, hg1, _⟩ := h1.grown
      cases n with
      | zero =>
        obtain rfl := Option.some.inj (by simpa using ht)
        obtain rfl := Option.some.inj (by simpa using he)
        exact ⟨hsource, htarget⟩
      | succ n => exact ih (hg.trans hg1) hn1 h2 n (by simpa using ht) (by simpa using he)

theorem namesFrom_empty (data : ScTemplateData) (params : ScTemplateParams) (st0 : ScStorage) :
    NamesFrom data params st0 [] ScTemplateNamedStruct.empty :=
  fun _ _ h => absurd h (by simp [ScTemplateNamedStruct.empty])

/-- The values of the parameters are the elements of the items that their keys stand for, wherever
the generated arcs have them. -/
def Honoured (data : ScTemplateData) (params : ScTemplateParams) (st' : ScStorage)
    (arcs : List ScAddr) : Prop :=
  ∀ p ∈ params.values, ∀ i, data.repl p.1 = some i → ∀ (n : ℕ) (t : Triple ℕ) (arc : ScAddr),
    data.triples[n]? = some t → arcs[n]? = some arc →
      (t.source = i → ownerOf st'.cell .out arc = p.2) ∧ (t.edge = i → arc = p.2) ∧
        (t.target = i → ownerOf st'.cell .inp arc = p.2)

/-- No key stands for an edge, and a key that stands for an end of a triple gives it what the end has
by itself, as the own name of the item does. -/
def KeysOwn (data : ScTemplateData) (params : ScTemplateParams) : Prop :=
  ∀ p ∈ params.values, ∀ i, data.repl p.1 = some i → ∀ t ∈ data.triples, t.edge ≠ i ∧
    (t.source = i ∨ t.target = i → p.2 ≠ ScAddr.empty ∧ givenAddr params (data.element i) = p.2)

/-- The value under a key is the one that is found by it. -/
theorem tryGet_mem {p : String × ScAddr} (hp : p ∈ params.values) : params.tryGet p.1 = p.2 := by
  unfold ScTemplateParams.tryGet
  have hfind : params.values.find? (fun q => q.1 == p.1) = some p := by
    cases hf : params.values.find? (fun q => q.1 == p.1) with
    | none =>
      have hno := List.find?_eq_none.mp hf p hp
      simp at hno
    | some q =>
      have hq := List.mem_of_find?_eq_some hf
      have hkey : q.1 = p.1 := by simpa using List.find?_some hf
      rw [List.inj_on_of_nodup_map params.nodup hq hp hkey]
  rw [hfind]
  rfl

/-- What a parameter does to a template that takes it. -/
structure ParameterApplied (typeOf : ScAddr → ScType) (data : ScTemplateData) (key : String)
    (value : ScAddr) (i : ℕ) (data' : ScTemplateData) : Prop where
  key : data.repl key = some i
  kind : (data.element i).kind = .type
  assign : canAssignParam (data.element i).typeValue (typeOf value) = true
  repl : data'.repl = data.repl
  triples : data'.triples = data.triples
  item : data'.element i = ⟨.addr, value, 0, (data.element i).replacementName⟩
  others : ∀ j, j ≠ i → data'.element j = data.element j

theorem applyParameter_applied {typeOf : ScAddr → ScType} {key : String} {value : ScAddr}
    {data' : ScTemplateData} (happly : applyParameter typeOf data key value = .ok data') :
    ∃ i, ParameterApplied typeOf data key value i data' := by
  unfold applyParameter at happly
  cases hi : data.repl key with
  | none =>
    rw [hi] at happly
    cases happly
  | some i =>
    rw [hi] at happly
    simp only at happly
    split_ifs at happly with hkind hvar hconst hassign
    obtain rfl := Except.ok.inj happly
    have hlt : i < data.elements.length := by
      by_contra hge
      rw [element_of_le (not_lt.mp hge)] at hvar
      exact hvar (by decide)
    refine ⟨i, hi, not_not.mp hkind, by simpa using hassign, rfl, rfl, ?_, ?_⟩
    · unfold ScTemplateData.element
      rw [List.getD_eq_getElem?_getD, List.getElem?_set_self hlt]
      rfl
    · intro j hj
      unfold ScTemplateData.element
      rw [List.getD_eq_getElem?_getD, List.getElem?_set_ne hj.symm, List.getD_eq_getElem?_getD]

/-- A search fixes the item of a key to its value, or refuses the parameters. -/
theorem applyParameters_fixes {typeOf : ScAddr → ScType} {values : List (String × ScAddr)}
    {data' : ScTemplateData} (happly : applyParameters typeOf data values = .ok data') :
    data'.repl = data.repl ∧ (∀ i, (data.element i).kind ≠ .type → data'.element i = data.element i) ∧
      ∀ p ∈ values, ∃ i, data.repl p.1 = some i ∧ (data'.element i).kind = .addr ∧
        (data'.element i).addrValue = p.2 := by
  induction values generalizing data with
  | nil =>
    obtain rfl := Except.ok.inj happly
    exact ⟨rfl, fun _ _ => rfl, by simp⟩
  | cons p values ih =>
    obtain ⟨key, value⟩ := p
    obtain ⟨data1, h1, h2⟩ := bind_ok happly
    obtain ⟨hrepl, hkeep, hrest⟩ := ih h2
    obtain ⟨i, hone⟩ := applyParameter_applied h1
    refine ⟨hrepl.trans hone.repl, ?_, ?_⟩
    · intro j hj
      have hij : j ≠ i := by
        rintro rfl
        exact hj hone.kind
      rw [hkeep j (by rw [hone.others j hij]; exact hj), hone.others j hij]
    · intro p hp
      rcases List.mem_cons.mp hp with rfl | hp
      · refine ⟨i, hone.key, ?_⟩
        rw [hkeep i (by rw [hone.item]; exact fun h => by cases h), hone.item]
        exact ⟨rfl, rfl⟩
      · obtain ⟨j, hj, hfix⟩ := hrest p hp
        exact ⟨j, hone.repl ▸ hj, hfix⟩

theorem TriplesGenerated.honoured (hdata : ItemsOk data ps) {ends : List (Triple ScAddr)}
    (h : TriplesGenerated ctx params (data.triples.map data.items) st
      ⟨ScTemplateNamedStruct.empty, []⟩ ends st' g') (hkeys : KeysOwn data params) :
    Honoured data params st' (ends.map Triple.edge) := by
  intro p hp i hi n t arc ht harc
  obtain ⟨hedge, hend⟩ := hkeys p hp i hi t (List.mem_of_getElem? ht)
  rw [List.getElem?_map, Option.map_eq_some_iff] at harc
  obtain ⟨e, he, rfl⟩ := harc
  obtain ⟨hsource, htarget⟩ := h.ends hdata (GrownBy.refl st) (namesFrom_empty data params st) n ht he
  obtain ⟨hbetween, _⟩ := h.arcs n (by rw [List.getElem?_map, ht]; rfl) he
  have hvalue (a : ScAddr) (hne : p.2 ≠ ScAddr.empty) (hgiven : givenAddr params (data.element i) = p.2)
      (ha : EndFrom params st (data.element i) a) : a = p.2 := by
    rcases ha with ⟨_, rfl⟩ | ⟨h0, _⟩
    · exact hgiven
    · exact absurd (hgiven.symm.trans h0) hne
  refine ⟨?_, fun he => absurd he hedge, ?_⟩
  · rintro rfl
    obtain ⟨hne, hgiven⟩ := hend (Or.inl rfl)
    rw [hbetween.source]
    exact hvalue _ hne hgiven hsource
  · rintro rfl
    obtain ⟨hne, hgiven⟩ := hend (Or.inr rfl)
    rw [hbetween.target]
    exact hvalue _ hne hgiven htarget

theorem TriplesGenerated.keysOwn (hdata : ItemsOk data ps) {ends : List (Triple ScAddr)}
    (h : TriplesGenerated ctx params (data.triples.map data.items) st
      ⟨ScTemplateNamedStruct.empty, []⟩ ends st' g')
    (hempty : ¬ Live st.cell ScAddr.empty) (hlive : ∀ p ∈ params.values, Live st.cell p.2)
    (hhon : Honoured data params st' (ends.map Triple.edge)) : KeysOwn data params := by
  intro p hp i hi t ht
  have hlivep := hlive p hp
  have hne : p.2 ≠ ScAddr.empty := fun h0 => hempty (h0 ▸ hlivep)
  obtain ⟨n, hn⟩ := List.mem_iff_getElem?.mp ht
  have hlen := h.length_eq
  rw [List.length_map] at hlen
  have hlt : n < ends.length := by
    rw [hlen]
    exact (List.getElem?_eq_some_iff.mp hn).1
  have he : ends[n]? = some ends[n] := List.getElem?_eq_getElem hlt
  obtain ⟨hsource, htarget⟩ := h.ends hdata (GrownBy.refl st) (namesFrom_empty data params st) n hn he
  obtain ⟨hbetween, hfree⟩ := h.arcs n (by rw [List.getElem?_map, hn]; rfl) he
  obtain ⟨hs, hedge, htgt⟩ := hhon p hp i hi n t ends[n].edge hn (by rw [List.getElem?_map, he]; rfl)
  have hgiven (a : ScAddr) (hav : a = p.2) (ha : EndFrom params st (data.element i) a) :
      givenAddr params (data.element i) = p.2 := by
    rcases ha with ⟨_, h1⟩ | ⟨_, h0⟩
    · rw [← h1, hav]
    · rw [hav] at h0
      exact absurd h0 (type_of_live hlivep)
  refine ⟨fun h1 => ?_, ?_⟩
  · -- the arc of the triple is new
    rw [hedge h1] at hfree
    exact type_of_live hlivep hfree
  · rintro (rfl | rfl)
    · exact ⟨hne, hgiven _ (hbetween.source.symm.trans (hs rfl)) hsource⟩
    · exact ⟨hne, hgiven _ (hbetween.target.symm.trans (htgt rfl)) htarget⟩

/-- In every memory state and for every template: the parameters of a generation that returns a
result are honoured when every key is an own name, and only then when the values are elements; a
search fixes each item to its value whatever the key is. -/
theorem generate_honours_parameters {asserts : Bool} {thread : ℕ} {env : ScEnv} (evs : List StoreEvent)
    (hr : Run (OwnStep thread) ScStorage.empty evs st) (henv : env.thread = thread)
    (order : HashOrder) (hdata : Built data)
    (harc : ∀ t ∈ data.triples, ArcTyped asserts (data.items t))
    {r : ScTemplateNamedStruct}
    (hdo : scTemplateGenerateDo asserts env ctx order data params st = .ok (.generated r, st')) :
    ∃ arcs g, generateTriples asserts env ctx params (data.triples.map data.items)
        ⟨ScTemplateNamedStruct.empty, []⟩ st = .ok (.ok (some arcs, g), st') ∧ g.result = r ∧
      (KeysOwn data params → Honoured data params st' arcs) ∧
      ((∀ p ∈ params.values, Live st.cell p.2) →
        Honoured data params st' arcs → KeysOwn data params) ∧
      ∀ typeOf data', applyParameters typeOf data params.values = .ok data' →
        ∀ p ∈ params.values, ∃ i, data.repl p.1 = some i ∧ (data'.element i).kind = .addr ∧
          (data'.element i).addrValue = p.2 := by
  subst henv
  have hok := ownRun_storeOk evs st hr
  obtain ⟨_, _, g', arcs, hgen, hres, ends, rfl, hrun⟩ :=
    scTemplateGenerateDo_generated hok order harc hdo
  exact ⟨_, g', hgen, hres, hrun.honoured hdata.itemsOk, hrun.keysOwn hdata.itemsOk hok.cells.arcs.notEmpty,
    fun typeOf data' happly => (applyParameters_fixes happly).2.2⟩

end

/-! A template of one triple from `_x` to `_y`, where `_y` has the address of another node as an alias,
as `ScTemplateStructBuilder` gives it, in a memory of two nodes. -/

def templateOf (x : Except ScException ScTemplateData) : ScTemplateData :=
  x.toOption.getD ScTemplateData.empty

theorem templateOf_ok {x : Except ScException ScTemplateData} (h : x.toOption.isSome = true) :
    x = .ok (templateOf x) := by
  cases x with
  | error e => exact absurd h (by simp [Except.toOption])
  | ok d => rfl

def scTypeNodeVar : ScType := scTypeNode ||| scTypeVar
def scTypeEdgeAccessVarPosPerm : ScType := scTypeVar ||| scTypeArcAccess ||| 0x800 ||| 0x80

def exampleTriple : Except ScException ScTemplateData :=
  ScTemplateData.empty.addTriple
    ⟨.ofType scTypeNodeVar "_x", .ofType scTypeEdgeAccessVarPosPerm "", .ofType scTypeNodeVar "_y"⟩

def exampleAlias : Except ScException ScTemplateData :=
  (templateOf exampleTriple).setupReplAlias true "_y" (ScAddr.toString ⟨0, 33⟩)

theorem exampleTriple_built : Built (templateOf exampleTriple) :=
  Built.triple _ Built.empty (templateOf_ok (by decide))

theorem exampleAlias_built : Built (templateOf exampleAlias) :=
  Built.replAlias _ _ exampleTriple_built (templateOf_ok (by decide))

theorem exampleAlias_arcTyped (asserts : Bool) :
    ∀ t ∈ (templateOf exampleAlias).triples, ArcTyped asserts ((templateOf exampleAlias).items t) := by
  unfold ArcTyped
  cases asserts <;> decide

def twoNodes : List StoreEvent :=
  [⟨exampleEnv, .call (.nodeNew exampleContext (scTypeNode ||| scTypeConst))⟩,
    ⟨exampleEnv, .call (.nodeNew exampleContext scTypeNodeVar)⟩]

theorem twoNodes_run :
    Run (OwnStep 1) ScStorage.empty twoNodes (stateAfterEvents twoNodes ScStorage.empty) :=
  ownRun_of_ownEvents twoNodes ScStorage.empty (by decide)

def listedOrder : HashOrder := ⟨id, List.Perm.refl⟩

/-- The only parameter is the first node. -/
def oneParam (key : String) : ScTemplateParams := ⟨[(key, ⟨0, 1⟩)], List.nodup_singleton key⟩

def exampleDo (asserts : Bool) (data : ScTemplateData) (params : ScTemplateParams) :
    Except ScStop (GenerateOutcome × ScStorage) :=
  scTemplateGenerateDo asserts exampleEnv exampleContext listedOrder data params
    (stateAfterEvents twoNodes ScStorage.empty)

def isGenerated (x : Except ScStop (GenerateOutcome × ScStorage)) : Bool :=
  match x with
  | .ok (.generated _, _) => true
  | _ => false

theorem exists_of_isGenerated {x : Except ScStop (GenerateOutcome × ScStorage)}
    (h : isGenerated x = true) : ∃ r st', x = .ok (.generated r, st') := by
  unfold isGenerated at h
  split at h
  · exact ⟨_, _, rfl⟩
  · cases h

/-- The ends of the arcs, as a call leaves them. -/
def endsOf (x : Except ScStop (Except ScException (Option (List ScAddr) × GenerateState) × ScStorage)) :
    List (Triple ScAddr) :=
  match x with
  | .ok (.ok (some arcs, _), st') =>
    arcs.map fun a => ⟨ownerOf st'.cell .out a, a, ownerOf st'.cell .inp a⟩
  | _ => []

theorem generate_honours_parameters_own : ∃ r st',
    exampleDo true (templateOf exampleAlias) (oneParam "_y") = .ok (.generated r, st') ∧
      ∃ arcs, Honoured (templateOf exampleAlias) (oneParam "_y") st' arcs := by
  have hgen : isGenerated (exampleDo true (templateOf exampleAlias) (oneParam "_y")) = true := by
    decide +kernel
  obtain ⟨r, st', hdo⟩ := exists_of_isGenerated hgen
  obtain ⟨arcs, g, _, _, hhon, _⟩ := generate_honours_parameters twoNodes twoNodes_run rfl
    listedOrder exampleAlias_built (exampleAlias_arcTyped true) hdo
  refine ⟨r, st', hdo, arcs, hhon ?_⟩
  intro p hp i hi t ht
  obtain rfl := List.mem_singleton.mp hp
  have hi2 : i = 2 := Option.some.inj (hi.symm.trans (by decide +kernel))
  have ht0 : t = ⟨0, 1, 2⟩ := by
    have hall : ∀ t ∈ (templateOf exampleAlias).triples, t = ⟨0, 1, 2⟩ := by decide +kernel
    exact hall t ht
  subst hi2 ht0
  exact ⟨by decide, fun _ => ⟨by decide, by decide +kernel⟩⟩

/-- The key of the test `parameters_addrs`, the printed address of an item, is not honoured. -/
theorem alias_not_honoured : ¬ ∀ (asserts : Bool) (evs : List StoreEvent) (st st' : ScStorage)
    (data : ScTemplateData) (params : ScTemplateParams) (r : ScTemplateNamedStruct)
    (arcs : List ScAddr) (g : GenerateState), Run (OwnStep 1) ScStorage.empty evs st → Built data →
      (∀ t ∈ data.triples, ArcTyped asserts (data.items t)) →
      scTemplateGenerateDo asserts exampleEnv exampleContext listedOrder data params st =
        .ok (.generated r, st') →
      generateTriples asserts exampleEnv exampleContext params (data.triples.map data.items)
        ⟨ScTemplateNamedStruct.empty, []⟩ st = .ok (.ok (some arcs, g), st') →
      Honoured data params st' arcs := by
  intro hall
  have hgen : isGenerated (exampleDo true (templateOf exampleAlias) (oneParam (ScAddr.toString ⟨0, 33⟩))) =
      true := by decide +kernel
  obtain ⟨r, st', hdo⟩ := exists_of_isGenerated hgen
  have hok := ownRun_storeOk twoNodes _ twoNodes_run
  obtain ⟨_, _, g, arcs, hrun, _⟩ := scTemplateGenerateDo_generated hok listedOrder
    (exampleAlias_arcTyped true) hdo
  have hhon := hall true twoNodes _ st' _ _ r arcs g twoNodes_run exampleAlias_built
    (exampleAlias_arcTyped true) hdo hrun
  have hends : endsOf (generateTriples true exampleEnv exampleContext (oneParam (ScAddr.toString ⟨0, 33⟩))
      ((templateOf exampleAlias).triples.map (templateOf exampleAlias).items)
      ⟨ScTemplateNamedStruct.empty, []⟩ (stateAfterEvents twoNodes ScStorage.empty)) =
        [⟨⟨0, 65⟩, ⟨0, 129⟩, ⟨0, 97⟩⟩] := by decide +kernel
  rw [hrun] at hends
  have hlen := congrArg List.length hends
  simp only [endsOf, List.length_map, List.length_singleton] at hlen
  obtain ⟨arc, rfl⟩ := List.length_eq_one_iff.mp hlen
  have htarget := (hhon (ScAddr.toString ⟨0, 33⟩, ⟨0, 1⟩) List.mem_cons_self 2 (by decide +kernel) 0
    ⟨0, 1, 2⟩ arc (by decide +kernel) rfl).2.2 rfl
  have hend : ownerOf st'.cell .inp arc = ⟨0, 97⟩ := congrArg Triple.target (List.cons.inj hends).1
  rw [htarget] at hend
  exact absurd hend (by decide)

end ScMachine.Template
