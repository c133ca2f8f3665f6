import ScMachine.CommandParameters
import ScMachine.ScpElementSearch
import ScMachine.ScpSearchResults

/-! Generation by a pattern (`sc_system_gen.cpp`): for each variable of the pattern a constant
element is made, for an arc after those for its ends. -/
namespace ScMachine.Scp
open ScMachine.Store ScMachine.Template ScMachine.StateExcept ScMachine.Runs ScMachine.Agent

/-- The two maps that a generation fills. -/
structure GenMaps where
  params : ScTypeResult
  result : ScTypeResult

def GenMaps.insert (maps : GenMaps) (key value : ScAddr) : GenMaps :=
  ⟨maps.params.insertIfNew key value, maps.result.insertIfNew key value⟩

/-- The type of a variable with `var` replaced by `const`. -/
def generatedType (varType : ScType) : ScType := (~~~scTypeVar &&& varType) ||| scTypeConst

section
variable (env : ScEnv) (ctx : ScContext)

/-- `gen_correspondence_for_var` of at most as many calls inside each other. A call that fails sets no
variable; nothing is said of what is done with one that has not been set. -/
def genCorrespondenceForVar : ℕ → ScAddr → GenMaps → StoreM (ScAddr × GenMaps)
  | 0, _, _ => throw ScStop.diverge
  | fuel+1, varElem, maps =>
    match maps.params[varElem]? with
    | some constElem => pure (constElem, maps)
    | none => do
      let s ← get
      match scMemoryGetElementType s.cell ctx varElem with
      | none => throw ScStop.abort
      | some varType =>
        if scTypeNode &&& varType = scTypeNode then do
          let constElem ← scStorageNodeNew env ctx (generatedType varType)
          pure (constElem, maps.insert varElem constElem)
        else
          -- a link has no ends
          match scMemoryGetArcBegin s.cell ctx varElem, scMemoryGetArcEnd s.cell ctx varElem with
          | some varBegin, some varEnd => do
            let (constBegin, maps) ← genCorrespondenceForVar fuel varBegin maps
            let (constEnd, maps) ← genCorrespondenceForVar fuel varEnd maps
            let constElem ← scStorageArcNew env ctx (generatedType varType) constBegin constEnd
            pure (constElem, maps.insert varElem constElem)
          | _, _ => throw ScStop.abort

/-- The loop over the variables. -/
def genVariables (fuel : ℕ) : List ScAddr → GenMaps → StoreM GenMaps
  | [], maps => pure maps
  | var :: vars, maps => do
    let (_, maps) ← genCorrespondenceForVar env ctx fuel var maps
    genVariables fuel vars maps

/-- The elements of the pattern that have the type, as an iterator yields them. -/
def patternElements (c : Cells) (pattern : ScAddr) (type : ScType) : List ScAddr :=
  (iterated c ctx (.faa pattern 0 type)).map (·.target)

/-- `params` with the constant nodes of the pattern. -/
def genAllPairs (c : Cells) (pattern : ScAddr) (params : ScTypeResult) : ScTypeResult :=
  insertPairs params ((patternElements ctx c pattern (scTypeNode ||| scTypeConst)).map fun node =>
    (node, node))

/-- `system_sys_gen` with an empty `result`. The arcs that are made come before those that an
iterator has still to yield. -/
def systemSysGen (fuel : ℕ) (pattern : ScAddr) (params : ScTypeResult) :
    StoreM (ScResult × ScTypeResult) := do
  let s ← get
  let maps ← genVariables env ctx fuel (patternElements ctx s.cell pattern scTypeVar)
    ⟨genAllPairs ctx s.cell pattern params, ∅⟩
  pure (.ok, maps.result)

end

/-! What a pattern asks for. -/

section
variable (c : Cells) (pattern : ScAddr) (params : ScTypeResult)

/-- The element is in the pattern. -/
def InPattern (x : ScAddr) : Prop :=
  ∃ e, LiveArc c e ∧ ownerOf c .out e = pattern ∧ ownerOf c .inp e = x

/-- A variable of the pattern that is not in `params`. -/
def IsOpen (v : ScAddr) : Prop := InPattern c pattern v ∧ HasType c v scTypeVar ∧ params[v]? = none

/-- A constant node of the pattern. -/
def IsConstNode (x : ScAddr) : Prop :=
  InPattern c pattern x ∧ HasType c x (scTypeNode ||| scTypeConst)

/-- The table has the element from the start, or it has to be made. -/
def IsCovered (x : ScAddr) : Prop :=
  (params[x]?).isSome ∨ IsConstNode c pattern x ∨ IsOpen c pattern params x

/-- What has to be made is a node, or an arc between elements that the table comes to have. -/
def Coverable : Prop :=
  ∀ v, IsOpen c pattern params v → ¬ IsConstNode c pattern v ∧ (HasType c v scTypeNode ∨
    LiveArc c v ∧ ∀ d, IsCovered c pattern params (ownerOf c d v))

end

/-- The element that stands for one of the pattern. -/
def imageOf (params result : ScTypeResult) (x : ScAddr) : ScAddr :=
  (params[x]?).getD ((result[x]?).getD x)

/-- Each variable that is not in `params` has one new element of its type, made constant, an arc
between the images of its ends; nothing else has been made. -/
structure PatternRealised (st : ScStorage) (pattern : ScAddr) (params result : ScTypeResult)
    (s : ScStorage) : Prop where
  keys : ∀ v : ScAddr, (result[v]?).isSome ↔ IsOpen st.cell pattern params v
  made : ∀ v x : ScAddr, result[v]? = some x → ¬ Live st.cell x ∧ Live s.cell x ∧
    scFlagsRemove (s.cell x).type = generatedType (scFlagsRemove (st.cell v).type)
  distinct : ∀ v w x : ScAddr, result[v]? = some x → result[w]? = some x → v = w
  only : ∀ x, Live s.cell x → Live st.cell x ∨ ∃ v : ScAddr, result[v]? = some x
  ends : ∀ v x : ScAddr, result[v]? = some x → LiveArc st.cell v → LiveArc s.cell x ∧
    ∀ d, ownerOf s.cell d x = imageOf params result (ownerOf st.cell d v)

/-- The generation returns, and has realised the pattern. -/
def Realises (env : ScEnv) (ctx : ScContext) (st : ScStorage) (pattern : ScAddr)
    (params : ScTypeResult) : Prop :=
  ∃ n, ∀ fuel, n ≤ fuel → ∃ result s,
    systemSysGen env ctx fuel pattern params st = .ok ((.ok, result), s) ∧
      PatternRealised st pattern params result s

section
variable {env : ScEnv} {ctx : ScContext} {st s s' : ScStorage} {c : Cells} {pattern v w x r : ScAddr}
  {params table : ScTypeResult} {maps : GenMaps}

/-! The table. -/

theorem mem_patternElements_iff (hc : ArcsOk c) (hread : ∀ x, Live c x → CanRead ctx c x)
    (type : ScType) :
    x ∈ patternElements ctx c pattern type ↔ InPattern c pattern x ∧ HasType c x type := by
  have hmem := mem_iterator3_faa hc hread pattern 0 type
  unfold patternElements iterated
  rw [List.mem_map]
  constructor
  · rintro ⟨t, ht, rfl⟩
    have h := (hmem t).mp ht
    exact ⟨⟨t.edge, h.arc, h.source.trans h.fits.1, h.target⟩, h.fits.2.2⟩
  · rintro ⟨⟨e, he, ho, rfl⟩, htype⟩
    refine ⟨⟨pattern, e, ownerOf c .inp e⟩, (hmem _).mpr ?_, rfl⟩
    exact ⟨he, ho, rfl, rfl, BitVec.zero_and, htype⟩

/-- A constant node stands for itself, unless `params` has something else. -/
theorem genAllPairs_get (hc : ArcsOk c) (hread : ∀ x, Live c x → CanRead ctx c x) :
    (genAllPairs ctx c pattern params)[v]? = some x ↔
      params[v]? = some x ∨ params[v]? = none ∧ IsConstNode c pattern v ∧ x = v := by
  have hnode := @mem_patternElements_iff ctx c pattern
  unfold genAllPairs
  constructor
  · intro h
    rcases insertPairs_get h with hp | ⟨hnone, hmem⟩
    · exact Or.inl hp
    · obtain ⟨node, hn, he⟩ := List.mem_map.mp hmem
      obtain ⟨rfl, rfl⟩ := Prod.mk.inj he
      exact Or.inr ⟨hnone, (hnode hc hread _).mp hn, rfl⟩
  · rintro (hp | ⟨hnone, hconst, rfl⟩)
    · exact insertPairs_keeps hp
    · apply insertPairs_mem
      · intro y hy
        rw [hnone] at hy
        cases hy
      · intro y hy
        obtain ⟨node, _, he⟩ := List.mem_map.mp hy
        obtain ⟨rfl, rfl⟩ := Prod.mk.inj he
        rfl
      · exact List.mem_map.mpr ⟨x, (hnode hc hread _).mpr hconst, rfl⟩

theorem genAllPairs_none (hc : ArcsOk c) (hread : ∀ x, Live c x → CanRead ctx c x) :
    (genAllPairs ctx c pattern params)[v]? = none ↔
      params[v]? = none ∧ ¬ IsConstNode c pattern v := by
  have hget (y : ScAddr) := @genAllPairs_get ctx c pattern v y params hc hread
  simp only [Option.eq_none_iff_forall_ne_some, Ne, hget]
  constructor
  · intro h
    have hnone (y : ScAddr) : ¬ params[v]? = some y := fun hp => h y (Or.inl hp)
    exact ⟨hnone, fun hconst => h v (Or.inr ⟨hnone, hconst, rfl⟩)⟩
  · rintro ⟨hnone, hconst⟩ y (hp | ⟨_, hcn, _⟩)
    · exact hnone y hp
    · exact hconst hcn

theorem GenMaps.insert_result (h : maps.result[v]? = none) :
    (maps.insert v x).result[w]? = if v = w then some x else maps.result[w]? := by
  unfold GenMaps.insert
  rw [insertIfNew_get]
  simp only [h, and_true]

theorem GenMaps.insert_params (h : maps.params[v]? = none) :
    (maps.insert v x).params[w]? = if v = w then some x else maps.params[w]? := by
  unfold GenMaps.insert
  rw [insertIfNew_get]
  simp only [h, and_true]

/-! The types. -/

/-- The flags that the memory keeps for itself are not made. -/
theorem flagsRemove_generated (t : ScType) :
    scFlagsRemove (generatedType (scFlagsRemove t)) = generatedType (scFlagsRemove t) := by
  have hconst : scTypeConst &&& ~~~(scFlagRequestDeletion ||| scFlagLinkSelfContainer) =
    scTypeConst := by decide
  unfold generatedType scFlagsRemove
  rw [BitVec.and_or_distrib_right, hconst, BitVec.and_assoc, BitVec.and_assoc, BitVec.and_self]

/-- The bits that tell what an element is are kept. -/
theorem generatedType_and (t mask : ScType)
    (hm : ~~~(scFlagRequestDeletion ||| scFlagLinkSelfContainer) &&& mask = mask)
    (hvar : ~~~scTypeVar &&& mask = mask) (hconst : scTypeConst &&& mask = 0) :
    generatedType (scFlagsRemove t) &&& mask = t &&& mask := by
  unfold generatedType
  rw [BitVec.and_or_distrib_right, hconst, BitVec.and_comm _ (scFlagsRemove t), BitVec.and_assoc,
    hvar, flagsRemove_and t mask hm]
  exact BitVec.or_zero

theorem or_of_subset (mask t : ScType) (h : mask &&& t = mask) : mask ||| t = t := by
  ext i hi
  have hbit := congrArg (fun b => b.getLsbD i) h
  simp only [BitVec.getLsbD_eq_getElem hi, BitVec.getElem_and] at hbit
  rw [BitVec.getElem_or]
  cases hm : mask[i] with
  | false => rw [Bool.false_or]
  | true =>
    rw [hm, Bool.true_and] at hbit
    rw [hbit, Bool.true_or]

/-- What has the bit of a node is no arc. -/
theorem not_arc_of_node (hranked : ArcsRanked c) (hlive : Live c v) (hnode : HasType c v scTypeNode) :
    (c v).type &&& scTypeArcMask = 0 := by
  by_contra harc
  have hbits := hranked.notNode v ⟨hlive, bne_iff_ne.mpr harc⟩
  unfold HasType at hnode
  rw [BitVec.and_comm, flagsRemove_and _ _ (by decide), hbits] at hnode
  exact absurd hnode (by decide)

/-- A call that makes a node asserts this. -/
theorem generatedType_notArc (hranked : ArcsRanked c) (hlive : Live c v)
    (hnode : HasType c v scTypeNode) :
    scTypeArcMask &&& generatedType (scFlagsRemove (c v).type) = 0 := by
  rw [BitVec.and_comm, generatedType_and _ _ (by decide) (by decide) (by decide)]
  exact not_arc_of_node hranked hlive hnode

/-- The node that is made for a node. -/
theorem nodeCell_generated (ctx : ScContext) (t : ScType)
    (hnode : scTypeNode &&& scFlagsRemove t = scTypeNode) :
    scFlagsRemove (nodeCell ctx (generatedType (scFlagsRemove t))).type =
      generatedType (scFlagsRemove t) := by
  have hbit : scTypeNode ||| generatedType (scFlagsRemove t) = generatedType (scFlagsRemove t) := by
    apply or_of_subset
    rw [BitVec.and_comm, generatedType_and t _ (by decide) (by decide) (by decide),
      ← flagsRemove_and t _ (by decide), BitVec.and_comm, hnode]
  show scFlagsRemove (scFlagsRemove (scTypeNode ||| generatedType (scFlagsRemove t))) = _
  rw [hbit, flagsRemove_generated, flagsRemove_generated]

/-- The arc that is made for an arc. -/
theorem arcTypeOf_generated (t : ScType) (harc : t &&& scTypeArcMask ≠ 0) :
    scFlagsRemove (arcTypeOf (generatedType (scFlagsRemove t))) =
      generatedType (scFlagsRemove t) := by
  have hmask : (generatedType (scFlagsRemove t) &&& scTypeArcMask != 0) = true := by
    rw [generatedType_and t _ (by decide) (by decide) (by decide)]
    exact bne_iff_ne.mpr harc
  unfold arcTypeOf
  rw [hmask, if_pos rfl, flagsRemove_generated, flagsRemove_generated]

/-! The lists that an iterator may be walking along. -/

/-- Arcs come into a list before those that are in it. -/
def ListsKept (c c' : Cells) : Prop := ∀ d a, Live c a → arcList c d a <:+ arcList c' d a

theorem ListsKept.trans {c' c'' : Cells} (h : ListsKept c c') (h' : ListsKept c' c'')
    (hlive : ∀ a, Live c a → Live c' a) : ListsKept c c'' :=
  fun d a ha => (h d a ha).trans (h' d a (hlive a ha))

theorem listsKept_node {c' : Cells} (hc : ArcsOk c) (hx : ¬ Live c x)
    (hother : ∀ y, y ≠ x → c' y = c y)
    (hnotArc : (c' x).isArc = false) : ListsKept c c' := by
  intro d a ha
  have hold {y : ScAddr} (hy : LiveArc c y) : c' y = c y := hother y fun he => hx (he ▸ hy.1)
  have hchain := hc.arcList (d := d) ha
  have hmem (y : ScAddr) : LiveArc c' y ∧ ownerOf c' d y = a ↔ LiveArc c y ∧ ownerOf c d y = a := by
    by_cases hyx : y = x
    · subst hyx
      constructor
      · rintro ⟨⟨_, harc⟩, _⟩
        rw [hnotArc] at harc
        cases harc
      · rintro ⟨harc, _⟩
        exact absurd harc.1 hx
    · unfold LiveArc Live ownerOf
      rw [hother y hyx]
  have hchain' : ArcChain c' d a (arcList c d a) := by
    refine ⟨hchain.nodup, fun y => (hchain.mem y).trans (hmem y).symm, ?_, ?_⟩
    · refine hchain.linked.congr fun y hy => ?_
      have hsame := hold ((hchain.mem y).mp hy).1
      unfold nextOf prevOf
      rw [hsame]
      exact ⟨rfl, rfl⟩
    · rw [hother a fun he => hx (he ▸ ha)]
      exact hchain.first
  rw [hchain'.arcList_eq]

theorem listsKept_arc {c' : Cells} {ends : Dir → ScAddr} (hc : ArcsOk c) (hx : ¬ Live c x)
    (hne : x ≠ ScAddr.empty) (hends : ∀ d, Live c (ends d)) (hadd : ArcAdded c c' x ends) :
    ListsKept c c' := by
  intro d a ha
  rw [(hadd.arcChain hc hx hne hends (hc.arcList (d := d) ha)).arcList_eq]
  split_ifs
  · exact List.suffix_cons x _
  · exact List.suffix_refl _

/-- An iterator over the pattern has still before it what it had, whatever has come in. -/
theorem patternElements_suffix (hc : ArcsOk st.cell) (hkept : ListsKept st.cell s.cell)
    (hsame : ∀ x, Live st.cell x → Untouched st s x) (hpattern : Live st.cell pattern)
    (hread : CanRead ctx st.cell pattern) (type : ScType) :
    patternElements ctx st.cell pattern type <:+ patternElements ctx s.cell pattern type := by
  have hreads (x : ScAddr) (hx : Live st.cell x) : CanRead ctx s.cell x ↔ CanRead ctx st.cell x := by
    unfold CanRead
    rw [(hsame x hx).same.accessLevels]
  have htypes (x : ScAddr) (t : ScType) (hx : Live st.cell x) :
      HasType s.cell x t ↔ HasType st.cell x t := by
    unfold HasType
    rw [(hsame x hx).same.type]
  have hlist {c : Cells} (h : Live c pattern ∧ CanRead ctx c pattern) :
      patternElements ctx c pattern type =
        ((arcList c .out pattern).filter ((Iterator3Params.faa pattern 0 type).matching c ctx)).map
        (ownerOf c .inp) := by
    have hfixed : ∀ a ∈ (Iterator3Params.faa pattern 0 type).fixed, Live c a ∧ CanRead ctx c a := by
      intro a ha
      obtain rfl := List.mem_singleton.mp ha
      exact h
    unfold patternElements iterated iterator3
    rw [if_pos hfixed, Option.getD_some, List.map_map]
    rfl
  have harc (x : ScAddr) (hx : x ∈ arcList st.cell .out pattern) : LiveArc st.cell x :=
    (((hc.arcList (d := .out) hpattern).mem x).mp hx).1
  have hmatch (x : ScAddr) (hx : x ∈ arcList st.cell .out pattern) :
      (Iterator3Params.faa pattern 0 type).matching s.cell ctx x =
        (Iterator3Params.faa pattern 0 type).matching st.cell ctx x := by
    have hlive := (harc x hx).1
    have hend := hc.endpoint x .inp (harc x hx)
    apply decide_eq_decide.mpr
    unfold Iterator3Params.Matches
    dsimp only
    rw [(hsame x hlive).owner, htypes x 0 hlive, htypes _ type hend, hreads x hlive, hreads _ hend]
  obtain ⟨before, hbefore⟩ := hkept .out pattern hpattern
  rw [hlist ⟨hpattern, hread⟩, hlist ⟨(hsame _ hpattern).same.live.mpr hpattern,
    (hreads _ hpattern).mpr hread⟩,
    ← hbefore, List.filter_append, List.map_append, List.filter_congr hmatch]
  have hmap : ((arcList st.cell .out pattern).filter
        ((Iterator3Params.faa pattern 0 type).matching st.cell ctx)).map (ownerOf s.cell .inp) =
      ((arcList st.cell .out pattern).filter
        ((Iterator3Params.faa pattern 0 type).matching st.cell ctx)).map (ownerOf st.cell .inp) :=
    List.map_congr_left fun x hx => (hsame x (harc x (List.mem_of_mem_filter hx)).1).owner .inp
  rw [hmap]
  exact List.suffix_append _ _

/-! What has been generated. -/

/-- `x` has been made for `v`, after what the table has for its ends. Without a cell it is no
element. -/
structure StandsFor (st : ScStorage) (table : ScTypeResult) (s : ScStorage)
    (v x : ScAddr) : Prop where
  type : x ≠ ScAddr.empty → scFlagsRemove (s.cell x).type =
    generatedType (scFlagsRemove (st.cell v).type)
  between : HasType st.cell v scTypeNode ∨ LiveArc st.cell v ∧ ∀ d, ∃ y : ScAddr,
    table[ownerOf st.cell d v]? = some y ∧
      (x ≠ ScAddr.empty → LiveArc s.cell x ∧ ownerOf s.cell d x = y)

/-- What has come into the maps since the table was made. -/
structure Generated (thread : ℕ) (st : ScStorage) (table : ScTypeResult) (maps : GenMaps)
    (s : ScStorage) : Prop where
  store : StoreOk thread s
  grown : GrownBy st {x | x ≠ ScAddr.empty ∧ ∃ v : ScAddr, maps.result[v]? = some x} s
  lists : ListsKept st.cell s.cell
  lookup : ∀ v : ScAddr, maps.params[v]? = (table[v]?).or maps.result[v]?
  fresh : ∀ v x : ScAddr, maps.result[v]? = some x → table[v]? = none
  distinct : ∀ v w x : ScAddr, x ≠ ScAddr.empty → maps.result[v]? = some x →
    maps.result[w]? = some x → v = w
  made : ∀ v x : ScAddr, maps.result[v]? = some x → StandsFor st maps.params s v x

theorem StandsFor.mono {table' : ScTypeResult} {new : Set ScAddr} (h : StandsFor st table s v x)
    (hgrown : GrownBy s new s') (hlive : x ≠ ScAddr.empty → Live s.cell x)
    (hext : Extends table table') :
    StandsFor st table' s' v x := by
  have hsame (hne : x ≠ ScAddr.empty) := grown_same hgrown (hlive hne)
  constructor
  · intro hne
    rw [(hsame hne).same.type]
    exact h.type hne
  · apply h.between.imp_right
    rintro ⟨harc, hends⟩
    refine ⟨harc, fun d => ?_⟩
    obtain ⟨y, hy, hown⟩ := hends d
    refine ⟨y, hext _ _ hy, fun hne => ?_⟩
    rw [(hsame hne).same.liveArc, (hsame hne).owner]
    exact hown hne

theorem GenMaps.extends_insert (h : maps.params[v]? = none) :
    Extends maps.params (maps.insert v r).params := by
  intro w x hw
  rw [GenMaps.insert_params h, if_neg, hw]
  rintro rfl
  rw [h] at hw
  cases hw

/-- Between two calls the iterator goes on with the variables that the loop was to come to. -/
theorem Generated.iteration {thread : ℕ} (hg : Generated thread st table maps s) (hc : ArcsOk st.cell)
    (hpattern : Live st.cell pattern) (hread : CanRead ctx st.cell pattern) :
    patternElements ctx st.cell pattern scTypeVar <:+ patternElements ctx s.cell pattern scTypeVar :=
  patternElements_suffix hc hg.lists (fun _ hx => grown_same hg.grown hx) hpattern hread scTypeVar

/-- An element that has been made comes into both maps. -/
theorem Generated.insert {thread : ℕ} (hg : Generated thread st table maps s)
    (hok : StoreOk thread s')
    (hgrown : GrownBy s {x | x ≠ ScAddr.empty ∧ x = r} s') (hlists : ListsKept s.cell s'.cell)
    (hnone : maps.params[v]? = none) (hr : StandsFor st maps.params s' v r) :
    Generated thread st table (maps.insert v r) s' := by
  have hlookup := hg.lookup v
  rw [hnone] at hlookup
  obtain ⟨htable, hresult⟩ := Option.or_eq_none_iff.mp hlookup.symm
  have hlive (w x : ScAddr) (hw : maps.result[w]? = some x) (hne : x ≠ ScAddr.empty) :
      Live s.cell x :=
    hg.grown.live x ⟨hne, w, hw⟩
  have hnew (w : ScAddr) (hne : r ≠ ScAddr.empty) (hw : maps.result[w]? = some r) : False :=
    type_of_live (hlive w r hw hne) (hgrown.free r ⟨hne, rfl⟩)
  have hext := GenMaps.extends_insert (r := r) hnone
  have hget (w : ScAddr) := GenMaps.insert_result (x := r) (w := w) hresult
  have hcases (w x : ScAddr) (hw : (maps.insert v r).result[w]? = some x) :
      v = w ∧ x = r ∨ maps.result[w]? = some x := by
    rw [hget] at hw
    split_ifs at hw with he
    · exact Or.inl ⟨he, (Option.some.inj hw).symm⟩
    · exact Or.inr hw
  have hset : {x | x ≠ ScAddr.empty ∧ ∃ w : ScAddr, (maps.insert v r).result[w]? = some x} =
      {x | x ≠ ScAddr.empty ∧ ∃ w : ScAddr, maps.result[w]? = some x} ∪
        {x | x ≠ ScAddr.empty ∧ x = r} := by
    ext x
    constructor
    · rintro ⟨hne, w, hw⟩
      rcases hcases w x hw with ⟨_, rfl⟩ | hold
      · exact Or.inr ⟨hne, rfl⟩
      · exact Or.inl ⟨hne, w, hold⟩
    · rintro (⟨hne, w, hw⟩ | ⟨hne, rfl⟩)
      · refine ⟨hne, w, ?_⟩
        rw [hget, if_neg, hw]
        rintro rfl
        rw [hresult] at hw
        cases hw
      · exact ⟨hne, v, by rw [hget, if_pos rfl]⟩
  have hlists' := hg.lists.trans hlists fun a ha => (grown_same hg.grown ha).same.live.mpr ha
  refine ⟨hok, hset ▸ hg.grown.trans hgrown, hlists', ?_, ?_, ?_, ?_⟩
  · intro w
    rw [GenMaps.insert_params hnone, hget]
    split_ifs with he
    · rw [← he, htable]
      rfl
    · exact hg.lookup w
  · intro w x hw
    rcases hcases w x hw with ⟨rfl, _⟩ | hold
    · exact htable
    · exact hg.fresh w x hold
  · intro w w' x hne hw hw'
    rcases hcases w x hw with ⟨rfl, rfl⟩ | hold
    · rcases hcases w' x hw' with ⟨rfl, _⟩ | hold'
      · rfl
      · exact (hnew w' hne hold').elim
    · rcases hcases w' x hw' with ⟨rfl, rfl⟩ | hold'
      · exact (hnew w hne hold).elim
      · exact hg.distinct w w' x hne hold hold'
  · intro w x hw
    rcases hcases w x hw with ⟨rfl, rfl⟩ | hold
    · exact hr.mono (grownBy_of_unlocked rfl) (fun hne => hgrown.live x ⟨hne, rfl⟩) hext
    · exact (hg.made w x hold).mono hgrown (hlive w x hold) hext

/-- A call that makes a node makes one or changes nothing. -/
theorem nodeNew_either {type : ScType} (hok : StoreOk env.thread s) :
    IfReturns (scStorageNodeNew env ctx type) (fun x s' => StoreOk env.thread s' ∧
      ((s'.unlocked = s.unlocked ∧ x = ScAddr.empty) ∨
        Created s x (Function.update s.cell x (nodeCell ctx type)) s')) s := by
  have hcall := storeOk_call (f := scStorageNodeNew env ctx type) (.nodeNew ctx type) rfl trivial hok
  have hnew : IfReturns (scStorageNodeNew env ctx type) (fun x s' =>
      (s'.unlocked = s.unlocked ∧ x = ScAddr.empty) ∨
        Created s x (Function.update s.cell x (nodeCell ctx type)) s') s := by
    unfold scStorageNodeNew scStorageNodeNewExt
    rw [IfReturns, wp_bind, wp_scAssert]
    exact ⟨fun _ => newElement_returns (holds_start env.thread s hok.wf.1 hok.wf.2) hok.cells ctx _,
      fun _ => trivial⟩
  exact wp_mono (wp_and hcall hnew) (fun _ _ h => h) (fun _ _ => trivial)

/-- Whatever its ends are, an arc is made or nothing changes. -/
theorem arcNew_either {type : ScType} {beg end_ : ScAddr} (hok : StoreOk env.thread s)
    (hlink : type &&& scTypeLink = 0) :
    IfReturns (scStorageArcNew env ctx type beg end_) (fun x s' => StoreOk env.thread s' ∧
      ((s'.unlocked = s.unlocked ∧ x = ScAddr.empty) ∨
        ArcCreated s type beg end_ ctx.accessLevels x s')) s := by
  have hcall := storeOk_call (f := scStorageArcNew env ctx type beg end_)
    (.arcNew ctx type beg end_) rfl
    hlink hok
  have hnew := arcNew_returns (holds_start env.thread s hok.wf.1 hok.wf.2) hok.cells ctx type beg end_
  exact wp_mono (wp_and hcall hnew) (fun _ _ h => h) (fun _ _ => trivial)

theorem grownBy_creation
    (h : s'.unlocked = s.unlocked ∧ r = ScAddr.empty ∨ r ≠ ScAddr.empty ∧ GrownBy s {r} s') :
    GrownBy s {x | x ≠ ScAddr.empty ∧ x = r} s' := by
  rcases h with ⟨hu, rfl⟩ | ⟨hne, hgrown⟩
  · have hset : {x : ScAddr | x ≠ ScAddr.empty ∧ x = ScAddr.empty} = ∅ := by
      ext x
      exact ⟨fun hx => hx.1 hx.2, fun hx => hx.elim⟩
    rw [hset]
    exact grownBy_of_unlocked hu
  · have hset : {x : ScAddr | x ≠ ScAddr.empty ∧ x = r} = {r} := by
      ext x
      exact ⟨fun hx => hx.2, fun hx => ⟨(hx : x = r) ▸ hne, hx⟩⟩
    rw [hset]
    exact hgrown

/-- What one call leaves: the element has its correspondence, and what has a greater rank has not been
touched. -/
structure Corresponds (thread : ℕ) (st : ScStorage) (table : ScTypeResult) (rank : ScAddr → ℕ)
    (v : ScAddr)
    (maps : GenMaps) (q : ScAddr × GenMaps) (s' : ScStorage) : Prop where
  generated : Generated thread st table q.2 s'
  extends_ : Extends maps.params q.2.params
  value : q.2.params[v]? = some q.1
  above : ∀ w, rank v < rank w → q.2.params[w]? = maps.params[w]?

theorem Generated.untouched {thread : ℕ} (hg : Generated thread st table maps s)
    (hv : Live st.cell v) : Untouched st s v :=
  grown_same hg.grown hv

/-- What is made for the element itself. -/
theorem Generated.corresponds {thread : ℕ} {rank : ScAddr → ℕ} {maps' : GenMaps}
    (hg : Generated thread st table maps' s) (hext : Extends maps.params maps'.params)
    (habove : ∀ w, rank v < rank w → maps'.params[w]? = maps.params[w]?)
    (hok : StoreOk thread s') (hgrown : GrownBy s {x | x ≠ ScAddr.empty ∧ x = r} s')
    (hlists : ListsKept s.cell s'.cell) (hnone : maps'.params[v]? = none)
    (hr : StandsFor st maps'.params s' v r) :
    Corresponds thread st table rank v maps (r, maps'.insert v r) s' := by
  refine ⟨hg.insert hok hgrown hlists hnone hr, ?_, ?_, ?_⟩
  · intro w x hw
    exact GenMaps.extends_insert hnone w x (hext w x hw)
  · rw [GenMaps.insert_params hnone, if_pos rfl]
  · intro w hw
    rw [GenMaps.insert_params hnone, if_neg, habove w hw]
    rintro rfl
    exact lt_irrefl _ hw

/-- A node that is made for a node. -/
theorem genNode_corresponds (rank : ScAddr → ℕ) (hranked : ArcsRanked st.cell) (hv : Live st.cell v)
    (hg : Generated env.thread st table maps s) (hnone : maps.params[v]? = none)
    (hnode : HasType st.cell v scTypeNode) :
    IfReturns (do
      let constElem ← scStorageNodeNew env ctx (generatedType (scFlagsRemove (st.cell v).type))
      pure (constElem, maps.insert v constElem))
      (Corresponds env.thread st table rank v maps) s := by
  rw [IfReturns, wp_bind]
  apply wp_mono (nodeNew_either hg.store) _ (fun _ _ => trivial)
  rintro r s' ⟨hok, hr⟩
  apply hg.corresponds (fun _ _ h => h) (fun _ _ => rfl) hok _ _ hnone _
  · exact grownBy_creation (hr.imp_right fun hcr => ⟨hcr.notEmpty, hcr.grown (nodeCell_live ctx _ r)⟩)
  · rcases hr with ⟨hu, _⟩ | hcr
    · rw [cell_of_unlocked hu]
      exact fun _ _ _ => List.suffix_refl _
    · obtain ⟨_, _, hfree, hcell⟩ := hcr.refCount
      apply listsKept_node hg.store.cells.arcs (fun hl => type_of_live hl hfree) (x := r)
      · intro y hy
        rw [hcell, Function.update_of_ne hy]
      · rw [hcell, Function.update_self]
        exact nodeCell_isArc ctx _ (generatedType_notArc hranked hv hnode)
  · refine ⟨fun hne => ?_, Or.inl hnode⟩
    rcases hr with ⟨_, hempty⟩ | hcr
    · exact absurd hempty hne
    · rw [hcr.refCount.2.2.2, Function.update_self]
      exact nodeCell_generated ctx _ hnode

/-- An arc that is made for an arc, once the table has its ends. -/
theorem genArc_corresponds {rank : ScAddr → ℕ} {maps' : GenMaps} {ends : Dir → ScAddr}
    (hst : CellsOk st)
    (hg : Generated env.thread st table maps' s) (hext : Extends maps.params maps'.params)
    (habove : ∀ w, rank v < rank w → maps'.params[w]? = maps.params[w]?)
    (hnone : maps'.params[v]? = none)
    (harc : LiveArc st.cell v) (hends : ∀ d, maps'.params[ownerOf st.cell d v]? = some (ends d)) :
    IfReturns (do
      let constElem ← scStorageArcNew env ctx (generatedType (scFlagsRemove (st.cell v).type))
        (ends .out) (ends .inp)
      pure (constElem, maps'.insert v constElem))
      (Corresponds env.thread st table rank v maps) s := by
  have hbits : (st.cell v).type &&& scTypeArcMask ≠ 0 := bne_iff_ne.mp harc.2
  have hlink : generatedType (scFlagsRemove (st.cell v).type) &&& scTypeLink = 0 := by
    rw [generatedType_and _ _ (by decide) (by decide) (by decide)]
    exact bne_eq_false_iff_eq.mp (hst.oneClass v harc.2)
  rw [IfReturns, wp_bind]
  apply wp_mono (arcNew_either hg.store hlink) _ (fun _ _ => trivial)
  rintro r s' ⟨hok, hr⟩
  apply hg.corresponds hext habove hok _ _ hnone _
  · apply grownBy_creation
    exact hr.imp_right fun hcr => ⟨hcr.created.notEmpty, hcr.grown hg.store.cells⟩
  · rcases hr with ⟨hu, _⟩ | hcr
    · rw [cell_of_unlocked hu]
      exact fun _ _ _ => List.suffix_refl _
    · have hfree := hcr.created.refCount.2.2.1
      apply listsKept_arc hg.store.cells.arcs (fun hl => type_of_live hl hfree) hcr.created.notEmpty _
        (hcr.added hg.store.cells)
      intro d
      cases d with
      | out => exact hcr.beginLive
      | inp => exact hcr.endLive
  · constructor
    · intro hne
      rcases hr with ⟨_, hempty⟩ | hcr
      · exact absurd hempty hne
      · rw [hcr.typeOf.1]
        exact arcTypeOf_generated _ hbits
    · refine Or.inr ⟨harc, fun d => ⟨ends d, hends d, fun hne => ?_⟩⟩
      rcases hr with ⟨_, hempty⟩ | hcr
      · exact absurd hempty hne
      · have hadd := hcr.added hg.store.cells
        refine ⟨hadd.arc, ?_⟩
        rw [hadd.owner, if_pos rfl]
        cases d <;> rfl

/-- What a call does with an element that is not in the table yet. -/
theorem gen_miss {fuel : ℕ} (hnone : maps.params[v]? = none) (hun : Untouched st s v)
    (hv : Live st.cell v)
    (hread : CanRead ctx st.cell v) {Q : ScAddr × GenMaps → ScStorage → Prop} {E : ScStop → Prop}
    (hnode : HasType st.cell v scTypeNode →
      Wp (do
        let constElem ← scStorageNodeNew env ctx (generatedType (scFlagsRemove (st.cell v).type))
        pure (constElem, maps.insert v constElem)) Q E s)
    (harc : ¬ HasType st.cell v scTypeNode → LiveArc st.cell v →
      Wp (do
        let begs ← genCorrespondenceForVar env ctx fuel (ownerOf st.cell .out v) maps
        let ends ← genCorrespondenceForVar env ctx fuel (ownerOf st.cell .inp v) begs.2
        let constElem ← scStorageArcNew env ctx (generatedType (scFlagsRemove (st.cell v).type))
          begs.1 ends.1
        pure (constElem, ends.2.insert v constElem)) Q E s)
    (hother : ¬ HasType st.cell v scTypeNode → ¬ LiveArc st.cell v → E ScStop.abort) :
    Wp (genCorrespondenceForVar env ctx (fuel+1) v maps) Q E s := by
  unfold genCorrespondenceForVar
  simp only [hnone]
  rw [wp_bind, wp_get]
  have hreads : CanRead ctx s.cell v := by
    unfold CanRead
    rw [hun.same.accessLevels]
    exact hread
  have htype : scMemoryGetElementType s.cell ctx v = some (scFlagsRemove (st.cell v).type) := by
    unfold scMemoryGetElementType
    rw [if_pos ⟨hun.same.live.mpr hv, hreads⟩, hun.same.type]
  have howner (d : Dir) : scMemoryGetArcOwner s.cell ctx d v =
      if LiveArc st.cell v then some (ownerOf st.cell d v) else none := by
    unfold scMemoryGetArcOwner
    simp only [hun.same.liveArc, hreads, and_true, hun.owner]
  simp only [htype]
  rw [wp_ite]
  refine ⟨hnode, fun hno => ?_⟩
  by_cases hl : LiveArc st.cell v
  · simp only [scMemoryGetArcBegin, scMemoryGetArcEnd, howner, if_pos hl]
    exact harc hno hl
  · simp only [scMemoryGetArcBegin, scMemoryGetArcEnd, howner, if_neg hl]
    exact hother hno hl

/-- After the calls for its ends the table has both of them, and still not the arc, to which they do
not lead back. -/
theorem ends_correspond {rank : ScAddr → ℕ} {thread : ℕ} {begs ends : ScAddr × GenMaps}
    {s1 s2 : ScStorage}
    (hrank : ∀ x d, LiveArc st.cell x → rank (ownerOf st.cell d x) < rank x)
    (harc : LiveArc st.cell v)
    (h1 : Corresponds thread st table rank (ownerOf st.cell .out v) maps begs s1)
    (h2 : Corresponds thread st table rank (ownerOf st.cell .inp v) begs.2 ends s2) :
    Extends maps.params ends.2.params ∧ (∀ w, rank v ≤ rank w → ends.2.params[w]? = maps.params[w]?) ∧
      ∀ d, ends.2.params[ownerOf st.cell d v]? =
        some (match d with | .out => begs.1 | .inp => ends.1) := by
  have hout := hrank v .out harc
  have hinp := hrank v .inp harc
  refine ⟨fun w x hw => h2.extends_ w x (h1.extends_ w x hw), fun w hw => ?_, fun d => ?_⟩
  · rw [h2.above w (by omega), h1.above w (by omega)]
  · cases d with
    | out => exact h2.extends_ _ _ h1.value
    | inp => exact h2.value

/-- A call that returns leaves the correspondence of the element. -/
theorem gen_corresponds {rank : ScAddr → ℕ} (hst : CellsOk st) (hranked : ArcsRanked st.cell)
    (hrank : ∀ x d, LiveArc st.cell x → rank (ownerOf st.cell d x) < rank x)
    (hread : ∀ x, Live st.cell x → CanRead ctx st.cell x) (fuel : ℕ) (v : ScAddr) (maps : GenMaps)
    (s : ScStorage)
    (hg : Generated env.thread st table maps s) (hv : Live st.cell v) :
    IfReturns (genCorrespondenceForVar env ctx fuel v maps)
      (Corresponds env.thread st table rank v maps) s := by
  induction fuel generalizing v maps s with
  | zero => trivial
  | succ fuel ih =>
    cases hfound : maps.params[v]? with
    | some constElem =>
      unfold genCorrespondenceForVar
      simp only [hfound]
      exact ⟨hg, fun _ _ h => h, hfound, fun _ _ => rfl⟩
    | none =>
      apply gen_miss hfound (hg.untouched hv) hv (hread v hv)
      · exact genNode_corresponds rank hranked hv hg hfound
      · intro _ harc
        have hend (d : Dir) : Live st.cell (ownerOf st.cell d v) := hst.arcs.endpoint v d harc
        rw [wp_bind]
        apply wp_mono (ih _ maps s hg (hend .out)) _ (fun _ _ => trivial)
        intro begs s1 h1
        rw [wp_bind]
        apply wp_mono (ih _ begs.2 s1 h1.generated (hend .inp)) _ (fun _ _ => trivial)
        intro ends s2 h2
        obtain ⟨hext, habove, hends⟩ := ends_correspond hrank harc h1 h2
        have hnone : ends.2.params[v]? = none := by rw [habove v le_rfl, hfound]
        exact genArc_corresponds hst h2.generated hext (fun w hw => habove w hw.le) hnone harc hends
      · intro _ _
        trivial

/-! The generation of a pattern that the table covers. -/

theorem live_of_inPattern_cells (hc : ArcsOk c) (h : InPattern c pattern x) : Live c x := by
  obtain ⟨e, he, _, rfl⟩ := h
  exact hc.endpoint e .inp he

/-- As many elements have been made as there are pairs, each for a variable not in `params`. -/
structure Filled (env : ScEnv) (ctx : ScContext) (st : ScStorage) (pattern : ScAddr)
    (params : ScTypeResult)
    (maps : GenMaps) (s : ScStorage) : Prop where
  made : Creations env ctx st maps.result.size s
  full : ∀ v x : ScAddr, maps.result[v]? = some x → x ≠ ScAddr.empty ∧ IsOpen st.cell pattern params v

/-- There is a pair at most for each variable of the pattern. -/
theorem Filled.room (h : Filled env ctx st pattern params maps s) (hc : ArcsOk st.cell)
    (hread : ∀ x, Live st.cell x → CanRead ctx st.cell x) (hnone : maps.result[v]? = none)
    (hv : IsOpen st.cell pattern params v) :
    maps.result.size < (patternElements ctx st.cell pattern scTypeVar).length := by
  have hvar (w : ScAddr) (hw : IsOpen st.cell pattern params w) :
      w ∈ patternElements ctx st.cell pattern scTypeVar :=
    (mem_patternElements_iff hc hread _).mpr ⟨hw.1, hw.2.1⟩
  have hkey (w : ScAddr) : w ∈ maps.result.keys ↔ (maps.result[w]?).isSome :=
    Std.TreeMap.mem_keys.trans Std.TreeMap.mem_iff_isSome_getElem?
  have hnodup : (v :: maps.result.keys).Nodup := by
    refine List.nodup_cons.mpr ⟨fun hmem => ?_, Std.TreeMap.nodup_keys⟩
    rw [hkey, hnone] at hmem
    cases hmem
  have hsub : v :: maps.result.keys ⊆ patternElements ctx st.cell pattern scTypeVar := by
    intro w hw
    rcases List.mem_cons.mp hw with rfl | hmem
    · exact hvar w hv
    · obtain ⟨x, hx⟩ := Option.isSome_iff_exists.mp ((hkey w).mp hmem)
      exact hvar w (h.full w x hx).2
  have hlen := (List.subperm_of_subset hnodup hsub).length_le
  rw [List.length_cons, Std.TreeMap.length_keys] at hlen
  omega

theorem Filled.insert (h : Filled env ctx st pattern params maps s) (hnone : maps.result[v]? = none)
    (hne : r ≠ ScAddr.empty) (hv : IsOpen st.cell pattern params v)
    (hmade : Creations env ctx st (maps.result.size+1) s') :
    Filled env ctx st pattern params (maps.insert v r) s' := by
  have hsize : (maps.insert v r).result.size = maps.result.size+1 := by
    unfold GenMaps.insert
    rw [Std.TreeMap.size_insertIfNew, if_neg]
    rw [Std.TreeMap.mem_iff_isSome_getElem?, hnone]
    exact Bool.false_ne_true
  refine ⟨hsize ▸ hmade, fun w x hw => ?_⟩
  rw [GenMaps.insert_result hnone] at hw
  split_ifs at hw with he
  · obtain rfl := Option.some.inj hw
    exact ⟨hne, he ▸ hv⟩
  · exact h.full w x hw

/-- What the table has is live. -/
theorem Filled.value_live {thread : ℕ} (h : Filled env ctx st pattern params maps s)
    (hg : Generated thread st table maps s) (htable : ∀ v x : ScAddr, table[v]? = some x →
      Live st.cell x)
    (hv : maps.params[v]? = some x) : Live s.cell x := by
  rw [hg.lookup v] at hv
  rcases Option.or_eq_some_iff.mp hv with hold | ⟨_, hnew⟩
  · exact (hg.untouched (htable v x hold)).same.live.mpr (htable v x hold)
  · exact hg.grown.live x ⟨(h.full v x hnew).1, v, hnew⟩

section
variable {rank : ScAddr → ℕ} (hok : CellsOk st) (hranked : ArcsRanked st.cell)
  (hread : ∀ x, Live st.cell x → CanRead ctx st.cell x)
include hok hranked hread

/-- A node is made for a variable, or the cells run out. -/
theorem genNode_total (hf : Filled env ctx st pattern params maps s)
    (hg : Generated env.thread st table maps s) (hnone : maps.result[v]? = none)
    (hv : IsOpen st.cell pattern params v) (hnode : HasType st.cell v scTypeNode) :
    Wp (do
      let constElem ← scStorageNodeNew env ctx (generatedType (scFlagsRemove (st.cell v).type))
      pure (constElem, maps.insert v constElem))
      (fun q s' => OutOfCells env ctx (patternElements ctx st.cell pattern scTypeVar).length st ∨
        Filled env ctx st pattern params q.2 s')
      (fun _ => OutOfCells env ctx (patternElements ctx st.cell pattern scTypeVar).length st) s := by
  have hmask := generatedType_notArc hranked (live_of_inPattern_cells hok.arcs hv.1) hnode
  rw [wp_bind]
  apply wp_mono (nodeNew_creation _ hg.store hf.made (hf.room hok.arcs hread hnone hv) hmask) _
    (fun _ he => he)
  rintro r s' (⟨_, hout⟩ | ⟨hne, _, hmade, _⟩)
  · exact Or.inl hout
  · exact Or.inr (hf.insert hnone hne hv hmade)

/-- An arc is made for a variable, or the cells run out. -/
theorem genArc_total {beg end_ : ScAddr} (hf : Filled env ctx st pattern params maps s)
    (hg : Generated env.thread st table maps s) (hnone : maps.result[v]? = none)
    (hv : IsOpen st.cell pattern params v) (harc : LiveArc st.cell v) (hbeg : Live s.cell beg)
    (hend : Live s.cell end_) :
    Wp (do
      let constElem ← scStorageArcNew env ctx (generatedType (scFlagsRemove (st.cell v).type))
        beg end_
      pure (constElem, maps.insert v constElem))
      (fun q s' => OutOfCells env ctx (patternElements ctx st.cell pattern scTypeVar).length st ∨
        Filled env ctx st pattern params q.2 s')
      (fun _ => OutOfCells env ctx (patternElements ctx st.cell pattern scTypeVar).length st) s := by
  have hlink : generatedType (scFlagsRemove (st.cell v).type) &&& scTypeLink = 0 := by
    rw [generatedType_and _ _ (by decide) (by decide) (by decide)]
    exact bne_eq_false_iff_eq.mp (hok.oneClass v harc.2)
  have hnode : scTypeNode &&& generatedType (scFlagsRemove (st.cell v).type) = 0 := by
    rw [BitVec.and_comm, generatedType_and _ _ (by decide) (by decide) (by decide)]
    exact hranked.notNode v harc
  rw [wp_bind]
  apply wp_mono (arcNew_creation _ hg.store hf.made (hf.room hok.arcs hread hnone hv) hnode hlink
    hbeg hend) _
    (fun _ he => he)
  intro r s' ⟨_, hmade, _, hne⟩
  exact Or.inr (hf.insert hnone hne hv hmade)

/-- A call for an element that the table covers returns, with elements for variables only, or the
cells run out. -/
theorem gen_total (hcover : Coverable st.cell pattern params)
    (hrank : ∀ x d, LiveArc st.cell x → rank (ownerOf st.cell d x) < rank x)
    (hparams : ∀ v x : ScAddr, params[v]? = some x → Live st.cell x)
    (fuel : ℕ) (v : ScAddr) (maps : GenMaps) (s : ScStorage)
    (hg : Generated env.thread st (genAllPairs ctx st.cell pattern params) maps s)
    (hf : Filled env ctx st pattern params maps s) (hv : IsCovered st.cell pattern params v)
    (hfuel : rank v < fuel) :
    Wp (genCorrespondenceForVar env ctx fuel v maps)
      (fun q s' => OutOfCells env ctx (patternElements ctx st.cell pattern scTypeVar).length st ∨
        Filled env ctx st pattern params q.2 s' ∧
          Corresponds env.thread st (genAllPairs ctx st.cell pattern params) rank v maps q s')
      (fun _ => OutOfCells env ctx (patternElements ctx st.cell pattern scTypeVar).length st) s := by
  have hvalues (w x : ScAddr) (hw : (genAllPairs ctx st.cell pattern params)[w]? = some x) :
      Live st.cell x := by
    rcases (genAllPairs_get hok.arcs hread).mp hw with hp | ⟨_, hconst, rfl⟩
    · exact hparams w x hp
    · exact live_of_inPattern_cells hok.arcs hconst.1
  induction fuel generalizing v maps s with
  | zero => omega
  | succ fuel ih =>
    cases hfound : maps.params[v]? with
    | some constElem =>
      unfold genCorrespondenceForVar
      simp only [hfound]
      exact Or.inr ⟨hf, hg, fun _ _ h => h, hfound, fun _ _ => rfl⟩
    | none =>
      have hlookup := hg.lookup v
      rw [hfound] at hlookup
      obtain ⟨htable, hresult⟩ := Option.or_eq_none_iff.mp hlookup.symm
      obtain ⟨hnoparam, hnoconst⟩ := (genAllPairs_none hok.arcs hread).mp htable
      have hopen : IsOpen st.cell pattern params v := by
        rcases hv with hp | hconst | hopen
        · rw [hnoparam] at hp
          cases hp
        · exact absurd hconst hnoconst
        · exact hopen
      have hlive := live_of_inPattern_cells hok.arcs hopen.1
      have hcorr := @gen_corresponds env ctx st (genAllPairs ctx st.cell pattern params) rank hok
        hranked hrank hread
      apply gen_miss hfound (hg.untouched hlive) hlive (hread v hlive)
      · intro hnode
        apply wp_mono (wp_and (genNode_total hok hranked hread hf hg hresult hopen hnode)
          (genNode_corresponds rank hranked hlive hg hfound hnode)) _ (fun _ he => he.1)
        rintro q s' ⟨hout | hf', hc'⟩
        · exact Or.inl hout
        · exact Or.inr ⟨hf', hc'⟩
      · intro hnotNode harc
        obtain ⟨_, hcovered⟩ := (hcover v hopen).2.resolve_left hnotNode
        have hout := hrank v .out harc
        have hinp := hrank v .inp harc
        rw [wp_bind]
        apply wp_mono (ih _ maps s hg hf (hcovered .out) (by omega)) _ (fun _ he => he)
        rintro begs s1 (hno | ⟨hf1, h1⟩)
        · exact wp_always (fun _ _ => Or.inl hno) (fun _ => hno)
        rw [wp_bind]
        apply wp_mono (ih _ begs.2 s1 h1.generated hf1 (hcovered .inp) (by omega)) _ (fun _ he => he)
        rintro ends s2 (hno | ⟨hf2, h2⟩)
        · exact wp_always (fun _ _ => Or.inl hno) (fun _ => hno)
        obtain ⟨hext, habove, hends⟩ := ends_correspond hrank harc h1 h2
        have hnone : ends.2.params[v]? = none := by rw [habove v le_rfl, hfound]
        have hnoresult := (Option.or_eq_none_iff.mp ((h2.generated.lookup v).symm.trans hnone)).2
        have hlives (d : Dir) := hf2.value_live h2.generated hvalues (hends d)
        apply wp_mono (wp_and
          (genArc_total hok hranked hread hf2 h2.generated hnoresult hopen harc (hlives .out)
            (hlives .inp))
          (genArc_corresponds hok h2.generated hext (fun w hw => habove w hw.le) hnone harc hends)) _
          (fun _ he => he.1)
        rintro q s' ⟨hno | hf', hc'⟩
        · exact Or.inl hno
        · exact Or.inr ⟨hf', hc'⟩
      · intro hnotNode hnotArc
        exact absurd ((hcover v hopen).2.resolve_left hnotNode).1 hnotArc

/-- The loop leaves a correspondence for each of the elements. -/
theorem genVariables_generated
    (hrank : ∀ x d, LiveArc st.cell x → rank (ownerOf st.cell d x) < rank x)
    (fuel : ℕ) (vars : List ScAddr) (maps : GenMaps) (s : ScStorage)
    (hg : Generated env.thread st table maps s) (hlive : ∀ v ∈ vars, Live st.cell v) :
    IfReturns (genVariables env ctx fuel vars maps)
      (fun maps' s' => Generated env.thread st table maps' s' ∧
      Extends maps.params maps'.params ∧ ∀ v ∈ vars, (maps'.params[v]?).isSome) s := by
  induction vars generalizing maps s with
  | nil => exact ⟨hg, fun _ _ h => h, fun v hv => by cases hv⟩
  | cons v vars ih =>
    unfold genVariables
    rw [IfReturns, wp_bind]
    apply wp_mono (gen_corresponds hok hranked hrank hread fuel v maps s hg
      (hlive v List.mem_cons_self)) _
      (fun _ _ => trivial)
    intro q s1 h1
    apply wp_mono (ih q.2 s1 h1.generated fun w hw => hlive w (List.mem_cons_of_mem v hw)) _
      (fun _ he => he)
    rintro maps' s' ⟨hg', hext, hall⟩
    refine ⟨hg', fun w x hw => hext w x (h1.extends_ w x hw), fun w hw => ?_⟩
    rcases List.mem_cons.mp hw with rfl | hw
    · rw [hext _ _ h1.value]
      rfl
    · exact hall w hw

/-- The loop over variables of a pattern that the table covers returns, or the cells run out. -/
theorem genVariables_total (hcover : Coverable st.cell pattern params)
    (hrank : ∀ x d, LiveArc st.cell x → rank (ownerOf st.cell d x) < rank x)
    (hparams : ∀ v x : ScAddr, params[v]? = some x → Live st.cell x)
    (fuel : ℕ) (vars : List ScAddr) (maps : GenMaps) (s : ScStorage)
    (hg : Generated env.thread st (genAllPairs ctx st.cell pattern params) maps s)
    (hf : Filled env ctx st pattern params maps s)
    (hvars : ∀ v ∈ vars, IsCovered st.cell pattern params v ∧ rank v < fuel) :
    Wp (genVariables env ctx fuel vars maps)
      (fun maps' s' => OutOfCells env ctx (patternElements ctx st.cell pattern scTypeVar).length st ∨
        Filled env ctx st pattern params maps' s')
      (fun _ => OutOfCells env ctx (patternElements ctx st.cell pattern scTypeVar).length st) s := by
  induction vars generalizing maps s with
  | nil => exact Or.inr hf
  | cons v vars ih =>
    obtain ⟨hcov, hfuel⟩ := hvars v List.mem_cons_self
    unfold genVariables
    rw [wp_bind]
    apply wp_mono (gen_total hok hranked hread hcover hrank hparams fuel v maps s hg hf hcov hfuel) _
      (fun _ he => he)
    rintro q s1 (hno | ⟨hf1, h1⟩)
    · exact wp_always (fun _ _ => Or.inl hno) (fun _ => hno)
    · exact ih q.2 s1 h1.generated hf1 fun w hw => hvars w (List.mem_cons_of_mem v hw)

omit hok hranked hread in
theorem generated_start {thread : ℕ} (h : StoreOk thread st) (table : ScTypeResult) :
    Generated thread st table ⟨table, ∅⟩ st := by
  have hnone (v : ScAddr) : (∅ : ScTypeResult)[v]? = none := Std.TreeMap.getElem?_emptyc
  have hset : {x | x ≠ ScAddr.empty ∧ ∃ v : ScAddr, (∅ : ScTypeResult)[v]? = some x} = ∅ := by
    ext x
    simp only [hnone, reduceCtorEq, exists_false, and_false, Set.mem_ofPred_eq,
      Set.mem_empty_iff_false]
  refine ⟨h, hset ▸ GrownBy.refl st, fun _ _ _ => List.suffix_refl _, fun v => ?_, ?_, ?_, ?_⟩
  · rw [hnone, Option.or_none]
  · intro v x hv
    rw [hnone] at hv
    cases hv
  · intro v w x _ hv
    rw [hnone] at hv
    cases hv
  · intro v x hv
    rw [hnone] at hv
    cases hv

omit hranked in
/-- The variables of a pattern are those that the iterator yields. -/
theorem open_mem (hv : IsOpen st.cell pattern params v) :
    v ∈ patternElements ctx st.cell pattern scTypeVar :=
  (mem_patternElements_iff hok.arcs hread _).mpr ⟨hv.1, hv.2.1⟩

omit hranked in
/-- What the table has at the end stands for the element. -/
theorem imageOf_of_lookup {thread : ℕ} {y : ScAddr}
    (hg : Generated thread st (genAllPairs ctx st.cell pattern params) maps s)
    (hw : maps.params[w]? = some y) :
    imageOf params maps.result w = y := by
  rw [hg.lookup w] at hw
  unfold imageOf
  rcases Option.or_eq_some_iff.mp hw with htable | ⟨hnone, hresult⟩
  · rcases (genAllPairs_get hok.arcs hread).mp htable with hp | ⟨hnoparam, _, rfl⟩
    · rw [hp]
      rfl
    · have hnoresult : maps.result[y]? = none := by
        cases hr : maps.result[y]? with
        | none => rfl
        | some x => exact absurd (hg.fresh y x hr) (by rw [htable]; exact Option.some_ne_none y)
      rw [hnoparam, hnoresult]
      rfl
  · rw [((genAllPairs_none hok.arcs hread).mp hnone).1, hresult]
    rfl

/-- With a pair for each variable that is not in `params`, and for no other element, the pattern is
realised. -/
theorem realised_of_filled {thread : ℕ} (hcover : Coverable st.cell pattern params)
    (hg : Generated thread st (genAllPairs ctx st.cell pattern params) maps s)
    (hf : Filled env ctx st pattern params maps s)
    (hall : ∀ v ∈ patternElements ctx st.cell pattern scTypeVar, (maps.params[v]?).isSome) :
    PatternRealised st pattern params maps.result s := by
  have hnew (v x : ScAddr) (hv : maps.result[v]? = some x) : x ≠ ScAddr.empty ∧
      ∃ v : ScAddr, maps.result[v]? = some x := ⟨(hf.full v x hv).1, v, hv⟩
  constructor
  · intro v
    constructor
    · intro hv
      obtain ⟨x, hx⟩ := Option.isSome_iff_exists.mp hv
      exact (hf.full v x hx).2
    · intro hv
      have hsome := hall v (open_mem hok hread hv)
      have htable := (genAllPairs_none hok.arcs hread).mpr ⟨hv.2.2, (hcover v hv).1⟩
      rw [hg.lookup v, htable, Option.none_or] at hsome
      exact hsome
  · intro v x hv
    exact ⟨fun hl => type_of_live hl (hg.grown.free x (hnew v x hv)), hg.grown.live x (hnew v x hv),
      (hg.made v x hv).type (hf.full v x hv).1⟩
  · intro v w x hv hw
    exact hg.distinct v w x (hf.full v x hv).1 hv hw
  · intro x hx
    by_cases hin : x ≠ ScAddr.empty ∧ ∃ v : ScAddr, maps.result[v]? = some x
    · exact Or.inr hin.2
    · exact Or.inl ((hg.grown.others x hin).same.live.mp hx)
  · intro v x hv harc
    obtain ⟨_, hends⟩ := (hg.made v x hv).between.resolve_left fun hnode =>
      absurd (not_arc_of_node hranked harc.1 hnode) (bne_iff_ne.mp harc.2)
    have hne := (hf.full v x hv).1
    obtain ⟨_, _, hfirst⟩ := hends .out
    refine ⟨(hfirst hne).1, fun d => ?_⟩
    obtain ⟨y, hy, hown⟩ := hends d
    rw [imageOf_of_lookup hok hread hg hy]
    exact (hown hne).2

omit hranked in
/-- A pattern that has been realised was covered by the table. -/
theorem coverable_of_realised {thread : ℕ}
    (hg : Generated thread st (genAllPairs ctx st.cell pattern params) maps s)
    (hreal : PatternRealised st pattern params maps.result s) : Coverable st.cell pattern params := by
  intro v hv
  obtain ⟨x, hx⟩ := Option.isSome_iff_exists.mp ((hreal.keys v).mpr hv)
  refine ⟨((genAllPairs_none hok.arcs hread).mp (hg.fresh v x hx)).2, ?_⟩
  apply (hg.made v x hx).between.imp_right
  rintro ⟨harc, hends⟩
  refine ⟨harc, fun d => ?_⟩
  obtain ⟨y, hy, _⟩ := hends d
  rw [hg.lookup] at hy
  rcases Option.or_eq_some_iff.mp hy with htable | ⟨_, hresult⟩
  · rcases (genAllPairs_get hok.arcs hread).mp htable with hp | ⟨_, hconst, _⟩
    · exact Or.inl (by rw [hp]; rfl)
    · exact Or.inr (Or.inl hconst)
  · exact Or.inr (Or.inr ((hreal.keys _).mp (by rw [hresult]; rfl)))

end

/-- A generation that returns leaves what has come into the maps. -/
theorem systemSysGen_generated (hok : StoreOk env.thread st) (hranked : ArcsRanked st.cell)
    (hread : ∀ x, Live st.cell x → CanRead ctx st.cell x) (fuel : ℕ) :
    IfReturns (systemSysGen env ctx fuel pattern params) (fun r s' => r.1 = .ok ∧ ∃ maps : GenMaps,
      maps.result = r.2 ∧ Generated env.thread st (genAllPairs ctx st.cell pattern params) maps s' ∧
        ∀ v ∈ patternElements ctx st.cell pattern scTypeVar, (maps.params[v]?).isSome) st := by
  obtain ⟨rank, hrank⟩ := hranked.ranked
  have hlive (v : ScAddr) (hv : v ∈ patternElements ctx st.cell pattern scTypeVar) : Live st.cell v :=
    live_of_inPattern_cells hok.cells.arcs ((mem_patternElements_iff hok.cells.arcs hread _).mp hv).1
  unfold systemSysGen
  rw [IfReturns, wp_bind, wp_get, wp_bind]
  apply wp_mono (genVariables_generated hok.cells hranked hread hrank fuel _ _ st
    (generated_start hok (genAllPairs ctx st.cell pattern params)) hlive) _ (fun _ _ => trivial)
  rintro maps s' ⟨hg, _, hall⟩
  exact ⟨rfl, maps, rfl, hg, hall⟩

/-- Where the table covers the pattern the generation realises it, or the cells run out. -/
theorem realises_of_coverable (hok : StoreOk env.thread st) (hranked : ArcsRanked st.cell)
    (hread : ∀ x, Live st.cell x → CanRead ctx st.cell x)
    (hparams : ∀ v x : ScAddr, params[v]? = some x → Live st.cell x)
    (hcover : Coverable st.cell pattern params) :
    OutOfCells env ctx (patternElements ctx st.cell pattern scTypeVar).length st ∨
      Realises env ctx st pattern params := by
  by_cases hno : OutOfCells env ctx (patternElements ctx st.cell pattern scTypeVar).length st
  · exact Or.inl hno
  obtain ⟨rank, hrank⟩ := hranked.ranked
  have hvar (v : ScAddr) (hv : v ∈ patternElements ctx st.cell pattern scTypeVar) :
      InPattern st.cell pattern v ∧ HasType st.cell v scTypeVar :=
    (mem_patternElements_iff hok.cells.arcs hread _).mp hv
  have hcov (v : ScAddr) (hv : v ∈ patternElements ctx st.cell pattern scTypeVar) :
      IsCovered st.cell pattern params v := by
    cases hp : params[v]? with
    | none => exact Or.inr (Or.inr ⟨(hvar v hv).1, (hvar v hv).2, hp⟩)
    | some x => exact Or.inl (by rw [hp]; rfl)
  have hempty : Filled env ctx st pattern params ⟨genAllPairs ctx st.cell pattern params, ∅⟩ st := by
    refine ⟨.none, fun v x hv => ?_⟩
    rw [Std.TreeMap.getElem?_emptyc] at hv
    cases hv
  refine Or.inr ⟨(patternElements ctx st.cell pattern scTypeVar).toFinset.sup rank+1,
    fun fuel hfuel => ?_⟩
  have hranks (v : ScAddr) (hv : v ∈ patternElements ctx st.cell pattern scTypeVar) :
      rank v < fuel := by
    have hle := Finset.le_sup (f := rank) (List.mem_toFinset.mpr hv)
    omega
  have hstart := generated_start hok (genAllPairs ctx st.cell pattern params)
  have hrun : Wp (systemSysGen env ctx fuel pattern params)
      (fun r s' => r.1 = .ok ∧ PatternRealised st pattern params r.2 s') (fun _ => False) st := by
    unfold systemSysGen
    rw [wp_bind, wp_get, wp_bind]
    apply wp_mono (wp_and
      (genVariables_total hok.cells hranked hread hcover hrank hparams fuel _ _ st hstart hempty
        fun v hv => ⟨hcov v hv, hranks v hv⟩)
      (genVariables_generated hok.cells hranked hread hrank fuel _ _ st hstart
        fun v hv => live_of_inPattern_cells hok.cells.arcs (hvar v hv).1)) _ (fun _ he => hno he.1)
    rintro maps s' ⟨hout | hf, hg, _, hall⟩
    · exact absurd hout hno
    · exact ⟨rfl, realised_of_filled hok.cells hranked hread hcover hg hf hall⟩
  obtain ⟨⟨res, result⟩, s', heq, rfl, hreal⟩ := wp_returns hrun
  exact ⟨result, s', heq, hreal⟩

theorem coverable_of_realises (hok : StoreOk env.thread st) (hranked : ArcsRanked st.cell)
    (hread : ∀ x, Live st.cell x → CanRead ctx st.cell x) (h : Realises env ctx st pattern params) :
    Coverable st.cell pattern params := by
  obtain ⟨n, hn⟩ := h
  obtain ⟨result, s', hrun, hreal⟩ := hn n le_rfl
  have hgen := wp_ok (systemSysGen_generated hok hranked hread n) hrun
  obtain ⟨_, maps, rfl, hg, _⟩ := hgen
  exact coverable_of_realised hok.cells hread hg hreal

/-- The generation realises a pattern exactly if its table covers the pattern: constant nodes are in
the table, but a link and a constant arc are not. -/
theorem systemSysGen_realises_iff (thread : ℕ) (evs : List StoreEvent) (st : ScStorage)
    (hr : Run (OwnStep thread) ScStorage.empty evs st) (env : ScEnv) (henv : env.thread = thread)
    (ctx : ScContext) (hread : ∀ x, Live st.cell x → CanRead ctx st.cell x) (pattern : ScAddr)
    (params : ScTypeResult) (hparams : ∀ v x : ScAddr, params[v]? = some x → Live st.cell x) :
    OutOfCells env ctx (patternElements ctx st.cell pattern scTypeVar).length st ∨
      (Realises env ctx st pattern params ↔ Coverable st.cell pattern params) := by
  have hok : StoreOk env.thread st := henv ▸ ownRun_storeOk evs st hr
  have hranked := ownRun_arcsRanked evs st hr
  by_cases hcover : Coverable st.cell pattern params
  · apply (realises_of_coverable hok hranked hread hparams hcover).imp_right
    exact fun hreal => ⟨fun _ => hcover, fun _ => hreal⟩
  · exact Or.inr ⟨fun hreal => coverable_of_realises hok hranked hread hreal,
      fun h => absurd h hcover⟩

end

/-! Patterns. -/

theorem systemSysGen_realises_plain :
    OutOfCells exampleEnv exampleContext
        (patternElements exampleContext plainPattern.cell ⟨0, 1⟩ scTypeVar).length plainPattern ∨
      (Realises exampleEnv exampleContext plainPattern ⟨0, 1⟩ ∅ ↔
        Coverable plainPattern.cell ⟨0, 1⟩ ∅) :=
  systemSysGen_realises_iff 1 plainPatternEvents plainPattern plainPattern_run exampleEnv rfl
    exampleContext
    (everything_readable plainPattern.cell) ⟨0, 1⟩ ∅ (fun v x hv => by
      rw [Std.TreeMap.getElem?_emptyc] at hv
      cases hv)

/-- The pattern has both ends of each of its arcs. -/
def ClosedPattern (c : Cells) (pattern : ScAddr) : Prop :=
  ∀ a d, InPattern c pattern a → LiveArc c a → InPattern c pattern (ownerOf c d a)

theorem closedPattern_of_test {c : Cells} {ctx : ScContext} {pattern : ScAddr} (hc : ArcsOk c)
    (hread : ∀ x, Live c x → CanRead ctx c x)
    (htest : ∀ a ∈ patternElements ctx c pattern 0, LiveArc c a →
      ownerOf c .out a ∈ patternElements ctx c pattern 0 ∧
        ownerOf c .inp a ∈ patternElements ctx c pattern 0) :
    ClosedPattern c pattern := by
  have hmem (x : ScAddr) : x ∈ patternElements ctx c pattern 0 ↔ InPattern c pattern x :=
    (mem_patternElements_iff hc hread 0).trans (and_iff_left BitVec.zero_and)
  intro a d ha harc
  obtain ⟨hout, hinp⟩ := htest a ((hmem a).mpr ha) harc
  cases d with
  | out => exact (hmem _).mp hout
  | inp => exact (hmem _).mp hinp

/-- The set `⟨0, 1⟩` of the constant `⟨0, 33⟩`, a constant arc at it, `⟨0, 65⟩`, and a variable arc
from the constant to that arc, `⟨0, 97⟩`. -/
def arcPatternEvents : List StoreEvent :=
  [nodeEvent scTypeConst, nodeEvent scTypeConst,
    arcEvent scTypeEdgeAccessConstPosPerm ⟨0, 33⟩ ⟨0, 33⟩,
    arcEvent scTypeArcPosVarPerm ⟨0, 33⟩ ⟨0, 65⟩,
    arcEvent scTypeEdgeAccessConstPosPerm ⟨0, 1⟩ ⟨0, 33⟩,
    arcEvent scTypeEdgeAccessConstPosPerm ⟨0, 1⟩ ⟨0, 65⟩,
    arcEvent scTypeEdgeAccessConstPosPerm ⟨0, 1⟩ ⟨0, 97⟩]

def arcPattern : ScStorage := stateAfterEvents arcPatternEvents ScStorage.empty

theorem arcPattern_run : Run (OwnStep 1) ScStorage.empty arcPatternEvents arcPattern :=
  ownRun_of_ownEvents arcPatternEvents _ (by decide +kernel)

/-- The map that the call returns. -/
def generatedOf (x : Except ScStop ((ScResult × ScTypeResult) × ScStorage)) : Option ScTypeResult :=
  match x with
  | .ok (r, _) => some r.2
  | .error _ => none

/-- A constant arc is made once more. -/
theorem constant_arc_copied :
    Run (OwnStep 1) ScStorage.empty arcPatternEvents arcPattern ∧
      ClosedPattern arcPattern.cell ⟨0, 1⟩ ∧
      (generatedOf (systemSysGen exampleEnv exampleContext 3 ⟨0, 1⟩ ∅ arcPattern)).map (·.keys) =
        some [⟨0, 65⟩, ⟨0, 97⟩] ∧
      ¬ HasType arcPattern.cell ⟨0, 65⟩ scTypeVar ∧
      ¬ Realises exampleEnv exampleContext arcPattern ⟨0, 1⟩ ∅ := by
  have hok := ownRun_storeOk _ _ arcPattern_run
  have hread := everything_readable arcPattern.cell
  refine ⟨arcPattern_run, closedPattern_of_test hok.cells.arcs hread (by decide +kernel),
    by decide +kernel, by decide +kernel, fun h => ?_⟩
  have hranked := ownRun_arcsRanked _ _ arcPattern_run
  have hcover := @coverable_of_realises exampleEnv _ _ _ _ hok hranked hread h
  have hmember :
      (⟨0, 97⟩ : ScAddr) ∈ patternElements exampleContext arcPattern.cell ⟨0, 1⟩ scTypeVar := by
    decide +kernel
  obtain ⟨hin, hvar⟩ := (mem_patternElements_iff hok.cells.arcs hread _).mp hmember
  have hnode : ¬ HasType arcPattern.cell ⟨0, 97⟩ scTypeNode := by decide +kernel
  obtain ⟨_, hends⟩ := (hcover ⟨0, 97⟩ ⟨hin, hvar, Std.TreeMap.getElem?_emptyc⟩).2.resolve_left hnode
  have hend : ownerOf arcPattern.cell .inp ⟨0, 97⟩ = ⟨0, 65⟩ := by decide +kernel
  have hcov := hends .inp
  rw [hend] at hcov
  rcases hcov with hp | ⟨_, hconst⟩ | ⟨_, hopen, _⟩
  · rw [Std.TreeMap.getElem?_emptyc] at hp
    cases hp
  · exact absurd hconst (by decide +kernel)
  · exact absurd hopen (by decide +kernel)

end ScMachine.Scp
