import ScMachine.ScpSearchSound

/-! The results of `system_sys_search_only_full`: which of them are whole, and what this leaves open. -/
namespace ScMachine.Scp
open ScMachine.Store ScMachine.Template ScMachine.Runs ScMachine.Agent

/-! The depth of the recursion is enough: each call takes an element out of what is left. -/

section
variable {m : PatternSearch} {H : Finset ScAddr} {inp r : ScTypeResult} {p : PatternArc}
  {cand : Candidate} {recurse recurse' : Finset ScAddr → ScAddr → ScAddr → ScTypeResult → List ScTypeResult}

theorem deeper_congr (hmem : p.arc ∈ H) (h : ∀ H', H'.card < H.card → recurse H' = recurse' H') :
    deeper recurse H p cand r = deeper recurse' H p cand r := by
  have hlt : ((H.erase p.arc).erase p.next.element).card < H.card :=
    (Finset.card_erase_le).trans_lt (Finset.card_erase_lt_of_mem hmem)
  have hlt' (x y : ScAddr) : ((((H.erase p.arc).erase p.next.element).erase x).erase y).card < H.card :=
    (Finset.card_erase_le.trans Finset.card_erase_le).trans_lt hlt
  unfold deeper
  cases p.ends with
  | none => simp only [h _ hlt]
  | some ends =>
    cases cand.ends with
    | none => simp only [h _ hlt]
    | some constEnds => simp only [h _ (hlt' _ _)]

theorem constArcStep_congr (hmem : p.arc ∈ H) (h : ∀ H', H'.card < H.card → recurse H' = recurse' H') :
    m.constArcStep recurse H inp p = m.constArcStep recurse' H inp p := by
  funext s z
  have hstep (cand : Candidate) :
      m.resultStep recurse H inp p cand = m.resultStep recurse' H inp p cand := by
    funext entry
    unfold PatternSearch.resultStep
    simp only [deeper_congr hmem h]
  unfold PatternSearch.constArcStep
  simp only [hstep]

theorem searchFrom_congr (h : ∀ H', H'.card < H.card → recurse H' = recurse' H') :
    m.searchFrom recurse H inp = m.searchFrom recurse' H inp := by
  funext cc pc
  have hstep (s : ℕ × List ScTypeResult) (a : ScAddr) (ha : a ∈ H) :
      m.patternArcStep recurse H inp cc s a = m.patternArcStep recurse' H inp cc s a := by
    unfold PatternSearch.patternArcStep
    split
    · rfl
    · rename_i k type flag next _
      cases hp : m.resolvePatternArc H inp a type flag next with
      | none => rfl
      | some p =>
        have htype := (nextPatternElement_some ‹_›).1
        have hmem : p.arc ∈ H := (resolvePatternArc_some htype hp).arc_eq ▸ ha
        simp only [constArcStep_congr hmem h]
  unfold PatternSearch.searchFrom
  cases harcs : m.patternArcSet H pc with
  | none => rfl
  | some lists =>
    obtain ⟨outs, ins⟩ := lists
    dsimp only
    rw [List.foldl_ext]
    intro s a ha
    apply hstep
    unfold PatternSearch.patternArcSet at harcs
    obtain ⟨lo, _, harcs⟩ := Option.bind_eq_some_iff.mp harcs
    obtain ⟨li, _, harcs⟩ := Option.bind_eq_some_iff.mp harcs
    obtain ⟨rfl, rfl⟩ := Prod.mk.inj (Option.some.inj harcs)
    rcases List.mem_append.mp ha with ha | ha
    · exact of_decide_eq_true (List.mem_filter.mp ha).2
    · exact of_decide_eq_true (List.mem_filter.mp ha).2

theorem recurse_step (n : ℕ) (H : Finset ScAddr) (hn : H.card ≤ n) :
    m.systemSysSearchRecurse (n+1) H = m.systemSysSearchRecurse n H := by
  induction n generalizing H with
  | zero =>
    funext cc pc inp
    unfold PatternSearch.systemSysSearchRecurse
    exact congrFun (congrFun (searchFrom_congr fun H' hlt => by omega) cc) pc
  | succ n ih =>
    funext cc pc inp
    have hunfold (k : ℕ) : m.systemSysSearchRecurse (k+1) H cc pc inp =
        m.searchFrom (m.systemSysSearchRecurse k) H inp cc pc := rfl
    rw [hunfold, hunfold]
    exact congrFun (congrFun (searchFrom_congr fun H' hlt => ih H' (by omega)) cc) pc

/-- The recursion ends: more depth than there are elements left changes nothing. -/
theorem recurse_depth {depth : ℕ} (h : H.card ≤ depth) :
    m.systemSysSearchRecurse depth H = m.systemSysSearchRecurse H.card H := by
  induction depth, h using Nat.le_induction with
  | base => rfl
  | succ n hn ih => rw [recurse_step n H hn, ih]

end

/-- What a result of a search is to be. -/
structure SoundResult (m : PatternSearch) (params r : ScTypeResult) : Prop where
  assigned : ∀ v, m.InPattern v → m.IsVar v → ∃ x, r[v]? = some x ∧ Live m.cells x
  extends_ : Extends params r
  arcs : ∀ a, m.InPattern a → m.IsVar a → LiveArc m.cells a → ∃ z, r[a]? = some z ∧
    LiveArc m.cells z ∧ ∀ d, m.image r (ownerOf m.cells d a) = some (ownerOf m.cells d z)
  injective : ∀ v w x : ScAddr, m.InPattern v → m.IsVar v → m.InPattern w → m.IsVar w →
    r[v]? = some x → r[w]? = some x → v = w

/-- The parameters are a map from variables of the pattern to live elements. -/
def ParamsOf (m : PatternSearch) (params : ScTypeResult) : Prop :=
  ∀ v x : ScAddr, params[v]? = some x → m.InPattern v ∧ m.IsVar v ∧ Live m.cells x

/-- The parameters give different elements to different variables, and an arc together with its ends. -/
structure ParamsFit (m : PatternSearch) (params : ScTypeResult) : Prop where
  noConst : ∀ v x : ScAddr, params[v]? = some x → ¬ m.IsConst v
  arc : ∀ v x : ScAddr, params[v]? = some x → LiveArc m.cells v → LiveArc m.cells x ∧
    ∀ d, m.image params (ownerOf m.cells d v) = some (ownerOf m.cells d x)
  injective : InjectivePairs params

section
variable {m : PatternSearch} {params r : ScTypeResult} {v w x : ScAddr}

theorem elementType_isSome (hset : PatternSet m) (h : Live m.cells x) :
    ∃ type, m.elementType x = some type := by
  unfold PatternSearch.elementType scMemoryGetElementType
  rw [if_pos ⟨h, hset.reads x h⟩]
  exact ⟨_, rfl⟩

theorem mem_patternElements (hc : ArcsOk m.cells)
    (hread : ∀ x, Live m.cells x → CanRead m.context m.cells x) :
    x ∈ m.patternElements ↔ m.InPattern x := by
  unfold PatternSearch.patternElements
  constructor
  · intro h
    obtain ⟨t, ht, rfl⟩ := List.mem_map.mp h
    obtain ⟨hl, ho, hm, _, he⟩ := mem_iterated hc (.faa _ _ _) rfl ht
    exact ⟨t.edge, hl, ho, he.symm, hm.1⟩
  · rintro ⟨z, hz, ho, hi, ht⟩
    have hset' : Live m.cells m.scPattern := ho ▸ hc.endpoint z .out hz
    have hx : Live m.cells x := hi ▸ hc.endpoint z .inp hz
    apply List.mem_map.mpr
    refine ⟨⟨ownerOf m.cells .out z, z, ownerOf m.cells .inp z⟩, ?_, hi⟩
    have hfixed : ∀ a ∈ (Iterator3Params.faa m.scPattern scTypeEdgeAccessConstPosPerm 0).fixed,
        Live m.cells a ∧ CanRead m.context m.cells a := by
      intro a ha
      obtain rfl := List.mem_singleton.mp ha
      exact ⟨hset', hread _ hset'⟩
    unfold PatternSearch.iterated iterated iterator3
    dsimp only
    rw [if_pos hfixed]
    apply List.mem_map_of_mem (f := fun y => (⟨ownerOf m.cells .out y, y, ownerOf m.cells .inp y⟩ :
      Triple ScAddr))
    apply List.mem_filter.mpr
    refine ⟨((hc.arcList hset').mem z).mpr ⟨hz, ho⟩, decide_eq_true ⟨ht, BitVec.zero_and, ?_⟩⟩
    rw [hi]
    exact ⟨hread z hz.1, hread x hx⟩

theorem live_of_inPattern (hset : PatternSet m) (h : m.InPattern x) : Live m.cells x := by
  obtain ⟨z, hz, _, hi, _⟩ := h
  rw [← hi]
  exact hset.arcs.endpoint z .inp hz

/-- A result with as many pairs as the pattern has variables has one for each. -/
theorem assigned_of_size (hset : PatternSet m) (hcmp : Comparable m params) (hr : PartialMatch m params r)
    (hsize : m.varCount ≤ r.size) (hv : m.InPattern v) (hvar : m.IsVar v) : (r[v]?).isSome := by
  have hcounted (x : ScAddr) (hx : m.InPattern x) (hxvar : m.IsVar x) : x ∈ m.patternElements.filter
      fun a => (m.elementType a).any fun type => hasBits type scTypeVar := by
    obtain ⟨type, htype⟩ := elementType_isSome hset (live_of_inPattern hset hx)
    apply List.mem_filter.mpr
    refine ⟨(mem_patternElements hset.arcs hset.reads).mpr hx, ?_⟩
    rw [htype]
    exact (elementType_some htype _).mpr hxvar
  have hkeys : r.keys.toFinset ⊆ (m.patternElements.filter fun a =>
      (m.elementType a).any fun type => hasBits type scTypeVar).toFinset := by
    intro x hx
    have hmem := Std.TreeMap.mem_keys.mp (List.mem_toFinset.mp hx)
    obtain ⟨y, hy⟩ := Option.isSome_iff_exists.mp (Std.TreeMap.mem_iff_isSome_getElem?.mp hmem)
    obtain ⟨hin, hconst, _⟩ := hr.pair x y hy
    exact List.mem_toFinset.mpr (hcounted x hin (hcmp.typed x y (hr.met x y hy) hin hconst))
  have hcard : (m.patternElements.filter fun a =>
      (m.elementType a).any fun type => hasBits type scTypeVar).toFinset.card ≤ r.keys.toFinset.card := by
    rw [List.toFinset_card_of_nodup Std.TreeMap.nodup_keys, Std.TreeMap.length_keys]
    exact (List.toFinset_card_le _).trans hsize
  have heq := Finset.eq_of_subset_of_card_le hkeys hcard
  have hmem : v ∈ r.keys.toFinset := by
    rw [heq]
    exact List.mem_toFinset.mpr (hcounted v hv hvar)
  exact Std.TreeMap.mem_iff_isSome_getElem?.mp (Std.TreeMap.mem_keys.mp (List.mem_toFinset.mp hmem))

theorem soundResult_of_match (hset : PatternSet m) (hcmp : Comparable m params) (hr : PartialMatch m params r)
    (hext : Extends params r) (hsize : m.varCount ≤ r.size) : SoundResult m params r := by
  have hassigned (v : ScAddr) (hv : m.InPattern v) (hvar : m.IsVar v) : ∃ x, r[v]? = some x :=
    Option.isSome_iff_exists.mp (assigned_of_size hset hcmp hr hsize hv hvar)
  refine ⟨fun v hv hvar => ?_, hext, fun a ha hvar harc => ?_, fun v w x _ _ _ _ => hr.injective v w x⟩
  · obtain ⟨x, hx⟩ := hassigned v hv hvar
    exact ⟨x, hx, (hr.pair v x hx).2.2⟩
  · obtain ⟨z, hz⟩ := hassigned a ha hvar
    exact ⟨z, hz, hr.arc a z hz harc⟩

/-- The search starts at a constant of the pattern or at the first of the parameters. -/
theorem start_ok (hset : PatternSet m) (hparams : ParamsOf m params) (hfit : ParamsFit m params)
    {node value : ScAddr}
    (hstart : (match m.getConstElement with
      | some element => some (element, element)
      | none => params.toList.head?) = some (node, value)) :
    SearchCall m params (m.patternElements.toFinset.erase node) params node value := by
  have hmatch : PartialMatch m params params :=
    ⟨fun v x hv => ⟨(hparams v x hv).1, hfit.noConst v x hv, (hparams v x hv).2.2⟩, hfit.arc,
      hfit.injective, fun _ _ hv => hv, fun v x hv => .param v x hv, fun _ _ hv _ => Or.inl hv⟩
  refine ⟨hmatch, fun x hx => ?_, Finset.notMem_erase _ _, ?_⟩
  · exact (mem_patternElements hset.arcs hset.reads).mp (List.mem_toFinset.mp (Finset.mem_of_mem_erase hx))
  · cases hconst : m.getConstElement with
    | some element =>
      rw [hconst] at hstart
      obtain ⟨rfl, rfl⟩ := Prod.mk.inj (Option.some.inj hstart)
      obtain ⟨t, ht, rfl⟩ := Option.map_eq_some_iff.mp hconst
      obtain ⟨_, _, hm, _, he⟩ := mem_iterated hset.arcs (.faa _ _ _) rfl (List.mem_of_mem_head? ht)
      rw [he]
      exact if_pos hm.2.1
    | none =>
      rw [hconst] at hstart
      have hmem := List.mem_of_mem_head? hstart
      have hget := Std.TreeMap.mem_toList_iff_getElem?_eq_some.mp hmem
      rw [image_of_var (hfit.noConst node value hget)]
      exact hget

/-- Every result that the search keeps is a whole match of the pattern. -/
theorem searchOnlyFull_sound (hset : PatternSet m) (hcmp : Comparable m params) (hparams : ParamsOf m params)
    (hfit : ParamsFit m params) :
    ∀ r ∈ (m.systemSysSearchOnlyFull params).2, SoundResult m params r := by
  intro r hr
  unfold PatternSearch.systemSysSearchOnlyFull at hr
  dsimp only at hr
  split at hr
  · cases hr
  · rename_i node value hstart
    have hcall := start_ok hset hparams hfit hstart
    have hsize : m.varCount ≤ r.size := by simpa using List.mem_takeWhile_imp hr
    have hmem := (m.order.sort_perm _).mem_iff.mp ((List.takeWhile_prefix _).subset hr)
    have hext := recurse_sound hset hcmp _ _ _ _ _ hcall r hmem
    exact soundResult_of_match hset hcmp hext.isMatch hext.extends_ hsize

end

/-- Pointers in the order in which they were made. -/
def orderOfCreation : ResultOrder where
  cantorize := id
  cantorize_perm := fun _ => List.Perm.refl _
  sort := List.insertionSort fun s1 s2 => s2.size ≤ s1.size
  sort_perm := List.perm_insertionSort _
  sort_sorted := List.pairwise_insertionSort _

def nodeEvent (type : ScType) : StoreEvent := ⟨exampleEnv, .call (.nodeNew exampleContext type)⟩

def arcEvent (type : ScType) (beg end_ : ScAddr) : StoreEvent :=
  ⟨exampleEnv, .call (.arcNew exampleContext type beg end_)⟩

def scTypeArcPosVarPerm : ScType := scTypeVar ||| scTypeArcAccess ||| 0x800 ||| 0x80

/-- The set `⟨0, 1⟩` of the constant `⟨0, 33⟩`, the variable `⟨0, 65⟩` and a variable arc between the two,
`⟨0, 129⟩`, and an arc from the constant to another one. -/
def plainPatternEvents : List StoreEvent :=
  [nodeEvent scTypeConst, nodeEvent scTypeConst, nodeEvent scTypeVar, nodeEvent scTypeConst,
    arcEvent scTypeArcPosVarPerm ⟨0, 33⟩ ⟨0, 65⟩,
    arcEvent scTypeEdgeAccessConstPosPerm ⟨0, 33⟩ ⟨0, 97⟩,
    arcEvent scTypeEdgeAccessConstPosPerm ⟨0, 1⟩ ⟨0, 33⟩,
    arcEvent scTypeEdgeAccessConstPosPerm ⟨0, 1⟩ ⟨0, 65⟩,
    arcEvent scTypeEdgeAccessConstPosPerm ⟨0, 1⟩ ⟨0, 129⟩]

def plainPattern : ScStorage := stateAfterEvents plainPatternEvents ScStorage.empty

theorem plainPattern_run : Run (OwnStep 1) ScStorage.empty plainPatternEvents plainPattern :=
  ownRun_of_ownEvents plainPatternEvents _ (by decide +kernel)

theorem exampleContext_reads (c : Cells) (x : ScAddr) : CanRead exampleContext c x := by
  have hfull : FullAccess exampleContext := rfl
  exact canRead_full hfull c x

instance (m : PatternSearch) (x : ScAddr) : Decidable (m.IsVar x) :=
  inferInstanceAs (Decidable (HasType _ _ _))

/-- Whether an element of a set is constant or variable, and has its ends in the set if it is an arc. -/
def PatternSearch.closedAt (m : PatternSearch) (x : ScAddr) : Bool :=
  decide (LiveArc m.cells x → ownerOf m.cells .out x ∈ m.patternElements ∧
    ownerOf m.cells .inp x ∈ m.patternElements)

/-- Whether an arc of a set hangs neither on an arc nor on the set. -/
def PatternSearch.flatAt (m : PatternSearch) (x : ScAddr) : Bool :=
  decide (m.IsVar x ↔ ¬ m.IsConst x) && decide (LiveArc m.cells x →
    ¬ LiveArc m.cells (ownerOf m.cells .out x) ∧ ¬ LiveArc m.cells (ownerOf m.cells .inp x) ∧
      ownerOf m.cells .out x ≠ m.scPattern)

section
variable {c : Cells} {ctx : ScContext} {scPattern : ScAddr} {order : ResultOrder} (hc : ArcsOk c)
  (hread : ∀ x, Live c x → CanRead ctx c x)
include hc hread

theorem closed_of_test (h : (PatternSearch.patternElements ⟨c, ctx, scPattern, order⟩).all
      (PatternSearch.closedAt ⟨c, ctx, scPattern, order⟩) = true) (a : ScAddr) (d : Dir)
    (ha : PatternSearch.InPattern ⟨c, ctx, scPattern, order⟩ a) (hl : LiveArc c a) :
    PatternSearch.InPattern ⟨c, ctx, scPattern, order⟩ (ownerOf c d a) := by
  have htest := List.all_eq_true.mp h a ((mem_patternElements hc hread).mpr ha)
  have hends := of_decide_eq_true htest hl
  cases d with
  | out => exact (mem_patternElements hc hread).mp hends.1
  | inp => exact (mem_patternElements hc hread).mp hends.2

/-- For a pattern without arcs at arcs the comparisons of the search are enough. -/
theorem comparable_of_test {params : ScTypeResult} (h : (PatternSearch.patternElements ⟨c, ctx, scPattern, order⟩).all
      (PatternSearch.flatAt ⟨c, ctx, scPattern, order⟩) = true) :
    Comparable ⟨c, ctx, scPattern, order⟩ params := by
  have htest (x : ScAddr) (hx : PatternSearch.InPattern ⟨c, ctx, scPattern, order⟩ x) :=
    Bool.and_eq_true_iff.mp (List.all_eq_true.mp h x ((mem_patternElements hc hread).mpr hx))
  refine ⟨fun v _ _ hv => (of_decide_eq_true (htest v hv).1).mpr, fun a _ _ ha hl _ => ?_, fun n x h => ?_⟩
  · exact (of_decide_eq_true (htest a ha).2 hl).2.2
  · obtain ⟨a, _, _, _, d, _, htried, _, rfl, _⟩ := h.behind
    obtain ⟨hout, hinp, _⟩ := of_decide_eq_true (htest a htried.inPattern).2 htried.live
    cases d with
    | out => exact absurd h.live hout
    | inp => exact absurd h.live hinp

omit hc hread in
/-- What is wrong with a result that gives the loop an arc between two elements. -/
theorem not_soundResult_of_loop {params r : ScTypeResult} {n z b v : ScAddr} (hc : ArcsOk c)
    (hread : ∀ x, Live c x → CanRead ctx c x)
    (hin : n ∈ PatternSearch.patternElements ⟨c, ctx, scPattern, order⟩)
    (hvar : HasType c n scTypeVar) (hlive : LiveArc c n) (hv : ownerOf c .inp n = v)
    (hvconst : ¬ HasType c v scTypeConst) (hn : r[n]? = some z) (hr : r[v]? = some b)
    (hne : ownerOf c .inp z ≠ b) : ¬ SoundResult ⟨c, ctx, scPattern, order⟩ params r := by
  intro hsound
  obtain ⟨z', hz', _, himage⟩ :=
    hsound.arcs n ((mem_patternElements hc hread).mp hin) hvar hlive
  obtain rfl := Option.some.inj (hn.symm.trans hz')
  have hend := himage .inp
  have hvar' : ¬ PatternSearch.IsConst ⟨c, ctx, scPattern, order⟩ v := hvconst
  rw [hv, image_of_var hvar', hr] at hend
  exact hne (Option.some.inj hend).symm

end

theorem empty_paramsOf (m : PatternSearch) : ParamsOf m ∅ := fun v x hv => by simp at hv

theorem empty_paramsFit (m : PatternSearch) : ParamsFit m ∅ :=
  ⟨fun v x hv => by simp at hv, fun v x hv => by simp at hv, fun v w x hv => by simp at hv⟩

/-- The set `⟨0, 1⟩` of the constant `⟨0, 33⟩`, the variable `⟨0, 65⟩`, a variable arc `⟨0, 97⟩` from the
variable to itself and a variable arc `⟨0, 129⟩` from the constant to that arc, and an arc from the constant
to the arc `⟨0, 161⟩`, which leads from the set to the constant. -/
def loopPatternEvents : List StoreEvent :=
  [nodeEvent scTypeConst, nodeEvent scTypeConst, nodeEvent scTypeVar,
    arcEvent scTypeArcPosVarPerm ⟨0, 65⟩ ⟨0, 65⟩, arcEvent scTypeArcPosVarPerm ⟨0, 33⟩ ⟨0, 97⟩,
    arcEvent scTypeEdgeAccessConstPosPerm ⟨0, 1⟩ ⟨0, 33⟩,
    arcEvent scTypeEdgeAccessConstPosPerm ⟨0, 1⟩ ⟨0, 65⟩,
    arcEvent scTypeEdgeAccessConstPosPerm ⟨0, 1⟩ ⟨0, 97⟩,
    arcEvent scTypeEdgeAccessConstPosPerm ⟨0, 1⟩ ⟨0, 129⟩,
    arcEvent scTypeEdgeAccessConstPosPerm ⟨0, 33⟩ ⟨0, 161⟩]

def loopPattern : ScStorage := stateAfterEvents loopPatternEvents ScStorage.empty

theorem loopPattern_run : Run (OwnStep 1) ScStorage.empty loopPatternEvents loopPattern :=
  ownRun_of_ownEvents loopPatternEvents _ (by decide +kernel)

theorem loopPattern_found :
    (PatternSearch.systemSysSearchOnlyFull ⟨loopPattern.cell, exampleContext, ⟨0, 1⟩, orderOfCreation⟩
      ∅).2.any (fun r => r[(⟨0, 65⟩ : ScAddr)]? == some ⟨0, 1⟩ &&
        r[(⟨0, 97⟩ : ScAddr)]? == some ⟨0, 161⟩) = true := by
  decide +kernel

end ScMachine.Scp
