import ScMachine.ArcRanks
import ScMachine.CommandMarks
import ScMachine.ScpSearch
import ScMachine.SearchSound

/-! Results of a search by a pattern in scp that agree with the pattern as far as they go, and the pairs
that one constant arc adds to them. A pair is compared with the other pairs of its result, but not with
those that are inserted together with it. -/
namespace ScMachine.Scp
open ScMachine.Store ScMachine.Template ScMachine.Runs ScMachine.Agent

section
variable {r inp : ScTypeResult} {pairs : List (ScAddr × ScAddr)} {v w x : ScAddr}

theorem comparator_eq_iff : scAddrComparator v w = .eq ↔ v = w :=
  Std.LawfulEqCmp.compare_eq_iff_eq

theorem insertIfNew_get : (r.insertIfNew v x)[w]? = if v = w ∧ r[v]? = none then some x else r[w]? := by
  rw [Std.TreeMap.getElem?_insertIfNew]
  simp only [comparator_eq_iff, Std.TreeMap.mem_iff_isSome_getElem?, Bool.not_eq_true,
    Option.isSome_eq_false_iff, Option.isNone_iff_eq_none]

theorem insertPairs_cons (p : ScAddr × ScAddr) :
    insertPairs r (p :: pairs) = insertPairs (r.insertIfNew p.1 p.2) pairs := rfl

/-- `std::map::insert` keeps the pairs that are there. -/
theorem insertPairs_keeps (h : r[v]? = some x) : (insertPairs r pairs)[v]? = some x := by
  induction pairs generalizing r with
  | nil => exact h
  | cons p pairs ih =>
    rw [insertPairs_cons]
    apply ih
    rw [insertIfNew_get, if_neg, h]
    rintro ⟨rfl, hnone⟩
    rw [hnone] at h
    cases h

theorem insertPairs_get (h : (insertPairs r pairs)[v]? = some x) :
    r[v]? = some x ∨ r[v]? = none ∧ (v, x) ∈ pairs := by
  induction pairs generalizing r with
  | nil => exact Or.inl h
  | cons p pairs ih =>
    rw [insertPairs_cons] at h
    rcases ih h with hr | ⟨hr, hmem⟩
    · rw [insertIfNew_get] at hr
      split_ifs at hr with hnew
      · obtain ⟨rfl, hnone⟩ := hnew
        obtain rfl := Option.some.inj hr
        exact Or.inr ⟨hnone, List.mem_cons_self⟩
      · exact Or.inl hr
    · rw [insertIfNew_get] at hr
      split_ifs at hr
      exact Or.inr ⟨hr, List.mem_cons_of_mem _ hmem⟩

/-- A pair that nothing contradicts is there afterwards. -/
theorem insertPairs_mem (hold : ∀ y, r[v]? = some y → y = x) (hnew : ∀ y, (v, y) ∈ pairs → y = x)
    (h : (v, x) ∈ pairs) : (insertPairs r pairs)[v]? = some x := by
  induction pairs generalizing r with
  | nil => cases h
  | cons p pairs ih =>
    rw [insertPairs_cons]
    rcases List.mem_cons.mp h with rfl | hmem
    · apply insertPairs_keeps
      rw [insertIfNew_get]
      split_ifs with hif
      · rfl
      · cases hr : r[v]? with
        | none => exact absurd ⟨rfl, hr⟩ hif
        | some y => rw [hold y hr]
    · apply ih _ (fun y hy => hnew y (List.mem_cons_of_mem _ hy)) hmem
      intro y hy
      rw [insertIfNew_get] at hy
      split_ifs at hy with hif
      · obtain rfl := Option.some.inj hy
        apply hnew
        rw [← hif.1]
        exact List.mem_cons_self
      · exact hold y hy

theorem erasePairs_get :
    (erasePairs r pairs)[v]? = if v ∈ pairs.map Prod.fst then none else r[v]? := by
  induction pairs generalizing r with
  | nil => rfl
  | cons p pairs ih =>
    have hcons : erasePairs r (p :: pairs) = erasePairs (r.erase p.1) pairs := rfl
    rw [hcons, ih, Std.TreeMap.getElem?_erase]
    simp only [comparator_eq_iff, List.map_cons, List.mem_cons, eq_comm (a := p.1)]
    by_cases hmem : v ∈ pairs.map Prod.fst
    · rw [if_pos hmem, if_pos (Or.inr hmem)]
    · by_cases hv : v = p.1
      · rw [if_neg hmem, if_pos hv, if_pos (Or.inl hv)]
      · rw [if_neg hmem, if_neg hv, if_neg (by simp [hv, hmem])]

theorem findResultPairForConst_none :
    findResultPairForConst r x = none ↔ ∀ v : ScAddr, r[v]? ≠ some x := by
  unfold findResultPairForConst
  simp only [Option.map_eq_none_iff, List.find?_eq_none, decide_eq_true_eq]
  constructor
  · intro h v hv
    exact h (v, x) (Std.TreeMap.mem_toList_iff_getElem?_eq_some.mpr hv) rfl
  · rintro h ⟨v, y⟩ hmem rfl
    exact h v (Std.TreeMap.mem_toList_iff_getElem?_eq_some.mp hmem)

theorem findResultPairForConst_some (h : findResultPairForConst r x = some v) : r[v]? = some x := by
  unfold findResultPairForConst at h
  obtain ⟨⟨v', y⟩, hfind, rfl⟩ := Option.map_eq_some_iff.mp h
  have hx : y = x := by simpa using List.find?_some hfind
  rw [← hx]
  exact Std.TreeMap.mem_toList_iff_getElem?_eq_some.mp (List.mem_of_find?_eq_some hfind)

/-- No element stands for two variables. -/
def InjectivePairs (r : ScTypeResult) : Prop := ∀ v w x : ScAddr, r[v]? = some x → r[w]? = some x → v = w

theorem unused_of_not (hr : InjectivePairs r) (h : usedElsewhere r (v, x) = false)
    (hw : r[w]? = some x) : w = v := by
  unfold usedElsewhere at h
  cases hfind : findResultPairForConst r x with
  | none => exact absurd hw (findResultPairForConst_none.mp hfind w)
  | some u =>
    have hu := findResultPairForConst_some hfind
    have huv : u = v := by simpa [hfind] using h
    rw [← huv]
    exact hr w u x hw hu

theorem unbound_of_not (h : boundElsewhere r (v, x) = false) (hy : r[v]? = some w) : w = x := by
  simpa [boundElsewhere, findResultPairForVar, hy] using h

end

/-- The element is in the set of the pattern. -/
def PatternSearch.InPattern (m : PatternSearch) (x : ScAddr) : Prop :=
  EdgeBetween m.cells m.scPattern x scTypeEdgeAccessConstPosPerm

def PatternSearch.IsConst (m : PatternSearch) (x : ScAddr) : Prop := HasType m.cells x scTypeConst

def PatternSearch.IsVar (m : PatternSearch) (x : ScAddr) : Prop := HasType m.cells x scTypeVar

instance (m : PatternSearch) (x : ScAddr) : Decidable (m.IsConst x) :=
  inferInstanceAs (Decidable (HasType _ _ _))

/-- What stands for an element of the pattern: a constant stands for itself. -/
def PatternSearch.image (m : PatternSearch) (r : ScTypeResult) (x : ScAddr) : Option ScAddr :=
  if m.IsConst x then some x else r[x]?

def Extends (inp r : ScTypeResult) : Prop := ∀ v x : ScAddr, inp[v]? = some x → r[v]? = some x

section
variable (m : PatternSearch) (params : ScTypeResult)

/-- The value is the given one, the constant itself, or has the type that is asked for. -/
def Typed (v x : ScAddr) : Prop :=
  params[v]? = some x ∨ (m.IsConst v ∧ x = v) ∨
    HasType m.cells x (constTypeOf (scFlagsRemove (m.cells v).type))

/-- The arc `y` at `cc` may be taken for the variable arc `a`, as far as the types, the constants and the
parameters say. -/
structure Tried (a : ScAddr) (e : Dir) (cc y : ScAddr) : Prop where
  inPattern : m.InPattern a
  live : LiveArc m.cells a
  var : ¬ m.IsConst a
  value : LiveArc m.cells y
  near : ownerOf m.cells e y = cc
  typed : Typed m params a y
  farTyped : ∀ d, d ≠ e → LiveArc m.cells (ownerOf m.cells d a) →
    Typed m params (ownerOf m.cells d a) (ownerOf m.cells d y)
  farKnown : ∀ d, d ≠ e → ∀ k, m.image params (ownerOf m.cells d a) = some k → ownerOf m.cells d y = k

/-- The search may come to `x` for the element `v` of the pattern: from a constant or a parameter it goes along
arcs that may be taken for those of the pattern, and to the ends of an arc. -/
inductive Meets : ScAddr → ScAddr → Prop where
  | const (v : ScAddr) : m.IsConst v → Meets v v
  | param (v x : ScAddr) : params[v]? = some x → Meets v x
  | arc (a : ScAddr) (e : Dir) (cc y : ScAddr) : Meets (ownerOf m.cells e a) cc → Tried m params a e cc y →
      Meets a y
  | ending (n x : ScAddr) (d : Dir) : Meets n x → LiveArc m.cells n → LiveArc m.cells x →
      Meets (ownerOf m.cells d n) (ownerOf m.cells d x)

end

/-- Every pair of the result agrees with the pattern, whatever is still missing. -/
structure PartialMatch (m : PatternSearch) (params r : ScTypeResult) : Prop where
  pair : ∀ v x : ScAddr, r[v]? = some x → m.InPattern v ∧ ¬ m.IsConst v ∧ Live m.cells x
  arc : ∀ v x : ScAddr, r[v]? = some x → LiveArc m.cells v → LiveArc m.cells x ∧
    ∀ d, m.image r (ownerOf m.cells d v) = some (ownerOf m.cells d x)
  injective : InjectivePairs r
  extends_ : Extends params r
  met : ∀ v x : ScAddr, r[v]? = some x → Meets m params v x
  typed : ∀ v x : ScAddr, r[v]? = some x → LiveArc m.cells v → Typed m params v x

/-- The ends of an arc that the search takes along with it, when it takes `x` for the arc `n`: none of them is
an arc that nothing is known for, whose own ends nobody would look at, and two that nothing is known for are
one exactly if those of `x` are. -/
structure EndsApart (m : PatternSearch) (params : ScTypeResult) (n x : ScAddr) : Prop where
  noArc : ∀ d, m.image params (ownerOf m.cells d n) = none → ¬ LiveArc m.cells (ownerOf m.cells d n)
  apart : ¬ m.IsConst n → (∀ d, m.image params (ownerOf m.cells d n) = none) →
    (ownerOf m.cells .out n = ownerOf m.cells .inp n ↔ ownerOf m.cells .out x = ownerOf m.cells .inp x)

/-- The pattern is a set that has, with every arc, its ends. -/
structure PatternSet (m : PatternSearch) : Prop where
  arcs : ArcsOk m.cells
  ranked : ArcsRanked m.cells
  reads : ∀ x, Live m.cells x → CanRead m.context m.cells x
  closed : ∀ a d, m.InPattern a → LiveArc m.cells a → m.InPattern (ownerOf m.cells d a)

/-- The arc behind another one that the search takes along, and what it takes for it. -/
structure TakenAlong (m : PatternSearch) (params : ScTypeResult) (n x : ScAddr) : Prop where
  behind : ∃ a e cc y d, Meets m params (ownerOf m.cells e a) cc ∧ Tried m params a e cc y ∧ d ≠ e ∧
    ownerOf m.cells d a = n ∧ ownerOf m.cells d y = x
  live : LiveArc m.cells n
  value : LiveArc m.cells x
  known : ∀ d k, m.image params (ownerOf m.cells d n) = some k → ownerOf m.cells d x = k

/-- The patterns and the parameters for which the comparisons of the search are enough, on all that it may
come to. -/
structure Comparable (m : PatternSearch) (params : ScTypeResult) : Prop where
  typed : ∀ v x, Meets m params v x → m.InPattern v → ¬ m.IsConst v → m.IsVar v
  notFromSet : ∀ a x, Meets m params a x → m.InPattern a → LiveArc m.cells a → ¬ m.IsConst a →
    ownerOf m.cells .out a ≠ m.scPattern
  ends : ∀ n x, TakenAlong m params n x → EndsApart m params n x

/-- What a result has besides `inp` is of `H`, and arcs among it have their ends in `S`. -/
structure Extended (m : PatternSearch) (params : ScTypeResult) (H S : Finset ScAddr) (inp r : ScTypeResult) :
    Prop where
  isMatch : PartialMatch m params r
  extends_ : Extends inp r
  new : ∀ v x : ScAddr, r[v]? = some x → inp[v]? = none →
    v ∈ H ∧ (LiveArc m.cells v → ∀ d, ownerOf m.cells d v ∈ S)

section
variable {m : PatternSearch} {H H' S S' : Finset ScAddr} {params r r' inp : ScTypeResult}
  {v w x a : ScAddr}

theorem image_mono (h : Extends inp r) (hx : m.image inp v = some x) : m.image r v = some x := by
  unfold PatternSearch.image at hx ⊢
  split_ifs at hx ⊢
  · exact hx
  · exact h v x hx

theorem image_of_var (hv : ¬ m.IsConst v) : m.image r v = r[v]? := if_neg hv

/-- An element that nothing stands for is a variable. -/
theorem not_const_of_image (h : m.image r v = none) : ¬ m.IsConst v ∧ r[v]? = none := by
  unfold PatternSearch.image at h
  split_ifs at h with hconst
  exact ⟨hconst, h⟩

/-- What nothing stands for later, nothing stood for before. -/
theorem image_none (h : Extends inp r) (hv : m.image r v = none) : m.image inp v = none := by
  cases hi : m.image inp v with
  | none => rfl
  | some x =>
    rw [image_mono h hi] at hv
    cases hv

theorem Extended.refl (h : PartialMatch m params inp) : Extended m params H S inp inp :=
  ⟨h, fun _ _ hv => hv, fun v x hv hnone => by
    rw [hv] at hnone
    cases hnone⟩

theorem Extended.mono (h : Extended m params H S inp r) (hH : H ⊆ H') (hS : S ⊆ S') :
    Extended m params H' S' inp r :=
  ⟨h.isMatch, h.extends_, fun v x hv hnone =>
    ⟨hH (h.new v x hv hnone).1, fun harc d => hS ((h.new v x hv hnone).2 harc d)⟩⟩

theorem Extended.trans (h : Extended m params H S inp r) (h' : Extended m params H S r r') :
    Extended m params H S inp r' := by
  refine ⟨h'.isMatch, fun v x hv => h'.extends_ v x (h.extends_ v x hv), fun v x hv hnone => ?_⟩
  cases hr : r[v]? with
  | none => exact h'.new v x hv hr
  | some y => exact h.new v y hr hnone

/-- An arc is no node. -/
theorem PatternSet.notNode (hset : PatternSet m) (hv : LiveArc m.cells v) : ¬ HasType m.cells v scTypeNode := by
  intro hnode
  unfold HasType at hnode
  rw [BitVec.and_comm, flagsRemove_and _ _ (by decide), hset.ranked.notNode v hv] at hnode
  exact absurd hnode (by decide)

/-- The ends of an arc with a value are known. -/
theorem PartialMatch.image_owner (h : PartialMatch m params r) (hv : r[v]? = some x)
    (harc : LiveArc m.cells v) (d : Dir) :
    m.image r (ownerOf m.cells d v) = some (ownerOf m.cells d x) := (h.arc v x hv harc).2 d

/-- What stands for an element is what the search may come to. -/
theorem PartialMatch.meets (h : PartialMatch m params r) (hx : m.image r v = some x) : Meets m params v x := by
  unfold PatternSearch.image at hx
  split_ifs at hx with hconst
  · obtain rfl := Option.some.inj hx
    exact .const v hconst
  · exact h.met v x hx

theorem PartialMatch.typed_image (h : PartialMatch m params r) (hv : LiveArc m.cells v)
    (hx : m.image r v = some x) : Typed m params v x := by
  unfold PatternSearch.image at hx
  split_ifs at hx with hconst
  · exact Or.inr (Or.inl ⟨hconst, (Option.some.inj hx).symm⟩)
  · exact h.typed v x hx hv

/-- Pairs that are erased together with every arc that has one of them as an end. -/
theorem PartialMatch.erase (h : PartialMatch m params r) {pairs : List (ScAddr × ScAddr)}
    (hgiven : ∀ v ∈ pairs.map Prod.fst, params[v]? = none)
    (hfree : ∀ v x : ScAddr, r[v]? = some x → v ∉ pairs.map Prod.fst → LiveArc m.cells v →
      ∀ d, ownerOf m.cells d v ∉ pairs.map Prod.fst) : PartialMatch m params (erasePairs r pairs) := by
  have hget {v x : ScAddr} (hv : (erasePairs r pairs)[v]? = some x) :
      r[v]? = some x ∧ v ∉ pairs.map Prod.fst := by
    rw [erasePairs_get] at hv
    split_ifs at hv with hmem
    exact ⟨hv, hmem⟩
  refine ⟨fun v x hv => h.pair v x (hget hv).1, fun v x hv harc => ?_, fun v w x hv hw => ?_,
    fun v x hv => ?_, fun v x hv => h.met v x (hget hv).1, fun v x hv => h.typed v x (hget hv).1⟩
  · obtain ⟨hr, hmem⟩ := hget hv
    refine ⟨(h.arc v x hr harc).1, fun d => ?_⟩
    have himage := h.image_owner hr harc d
    unfold PatternSearch.image at himage ⊢
    rwa [erasePairs_get, if_neg (hfree v x hr hmem harc d)]
  · exact h.injective v w x (hget hv).1 (hget hw).1
  · rw [erasePairs_get, if_neg]
    · exact h.extends_ v x hv
    · intro hmem
      rw [hgiven v hmem] at hv
      cases hv

/-- Pairs that nothing contradicts are inserted. -/
theorem PartialMatch.insert (h : PartialMatch m params r) {pairs : List (ScAddr × ScAddr)}
    (hpair : ∀ v x, (v, x) ∈ pairs → m.InPattern v ∧ ¬ m.IsConst v ∧ Live m.cells x)
    (hunused : ∀ v w x, (v, x) ∈ pairs → r[w]? = some x → w = v)
    (hone : ∀ v w x, (v, x) ∈ pairs → (w, x) ∈ pairs → v = w)
    (harc : ∀ v x, (v, x) ∈ pairs → r[v]? = none → LiveArc m.cells v → LiveArc m.cells x ∧
      ∀ d, m.image (insertPairs r pairs) (ownerOf m.cells d v) = some (ownerOf m.cells d x))
    (hmet : ∀ v x, (v, x) ∈ pairs → Meets m params v x)
    (htyped : ∀ v x, (v, x) ∈ pairs → LiveArc m.cells v → Typed m params v x) :
    PartialMatch m params (insertPairs r pairs) := by
  have hext : Extends r (insertPairs r pairs) := fun v x hv => insertPairs_keeps hv
  refine ⟨fun v x hv => ?_, fun v x hv hlive => ?_, fun v w x hv hw => ?_,
    fun v x hv => hext v x (h.extends_ v x hv), fun v x hv => ?_, fun v x hv hlive => ?_⟩
  · rcases insertPairs_get hv with hr | ⟨_, hmem⟩
    · exact h.pair v x hr
    · exact hpair v x hmem
  · rcases insertPairs_get hv with hr | ⟨hnone, hmem⟩
    · exact ⟨(h.arc v x hr hlive).1, fun d => image_mono hext (h.image_owner hr hlive d)⟩
    · exact harc v x hmem hnone hlive
  · rcases insertPairs_get hv with hr | ⟨_, hmem⟩
    · rcases insertPairs_get hw with hr' | ⟨_, hmem'⟩
      · exact h.injective v w x hr hr'
      · exact hunused w v x hmem' hr
    · rcases insertPairs_get hw with hr' | ⟨_, hmem'⟩
      · exact (hunused v w x hmem hr').symm
      · exact hone v w x hmem hmem'
  · rcases insertPairs_get hv with hr | ⟨_, hmem⟩
    · exact h.met v x hr
    · exact hmet v x hmem
  · rcases insertPairs_get hv with hr | ⟨_, hmem⟩
    · exact h.typed v x hr hlive
    · exact htyped v x hmem hlive

end

/-! What the search reads of the store. -/

/-- The end of an arc that the search goes on to, and the one that it has come from. -/
def nextDir (outArcFlag : Bool) : Dir := if outArcFlag then .inp else .out

def backDir (outArcFlag : Bool) : Dir := if outArcFlag then .out else .inp

section
variable {m : PatternSearch} {H : Finset ScAddr} {inp : ScTypeResult} {p : PatternArc} {cand : Candidate}
  {a b x z next curr : ScAddr} {type : ScType} {flag : Bool} {seen : Option ScAddr} {d : Dir}

theorem elementType_eq (h : m.elementType a = some type) : type = scFlagsRemove (m.cells a).type := by
  unfold PatternSearch.elementType scMemoryGetElementType at h
  split_ifs at h
  exact (Option.some.inj h).symm

theorem elementType_some (h : m.elementType a = some type) (bits : ScType) :
    hasBits type bits = true ↔ HasType m.cells a bits := by
  unfold PatternSearch.elementType scMemoryGetElementType at h
  split_ifs at h
  obtain rfl := Option.some.inj h
  unfold hasBits HasType
  rw [beq_iff_eq]

theorem nextOf_some (h : m.nextOf flag a = some b) :
    LiveArc m.cells a ∧ ownerOf m.cells (nextDir flag) a = b := by
  have howner : scMemoryGetArcOwner m.cells m.context (nextDir flag) a = some b := by
    cases flag <;> exact h
  unfold scMemoryGetArcOwner at howner
  split_ifs at howner with hlive
  exact ⟨hlive.1, Option.some.inj howner⟩

theorem arcEnds_some {ends : ScAddr × ScAddr} (h : m.arcEnds a = some ends) :
    LiveArc m.cells a ∧ ends = (ownerOf m.cells .out a, ownerOf m.cells .inp a) := by
  unfold PatternSearch.arcEnds at h
  obtain ⟨b, hb, h⟩ := Option.bind_eq_some_iff.mp h
  obtain ⟨e, he, h⟩ := Option.bind_eq_some_iff.mp h
  obtain ⟨hlive, hout⟩ := @nextOf_some _ _ _ false hb
  obtain ⟨_, hinp⟩ := @nextOf_some _ _ _ true he
  exact ⟨hlive, by rw [← Option.some.inj h, ← hout, ← hinp]; rfl⟩

theorem resolvePatternEnd_some {pe : PatternEnd} (h : resolvePatternEnd inp type a seen = some pe)
    (ht : m.elementType a = some type) : pe = ⟨a, m.image inp a⟩ := by
  have hbits := elementType_some ht scTypeConst
  unfold resolvePatternEnd at h
  dsimp only at h
  split_ifs at h with hc hk hk
  · have hconst : m.IsConst a := hbits.mp hc
    unfold PatternSearch.image
    rw [if_pos hconst]
    exact (Option.some.inj h).symm
  · have hconst : ¬ m.IsConst a := fun hyes => hc (hbits.mpr hyes)
    rw [image_of_var hconst]
    exact (Option.some.inj h).symm

theorem nextPatternElement_some {n k : ℕ}
    (h : m.nextPatternElement n a = (k, some (type, flag, next))) :
    m.elementType a = some type ∧ LiveArc m.cells a ∧ ¬ m.IsConst a ∧
      ownerOf m.cells (nextDir flag) a = next := by
  unfold PatternSearch.nextPatternElement at h
  cases ht : m.elementType a with
  | none => simp [ht] at h
  | some t =>
    rw [ht] at h
    dsimp only at h
    split_ifs at h with hconst hcount
    · simp at h
    · have hnot : ¬ m.IsConst a := fun hc => hconst ((elementType_some ht _).mpr hc)
      cases he : m.arcEnd a with
      | none => simp [he] at h
      | some e =>
        simp only [he, Prod.mk.injEq, Option.some.injEq] at h
        obtain ⟨_, rfl, rfl, rfl⟩ := h
        obtain ⟨hlive, howner⟩ := @nextOf_some _ _ _ true he
        exact ⟨rfl, hlive, hnot, howner⟩
    · have hnot : ¬ m.IsConst a := fun hc => hconst ((elementType_some ht _).mpr hc)
      cases hb : m.arcBegin a with
      | none => simp [hb] at h
      | some b =>
        simp only [hb, Option.map_some, Prod.mk.injEq, Option.some.injEq] at h
        obtain ⟨_, rfl, rfl, rfl⟩ := h
        obtain ⟨hlive, howner⟩ := @nextOf_some _ _ _ false hb
        exact ⟨rfl, hlive, hnot, howner⟩

/-- What the loop knows of a pattern arc that it goes on with. -/
structure Resolved (m : PatternSearch) (H : Finset ScAddr) (inp : ScTypeResult) (a : ScAddr) (flag : Bool)
    (next : ScAddr) (p : PatternArc) : Prop where
  arc_eq : p.arc = a
  type_eq : p.type = scFlagsRemove (m.cells a).type
  nextType_eq : p.nextType = scFlagsRemove (m.cells next).type
  flag_eq : p.outArcFlag = flag
  known_eq : p.known = inp[a]?
  next_eq : p.next = ⟨next, m.image inp next⟩
  next_mem : next ∈ H
  ends : p.ends = none ∧ HasType m.cells next scTypeNode ∨
    LiveArc m.cells next ∧ (∀ d, ownerOf m.cells d next ∈ H) ∧
      p.ends = some (⟨ownerOf m.cells .out next, m.image inp (ownerOf m.cells .out next)⟩,
        ⟨ownerOf m.cells .inp next, m.image inp (ownerOf m.cells .inp next)⟩)

theorem resolveEnds_some {ends : ScAddr × ScAddr} {pes : PatternEnd × PatternEnd}
    (h : m.resolveEnds inp ends seen = some pes) :
    pes = (⟨ends.1, m.image inp ends.1⟩, ⟨ends.2, m.image inp ends.2⟩) := by
  unfold PatternSearch.resolveEnds at h
  obtain ⟨bt, hbt, h⟩ := Option.bind_eq_some_iff.mp h
  obtain ⟨et, het, h⟩ := Option.bind_eq_some_iff.mp h
  obtain ⟨s, _, h⟩ := Option.bind_eq_some_iff.mp h
  obtain ⟨beg, hbeg, h⟩ := Option.bind_eq_some_iff.mp h
  obtain ⟨end_, hend, h⟩ := Option.bind_eq_some_iff.mp h
  rw [← Option.some.inj h, resolvePatternEnd_some hbeg hbt, resolvePatternEnd_some hend het]

theorem resolvePatternArc_some (ht : m.elementType a = some type)
    (h : m.resolvePatternArc H inp a type flag next = some p) : Resolved m H inp a flag next p := by
  unfold PatternSearch.resolvePatternArc at h
  obtain ⟨nextType, hnt, h⟩ := Option.bind_eq_some_iff.mp h
  obtain ⟨nextEnds, hne, h⟩ := Option.bind_eq_some_iff.mp h
  split_ifs at h with hin
  obtain ⟨s, _, h⟩ := Option.bind_eq_some_iff.mp h
  obtain ⟨nextEnd, hnext, h⟩ := Option.bind_eq_some_iff.mp h
  obtain ⟨ends, hends, h⟩ := Option.bind_eq_some_iff.mp h
  obtain rfl := Option.some.inj h
  have hmem : next ∈ H := by
    by_contra hno
    exact hin (Or.inl hno)
  refine ⟨rfl, elementType_eq ht, elementType_eq hnt, rfl, rfl, resolvePatternEnd_some hnext hnt, hmem, ?_⟩
  unfold PatternSearch.nextEnds at hne
  split_ifs at hne with hnode
  · obtain rfl := Option.some.inj hne
    exact Or.inl ⟨(Option.some.inj hends).symm, (elementType_some hnt _).mp hnode⟩
  · obtain ⟨pair, hpair, rfl⟩ := Option.map_eq_some_iff.mp hne
    obtain ⟨hlive, rfl⟩ := arcEnds_some hpair
    obtain ⟨pes, hpes, rfl⟩ := Option.map_eq_some_iff.mp hends
    refine Or.inr ⟨hlive, fun d => ?_, by rw [resolveEnds_some hpes]⟩
    by_contra hno
    apply hin
    refine Or.inr ⟨_, rfl, ?_⟩
    cases d with
    | out => exact Or.inl hno
    | inp => exact Or.inr hno

/-- An arc that an iterator yields. -/
theorem mem_iterated (hc : ArcsOk m.cells) (params : Iterator3Params) {anchor : ScAddr} {t : Triple ScAddr}
    (hp : params.arcs = some (d, anchor)) (ht : t ∈ m.iterated params) :
    LiveArc m.cells t.edge ∧ ownerOf m.cells d t.edge = anchor ∧ params.Matches m.cells m.context t.edge ∧
      t.source = ownerOf m.cells .out t.edge ∧ t.target = ownerOf m.cells .inp t.edge := by
  unfold PatternSearch.iterated iterated iterator3 at ht
  dsimp only at ht
  split_ifs at ht with hfixed
  · cases params with
    | faa beg _ _ =>
      obtain ⟨rfl, rfl⟩ := Prod.mk.inj (Option.some.inj hp)
      obtain ⟨hl, hm, hs, he⟩ := mem_arcList_map ht
      have hchain := hc.arcList (d := .out) (hfixed beg List.mem_cons_self).1
      exact ⟨((hchain.mem _).mp hl).1, ((hchain.mem _).mp hl).2, of_decide_eq_true hm, hs, he⟩
    | aaf _ _ end_ =>
      obtain ⟨rfl, rfl⟩ := Prod.mk.inj (Option.some.inj hp)
      obtain ⟨hl, hm, hs, he⟩ := mem_arcList_map ht
      have hchain := hc.arcList (d := .inp) (hfixed end_ List.mem_cons_self).1
      exact ⟨((hchain.mem _).mp hl).1, ((hchain.mem _).mp hl).2, of_decide_eq_true hm, hs, he⟩
    | faf beg _ end_ =>
      obtain ⟨rfl, rfl⟩ := Prod.mk.inj (Option.some.inj hp)
      obtain ⟨hl, hm, hs, he⟩ := mem_arcList_map ht
      have hchain := hc.arcList (d := .inp) (hfixed end_ (by simp [Iterator3Params.fixed])).1
      exact ⟨((hchain.mem _).mp hl).1, ((hchain.mem _).mp hl).2, of_decide_eq_true hm, hs, he⟩
    | afa _ _ _ => cases hp
    | ffa _ _ _ => cases hp
    | aff _ _ _ => cases hp
    | fff _ _ _ => cases hp
  · cases ht

/-- A constant arc is the value of the pattern arc, or is found at the element that the search has come
from, with the type that is asked for. -/
theorem mem_constArcSet (hc : ArcsOk m.cells) (h : z ∈ m.constArcSet curr p) :
    p.known = some z ∨ p.known = none ∧ LiveArc m.cells z ∧
      ownerOf m.cells (backDir p.outArcFlag) z = curr ∧ HasType m.cells z (constTypeOf p.type) ∧
      (∀ k, p.next.known = some k → ownerOf m.cells (nextDir p.outArcFlag) z = k) ∧
      (p.next.known = none → hasBits p.nextType scTypeNode = false →
        HasType m.cells (ownerOf m.cells (nextDir p.outArcFlag) z) (constTypeOf p.nextType)) := by
  unfold PatternSearch.constArcSet at h
  dsimp only at h
  cases hk : p.known with
  | some y =>
    simp only [hk, List.mem_singleton] at h
    rw [h]
    exact Or.inl rfl
  | none =>
    rw [hk] at h
    obtain ⟨t, ht, rfl⟩ := List.mem_map.mp h
    replace ht := List.mem_of_mem_filter ht
    refine Or.inr ⟨rfl, ?_⟩
    cases hflag : p.outArcFlag with
    | true =>
      cases hn : p.next.known with
      | some n =>
        rw [hflag, hn] at ht
        obtain ⟨hl, ho, hm, _⟩ := mem_iterated hc (.faf _ _ _) rfl ht
        refine ⟨hl, hm.1, hm.2.1, fun k hk => ?_, nofun⟩
        rw [← Option.some.inj hk]
        exact ho
      | none =>
        rw [hflag, hn] at ht
        obtain ⟨hl, ho, hm, _⟩ := mem_iterated hc (.faa _ _ _) rfl ht
        refine ⟨hl, ho, hm.1, nofun, fun _ hnode => ?_⟩
        have hnext := hm.2.1
        rwa [hnode, if_neg Bool.false_ne_true] at hnext
    | false =>
      cases hn : p.next.known with
      | some n =>
        rw [hflag, hn] at ht
        obtain ⟨hl, ho, hm, _⟩ := mem_iterated hc (.faf _ _ _) rfl ht
        refine ⟨hl, ho, hm.2.1, fun k hk => ?_, nofun⟩
        rw [← Option.some.inj hk]
        exact hm.1
      | none =>
        rw [hflag, hn] at ht
        obtain ⟨hl, ho, hm, _⟩ := mem_iterated hc (.aaf _ _ _) rfl ht
        refine ⟨hl, ho, hm.1, nofun, fun _ hnode => ?_⟩
        have hnext := hm.2.1
        rwa [hnode, if_neg Bool.false_ne_true] at hnext

/-- What a constant arc leads to, for a pattern arc that the loop goes on with. -/
structure Leading (m : PatternSearch) (inp : ScTypeResult) (next : ScAddr) (p : PatternArc) (z : ScAddr)
    (cand : Candidate) : Prop where
  arc_eq : cand.constArc = z
  live : LiveArc m.cells z
  next_eq : cand.next = ownerOf m.cells (nextDir p.outArcFlag) z
  ends : p.ends = none ∨ LiveArc m.cells cand.next ∧
    cand.ends = some (ownerOf m.cells .out cand.next, ownerOf m.cells .inp cand.next) ∧
    ∀ d k, m.image inp (ownerOf m.cells d next) = some k → ownerOf m.cells d cand.next = k

theorem candidate_some (hp : Resolved m H inp a flag next p) (h : m.candidate p z = some cand) :
    Leading m inp next p z cand := by
  unfold PatternSearch.candidate at h
  obtain ⟨n, hn, h⟩ := Option.bind_eq_some_iff.mp h
  obtain ⟨hlive, rfl⟩ := nextOf_some hn
  rcases hp.ends with ⟨hnone, _⟩ | ⟨_, _, hends⟩
  · rw [hnone] at h
    obtain rfl := Option.some.inj h
    exact ⟨rfl, hlive, rfl, Or.inl hnone⟩
  · rw [hends] at h
    obtain ⟨constEnds, hce, h⟩ := Option.bind_eq_some_iff.mp h
    obtain ⟨hlive', rfl⟩ := arcEnds_some hce
    split_ifs at h with hmatch
    obtain rfl := Option.some.inj h
    refine ⟨rfl, hlive, rfl, Or.inr ⟨hlive', rfl, fun d k hk => ?_⟩⟩
    cases d with
    | out => exact (hmatch.1 k hk).symm
    | inp => exact (hmatch.2 k hk).symm

/-- The pairs behind the arc: the element at its other end and, where this is an arc, the ends of it, as
far as nothing stands for them. -/
theorem mem_openPairs (hp : Resolved m H inp a flag next p) (hcand : Leading m inp next p z cand) :
    (b, x) ∈ openPairs p cand ↔ (b = next ∧ x = cand.next ∧ m.image inp next = none) ∨
      p.ends ≠ none ∧ ∃ d, b = ownerOf m.cells d next ∧ x = ownerOf m.cells d cand.next ∧
        m.image inp b = none := by
  have hpair (e y : ScAddr) : (b, x) ∈ (if (m.image inp e).isNone then [(e, y)] else []) ↔
      b = e ∧ x = y ∧ m.image inp e = none := by
    cases hi : m.image inp e with
    | none => simp
    | some k => simp
  unfold openPairs
  dsimp only
  rw [hp.next_eq, List.mem_append, hpair]
  rcases hp.ends with ⟨hnone, _⟩ | ⟨_, _, hends⟩
  · simp [hnone]
  · rcases hcand.ends with hnone | ⟨_, hce, _⟩
    · rw [hends] at hnone
      cases hnone
    · rw [hends, hce]
      dsimp only
      rw [List.mem_append, hpair, hpair]
      constructor
      · rintro (h | ⟨rfl, hx, hi⟩ | ⟨rfl, hx, hi⟩)
        · exact Or.inl h
        · exact Or.inr ⟨by simp, .out, rfl, hx, hi⟩
        · exact Or.inr ⟨by simp, .inp, rfl, hx, hi⟩
      · rintro (h | ⟨_, d, rfl, hx, hi⟩)
        · exact Or.inl h
        · cases d with
          | out => exact Or.inr (Or.inl ⟨rfl, hx, hi⟩)
          | inp => exact Or.inr (Or.inr ⟨rfl, hx, hi⟩)

end

/-! One constant arc for one pattern arc. -/

/-- A call of the recursion: `H` is what is left of the pattern. -/
structure SearchCall (m : PatternSearch) (params : ScTypeResult) (H : Finset ScAddr) (inp : ScTypeResult)
    (pc cc : ScAddr) : Prop where
  isMatch : PartialMatch m params inp
  inPattern : ∀ x ∈ H, m.InPattern x
  notMem : pc ∉ H
  image : m.image inp pc = some cc

/-- The arc `z` for the pattern arc `a`, which leads from `pc` to an element that is left. -/
structure Fits (m : PatternSearch) (params : ScTypeResult) (H : Finset ScAddr) (inp : ScTypeResult)
    (pc cc a : ScAddr) (flag : Bool) (next : ScAddr) (p : PatternArc) (z : ScAddr) (cand : Candidate) :
    Prop where
  resolved : Resolved m H inp a flag next p
  leading : Leading m inp next p z cand
  mem : a ∈ H
  live : LiveArc m.cells a
  var : ¬ m.IsConst a
  back : ownerOf m.cells (backDir flag) a = pc
  forth : ownerOf m.cells (nextDir flag) a = next
  constArc : ∀ k, inp[a]? = some k → k = z
  constBack : ownerOf m.cells (backDir flag) z = cc
  constNext : ∀ k, m.image inp next = some k → cand.next = k
  typed : Typed m params a z
  nextTyped : LiveArc m.cells next → Typed m params next cand.next

section
variable {m : PatternSearch} {H : Finset ScAddr} {params inp r : ScTypeResult} {pc cc a next v w x y z : ScAddr}
  {flag : Bool} {p : PatternArc} {cand : Candidate}

theorem back_or_next (flag : Bool) (d : Dir) : d = backDir flag ∨ d = nextDir flag := by
  cases flag <;> cases d <;> simp [backDir, nextDir]

/-- The pair of the arc and those behind it. -/
def allPairs (p : PatternArc) (cand : Candidate) : List (ScAddr × ScAddr) :=
  (p.arc, cand.constArc) :: openPairs p cand

/-- A pair of the three kinds. -/
inductive PairKind (m : PatternSearch) (inp : ScTypeResult) (a next z : ScAddr) (p : PatternArc)
    (cand : Candidate) (v x : ScAddr) : Prop where
  | arc : v = a → x = z → PairKind m inp a next z p cand v x
  | next : v = next → x = cand.next → m.image inp next = none → PairKind m inp a next z p cand v x
  | ending (d : Dir) : p.ends ≠ none → v = ownerOf m.cells d next → x = ownerOf m.cells d cand.next →
      m.image inp v = none → PairKind m inp a next z p cand v x

theorem Fits.kind_of_open (h : Fits m params H inp pc cc a flag next p z cand) (hv : (v, x) ∈ openPairs p cand) :
    PairKind m inp a next z p cand v x := by
  rcases (mem_openPairs h.resolved h.leading).mp hv with ⟨hn, hx, hi⟩ | ⟨hends, d, hn, hx, hi⟩
  · exact .next hn hx hi
  · exact .ending d hends hn hx hi

theorem Fits.kind (h : Fits m params H inp pc cc a flag next p z cand) (hv : (v, x) ∈ allPairs p cand) :
    PairKind m inp a next z p cand v x := by
  rcases List.mem_cons.mp hv with heq | hopen
  · obtain ⟨rfl, rfl⟩ := Prod.mk.inj heq
    exact .arc h.resolved.arc_eq h.leading.arc_eq
  · exact h.kind_of_open hopen

theorem Fits.liveNext (h : Fits m params H inp pc cc a flag next p z cand) (hends : p.ends ≠ none) :
    LiveArc m.cells next ∧ LiveArc m.cells cand.next ∧ (∀ d, ownerOf m.cells d next ∈ H) ∧
      cand.ends = some (ownerOf m.cells .out cand.next, ownerOf m.cells .inp cand.next) ∧
      ∀ d k, m.image inp (ownerOf m.cells d next) = some k → ownerOf m.cells d cand.next = k := by
  rcases h.resolved.ends with ⟨hnone, _⟩ | ⟨hlive, hmem, _⟩
  · exact absurd hnone hends
  · rcases h.leading.ends with hnone | ⟨hlive', hce, hk⟩
    · exact absurd hnone hends
    · exact ⟨hlive, hlive', hmem, hce, hk⟩

theorem Fits.next_eq (h : Fits m params H inp pc cc a flag next p z cand) :
    ownerOf m.cells (nextDir flag) z = cand.next := by
  rw [h.leading.next_eq, h.resolved.flag_eq]

/-- An element behind the arc that is an arc has its ends taken along. -/
theorem Fits.ends_of_liveArc (h : Fits m params H inp pc cc a flag next p z cand) (hset : PatternSet m)
    (hlive : LiveArc m.cells next) : p.ends ≠ none := by
  intro hnone
  rcases h.resolved.ends with ⟨_, hnode⟩ | ⟨_, _, hends⟩
  · exact absurd hnode (hset.notNode hlive)
  · rw [hnone] at hends
    cases hends

/-- The arc that fits is one that the search may take. -/
theorem Fits.tried (h : Fits m params H inp pc cc a flag next p z cand) (hcall : SearchCall m params H inp pc cc) :
    Tried m params a (backDir flag) cc z := by
  have hfar (d : Dir) (hd : d ≠ backDir flag) : d = nextDir flag :=
    (back_or_next flag d).resolve_left hd
  refine ⟨hcall.inPattern a h.mem, h.live, h.var, h.leading.live, h.constBack, h.typed, fun d hd => ?_,
    fun d hd k hk => ?_⟩
  · rw [hfar d hd, h.forth, h.next_eq]
    exact h.nextTyped
  · rw [hfar d hd, h.forth] at hk
    rw [hfar d hd, h.next_eq]
    exact h.constNext k (image_mono hcall.isMatch.extends_ hk)

theorem Fits.meets_arc (h : Fits m params H inp pc cc a flag next p z cand)
    (hcall : SearchCall m params H inp pc cc) : Meets m params a z := by
  apply Meets.arc a (backDir flag) cc z _ (h.tried hcall)
  rw [h.back]
  exact hcall.isMatch.meets hcall.image

theorem Fits.meets_next (h : Fits m params H inp pc cc a flag next p z cand)
    (hcall : SearchCall m params H inp pc cc) : Meets m params next cand.next := by
  rw [← h.forth, ← h.next_eq]
  exact (h.meets_arc hcall).ending a z (nextDir flag) h.live h.leading.live

/-- An arc behind the arc is taken along with it. -/
theorem Fits.takenAlong (h : Fits m params H inp pc cc a flag next p z cand)
    (hcall : SearchCall m params H inp pc cc) (hends : p.ends ≠ none) : TakenAlong m params next cand.next := by
  obtain ⟨hlive, hlive', _, _, hknown⟩ := h.liveNext hends
  refine ⟨⟨a, backDir flag, cc, z, nextDir flag, ?_, h.tried hcall, ?_, h.forth, h.next_eq⟩, hlive, hlive',
    fun d k hk => hknown d k (image_mono hcall.isMatch.extends_ hk)⟩
  · rw [h.back]
    exact hcall.isMatch.meets hcall.image
  · cases flag <;> simp [nextDir, backDir]

variable (hset : PatternSet m) (hfits : Fits m params H inp pc cc a flag next p z cand)
include hset hfits

/-- No pair is about an element of the store that is not there, or about a constant. -/
theorem pair_ok (hinp : v = a → inp[v]? = none) (hv : PairKind m inp a next z p cand v x) :
    v ∈ H ∧ inp[v]? = none ∧ ¬ m.IsConst v ∧ Live m.cells x := by
  cases hv with
  | arc hv hx =>
    refine ⟨hv ▸ hfits.mem, hinp hv, hv ▸ hfits.var, ?_⟩
    rw [hx]
    exact hfits.leading.live.1
  | next hv hx hi =>
    rw [hv, hx, ← hfits.next_eq]
    obtain ⟨hvar, hnone⟩ := not_const_of_image hi
    exact ⟨hfits.resolved.next_mem, hnone, hvar, hset.arcs.endpoint z _ hfits.leading.live⟩
  | ending d hends hv hx hi =>
    obtain ⟨_, hlive, hmem, _⟩ := hfits.liveNext hends
    obtain ⟨hvar, hnone⟩ := not_const_of_image hi
    refine ⟨hv ▸ hmem d, hnone, hvar, ?_⟩
    rw [hx]
    exact hset.arcs.endpoint _ d hlive

/-- The three elements are three, and so are those that stand for them. -/
theorem pairs_apart : a ≠ next ∧ z ≠ cand.next ∧ (p.ends ≠ none → ∀ d, ownerOf m.cells d next ≠ next ∧
    ownerOf m.cells d next ≠ a ∧ ownerOf m.cells d cand.next ≠ cand.next ∧
    ownerOf m.cells d cand.next ≠ z) := by
  have hrank := hset.ranked
  refine ⟨?_, ?_, fun hends d => ?_⟩
  · rw [← hfits.forth]
    exact (hrank.owner_ne hfits.live _).symm
  · rw [← hfits.next_eq]
    exact (hrank.owner_ne hfits.leading.live _).symm
  · obtain ⟨hlive, hlive', _⟩ := hfits.liveNext hends
    exact ⟨hrank.owner_ne hlive d, hrank.owner_owner_ne hfits.live hlive hfits.forth,
      hrank.owner_ne hlive' d, hrank.owner_owner_ne hfits.leading.live hlive' hfits.next_eq⟩

variable (hcmp : Comparable m params) (hcall : SearchCall m params H inp pc cc)
include hcmp hcall

omit hset in
/-- An end that nothing stands for is no arc. -/
theorem Fits.ending_noArc (hends : p.ends ≠ none) {d : Dir}
    (hi : m.image inp (ownerOf m.cells d next) = none) : ¬ LiveArc m.cells (ownerOf m.cells d next) :=
  (hcmp.ends next cand.next (hfits.takenAlong hcall hends)).noArc d
    (image_none hcall.isMatch.extends_ hi)

omit hset hcmp in
/-- Every pair is one that the search may come to. -/
theorem Fits.meets_kind (hv : PairKind m inp a next z p cand v x) : Meets m params v x := by
  cases hv with
  | arc hv hx =>
    rw [hv, hx]
    exact hfits.meets_arc hcall
  | next hv hx _ =>
    rw [hv, hx]
    exact hfits.meets_next hcall
  | ending d hends hv hx _ =>
    obtain ⟨hlive, hlive', _⟩ := hfits.liveNext hends
    rw [hv, hx]
    exact (hfits.meets_next hcall).ending next cand.next d hlive hlive'

omit hset in
/-- The two ends are one exactly if those that stand for them are. -/
theorem ends_apart (hends : p.ends ≠ none) {d d' : Dir} (hv : m.image inp (ownerOf m.cells d next) = none)
    (hw : m.image inp (ownerOf m.cells d' next) = none) :
    ownerOf m.cells d next = ownerOf m.cells d' next ↔
      ownerOf m.cells d cand.next = ownerOf m.cells d' cand.next := by
  obtain ⟨hlive, hlive', _⟩ := hfits.liveNext hends
  by_cases hdd : d = d'
  · rw [hdd]
    exact ⟨fun _ => rfl, fun _ => rfl⟩
  by_cases hconst : m.IsConst next
  · -- a constant element stands for itself, and so do its ends
    have hself : m.image inp next = some next := if_pos hconst
    rw [hfits.constNext next hself]
  · have hgiven (e : Dir) : m.image params (ownerOf m.cells e next) = none := by
      have he : e = d ∨ e = d' := by cases d <;> cases d' <;> cases e <;> simp_all
      rcases he with rfl | rfl
      · exact image_none hcall.isMatch.extends_ hv
      · exact image_none hcall.isMatch.extends_ hw
    have hone := (hcmp.ends next cand.next (hfits.takenAlong hcall hends)).apart hconst hgiven
    cases d <;> cases d' <;> simp_all [eq_comm]

/-- Among the pairs themselves each variable has one value and each value one variable. -/
theorem pairs_one (hv : PairKind m inp a next z p cand v x) (hw : PairKind m inp a next z p cand w y) :
    v = w ↔ x = y := by
  obtain ⟨hne, hne', hends⟩ := pairs_apart hset hfits
  cases hv with
  | arc hv hx =>
    cases hw with
    | arc hw hy => simp [hv, hx, hw, hy]
    | next hw hy _ => simp [hv, hx, hw, hy, hne, hne']
    | ending d he hw hy _ =>
      obtain ⟨_, h1, _, h2⟩ := hends he d
      simp [hv, hx, hw, hy, h1.symm, h2.symm]
  | next hv hx _ =>
    cases hw with
    | arc hw hy => simp [hv, hx, hw, hy, hne.symm, hne'.symm]
    | next hw hy _ => simp [hv, hx, hw, hy]
    | ending d he hw hy _ =>
      obtain ⟨h1, _, h2, _⟩ := hends he d
      simp [hv, hx, hw, hy, h1.symm, h2.symm]
  | ending d he hv hx hi =>
    obtain ⟨h1, h1', h2, h2'⟩ := hends he d
    cases hw with
    | arc hw hy => simp [hv, hx, hw, hy, h1', h2']
    | next hw hy _ => simp [hv, hx, hw, hy, h1, h2]
    | ending d' _ hw hy hi' =>
      rw [hv] at hi
      rw [hw] at hi'
      rw [hv, hx, hw, hy]
      exact ends_apart hfits hcmp hcall he hi hi'

omit hcmp hset in
/-- What stands for the elements of the arc once the pairs are there. -/
theorem images_inserted {pairs : List (ScAddr × ScAddr)} (hext : Extends inp r)
    (hopen : ∀ v x, (v, x) ∈ openPairs p cand → (insertPairs r pairs)[v]? = some x)
    (harc : (insertPairs r pairs)[a]? = some z) :
    m.image (insertPairs r pairs) pc = some cc ∧ m.image (insertPairs r pairs) a = some z ∧
      m.image (insertPairs r pairs) next = some cand.next ∧ (p.ends ≠ none → ∀ d,
        m.image (insertPairs r pairs) (ownerOf m.cells d next) = some (ownerOf m.cells d cand.next)) := by
  have hinp : Extends inp (insertPairs r pairs) := fun v x hv => insertPairs_keeps (hext v x hv)
  refine ⟨image_mono hinp hcall.image, (image_of_var hfits.var).trans harc, ?_, fun hends d => ?_⟩
  · cases hi : m.image inp next with
    | some k =>
      rw [hfits.constNext k hi]
      exact image_mono hinp hi
    | none =>
      rw [image_of_var (not_const_of_image hi).1]
      exact hopen _ _ ((mem_openPairs hfits.resolved hfits.leading).mpr (Or.inl ⟨rfl, rfl, hi⟩))
  · cases hi : m.image inp (ownerOf m.cells d next) with
    | some k =>
      rw [(hfits.liveNext hends).2.2.2.2 d k hi]
      exact image_mono hinp hi
    | none =>
      rw [image_of_var (not_const_of_image hi).1]
      exact hopen _ _
        ((mem_openPairs hfits.resolved hfits.leading).mpr (Or.inr ⟨hends, d, rfl, rfl, hi⟩))

end

end ScMachine.Scp
