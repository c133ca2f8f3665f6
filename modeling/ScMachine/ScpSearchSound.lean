import ScMachine.ScpMatches

/-! What holds of the results of a search by a pattern in scp. An arc that has a value already is not
compared with the element that the search has come from, and what lies behind the ends of an arc at the end
of another arc is not looked at, so much rests on the pattern and on the parameters. -/
namespace ScMachine.Scp
open ScMachine.Store ScMachine.Template ScMachine.Runs ScMachine.Agent

/-- A result at the element `pc`: of the arcs at it, only those of `done` have got a value. -/
structure LevelResult (m : PatternSearch) (params : ScTypeResult) (H : Finset ScAddr) (inp : ScTypeResult)
    (pc : ScAddr) (done : Set ScAddr) (r : ScTypeResult) : Prop where
  extended : Extended m params H (insert pc H) inp r
  incident : ∀ (v x : ScAddr) (d : Dir), r[v]? = some x → inp[v]? = none → LiveArc m.cells v →
    ownerOf m.cells d v = pc → v ∈ done

section
variable {m : PatternSearch} {H : Finset ScAddr} {params inp r : ScTypeResult} {pc cc a next v w x y z : ScAddr}
  {flag : Bool} {p : PatternArc} {cand : Candidate} {done : Set ScAddr}

theorem LevelResult.mono {done' : Set ScAddr} (h : LevelResult m params H inp pc done r)
    (hsub : done ⊆ done') : LevelResult m params H inp pc done' r :=
  ⟨h.extended, fun v x d hv hnone harc hd => hsub (h.incident v x d hv hnone harc hd)⟩

variable (hset : PatternSet m) (hcmp : Comparable m params) (hcall : SearchCall m params H inp pc cc)
  (hfits : Fits m params H inp pc cc a flag next p z cand)
include hset hcmp hcall hfits

/-- The pairs are inserted, all of them or those behind the arc. -/
theorem insertPairs_level {pairs : List (ScAddr × ScAddr)} (hl : LevelResult m params H inp pc done r)
    (hkind : ∀ v x, (v, x) ∈ pairs → PairKind m inp a next z p cand v x)
    (hinp : ∀ x, (a, x) ∈ pairs → inp[a]? = none)
    (hopen : ∀ v x, (v, x) ∈ openPairs p cand → (v, x) ∈ pairs)
    (hold : ∀ v x y, (v, x) ∈ pairs → r[v]? = some y → y = x)
    (hunused : ∀ v w x, (v, x) ∈ pairs → r[w]? = some x → w = v)
    (harc : (insertPairs r pairs)[a]? = some z) :
    LevelResult m params H inp pc (insert a done) (insertPairs r pairs) := by
  have hmem (v x : ScAddr) (hv : (v, x) ∈ pairs) : (insertPairs r pairs)[v]? = some x := by
    apply insertPairs_mem (fun y hy => hold v x y hv hy) _ hv
    intro y hy
    exact ((pairs_one hset hfits hcmp hcall (hkind v y hy) (hkind v x hv)).mp rfl)
  obtain ⟨hpc, _, hnext, hends⟩ := images_inserted hfits hcall hl.extended.extends_
    (fun v x hv => hmem v x (hopen v x hv)) harc
  have hok (v x : ScAddr) (hv : (v, x) ∈ pairs) :
      v ∈ H ∧ inp[v]? = none ∧ ¬ m.IsConst v ∧ Live m.cells x :=
    pair_ok hset hfits (fun hva => hva ▸ hinp x (hva ▸ hv)) (hkind v x hv)
  -- an arc among the pairs is the pattern arc itself or the element behind it
  have hlive (v x : ScAddr) (hv : (v, x) ∈ pairs) (hvarc : LiveArc m.cells v) :
      LiveArc m.cells x ∧ ∀ d,
        m.image (insertPairs r pairs) (ownerOf m.cells d v) = some (ownerOf m.cells d x) ∧
        (ownerOf m.cells d v ∈ H ∨ v = a ∧ ownerOf m.cells d v = pc) := by
    cases hkind v x hv with
    | arc hva hx =>
      rw [hva, hx]
      refine ⟨hfits.leading.live, fun d => ?_⟩
      rcases back_or_next flag d with rfl | rfl
      · rw [hfits.back, hfits.constBack]
        exact ⟨hpc, Or.inr ⟨rfl, rfl⟩⟩
      · rw [hfits.forth, hfits.next_eq]
        exact ⟨hnext, Or.inl hfits.resolved.next_mem⟩
    | next hvn hx _ =>
      rw [hvn] at hvarc
      have hne := hfits.ends_of_liveArc hset hvarc
      obtain ⟨_, hlive', hmemH, _⟩ := hfits.liveNext hne
      rw [hvn, hx]
      exact ⟨hlive', fun d => ⟨hends hne d, Or.inl (hmemH d)⟩⟩
    | ending d hne hvd _ hi =>
      rw [hvd] at hvarc hi
      exact absurd hvarc (hfits.ending_noArc hcmp hcall hne hi)
  have hmatch : PartialMatch m params (insertPairs r pairs) := by
    apply hl.extended.isMatch.insert
    · intro v x hv
      obtain ⟨hvH, _, hvar, hx⟩ := hok v x hv
      exact ⟨hcall.inPattern v hvH, hvar, hx⟩
    · exact hunused
    · intro v w x hv hw
      exact (pairs_one hset hfits hcmp hcall (hkind v x hv) (hkind w x hw)).mpr rfl
    · intro v x hv _ hvarc
      obtain ⟨hx, hd⟩ := hlive v x hv hvarc
      exact ⟨hx, fun d => (hd d).1⟩
    · intro v x hv
      exact hfits.meets_kind hcall (hkind v x hv)
    · intro v x hv hvarc
      cases hkind v x hv with
      | arc hva hx =>
        rw [hva, hx]
        exact hfits.typed
      | next hvn hx _ =>
        rw [hvn, hx]
        exact hfits.nextTyped (hvn ▸ hvarc)
      | ending d hne hvd _ hi =>
        rw [hvd] at hvarc hi
        exact absurd hvarc (hfits.ending_noArc hcmp hcall hne hi)
  refine ⟨⟨hmatch, fun v x hv => insertPairs_keeps (hl.extended.extends_ v x hv), ?_⟩, ?_⟩
  · intro v x hv hnone
    rcases insertPairs_get hv with hr | ⟨_, hmemp⟩
    · exact hl.extended.new v x hr hnone
    · refine ⟨(hok v x hmemp).1, fun hvarc d => ?_⟩
      rcases ((hlive v x hmemp hvarc).2 d).2 with hd | ⟨_, hd⟩
      · exact Finset.mem_insert_of_mem hd
      · rw [hd]
        exact Finset.mem_insert_self _ _
  · intro v x d hv hnone hvarc hd
    rcases insertPairs_get hv with hr | ⟨_, hmemp⟩
    · exact Set.mem_insert_of_mem _ (hl.incident v x d hr hnone hvarc hd)
    · rcases ((hlive v x hmemp hvarc).2 d).2 with hdH | ⟨hva, _⟩
      · rw [hd] at hdH
        exact absurd hdH hcall.notMem
      · exact Or.inl hva

end

section
variable {m : PatternSearch} {H : Finset ScAddr} {params inp r : ScTypeResult} {pc cc a next v w x y z : ScAddr}
  {flag : Bool} {p : PatternArc} {cand : Candidate} {done : Set ScAddr}

/-- The iterator over all arcs at an element yields them all. -/
theorem iterator3_all (hset : PatternSet m) (hv : LiveArc m.cells v) {l l' : List (Triple ScAddr)}
    (hout : iterator3 m.cells m.context (.faa x 0 0) = some l)
    (hinp : iterator3 m.cells m.context (.aaf 0 0 x) = some l') :
    (ownerOf m.cells .out v = x →
      ⟨ownerOf m.cells .out v, v, ownerOf m.cells .inp v⟩ ∈ l) ∧
      (ownerOf m.cells .inp v = x →
        ⟨ownerOf m.cells .out v, v, ownerOf m.cells .inp v⟩ ∈ l') := by
  have hread := hset.reads
  have hends (d : Dir) := hread _ (hset.arcs.endpoint v d hv)
  have htype (y : ScAddr) : HasType m.cells y 0 := BitVec.zero_and
  unfold iterator3 at hout hinp
  dsimp only at hout hinp
  split_ifs at hout with hfo
  split_ifs at hinp with hfi
  obtain rfl := Option.some.inj hout
  obtain rfl := Option.some.inj hinp
  have hlive : Live m.cells x := (hfo x (by simp [Iterator3Params.fixed])).1
  constructor
  · intro hd
    apply List.mem_map_of_mem (f := fun y => (⟨ownerOf m.cells .out y, y, ownerOf m.cells .inp y⟩ :
      Triple ScAddr))
    apply List.mem_filter.mpr
    exact ⟨((hset.arcs.arcList hlive).mem v).mpr ⟨hv, hd⟩,
      decide_eq_true ⟨htype _, htype _, hread v hv.1, hends .inp⟩⟩
  · intro hd
    apply List.mem_map_of_mem (f := fun y => (⟨ownerOf m.cells .out y, y, ownerOf m.cells .inp y⟩ :
      Triple ScAddr))
    apply List.mem_filter.mpr
    exact ⟨((hset.arcs.arcList hlive).mem v).mpr ⟨hv, hd⟩,
      decide_eq_true ⟨htype _, htype _, hread v hv.1, hends .out⟩⟩

/-- Coherence at an element: besides the checked arc, no arc at it has got a value. -/
theorem coherent_at (hset : PatternSet m) (hcmp : Comparable m params) (hmatch : PartialMatch m params r)
    {n : ℕ} {elem chk : ScAddr} {out : Bool} (h : m.checkCoherence r inp n elem chk out = true)
    (hv : LiveArc m.cells v) {d : Dir} (hd : ownerOf m.cells d v = elem) (hchk : v ≠ chk)
    (hr : r[v]? = some x) : inp[v]? ≠ none := by
  intro hnone
  obtain ⟨hmem, hvar, _⟩ := hmatch.pair v x hr
  have hnew : m.newlyBound r inp v = true := by
    unfold PatternSearch.newlyBound findResultPairForVar
    rw [(helperCheckEdge_readable hset.arcs hset.reads).mpr hmem, hr, hnone]
    rfl
  have hchk' : (chk == v) = false := beq_false_of_ne hchk.symm
  cases n with
  | zero => cases h
  | succ n =>
    unfold PatternSearch.checkCoherence at h
    split at h
    · rename_i outArcs inArcs elementType hout hinp htype
      obtain ⟨hall, _⟩ := Bool.and_eq_true_iff.mp h
      obtain ⟨houts, hins⟩ := Bool.and_eq_true_iff.mp hall
      obtain ⟨hmemOut, hmemInp⟩ := iterator3_all hset hv hout hinp
      cases d with
      | out =>
        have hone := List.all_eq_true.mp houts _ (hmemOut hd)
        simp [hchk', hnew] at hone
      | inp =>
        have hone := List.all_eq_true.mp hins _ (hmemInp hd)
        have hset' : (ownerOf m.cells .out v == m.scPattern) = false :=
          beq_false_of_ne (hcmp.notFromSet v x (hmatch.met v x hr) hmem hv hvar)
        simp [hchk', hnew, hset'] at hone
    · cases h

/-- Coherence at an arc goes on to its ends. -/
theorem coherent_ends (hset : PatternSet m) {n : ℕ} {elem chk : ScAddr} {out : Bool}
    (h : m.checkCoherence r inp n elem chk out = true) (helem : LiveArc m.cells elem) (d : Dir) :
    ∃ k out', m.checkCoherence r inp k (ownerOf m.cells d elem) elem out' = true := by
  cases n with
  | zero => cases h
  | succ n =>
    unfold PatternSearch.checkCoherence at h
    split at h
    · rename_i outArcs inArcs elementType hout hinp htype
      obtain ⟨_, hends⟩ := Bool.and_eq_true_iff.mp h
      have hnode : hasBits elementType scTypeNode = false := by
        rw [Bool.eq_false_iff]
        intro hnode
        exact hset.notNode helem ((elementType_some htype _).mp hnode)
      rw [hnode, Bool.false_or] at hends
      split at hends
      · rename_i b e hb he
        obtain ⟨_, rfl⟩ := @nextOf_some _ _ _ false hb
        obtain ⟨_, rfl⟩ := @nextOf_some _ _ _ true he
        obtain ⟨h1, h2⟩ := Bool.and_eq_true_iff.mp hends
        cases d with
        | out => exact ⟨n, true, h1⟩
        | inp => exact ⟨n, false, h2⟩
      · cases hends
    · cases h

end

/-- No arc at `a` has got a value. -/
def NoArcAt (m : PatternSearch) (r : ScTypeResult) (a : ScAddr) : Prop :=
  ∀ (v x : ScAddr) (d : Dir), r[v]? = some x → LiveArc m.cells v → ownerOf m.cells d v ≠ a

section
variable {m : PatternSearch} {H : Finset ScAddr} {params inp r : ScTypeResult} {pc cc a next v w x y z : ScAddr}
  {flag : Bool} {p : PatternArc} {cand : Candidate} {done : Set ScAddr}

/-- What a round leaves of a result, in place or in a copy. -/
structure AttemptOk (m : PatternSearch) (params : ScTypeResult) (H : Finset ScAddr) (inp : ScTypeResult)
    (pc a next z : ScAddr) (p : PatternArc) (cand : Candidate) (done : Set ScAddr) (r : ScTypeResult) : Prop where
  level : LevelResult m params H inp pc done r
  arcImage : m.image r a = some z
  nextImage : m.image r next = some cand.next
  endImage : p.ends ≠ none → ∀ d, m.image r (ownerOf m.cells d next) = some (ownerOf m.cells d cand.next)

/-- An element that nothing stands for has no arc at it with a value. -/
theorem unbound_at (hinp : PartialMatch m params inp) (hnone : m.image inp y = none) (hv : LiveArc m.cells v)
    {d : Dir} (hd : ownerOf m.cells d v = y) : inp[v]? = none := by
  cases hi : inp[v]? with
  | none => rfl
  | some k =>
    have himage := hinp.image_owner hi hv d
    rw [hd, hnone] at himage
    cases himage

theorem Fits.mem_allPairs_arc (hfits : Fits m params H inp pc cc a flag next p z cand) :
    (a, z) ∈ allPairs p cand := by
  rw [← hfits.resolved.arc_eq, ← hfits.leading.arc_eq]
  exact List.mem_cons_self

theorem Fits.mem_allPairs_next (hfits : Fits m params H inp pc cc a flag next p z cand)
    (hi : m.image inp next = none) : (next, cand.next) ∈ allPairs p cand :=
  List.mem_cons_of_mem _ ((mem_openPairs hfits.resolved hfits.leading).mpr (Or.inl ⟨rfl, rfl, hi⟩))

variable (hset : PatternSet m) (hcmp : Comparable m params) (hcall : SearchCall m params H inp pc cc)
  (hfits : Fits m params H inp pc cc a flag next p z cand)
include hset hcmp hcall hfits

/-- Coherence makes the pairs ones that can be erased. -/
theorem erasePairs_level (hl : LevelResult m params H inp pc done r) (hinp : inp[a]? = none)
    (hno : NoArcAt m r a) {n : ℕ} {out : Bool}
    (hcoh : m.checkCoherence r inp n next a out = true) :
    LevelResult m params H inp pc done (erasePairs r (allPairs p cand)) := by
  have hkey {v : ScAddr} (hv : v ∈ (allPairs p cand).map Prod.fst) :
      ∃ x, PairKind m inp a next z p cand v x := by
    obtain ⟨⟨v', x⟩, hmem, rfl⟩ := List.mem_map.mp hv
    exact ⟨x, hfits.kind hmem⟩
  have hget {v x : ScAddr} (hv : (erasePairs r (allPairs p cand))[v]? = some x) : r[v]? = some x := by
    rw [erasePairs_get] at hv
    split_ifs at hv
    exact hv
  have hmatch : PartialMatch m params (erasePairs r (allPairs p cand)) := by
    apply hl.extended.isMatch.erase
    · intro v hv
      obtain ⟨y, hkind⟩ := hkey hv
      have hnone := (pair_ok hset hfits (fun hva => hva ▸ hinp) hkind).2.1
      cases hgiven : params[v]? with
      | none => rfl
      | some k =>
        rw [hcall.isMatch.extends_ v k hgiven] at hnone
        cases hnone
    intro v x hv hnot hvarc d hd
    obtain ⟨hmem, hvar, _⟩ := hl.extended.isMatch.pair v x hv
    obtain ⟨y, hkind⟩ := hkey hd
    cases hkind with
    | arc hva _ => exact hno v x d hv hvarc hva
    | next hvn _ hi =>
      have hva : v ≠ a := by
        rintro rfl
        apply hnot
        exact List.mem_map_of_mem (f := Prod.fst) hfits.mem_allPairs_arc
      exact coherent_at hset hcmp hl.extended.isMatch hcoh hvarc hvn hva hv
        (unbound_at hcall.isMatch hi hvarc hvn)
    | ending d' hends hvd _ hi =>
      obtain ⟨hlive, _⟩ := hfits.liveNext hends
      rw [hvd] at hi
      have hvn : v ≠ next := by
        rintro rfl
        -- the element behind the arc would have a value, and so would its ends
        have hvi := unbound_at hcall.isMatch hi hlive rfl
        apply hnot
        apply List.mem_map_of_mem (f := Prod.fst) (hfits.mem_allPairs_next _)
        rw [image_of_var hvar, hvi]
      obtain ⟨k, out', hcoh'⟩ := coherent_ends hset hcoh hlive d'
      exact coherent_at hset hcmp hl.extended.isMatch hcoh' hvarc hvd hvn hv
        (unbound_at hcall.isMatch hi hvarc hvd)
  refine ⟨⟨hmatch, fun v x hv => ?_, fun v x hv hnone => hl.extended.new v x (hget hv) hnone⟩,
    fun v x d hv hnone hvarc hd => hl.incident v x d (hget hv) hnone hvarc hd⟩
  rw [erasePairs_get, if_neg]
  · exact hl.extended.extends_ v x hv
  · intro hmem
    obtain ⟨y, hkind⟩ := hkey hmem
    have hnone := (pair_ok hset hfits (fun hva => hva ▸ hinp) hkind).2.1
    rw [hv] at hnone
    cases hnone

/-- The pairs of an arc that had no value. -/
theorem insertPairs_ok (hl : LevelResult m params H inp pc done r) (hinp : inp[a]? = none)
    (hold : ∀ v x y, (v, x) ∈ allPairs p cand → r[v]? = some y → y = x)
    (hunused : ∀ v w x, (v, x) ∈ allPairs p cand → r[w]? = some x → w = v) :
    AttemptOk m params H inp pc a next z p cand (insert a done) (insertPairs r (allPairs p cand)) := by
  have hmem (v x : ScAddr) (hv : (v, x) ∈ allPairs p cand) :
      (insertPairs r (allPairs p cand))[v]? = some x := by
    apply insertPairs_mem (fun y hy => hold v x y hv hy) _ hv
    intro y hy
    exact (pairs_one hset hfits hcmp hcall (hfits.kind hy) (hfits.kind hv)).mp rfl
  have hopen (v x : ScAddr) (hv : (v, x) ∈ openPairs p cand) : (v, x) ∈ allPairs p cand :=
    List.mem_cons_of_mem _ hv
  have harc := hmem a z hfits.mem_allPairs_arc
  obtain ⟨_, himage, hnext, hends⟩ := images_inserted hfits hcall hl.extended.extends_
    (fun v x hv => hmem v x (hopen v x hv)) harc
  exact ⟨insertPairs_level hset hcmp hcall hfits hl (fun v x hv => hfits.kind hv) (fun _ _ => hinp)
    hopen hold hunused harc, himage, hnext, hends⟩

/-- The inserted pairs bring no arc at the pattern arc. -/
theorem insertPairs_noArcAt (hno : NoArcAt m r a) :
    NoArcAt m (insertPairs r (allPairs p cand)) a := by
  intro v x d hv hvarc hd
  rcases insertPairs_get hv with hr | ⟨_, hmem⟩
  · exact hno v x d hr hvarc hd
  · cases hfits.kind hmem with
    | arc hva _ =>
      rw [hva] at hd
      exact hset.ranked.owner_ne hfits.live d hd
    | next hvn _ _ =>
      rw [hvn] at hd hvarc
      exact hset.ranked.owner_owner_ne hfits.live hvarc hfits.forth hd
    | ending d' hends hvd _ hi =>
      rw [hvd] at hvarc hi
      exact hfits.ending_noArc hcmp hcall hends hi hvarc

/-- One round of the results loop, before the recursion. -/
theorem attempt_ok (hl : LevelResult m params H inp pc (insert a done) r)
    (hno : inp[a]? = none → NoArcAt m r a) :
    match m.attempt inp p cand r with
    | none => True
    | some (.changed r') => AttemptOk m params H inp pc a next z p cand (insert a done) r' ∧
        (inp[a]? = none → NoArcAt m r' a)
    | some (.copied r') => AttemptOk m params H inp pc a next z p cand (insert a done) r' := by
  have hinj := hl.extended.isMatch.injective
  have hdone : insert a (insert a done) = insert a done := Set.insert_idem a done
  have hall : (p.arc, cand.constArc) :: openPairs p cand = allPairs p cand := rfl
  have hlist {f : ScAddr × ScAddr → Bool} (h : (openPairs p cand).any f = false) {v x : ScAddr}
      (hv : (v, x) ∈ openPairs p cand) : f (v, x) = false := by
    have hone := List.any_eq_false.mp h _ hv
    simpa using hone
  unfold PatternSearch.attempt
  dsimp only
  rw [hfits.resolved.known_eq, hall]
  cases hinp : inp[a]? with
  | none =>
    dsimp only
    split_ifs with hconst hused hbound hcoh hother
    · trivial
    · trivial
    · -- a copy, from which the pairs of another constant arc are taken out first
      rw [hfits.resolved.next_eq, hfits.resolved.arc_eq] at hcoh
      have hl' := erasePairs_level hset hcmp hcall hfits hl hinp (hno hinp) hcoh
      have hok := insertPairs_ok hset hcmp hcall hfits hl' hinp ?_ ?_
      · rwa [hdone] at hok
      · intro v x y hv hy
        rw [erasePairs_get, if_pos (List.mem_map_of_mem (f := Prod.fst) hv)] at hy
        cases hy
      · intro v w x hv hw
        rw [erasePairs_get] at hw
        split_ifs at hw
        rcases List.mem_cons.mp hv with heq | hopen
        · obtain ⟨_, rfl⟩ := Prod.mk.inj heq
          have hnone : findResultPairForConst r cand.constArc = none := by simpa using hconst
          exact absurd hw (findResultPairForConst_none.mp hnone w)
        · exact unused_of_not hinj (hlist (by simpa using hused) hopen) hw
    · trivial
    · trivial
    · have hok := insertPairs_ok hset hcmp hcall hfits hl hinp ?_ ?_
      · rw [hdone] at hok
        exact ⟨hok, fun _ => insertPairs_noArcAt hset hcmp hcall hfits (hno hinp)⟩
      · intro v x y hv hy
        rcases List.mem_cons.mp hv with heq | hopen
        · obtain ⟨rfl, _⟩ := Prod.mk.inj heq
          have hnone : r[p.arc]? = none := by simpa [findResultPairForVar] using hbound
          rw [hnone] at hy
          cases hy
        · exact unbound_of_not (hlist (by simpa using hother) hopen) hy
      · intro v w x hv hw
        rcases List.mem_cons.mp hv with heq | hopen
        · obtain ⟨_, rfl⟩ := Prod.mk.inj heq
          have hnone : findResultPairForConst r cand.constArc = none := by simpa using hconst
          exact absurd hw (findResultPairForConst_none.mp hnone w)
        · exact unused_of_not hinj (hlist (by simpa using hused) hopen) hw
  | some k =>
    dsimp only
    split_ifs with hused hbound
    · trivial
    · trivial
    · have hka := hfits.constArc k hinp
      have hra : r[a]? = some z := by
        rw [← hka]
        exact hl.extended.extends_ a k hinp
      have hused' (v x : ScAddr) (hv : (v, x) ∈ openPairs p cand) : usedElsewhere r (v, x) = false := by
        have hone := List.any_eq_false.mp (Bool.eq_false_iff.mpr hused) _
          (List.mem_cons_of_mem _ hv : (v, x) ∈ allPairs p cand)
        simpa using hone
      have hbound' (v x : ScAddr) (hv : (v, x) ∈ openPairs p cand) :
          boundElsewhere r (v, x) = false := by
        have hone := List.any_eq_false.mp (Bool.eq_false_iff.mpr hbound) _
          (List.mem_cons_of_mem _ hv : (v, x) ∈ allPairs p cand)
        simpa using hone
      have hkind (v x : ScAddr) (hv : (v, x) ∈ openPairs p cand) := hfits.kind_of_open hv
      have hold (v x y : ScAddr) (hv : (v, x) ∈ openPairs p cand) (hy : r[v]? = some y) : y = x :=
        unbound_of_not (hbound' v x hv) hy
      have harc : (insertPairs r (openPairs p cand))[a]? = some z := insertPairs_keeps hra
      have hapart := pairs_apart hset hfits
      have hnota (x : ScAddr) (hv : (a, x) ∈ openPairs p cand) : inp[a]? = none := by
        rcases (mem_openPairs hfits.resolved hfits.leading).mp hv with ⟨hn, _⟩ | ⟨hends, d, hd, _⟩
        · exact absurd hn hapart.1
        · exact absurd hd.symm (hapart.2.2 hends d).2.1
      have hl' := insertPairs_level hset hcmp hcall hfits hl hkind hnota (fun _ _ hv => hv) hold
        (fun v w x hv hw => unused_of_not hinj (hused' v x hv) hw) harc
      have hmem (v x : ScAddr) (hv : (v, x) ∈ openPairs p cand) :
          (insertPairs r (openPairs p cand))[v]? = some x := by
        apply insertPairs_mem (fun y hy => hold v x y hv hy) _ hv
        intro y hy
        exact (pairs_one hset hfits hcmp hcall (hkind v y hy) (hkind v x hv)).mp rfl
      obtain ⟨_, himage, hnext, hends⟩ := images_inserted hfits hcall hl.extended.extends_ hmem harc
      rw [hdone] at hl'
      exact ⟨⟨hl', himage, hnext, hends⟩, fun hnone => by cases hnone⟩

end

/-! The whole search. -/

/-- What a call of the recursion is to return. -/
def RecursionSound (m : PatternSearch) (params : ScTypeResult)
    (recurse : Finset ScAddr → ScAddr → ScAddr → ScTypeResult → List ScTypeResult) : Prop :=
  ∀ H pc cc inp, SearchCall m params H inp pc cc →
    ∀ r ∈ recurse H cc pc inp, Extended m params H (insert pc H) inp r

section
variable {m : PatternSearch} {H rest : Finset ScAddr} {params inp r r' : ScTypeResult}
  {pc cc a next e x z : ScAddr} {flag : Bool} {p : PatternArc} {cand : Candidate} {done : Set ScAddr}
  {recurse : Finset ScAddr → ScAddr → ScAddr → ScTypeResult → List ScTypeResult}

/-- A recursion into an element of `H`, which is taken out. -/
theorem recurse_extended (hrec : RecursionSound m params recurse) (hin : ∀ x ∈ H, m.InPattern x)
    (he : e ∈ H) (hsub : rest ⊆ H) (hnot : e ∉ rest) (himage : m.image r e = some x)
    (h : Extended m params H H r r') : ∀ r'' ∈ recurse rest x e r', Extended m params H H r r'' := by
  intro r'' hr''
  have hcall : SearchCall m params rest r' e x :=
    ⟨h.isMatch, fun y hy => hin y (hsub hy), hnot, image_mono h.extends_ himage⟩
  exact h.trans ((hrec rest e x r' hcall r'' hr'').mono hsub (Finset.insert_subset he hsub))

theorem deeper_extended (hrec : RecursionSound m params recurse) (hcall : SearchCall m params H inp pc cc)
    (hfits : Fits m params H inp pc cc a flag next p z cand)
    (hok : AttemptOk m params H inp pc a next z p cand done r) :
    ∀ r' ∈ deeper recurse H p cand r, Extended m params H H r r' := by
  have hin := hcall.inPattern
  have hstart : Extended m params H H r r := Extended.refl hok.level.extended.isMatch
  have hpa := hfits.resolved.arc_eq
  have hpn : p.next.element = next := by rw [hfits.resolved.next_eq]
  have hz := hfits.leading.arc_eq
  intro r' hr'
  unfold deeper at hr'
  dsimp only at hr'
  rw [hpa, hpn, hz] at hr'
  by_cases hnone : p.ends = none
  · rw [hnone] at hr'
    obtain ⟨r1, hr1, hr'⟩ := List.mem_flatMap.mp hr'
    have hsub : (H.erase a).erase next ⊆ H :=
      (Finset.erase_subset _ _).trans (Finset.erase_subset _ _)
    have h1 := recurse_extended hrec hin hfits.mem hsub (by simp) hok.arcImage hstart r1 hr1
    exact recurse_extended hrec hin hfits.resolved.next_mem hsub (by simp) hok.nextImage h1 r' hr'
  · obtain ⟨hlive, _, hmem, hce, _⟩ := hfits.liveNext hnone
    rcases hfits.resolved.ends with ⟨habs, _⟩ | ⟨_, _, hends⟩
    · exact absurd habs hnone
    rw [hends, hce] at hr'
    obtain ⟨r1, hr1, hr'⟩ := List.mem_flatMap.mp hr'
    obtain ⟨r2, hr2, hr'⟩ := List.mem_flatMap.mp hr'
    obtain ⟨r3, hr3, hr'⟩ := List.mem_flatMap.mp hr'
    have hsub : (((H.erase a).erase next).erase (ownerOf m.cells .out next)).erase
        (ownerOf m.cells .inp next) ⊆ H :=
      ((Finset.erase_subset _ _).trans (Finset.erase_subset _ _)).trans
        ((Finset.erase_subset _ _).trans (Finset.erase_subset _ _))
    have himage := hok.endImage hnone
    have h1 := recurse_extended hrec hin hfits.mem hsub (by simp) hok.arcImage hstart r1 hr1
    have h2 := recurse_extended hrec hin hfits.resolved.next_mem hsub (by simp) hok.nextImage h1 r2 hr2
    have h3 := recurse_extended hrec hin (hmem .out) hsub (by simp) (himage .out) h2 r3 hr3
    exact recurse_extended hrec hin (hmem .inp) hsub (by simp) (himage .inp) h3 r' hr'

/-- What is found behind an arc is no arc at the element that the search has come from. -/
theorem LevelResult.deeper (hcall : SearchCall m params H inp pc cc) (hl : LevelResult m params H inp pc done r)
    (h : Extended m params H H r r') : LevelResult m params H inp pc done r' := by
  refine ⟨hl.extended.trans (h.mono (Finset.Subset.refl _) (Finset.subset_insert _ _)), ?_⟩
  intro v x d hv hnone harc hd
  cases hr : r[v]? with
  | none =>
    have hdH := (h.new v x hv hr).2 harc d
    rw [hd] at hdH
    exact absurd hdH hcall.notMem
  | some y => exact hl.incident v y d hr hnone harc hd

/-- The invariant of the loop over the constant arcs, for what is left of the earlier results and for what
has been found. -/
structure RoundOk (m : PatternSearch) (params : ScTypeResult) (H : Finset ScAddr) (inp : ScTypeResult)
    (pc a : ScAddr) (done : Set ScAddr) (s : List CommonResult × List ScTypeResult) : Prop where
  common : ∀ entry ∈ s.1, LevelResult m params H inp pc (insert a done) entry.1 ∧
    (inp[a]? = none → NoArcAt m entry.1 a)
  found : ∀ r ∈ s.2, LevelResult m params H inp pc (insert a done) r

variable (hset : PatternSet m) (hcmp : Comparable m params) (hcall : SearchCall m params H inp pc cc)
  (hrec : RecursionSound m params recurse)
include hset hcmp hcall hrec

theorem resultStep_ok (hfits : Fits m params H inp pc cc a flag next p z cand) {entry : CommonResult}
    (hl : LevelResult m params H inp pc (insert a done) entry.1) (hno : inp[a]? = none → NoArcAt m entry.1 a) :
    let step := m.resultStep recurse H inp p cand entry
    (LevelResult m params H inp pc (insert a done) step.1.1 ∧ (inp[a]? = none → NoArcAt m step.1.1 a)) ∧
      ∀ r ∈ step.2, LevelResult m params H inp pc (insert a done) r := by
  have hattempt := attempt_ok hset hcmp hcall hfits hl hno
  dsimp only
  unfold PatternSearch.resultStep
  cases hcase : m.attempt inp p cand entry.1 with
  | none => exact ⟨⟨hl, hno⟩, fun r hr => by cases hr⟩
  | some att =>
    rw [hcase] at hattempt
    cases att with
    | changed r' =>
      refine ⟨⟨hattempt.1.level, hattempt.2⟩, fun r hr => ?_⟩
      exact hattempt.1.level.deeper hcall (deeper_extended hrec hcall hfits hattempt.1 r hr)
    | copied r' =>
      refine ⟨⟨hl, hno⟩, fun r hr => ?_⟩
      exact LevelResult.deeper hcall (AttemptOk.level hattempt)
        (deeper_extended hrec hcall hfits hattempt r hr)

/-- One constant arc, for a pattern arc between `pc` and an element that is left. -/
theorem constArcStep_ok (hp : Resolved m H inp a flag next p) (ha : a ∈ H) (hlive : LiveArc m.cells a)
    (hvar : ¬ m.IsConst a) (hback : ownerOf m.cells (backDir flag) a = pc)
    (hforth : ownerOf m.cells (nextDir flag) a = next) (hz : z ∈ m.constArcSet cc p)
    {s : List CommonResult × List ScTypeResult} (hs : RoundOk m params H inp pc a done s) :
    RoundOk m params H inp pc a done (m.constArcStep recurse H inp p s z) := by
  unfold PatternSearch.constArcStep
  cases hcand : m.candidate p z with
  | none => exact hs
  | some cand =>
    have hlead := candidate_some hp hcand
    have hnext := hlead.next_eq
    rw [hp.flag_eq] at hnext
    have hfits : Fits m params H inp pc cc a flag next p z cand := by
      rcases mem_constArcSet hset.arcs hz with hknown | ⟨hknown, hlz, hbz, htype, hnz, hnext'⟩
      · rw [hp.known_eq] at hknown
        have howner (d : Dir) := hcall.isMatch.image_owner hknown hlive d
        have himage := howner (nextDir flag)
        rw [hforth, ← hnext] at himage
        refine ⟨hp, hlead, ha, hlive, hvar, hback, hforth, fun k hk => ?_, ?_, fun k hk => ?_,
          hcall.isMatch.typed a z hknown hlive, fun hn => hcall.isMatch.typed_image hn himage⟩
        · rw [hknown] at hk
          exact (Option.some.inj hk).symm
        · have hback' := howner (backDir flag)
          rw [hback, hcall.image] at hback'
          exact (Option.some.inj hback').symm
        · rw [hk] at himage
          exact (Option.some.inj himage).symm
      · rw [hp.known_eq] at hknown
        rw [hp.type_eq] at htype
        rw [hp.flag_eq] at hbz hnz hnext'
        rw [hp.nextType_eq, ← hnext] at hnext'
        have hknownNext (k : ScAddr) (hk : m.image inp next = some k) : cand.next = k := by
          rw [hnext]
          exact hnz k (by rw [hp.next_eq, hk])
        refine ⟨hp, hlead, ha, hlive, hvar, hback, hforth, fun k hk => ?_, hbz, hknownNext,
          Or.inr (Or.inr htype), fun hn => ?_⟩
        · rw [hknown] at hk
          cases hk
        · cases hi : m.image inp next with
          | some k =>
            rw [hknownNext k hi]
            exact hcall.isMatch.typed_image hn hi
          | none =>
            -- an arc is no node, so the iterator has asked for its type
            have hnode : hasBits (scFlagsRemove (m.cells next).type) scTypeNode = false :=
              beq_false_of_ne (hset.notNode hn)
            exact Or.inr (Or.inr (hnext' (by rw [hp.next_eq, hi]) hnode))
    have hstep (entry : CommonResult) (he : entry ∈ s.1) :=
      resultStep_ok hset hcmp hcall hrec hfits (hs.common entry he).1 (hs.common entry he).2
    refine ⟨fun entry he => ?_, fun r hr => ?_⟩
    · obtain ⟨step, hstep', rfl⟩ := List.mem_map.mp he
      obtain ⟨entry', he', rfl⟩ := List.mem_map.mp hstep'
      exact (hstep entry' he').1
    · rcases List.mem_append.mp hr with hr | hr
      · exact hs.found r hr
      · obtain ⟨step, hstep', hr⟩ := List.mem_flatMap.mp hr
        obtain ⟨entry', he', rfl⟩ := List.mem_map.mp hstep'
        exact (hstep entry' he').2 r hr

/-- One round of the pattern arcs loop, for an arc at `pc`. -/
theorem patternArcStep_ok (ha : a ∈ H) {d : Dir} (hd : ownerOf m.cells d a = pc)
    (hdone : ownerOf m.cells .out a ≠ ownerOf m.cells .inp a → a ∉ done) {s : ℕ × List ScTypeResult}
    (hs : ∀ r ∈ s.2, LevelResult m params H inp pc done r) :
    ∀ r ∈ (m.patternArcStep recurse H inp cc s a).2, LevelResult m params H inp pc (insert a done) r := by
  have hsub : done ⊆ insert a done := Set.subset_insert a done
  have hskip (k : ℕ) : ∀ r ∈ (k, s.2).2, LevelResult m params H inp pc (insert a done) r :=
    fun r hr => (hs r hr).mono hsub
  unfold PatternSearch.patternArcStep
  split
  · exact hskip _
  · rename_i k type flag next hnext
    obtain ⟨htype, hlive, hvar, hforth⟩ := nextPatternElement_some hnext
    split
    · exact hskip _
    · rename_i p hresolve
      have hp := resolvePatternArc_some htype hresolve
      -- the element behind the arc is left, and `pc` is not
      have hne : next ≠ pc := fun heq => hcall.notMem (heq ▸ hp.next_mem)
      have hback : ownerOf m.cells (backDir flag) a = pc := by
        rcases back_or_next flag d with rfl | rfl
        · exact hd
        · exact absurd (hforth.symm.trans hd) hne
      have hnot : a ∉ done := by
        apply hdone
        intro hloop
        apply hne
        rw [← hback, ← hforth]
        cases flag
        · exact hloop
        · exact hloop.symm
      have hround : RoundOk m params H inp pc a done ((m.constArcSet cc p).foldl
          (m.constArcStep recurse H inp p) (s.2.map fun result => (result, false), [])) := by
        apply List.foldlRecOn
        · refine ⟨fun entry he => ?_, fun r hr => by cases hr⟩
          obtain ⟨r, hr, rfl⟩ := List.mem_map.mp he
          refine ⟨(hs r hr).mono hsub, fun hnone v x d' hv hvarc hd' => ?_⟩
          have himage := (hs r hr).extended.isMatch.image_owner hv hvarc d'
          rw [hd', image_of_var hvar] at himage
          exact hnot ((hs r hr).incident a _ (backDir flag) himage hnone hlive hback)
        · intro s' hs' z hz
          exact constArcStep_ok hset hcmp hcall hrec hp ha hlive hvar hback hforth hz hs'
      intro r hr
      rcases List.mem_append.mp hr with hr | hr
      · exact hround.found r hr
      · obtain ⟨entry, he, rfl⟩ := List.mem_map.mp hr
        exact (hround.common entry (List.mem_of_mem_filter he)).1

theorem patternArcs_ok (l : List ScAddr) (hl : ∀ a ∈ l, a ∈ H ∧ ∃ d, ownerOf m.cells d a = pc)
    (hpair : l.Pairwise fun a b => a = b → ownerOf m.cells .out a = ownerOf m.cells .inp a)
    (hdone : ∀ a ∈ l, ownerOf m.cells .out a ≠ ownerOf m.cells .inp a → a ∉ done)
    {s : ℕ × List ScTypeResult} (hs : ∀ r ∈ s.2, LevelResult m params H inp pc done r) :
    ∀ r ∈ (l.foldl (m.patternArcStep recurse H inp cc) s).2,
      LevelResult m params H inp pc Set.univ r := by
  induction l generalizing s done with
  | nil => exact fun r hr => (hs r hr).mono (Set.subset_univ _)
  | cons a l ih =>
    obtain ⟨ha, d, hd⟩ := hl a List.mem_cons_self
    obtain ⟨hfirst, hrest⟩ := List.pairwise_cons.mp hpair
    have hstep := patternArcStep_ok hset hcmp hcall hrec ha hd (hdone a List.mem_cons_self) hs
    apply ih (fun b hb => hl b (List.mem_cons_of_mem _ hb)) hrest _ hstep
    intro b hb hloop hmem
    rcases hmem with rfl | hmem
    · exact hloop (hfirst b hb rfl)
    · exact hdone b (List.mem_cons_of_mem _ hb) hloop hmem

omit hcmp hcall hrec in
/-- The arcs of the pattern at an element, once in each list. -/
theorem patternArcSet_some {outs ins : List ScAddr} (h : m.patternArcSet H pc = some (outs, ins)) :
    (∀ a ∈ outs, a ∈ H ∧ ownerOf m.cells .out a = pc) ∧ outs.Nodup ∧
      (∀ a ∈ ins, a ∈ H ∧ ownerOf m.cells .inp a = pc) ∧ ins.Nodup := by
  unfold PatternSearch.patternArcSet at h
  obtain ⟨lo, ho, h⟩ := Option.bind_eq_some_iff.mp h
  obtain ⟨li, hi, h⟩ := Option.bind_eq_some_iff.mp h
  obtain ⟨rfl, rfl⟩ := Prod.mk.inj (Option.some.inj h)
  unfold iterator3 at ho hi
  dsimp only at ho hi
  split_ifs at ho with hfo
  split_ifs at hi with hfi
  obtain rfl := Option.some.inj ho
  obtain rfl := Option.some.inj hi
  have hlive : Live m.cells pc := (hfo pc (by simp [Iterator3Params.fixed])).1
  have hmem (d : Dir) := (hset.arcs.arcList (d := d) hlive).mem
  have hnodup (d : Dir) := (hset.arcs.arcList (d := d) hlive).nodup
  have hedge (l : List ScAddr) : (l.map fun x => (⟨ownerOf m.cells .out x, x,
      ownerOf m.cells .inp x⟩ : Triple ScAddr)).map (·.edge) = l := by
    rw [List.map_map]
    exact List.map_id' l
  -- what is left after the tests is a part of the list of the element
  have hpart {d : Dir} {P : ScAddr → Bool} {Q : Triple ScAddr → Bool} :
      (((((arcList m.cells d pc).filter P).map fun x => (⟨ownerOf m.cells .out x, x,
        ownerOf m.cells .inp x⟩ : Triple ScAddr)).filter Q).map (·.edge)).Sublist
          (arcList m.cells d pc) := by
    have hsub := (List.filter_sublist (p := Q) (l := ((arcList m.cells d pc).filter P).map fun x =>
      (⟨ownerOf m.cells .out x, x, ownerOf m.cells .inp x⟩ : Triple ScAddr))).map (·.edge)
    rw [hedge] at hsub
    exact hsub.trans List.filter_sublist
  refine ⟨fun a ha => ?_, ?_, fun a ha => ?_, ?_⟩
  · rw [hedge] at ha
    obtain ⟨ha, hH⟩ := List.mem_filter.mp ha
    exact ⟨of_decide_eq_true hH, ((hmem .out a).mp (List.mem_of_mem_filter ha)).2⟩
  · rw [hedge]
    exact ((hnodup .out).filter _).filter _
  · obtain ⟨ha, hH⟩ := List.mem_filter.mp ha
    exact ⟨of_decide_eq_true hH, ((hmem .inp a).mp (hpart.subset ha)).2⟩
  · exact (hpart.nodup (hnodup .inp)).filter _

theorem searchFrom_sound :
    ∀ r ∈ m.searchFrom recurse H inp cc pc, Extended m params H (insert pc H) inp r := by
  unfold PatternSearch.searchFrom
  cases harcs : m.patternArcSet H pc with
  | none => exact fun r hr => by cases hr
  | some lists =>
    obtain ⟨outs, ins⟩ := lists
    obtain ⟨hout, hnodup, hin, hnodup'⟩ := patternArcSet_some hset harcs
    intro r hr
    replace hr := (m.order.cantorize_perm _).mem_iff.mp hr
    have hstart (r : ScTypeResult) (hr : r ∈ (outs.length, [inp]).2) :
        LevelResult m params H inp pc ∅ r := by
      obtain rfl := List.mem_singleton.mp hr
      refine ⟨Extended.refl hcall.isMatch, fun v x d hv hnone => ?_⟩
      rw [hv] at hnone
      cases hnone
    refine (patternArcs_ok hset hcmp hcall hrec (outs ++ ins) ?_ ?_ (fun a _ _ => Set.notMem_empty a)
      hstart r hr).extended
    · intro a ha
      rcases List.mem_append.mp ha with ha | ha
      · exact ⟨(hout a ha).1, .out, (hout a ha).2⟩
      · exact ⟨(hin a ha).1, .inp, (hin a ha).2⟩
    · apply List.pairwise_append.mpr
      refine ⟨hnodup.imp fun hne heq => absurd heq hne, hnodup'.imp fun hne heq => absurd heq hne, ?_⟩
      rintro a ha b hb rfl
      rw [(hout a ha).2, (hin a hb).2]

omit hcall hrec in
/-- Every call of the recursion extends the incoming result by pairs that agree with the pattern. -/
theorem recurse_sound (depth : ℕ) : RecursionSound m params (m.systemSysSearchRecurse depth) := by
  induction depth with
  | zero =>
    intro H pc cc inp hcall
    unfold PatternSearch.systemSysSearchRecurse
    exact searchFrom_sound hset hcmp hcall (fun _ _ _ _ _ _ hr => by cases hr)
  | succ depth ih =>
    intro H pc cc inp hcall
    unfold PatternSearch.systemSysSearchRecurse
    exact searchFrom_sound hset hcmp hcall ih

end

end ScMachine.Scp
