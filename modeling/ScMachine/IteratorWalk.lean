import ScMachine.IteratorCounts
import ScMachine.Enumeration

/-! One call of `next` of an iterator that walks along an arc list, with nothing else going on: it
passes the arcs that do not match and stops at the first that does. -/
namespace ScMachine.Store
open ScMachine.StateExcept ScMachine.Runs ScMachine.DoublyLinked ScMachine.Enumeration

/-- The list that a kind goes along: the direction and the anchor. -/
def Iterator3Params.arcs : Iterator3Params → Option (Dir × ScAddr)
  | .faa beg _ _ => some (.out, beg)
  | .aaf _ _ end_ => some (.inp, end_)
  | .faf _ _ end_ => some (.inp, end_)
  | _ => none

def CanRead (ctx : ScContext) (c : Cells) (x : ScAddr) : Prop :=
  scAccessLvlCheckRead ctx.accessLevels (c x).accessLevels = true

instance (ctx : ScContext) (c : Cells) (x : ScAddr) : Decidable (CanRead ctx c x) :=
  inferInstanceAs (Decidable (_ = true))

/-- The element at `x` has all bits of `type`, the internal flags apart. -/
def HasType (c : Cells) (x : ScAddr) (type : ScType) : Prop :=
  type &&& scFlagsRemove (c x).type = type

instance (c : Cells) (x : ScAddr) (type : ScType) : Decidable (HasType c x type) :=
  inferInstanceAs (Decidable (_ = _))

/-- What an iterator is to yield, of the arcs of its list. -/
def Iterator3Params.Matches (c : Cells) (ctx : ScContext) : Iterator3Params → ScAddr → Prop
  | .faa _ arcType endType, x =>
    HasType c x arcType ∧ HasType c (ownerOf c .inp x) endType ∧ CanRead ctx c x ∧
      CanRead ctx c (ownerOf c .inp x)
  | .aaf begType arcType _, x =>
    HasType c x arcType ∧ HasType c (ownerOf c .out x) begType ∧ CanRead ctx c x ∧
      CanRead ctx c (ownerOf c .out x)
  | .faf beg arcType _, x => ownerOf c .out x = beg ∧ HasType c x arcType ∧ CanRead ctx c x
  | _, _ => False

instance (c : Cells) (ctx : ScContext) :
    (params : Iterator3Params) → (x : ScAddr) → Decidable (params.Matches c ctx x)
  | .faa _ _ _, _ => inferInstanceAs (Decidable (_ ∧ _ ∧ _ ∧ _))
  | .aaf _ _ _, _ => inferInstanceAs (Decidable (_ ∧ _ ∧ _ ∧ _))
  | .faf _ _ _, _ => inferInstanceAs (Decidable (_ ∧ _ ∧ _))
  | .afa _ _ _, _ | .ffa _ _ _, _ | .aff _ _ _, _ | .fff _ _ _, _ =>
    inferInstanceAs (Decidable False)

/-- Begin, arc and end. -/
def arcTriple (c : Cells) (x : ScAddr) : ScAddr × ScAddr × ScAddr :=
  (ownerOf c .out x, x, ownerOf c .inp x)

/-- Whether an arc of the list is to be yielded. -/
def Iterator3Params.matching (c : Cells) (ctx : ScContext) (params : Iterator3Params) (x : ScAddr) :
    Bool := decide (params.Matches c ctx x)

/-- The arcs among `l` that do not match. -/
def Iterator3Params.skipped (c : Cells) (ctx : ScContext) (params : Iterator3Params)
    (l : List ScAddr) : List ScAddr := l.filter fun x => !params.matching c ctx x

/-- The iterator has dealt with the arcs of `done` and has those of `rest` before it. -/
structure Standing (c : Cells) (ctx : ScContext) (params : Iterator3Params) (it : ScIterator3)
    (done rest : List ScAddr) : Prop where
  params_eq : it.params = params
  ctx_eq : it.ctx = ctx
  list : ∀ d anchor, params.arcs = some (d, anchor) → arcList c d anchor = done ++ rest
  current : it.finished = false → it.result1 = done.getLastD ScAddr.empty
  finished : it.finished = true → rest = []

/-- What one call does to an iterator that stood between `done` and `rest`; `more` are the
references of others. -/
structure Advanced (env : ScEnv) (L : SectionKey → LockWord) (c : Cells) (base : ScAddr → ℤ)
    (ctx : ScContext) (params : Iterator3Params) (done rest more : List ScAddr)
    (r : Bool × ScIterator3) (s : ScStorage) : Prop where
  found : r.1 = (rest.find? (params.matching c ctx)).isSome
  results : ∀ x, rest.find? (params.matching c ctx) = some x → r.2.results = arcTriple c x
  standing : Standing c ctx params r.2 (done ++ visited (params.matching c ctx) rest)
    (behind (params.matching c ctx) rest)
  counts : Iterating env L [] c base (r.2.held ++
    (params.skipped c ctx (done ++ visited (params.matching c ctx) rest) ++ more)) s

section
variable {env : ScEnv} {L : SectionKey → LockWord} {as held : List ScAddr} {c : Cells}
  {base : ScAddr → ℤ} {st s : ScStorage} {a x : ScAddr} {ctx : ScContext} {E : ScStop → Prop}
  {d : Dir} {params : Iterator3Params}

theorem flagsRemove_idem (t : ScType) : scFlagsRemove (scFlagsRemove t) = scFlagsRemove t := by
  unfold scFlagsRemove
  rw [BitVec.and_assoc, BitVec.and_self]

theorem compareType_iff (c : Cells) (x : ScAddr) (type : ScType) :
    scIteratorCompareType (c x).type type = true ↔ HasType c x type := by
  unfold scIteratorCompareType HasType
  exact beq_iff_eq

theorem compareType_removed (t type : ScType) :
    scIteratorCompareType (scFlagsRemove t) type = scIteratorCompareType t type := by
  unfold scIteratorCompareType
  rw [flagsRemove_idem]

theorem getRead_le (levels : ScAccessLevels) : scAccessLvlGetRead levels ≤ 15 := by
  have hlt := ((levels &&& scAccessLvlRmask) >>> 4).isLt
  unfold scAccessLvlGetRead
  rw [BitVec.toNat_ushiftRight]
  have hle := (levels &&& scAccessLvlRmask).isLt
  rw [Nat.shiftRight_eq_div_pow]
  omega

/-- Who may read the highest level may read everything. -/
theorem checkRead_max {levels : ScAccessLevels} (h : scAccessLvlCheckRead levels scAccessLvlMakeMax = true)
    (e : ScAccessLevels) : scAccessLvlCheckRead levels e = true := by
  have hmax : scAccessLvlGetRead scAccessLvlMakeMax = 15 := by decide
  unfold scAccessLvlCheckRead at h ⊢
  rw [hmax] at h
  have hle := getRead_le e
  have h15 : 15 ≤ scAccessLvlGetRead levels := by simpa using h
  simp only [decide_eq_true_eq]
  omega

/-- The comparison with the element at the other end, where it may be read and where not. -/
theorem accept_other_value (ctx : ScContext) (c : Cells) (x y : ScAddr) (arcType otherType unset : ScType) :
    (scIteratorCompareType (c x).type arcType &&
      scIteratorCompareType ((typeOutcome ctx (c y)).2.getD unset) otherType &&
      scAccessLvlCheckRead ctx.accessLevels (c x).accessLevels &&
      scAccessLvlCheckRead ctx.accessLevels
        (if (levelsOutcome ctx (c y)).1 = .ok then (levelsOutcome ctx (c y)).2.getD 0
          else scAccessLvlMakeMax)) =
      decide (HasType c x arcType ∧ HasType c y otherType ∧ CanRead ctx c x ∧ CanRead ctx c y) := by
  rw [Bool.eq_iff_iff, decide_eq_true_eq]
  simp only [Bool.and_eq_true, compareType_iff]
  unfold typeOutcome levelsOutcome CanRead
  by_cases hy : scAccessLvlCheckRead ctx.accessLevels (c y).accessLevels = true
  · simp only [hy, if_true, Option.getD_some, compareType_removed, compareType_iff]
    tauto
  · -- a context that may read the highest level would have been let through
    have hmax : ¬ scAccessLvlCheckRead ctx.accessLevels scAccessLvlMakeMax = true :=
      fun hm => hy (checkRead_max hm _)
    simp [hy, hmax]

/-- The comparison of an arc of the list, from its lock to its verdict. -/
theorem acceptOther_wp (hset : Undisturbed env L c base) (harcs : ArcsOk c)
    (h : Iterating env L (x :: as) c base held st) (hx : LiveArc c x) (d : Dir)
    (arcType otherType : ScType) (unset : ScAddr → ScType) :
    Wp (acceptOther env ctx d arcType otherType unset x (c x))
      (fun r s => r = decide (HasType c x arcType ∧ HasType c ((c x).arc d.other) otherType ∧
          CanRead ctx c x ∧ CanRead ctx c ((c x).arc d.other)) ∧
        Iterating env L as c base held s) E st := by
  have hother : Live c ((c x).arc d.other) := by
    cases d with
    | out => exact harcs.endpoint x .inp hx
    | inp => exact harcs.endpoint x .out hx
  unfold acceptOther
  rw [wp_bind]
  apply wp_mono (getAccessLevels_iterating hset h ctx ((c x).arc d.other))
  swap
  · intro _ hoff
    have hin := h.offset hother
    omega
  intro r s1 ⟨_, h1, hlevels, _⟩
  rw [hlevels (h.loaded hother)]
  simp only [wp_bind]
  apply wp_mono (unlock_iterating h1 E) _ (fun _ he => he)
  intro _ s2 h2
  apply wp_mono (getElementType_live hset h2 ctx hother E) _ (fun _ he => he)
  intro t s3 ⟨ht, h3⟩
  rw [ht]
  exact ⟨accept_other_value ctx c x _ arcType otherType (unset x), h3⟩

theorem acceptBetween_wp (h : Iterating env L (x :: as) c base held st) (beg : ScAddr)
    (arcType : ScType) :
    Wp (acceptBetween env ctx beg arcType x (c x))
      (fun r s => r = decide (ownerOf c .out x = beg ∧ HasType c x arcType ∧ CanRead ctx c x) ∧
        Iterating env L as c base held s) E st := by
  unfold acceptBetween
  rw [wp_bind]
  apply wp_mono (unlock_iterating h E) _ (fun _ he => he)
  intro _ s1 h1
  refine ⟨?_, h1⟩
  rw [Bool.eq_iff_iff, decide_eq_true_eq]
  simp only [Bool.and_eq_true, decide_eq_true_eq, compareType_iff]
  unfold CanRead
  constructor
  · intro ⟨⟨hb, ht⟩, hr⟩
    exact ⟨hb.symm, ht, hr⟩
  · intro ⟨hb, ht, hr⟩
    exact ⟨⟨hb.symm, ht⟩, hr⟩

/-- The loop along the rest of a list. Every arc it visits gets a reference. -/
theorem walkArcs_wp (hset : Undisturbed env L c base) {m : ScAddr → Bool}
    {accept : ScAddr → ScElement → StoreM Bool} {p : ScAddr} (rest : List ScAddr)
    (hlive : ∀ x ∈ rest, LiveArc c x) (hnodup : rest.Nodup)
    (hlinked : Linked (nextOf c d) (prevOf c d) ScAddr.empty p rest)
    (haccept : ∀ x ∈ rest, ∀ held st, Iterating env L (x :: as) c base held st →
      Wp (accept x (c x)) (fun r s => r = m x ∧ Iterating env L as c base held s) E st)
    (hE : ∀ x ∈ rest, 4294967295 ≤ base x+held.count x+1 → ∀ e, E e)
    (fuel : ℕ) (hfuel : rest.length < fuel) (h : Iterating env L as c base held st) :
    Wp (walkArcs env d accept fuel (rest.headD ScAddr.empty))
      (fun r s => r = (rest.find? m).map (fun x => (x, c x)) ∧
        Iterating env L as c base (visited m rest ++ held) s) E st := by
  -- along the list; the references of the visited arcs pile up in `held`
  induction rest generalizing p held st fuel with
  | nil =>
    cases fuel with
    | zero => simp at hfuel
    | succ fuel =>
      simp only [List.headD_nil, walkArcs, if_true]
      exact ⟨rfl, h⟩
  | cons x xs ih =>
    cases fuel with
    | zero => simp at hfuel
    | succ fuel =>
      obtain ⟨hne, _, hnext, htail⟩ := hlinked
      obtain ⟨hxs, hnodup⟩ := List.nodup_cons.mp hnodup
      have hx := hlive x List.mem_cons_self
      have hflag : scElementIsRequestDeletion (c x) = false := by
        have hvalid : scElementIsValid (c x) = true := hx.1
        unfold scElementIsValid at hvalid
        simp only [Bool.not_or, Bool.and_eq_true, Bool.not_eq_true'] at hvalid
        exact hvalid.2
      simp only [List.headD_cons, walkArcs, hne, if_false, wp_bind]
      apply wp_mono (lockTry_live hset h hx.1 E) _ (fun _ he => he)
      intro r s1 ⟨hr, h1⟩
      simp only [hr, Bool.not_true, Bool.false_eq_true, if_false, wp_bind]
      apply wp_mono (ref_live hset h1 hx.1)
      swap
      · intro e hlimit
        exact hE x List.mem_cons_self hlimit e
      intro _ s2 h2
      simp only [wp_readCell, h2.cell, hflag, Bool.false_eq_true, if_false, wp_bind]
      apply wp_mono (haccept x List.mem_cons_self _ s2 h2) _ (fun _ he => he)
      intro r s3 ⟨hm, h3⟩
      subst hm
      rw [wp_ite]
      constructor
      · intro hmx
        simp only [List.find?_cons, hmx, visited, if_true, Option.map_some]
        exact ⟨rfl, h3⟩
      · intro hmx
        have hmx' : m x = false := by simpa using hmx
        have hstart : (c x).arc d.next = xs.headD ScAddr.empty := hnext
        rw [hstart]
        -- an arc of the tail is another one, so its count is as before
        have hE' : ∀ y ∈ xs, 4294967295 ≤ base y+(x :: held).count y+1 → ∀ e, E e := by
          intro y hy hlimit
          have hyx : x ≠ y := by
            rintro rfl
            exact hxs hy
          rw [List.count_cons_of_ne hyx] at hlimit
          exact hE y (List.mem_cons_of_mem _ hy) hlimit
        have htailwp := ih (fun y hy => hlive y (List.mem_cons_of_mem _ hy)) hnodup htail
          (fun y hy => haccept y (List.mem_cons_of_mem _ hy)) hE' fuel (by simpa using hfuel) h3
        apply wp_mono htailwp _ (fun _ he => he)
        intro r s4 ⟨hr, h4⟩
        simp only [List.find?_cons, hmx', visited, Bool.false_eq_true, if_false]
        refine ⟨hr, h4.congr fun y => ?_⟩
        simp only [List.count_append, List.count_cons]
        omega

/-- The loop starts at the first arc of the rest; the arc of the last result is given back. -/
theorem resumeArc_wp (hset : Undisturbed env L c base) {it : ScIterator3} {anchor : ScAddr}
    {done rest more : List ScAddr} (hchain : ArcChain c d anchor (done ++ rest))
    (hanchor : Live c anchor) (hfinished : it.finished = false)
    (hcurrent : it.result1 = done.getLastD ScAddr.empty)
    (h : Iterating env L [] c base (it.held ++ more) st) :
    Wp (resumeArc env d anchor it)
      (fun r s => r = rest.headD ScAddr.empty ∧
        Iterating env L [] c base (it.params.fixed ++ more) s) E st := by
  unfold resumeArc
  rcases List.eq_nil_or_concat done with rfl | ⟨pre, x, rfl⟩
  · have hempty : it.result1 = ScAddr.empty := hcurrent
    have hheld : it.held = it.params.fixed := by
      unfold ScIterator3.held ScIterator3.currentArc
      simp [hempty]
    rw [if_pos hempty, wp_bind]
    apply wp_mono (lock_live hset h hanchor E) _ (fun _ he => he)
    intro r s1 ⟨hr, h1⟩
    simp only [hr, Bool.not_true, Bool.false_eq_true, if_false, wp_bind, wp_readCell, h1.cell]
    apply wp_mono (unlock_iterating h1 E) _ (fun _ he => he)
    intro _ s2 h2
    rw [hheld] at h2
    exact ⟨hchain.first, h2⟩
  · rw [List.concat_eq_append] at hcurrent hchain
    have hx : LiveArc c x := ((hchain.mem x).mp (by simp)).1
    have hresult : it.result1 = x := by simpa using hcurrent
    have hne : it.result1 ≠ ScAddr.empty := by
      rw [hresult]
      exact h.notEmpty hx.1
    have hlinked := hchain.linked
    rw [List.append_assoc, List.singleton_append] at hlinked
    have hheld (y : ScAddr) :
        (x :: (it.params.fixed ++ more)).count y = (it.held ++ more).count y := by
      unfold ScIterator3.held ScIterator3.currentArc
      rw [if_pos ⟨hfinished, hne⟩, hresult]
      simp only [Option.toList_some, List.count_append, List.count_cons, List.count_nil]
      omega
    rw [if_neg hne, hresult, wp_bind]
    apply wp_mono (lock_live hset h hx.1 E) _ (fun _ he => he)
    intro r s1 ⟨hr, h1⟩
    simp only [hr, Bool.not_true, Bool.false_eq_true, if_false, wp_bind, wp_readCell, h1.cell]
    apply wp_mono (unref_live hset (h1.congr hheld) hx.1 E) _ (fun _ he => he)
    intro _ s2 h2
    apply wp_mono (unlock_iterating h2 E) _ (fun _ he => he)
    intro _ s3 h3
    exact ⟨hlinked.behind.1, h3⟩

/-- The search of one call, up to the arc where it stops. -/
theorem search_wp (hset : Undisturbed env L c base) {m : ScAddr → Bool}
    {accept : ScAddr → ScElement → StoreM Bool} {it : ScIterator3} {anchor : ScAddr}
    {done rest more : List ScAddr} (hchain : ArcChain c d anchor (done ++ rest))
    (hanchor : Live c anchor) (hfinished : it.finished = false)
    (hcurrent : it.result1 = done.getLastD ScAddr.empty)
    (haccept : ∀ x ∈ rest, ∀ held st, Iterating env L [x] c base held st →
      Wp (accept x (c x)) (fun r s => r = m x ∧ Iterating env L [] c base held s) E st)
    (hE : ∀ x ∈ rest, 4294967295 ≤ base x+(it.params.fixed ++ more).count x+1 → ∀ e, E e)
    (h : Iterating env L [] c base (it.held ++ more) st) :
    Wp (resumeArc env d anchor it >>= walkArcs env d accept walkFuel)
      (fun r s => r = (rest.find? m).map (fun x => (x, c x)) ∧
        Iterating env L [] c base (visited m rest ++ (it.params.fixed ++ more)) s) E st := by
  have hlinked : ∃ p, Linked (nextOf c d) (prevOf c d) ScAddr.empty p rest := by
    rcases List.eq_nil_or_concat done with rfl | ⟨pre, x, rfl⟩
    · exact ⟨_, hchain.linked⟩
    · have hl := hchain.linked
      rw [List.concat_eq_append, List.append_assoc, List.singleton_append] at hl
      exact ⟨x, hl.behind.2⟩
  obtain ⟨p, hlinked⟩ := hlinked
  have hnodup : rest.Nodup := (List.nodup_append.mp hchain.nodup).2.1
  have hlen := length_le_of_nodup_addrs rest hnodup
  have hfuel : rest.length < walkFuel := by
    unfold walkFuel
    omega
  rw [wp_bind]
  apply wp_mono (resumeArc_wp hset hchain hanchor hfinished hcurrent h) _ (fun _ he => he)
  intro start s1 ⟨hstart, h1⟩
  subst hstart
  apply walkArcs_wp hset rest _ hnodup hlinked haccept hE walkFuel hfuel h1
  intro x hx
  exact ((hchain.mem x).mp (List.mem_append_right _ hx)).1

variable {it it' : ScIterator3} {done rest more : List ScAddr}

/-- The iterator after a call that found `x`. -/
theorem advanced_some (hst : Standing c ctx params it done rest)
    (hx : rest.find? (params.matching c ctx) = some x) (hne : x ≠ ScAddr.empty)
    (hparams : it'.params = params) (hctx : it'.ctx = ctx) (hfinished : it'.finished = false)
    (hresults : it'.results = arcTriple c x)
    (h : Iterating env L [] c base (visited (params.matching c ctx) rest ++
      (params.fixed ++ (params.skipped c ctx done ++ more))) s) :
    Advanced env L c base ctx params done rest more (true, it') s := by
  have hresult : it'.result1 = x := by
    have h1 := congrArg (fun t : ScAddr × ScAddr × ScAddr => t.2.1) hresults
    exact h1
  obtain ⟨pre, hpre⟩ := visited_of_some hx
  refine ⟨?_, ?_, ⟨hparams, hctx, ?_, ?_, ?_⟩, ?_⟩
  · rw [hx]
    rfl
  · intro y hy
    obtain rfl := Option.some.inj (hx.symm.trans hy)
    exact hresults
  · intro d anchor hp
    rw [List.append_assoc, visited_append_behind]
    exact hst.list d anchor hp
  · intro _
    rw [hresult, hpre, ← List.append_assoc]
    simp
  · intro hf
    exact absurd (hfinished.symm.trans hf) Bool.false_ne_true
  · -- the arcs passed over stay referenced, and the one found is the current one
    apply h.congr
    intro y
    have hcount := count_visited (params.matching c ctx) rest y
    rw [hx] at hcount
    have hheld : it'.held = params.fixed ++ [x] := by
      unfold ScIterator3.held ScIterator3.currentArc
      rw [if_pos ⟨hfinished, by rw [hresult]; exact hne⟩, hparams, hresult]
      rfl
    unfold Iterator3Params.skipped
    simp only [hheld, List.filter_append, List.count_append, Option.toList_some] at hcount ⊢
    omega

/-- The iterator after a call that came to the end. -/
theorem advanced_none (hst : Standing c ctx params it done rest)
    (hx : rest.find? (params.matching c ctx) = none) (hparams : it'.params = params)
    (hctx : it'.ctx = ctx) (hfinished : it'.finished = true)
    (h : Iterating env L [] c base (visited (params.matching c ctx) rest ++
      (params.fixed ++ (params.skipped c ctx done ++ more))) s) :
    Advanced env L c base ctx params done rest more (false, it') s := by
  refine ⟨?_, ?_, ⟨hparams, hctx, ?_, ?_, ?_⟩, ?_⟩
  · rw [hx]
    rfl
  · intro y hy
    exact absurd (hx.symm.trans hy) (by simp)
  · intro d anchor hp
    rw [List.append_assoc, visited_append_behind]
    exact hst.list d anchor hp
  · intro hf
    exact absurd (hfinished.symm.trans hf) (by decide)
  · intro _
    exact (visited_of_none hx).2
  · apply h.congr
    intro y
    have hcount := count_visited (params.matching c ctx) rest y
    rw [hx] at hcount
    have hheld : it'.held = params.fixed := by
      unfold ScIterator3.held ScIterator3.currentArc
      rw [if_neg (by simp [hfinished]), hparams]
      exact List.append_nil _
    unfold Iterator3Params.skipped
    simp only [hheld, List.filter_append, List.count_append, Option.toList_none,
      List.count_nil] at hcount ⊢
    omega

/-- The common part of the three kinds: `k` makes the result out of the arc that was found. -/
theorem walkKind_wp (hset : Undisturbed env L c base) {anchor : ScAddr}
    {accept : ScAddr → ScElement → StoreM Bool}
    {k : Option (ScAddr × ScElement) → StoreM (Bool × ScIterator3)} (it : ScIterator3)
    (found : ScAddr → ScIterator3) (ended : ScIterator3) (hst : Standing c ctx params it done rest)
    (hfinished : it.finished = false) (hchain : ArcChain c d anchor (done ++ rest))
    (hanchor : Live c anchor)
    (haccept : ∀ x ∈ rest, ∀ held st, Iterating env L [x] c base held st →
      Wp (accept x (c x)) (fun r s => r = params.matching c ctx x ∧
        Iterating env L [] c base held s) E st)
    (hE : ∀ x ∈ rest, 4294967295 ≤ base x+(params.fixed ++ more).count x+1 → ∀ e, E e)
    (hfound : ∀ x, k (some (x, c x)) = pure (true, found x)) (hended : k none = pure (false, ended))
    (hresults : ∀ x ∈ done ++ rest, params.Matches c ctx x → (found x).results = arcTriple c x)
    (hsame : ∀ x, (found x).params = params ∧ (found x).ctx = ctx ∧ (found x).finished = false)
    (hsame' : ended.params = params ∧ ended.ctx = ctx ∧ ended.finished = true)
    (h : Iterating env L [] c base (it.held ++ (params.skipped c ctx done ++ more)) st) :
    Wp (do
        let start ← resumeArc env d anchor it
        k (← walkArcs env d accept walkFuel start))
      (fun r s => Advanced env L c base ctx params done rest more r s) E st := by
  have hE' : ∀ x ∈ rest, 4294967295 ≤
      base x+(it.params.fixed ++ (params.skipped c ctx done ++ more)).count x+1 → ∀ e, E e := by
    intro x hx hlimit
    -- an arc of the rest has not been visited before
    have hnot : x ∉ params.skipped c ctx done := by
      intro hmem
      have hdone := (List.mem_filter.mp hmem).1
      exact (List.nodup_append.mp hchain.nodup).2.2 x hdone x hx rfl
    apply hE x hx
    rw [hst.params_eq] at hlimit
    simp only [List.count_append, List.count_eq_zero_of_not_mem hnot] at hlimit ⊢
    simpa using hlimit
  have hsearch := search_wp hset hchain hanchor hfinished (hst.current hfinished) haccept hE' h
  rw [wp_bind] at hsearch ⊢
  apply wp_mono hsearch _ (fun _ he => he)
  intro start s1 hwalk
  rw [wp_bind]
  apply wp_mono hwalk _ (fun _ he => he)
  intro r s2 ⟨hr, h2⟩
  rw [hst.params_eq] at h2
  subst hr
  cases hfind : rest.find? (params.matching c ctx) with
  | none =>
    rw [Option.map_none, hended, wp_pure]
    exact advanced_none hst hfind hsame'.1 hsame'.2.1 hsame'.2.2 h2
  | some x =>
    have hx : x ∈ done ++ rest := List.mem_append_right _ (List.mem_of_find?_eq_some hfind)
    have hmatch : params.Matches c ctx x := by
      have hm := List.find?_some hfind
      exact of_decide_eq_true hm
    have hlive := ((hchain.mem x).mp hx).1
    rw [Option.map_some, hfound, wp_pure]
    exact advanced_some hst hfind (h.notEmpty hlive.1) (hsame x).1 (hsame x).2.1 (hsame x).2.2
      (hresults x hx hmatch) h2

/-- A call of `next` of a kind that walks along a list. -/
theorem next_wp (hset : Undisturbed env L c base) (harcs : ArcsOk c) {anchor : ScAddr}
    (hp : params.arcs = some (d, anchor)) (hanchor : Live c anchor)
    (hst : Standing c ctx params it done rest)
    (hE : ∀ x ∈ rest, 4294967295 ≤ base x+(params.fixed ++ more).count x+1 → ∀ e, E e)
    (h : Iterating env L [] c base (it.held ++ (params.skipped c ctx done ++ more)) st)
    (unset : ScAddr → ScType) :
    Wp (scIterator3Next env unset it)
      (fun r s => Advanced env L c base ctx params done rest more r s) E st := by
  unfold scIterator3Next
  by_cases hfinished : it.finished = true
  · -- the end has been reported before
    have hrest := hst.finished hfinished
    subst hrest
    rw [if_pos hfinished, wp_pure]
    refine ⟨rfl, ?_, ?_, ?_⟩
    · intro x hx
      simp at hx
    · rw [visited, List.append_nil]
      exact hst
    · rw [visited, List.append_nil]
      exact h
  have hfinished' : it.finished = false := by simpa using hfinished
  have hchain : ArcChain c d anchor (done ++ rest) := by
    rw [← hst.list d anchor hp]
    exact harcs.arcList hanchor
  have howner (x : ScAddr) (hx : x ∈ done ++ rest) := ((hchain.mem x).mp hx)
  have hlive (x : ScAddr) (hx : x ∈ rest) : LiveArc c x :=
    (howner x (List.mem_append_right _ hx)).1
  rw [if_neg hfinished, hst.params_eq]
  have hparams := hst.params_eq
  have hctx := hst.ctx_eq
  cases params with
  | faa beg arcType endType =>
    simp only [Iterator3Params.arcs, Option.some.injEq, Prod.mk.injEq] at hp
    obtain ⟨rfl, rfl⟩ := hp
    refine walkKind_wp hset { it with result0 := beg }
      (fun x => { it with result0 := beg, result1 := x, result2 := (c x).arc .arcEnd })
      { it with result0 := beg, finished := true }
      ⟨hparams, hctx, hst.list, hst.current, hst.finished⟩ hfinished' hchain hanchor ?_ hE
      (fun x => rfl) rfl ?_ (fun x => ⟨hparams, hctx, hfinished'⟩) ⟨hparams, hctx, rfl⟩ h
    · intro x hx held st hit
      simp only [hctx]
      exact acceptOther_wp hset harcs hit (hlive x hx) .out arcType endType unset
    · intro x hx _
      have hbeg : beg = ownerOf c .out x := ((howner x hx).2).symm
      simp only [ScIterator3.results, arcTriple, ← hbeg]
      rfl
  | aaf begType arcType end_ =>
    simp only [Iterator3Params.arcs, Option.some.injEq, Prod.mk.injEq] at hp
    obtain ⟨rfl, rfl⟩ := hp
    refine walkKind_wp hset { it with result2 := end_ }
      (fun x => { it with result2 := end_, result1 := x, result0 := (c x).arc .arcBegin })
      { it with result2 := end_, finished := true }
      ⟨hparams, hctx, hst.list, hst.current, hst.finished⟩ hfinished' hchain hanchor ?_ hE
      (fun x => rfl) rfl ?_ (fun x => ⟨hparams, hctx, hfinished'⟩) ⟨hparams, hctx, rfl⟩ h
    · intro x hx held st hit
      simp only [hctx]
      exact acceptOther_wp hset harcs hit (hlive x hx) .inp arcType begType _
    · intro x hx _
      have hend : end_ = ownerOf c .inp x := ((howner x hx).2).symm
      simp only [ScIterator3.results, arcTriple, ← hend]
      rfl
  | faf beg arcType end_ =>
    simp only [Iterator3Params.arcs, Option.some.injEq, Prod.mk.injEq] at hp
    obtain ⟨rfl, rfl⟩ := hp
    refine walkKind_wp hset { it with result0 := beg, result2 := end_ }
      (fun x => { it with result0 := beg, result2 := end_, result1 := x })
      { it with result0 := beg, result2 := end_, finished := true }
      ⟨hparams, hctx, hst.list, hst.current, hst.finished⟩ hfinished' hchain hanchor ?_ hE
      (fun x => rfl) rfl ?_ (fun x => ⟨hparams, hctx, hfinished'⟩) ⟨hparams, hctx, rfl⟩ h
    · intro x hx held st hit
      simp only [hctx]
      exact acceptBetween_wp hit beg arcType
    · intro x hx hmatch
      have hend : end_ = ownerOf c .inp x := ((howner x hx).2).symm
      have hbeg : ownerOf c .out x = beg := hmatch.1
      simp only [ScIterator3.results, arcTriple, ← hend, hbeg]
  | afa _ _ _ => simp [Iterator3Params.arcs] at hp
  | ffa _ _ _ => simp [Iterator3Params.arcs] at hp
  | aff _ _ _ => simp [Iterator3Params.arcs] at hp
  | fff _ _ _ => simp [Iterator3Params.arcs] at hp

end

end ScMachine.Store
