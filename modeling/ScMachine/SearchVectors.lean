import ScMachine.SearchOrder
import ScMachine.TextEdits

/-! The order of a search as it is computed on vectors, with every access and every sum of scores
checked. -/
namespace ScMachine.Template
open ScMachine.Store ScMachine.Text

/-- What must not happen. -/
inductive OrderStop where
  | outOfRange
  | overflow
  deriving DecidableEq

def readAt {α : Type} (v : List α) (i : ℕ) : Except OrderStop α :=
  match v[i]? with
  | some x => .ok x
  | none => .error .outOfRange

def writeAt {α : Type} (v : List α) (i : ℕ) (x : α) : Except OrderStop (List α) :=
  if i < v.length then .ok (v.set i x) else .error .outOfRange

/-- The sum of two scores, which has eight bits. -/
def addScore (a b : BitVec 8) : Except OrderStop (BitVec 8) :=
  if a.toNat+b.toNat < 2^8 then .ok (a+b) else .error .overflow

/-- The variables of the loop. -/
structure OrderVectors where
  processOrder : List ℕ
  isTripleCached : List Bool
  tripleScores : List (BitVec 8)
  usedReplacements : List String
  preCacheIdx : ℕ
  orderIdx : ℕ

/-- The loop for the next triple that has not been taken up, on what is left of `preCache`. -/
def skipCached (isTripleCached : List Bool) : List ℕ → ℕ → Except OrderStop ℕ
  | [], _ => .error .outOfRange
  | tripleIdx :: rest, preCacheIdx => do
    if ← readAt isTripleCached tripleIdx then skipCached isTripleCached rest (preCacheIdx+1)
    else pure preCacheIdx

/-- The loop over the dependent triples: their scores and the best triple. -/
def raiseTripleScores (isTripleCached : List Bool) :
    List ℕ → List (BitVec 8) → ℕ → Except OrderStop (List (BitVec 8) × ℕ)
  | [], tripleScores, bestTripleIdx => pure (tripleScores, bestTripleIdx)
  | idx :: rest, tripleScores, bestTripleIdx => do
    let tripleIdx := idx/4
    if ← readAt isTripleCached tripleIdx then
      raiseTripleScores isTripleCached rest tripleScores bestTripleIdx
    else
      let score ← readAt tripleScores tripleIdx
      let raised ← addScore score (if idx = 1 then kScoreEdge else kScoreOther)
      let tripleScores ← writeAt tripleScores tripleIdx raised
      let bestScore ← readAt tripleScores bestTripleIdx
      let score ← readAt tripleScores tripleIdx
      raiseTripleScores isTripleCached rest tripleScores
        (if bestScore < score then tripleIdx else bestTripleIdx)

section
variable (lib : LibraryOrder) (triples : List (Triple ScTemplateArg)) (preCache : List ℕ)

def orderVectorsRound (s : OrderVectors) : Except OrderStop OrderVectors := do
  let curTripleIdx ← readAt s.processOrder (s.orderIdx-1)
  let triple ← readAt triples curTripleIdx
  let names := (triple.toList.map (·.replacementName)).filter (· != "")
  let (resolved, used) := resolvedTriples triples names s.usedReplacements
  let preCacheIdx ← skipCached s.isTripleCached (preCache.drop s.preCacheIdx) s.preCacheIdx
  let bestTripleIdx ← readAt preCache preCacheIdx
  let (tripleScores, best) ←
    raiseTripleScores s.isTripleCached (lib.setOrder resolved) s.tripleScores bestTripleIdx
  let processOrder ← writeAt s.processOrder s.orderIdx best
  let isTripleCached ← writeAt s.isTripleCached best true
  pure ⟨processOrder, isTripleCached, tripleScores, used, preCacheIdx, s.orderIdx+1⟩

/-- The body of the loop over `orderIdx`. -/
def orderVectorsBody (s : OrderVectors) : OrderVectors ⊕ Except OrderStop (List ℕ) :=
  if s.orderIdx < s.processOrder.length then
    match orderVectorsRound lib triples preCache s with
    | .ok s => .inl s
    | .error e => .inr (.error e)
  else .inr (.ok s.processOrder)

/-- The variables before the loop. -/
def orderVectorsStart : Except OrderStop OrderVectors := do
  let first ← readAt preCache 0
  let processOrder ← writeAt (List.replicate preCache.length 0) 0 first
  let isTripleCached ← writeAt (List.replicate preCache.length false) first true
  pure ⟨processOrder, isTripleCached, triples.map calculateScore, [], 1, 1⟩

/-- `UpdateSearchCache` of at most as many rounds: what is then in `processOrder`, which is empty
before. -/
def updateSearchCacheVectors (fuel : ℕ) : Option (Except OrderStop (List ℕ)) :=
  if triples = [] then some (.ok [])
  else
    let preCache := lib.sort (fun i => (triples.map calculateScore).getD i 0)
      (List.range triples.length)
    match orderVectorsStart triples preCache with
    | .error e => some (.error e)
    | .ok s => loop (orderVectorsBody lib triples preCache) fuel s

end

section
variable {triples : List (Triple ScTemplateArg)} {used names : List String} {name : String} {p i : ℕ}

/-! Every packed entry is that of one place, and has one name. -/

theorem replDepend_item (h : p ∈ replDepend triples name) :
    ∃ t value, triples[p/4]? = some t ∧ t.toList[p%4]? = some value ∧
      value.replacementName = name := by
  unfold replDepend at h
  obtain ⟨l, hl, hp⟩ := List.mem_flatten.mp h
  obtain ⟨⟨t, i⟩, ht, rfl⟩ := List.mem_map.mp hl
  obtain ⟨⟨value, pos⟩, hv, rfl⟩ := List.mem_map.mp hp
  obtain ⟨hmem, hcond⟩ := List.mem_filter.mp hv
  have hi : triples[i]? = some t := by simpa using List.mk_mem_zipIdx_iff_getElem?.mp ht
  have hpos : t.toList[pos]? = some value := by simpa using List.mk_mem_zipIdx_iff_getElem?.mp hmem
  have hlt : pos < 3 := (List.getElem?_eq_some_iff.mp hpos).1
  have hdiv : (i*4+pos)/4 = i := by omega
  have hmod : (i*4+pos)%4 = pos := by omega
  simp only [Bool.and_eq_true, beq_iff_eq] at hcond
  exact ⟨t, value, by rw [hdiv]; exact hi, by rw [hmod]; exact hpos, hcond.2⟩

theorem replDepend_nodup (triples : List (Triple ScTemplateArg)) (name : String) :
    (replDepend triples name).Nodup := by
  unfold replDepend
  refine List.nodup_flatten.mpr ⟨fun l hl => ?_, ?_⟩
  · obtain ⟨⟨t, i⟩, _, rfl⟩ := List.mem_map.mp hl
    have hplaces : (t.toList.zipIdx.map fun q => i*4+q.2) = [i*4+0, i*4+1, i*4+2] := rfl
    have hsub := List.Sublist.map (fun q : ScTemplateArg × ℕ => i*4+q.2)
      (List.filter_sublist (l := t.toList.zipIdx)
      (p := fun q => q.1.kind != .addr && q.1.hasReplacementName && q.1.replacementName == name))
    rw [hplaces] at hsub
    exact hsub.nodup (by simp)
  · rw [List.pairwise_map]
    have hidx : (triples.zipIdx.map Prod.snd).Nodup := by
      rw [List.zipIdx_map_snd]
      exact List.nodup_range'
    refine (List.pairwise_map.mp hidx).imp ?_
    rintro ⟨t, i⟩ ⟨t', i'⟩ hne q hq hq'
    obtain ⟨⟨v, pos⟩, hv, rfl⟩ := List.mem_map.mp hq
    obtain ⟨⟨v', pos'⟩, hv', heq⟩ := List.mem_map.mp hq'
    have hpos : pos < 3 := (List.getElem?_eq_some_iff.mp
      (List.mk_mem_zipIdx_iff_getElem?.mp (List.mem_filter.mp hv).1)).1
    have hpos' : pos' < 3 := (List.getElem?_eq_some_iff.mp
      (List.mk_mem_zipIdx_iff_getElem?.mp (List.mem_filter.mp hv').1)).1
    dsimp only at hne heq
    omega

/-- The packed entries of the names that have been used. -/
def usedEntries (triples : List (Triple ScTemplateArg)) (used : List String) : List ℕ :=
  (used.map (replDepend triples)).flatten

theorem usedEntries_nodup (h : used.Nodup) : (usedEntries triples used).Nodup := by
  refine List.nodup_flatten.mpr ⟨fun l hl => ?_, ?_⟩
  · obtain ⟨name, _, rfl⟩ := List.mem_map.mp hl
    exact replDepend_nodup triples name
  · rw [List.pairwise_map]
    refine List.Pairwise.imp (fun {a b} hne p hp hp' => hne ?_) h
    obtain ⟨t, v, ht, hv, rfl⟩ := replDepend_item hp
    obtain ⟨t', v', ht', hv', rfl⟩ := replDepend_item hp'
    obtain rfl : t = t' := Option.some.inj (ht.symm.trans ht')
    rw [Option.some.inj (hv.symm.trans hv')]

/-- A triple has at most three entries. -/
theorem usedEntries_count (h : used.Nodup) (i : ℕ) :
    (usedEntries triples used).countP (·/4 = i) ≤ 3 := by
  rw [List.countP_eq_length_filter]
  have hnodup := (@usedEntries_nodup triples _ h).filter (fun p => decide (p/4 = i))
  have hsub : ((usedEntries triples used).filter fun p => decide (p/4 = i)) ⊆
    [i*4, i*4+1, i*4+2] := by
    intro p hp
    obtain ⟨hmem, hi⟩ := List.mem_filter.mp hp
    obtain ⟨l, hl, hpl⟩ := List.mem_flatten.mp hmem
    obtain ⟨name, _, rfl⟩ := List.mem_map.mp hl
    obtain ⟨t, v, _, hv, _⟩ := replDepend_item hpl
    have hlt : p%4 < 3 := (List.getElem?_eq_some_iff.mp hv).1
    have hdiv : p/4 = i := of_decide_eq_true hi
    have hp : p = i*4 ∨ p = i*4+1 ∨ p = i*4+2 := by omega
    simpa using hp
  exact (List.subperm_of_subset hnodup hsub).length_le

theorem resolvedTriples_used (names : List String) (h : used.Nodup) :
    (resolvedTriples triples names used).2.Nodup ∧
      (usedEntries triples (resolvedTriples triples names used).2).Perm
        ((resolvedTriples triples names used).1 ++ usedEntries triples used) := by
  induction names generalizing used with
  | nil => exact ⟨h, .refl _⟩
  | cons name names ih =>
    unfold resolvedTriples
    split_ifs with hused
    · exact ih h
    · obtain ⟨hnodup, hperm⟩ := ih (List.nodup_cons.mpr ⟨hused, h⟩)
      refine ⟨hnodup, hperm.trans ?_⟩
      have hcons : usedEntries triples (name :: used) =
          replDepend triples name ++ usedEntries triples used := rfl
      rw [hcons, ← List.append_assoc]
      exact List.perm_append_comm.append_right _

/-! What is read and written. -/

variable {α : Type} {v : List α} {x : α} {cached : List Bool} {scores : List (BitVec 8)}
  {cache l : List ℕ}

theorem readAt_eq (h : v[i]? = some x) : readAt v i = .ok x := by
  unfold readAt
  rw [h]

theorem writeAt_eq (h : v[i]? = some x) (y : α) : writeAt v i y = .ok (v.set i y) :=
  if_pos (List.getElem?_eq_some_iff.mp h).1

/-- The flags stand for the triples that have been taken up. -/
def Cached (triples : List (Triple ScTemplateArg)) (cache : List ℕ)
    (isTripleCached : List Bool) : Prop :=
  ∀ i < triples.length, isTripleCached[i]? = some (decide (i ∈ cache))

/-- The loop over `preCache` stops where there is something left. -/
theorem skipCached_eq (hcached : Cached triples cache cached) (hl : ∀ i ∈ l, i < triples.length)
    (idx : ℕ)
    (hleft : l.dropWhile (· ∈ cache) ≠ []) :
    skipCached cached l idx = .ok (idx+(l.takeWhile (· ∈ cache)).length) := by
  induction l generalizing idx with
  | nil => exact absurd rfl hleft
  | cons i l ih =>
    unfold skipCached
    rw [readAt_eq (hcached i (hl i List.mem_cons_self))]
    by_cases hi : i ∈ cache
    · have hdec : decide (i ∈ cache) = true := decide_eq_true hi
      have hdrop : (i :: l).dropWhile (· ∈ cache) = l.dropWhile (· ∈ cache) :=
        List.dropWhile_cons_of_pos hdec
      have htake : (i :: l).takeWhile (· ∈ cache) = i :: l.takeWhile (· ∈ cache) :=
        List.takeWhile_cons_of_pos hdec
      rw [hdrop] at hleft
      rw [htake, hdec, List.length_cons]
      refine (ih (fun j hj => hl j (List.mem_cons_of_mem _ hj)) (idx+1) hleft).trans ?_
      rw [Nat.add_assoc, Nat.add_comm 1]
    · have hdec : decide (i ∈ cache) = false := decide_eq_false hi
      have htake : (i :: l).takeWhile (· ∈ cache) = [] :=
        List.takeWhile_cons_of_neg (by simpa using hi)
      rw [htake, hdec]
      rfl

/-- The scores are those of `f`, and none is above its bound when all of `l` have been added. -/
structure Scored (triples : List (Triple ScTemplateArg)) (l : List ℕ) (bound : ℕ → ℕ)
    (f : ℕ → BitVec 8)
    (scores : List (BitVec 8)) : Prop where
  score : ∀ i < triples.length, scores[i]? = some (f i)
  bounded : ∀ i < triples.length, (f i).toNat+5*l.countP (·/4 = i) ≤ bound i

theorem raise_le (idx : ℕ) : (if idx = 1 then kScoreEdge else kScoreOther).toNat ≤ 5 := by
  split_ifs <;> decide

/-- The loop over the dependent triples stays within the vectors and the eight bits. -/
theorem raiseTripleScores_eq {bound : ℕ → ℕ} (hbound : ∀ i, bound i < 2^8)
    (hcached : Cached triples cache cached) (hl : ∀ idx ∈ l, idx/4 < triples.length) {f : ℕ → BitVec 8}
    (hscored : Scored triples l bound f scores) {best : ℕ} (hbest : best < triples.length) :
    ∃ scores', raiseTripleScores cached l scores best =
      .ok (scores', (raiseScores cache l f best).2) ∧
      Scored triples [] bound (raiseScores cache l f best).1 scores' := by
  induction l generalizing scores f best with
  | nil => exact ⟨scores, rfl, hscored⟩
  | cons idx l ih =>
    have hidx := hl idx List.mem_cons_self
    have hl' : ∀ j ∈ l, j/4 < triples.length := fun j hj => hl j (List.mem_cons_of_mem _ hj)
    unfold raiseTripleScores raiseScores
    dsimp only
    rw [readAt_eq (hcached _ hidx)]
    by_cases hin : idx/4 ∈ cache
    · rw [if_pos hin, decide_eq_true hin]
      refine ih hl' ⟨hscored.score, fun i hi => ?_⟩ hbest
      have hle := hscored.bounded i hi
      rw [List.countP_cons] at hle
      omega
    · have hk := raise_le idx
      generalize (if idx = 1 then kScoreEdge else kScoreOther) = k at hk
      have hfit : (f (idx/4)).toNat+k.toNat < 2^8 := by
        have hle := hscored.bounded _ hidx
        rw [List.countP_cons_of_pos (by simp)] at hle
        have hlt := hbound (idx/4)
        omega
      have hadd : (f (idx/4)+k).toNat = (f (idx/4)).toNat+k.toNat := by
        rw [BitVec.toNat_add]
        exact Nat.mod_eq_of_lt hfit
      have hnext : Scored triples l bound (Function.update f (idx/4) (f (idx/4)+k))
          (scores.set (idx/4) (f (idx/4)+k)) := by
        refine ⟨fun i hi => ?_, fun i hi => ?_⟩
        · have hlt := (List.getElem?_eq_some_iff.mp (hscored.score i hi)).1
          rw [List.getElem?_set, Function.update_apply]
          by_cases heq : idx/4 = i
          · subst heq
            rw [if_pos rfl, if_pos hlt, if_pos rfl]
          · rw [if_neg heq, if_neg fun h => heq h.symm]
            exact hscored.score i hi
        · have hle := hscored.bounded i hi
          rw [Function.update_apply]
          by_cases heq : idx/4 = i
          · subst heq
            rw [List.countP_cons_of_pos (by simp)] at hle
            rw [if_pos rfl, hadd]
            omega
          · rw [List.countP_cons_of_neg (by simpa using heq)] at hle
            rwa [if_neg fun h => heq h.symm]
      rw [if_neg hin]
      have hsum : addScore (f (idx/4)) k = .ok (f (idx/4)+k) := if_pos hfit
      obtain ⟨scores', hrun, hdone⟩ := @ih _ hl' _ hnext (if
        Function.update f (idx/4) (f (idx/4)+k) best < Function.update f (idx/4) (f (idx/4)+k) (idx/4)
          then idx/4 else best) (by split_ifs <;> assumption)
      refine ⟨scores', ?_, hdone⟩
      rw [← hrun]
      simp only [decide_eq_false hin, Bool.false_eq_true, if_false, bind, Except.bind, hsum,
        readAt_eq (hscored.score _ hidx), writeAt_eq (hscored.score _ hidx),
        readAt_eq (hnext.score _ hbest),
        readAt_eq (hnext.score _ hidx)]

/-- The vectors hold what the state of the loop does, and no score can overflow any more. -/
structure Simulates (triples : List (Triple ScTemplateArg)) (preCache : List ℕ) (v : OrderVectors)
    (s : OrderState) : Prop where
  order : v.processOrder.take v.orderIdx = s.cache.reverse
  orderIdx : v.orderIdx = s.cache.length
  orderLength : v.processOrder.length = triples.length
  cached : Cached triples s.cache v.isTripleCached
  scored : ∀ i < triples.length, v.tripleScores[i]? = some (s.tripleScores i)
  bounded : ∀ i < triples.length,
    (s.tripleScores i).toNat ≤ 5+5*(usedEntries triples s.usedReplacements).countP (·/4 = i)
  used : v.usedReplacements = s.usedReplacements
  usedNodup : s.usedReplacements.Nodup
  left : (preCache.drop v.preCacheIdx).dropWhile (· ∈ s.cache) = s.left

variable {lib : LibraryOrder} {preCache : List ℕ} {vs : OrderVectors} {s : OrderState} {k : ℕ}

/-- The next triple that has not been taken up is found in `preCache`. -/
theorem Simulates.skip (h : Simulates triples preCache vs s)
    (hpre : ∀ i ∈ preCache, i < triples.length)
    {head : ℕ} {rest : List ℕ} (hleft : s.left = head :: rest) :
    ∃ idx, skipCached vs.isTripleCached (preCache.drop vs.preCacheIdx) vs.preCacheIdx = .ok idx ∧
      preCache.drop idx = head :: rest := by
  have hl : ∀ i ∈ preCache.drop vs.preCacheIdx, i < triples.length :=
    fun i hi => hpre i (List.mem_of_mem_drop hi)
  have hdrop := h.left
  rw [hleft] at hdrop
  refine ⟨_, skipCached_eq h.cached hl vs.preCacheIdx (by rw [hdrop]; exact List.cons_ne_nil _ _), ?_⟩
  have happ := List.takeWhile_append_dropWhile (p := fun i => decide (i ∈ s.cache))
    (l := preCache.drop vs.preCacheIdx)
  rw [← List.drop_drop]
  nth_rewrite 2 [← happ]
  rw [List.drop_left, hdrop]

theorem Simulates.current (h : Simulates triples preCache vs s) (hs : s.cache ≠ []) :
    vs.processOrder[vs.orderIdx-1]? = some (s.cache.headD 0) := by
  have hpos := List.length_pos_of_ne_nil hs
  have hlt : vs.orderIdx-1 < vs.orderIdx := by
    rw [h.orderIdx]
    omega
  have hzero : s.cache.length-1-(s.cache.length-1) = 0 := Nat.sub_self _
  rw [← List.getElem?_take_of_lt hlt, h.order, h.orderIdx, List.getElem?_reverse (by omega), hzero]
  obtain ⟨i, l, hl⟩ := List.exists_cons_of_ne_nil hs
  rw [hl]
  rfl

/-- The entries that are added in a round. -/
theorem resolved_scored (lib : LibraryOrder) (names : List String) {f : ℕ → BitVec 8}
    (hnodup : used.Nodup) (hscored : ∀ i < triples.length, scores[i]? = some (f i))
    (hbounded : ∀ i < triples.length, (f i).toNat ≤ 5+5*(usedEntries triples used).countP (·/4 = i)) :
    Scored triples (lib.setOrder (resolvedTriples triples names used).1)
      (fun i => 5+5*(usedEntries triples (resolvedTriples triples names used).2).countP (·/4 = i))
      f scores := by
  obtain ⟨hnodup', hperm⟩ := @resolvedTriples_used triples _ names hnodup
  refine ⟨hscored, fun i hi => ?_⟩
  have hall := hperm.nodup_iff.mp (usedEntries_nodup hnodup')
  have hset := lib.setOrder_perm (resolvedTriples triples names used).1
  rw [(List.nodup_append.mp hall).1.dedup] at hset
  have hle := hbounded i hi
  rw [hperm.countP_eq, List.countP_append, hset.countP_eq]
  omega

theorem Simulates.round (h : Simulates triples preCache vs s)
    (hpre : ∀ i ∈ preCache, i < triples.length)
    (hinv : OrderInv triples k s) (hk : k < triples.length) (hs : s.cache ≠ []) :
    ∃ vs', orderVectorsRound lib triples preCache vs = .ok vs' ∧
      Simulates triples preCache vs' (orderRound lib triples s) := by
  obtain ⟨head, rest, hleft, _, hhead⟩ := hinv.left_cons hk
  obtain ⟨idx, hskip, hdrop⟩ := h.skip hpre hleft
  have hnext : preCache[idx]? = some head := by
    rw [← Nat.add_zero idx, ← List.getElem?_drop, hdrop]
    rfl
  have hmem : s.cache.headD 0 ∈ s.cache := by
    obtain ⟨i, l, hl⟩ := List.exists_cons_of_ne_nil hs
    rw [hl]
    exact List.mem_cons_self
  have hcur := hinv.range _ hmem
  have hlast : lastNames triples s =
      (triples[s.cache.headD 0].toList.map (·.replacementName)).filter (· != "") := by
    unfold lastNames
    rw [List.getElem?_eq_getElem hcur]
    rfl
  have hround : orderRound lib triples s =
      let r := resolvedTriples triples (lastNames triples s) s.usedReplacements
      let raised := raiseScores s.cache (lib.setOrder r.1) s.tripleScores (s.left.headD 0)
      ⟨raised.2 :: s.cache, s.left, raised.1, r.2⟩ := rfl
  have hnew := @OrderInv.round lib _ _ _ hinv hk
  rw [hround, hleft, List.headD_cons] at hnew ⊢
  generalize hr : resolvedTriples triples (lastNames triples s) s.usedReplacements = r at hnew ⊢
  have hscored := resolved_scored lib (lastNames triples s) h.usedNodup h.scored h.bounded
  have hused := @resolvedTriples_used triples _ (lastNames triples s) h.usedNodup
  rw [hr] at hscored hused
  have hl : ∀ p ∈ lib.setOrder r.1, p/4 < triples.length := by
    intro p hp
    rw [(lib.setOrder_perm r.1).mem_iff, List.mem_dedup, ← hr] at hp
    obtain ⟨name, _, hdep⟩ := mem_resolvedTriples hp
    obtain ⟨t, _, ht, _⟩ := replDepend_item hdep
    exact (List.getElem?_eq_some_iff.mp ht).1
  have hbound (i : ℕ) : 5+5*(usedEntries triples r.2).countP (·/4 = i) < 2^8 := by
    have hle := @usedEntries_count triples _ hused.1 i
    omega
  obtain ⟨scores', hraise, hdone⟩ := raiseTripleScores_eq hbound h.cached hl hscored hhead
  dsimp only at hnew ⊢
  generalize hraised : raiseScores s.cache (lib.setOrder r.1) s.tripleScores head =
    raised at hnew hraise hdone ⊢
  have hbest : raised.2 < triples.length := hnew.range _ List.mem_cons_self
  have horder : vs.orderIdx < vs.processOrder.length := by
    rw [h.orderIdx, hinv.length, h.orderLength]
    exact hk
  refine ⟨⟨vs.processOrder.set vs.orderIdx raised.2, vs.isTripleCached.set raised.2 true, scores',
    r.2, idx, vs.orderIdx+1⟩, ?_, ?_⟩
  · unfold orderVectorsRound
    rw [readAt_eq (h.current hs), h.used]
    simp only [bind, Except.bind, readAt_eq (List.getElem?_eq_getElem hcur), ← hlast, hr, hskip,
      readAt_eq hnext, hraise, writeAt_eq (List.getElem?_eq_getElem horder), writeAt_eq (h.cached _ hbest)]
    rfl
  · constructor
    case order =>
      rw [List.take_add_one, List.getElem?_set_self horder, List.take_set_of_le le_rfl, h.order]
      exact List.reverse_cons.symm
    case orderIdx => rw [h.orderIdx, List.length_cons]
    case orderLength => rw [List.length_set, h.orderLength]
    case cached =>
      intro i hi
      have hlt := (List.getElem?_eq_some_iff.mp (h.cached i hi)).1
      rw [List.getElem?_set]
      by_cases heq : raised.2 = i
      · rw [if_pos heq, ← heq, if_pos (heq ▸ hlt)]
        simp
      · have hne : ¬ i = raised.2 := fun h => heq h.symm
        rw [if_neg heq, h.cached i hi]
        simp [hne]
    case scored => exact hdone.score
    case bounded =>
      intro i hi
      exact (Nat.add_zero _).symm.le.trans (hdone.bounded i hi)
    case used => rfl
    case usedNodup => exact hused.1
    case left =>
      rw [hdrop, ← hleft]
      rfl

/-- The loop takes up what the abstract rounds do. -/
theorem Simulates.rounds (hpre : ∀ i ∈ preCache, i < triples.length) (m : ℕ)
    (h : Simulates triples preCache vs s) (hinv : OrderInv triples k s) (hk : k+m = triples.length)
    (hs : s.cache ≠ []) {fuel : ℕ} (hfuel : m < fuel) :
    loop (orderVectorsBody lib triples preCache) fuel vs =
      some (.ok ((orderRound lib triples)^[m] s).cache.reverse) := by
  induction m generalizing vs s k fuel with
  | zero =>
    obtain ⟨fuel, rfl⟩ := Nat.exists_eq_add_of_lt hfuel
    have hdone : ¬ vs.orderIdx < vs.processOrder.length := by
      rw [h.orderIdx, hinv.length, h.orderLength]
      omega
    have hall := h.order
    rw [List.take_of_length_le (not_lt.mp hdone)] at hall
    rw [loop, orderVectorsBody, if_neg hdone, hall]
    rfl
  | succ m ih =>
    obtain ⟨fuel, rfl⟩ : ∃ f, fuel = f+1 := ⟨fuel-1, by omega⟩
    have hmore : vs.orderIdx < vs.processOrder.length := by
      rw [h.orderIdx, hinv.length, h.orderLength]
      omega
    have hround := @Simulates.round triples lib preCache vs s k h hpre hinv (by omega) hs
    obtain ⟨vs', hrun, hnext⟩ := hround
    have hcons : (orderRound lib triples s).cache ≠ [] := by
      obtain ⟨best, hcache, _⟩ := orderRound_best lib triples s
      rw [hcache]
      exact List.cons_ne_nil _ _
    rw [loop, orderVectorsBody, if_pos hmore, hrun, Function.iterate_succ_apply]
    exact ih hnext (hinv.round (by omega)) (by omega) hcons (by omega)

theorem orderVectorsStart_eq {first : ℕ} {rest : List ℕ}
    (hperm : (first :: rest).Perm (List.range triples.length)) :
    ∃ vs, orderVectorsStart triples (first :: rest) = .ok vs ∧
      Simulates triples (first :: rest) vs (orderStart triples first rest) := by
  have hlen : (first :: rest).length = triples.length := by rw [hperm.length_eq, List.length_range]
  have hfirst : first < triples.length := List.mem_range.mp (hperm.mem_iff.mp List.mem_cons_self)
  have hpos : 0 < triples.length := by omega
  have hzero : (List.replicate triples.length 0)[0]? = some 0 := by simp [hpos]
  have hfalse : (List.replicate triples.length false)[first]? = some false := by simp [hfirst]
  refine ⟨⟨(List.replicate triples.length 0).set 0 first,
    (List.replicate triples.length false).set first true, triples.map calculateScore, [], 1, 1⟩, ?_, ?_⟩
  · unfold orderVectorsStart
    have hread : readAt (first :: rest) 0 = .ok first := rfl
    simp only [bind, Except.bind, hread, hlen, writeAt_eq hzero, writeAt_eq hfalse]
    rfl
  · constructor
    case order =>
      obtain ⟨n, hn⟩ : ∃ n, triples.length = n+1 := ⟨triples.length-1, by omega⟩
      rw [hn]
      rfl
    case orderIdx => rfl
    case orderLength => rw [List.length_set, List.length_replicate]
    case cached =>
      intro i hi
      rw [List.getElem?_set]
      by_cases heq : first = i
      · rw [if_pos heq, if_pos (by rw [List.length_replicate]; exact hfirst)]
        simp [orderStart, heq]
      · have hne : ¬ i = first := fun h => heq h.symm
        rw [if_neg heq]
        simp [orderStart, hne, hi]
    case scored =>
      intro i hi
      simp [orderStart, hi]
    case bounded =>
      intro i hi
      have hle (t : Triple ScTemplateArg) : (calculateScore t).toNat ≤ 5 := by
        unfold calculateScore
        split_ifs <;> decide
      have hscore : (orderStart triples first rest).tripleScores i = calculateScore triples[i] := by
        simp [orderStart, hi]
      rw [hscore]
      exact (hle _).trans (Nat.le_add_right _ _)
    case used => rfl
    case usedNodup => exact List.nodup_nil
    case left =>
      have hskip : (first :: rest).dropWhile (· ∈ [first]) = rest.dropWhile (· ∈ [first]) :=
        List.dropWhile_cons_of_pos (by simp)
      exact hskip.symm

/-- On vectors the order is the same: no access is out of range and no score overflows. -/
theorem updateSearchCacheVectors_eq (lib : LibraryOrder) (triples : List (Triple ScTemplateArg))
    {fuel : ℕ}
    (hfuel : triples.length < fuel) :
    updateSearchCacheVectors lib triples fuel = some (.ok (updateSearchCache lib triples)) := by
  by_cases hnil : triples = []
  · subst hnil
    have hempty := updateSearchCache_perm lib []
    unfold updateSearchCacheVectors
    rw [if_pos rfl, List.perm_nil.mp hempty]
  · have hpos := List.length_pos_of_ne_nil hnil
    have hscores : (fun i => (triples.map calculateScore).getD i 0) =
        fun i => (triples[i]?.map calculateScore).getD 0 := by
      funext i
      rw [List.getD_eq_getElem?_getD, List.getElem?_map]
    have hperm := lib.sort_perm (fun i => (triples[i]?.map calculateScore).getD 0)
      (List.range triples.length)
    unfold updateSearchCacheVectors updateSearchCache
    rw [if_neg hnil, hscores]
    dsimp only
    generalize hsort : lib.sort (fun i => (triples[i]?.map calculateScore).getD 0)
      (List.range triples.length) = preCache at hperm
    cases preCache with
    | nil =>
      rw [List.range_eq_nil.mp hperm.nil_eq.symm] at hpos
      omega
    | cons first rest =>
      obtain ⟨vs, hstart, hsim⟩ := orderVectorsStart_eq hperm
      have hpre : ∀ i ∈ first :: rest, i < triples.length :=
        fun i hi => List.mem_range.mp (hperm.mem_iff.mp hi)
      rw [hstart]
      exact hsim.rounds hpre (triples.length-1) (orderStart_inv hsort) (by omega)
        (List.cons_ne_nil _ _) (by omega)

/-- The order of a search is found in the end, without an access out of range and without an
overflow of a score, and has each triple once. -/
theorem updateSearchCache_exact (lib : LibraryOrder) (triples : List (Triple ScTemplateArg)) :
    ∃ n order, (∀ fuel ≥ n, updateSearchCacheVectors lib triples fuel = some (.ok order)) ∧
      order.Perm (List.range triples.length) :=
  ⟨triples.length+1, updateSearchCache lib triples, fun _ hfuel =>
    updateSearchCacheVectors_eq lib triples hfuel,
    updateSearchCache_perm lib triples⟩

end

end ScMachine.Template
