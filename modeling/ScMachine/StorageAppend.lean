import ScMachine.StorageLocks

/-! The loop of `sc_storage_append_el_into_segments`: one rule for every property of it, and the
locks that it leaves. -/
namespace ScMachine.Store
open ScMachine.StateExcept

/-- Everything but the cache of segments is the same. -/
structure CacheOnly (st st' : ScStorage) : Prop where
  segments : st'.segments = st.segments
  segmentsNum : st'.segmentsNum = st.segmentsNum
  fileMemory : st'.fileMemory = st.fileMemory
  emitted : st'.emitted = st.emitted

theorem CacheOnly.refl (st : ScStorage) : CacheOnly st st := ⟨rfl, rfl, rfl, rfl⟩

theorem CacheOnly.trans {a b c : ScStorage} (h : CacheOnly a b) (h' : CacheOnly b c) :
    CacheOnly a c :=
  ⟨h'.segments.trans h.segments, h'.segmentsNum.trans h.segmentsNum,
    h'.fileMemory.trans h.fileMemory, h'.emitted.trans h.emitted⟩

theorem cacheAppend_cacheOnly (env : ScEnv) (n : ℕ) (st : ScStorage) :
    CacheOnly st (scSegmentCacheAppend env n st) := by
  unfold scSegmentCacheAppend
  split
  · exact ⟨rfl, rfl, rfl, rfl⟩
  · exact CacheOnly.refl st

theorem cacheRemove_cacheOnly (ctx : ScContext) (n : ℕ) (st : ScStorage) :
    CacheOnly st (scSegmentCacheRemove ctx n st) := by
  unfold scSegmentCacheRemove
  split
  · exact ⟨rfl, rfl, rfl, rfl⟩
  · exact CacheOnly.refl st

/-- What a segment with an empty slot being put into the cache keeps is kept by the whole loop. -/
theorem cacheUpdateLoop_keeps {P : ScStorage → Prop} (env : ScEnv)
    (happend : ∀ i seg st, st.segments i = some seg → P st → P (scSegmentCacheAppend env i st))
    (is : List ℕ) (st : ScStorage) (h : P st) : P (cacheUpdateLoop env is st) := by
  induction is generalizing st with
  | nil => exact h
  | cons i is ih =>
    unfold cacheUpdateLoop
    cases hi : st.segments i with
    | none =>
      simp only
      split_ifs
      · exact h
      · exact ih st h
    | some seg =>
      have hadd := happend i seg st hi h
      simp only
      split_ifs
      · exact hadd
      · exact ih _ hadd
      · exact h
      · exact ih st h

theorem cacheUpdateLoop_cacheOnly (env : ScEnv) (is : List ℕ) (st : ScStorage) :
    CacheOnly st (cacheUpdateLoop env is st) :=
  cacheUpdateLoop_keeps env (fun i _ s _ hs => hs.trans (cacheAppend_cacheOnly env i s)) is st
    (CacheOnly.refl st)

theorem cacheUpdate_cacheOnly (env : ScEnv) (st : ScStorage) :
    CacheOnly st (scSegmentCacheUpdate env st) :=
  cacheUpdateLoop_cacheOnly env _ st

/-- The store after `_sc_segment_cache_get` has made a new segment. -/
def ScStorage.withNewSegment (st : ScStorage) : ScStorage :=
  { st.setSegment st.segmentsNum (scSegmentNew st.segmentsNum) with
    segmentsNum := st.segmentsNum+1 }

/-- The store after a call of `_sc_segment_cache_get` that found nothing in the cache. -/
def ScStorage.refilled (env : ScEnv) (st : ScStorage) : ScStorage :=
  scSegmentCacheAppend env st.segmentsNum (scSegmentCacheUpdate env st).withNewSegment

theorem refilled_cacheOnly (env : ScEnv) (st : ScStorage) :
    CacheOnly st.withNewSegment (st.refilled env) := by
  have hup := cacheUpdate_cacheOnly env st
  refine CacheOnly.trans ?_ (cacheAppend_cacheOnly env _ _)
  refine ⟨?_, ?_, hup.fileMemory, hup.emitted⟩
  · show Function.update (scSegmentCacheUpdate env st).segments _ _ = _
    rw [hup.segments, hup.segmentsNum]
    rfl
  · show (scSegmentCacheUpdate env st).segmentsNum+1 = _
    rw [hup.segmentsNum]
    rfl

/-- Either a cached segment is taken, or a new one is made. -/
theorem cacheGet_wp (env : ScEnv) (ctx : ScContext) (st : ScStorage) (Q : ℕ → ScStorage → Prop)
    (E : ScStop → Prop) (hcached : ∀ n, st.cachedSegment ctx = some n → Q n st)
    (hnew : st.cachedSegment ctx = none → st.segmentsNum < 65535 →
      Q st.segmentsNum (st.refilled env))
    (habort : st.cachedSegment ctx = none → 65535 ≤ st.segmentsNum → E .abort) :
    Wp (scSegmentCacheGet env ctx) Q E st := by
  unfold scSegmentCacheGet
  rw [wp_bind, wp_get]
  cases hc : st.cachedSegment ctx with
  | some n =>
    rw [wp_pure]
    exact hcached n hc
  | none =>
    have hup := cacheUpdate_cacheOnly env st
    simp only [wp_bind, wp_modify, wp_get, hup.segmentsNum, scAssert, wp_ite, wp_pure, wp_throw,
      decide_eq_true_eq, scAddrSegMax, not_lt]
    refine ⟨?_, habort hc⟩
    intro hlt
    have h := hnew hc hlt
    unfold ScStorage.refilled ScStorage.withNewSegment at h
    rw [hup.segmentsNum] at h
    exact h

/-- The rule for the loop: `P` is kept by every failed attempt, `Q` holds when a cell is handed
out. -/
theorem appendElLoop_wp (env : ScEnv) (ctx : ScContext) (P : ScStorage → Prop)
    (Q : ScAddr → ScStorage → Prop) (E : ScStop → Prop)
    (hget : ∀ st, P st → Wp (scSegmentCacheGet env ctx) (fun _ st' => P st') E st)
    (hnull : ∀ st n, P st → st.segments n = none → E .abort)
    (hstop : ∀ st n seg e, P st → st.segments n = some seg →
      scSegmentLockEmptyElement env.thread ctx.id seg = .error e → E e)
    (hmeta : ∀ st n seg offset seg', P st → st.segments n = some seg →
      scSegmentLockEmptyElement env.thread ctx.id seg = .ok (some offset, seg') →
      scSegmentMetaOk env.thread seg' offset = false → E .abort)
    (hsome : ∀ st n seg offset seg', P st → st.segments n = some seg →
      scSegmentLockEmptyElement env.thread ctx.id seg = .ok (some offset, seg') →
      Q ⟨BitVec.ofNat 16 seg'.num, BitVec.ofNat 16 offset⟩
        (st.setSegment n (seg'.prepareCell ctx offset)))
    (hnone : ∀ st n seg seg', P st → st.segments n = some seg →
      scSegmentLockEmptyElement env.thread ctx.id seg = .ok (none, seg') →
      P (scSegmentCacheRemove ctx n (st.setSegment n seg')))
    (hfuel : E .diverge) (fuel : ℕ) (st : ScStorage) (h : P st) :
    Wp (appendElLoop env ctx fuel) (fun r st' => ∃ a, r = some a ∧ Q a st') E st := by
  induction fuel generalizing st with
  | zero => exact hfuel
  | succ fuel ih =>
    unfold appendElLoop
    rw [wp_bind]
    refine wp_mono (hget st h) ?_ (fun _ he => he)
    intro n st1 h1
    rw [wp_bind, wp_get]
    cases hn : st1.segments n with
    | none => exact hnull st1 n h1 hn
    | some seg =>
      simp only
      cases hr : scSegmentLockEmptyElement env.thread ctx.id seg with
      | error e => exact hstop st1 n seg e h1 hn hr
      | ok r =>
        obtain ⟨_ | offset, seg'⟩ := r
        · simp only [wp_bind, wp_modify]
          exact ih _ (hnone st1 n seg seg' h1 hn hr)
        · simp only [wp_bind, wp_modify, wp_pure, scAssert, wp_ite, wp_throw]
          refine ⟨fun _ => ⟨_, rfl, hsome st1 n seg offset seg' h1 hn hr⟩, ?_⟩
          intro hm
          exact hmeta st1 n seg offset seg' h1 hn hr (by simpa using hm)

/-- A section that is locked and unlocked again is as it was. -/
theorem released_eq {thread : ℕ} {s : ScSegmentSection}
    (hl : Lockable thread (s.threadLock, s.lockCount)) : s.released thread = s := by
  obtain ⟨owner, ec, eo, count⟩ := s
  rcases hl with h0 | ⟨h1, hpos⟩
  · simp only [Prod.mk.injEq] at h0
    simp [ScSegmentSection.released, h0.1, h0.2]
  · simp only at h1 hpos
    simp [ScSegmentSection.released, h1, hpos.ne']

/-- A failed search leaves every lock word; a successful one takes the section of the cell. -/
theorem lockEmptyElement_words (thread ctxId : ℕ) (seg : ScSegment) (hr : HolesInRange seg)
    (hw : ∀ i, WordWf (seg.lockWord i)) :
    SearchPost
      (fun seg' => seg'.lockWord = seg.lockWord ∧ seg'.num = seg.num ∧ HolesInRange seg')
      (fun offset seg' => offset < 65535 ∧ Lockable thread (seg.lockWord (offset%32)) ∧
        seg'.lockWord = Function.update seg.lockWord (offset%32)
          (thread, (seg.lockWord (offset%32)).2+1) ∧ seg'.num = seg.num ∧ HolesInRange seg')
      True (scSegmentLockEmptyElement thread ctxId seg) := by
  refine lockEmptyElement_post thread ctxId
    (fun seg' => seg'.lockWord = seg.lockWord ∧ seg'.num = seg.num ∧ HolesInRange seg') _ _ ?_
    seg ⟨rfl, rfl, hr⟩
  intro i seg1 _ ⟨hw1, hn1, hr1⟩
  have hs : (ctxId+i)%32 < 32 := Nat.mod_lt _ (by omega)
  have hvr := visitSection_range thread ctxId i seg1 hr1
  rw [visitSection_eq] at hvr ⊢
  simp only at hvr ⊢
  set s := (ctxId+i)%32
  obtain ⟨h0, hlt, hmod⟩ := hr1 s hs
  split_ifs at hvr ⊢ with hskip hneg hrange
  · exact ⟨hw1, hn1, hr1⟩
  · have hfree : Lockable thread (seg1.lockWord s) := by
      have hwf := hw s
      rw [← hw1] at hwf
      exact lockable_of_free hwf fun hh => hskip (Or.inr hh)
    refine ⟨?_, hn1, hvr⟩
    rw [← hw1]
    unfold ScSegment.release
    rw [released_eq hfree, Function.update_eq_self]
  · trivial
  · have hfree : Lockable thread (seg1.lockWord s) := by
      have hwf := hw s
      rw [← hw1] at hwf
      exact lockable_of_free hwf fun hh => hskip (Or.inr hh)
    split at hvr
    · rename_i j hj
      split_ifs at hvr ⊢
      · refine ⟨by omega, ?_, ?_, hn1, hvr⟩
        · have hos : (seg1.sections s).emptyOffset.toNat%32 = s := by omega
          rw [hos, ← hw1]
          exact hfree
        · have hos : (seg1.sections s).emptyOffset.toNat%32 = s := by omega
          rw [hos, ← hw1]
          funext t
          by_cases ht : t = s
          · subst ht
            simp [ScSegment.lockWord, ScSegment.take]
          · simp [ScSegment.lockWord, ScSegment.take, ht]
      · trivial
    · refine ⟨?_, hn1, hvr⟩
      rw [← hw1]
      funext t
      unfold ScSegment.miss
      rw [released_eq hfree]
      by_cases ht : t = s
      · subst ht
        simp [ScSegment.lockWord]
      · simp [ScSegment.lockWord, ht]

section
variable {thread : ℕ} {env : ScEnv} {L : SectionKey → LockWord} {as : List ScAddr}
  {st st' : ScStorage}

theorem Holds.cacheOnly (h : Holds thread L as st) (hc : CacheOnly st st') :
    Holds thread L as st' :=
  h.congr hc.segments hc.segmentsNum

theorem segmentNew_lockWord (n i : ℕ) : (scSegmentNew n).lockWord i = (0, 0) := by
  by_cases h0 : i = 0
  · subst h0
    by_cases hn : n = 0 <;> simp [ScSegment.lockWord, scSegmentNew, hn]
  · simp [ScSegment.lockWord, scSegmentNew, h0]

/-- A new segment is unlocked. -/
theorem Holds.withNewSegment (h : Holds thread L as st) (hlt : st.segmentsNum < 65535) :
    Holds thread L as st.withNewSegment := by
  have hfresh := h.segs.fresh st.segmentsNum le_rfl
  have hset (m : ℕ) (hm : m ≠ st.segmentsNum) : st.withNewSegment.segments m = st.segments m :=
    Function.update_of_ne hm _ _
  have hself : st.withNewSegment.segments st.segmentsNum = some (scSegmentNew st.segmentsNum) :=
    Function.update_self ..
  refine ⟨h.wf, ?_, h.lockable, ?_, ?_, ?_, ?_, hlt⟩
  · rw [← h.locks]
    funext k
    by_cases hk : k.1 = st.segmentsNum
    · simp only [ScStorage.locks, hk, hself, hfresh]
      exact segmentNew_lockWord _ _
    · simp only [ScStorage.locks, hset _ hk]
  · intro a ha
    obtain ⟨⟨seg, hs⟩, hoff⟩ := h.loaded a ha
    have hne : a.seg.toNat ≠ st.segmentsNum := by
      intro he
      rw [h.segs.segmentOf, he, hfresh] at hs
      simp at hs
    refine ⟨⟨seg, ?_⟩, hoff⟩
    simpa only [ScStorage.segmentOf, hset _ hne] using hs
  · intro m seg hm
    by_cases he : m = st.segmentsNum
    · rw [he, hself] at hm
      rw [← Option.some.inj hm, he]
      rfl
    · exact h.segs.num m seg (by rwa [hset m he] at hm)
  · intro m seg hm
    by_cases he : m = st.segmentsNum
    · rw [he, hself] at hm
      rw [← Option.some.inj hm]
      exact segmentNew_range _
    · exact h.segs.range m seg (by rwa [hset m he] at hm)
  · intro m hm
    have hm' : st.segmentsNum+1 ≤ m := hm
    rw [hset m (by omega)]
    exact h.segs.fresh m (by omega)

theorem cacheGet_holds (h : Holds thread L as st) (ctx : ScContext) :
    Wp (scSegmentCacheGet env ctx) (fun _ st' => Holds thread L as st') (fun _ => True) st := by
  apply cacheGet_wp
  · intro _ _
    exact h
  · intro _ hlt
    exact (h.withNewSegment hlt).cacheOnly (refilled_cacheOnly env st)
  · intro _ _
    trivial

theorem Holds.lockWord_wf (h : Holds thread L as st) (ht : thread ≠ 0) {n : ℕ} {seg : ScSegment}
    (hn : st.segments n = some seg) (i : ℕ) : WordWf (seg.lockWord i) := by
  rw [← locks_of_segment hn i]
  exact h.wf_now ht _

theorem toNat_ofNat16 (n : ℕ) (h : n < 65536) : (BitVec.ofNat 16 n).toNat = n := by
  rw [BitVec.toNat_ofNat]
  exact Nat.mod_eq_of_lt h

theorem Holds.segment_lt (h : Holds thread L as st) {n : ℕ} {seg : ScSegment}
    (hn : st.segments n = some seg) : n < 65535 := by
  by_contra hge
  have hnone := h.segs.fresh n (le_trans h.segs.bound (not_lt.mp hge))
  rw [hn] at hnone
  simp at hnone

/-- No cell is handed out exactly if no more segments may be loaded. -/
theorem appendEl_room (ctx : ScContext) (st : ScStorage) :
    IfReturns (scStorageAppendElIntoSegments env ctx) (fun r _ =>
      (r = none ∧ env.maxLoadedSegments ≤ st.segmentsNum) ∨
        ((∃ a, r = some a) ∧ st.segmentsNum < env.maxLoadedSegments)) st := by
  unfold scStorageAppendElIntoSegments
  simp only [IfReturns, wp_bind, wp_get, wp_ite, wp_pure]
  refine ⟨fun hfull => Or.inl ⟨trivial, hfull⟩, fun hroom => ?_⟩
  -- the loop ends with a cell or does not return
  have hsome : Wp (appendElLoop env ctx (scSegmentCacheSize+2)) (fun r _ => ∃ a, r = some a ∧ True)
      (fun _ => True) st := by
    apply appendElLoop_wp env ctx (fun _ => True) (fun _ _ => True) (fun _ => True)
    · intro s _
      exact cacheGet_wp env ctx s _ _ (fun _ _ => trivial) (fun _ _ => trivial) (fun _ _ => trivial)
    all_goals
      intros
      trivial
  apply wp_mono hsome _ (fun _ _ => trivial)
  rintro r _ ⟨a, ha, _⟩
  exact Or.inr ⟨⟨a, ha⟩, not_le.mp hroom⟩

/-- The cell that is handed out is locked, and nothing else is. -/
theorem appendEl_holds (h : Holds env.thread L as st) (ctx : ScContext) :
    Wp (scStorageAppendElIntoSegments env ctx)
      (fun r st' => Holds env.thread L (r.toList ++ as) st') (fun _ => True) st := by
  unfold scStorageAppendElIntoSegments
  simp only [wp_bind, wp_get, wp_ite, wp_pure]
  refine ⟨fun _ => h, fun _ => ?_⟩
  refine wp_mono (appendElLoop_wp env ctx (fun st' => Holds env.thread L as st')
    (fun a st' => Holds env.thread L (a :: as) st') (fun _ => True) ?_ ?_ ?_ ?_ ?_ ?_ trivial _ st h)
    ?_ (fun _ _ => trivial)
  · intro st1 h1
    exact cacheGet_holds h1 ctx
  · intros
    trivial
  · intros
    trivial
  · intros
    trivial
  · intro st1 n seg offset seg' h1 hn hr
    have hpost := lockEmptyElement_words env.thread ctx.id seg (h1.segs.range n seg hn)
      (h1.lockWord_wf env.thread_ne hn)
    rw [hr] at hpost
    obtain ⟨hoff, hlock, hw, hnum, hrange⟩ := hpost
    have hnn : seg'.num = n := by
      rw [hnum]
      exact h1.segs.num n seg hn
    have hlt := h1.segment_lt hn
    have hseg : (BitVec.ofNat 16 seg'.num).toNat = n := by
      rw [hnn]
      exact toNat_ofNat16 n (by omega)
    have ho : (BitVec.ofNat 16 offset).toNat = offset := toNat_ofNat16 offset (by omega)
    have hacq : Holds env.thread L (⟨BitVec.ofNat 16 seg'.num, BitVec.ofNat 16 offset⟩ :: as)
        (st1.setSegment (BitVec.ofNat 16 seg'.num).toNat (seg'.prepareCell ctx offset)) := by
      refine h1.acquire ?_ ?_ ?_ ?_ hnum hrange
      · exact hseg.symm ▸ hn
      · exact ho.symm ▸ hoff
      · exact ho.symm ▸ hlock
      · exact ho.symm ▸ hw
    rw [hseg] at hacq
    exact hacq
  · intro st1 n seg seg' h1 hn hr
    have hpost := lockEmptyElement_words env.thread ctx.id seg (h1.segs.range n seg hn)
      (h1.lockWord_wf env.thread_ne hn)
    rw [hr] at hpost
    obtain ⟨hw, hnum, hrange⟩ := hpost
    exact (h1.setSegment hn hw hnum hrange).cacheOnly (cacheRemove_cacheOnly ctx n _)
  · rintro r st' ⟨a, rfl, ha⟩
    exact ha

end

end ScMachine.Store
