import ScMachine.LockBalance
import ScMachine.StepInvariants

/-! When `sc_storage_append_el_into_segments` returns null or makes a new segment. -/
namespace ScMachine.Store
open ScMachine.StateExcept ScMachine.Runs

/-- The search of context `ctxId` in the segment comes to nothing: the segment counts no empty
slot, or no section that is visited yields a cell or fails an assertion. -/
def SearchFails (seg : ScSegment) (ctxId : ℕ) : Prop :=
  scSegmentHasEmptySlot seg = false ∨
    ∀ i < 32, ¬ SectionYields seg i ((ctxId+i)%32) ∧ ¬ SectionTraps seg ((ctxId+i)%32)

theorem searchFails_none (thread ctxId : ℕ) (seg : ScSegment) (h : HolesInRange seg)
    (hfree : NoContention thread seg) (hf : SearchFails seg ctxId) :
    ∃ seg', scSegmentLockEmptyElement thread ctxId seg = .ok (none, seg') ∧
      Missed thread seg seg' ∧ SearchFails seg' ctxId := by
  rcases hf with hslot | hnone
  · refine ⟨seg, ?_, ⟨rfl, rfl, fun _ => rfl, fun _ => le_rfl, hfree⟩, Or.inl hslot⟩
    simp [scSegmentLockEmptyElement, lockEmptyAttempts, hslot]
  · obtain ⟨seg', hl, hm⟩ := lockEmptyElement_none thread ctxId seg h hfree
      (fun i hi => (hnone i hi).1) (fun i hi => (hnone i hi).2)
    refine ⟨seg', hl, hm, Or.inr ?_⟩
    intro i hi
    exact ⟨fun hy => (hnone i hi).1 (hm.yields _ _ hy), fun ht => (hnone i hi).2 (hm.traps _ ht)⟩

theorem none_searchFails (thread ctxId : ℕ) (seg seg' : ScSegment) (h : HolesInRange seg)
    (hfree : NoContention thread seg)
    (hl : scSegmentLockEmptyElement thread ctxId seg = .ok (none, seg')) :
    SearchFails seg ctxId := by
  by_contra hf
  obtain ⟨hslot, hex⟩ : scSegmentHasEmptySlot seg = true ∧ ∃ i, i < 32 ∧
      (SectionTraps seg ((ctxId+i)%32) ∨ SectionYields seg i ((ctxId+i)%32)) := by
    unfold SearchFails at hf
    push Not at hf
    obtain ⟨hslot, i, hi, hd⟩ := hf
    refine ⟨by simpa using hslot, i, hi, ?_⟩
    by_cases hy : SectionYields seg i ((ctxId+i)%32)
    · exact Or.inr hy
    · exact Or.inl (hd hy)
  classical
  -- the first section that yields or traps decides the first pass
  have hD := Nat.find_spec hex
  have hmin (i : ℕ) (hi : i < Nat.find hex) : ¬ SectionTraps seg ((ctxId+i)%32) ∧
      ¬ SectionYields seg i ((ctxId+i)%32) := by
    have hni := Nat.find_min hex hi
    have hlt : i < 32 := lt_trans hi hD.1
    exact ⟨fun hh => hni ⟨hlt, Or.inl hh⟩, fun hh => hni ⟨hlt, Or.inr hh⟩⟩
  obtain ⟨htrap, hyield⟩ := visitSections_decided thread ctxId 32 seg (Nat.find hex) le_rfl
    ⟨by omega, hD.1⟩ h hfree (fun i _ hi => hmin i hi)
  simp only [scSegmentLockEmptyElement, scConcurrencyLevel, lockEmptyAttempts, hslot,
    if_true] at hl
  by_cases ht : SectionTraps seg ((ctxId+Nat.find hex)%32)
  · rw [htrap ht] at hl
    exact absurd hl (by simp [bind, Except.bind])
  · obtain ⟨offset, seg1, hv⟩ := hyield ht (hD.2.resolve_left ht)
    rw [hv] at hl
    exact absurd hl (by simp [bind, Except.bind])

/-- The slots of the cache that hold a segment. -/
def ScStorage.cached (st : ScStorage) : Finset ℕ :=
  (Finset.range 32).filter fun k => st.segmentsCache k ≠ none

/-- The count is that of the entries, and every entry is a segment of the store. -/
structure CacheWf (st : ScStorage) : Prop where
  count : st.segmentsCacheCount = st.cached.card
  loaded : ∀ k n, st.segmentsCache k = some n → ∃ seg, st.segments n = some seg

theorem cacheSlot_some {st : ScStorage} {start k : ℕ} {entry : Option ℕ}
    (h : st.cacheSlot start entry = some k) : k < 32 ∧ st.segmentsCache k = entry := by
  unfold ScStorage.cacheSlot at h
  have hmem := List.mem_of_find?_eq_some h
  have hp := List.find?_some h
  obtain ⟨i, -, rfl⟩ := List.mem_map.mp hmem
  exact ⟨Nat.mod_lt _ (by decide), by simpa using hp⟩

theorem cacheSlot_none {st : ScStorage} {start : ℕ} {entry : Option ℕ}
    (h : st.cacheSlot start entry = none) (k : ℕ) (hk : k < 32) : st.segmentsCache k ≠ entry := by
  unfold ScStorage.cacheSlot at h
  rw [List.find?_eq_none] at h
  have hmem : k ∈ (List.range scSegmentCacheSize).map fun i => (start+i)%scSegmentCacheSize := by
    refine List.mem_map.mpr ⟨(k+32-start%32)%32, ?_, ?_⟩
    · exact List.mem_range.mpr (Nat.mod_lt _ (by omega))
    · simp only [scSegmentCacheSize]
      omega
  simpa using h k hmem

theorem CacheWf.segments {st st' : ScStorage} (h : CacheWf st)
    (hcache : st'.segmentsCache = st.segmentsCache)
    (hcount : st'.segmentsCacheCount = st.segmentsCacheCount)
    (hseg : ∀ n seg, st.segments n = some seg → ∃ seg', st'.segments n = some seg') :
    CacheWf st' := by
  refine ⟨?_, ?_⟩
  · simp only [ScStorage.cached, hcache, hcount]
    exact h.count
  · intro k n hk
    rw [hcache] at hk
    obtain ⟨seg, hn⟩ := h.loaded k n hk
    exact hseg n seg hn

theorem CacheWf.append {st : ScStorage} (h : CacheWf st) (env : ScEnv) (n : ℕ)
    (hn : ∃ seg, st.segments n = some seg) : CacheWf (scSegmentCacheAppend env n st) := by
  unfold scSegmentCacheAppend
  cases hs : st.cacheSlot (env.thread%scSegmentCacheSize) none with
  | none => exact h
  | some k =>
    obtain ⟨hk, hnone⟩ := cacheSlot_some hs
    refine ⟨?_, ?_⟩
    · have hset : ({ st with
          segmentsCache := Function.update st.segmentsCache k (some n)
          segmentsCacheCount := st.segmentsCacheCount+1 } : ScStorage).cached =
          insert k st.cached := by
        ext m
        by_cases hm : m = k
        · subst hm
          simp [ScStorage.cached, hk]
        · simp [ScStorage.cached, hm]
      have hnot : k ∉ st.cached := by simp [ScStorage.cached, hnone]
      rw [hset, Finset.card_insert_of_notMem hnot]
      push_cast
      rw [← h.count]
    · intro m n' hm
      by_cases hmk : m = k
      · subst hmk
        simp only [Function.update_self, Option.some.injEq] at hm
        exact hm ▸ hn
      · simp only [Function.update_of_ne hmk] at hm
        exact h.loaded m n' hm

theorem CacheWf.remove {st : ScStorage} (h : CacheWf st) (ctx : ScContext) (n : ℕ) :
    CacheWf (scSegmentCacheRemove ctx n st) := by
  unfold scSegmentCacheRemove
  cases hs : st.cacheSlot (ctx.id%scSegmentCacheSize) (some n) with
  | none => exact h
  | some k =>
    obtain ⟨hk, hsome⟩ := cacheSlot_some hs
    have hin : k ∈ st.cached := by simp [ScStorage.cached, hk, hsome]
    have hpos : 0 < st.cached.card := Finset.card_pos.mpr ⟨k, hin⟩
    refine ⟨?_, ?_⟩
    · have hset : ({ st with
          segmentsCache := Function.update st.segmentsCache k none
          segmentsCacheCount := st.segmentsCacheCount-1 } : ScStorage).cached =
          st.cached.erase k := by
        ext m
        by_cases hm : m = k
        · subst hm
          simp [ScStorage.cached]
        · simp [ScStorage.cached, hm]
      rw [hset, Finset.card_erase_of_mem hin]
      have hc := h.count
      simp only
      omega
    · intro m n' hm
      by_cases hmk : m = k
      · subst hmk
        simp at hm
      · simp only [Function.update_of_ne hmk] at hm
        exact h.loaded m n' hm

section
variable {env : ScEnv} {st : ScStorage}

theorem CacheWf.setSegment (h : CacheWf st) (n : ℕ) (seg : ScSegment) :
    CacheWf (st.setSegment n seg) := by
  refine h.segments rfl rfl ?_
  intro m s hm
  by_cases hmn : m = n
  · exact ⟨seg, by simp [ScStorage.setSegment, hmn]⟩
  · exact ⟨s, by simpa [ScStorage.setSegment, hmn] using hm⟩

theorem CacheWf.cacheUpdateLoop (env : ScEnv) (is : List ℕ) (st : ScStorage) (h : CacheWf st) :
    CacheWf (cacheUpdateLoop env is st) :=
  cacheUpdateLoop_keeps env (fun i seg _ hi hs => hs.append env i ⟨seg, hi⟩) is st h

theorem CacheWf.refilled (h : CacheWf st) : CacheWf (st.refilled env) := by
  have hup : CacheWf (scSegmentCacheUpdate env st) := CacheWf.cacheUpdateLoop env _ st h
  have hnum := (cacheUpdate_cacheOnly env st).segmentsNum
  have hnew : CacheWf (scSegmentCacheUpdate env st).withNewSegment := by
    have hset := hup.setSegment (scSegmentCacheUpdate env st).segmentsNum
      (scSegmentNew (scSegmentCacheUpdate env st).segmentsNum)
    exact hset.segments rfl rfl fun m s hm => ⟨s, hm⟩
  refine hnew.append env _ ⟨scSegmentNew st.segmentsNum, ?_⟩
  simp [ScStorage.withNewSegment, ScStorage.setSegment, hnum]

theorem cacheWf_kept (env : ScEnv) :
    KeptBySteps env (fun _ => True) (fun _ => True) CacheWf := by
  have hsame (st st' : ScStorage) (h : CacheWf st) (hs : st'.segments = st.segments)
      (hc : st'.segmentsCache = st.segmentsCache)
      (hn : st'.segmentsCacheCount = st.segmentsCacheCount) : CacheWf st' := by
    refine h.segments hc hn ?_
    intro m s hm
    exact ⟨s, by rw [hs]; exact hm⟩
  have hfree : SegmentFree env (fun _ => True) CacheWf := by
    refine ⟨⟨?_, ?_, ?_, ?_⟩, ?_, ?_⟩
    · intro st n seg seg' _ h
      exact h.setSegment n seg'
    · intro f _ st h
      exact hsame st _ h rfl rfl rfl
    · intro c st h
      exact hsame st _ h rfl rfl rfl
    · intro st n seg hn h
      exact h.append env n ⟨seg, hn⟩
    · intro ctx st n h
      exact h.remove ctx n
    · intro st h
      exact h.refilled
  exact hfree.kept ⟨fun _ _ => trivial, fun _ _ => trivial, fun _ _ => trivial⟩

theorem storeRun_cacheWf (st0 st : ScStorage) (evs : List StoreEvent) (h0 : Initialized st0)
    (hr : Run StoreStep st0 evs st) : CacheWf st := by
  refine run_invariant CacheWf (fun a e b h hs => (cacheWf_kept e.env).step e.action a b h hs)
    evs st0 st ?_ hr
  have hempty (st : ScStorage) (hc : st.segmentsCache = fun _ => none)
      (hn : st.segmentsCacheCount = 0) : CacheWf st := by
    refine ⟨?_, ?_⟩
    · simp [ScStorage.cached, hc, hn]
    · intro k n hk
      simp [hc] at hk
  rcases h0 with rfl | ⟨n, -, cells, fm, rfl⟩
  · exact hempty _ rfl rfl
  · exact hempty _ rfl rfl

theorem cachedSegment_some {ctx : ScContext} {n : ℕ} (h : st.cachedSegment ctx = some n) :
    ∃ k < 32, st.segmentsCache k = some n := by
  unfold ScStorage.cachedSegment at h
  split_ifs at h
  obtain ⟨k, hk, hn⟩ := List.exists_of_findSome?_eq_some h
  obtain ⟨i, -, rfl⟩ := List.mem_map.mp hk
  exact ⟨_, Nat.mod_lt _ (by decide), hn⟩

/-- Nothing is found in the cache only when it is empty. -/
theorem CacheWf.cachedSegment_none (h : CacheWf st) {ctx : ScContext}
    (hc : st.cachedSegment ctx = none) (k : ℕ) (hk : k < 32) : st.segmentsCache k = none := by
  by_contra hne
  have hin : k ∈ st.cached := by simp [ScStorage.cached, hk, hne]
  have hpos : 0 < st.segmentsCacheCount := by
    rw [h.count]
    exact_mod_cast Finset.card_pos.mpr ⟨k, hin⟩
  unfold ScStorage.cachedSegment at hc
  rw [if_pos hpos, List.findSome?_eq_none_iff] at hc
  refine hne (hc k (List.mem_map.mpr ⟨(k+32-ctx.id%32)%32, ?_, ?_⟩))
  · exact List.mem_range.mpr (Nat.mod_lt _ (by omega))
  · simp only [scSegmentCacheSize]
    omega

/-- An entry that is there is taken out, and no other one. -/
theorem cacheRemove_entry (ctx : ScContext) {n k : ℕ} (hk : k < 32)
    (hn : st.segmentsCache k = some n) :
    ∃ m < 32, st.segmentsCache m = some n ∧
      (scSegmentCacheRemove ctx n st).segmentsCache = Function.update st.segmentsCache m none := by
  unfold scSegmentCacheRemove
  cases hs : st.cacheSlot (ctx.id%scSegmentCacheSize) (some n) with
  | none => exact absurd hn (cacheSlot_none hs k hk)
  | some m =>
    obtain ⟨hm, hsome⟩ := cacheSlot_some hs
    exact ⟨m, hm, hsome, rfl⟩

theorem cacheRemove_card (ctx : ScContext) {n k : ℕ} (hk : k < 32)
    (hn : st.segmentsCache k = some n) :
    (scSegmentCacheRemove ctx n st).cached.card+1 = st.cached.card := by
  obtain ⟨m, hm, hsome, hcache⟩ := cacheRemove_entry ctx hk hn
  have hin : m ∈ st.cached := by simp [ScStorage.cached, hm, hsome]
  have hset : (scSegmentCacheRemove ctx n st).cached = st.cached.erase m := by
    ext i
    by_cases hi : i = m
    · subst hi
      simp [ScStorage.cached, hcache]
    · simp [ScStorage.cached, hcache, hi]
  rw [hset, Finset.card_erase_of_mem hin]
  have hpos : 0 < st.cached.card := Finset.card_pos.mpr ⟨m, hin⟩
  omega

/-- A new segment yields a cell to every context. -/
theorem segmentNew_yields (thread ctxId n : ℕ) : ∃ offset seg',
    scSegmentLockEmptyElement thread ctxId (scSegmentNew n) = .ok (some offset, seg') := by
  have hfree : NoContention thread (scSegmentNew n) := by
    intro s _
    exact Or.inl (congrArg Prod.fst (segmentNew_lockWord n s))
  rw [lockEmptyElement_some_iff thread ctxId _ (segmentNew_range n) hfree]
  have hs : ctxId%32 < 32 := Nat.mod_lt _ (by omega)
  have hoff : ((scSegmentNew n).sections (ctxId%32)).emptyOffset < 64 := by
    by_cases h0 : ctxId%32 = 0
    · by_cases hn : n = 0
      · simp [scSegmentNew, h0, hn]
      · simp [scSegmentNew, h0, hn]
    · simp [scSegmentNew, h0]
      omega
  have hcount : 0 < ((scSegmentNew n).sections (ctxId%32)).emptyCount := by
    by_cases h0 : ctxId%32 = 0
    · by_cases hn : n = 0
      · simp [scSegmentNew, h0, hn]
        split_ifs <;> omega
      · simp [scSegmentNew, h0, hn]
        split_ifs <;> omega
    · simp [scSegmentNew, h0]
      split_ifs <;> omega
  have hhole := segmentNew_holesOk n (ctxId%32) hs
  refine ⟨by by_cases hn : n = 0 <;> simp [scSegmentHasEmptySlot, scSegmentNew, hn],
    0, by omega, ?_, ?_⟩
  · show SectionYields (scSegmentNew n) 0 (ctxId%32)
    refine ⟨hcount, ((scSegmentNew n).sections (ctxId%32)).emptyOffset+32, ⟨by omega, ?_⟩, rfl⟩
    exact Or.inl ⟨by omega, by omega⟩
  · intro i hi
    obtain rfl : i = 0 := by omega
    show ¬ SectionTraps (scSegmentNew n) (ctxId%32)
    intro ht
    have hzero := ht.2
    have hpos := hhole.notEmptyAddr
    omega

/-- The rule for the loop on a store whose cache is well formed. A failed attempt takes an entry
out of the cache and a new segment yields a cell, so the loop comes to an end. -/
theorem appendElLoop_total (env : ScEnv) (ctx : ScContext) (P : ScStorage → Prop)
    (Q : ScStorage → Prop) (E : ScStop → Prop) (hwf : ∀ st, P st → CacheWf st)
    (hstop : ∀ st n seg e, P st → st.cachedSegment ctx = some n → st.segments n = some seg →
      scSegmentLockEmptyElement env.thread ctx.id seg = .error e → E e)
    (hsome : ∀ st n seg offset seg', P st → st.cachedSegment ctx = some n →
      st.segments n = some seg →
      scSegmentLockEmptyElement env.thread ctx.id seg = .ok (some offset, seg') →
      Q (st.setSegment n (seg'.prepareCell ctx offset)) ∧ E .abort)
    (hnone : ∀ st n seg seg', P st → st.cachedSegment ctx = some n → st.segments n = some seg →
      scSegmentLockEmptyElement env.thread ctx.id seg = .ok (none, seg') →
      P (scSegmentCacheRemove ctx n (st.setSegment n seg')))
    (hnew : ∀ st seg, P st → st.cachedSegment ctx = none → st.segmentsNum < 65535 →
      Q ((st.refilled env).setSegment st.segmentsNum seg))
    (habort : ∀ st, P st → st.cachedSegment ctx = none → 65535 ≤ st.segmentsNum → E .abort)
    (fuel : ℕ) (st : ScStorage) (h : P st) (hfuel : st.cached.card < fuel) :
    Wp (appendElLoop env ctx fuel) (fun r st' => r ≠ none ∧ Q st') E st := by
  induction fuel generalizing st with
  | zero => omega
  | succ fuel ih =>
    unfold appendElLoop
    rw [wp_bind]
    apply cacheGet_wp
    · intro n hc
      obtain ⟨k, hk, hkn⟩ := cachedSegment_some hc
      obtain ⟨seg, hn⟩ := (hwf st h).loaded k n hkn
      rw [wp_bind, wp_get, hn]
      simp only
      cases hr : scSegmentLockEmptyElement env.thread ctx.id seg with
      | error e => exact hstop st n seg e h hc hn hr
      | ok r =>
        obtain ⟨_ | offset, seg'⟩ := r
        · simp only [wp_bind, wp_modify]
          refine ih _ (hnone st n seg seg' h hc hn hr) ?_
          have hcard := @cacheRemove_card (st.setSegment n seg') ctx _ _ hk hkn
          have hsame : (st.setSegment n seg').cached = st.cached := rfl
          rw [hsame] at hcard
          omega
        · obtain ⟨hq, he⟩ := hsome st n seg offset seg' h hc hn hr
          simp only [wp_bind, wp_modify, wp_pure, wp_scAssert]
          exact ⟨fun _ => ⟨by simp, hq⟩, fun _ => he⟩
    · intro hc hlt
      have hseg : (st.refilled env).segments st.segmentsNum =
          some (scSegmentNew st.segmentsNum) := by
        rw [(refilled_cacheOnly env st).segments]
        exact Function.update_self ..
      obtain ⟨offset, seg', hl⟩ := segmentNew_yields env.thread ctx.id st.segmentsNum
      rw [wp_bind, wp_get, hseg]
      simp only [hl, wp_bind, wp_modify, wp_pure, wp_scAssert]
      have hpost := lockEmptyElement_words env.thread ctx.id _ (segmentNew_range st.segmentsNum)
        (fun i => Or.inl (segmentNew_lockWord _ i))
      rw [hl] at hpost
      obtain ⟨hoff, -, hw, -, -⟩ := hpost
      have hmeta : scSegmentMetaOk env.thread seg' offset = true := by
        have howner : (seg'.lockWord (offset%32)).1 = env.thread := by
          rw [hw, Function.update_self]
        have howner' : (seg'.sections (offset%32)).threadLock = env.thread := howner
        simp [scSegmentMetaOk, hoff, howner']
      exact ⟨fun _ => ⟨by simp, hnew st _ h hc hlt⟩, fun hm => by simp [hmeta] at hm⟩
    · intro hc hge
      exact habort st h hc hge

/-- The search of a segment stops only at a failed assertion. -/
theorem lockEmptyElement_error {thread ctxId : ℕ} {seg : ScSegment} {e : ScStop}
    (h : scSegmentLockEmptyElement thread ctxId seg = .error e) : e = .abort := by
  have hvisit (i : ℕ) (seg : ScSegment) (hv : visitSection thread ctxId i seg = .error e) :
      e = .abort := by
    rw [visitSection_eq] at hv
    simp only at hv
    split_ifs at hv
    · simpa using hv.symm
    · split at hv
      · split_ifs at hv
        simpa using hv.symm
      · simp at hv
  have hpass (n : ℕ) (seg : ScSegment) (hv : visitSections thread ctxId n seg = .error e) :
      e = .abort := by
    induction n generalizing seg with
    | zero => simp [visitSections] at hv
    | succ n ih =>
      unfold visitSections at hv
      cases hr : visitSection thread ctxId (scConcurrencyLevel-(n+1)) seg with
      | error e' =>
        rw [hr] at hv
        obtain rfl : e' = e := by simpa [bind, Except.bind] using hv
        exact hvisit _ seg hr
      | ok r =>
        rw [hr] at hv
        obtain ⟨_ | offset, seg'⟩ := r
        · exact ih seg' hv
        · simp [bind, Except.bind] at hv
  have hattempts (n : ℕ) (seg : ScSegment) (hv : lockEmptyAttempts thread ctxId n seg = .error e) :
      e = .abort := by
    induction n generalizing seg with
    | zero => simp [lockEmptyAttempts] at hv
    | succ n ih =>
      unfold lockEmptyAttempts at hv
      split_ifs at hv
      cases hr : visitSections thread ctxId scConcurrencyLevel seg with
      | error e' =>
        rw [hr] at hv
        obtain rfl : e' = e := by simpa [bind, Except.bind] using hv
        exact hpass _ seg hr
      | ok r =>
        rw [hr] at hv
        obtain ⟨_ | offset, seg'⟩ := r
        · exact ih seg' hv
        · simp [bind, Except.bind] at hv
  exact hattempts _ seg h

theorem cached_card_le (st : ScStorage) : st.cached.card ≤ 32 := by
  have hsub : st.cached ⊆ Finset.range 32 := Finset.filter_subset _ _
  simpa using Finset.card_le_card hsub

/-- The fuel of the loop is enough: an allocation returns or fails an assertion. -/
theorem appendEl_not_diverge (env : ScEnv) (ctx : ScContext) (h : CacheWf st) :
    scStorageAppendElIntoSegments env ctx st ≠ .error .diverge := by
  have hloop : Wp (appendElLoop env ctx (scSegmentCacheSize+2)) (fun r _ => r ≠ none ∧ True)
      (fun e => e = .abort) st := by
    apply appendElLoop_total env ctx CacheWf (fun _ => True) _ (fun _ h => h)
    · intro st1 n seg e _ _ _ he
      exact lockEmptyElement_error he
    · intro st1 n seg offset seg' _ _ _ _
      exact ⟨trivial, rfl⟩
    · intro st1 n seg seg' h1 _ _ _
      exact (h1.setSegment n seg').remove ctx n
    · intro st1 seg _ _ _
      trivial
    · intro st1 _ _ _
      rfl
    · exact h
    · have hcard := cached_card_le st
      simp only [scSegmentCacheSize]
      omega
  have hcall : Wp (scStorageAppendElIntoSegments env ctx) (fun _ _ => True)
      (fun e => e = .abort) st := by
    unfold scStorageAppendElIntoSegments
    simp only [wp_bind, wp_get, wp_ite, wp_pure]
    exact ⟨fun _ => trivial, fun _ => wp_mono hloop (fun _ _ _ => trivial) (fun _ he => he)⟩
  intro hd
  unfold Wp at hcall
  rw [hd] at hcall
  simp at hcall

end

/-- No loaded segment has a free usable cell. -/
def ScStorage.NoFreeCell (st : ScStorage) : Prop :=
  ∀ n seg, st.segments n = some seg → ¬ HasFreeCell seg

def ScStorage.Uncontended (st : ScStorage) (thread : ℕ) : Prop :=
  ∀ n seg, st.segments n = some seg → NoContention thread seg

/-- The search of context `ctxId` fails in every segment of the cache. -/
def ScStorage.CachedSearchesFail (st : ScStorage) (ctxId : ℕ) : Prop :=
  ∀ k < 32, ∀ n seg, st.segmentsCache k = some n → st.segments n = some seg →
    SearchFails seg ctxId

/-- What the loop needs of a store. -/
structure AppendReady (thread : ℕ) (st : ScStorage) : Prop where
  segs : SegsInRange st
  cache : CacheWf st
  uncontended : st.Uncontended thread

section
variable {env : ScEnv} {st : ScStorage}

theorem setSegment_segments_of {n m : ℕ} {seg s : ScSegment}
    (h : (st.setSegment n seg).segments m = some s) :
    (m = n ∧ s = seg) ∨ (m ≠ n ∧ st.segments m = some s) := by
  by_cases hm : m = n
  · subst hm
    exact Or.inl ⟨rfl, by simpa [ScStorage.setSegment] using h.symm⟩
  · exact Or.inr ⟨hm, by simpa [ScStorage.setSegment, hm] using h⟩

/-- A failed attempt on segment `n` leaves the store ready. -/
theorem AppendReady.attempt {thread : ℕ} (h : AppendReady thread st) (ctx : ScContext) {n : ℕ}
    {seg seg' : ScSegment} (hn : st.segments n = some seg) (hm : Missed thread seg seg') :
    AppendReady thread (scSegmentCacheRemove ctx n (st.setSegment n seg')) := by
  have hrange := hm.range (h.segs.range n seg hn)
  have hc := cacheRemove_cacheOnly ctx n (st.setSegment n seg')
  have hset : SegsInRange (st.setSegment n seg') := h.segs.setSegment hn hm.num hrange
  refine ⟨⟨?_, ?_, ?_, ?_⟩, (h.cache.setSegment n seg').remove ctx n, ?_⟩
  · rw [hc.segments]
    exact hset.num
  · rw [hc.segments]
    exact hset.range
  · rw [hc.segments, hc.segmentsNum]
    exact hset.fresh
  · rw [hc.segmentsNum]
    exact hset.bound
  · intro m s hs
    rw [hc.segments] at hs
    rcases setSegment_segments_of hs with ⟨-, rfl⟩ | ⟨-, hs⟩
    · exact hm.owner
    · exact h.uncontended m s hs

/-- What a failed attempt leaves in the cache, with its segments. -/
theorem attempt_entry (ctx : ScContext) {k n m : ℕ} {seg s : ScSegment} (hk : k < 32)
    (hkn : st.segmentsCache k = some n) {i : ℕ}
    (hi : (scSegmentCacheRemove ctx n (st.setSegment n seg)).segmentsCache i = some m)
    (hs : (scSegmentCacheRemove ctx n (st.setSegment n seg)).segments m = some s) :
    st.segmentsCache i = some m ∧ ((m = n ∧ s = seg) ∨ (m ≠ n ∧ st.segments m = some s)) := by
  obtain ⟨slot, -, -, hcache⟩ := @cacheRemove_entry (st.setSegment n seg) ctx _ _ hk hkn
  rw [(cacheRemove_cacheOnly ctx n _).segments] at hs
  refine ⟨?_, setSegment_segments_of hs⟩
  rw [hcache] at hi
  by_cases hslot : i = slot
  · subst hslot
    simp at hi
  · rwa [Function.update_of_ne hslot] at hi

/-- Where every cached segment fails, a new segment is made. -/
theorem appendElLoop_new (ctx : ScContext) (h : AppendReady env.thread st)
    (hfail : st.CachedSearchesFail ctx.id) :
    Wp (appendElLoop env ctx (scSegmentCacheSize+2))
      (fun r st' => r ≠ none ∧ st'.segmentsNum = st.segmentsNum+1)
      (fun _ => 65535 ≤ st.segmentsNum) st := by
  have hattempt (st1 : ScStorage) (h1 : AppendReady env.thread st1)
      (hf : st1.CachedSearchesFail ctx.id) (n : ℕ) (seg : ScSegment)
      (hc : st1.cachedSegment ctx = some n) (hn : st1.segments n = some seg) :
      ∃ seg', scSegmentLockEmptyElement env.thread ctx.id seg = .ok (none, seg') ∧
        Missed env.thread seg seg' ∧ SearchFails seg' ctx.id := by
    obtain ⟨k, hk, hkn⟩ := cachedSegment_some hc
    exact searchFails_none env.thread ctx.id seg (h1.segs.range n seg hn)
      (h1.uncontended n seg hn) (hf k hk n seg hkn hn)
  apply appendElLoop_total env ctx (fun st1 => AppendReady env.thread st1 ∧
    st1.CachedSearchesFail ctx.id ∧ st1.segmentsNum = st.segmentsNum)
    (fun st' => st'.segmentsNum = st.segmentsNum+1) _ (fun st1 h1 => h1.1.cache)
  · intro st1 n seg e ⟨h1, hf, _⟩ hc hn he
    obtain ⟨seg', hl, -⟩ := hattempt st1 h1 hf n seg hc hn
    rw [hl] at he
    simp at he
  · intro st1 n seg offset seg' ⟨h1, hf, _⟩ hc hn hl
    obtain ⟨seg1, hl1, -⟩ := hattempt st1 h1 hf n seg hc hn
    rw [hl1] at hl
    simp at hl
  · intro st1 n seg seg' ⟨h1, hf, hnum⟩ hc hn hl
    obtain ⟨seg1, hl1, hm, hfs⟩ := hattempt st1 h1 hf n seg hc hn
    obtain rfl : seg1 = seg' := by
      rw [hl1] at hl
      simpa using hl
    refine ⟨h1.attempt ctx hn hm, ?_, ?_⟩
    · intro i hi m s him hs
      obtain ⟨k, hk, hkn⟩ := cachedSegment_some hc
      obtain ⟨hcache, ⟨-, rfl⟩ | ⟨-, hs⟩⟩ := attempt_entry ctx hk hkn him hs
      · exact hfs
      · exact hf i hi m s hcache hs
    · rw [(cacheRemove_cacheOnly ctx n _).segmentsNum]
      exact hnum
  · intro st1 seg ⟨_, _, hnum⟩ _ _
    have hnew := (refilled_cacheOnly env st1).segmentsNum
    rw [ScStorage.setSegment, hnew, ← hnum]
    rfl
  · intro st1 ⟨_, _, hnum⟩ _ hge
    omega
  · exact ⟨h, hfail, rfl⟩
  · have hcard := cached_card_le st
    simp only [scSegmentCacheSize]
    omega

/-- Where some cached segment does not fail, no segment is made. -/
theorem appendElLoop_same (ctx : ScContext) (h : AppendReady env.thread st)
    (hfail : ¬ st.CachedSearchesFail ctx.id) :
    IfReturns (appendElLoop env ctx (scSegmentCacheSize+2))
      (fun r st' => r ≠ none ∧ st'.segmentsNum = st.segmentsNum) st := by
  have hcached (st1 : ScStorage) (h1 : AppendReady env.thread st1)
      (hf : ¬ st1.CachedSearchesFail ctx.id) : st1.cachedSegment ctx ≠ none := by
    intro hc
    refine hf fun k hk n seg hkn _ => ?_
    rw [h1.cache.cachedSegment_none hc k hk] at hkn
    simp at hkn
  apply appendElLoop_total env ctx (fun st1 => AppendReady env.thread st1 ∧
    ¬ st1.CachedSearchesFail ctx.id ∧ st1.segmentsNum = st.segmentsNum)
    (fun st' => st'.segmentsNum = st.segmentsNum) _ (fun st1 h1 => h1.1.cache)
  · intros
    trivial
  · intro st1 n seg offset seg' ⟨_, _, hnum⟩ _ _ _
    exact ⟨hnum, trivial⟩
  · intro st1 n seg seg' ⟨h1, hf, hnum⟩ hc hn hl
    have hrange := h1.segs.range n seg hn
    have hsf := none_searchFails env.thread ctx.id seg seg' hrange (h1.uncontended n seg hn) hl
    obtain ⟨seg1, hl1, hm, hfs⟩ :=
      searchFails_none env.thread ctx.id seg hrange (h1.uncontended n seg hn) hsf
    obtain rfl : seg1 = seg' := by
      rw [hl1] at hl
      simpa using hl
    refine ⟨h1.attempt ctx hn hm, ?_, ?_⟩
    · -- the entry that does not fail is of another segment, so it stays
      intro hall
      refine hf fun i hi m s him hs => ?_
      by_cases hmn : m = n
      · rw [hmn, hn] at hs
        exact Option.some.inj hs ▸ hsf
      · obtain ⟨k, hk, hkn⟩ := cachedSegment_some hc
        obtain ⟨slot, -, hslotn, hcache⟩ :=
          @cacheRemove_entry (st1.setSegment n seg1) ctx _ _ hk hkn
        have hne : i ≠ slot := by
          intro he
          have hslot' : st1.segmentsCache slot = some n := hslotn
          rw [← he, him] at hslot'
          exact hmn (Option.some.inj hslot')
        refine hall i hi m s ?_ ?_
        · rw [hcache, Function.update_of_ne hne]
          exact him
        · rw [(cacheRemove_cacheOnly ctx n _).segments]
          simpa [ScStorage.setSegment, hmn] using hs
    · rw [(cacheRemove_cacheOnly ctx n _).segmentsNum]
      exact hnum
  · intro st1 seg ⟨h1, hf, _⟩ hc _
    exact absurd hc (hcached st1 h1 hf)
  · intros
    trivial
  · exact ⟨h, hfail, rfl⟩
  · have hcard := cached_card_le st
    simp only [scSegmentCacheSize]
    omega

end

/-- Null is returned only at the limit and, as a new segment is made, only when no loaded segment has
a free cell. -/
def AllocationExact (env : ScEnv) (ctx : ScContext) (st : ScStorage) : Prop :=
  ∀ r st', scStorageAppendElIntoSegments env ctx st = .ok (r, st') →
    (r = none → env.maxLoadedSegments ≤ st.segmentsNum ∧ st.NoFreeCell) ∧
      (st.segmentsNum < st'.segmentsNum → st.NoFreeCell)

/-- In every reachable state without contention, an allocation fails or makes a segment for want
of a free cell alone exactly if there is no free cell at all, or the limit is not reached and the
cache has a segment in which the search does not fail (or there is no number left for a segment). -/
theorem allocation_exact_iff (st0 st : ScStorage) (evs : List StoreEvent) (h0 : Initialized st0)
    (hr : Run StoreStep st0 evs st) (env : ScEnv) (ctx : ScContext)
    (hfree : st.Uncontended env.thread) :
    AllocationExact env ctx st ↔ st.NoFreeCell ∨ (st.segmentsNum < env.maxLoadedSegments ∧
      (65535 ≤ st.segmentsNum ∨ ¬ st.CachedSearchesFail ctx.id)) := by
  have hready : AppendReady env.thread st :=
    ⟨(storeRun_wf st0 st evs h0 hr).2, storeRun_cacheWf st0 st evs h0 hr, hfree⟩
  have hlimit (hle : env.maxLoadedSegments ≤ st.segmentsNum) :
      scStorageAppendElIntoSegments env ctx st = .ok (none, st) := by
    have hcall : Wp (scStorageAppendElIntoSegments env ctx) (fun r st' => r = none ∧ st' = st)
        (fun _ => False) st := by
      simp only [scStorageAppendElIntoSegments, wp_bind, wp_get, wp_ite, wp_pure]
      exact ⟨fun _ => by simp, fun hlt => absurd hle hlt⟩
    obtain ⟨r, st', hret, rfl, rfl⟩ := wp_returns hcall
    exact hret
  have hloop (hlt : ¬ env.maxLoadedSegments ≤ st.segmentsNum) {Q : Option ScAddr → ScStorage → Prop}
      {E : ScStop → Prop} (hw : Wp (appendElLoop env ctx (scSegmentCacheSize+2)) Q E st) :
      Wp (scStorageAppendElIntoSegments env ctx) Q E st := by
    simp only [scStorageAppendElIntoSegments, wp_bind, wp_get, wp_ite]
    exact ⟨fun hle => absurd hle hlt, fun _ => hw⟩
  constructor
  · intro hexact
    by_cases hle : env.maxLoadedSegments ≤ st.segmentsNum
    · exact Or.inl ((hexact _ _ (hlimit hle)).1 rfl).2
    by_cases hfail : st.CachedSearchesFail ctx.id
    · by_cases hmax : 65535 ≤ st.segmentsNum
      · exact Or.inr ⟨not_le.mp hle, Or.inl hmax⟩
      have hnew : Wp (scStorageAppendElIntoSegments env ctx)
          (fun r st' => r ≠ none ∧ st'.segmentsNum = st.segmentsNum+1) (fun _ => False) st :=
        wp_mono (hloop hle (appendElLoop_new ctx hready hfail)) (fun _ _ hq => hq)
          (fun _ hge => hmax hge)
      obtain ⟨r, st', hret, -, hnum⟩ := wp_returns hnew
      exact Or.inl ((hexact r st' hret).2 (by omega))
    · exact Or.inr ⟨not_le.mp hle, Or.inr hfail⟩
  · intro hcond r st' hret
    rcases hcond with hno | ⟨hlt, hgood⟩
    · refine ⟨fun hnone => ⟨?_, hno⟩, fun _ => hno⟩
      by_contra hlt
      have hsome : IfReturns (scStorageAppendElIntoSegments env ctx) (fun r _ => r ≠ none) st := by
        by_cases hfail : st.CachedSearchesFail ctx.id
        · exact wp_mono (hloop hlt (appendElLoop_new ctx hready hfail)) (fun _ _ hq => hq.1)
            (fun _ _ => trivial)
        · exact wp_mono (hloop hlt (appendElLoop_same ctx hready hfail)) (fun _ _ hq => hq.1)
            (fun _ _ => trivial)
      exact wp_ok hsome hret hnone
    · have hlt' : ¬ env.maxLoadedSegments ≤ st.segmentsNum := not_le.mpr hlt
      by_cases hfail : st.CachedSearchesFail ctx.id
      · -- the number of segments is exhausted, so the call has not returned
        have hbound := hready.segs.bound
        have hge : 65535 ≤ st.segmentsNum := hgood.resolve_right (not_not.mpr hfail)
        obtain ⟨hne, hnum⟩ := wp_ok (hloop hlt' (appendElLoop_new ctx hready hfail)) hret
        have hstart := holds_start env.thread st (storeRun_wf st0 st evs h0 hr).1 hready.segs
        have hbound' := (wp_ok (appendEl_holds hstart ctx) hret).segs.bound
        omega
      · obtain ⟨hne, hnum⟩ := wp_ok (hloop hlt' (appendElLoop_same ctx hready hfail)) hret
        exact ⟨fun hnone => absurd hnone hne, fun hgt => by omega⟩

theorem storeWithNode_uncontended : storeWithNode.Uncontended 1 := by
  intro n seg hn s hs
  have hwf := (storeRun_wf _ storeWithNode [nodeNewEvent] (Or.inl rfl) storeWithNode_run).2
  have hn0 : n = 0 := by
    by_contra hne
    have hnone := hwf.fresh n (show 1 ≤ n by omega)
    rw [hn] at hnone
    simp at hnone
  subst hn0
  have hlocks : ∀ s < 32, storeWithNode.locks (0, s) = (0, 0) := by decide
  have hword := hlocks s hs
  rw [locks_of_segment hn] at hword
  exact Or.inl (congrArg Prod.fst hword)

theorem allocation_exact_iff_node :
    Run StoreStep ScStorage.empty [nodeNewEvent] storeWithNode ∧ storeWithNode.Uncontended 1 ∧
      (AllocationExact exampleEnv exampleContext storeWithNode ↔
        storeWithNode.NoFreeCell ∨ (storeWithNode.segmentsNum < exampleEnv.maxLoadedSegments ∧
          (65535 ≤ storeWithNode.segmentsNum ∨
            ¬ storeWithNode.CachedSearchesFail exampleContext.id))) :=
  ⟨storeWithNode_run, storeWithNode_uncontended, allocation_exact_iff _ storeWithNode
    [nodeNewEvent] (Or.inl rfl) storeWithNode_run exampleEnv exampleContext
    storeWithNode_uncontended⟩

theorem loaded_uncontended (n : ℕ) (cells : ℕ → ℕ → ScElement) (fm : FileMemory) (thread : ℕ) :
    (ScStorage.loaded n cells fm).Uncontended thread := by
  intro m seg hm s _
  have hseg : seg = loadedSegment m (cells m) := by
    simp only [ScStorage.loaded] at hm
    split_ifs at hm
    exact (Option.some.inj hm).symm
  rw [hseg]
  exact Or.inl (congrArg Prod.fst (loadedSegment_lockWord m _ s))

/-- The cache of a store just loaded is empty, so its first allocation makes a new segment. -/
theorem loaded_append_new (env : ScEnv) (ctx : ScContext) (n : ℕ) (cells : ℕ → ℕ → ScElement)
    (fm : FileMemory) (hn : n < 65535) (hmax : n < env.maxLoadedSegments) :
    Wp (scStorageAppendElIntoSegments env ctx) (fun r st' => r ≠ none ∧ st'.segmentsNum = n+1)
      (fun _ => False) (ScStorage.loaded n cells fm) := by
  have hinit : Initialized (ScStorage.loaded n cells fm) := Or.inr ⟨n, hn.le, cells, fm, rfl⟩
  have hready : AppendReady env.thread (ScStorage.loaded n cells fm) :=
    ⟨(storeRun_wf _ _ [] hinit rfl).2, storeRun_cacheWf _ _ [] hinit rfl,
      loaded_uncontended n cells fm _⟩
  have hfail : (ScStorage.loaded n cells fm).CachedSearchesFail ctx.id := by
    intro k _ m seg hk
    simp [ScStorage.loaded, ScStorage.empty] at hk
  simp only [scStorageAppendElIntoSegments, wp_bind, wp_get, wp_ite]
  refine ⟨fun hle => absurd hmax (not_lt.mpr hle), fun _ => ?_⟩
  exact wp_mono (appendElLoop_new ctx hready hfail) (fun _ _ hq => hq)
    (fun _ hge => absurd hn (not_lt.mpr hge))

/-- So the free cells of a store just loaded are passed over. -/
theorem loaded_not_exact (env : ScEnv) (ctx : ScContext) (n : ℕ) (cells : ℕ → ℕ → ScElement)
    (fm : FileMemory) (hn : n < 65535) (hmax : n < env.maxLoadedSegments) (m o : ℕ) (hm : m < n)
    (ho : 0 < o ∧ o < 65535) (hcell : (cells m o).type = 0) :
    ¬ AllocationExact env ctx (ScStorage.loaded n cells fm) := by
  intro hexact
  obtain ⟨r, st', hret, -, hnum⟩ := wp_returns (loaded_append_new env ctx n cells fm hn hmax)
  have hno := (hexact r st' hret).2 (by rw [hnum]; exact Nat.lt_succ_self n)
  refine hno m (loadedSegment m (cells m)) (if_pos hm) ⟨o, ho.2, by omega, ?_⟩
  rw [(loadedSegment_elements m _).1]
  exact hcell

/-- With a limit of one segment the second allocation fails, and a loaded segment without any
element is passed over for a new one. -/
theorem free_cells_passed_over :
    (Run StoreStep ScStorage.empty [nodeNewEvent] storeWithNode ∧ storeWithNode.Uncontended 1 ∧
      ¬ AllocationExact { exampleEnv with maxLoadedSegments := 1 } exampleContext storeWithNode) ∧
    ∃ st, Initialized st ∧ st.Uncontended 1 ∧ ¬ AllocationExact exampleEnv exampleContext st := by
  refine ⟨⟨storeWithNode_run, storeWithNode_uncontended, ?_⟩,
    ScStorage.loaded 1 (fun _ _ => ScElement.zero) ⟨fun _ => none, fun _ => none⟩,
    Or.inr ⟨1, by omega, _, _, rfl⟩, loaded_uncontended 1 _ _ 1, ?_⟩
  · intro hexact
    have hno := ((hexact none storeWithNode rfl).1 rfl).2
    have hsome : (storeWithNode.segments 0).isSome = true := by decide
    obtain ⟨seg, hseg⟩ := Option.isSome_iff_exists.mp hsome
    refine hno 0 seg hseg ⟨2, by omega, by omega, ?_⟩
    have hcell : (storeWithNode.cell ⟨0, 2⟩).type = 0 := by decide
    have hseg0 : storeWithNode.segments (⟨0, 2⟩ : ScAddr).seg.toNat = some seg := hseg
    unfold ScStorage.cell at hcell
    rw [hseg0] at hcell
    exact hcell
  · exact loaded_not_exact _ _ 1 _ _ (by omega) (by norm_num [exampleEnv]) 0 1 (by omega)
      (by omega) rfl

end ScMachine.Store
