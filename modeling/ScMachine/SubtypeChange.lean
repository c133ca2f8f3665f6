import ScMachine.LockBalance
import ScMachine.StepInvariants

/-! `sc_storage_change_element_subtype`: what it does to the element and what the readers of the
element see afterwards. -/
namespace ScMachine.Store
open ScMachine.StateExcept ScMachine.Runs

section
variable {env : ScEnv} {st st' : ScStorage}

/-- A store is its lock words and the rest. -/
theorem eq_of_unlocked_locks (hu : st'.unlocked = st.unlocked) (hl : st'.locks = st.locks) :
    st' = st := by
  have hseg : st'.segments = st.segments := by
    funext n
    rcases segments_of_unlocked hu n with ⟨h1, h2⟩ | ⟨seg, seg', h1, h2, hs⟩
    · rw [h1, h2]
    · have hw (i : ℕ) : seg'.lockWord i = seg.lockWord i := by
        rw [← locks_of_segment h1 i, ← locks_of_segment h2 i, hl]
      obtain ⟨rc, els, num, secs, count⟩ := seg
      obtain ⟨rc', els', num', secs', count'⟩ := seg'
      simp only [ScSegment.unlocked, ScSegment.mk.injEq] at hs
      obtain ⟨rfl, rfl, rfl, hsecs, rfl⟩ := hs
      have hsec : secs' = secs := by
        funext i
        have hi := congrFun hsecs i
        have hwi := hw i
        simp only [ScSegment.lockWord, Prod.mk.injEq, ScSegmentSection.mk.injEq] at hi hwi
        cases hs1 : secs i
        cases hs2 : secs' i
        simp only [hs1, hs2] at hi hwi
        simp only [ScSegmentSection.mk.injEq]
        exact ⟨hwi.1, hi.2.1, hi.2.2.1, hwi.2⟩
      rw [h1, h2, hsec]
  obtain ⟨segs, num, cache, count, fm, ev⟩ := st
  obtain ⟨segs', num', cache', count', fm', ev'⟩ := st'
  simp only [ScStorage.unlocked, ScStorage.mk.injEq] at hu
  simp only at hseg
  obtain ⟨-, rfl, rfl, rfl, rfl, rfl⟩ := hu
  rw [hseg]

/-- How a lock of `a` by the thread of `env` ends, in terms of the store. -/
def lockOutcome (env : ScEnv) (a : ScAddr) (st : ScStorage) : Except ScStop Bool :=
  if st.segmentOf a = none then .ok false
  else if 65535 ≤ a.offset.toNat then .error .abort
  else if (st.locks a.key).1 ≠ 0 ∧ (st.locks a.key).1 ≠ env.thread then .error .diverge
  else .ok true

/-- Everything that a lock can do. -/
theorem elementLock_cases (h : StoreWf st) (a : ScAddr) :
    (lockOutcome env a st = .ok false ∧ scStorageElementLock env a st = .ok (false, st)) ∨
    (∃ e, lockOutcome env a st = .error e ∧ scStorageElementLock env a st = .error e) ∨
    (lockOutcome env a st = .ok true ∧ ∃ st1, scStorageElementLock env a st = .ok (true, st1) ∧
      st1.unlocked = st.unlocked ∧ Holds env.thread st.locks [a] st1) := by
  have hwp := elementLock_wp (holds_start env.thread st h.1 h.2) a
  cases hs : st.segmentOf a with
  | none =>
    refine Or.inl ⟨by simp [lockOutcome, hs], ?_⟩
    simp [scStorageElementLock, hs]
  | some seg =>
    have hn : st.segments a.seg.toNat = some seg := by
      rw [← h.2.segmentOf]
      exact hs
    have hnow : st.locks a.key = seg.lockWord (a.offset.toNat%32) := locks_of_segment hn _
    have hrun : scStorageElementLock env a st =
        (scSegmentLockElement env.thread seg a.offset.toNat >>= fun seg' =>
          .ok (true, st.setSegment a.seg.toNat seg')) := by
      simp only [scStorageElementLock, hs]
    rw [lockElement_eq, ← hnow] at hrun
    simp only [lockOutcome, hs, reduceCtorEq, if_false]
    by_cases hoff : 65535 ≤ a.offset.toNat
    · rw [if_pos hoff] at hrun
      exact Or.inr (Or.inl ⟨.abort, by rw [if_pos hoff], hrun⟩)
    rw [if_neg hoff] at hrun ⊢
    by_cases hfree : (st.locks a.key).1 ≠ 0 ∧ (st.locks a.key).1 ≠ env.thread
    · rw [if_pos hfree] at hrun
      exact Or.inr (Or.inl ⟨.diverge, by rw [if_pos hfree], hrun⟩)
    · rw [if_neg hfree] at hrun
      rw [wp_iff_of_eq hrun] at hwp
      exact Or.inr (Or.inr ⟨by rw [if_neg hfree], _, hrun, hwp.1, hwp.2.2⟩)

/-- Unlocking undoes the lock. -/
theorem elementUnlock_run {st1 : ScStorage} (a : ScAddr) (h : Holds env.thread st.locks [a] st1)
    (hu : st1.unlocked = st.unlocked) : scStorageElementUnlock env a st1 = .ok ((), st) := by
  obtain ⟨r, st2, hrun, hu2, h2⟩ := wp_returns (elementUnlock_wp h (fun _ => False))
  rw [hrun, eq_of_unlocked_locks (hu2.trans hu) h2.end_]

/-- A part that only reads, between a lock and its unlock. The rest of the operation starts from
the store as it was. -/
theorem underLock_run {α β : Type} (h : StoreWf st) (a : ScAddr) (failed : β) (body : StoreM α)
    (rest : α → StoreM β) (r : Except ScStop α)
    (hbody : ∀ st1, st1.unlocked = st.unlocked → body st1 = r.map fun x => (x, st1)) :
    (do
      if !(← scStorageElementLock env a) then return failed
      let x ← body
      scStorageElementUnlock env a
      rest x : StoreM β) st =
      lockOutcome env a st >>= fun ok => if ok then r >>= fun x => rest x st else .ok (failed, st) := by
  rcases @elementLock_cases env _ h a with ⟨ho, hl⟩ | ⟨e, ho, hl⟩ | ⟨ho, st1, hl, hu, h1⟩
  · rw [ho, run_bind_ok hl]
    rfl
  · rw [ho, run_bind_error hl]
    rfl
  · rw [ho, run_bind_ok hl]
    simp only [Bool.not_true, Bool.false_eq_true, if_false]
    cases r with
    | error e =>
      rw [run_bind_error (hbody st1 hu)]
      rfl
    | ok x =>
      rw [run_bind_ok (hbody st1 hu), run_bind_ok (elementUnlock_run a h1 hu)]
      rfl

/-- The stop or the result of a run, without the store. -/
def outcome {α : Type} (x : StoreM α) (st : ScStorage) : Except ScStop α := (x st).map Prod.fst

theorem readElement_run {α : Type} (h : StoreWf st) (a : ScAddr)
    (body : ScElement → ScResult × Option α) :
    readElement env a body st = lockOutcome env a st >>= fun ok =>
      .ok (if ok then
          if scElementIsValid (st.cell a) then body (st.cell a) else (.errorInvalidState, none)
        else (.error, none), st) := by
  have hrun := @underLock_run env _ _ _ h a (ScResult.error, (none : Option α)) (readCell a)
    (fun el => pure (if scElementIsValid el then body el else (.errorInvalidState, none)))
    (.ok (st.cell a)) (by
      intro st1 hu
      rw [← cell_of_unlocked hu]
      rfl)
  refine hrun.trans ?_
  congr 1
  funext ok
  cases ok <;> rfl

/-- What `readableLinks` returns, in terms of the store. -/
def readableOutcome (env : ScEnv) (ctx : ScContext) (st : ScStorage) :
    List ScAddr → Except ScStop (Bool × List ScAddr)
  | [] => .ok (true, [])
  | a :: as => lockOutcome env a st >>= fun ok =>
    if ok then readableOutcome env ctx st as >>= fun r =>
      .ok (r.1, if scAccessLvlCheckRead ctx.accessLevels (st.cell a).accessLevels then a :: r.2
        else r.2)
    else .ok (false, [])

theorem readableLinks_run (h : StoreWf st) (ctx : ScContext) (as : List ScAddr) :
    readableLinks env ctx as st = (readableOutcome env ctx st as).map fun r => (r, st) := by
  induction as with
  | nil => rfl
  | cons a as ih =>
    unfold readableLinks
    rw [underLock_run h a (false, ([] : List ScAddr)) (readCell a) _ (.ok (st.cell a)) (by
      intro st1 hu
      rw [← cell_of_unlocked hu]
      rfl)]
    unfold readableOutcome
    cases lockOutcome env a st with
    | error e => rfl
    | ok ok =>
      cases ok with
      | false => rfl
      | true =>
        simp only [ok_bind, if_true]
        cases hr : readableOutcome env ctx st as with
        | error e =>
          rw [hr] at ih
          rw [run_bind_error ih]
          rfl
        | ok r =>
          rw [hr] at ih
          rw [run_bind_ok ih]
          rfl

theorem fileMemory_of_unlocked (hu : st'.unlocked = st.unlocked) :
    st'.fileMemory = st.fileMemory := by
  have hfm := congrArg (fun s : ScStorage => s.fileMemory) hu
  exact hfm

/-- What `sc_storage_get_link_content` finds in the cell of a link. -/
def linkContent (env : ScEnv) (el : ScElement) (fm : FileMemory) :
    Except ScStop (Option (List ScByte)) :=
  if el.type &&& scFlagLinkSelfContainer != 0 then
    if el.data 0 = 0 then .ok none
    else if (el.data 0).toNat < 32 then .ok (some (selfContainerBytes env el.data))
    else .error .abort
  else .ok (fm.content el.data)

theorem getLinkContent_outcome (h : StoreWf st) (ctx : ScContext) (a : ScAddr)
    (hvalid : scElementIsValid (st.cell a) = true) (hlink : (st.cell a).isLink = true) :
    outcome (scStorageGetLinkContent env ctx a) st = lockOutcome env a st >>= fun ok =>
      if ok then
        if scAccessLvlCheckRead ctx.accessLevels (st.cell a).accessLevels then
          (linkContent env (st.cell a) st.fileMemory).map fun c => (.ok, c)
        else .ok (.errorNoReadRights, none)
      else .ok (.error, none) := by
  have hbody : ∀ st1, st1.unlocked = st.unlocked → getLockedLinkContent env ctx a st1 =
      (if scAccessLvlCheckRead ctx.accessLevels (st.cell a).accessLevels then
          (linkContent env (st.cell a) st.fileMemory).map fun c => (ScResult.ok, c)
        else .ok (.errorNoReadRights, none)).map fun x => (x, st1) := by
    intro st1 hu
    have hfm := fileMemory_of_unlocked hu
    have hread : readCell a st1 = .ok (st.cell a, st1) := by
      rw [← cell_of_unlocked hu]
      rfl
    unfold getLockedLinkContent
    rw [run_bind_ok hread, ← hfm]
    unfold linkContent
    simp only [hvalid, hlink, Bool.not_true, Bool.false_eq_true, if_false]
    cases scAccessLvlCheckRead ctx.accessLevels (st.cell a).accessLevels with
    | false => rfl
    | true =>
      simp only [Bool.not_true, Bool.false_eq_true, if_false, if_true]
      split_ifs with hflag h0 hlt
      · rfl
      · simp only [scAssert, scChecksumLen, hlt, decide_true, if_true]
        rfl
      · simp only [scAssert, scChecksumLen, hlt, decide_false, Bool.false_eq_true, if_false]
        rfl
      · rfl
  unfold outcome
  have hrun := @underLock_run env _ _ _ h a (ScResult.error, (none : Option (List ScByte)))
    (getLockedLinkContent env ctx a) pure _ hbody
  have hmap := congrArg (Except.map Prod.fst) hrun
  refine hmap.trans ?_
  cases lockOutcome env a st with
  | error e => rfl
  | ok ok =>
    cases ok with
    | false => rfl
    | true =>
      simp only [ok_bind, if_true]
      cases (if scAccessLvlCheckRead ctx.accessLevels (st.cell a).accessLevels then
          (linkContent env (st.cell a) st.fileMemory).map fun c => (ScResult.ok, c)
        else .ok (.errorNoReadRights, none) : Except ScStop _) with
      | error e => rfl
      | ok x => rfl

/-- A search depends on the database, on the access levels and on what can be locked. -/
theorem findLinks_outcome (h : StoreWf st) (h' : StoreWf st')
    (hfm : st'.fileMemory = st.fileMemory)
    (hlock : ∀ b, lockOutcome env b st' = lockOutcome env b st)
    (hlevels : ∀ b, (st'.cell b).accessLevels = (st.cell b).accessLevels) (ctx : ScContext)
    (stream : ScStream) : outcome (scStorageFindLinksWithContent env ctx stream) st' =
      outcome (scStorageFindLinksWithContent env ctx stream) st := by
  have hread (as : List ScAddr) : readableOutcome env ctx st' as = readableOutcome env ctx st as := by
    induction as with
    | nil => rfl
    | cons a as ih =>
      unfold readableOutcome
      rw [hlock, ih, hlevels]
  unfold outcome scStorageFindLinksWithContent
  cases scLinkCalculateChecksum env stream with
  | none => rfl
  | some sum =>
    simp only
    rw [run_bind_ok (show (get : StoreM ScStorage) st = .ok (st, st) from rfl),
      run_bind_ok (show (get : StoreM ScStorage) st' = .ok (st', st') from rfl), hfm]
    cases st.fileMemory.addrs sum with
    | none => rfl
    | some addrs =>
      simp only
      split_ifs with hnil
      · rfl
      · have hrun := @readableLinks_run env _ h ctx addrs
        have hrun' := @readableLinks_run env _ h' ctx addrs
        rw [hread] at hrun'
        cases hr : readableOutcome env ctx st addrs with
        | error e =>
          rw [hr] at hrun hrun'
          rw [run_bind_error hrun, run_bind_error hrun']
        | ok r =>
          rw [hr] at hrun hrun'
          rw [run_bind_ok hrun, run_bind_ok hrun']
          split_ifs
          · rfl
          · rfl
          · rfl

theorem scAddr_ne {a b : ScAddr} (h : b ≠ a) (hseg : b.seg.toNat = a.seg.toNat) :
    b.offset.toNat ≠ a.offset.toNat := by
  intro hoff
  apply h
  cases a
  cases b
  simp only [ScAddr.mk.injEq]
  exact ⟨BitVec.eq_of_toNat_eq hseg, BitVec.eq_of_toNat_eq hoff⟩

theorem cell_setCell {a : ScAddr} {seg : ScSegment} (hn : st.segments a.seg.toNat = some seg)
    (el : ScElement) (b : ScAddr) :
    (st.setCell a el).cell b = if b = a then el else st.cell b := by
  unfold ScStorage.setCell
  rw [hn]
  split_ifs with hb
  · subst hb
    simp [ScStorage.cell, ScStorage.setSegment]
  · by_cases hseg : b.seg.toNat = a.seg.toNat
    · have hoff := scAddr_ne hb hseg
      simp [ScStorage.cell, ScStorage.setSegment, hseg, hn, hoff]
    · simp [ScStorage.cell, ScStorage.setSegment, hseg]

theorem unlocked_setCell (hu : st'.unlocked = st.unlocked) (a : ScAddr) (el : ScElement) :
    (st'.setCell a el).unlocked = (st.setCell a el).unlocked := by
  unfold ScStorage.setCell
  rcases segments_of_unlocked hu a.seg.toNat with ⟨h1, h2⟩ | ⟨seg, seg', h1, h2, hs⟩
  · rw [h1, h2]
    exact hu
  · rw [h1, h2]
    simp only [ScStorage.unlocked, ScStorage.mk.injEq] at hu
    obtain ⟨hseg, hnum, hcache, hcount, hfm, hev⟩ := hu
    simp only [ScSegment.unlocked, ScSegment.mk.injEq] at hs
    obtain ⟨hrc, hels, hnum', hsecs, hcnt⟩ := hs
    simp only [ScStorage.unlocked, ScStorage.setSegment, ScStorage.mk.injEq]
    refine ⟨?_, hnum, hcache, hcount, hfm, hev⟩
    funext m
    by_cases hm : m = a.seg.toNat
    · subst hm
      simp [ScSegment.unlocked, hrc, hels, hnum', hsecs, hcnt]
    · simpa [Function.update_of_ne hm] using congrFun hseg m

theorem locks_setCell (a : ScAddr) (el : ScElement) : (st.setCell a el).locks = st.locks := by
  unfold ScStorage.setCell
  cases hn : st.segments a.seg.toNat with
  | none => rfl
  | some seg =>
    funext k
    simp only [locks_setSegment]
    split_ifs with hk
    · rw [ScStorage.locks, hk, hn]
      rfl
    · rfl

/-- A change that returns `SC_RESULT_OK` writes the type of the cell, and nothing else. -/
theorem changeSubtype_ok (h : StoreWf st) (ctx : ScContext) (a : ScAddr) (type : ScType)
    (hret : scStorageChangeElementSubtype env ctx a type st = .ok (.ok, st')) :
    lockOutcome env a st = .ok true ∧
      st' = st.setCell a { st.cell a with type := type } := by
  unfold scStorageChangeElementSubtype at hret
  rcases @elementLock_cases env _ h a with ⟨ho, hl⟩ | ⟨e, ho, hl⟩ | ⟨ho, st1, hl, hu, h1⟩
  · rw [run_bind_ok hl] at hret
    simp [pure, StateT.pure, Except.pure] at hret
  · rw [run_bind_error hl] at hret
    simp at hret
  · rw [run_bind_ok hl] at hret
    have hread : readCell a st1 = .ok (st.cell a, st1) := by
      rw [← cell_of_unlocked hu]
      rfl
    have hunlock := elementUnlock_run a h1 hu
    simp only [Bool.not_true, Bool.false_eq_true, if_false] at hret
    rw [run_bind_ok hread] at hret
    split_ifs at hret
    · rw [run_bind_ok hunlock] at hret
      simp [pure, StateT.pure, Except.pure] at hret
    · simp [pure, StateT.pure, Except.pure] at hret
    · refine ⟨ho, ?_⟩
      have hcell : st1.cell a = st.cell a := congrFun (cell_of_unlocked hu) a
      have hset : modifyCell a (fun el => { el with type := type }) st1 =
          .ok ((), st1.setCell a { st.cell a with type := type }) := by
        rw [← hcell]
        rfl
      have hun : scStorageElementUnlock env a (st1.setCell a { st.cell a with type := type }) =
          .ok ((), st.setCell a { st.cell a with type := type }) := by
        refine elementUnlock_run a ?_ (unlocked_setCell hu a _)
        rw [locks_setCell]
        exact h1.setCell a _
      rw [run_bind_ok hset, run_bind_ok hun] at hret
      simp only [pure, StateT.pure, Except.pure, Except.ok.injEq, Prod.mk.injEq, true_and] at hret
      exact hret.symm
    · rw [run_bind_ok hunlock] at hret
      simp [pure, StateT.pure, Except.pure] at hret

end

/-- What the writes to the file memory keep, every operation keeps. -/
theorem fileMemory_kept {env : ScEnv} {F : (FileMemory → FileMemory) → Prop}
    {P : FileMemory → Prop} (hF : FmSteps env F) (hP : ∀ f, F f → ∀ fm, P fm → P (f fm)) :
    KeptBySteps env (fun _ => True) F (fun st => P st.fileMemory) := by
  have hfree : SegmentFree env F (fun st => P st.fileMemory) := by
    refine ⟨⟨fun _ _ _ _ _ h => h, fun f hf st h => hP f hf _ h, fun _ _ h => h, ?_⟩, ?_, ?_⟩
    · intro st n seg _ h
      rw [(cacheAppend_cacheOnly env n st).fileMemory]
      exact h
    · intro ctx st n h
      rw [(cacheRemove_cacheOnly ctx n st).fileMemory]
      exact h
    · intro st h
      rw [(refilled_cacheOnly env st).fileMemory]
      exact h
  exact hfree.kept hF

/-- `g_checksum_get_string` gives the checksum in lower case hexadecimal digits. -/
def IsHexDigit (b : ScByte) : Prop :=
  (48 ≤ b.toNat ∧ b.toNat ≤ 57) ∨ (97 ≤ b.toNat ∧ b.toNat ≤ 102)

def HexChecksum (env : ScEnv) : Prop := ∀ bytes i, IsHexDigit (env.checksum bytes i)

/-- The contents of the database stand under hexadecimal keys. -/
def ContentKeysHex (fm : FileMemory) : Prop :=
  ∀ sum, fm.content sum ≠ none → ∀ i, IsHexDigit (sum i)

theorem contentKeysHex_kept (env : ScEnv) (hhex : HexChecksum env) :
    KeptBySteps env (fun _ => True) (fun f => ∀ fm, ContentKeysHex fm → ContentKeysHex (f fm))
      (fun st => ContentKeysHex st.fileMemory) := by
  refine fileMemory_kept ⟨?_, ?_, ?_⟩ (fun f hf => hf)
  · intro a sum fm h
    exact h
  · intro a sum fm h key hkey
    unfold scFmAddrRefRemove at hkey
    cases ha : fm.addrs sum with
    | none =>
      rw [ha] at hkey
      exact h key hkey
    | some addrs =>
      simp only [ha] at hkey
      split_ifs at hkey
      · by_cases hks : key = sum
        · subst hks
          simp at hkey
        · simp only [Function.update_of_ne hks] at hkey
          exact h key hkey
      · exact h key hkey
  · intro a bytes fm h key hkey
    by_cases hks : key = env.checksum bytes
    · rw [hks]
      exact hhex bytes
    · refine h key ?_
      simpa only [scFmAddrRefAppend, scFmWriteStream, Function.update_of_ne hks] using hkey

/-- Nothing but the subtype of `a` has changed, as the readers of the store see it. -/
structure SubtypeOnly (env : ScEnv) (a : ScAddr) (type : ScType) (st st' : ScStorage) : Prop where
  live : scElementIsValid (st'.cell a) = true
  firstOutArc : (st'.cell a).firstOutArc = (st.cell a).firstOutArc
  firstInArc : (st'.cell a).firstInArc = (st.cell a).firstInArc
  arc : ∀ field, (st'.cell a).arc field = (st.cell a).arc field
  accessLevels : (st'.cell a).accessLevels = (st.cell a).accessLevels
  content : (st.cell a).isLink = true → ∀ env' ctx,
    outcome (scStorageGetLinkContent env' ctx a) st' = outcome (scStorageGetLinkContent env' ctx a) st
  links : ∀ env' ctx stream, outcome (scStorageFindLinksWithContent env' ctx stream) st' =
    outcome (scStorageFindLinksWithContent env' ctx stream) st
  type : ∀ ctx, scAccessLvlCheckRead ctx.accessLevels (st.cell a).accessLevels = true →
    outcome (scStorageGetElementType env ctx a) st' = .ok (.ok, some (scFlagsRemove type))
  others : ∀ b, b ≠ a → st'.cell b = st.cell b

/-- A new type that leaves the content of a link where it is, unless there is none. -/
def KeepsContentPlace (el : ScElement) (type : ScType) : Prop :=
  el.isLink = false ∨ type &&& scFlagLinkSelfContainer = el.type &&& scFlagLinkSelfContainer ∨
    el.data 0 = 0

section
variable {env : ScEnv} {st : ScStorage}

theorem ContentKeysHex.content_none {fm : FileMemory} (h : ContentKeysHex fm)
    {sum : Fin 32 → ScByte} (hlt : (sum 0).toNat < 48) : fm.content sum = none := by
  by_contra hne
  rcases h sum hne 0 with h0 | h0
  · omega
  · omega

/-- With the other flag the same cell has another content, unless it has none. -/
theorem linkContent_iff (el : ScElement) (type : ScType) (fm : FileMemory) (h : ContentKeysHex fm) :
    linkContent env { el with type := type } fm = linkContent env el fm ↔
      type &&& scFlagLinkSelfContainer = el.type &&& scFlagLinkSelfContainer ∨ el.data 0 = 0 := by
  have hflag (x : ScType) : x &&& scFlagLinkSelfContainer = 0 ∨
      x &&& scFlagLinkSelfContainer = scFlagLinkSelfContainer := by
    have hpow : scFlagLinkSelfContainer = BitVec.twoPow 16 15 := by decide
    rw [hpow, BitVec.and_twoPow]
    split_ifs
    · exact Or.inr rfl
    · exact Or.inl rfl
  have hne : scFlagLinkSelfContainer ≠ 0 := by decide
  -- the content that the cell has when it is taken for inline and when it is a key
  have hdiff (x y : ScType) (hx : x &&& scFlagLinkSelfContainer = scFlagLinkSelfContainer)
      (hy : y &&& scFlagLinkSelfContainer = 0) :
      linkContent env { el with type := x } fm = linkContent env { el with type := y } fm ↔
        el.data 0 = 0 := by
    have hx' : (x &&& scFlagLinkSelfContainer != 0) = true := by rw [hx]; decide
    have hy' : (y &&& scFlagLinkSelfContainer != 0) = false := by simp [hy]
    simp only [linkContent, hx', hy', if_true, Bool.false_eq_true, if_false]
    split_ifs with h0 hlt
    · rw [h.content_none (by rw [h0]; decide)]
      exact ⟨fun _ => h0, fun _ => rfl⟩
    · rw [h.content_none (by omega)]
      exact ⟨fun hh => by simp at hh, fun hh => absurd hh h0⟩
    · exact ⟨fun hh => by simp at hh, fun hh => absurd hh h0⟩
  rcases hflag type with ht | ht
  · rcases hflag el.type with he | he
    · have hsame : linkContent env { el with type := type } fm = linkContent env el fm := by
        simp [linkContent, ht, he]
      simp [hsame, ht, he]
    · rw [eq_comm, hdiff el.type type he ht, ht, he]
      exact ⟨Or.inr, fun hh => hh.resolve_left (Ne.symm hne)⟩
  · rcases hflag el.type with he | he
    · rw [hdiff type el.type ht he, ht, he]
      exact ⟨Or.inr, fun hh => hh.resolve_left hne⟩
    · have hsame : linkContent env { el with type := type } fm = linkContent env el fm := by
        simp [linkContent, ht, he]
      simp [hsame, ht, he]

theorem storeRun_contentKeys (st0 st : ScStorage) (evs : List StoreEvent)
    (hkeys : ContentKeysHex st0.fileMemory) (hhex : ∀ e ∈ evs, HexChecksum e.env)
    (hr : Run StoreStep st0 evs st) : ContentKeysHex st.fileMemory :=
  run_invariant_on (fun st => ContentKeysHex st.fileMemory) evs st0 st
    (fun a e b he h hs => (contentKeysHex_kept e.env (hhex e he)).step e.action a b h hs) hkeys hr

theorem isLink_of_class {el : ScElement} {type : ScType}
    (hclass : el.type &&& scTypeElementMask = type &&& scTypeElementMask) :
    ({ el with type := type } : ScElement).isLink = el.isLink := by
  have hmask (x : ScType) : x &&& scTypeLink = (x &&& scTypeElementMask) &&& scTypeLink := by
    rw [BitVec.and_assoc]
    rfl
  simp only [ScElement.isLink]
  rw [hmask type, hmask el.type, hclass]

theorem segments_of_valid {a : ScAddr} (h : scElementIsValid (st.cell a) = true) :
    ∃ seg, st.segments a.seg.toNat = some seg := by
  cases hs : st.segments a.seg.toNat with
  | some seg => exact ⟨seg, rfl⟩
  | none =>
    rw [ScStorage.cell, hs] at h
    simp [scElementIsValid, ScElement.zero] at h

theorem fileMemory_setCell (a : ScAddr) (el : ScElement) :
    (st.setCell a el).fileMemory = st.fileMemory := by
  unfold ScStorage.setCell
  split
  · rfl
  · rfl

theorem segmentOf_setCell (a b : ScAddr) (el : ScElement) :
    (st.setCell a el).segmentOf b = none ↔ st.segmentOf b = none := by
  unfold ScStorage.setCell
  cases hn : st.segments a.seg.toNat with
  | none => rfl
  | some seg =>
    simp only [ScStorage.segmentOf, ScStorage.setSegment]
    by_cases hb : b.seg.toNat = a.seg.toNat
    · simp [hb, hn]
    · simp [hb]

theorem lockOutcome_setCell (a b : ScAddr) (el : ScElement) :
    lockOutcome env b (st.setCell a el) = lockOutcome env b st := by
  simp only [lockOutcome, segmentOf_setCell, locks_setCell]

theorem checkRead_all (levels : ScAccessLevels) : scAccessLvlCheckRead 0xff levels = true := by
  have hmax : scAccessLvlGetRead 0xff = 15 := by decide
  have hlt := (levels &&& scAccessLvlRmask).isLt
  simp only [scAccessLvlCheckRead, decide_eq_true_eq]
  rw [hmax, scAccessLvlGetRead, BitVec.toNat_ushiftRight, Nat.shiftRight_eq_div_pow]
  omega

theorem except_map_injective {α β : Type} {f : α → β} (hf : Function.Injective f)
    {x y : Except ScStop α} (h : x.map f = y.map f) : x = y := by
  cases x with
  | error e =>
    cases y with
    | error e' => simpa [Except.map] using h
    | ok c => simp [Except.map] at h
  | ok c =>
    cases y with
    | error e' => simp [Except.map] at h
    | ok c' =>
      simp only [Except.map, Except.ok.injEq] at h
      rw [hf h]

theorem valid_iff_type (el : ScElement) :
    scElementIsValid el = true ↔ el.type ≠ 0 ∧ el.type &&& scFlagRequestDeletion = 0 := by
  simp [scElementIsValid, scElementIsRequestDeletion]

/-- In every reachable state, a change of the subtype of a live element that returns
`SC_RESULT_OK` changes nothing but the subtype exactly if the new type is that of a live element
and keeps the content of a link where it is. -/
theorem subtype_only_iff (st0 st : ScStorage) (evs : List StoreEvent) (h0 : Initialized st0)
    (hkeys : ContentKeysHex st0.fileMemory) (hhex : ∀ e ∈ evs, HexChecksum e.env)
    (hr : Run StoreStep st0 evs st) (env : ScEnv) (ctx : ScContext) (a : ScAddr) (type : ScType)
    (st' : ScStorage) (hlive : scElementIsValid (st.cell a) = true)
    (hclass : (st.cell a).type &&& scTypeElementMask = type &&& scTypeElementMask)
    (hret : scStorageChangeElementSubtype env ctx a type st = .ok (.ok, st')) :
    SubtypeOnly env a type st st' ↔ type ≠ 0 ∧ type &&& scFlagRequestDeletion = 0 ∧
      KeepsContentPlace (st.cell a) type := by
  have hwf := storeRun_wf st0 st evs h0 hr
  have hhexst := storeRun_contentKeys st0 st evs hkeys hhex hr
  obtain ⟨hlock, rfl⟩ := changeSubtype_ok hwf ctx a type hret
  set el' : ScElement := { st.cell a with type := type }
  obtain ⟨seg, hn⟩ := segments_of_valid hlive
  have hcell := cell_setCell hn el'
  have hcella : (st.setCell a el').cell a = el' := by rw [hcell, if_pos rfl]
  have hwf' : StoreWf (st.setCell a el') :=
    ((holds_start env.thread st hwf.1 hwf.2).setCell a el').storeWf
  have hvalid' : scElementIsValid el' = true ↔ type ≠ 0 ∧ type &&& scFlagRequestDeletion = 0 :=
    valid_iff_type el'
  have hcontent (hl : (st.cell a).isLink = true) (hv : scElementIsValid el' = true) (env' : ScEnv)
      (ctx' : ScContext) :
      outcome (scStorageGetLinkContent env' ctx' a) (st.setCell a el') =
        lockOutcome env' a st >>= fun ok =>
          if ok then
            if scAccessLvlCheckRead ctx'.accessLevels (st.cell a).accessLevels then
              (linkContent env' el' st.fileMemory).map fun c => (.ok, c)
            else .ok (.errorNoReadRights, none)
          else .ok (.error, none) := by
    rw [getLinkContent_outcome hwf' ctx' a (by rw [hcella]; exact hv)
      (by rw [hcella, isLink_of_class hclass]; exact hl), lockOutcome_setCell, hcella,
      fileMemory_setCell]
  constructor
  · intro hs
    have hv := hs.live
    rw [hcella] at hv
    refine ⟨(hvalid'.mp hv).1, (hvalid'.mp hv).2, ?_⟩
    cases hl : (st.cell a).isLink with
    | false => exact Or.inl hl
    | true =>
      -- a context with all rights sees the content before and after
      have hsame := hs.content hl env ⟨0, 0xff⟩
      rw [hcontent hl hv, getLinkContent_outcome hwf _ a hlive hl, hlock] at hsame
      simp only [ok_bind, if_true, checkRead_all] at hsame
      have heq : linkContent env el' st.fileMemory = linkContent env (st.cell a) st.fileMemory :=
        except_map_injective (fun c c' hc => congrArg Prod.snd hc) hsame
      exact Or.inr ((linkContent_iff _ type _ hhexst).mp heq)
  · rintro ⟨ht, hd, hplace⟩
    have hv : scElementIsValid el' = true := hvalid'.mpr ⟨ht, hd⟩
    refine ⟨?_, ?_, ?_, ?_, ?_, ?_, ?_, ?_, ?_⟩
    · rw [hcella]
      exact hv
    · rw [hcella]
    · rw [hcella]
    · intro field
      rw [hcella]
      rfl
    · rw [hcella]
    · intro hl env' ctx'
      have hcond := hplace.resolve_left (by rw [hl]; simp)
      rw [hcontent hl hv, getLinkContent_outcome hwf ctx' a hlive hl,
        (linkContent_iff (st.cell a) type _ hhexst).mpr hcond]
    · intro env' ctx' stream
      refine findLinks_outcome hwf hwf' (fileMemory_setCell a el')
        (fun b => lockOutcome_setCell a b el') ?_ ctx' stream
      intro b
      rw [hcell]
      split_ifs with hb
      · rw [hb]
      · rfl
    · intro ctx' hread
      unfold outcome scStorageGetElementType
      rw [readElement_run hwf', lockOutcome_setCell, hlock, hcella]
      simp only [ok_bind, if_true, hv, el', hread]
      rfl
    · intro b hb
      rw [hcell, if_neg hb]

end

theorem subtype_only_iff_node :
    Run StoreStep ScStorage.empty [nodeNewEvent] storeWithNode ∧
      ∃ st', scStorageChangeElementSubtype exampleEnv exampleContext ⟨0, 1⟩
          (scTypeNode ||| scTypeConst) storeWithNode = .ok (.ok, st') ∧
        (SubtypeOnly exampleEnv ⟨0, 1⟩ (scTypeNode ||| scTypeConst) storeWithNode st' ↔
          scTypeNode ||| scTypeConst ≠ 0 ∧
            (scTypeNode ||| scTypeConst) &&& scFlagRequestDeletion = 0 ∧
            KeepsContentPlace (storeWithNode.cell ⟨0, 1⟩) (scTypeNode ||| scTypeConst)) := by
  refine ⟨storeWithNode_run, _, rfl, ?_⟩
  refine subtype_only_iff ScStorage.empty storeWithNode [nodeNewEvent] (Or.inl rfl) ?_ ?_
    storeWithNode_run exampleEnv exampleContext ⟨0, 1⟩ _ _ (by decide) (by decide) rfl
  · intro sum hsum
    exact absurd rfl hsum
  · intro e he bytes i
    obtain rfl := List.mem_singleton.mp he
    exact Or.inl ⟨le_rfl, show (48 : ScByte).toNat ≤ 57 by decide⟩

/-- A link with the content `a`, at segment 0 and offset 1. -/
def storeWithLink : ScStorage :=
  stateAfter ((StorageCall.setLinkContent exampleContext ⟨0, 1⟩
      ⟨[0x61], true, by decide⟩).run exampleEnv)
    (stateAfter ((StorageCall.linkNew exampleContext true).run exampleEnv) ScStorage.empty)

/-- A change from a constant to a variable link: the link loses its content. -/
theorem subtype_change_loses_content :
    Run StoreStep ScStorage.empty [⟨exampleEnv, .call (.linkNew exampleContext true)⟩,
        ⟨exampleEnv, .call (.setLinkContent exampleContext ⟨0, 1⟩ ⟨[0x61], true, by decide⟩)⟩]
      storeWithLink ∧
    scElementIsValid (storeWithLink.cell ⟨0, 1⟩) = true ∧
    (storeWithLink.cell ⟨0, 1⟩).type &&& scTypeElementMask =
      (scTypeLink ||| scTypeVar) &&& scTypeElementMask ∧
    ∃ st', scStorageChangeElementSubtype exampleEnv exampleContext ⟨0, 1⟩
        (scTypeLink ||| scTypeVar) storeWithLink = .ok (.ok, st') ∧
      outcome (scStorageGetLinkContent exampleEnv exampleContext ⟨0, 1⟩) storeWithLink =
        .ok (.ok, some [0x61]) ∧
      outcome (scStorageGetLinkContent exampleEnv exampleContext ⟨0, 1⟩) st' = .ok (.ok, none) ∧
      ¬ SubtypeOnly exampleEnv ⟨0, 1⟩ (scTypeLink ||| scTypeVar) storeWithLink st' := by
  refine ⟨⟨_, rfl, _, rfl, rfl⟩, by decide, by decide, _, rfl, rfl, rfl, ?_⟩
  intro hs
  have hsame := hs.content (by decide) exampleEnv exampleContext
  have hafter : (Except.ok (ScResult.ok, none) : Except ScStop (ScResult × Option (List ScByte))) =
      .ok (.ok, some [0x61]) := hsame
  simp at hafter

end ScMachine.Store
