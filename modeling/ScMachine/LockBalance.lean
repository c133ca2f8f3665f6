import ScMachine.StorageAppend
import ScMachine.StoreRuns

/-! Every operation of the store gives back the section locks that it takes, but for one exit of
`sc_storage_change_element_subtype`. -/
namespace ScMachine.Store
open ScMachine.StateExcept ScMachine.Runs

section
variable {env : ScEnv} {L : SectionKey → LockWord} {as : List ScAddr} {st : ScStorage}

/-! The rules for partial correctness: what a call that returns does to the locks. -/

theorem elementLock_rule (h : Holds env.thread L as st) (a : ScAddr) (Q : Bool → ScStorage → Prop)
    (hfalse : ∀ st', Holds env.thread L as st' → Q false st')
    (htrue : ∀ st', st'.unlocked = st.unlocked → Holds env.thread L (a :: as) st' → Q true st') :
    IfReturns (scStorageElementLock env a) Q st := by
  refine wp_mono (elementLock_wp h a) ?_ (fun _ _ => trivial)
  intro r st' ⟨hu, _, hh⟩
  cases r with
  | false => exact hfalse st' hh
  | true => exact htrue st' hu hh

theorem elementLockTry_rule (h : Holds env.thread L as st) (a : ScAddr)
    (Q : Bool → ScStorage → Prop) (hfalse : ∀ st', Holds env.thread L as st' → Q false st')
    (htrue : ∀ st', Holds env.thread L (a :: as) st' → Q true st') :
    IfReturns (scStorageElementLockTry env a) Q st := by
  refine wp_mono (elementLockTry_wp h a) ?_ (fun _ _ => trivial)
  intro r st' ⟨_, _, hh⟩
  cases r with
  | false => exact hfalse st' hh
  | true => exact htrue st' hh

theorem elementUnlock_rule {a : ScAddr} (h : Holds env.thread L (a :: as) st)
    (Q : Unit → ScStorage → Prop) (hQ : ∀ st', Holds env.thread L as st' → Q () st') :
    IfReturns (scStorageElementUnlock env a) Q st := by
  refine wp_mono (elementUnlock_wp h fun _ => True) ?_ (fun _ _ => trivial)
  intro _ st' hh
  exact hQ st' hh.2

/-! What takes no lock at all. -/

theorem keeps_modifyCell (a : ScAddr) (f : ScElement → ScElement) :
    Keeps (Holds env.thread L as) (modifyCell a f) :=
  keeps_modify _ _ fun st h => h.setCell a (f (st.cell a))

theorem keeps_emit (call : ScEventCall) : Keeps (Holds env.thread L as) (emit call) :=
  keeps_modify _ _ fun _ h => h.congr rfl rfl

theorem keeps_modifyFm (f : FileMemory → FileMemory) :
    Keeps (Holds env.thread L as) (modifyFm f) :=
  keeps_modify _ _ fun _ h => h.congr rfl rfl

/-! The operations. -/

theorem isElement_keeps (a : ScAddr) : Keeps (Holds env.thread L as) (scStorageIsElement env a) := by
  intro st h
  unfold scStorageIsElement
  rw [IfReturns, wp_bind]
  apply elementLock_rule h
  · intro st1 h1
    exact h1
  · intro st1 _ h1
    simp only [Bool.not_true, Bool.false_eq_true, if_false, wp_bind, wp_readCell]
    exact elementUnlock_rule h1 _ fun st2 h2 => h2

theorem readElement_keeps {α : Type} (a : ScAddr) (body : ScElement → ScResult × Option α) :
    Keeps (Holds env.thread L as) (readElement env a body) := by
  intro st h
  unfold readElement
  rw [IfReturns, wp_bind]
  apply elementLock_rule h
  · intro st1 h1
    exact h1
  · intro st1 _ h1
    simp only [Bool.not_true, Bool.false_eq_true, if_false, wp_bind, wp_readCell]
    exact elementUnlock_rule h1 _ fun st2 h2 => h2

theorem newElement_keeps (ctx : ScContext) (init : ScElement → ScElement) :
    Keeps (Holds env.thread L as) (newElement env ctx init) := by
  intro st h
  unfold newElement
  rw [IfReturns, wp_bind]
  refine wp_mono (appendEl_holds h ctx) ?_ (fun _ _ => trivial)
  intro r st1 h1
  cases r with
  | none => exact h1
  | some a =>
    simp only [wp_bind, wp_modifyCell]
    exact elementUnlock_rule (h1.setCell a _) _ fun st2 h2 => h2

theorem nodeNew_keeps (ctx : ScContext) (type : ScType) :
    Keeps (Holds env.thread L as) (scStorageNodeNew env ctx type) :=
  (keeps_scAssert _ _).bind fun _ => newElement_keeps ctx _

/-- The locks of a possibly missing first arc. -/
def firstArcLock (a : ScAddr) : List ScAddr := if a = ScAddr.empty then [] else [a]

theorem lockFirstArc_rule (h : Holds env.thread L as st) (a : ScAddr)
    (Q : Option Unit → ScStorage → Prop) (hnone : ∀ st', Holds env.thread L as st' → Q none st')
    (hsome : ∀ st', Holds env.thread L (firstArcLock a ++ as) st' → Q (some ()) st') :
    IfReturns (lockFirstArc env a) Q st := by
  unfold lockFirstArc
  rw [IfReturns, wp_ite]
  refine ⟨?_, ?_⟩
  · intro ha
    exact hsome st (by simpa [firstArcLock, ha] using h)
  · intro ha
    rw [wp_bind]
    apply elementLockTry_rule h
    · intro st1 h1
      exact hnone st1 h1
    · intro st1 h1
      exact hsome st1 (by simpa [firstArcLock, ha] using h1)

theorem unlockFirstArc_rule {a : ScAddr} (h : Holds env.thread L (firstArcLock a ++ as) st)
    (Q : Unit → ScStorage → Prop) (hQ : ∀ st', Holds env.thread L as st' → Q () st') :
    IfReturns (unlockFirstArc env a) Q st := by
  unfold unlockFirstArc unlessEmpty
  rw [IfReturns, wp_ite]
  refine ⟨?_, ?_⟩
  · intro ha
    exact hQ st (by simpa [firstArcLock, ha] using h)
  · intro ha
    exact elementUnlock_rule (by simpa [firstArcLock, ha] using h) Q hQ

theorem linkArc_keeps (type : ScType) (beg end_ : ScAddr) (levels : ScAccessLevels)
    (begEl endEl : ScElement) (a : ScAddr) :
    Keeps (Holds env.thread L as) (linkArc type beg end_ levels begEl endEl a) := by
  refine (keeps_modifyCell a _).bind fun _ => (keeps_scAssert _ _).bind fun _ => ?_
  refine (keeps_emit _).bind fun _ => (keeps_emit _).bind fun _ => ?_
  refine (keeps_readCell _ _).bind fun _ => (keeps_readCell _ _).bind fun _ => ?_
  refine (keeps_scAssert _ _).bind fun _ => (keeps_modifyCell a _).bind fun _ => ?_
  refine (keeps_scAssert _ _).bind fun _ => ?_
  refine (keeps_unlessEmpty (keeps_modifyCell _ _) _).bind fun _ => ?_
  refine (keeps_unlessEmpty (keeps_modifyCell _ _) _).bind fun _ => ?_
  exact (keeps_modifyCell beg _).bind fun _ => keeps_modifyCell end_ _

theorem arcNewAttempt_keeps (ctx : ScContext) (type : ScType) (beg end_ : ScAddr)
    (levels : ScAccessLevels) :
    Keeps (Holds env.thread L as) (arcNewAttempt env ctx type beg end_ levels) := by
  intro st h
  -- the exits that give back `beg` and then `end_`
  have hexit (r : Option ScAddr) (st' : ScStorage) (h' : Holds env.thread L (beg :: end_ :: as) st') :
      IfReturns (do
          scStorageElementUnlock env beg
          scStorageElementUnlock env end_
          return r : StoreM (Option ScAddr)) (fun _ s => Holds env.thread L as s) st' := by
    simp only [IfReturns, wp_bind]
    exact elementUnlock_rule h' _ fun st1 h1 => elementUnlock_rule h1 _ fun st2 h2 => h2
  unfold arcNewAttempt
  rw [IfReturns, wp_bind]
  refine elementLockTry_rule h beg _ (fun st1 h1 => h1) fun st1 h1 => ?_
  simp only [Bool.not_true, Bool.false_eq_true, if_false]
  rw [wp_bind, wp_readCell]
  split_ifs
  · rw [wp_bind]
    exact elementUnlock_rule h1 _ fun st2 h2 => h2
  rw [wp_bind]
  refine elementLockTry_rule h1 end_ _ (fun st2 h2 => ?_) fun st2 h2 => ?_
  · simp only [Bool.not_false, if_true]
    rw [wp_bind]
    exact elementUnlock_rule h2 _ fun st3 h3 => h3
  have h2' : Holds env.thread L (beg :: end_ :: as) st2 := h2.perm (List.Perm.swap _ _ _)
  simp only [Bool.not_true, Bool.false_eq_true, if_false]
  rw [wp_bind, wp_readCell]
  split_ifs
  · exact hexit _ st2 h2'
  rw [wp_bind]
  refine lockFirstArc_rule h2' _ _ (fun st3 h3 => hexit _ st3 h3) fun st3 h3 => ?_
  simp only
  rw [wp_bind]
  refine lockFirstArc_rule h3 _ _ (fun st4 h4 => ?_) fun st4 h4 => ?_
  · simp only
    rw [wp_bind]
    exact unlockFirstArc_rule h4 _ fun st5 h5 => hexit _ st5 h5
  simp only
  rw [wp_bind]
  refine wp_mono (appendEl_holds h4 ctx) ?_ (fun _ _ => trivial)
  intro r st5 h5
  cases r with
  | none => trivial
  | some a =>
    simp only [wp_bind]
    refine wp_mono (linkArc_keeps type beg end_ levels _ _ a st5 h5) ?_ (fun _ _ => trivial)
    intro _ st6 h6
    have h6' : Holds env.thread L (firstArcLock (st1.cell beg).firstOutArc ++ (beg ::
        (firstArcLock (st2.cell end_).firstInArc ++ (end_ :: a :: as)))) st6 := by
      refine h6.perm (List.perm_iff_count.mpr fun x => ?_)
      simp only [List.count_append, List.count_cons, Option.toList_some, List.count_nil]
      omega
    refine unlockFirstArc_rule h6' _ fun st7 h7 => ?_
    refine elementUnlock_rule h7 _ fun st8 h8 => ?_
    refine unlockFirstArc_rule h8 _ fun st9 h9 => ?_
    refine elementUnlock_rule h9 _ fun st10 h10 => ?_
    exact elementUnlock_rule h10 _ fun st11 h11 => h11

theorem arcNew_keeps (ctx : ScContext) (type : ScType) (beg end_ : ScAddr) :
    Keeps (Holds env.thread L as) (scStorageArcNew env ctx type beg end_) := by
  refine (keeps_scAssert _ _).bind fun _ => ?_
  refine Keeps.ite (keeps_pure _ _) ?_
  refine (arcNewAttempt_keeps ctx type beg end_ _).bind fun r => ?_
  cases r with
  | none => exact keeps_throw _ _
  | some a => exact keeps_pure _ _

theorem removeContentAddr_keeps (a : ScAddr) (el : ScElement) :
    Keeps (Holds env.thread L as) (removeContentAddr env a el) :=
  (keeps_pure _ _).ite (keeps_modifyFm _)

theorem setLockedLinkContent_keeps (ctx : ScContext) (a : ScAddr) (stream : ScStream) :
    Keeps (Holds env.thread L as) (setLockedLinkContent env ctx a stream) := by
  refine (keeps_readCell _ a).bind fun el => ?_
  refine Keeps.ite (keeps_pure _ _) (Keeps.ite (keeps_pure _ _) (Keeps.ite (keeps_pure _ _) ?_))
  refine (removeContentAddr_keeps a el).bind fun _ => ?_
  cases scLinkCalculateChecksum env stream with
  | none => exact keeps_throw _ _
  | some sum =>
    have hstore : Keeps (Holds env.thread L as) (storeContent a sum stream.bytes) :=
      Keeps.ite ((keeps_modifyFm _).bind fun _ => keeps_modifyCell a _)
        ((keeps_modifyCell a _).bind fun _ => keeps_modifyFm _)
    exact hstore.bind fun _ => (keeps_emit _).bind fun _ => keeps_pure _ _

theorem getLockedLinkContent_keeps (P : ScStorage → Prop) (ctx : ScContext) (a : ScAddr) :
    Keeps P (getLockedLinkContent env ctx a) := by
  refine (keeps_readCell _ a).bind fun el => ?_
  refine Keeps.ite (keeps_pure _ _) (Keeps.ite (keeps_pure _ _) (Keeps.ite (keeps_pure _ _) ?_))
  refine Keeps.ite (Keeps.ite (keeps_pure _ _) ?_) ?_
  · exact (keeps_scAssert _ _).bind fun _ => keeps_pure _ _
  · exact (keeps_get _).bind fun _ => keeps_pure _ _

/-- An operation that locks an element, works under the lock and unlocks it. -/
theorem lockedOperation_keeps {α : Type} (a : ScAddr) (failed : α) (body : StoreM α)
    (hbody : Keeps (Holds env.thread L (a :: as)) body) :
    Keeps (Holds env.thread L as) (do
      if !(← scStorageElementLock env a) then return failed
      let r ← body
      scStorageElementUnlock env a
      return r) := by
  intro st h
  rw [IfReturns, wp_bind]
  refine elementLock_rule h a _ (fun st1 h1 => h1) fun st1 _ h1 => ?_
  simp only [Bool.not_true, Bool.false_eq_true, if_false, wp_bind]
  refine wp_mono (hbody st1 h1) ?_ (fun _ _ => trivial)
  intro r st2 h2
  exact elementUnlock_rule h2 _ fun st3 h3 => h3

theorem setLinkContent_keeps (ctx : ScContext) (a : ScAddr) (stream : ScStream) :
    Keeps (Holds env.thread L as) (scStorageSetLinkContent env ctx a stream) :=
  lockedOperation_keeps a _ _ (setLockedLinkContent_keeps ctx a stream)

theorem getLinkContent_keeps (ctx : ScContext) (a : ScAddr) :
    Keeps (Holds env.thread L as) (scStorageGetLinkContent env ctx a) :=
  lockedOperation_keeps a _ _ (getLockedLinkContent_keeps _ ctx a)

theorem readableLinks_keeps (ctx : ScContext) (links : List ScAddr) :
    Keeps (Holds env.thread L as) (readableLinks env ctx links) := by
  induction links with
  | nil => exact keeps_pure _ _
  | cons a links ih =>
    intro st h
    unfold readableLinks
    rw [IfReturns, wp_bind]
    refine elementLock_rule h a _ (fun st1 h1 => h1) fun st1 _ h1 => ?_
    simp only [Bool.not_true, Bool.false_eq_true, if_false, wp_bind, wp_readCell]
    refine elementUnlock_rule h1 _ fun st2 h2 => ?_
    exact ih st2 h2

theorem findLinks_keeps (ctx : ScContext) (stream : ScStream) :
    Keeps (Holds env.thread L as) (scStorageFindLinksWithContent env ctx stream) := by
  unfold scStorageFindLinksWithContent
  cases scLinkCalculateChecksum env stream with
  | none => exact keeps_pure _ _
  | some sum =>
    refine (keeps_get _).bind fun st => ?_
    cases st.fileMemory.addrs sum with
    | none => exact keeps_pure _ _
    | some addrs =>
      refine Keeps.ite (keeps_pure _ _) ?_
      refine (readableLinks_keeps ctx addrs).bind fun r => ?_
      exact Keeps.ite (keeps_pure _ _) (Keeps.ite (keeps_pure _ _) (keeps_pure _ _))

theorem setAccessLevels_keeps (ctx : ScContext) (a : ScAddr) (levels : ScAccessLevels) :
    Keeps (Holds env.thread L as) (scStorageSetAccessLevels env ctx a levels) := by
  intro st h
  unfold scStorageSetAccessLevels
  rw [IfReturns, wp_bind]
  refine elementLock_rule h a _ (fun st1 h1 => h1) fun st1 _ h1 => ?_
  simp only [Bool.not_true, Bool.false_eq_true, if_false, wp_bind, wp_readCell, wp_ite,
    wp_modifyCell]
  refine ⟨fun _ => ?_, fun _ => ?_⟩
  · exact elementUnlock_rule (h1.setCell a _) _ fun st2 h2 => h2
  · exact elementUnlock_rule h1 _ fun st2 h2 => h2

theorem getAccessLevels_keeps (ctx : ScContext) (a : ScAddr) :
    Keeps (Holds env.thread L as) (scStorageGetAccessLevels env ctx a) := by
  intro st h
  unfold scStorageGetAccessLevels
  rw [IfReturns, wp_bind]
  refine elementLock_rule h a _ (fun st1 h1 => h1) fun st1 _ h1 => ?_
  simp only [Bool.not_true, Bool.false_eq_true, if_false, wp_bind, wp_readCell]
  refine elementUnlock_rule h1 _ fun st2 h2 => ?_
  rw [wp_ite]
  exact ⟨fun _ => h2, fun _ => h2⟩

theorem refCommon_keeps (a : ScAddr) (dir : ℤ) :
    Keeps (Holds env.thread L as) (scStorageRefCommon env a dir) := by
  intro st h
  unfold scStorageRefCommon
  simp only [wp_bind, wp_scAssert, implies_true, and_true]
  intro _
  refine elementLock_rule h a _ (fun st1 h1 => ?_) fun st1 _ h1 => ?_
  · simp only [Bool.not_false, if_true]
    trivial
  simp only [Bool.not_true, Bool.false_eq_true, if_false, wp_bind, wp_get, wp_scAssert, wp_modify,
    implies_true, and_true]
  intro _ _ _
  exact elementUnlock_rule (h1.setRefCount a _) _ fun st2 h2 => h2

theorem Holds.eraseElement {a : ScAddr} (h : Holds env.thread L as st) {seg seg' : ScSegment}
    (hn : st.segments a.seg.toNat = some seg)
    (he : scSegmentEraseElement seg a.offset.toNat = .ok seg') :
    Holds env.thread L as (st.setSegment a.seg.toNat seg') := by
  obtain ⟨hoff, -, rfl⟩ := eraseElement_ok seg seg' _ he
  have hrange := h.segs.range _ seg hn
  refine h.setSegment hn ?_ rfl ?_
  · funext i
    by_cases hi : i = a.offset.toNat%32
    · subst hi
      simp [ScSegment.lockWord]
    · simp [ScSegment.lockWord, hi]
  · refine hrange.updateSection _ _ _ _ ?_
    intro _
    simp only
    omega

theorem eraseElementFromSegment_keeps (a : ScAddr) :
    Keeps (Holds env.thread L as) (scStorageEraseElementFromSegment a) := by
  intro st h
  unfold IfReturns Wp scStorageEraseElementFromSegment
  cases hn : st.segments a.seg.toNat with
  | none => trivial
  | some seg =>
    cases he : scSegmentEraseElement seg a.offset.toNat with
    | error e => simp [he, bind, Except.bind]
    | ok seg' =>
      simp only [he, bind, Except.bind]
      exact h.eraseElement hn he

theorem eraseUnreferenced_keeps (a : ScAddr) :
    Keeps (Holds env.thread L as) (eraseUnreferenced env a) := by
  intro st h
  unfold eraseUnreferenced
  rw [IfReturns, wp_bind]
  refine elementLock_rule h a _ (fun st1 h1 => ?_) fun st1 _ h1 => ?_
  · simp only [Bool.not_false, if_true]
    trivial
  simp only [Bool.not_true, Bool.false_eq_true, if_false, wp_bind, wp_modify]
  refine wp_mono (eraseElementFromSegment_keeps a st1 h1) ?_ (fun _ _ => trivial)
  intro _ st2 h2
  exact elementUnlock_rule (h2.cacheOnly (cacheAppend_cacheOnly env _ _)) _ fun st3 h3 => h3

theorem elementUnref_keeps (a : ScAddr) :
    Keeps (Holds env.thread L as) (scStorageElementUnref env a) := by
  refine (refCommon_keeps a (-1)).bind fun r => ?_
  refine Keeps.ite ?_ (keeps_pure _ _)
  exact (eraseUnreferenced_keeps a).bind fun _ => keeps_pure _ _

/-! Deletion: `lock_table` is the list of the locks that are held. -/

theorem Holds.concat {a : ScAddr} {lt : List ScAddr} (h : Holds env.thread L (a :: (lt ++ as)) st) :
    Holds env.thread L ((lt ++ [a]) ++ as) st := by
  refine h.perm (List.perm_iff_count.mpr fun x => ?_)
  simp only [List.count_append, List.count_cons, List.count_nil]
  omega

theorem lockEndpoint_holds (a : ScAddr) (lt : List ScAddr)
    (h : Holds env.thread L (lt ++ as) st) :
    IfReturns (lockEndpoint env a lt) (fun lt' st' => Holds env.thread L (lt' ++ as) st') st := by
  unfold lockEndpoint
  rw [IfReturns, wp_ite]
  refine ⟨fun _ => h, fun _ => ?_⟩
  rw [wp_bind]
  exact elementLock_rule h a _ (fun st1 h1 => h1) fun st1 _ h1 => h1.concat

theorem lockNeighbour_holds (a : ScAddr) (lt : List ScAddr)
    (h : Holds env.thread L (lt ++ as) st) :
    IfReturns (lockNeighbour env a lt) (fun lt' st' => Holds env.thread L (lt' ++ as) st') st := by
  unfold lockNeighbour
  rw [IfReturns, wp_ite]
  refine ⟨fun _ => h, fun _ => ?_⟩
  rw [wp_bind]
  exact elementLock_rule h a _ (fun st1 h1 => trivial) fun st1 _ h1 => h1.concat

theorem lockAround_holds (el : ScElement) (lt : List ScAddr)
    (h : Holds env.thread L (lt ++ as) st) :
    IfReturns (lockAround env el lt) (fun lt' st' => Holds env.thread L (lt' ++ as) st') st := by
  unfold lockAround
  rw [IfReturns, wp_ite]
  refine ⟨fun _ => h, fun _ => ?_⟩
  simp only [wp_bind]
  refine wp_mono (lockEndpoint_holds _ lt h) (fun lt1 st1 h1 => ?_) (fun _ _ => trivial)
  refine wp_mono (lockEndpoint_holds _ lt1 h1) (fun lt2 st2 h2 => ?_) (fun _ _ => trivial)
  refine wp_mono (lockNeighbour_holds _ lt2 h2) (fun lt3 st3 h3 => ?_) (fun _ _ => trivial)
  refine wp_mono (lockNeighbour_holds _ lt3 h3) (fun lt4 st4 h4 => ?_) (fun _ _ => trivial)
  refine wp_mono (lockNeighbour_holds _ lt4 h4) (fun lt5 st5 h5 => ?_) (fun _ _ => trivial)
  exact lockNeighbour_holds _ lt5 h5

theorem collectArc_holds (a : ScAddr) (t : FreeTables)
    (h : Holds env.thread L (t.lockTable ++ as) st) :
    IfReturns (collectArc env a t)
      (fun t' st' => Holds env.thread L (t'.lockTable ++ as) st') st := by
  unfold collectArc
  rw [IfReturns, wp_ite, wp_ite]
  refine ⟨fun _ => h, fun _ => ⟨fun _ => h, fun _ => ?_⟩⟩
  rw [wp_bind]
  exact elementLock_rule h a _ (fun st1 h1 => trivial) fun st1 _ h1 => h1.concat

theorem collectArcs_holds (next : ArcField) (fuel : ℕ) (a : ScAddr) (t : FreeTables)
    (h : Holds env.thread L (t.lockTable ++ as) st) :
    IfReturns (collectArcs env next fuel a t)
      (fun t' st' => Holds env.thread L (t'.lockTable ++ as) st') st := by
  induction fuel generalizing a t st with
  | zero => trivial
  | succ fuel ih =>
    unfold collectArcs
    rw [IfReturns, wp_ite]
    refine ⟨fun _ => h, fun _ => ?_⟩
    rw [wp_bind]
    refine wp_mono (collectArc_holds a t h) (fun t1 st1 h1 => ?_) (fun _ _ => trivial)
    rw [wp_bind, wp_readCell]
    exact ih _ t1 h1

theorem collectElement_holds (a : ScAddr) (t : FreeTables)
    (h : Holds env.thread L (t.lockTable ++ as) st) :
    IfReturns (collectElement env a t)
      (fun t' st' => Holds env.thread L (t'.lockTable ++ as) st') st := by
  unfold collectElement
  rw [IfReturns, wp_bind, wp_readCell]
  simp only [wp_bind]
  refine wp_mono (lockAround_holds _ t.lockTable h) (fun lt st1 h1 => ?_) (fun _ _ => trivial)
  refine wp_mono (collectArcs_holds _ _ _ { t with lockTable := lt } h1) (fun t2 st2 h2 => ?_)
    (fun _ _ => trivial)
  exact collectArcs_holds _ _ _ t2 h2

theorem takeFromList_holds (a : ScAddr) (rest : List ScAddr) (t : FreeTables)
    (h : Holds env.thread L (t.lockTable ++ as) st) :
    IfReturns (takeFromList env a rest t)
      (fun t' st' => Holds env.thread L (t'.lockTable ++ as) st') st := by
  unfold takeFromList
  rw [IfReturns, wp_ite]
  refine ⟨fun _ => h, fun _ => ?_⟩
  rw [wp_bind]
  refine elementLock_rule h a _ (fun st1 h1 => ?_) fun st1 _ h1 => ?_
  · simp only [Bool.not_false, if_true]
    trivial
  · simp only [Bool.not_true, Bool.false_eq_true, if_false, wp_bind, wp_readCell, wp_scAssert,
      implies_true, and_true]
    intro _
    exact h1.concat

theorem collectLoop_holds (ctx : ScContext) (fuel : ℕ) (el : ScAddr) (t : FreeTables)
    (h : Holds env.thread L (t.lockTable ++ as) st) :
    IfReturns (collectLoop env ctx fuel el t)
      (fun r st' => Holds env.thread L (r.2.lockTable ++ as) st') st := by
  induction fuel generalizing el t st with
  | zero => trivial
  | succ fuel ih =>
    unfold collectLoop
    cases t.removeList with
    | nil => exact h
    | cons a rest =>
      simp only
      rw [IfReturns, wp_bind, wp_readCell, wp_ite]
      refine ⟨fun _ => h, fun _ => ?_⟩
      rw [wp_bind]
      refine wp_mono (takeFromList_holds a rest t h) (fun t1 st1 h1 => ?_) (fun _ _ => trivial)
      rw [wp_bind]
      refine wp_mono (collectElement_holds a t1 h1) (fun t2 st2 h2 => ?_) (fun _ _ => trivial)
      exact ih a t2 h2

theorem relink_keeps (lt : List ScAddr) (a : ScAddr) (field : ArcField) (target : ScAddr) :
    Keeps (Holds env.thread L as) (relink lt a field target) :=
  keeps_unlessEmpty ((keeps_scAssert _ _).bind fun _ => keeps_modifyCell a _) a

theorem unlinkArc_keeps (lt : List ScAddr) (dir : Dir) (a : ScAddr) :
    Keeps (Holds env.thread L as) (unlinkArc env lt dir a) := by
  intro st h
  unfold unlinkArc
  rw [IfReturns, wp_bind, wp_readCell]
  simp only [wp_bind]
  refine wp_mono (relink_keeps lt _ _ _ st h) (fun _ st1 h1 => ?_) (fun _ _ => trivial)
  refine wp_mono (relink_keeps lt _ _ _ st1 h1) (fun _ st2 h2 => ?_) (fun _ _ => trivial)
  by_cases hlt : (st.cell a).arc dir.owner ∈ lt
  · -- an owner in the table is locked already
    simp only [lockOwner, unlockOwner, hlt, if_true, wp_pure]
    refine wp_mono (keeps_modifyCell _ _ st2 h2) (fun _ st3 h3 => ?_) (fun _ _ => trivial)
    rw [wp_readCell]
    exact keeps_emit _ st3 h3
  · simp only [lockOwner, unlockOwner, hlt, if_false, wp_bind]
    refine elementLock_rule h2 _ _ (fun st3 h3 => ?_) fun st3 _ h3 => ?_
    · simp only [Bool.not_false, if_true]
      trivial
    · simp only [Bool.not_true, Bool.false_eq_true, if_false, wp_pure]
      refine wp_mono (keeps_modifyCell _ _ st3 h3) (fun _ st4 h4 => ?_) (fun _ _ => trivial)
      rw [wp_readCell]
      refine wp_mono (keeps_emit _ st4 h4) (fun _ st5 h5 => ?_) (fun _ _ => trivial)
      exact elementUnlock_rule h5 _ fun st6 h6 => h6

theorem eraseElement_keeps (lt : List ScAddr) (a : ScAddr) :
    Keeps (Holds env.thread L as) (eraseElement env lt a) := by
  have hdetach (el : ScElement) : Keeps (Holds env.thread L as) (detachElement env lt a el) :=
    Keeps.ite (removeContentAddr_keeps a el) (Keeps.ite
      ((unlinkArc_keeps lt .out a).bind fun _ => unlinkArc_keeps lt .inp a) (keeps_pure _ _))
  refine (keeps_readCell _ a).bind fun el => Keeps.ite (keeps_pure _ _) ?_
  refine (hdetach el).bind fun _ => (keeps_modifyCell a _).bind fun _ => ?_
  exact (elementUnref_keeps a).bind fun _ => (keeps_emit _).bind fun _ => keeps_emit _

theorem eraseElements_keeps (lt l : List ScAddr) :
    Keeps (Holds env.thread L as) (eraseElements env lt l) := by
  induction l with
  | nil => exact keeps_pure _ _
  | cons a l ih => exact (eraseElement_keeps lt a).bind fun _ => ih

theorem unlockElements_rule (l : List ScAddr) (h : Holds env.thread L (l ++ as) st)
    (Q : Unit → ScStorage → Prop) (hQ : ∀ st', Holds env.thread L as st' → Q () st') :
    IfReturns (unlockElements env l) Q st := by
  induction l generalizing st with
  | nil => exact hQ st h
  | cons a l ih =>
    unfold unlockElements
    rw [IfReturns, wp_bind]
    exact elementUnlock_rule h _ fun st1 h1 => ih h1

theorem elementFree_keeps (ctx : ScContext) (order : HashOrder) (a : ScAddr) :
    Keeps (Holds env.thread L as) (scStorageElementFree env ctx order a) := by
  intro st h
  unfold scStorageElementFree
  rw [IfReturns, wp_bind]
  refine elementLock_rule h a _ (fun st1 h1 => h1) fun st1 _ h1 => ?_
  simp only [Bool.not_true, Bool.false_eq_true, if_false]
  rw [wp_bind, wp_readCell, wp_ite]
  refine ⟨fun _ => ?_, fun _ => ?_⟩
  · rw [wp_bind]
    exact elementUnlock_rule h1 _ fun st2 h2 => h2
  rw [wp_bind]
  refine wp_mono (collectLoop_holds ctx walkFuel a ⟨[a], [a], [a]⟩ h1) (fun r st2 h2 => ?_)
    (fun _ _ => trivial)
  obtain ⟨res, t⟩ := r
  have hunlock (st' : ScStorage) (h' : Holds env.thread L (t.lockTable ++ as) st') (r : ScResult) :
      IfReturns (do
        unlockElements env (order.list t.lockTable)
        return r) (fun _ s => Holds env.thread L as s) st' := by
    rw [IfReturns, wp_bind]
    have hperm := ((order.perm t.lockTable).symm.append_right as)
    exact unlockElements_rule _ (h'.perm hperm) _ fun st3 h3 => h3
  cases res with
  | ok =>
    simp only
    rw [wp_bind]
    refine wp_mono (eraseElements_keeps t.lockTable _ st2 h2) (fun _ st3 h3 => ?_)
      (fun _ _ => trivial)
    exact hunlock st3 h3 _
  | _ => exact hunlock st2 h2 _

/-- The call returns without the unlock: the element is of another class than the new type. -/
def SubtypeMismatch (st : ScStorage) (a : ScAddr) (type : ScType) : Prop :=
  Loaded st a ∧ scElementIsValid (st.cell a) = true ∧
    (st.cell a).type &&& scTypeElementMask ≠ type &&& scTypeElementMask

theorem changeSubtype_locks (h : Holds env.thread L as st) (ctx : ScContext) (a : ScAddr)
    (type : ScType) :
    IfReturns (scStorageChangeElementSubtype env ctx a type)
      (fun _ st' => (SubtypeMismatch st a type → Holds env.thread L (a :: as) st') ∧
        (¬ SubtypeMismatch st a type → Holds env.thread L as st')) st := by
  unfold scStorageChangeElementSubtype
  rw [IfReturns, wp_bind]
  refine wp_mono (elementLock_wp h a) ?_ (fun _ _ => trivial)
  rintro r st1 ⟨hu, hloaded, h1⟩
  have hcell := cell_of_unlocked hu
  cases r with
  | false =>
    simp only [Bool.false_eq_true, false_iff] at hloaded
    exact ⟨fun hm => absurd hm.1 hloaded, fun _ => h1⟩
  | true =>
    simp only [true_iff] at hloaded
    simp only [Bool.not_true, Bool.false_eq_true, if_false]
    rw [wp_bind, wp_readCell, hcell]
    split_ifs with hvalid hclass hrights
    · have hno : ¬ SubtypeMismatch st a type := fun hm => by simp [hm.2.1] at hvalid
      rw [wp_bind]
      exact elementUnlock_rule h1 _ fun st2 h2 => ⟨fun hm => absurd hm hno, fun _ => h2⟩
    · have hm : SubtypeMismatch st a type := ⟨hloaded, by simpa using hvalid, hclass⟩
      exact ⟨fun _ => h1, fun hn => absurd hm hn⟩
    · have hno : ¬ SubtypeMismatch st a type := fun hm => hclass hm.2.2
      rw [wp_bind, wp_modifyCell, wp_bind]
      exact elementUnlock_rule (h1.setCell a _) _ fun st2 h2 =>
        ⟨fun hm => absurd hm hno, fun _ => h2⟩
    · have hno : ¬ SubtypeMismatch st a type := fun hm => hclass hm.2.2
      rw [wp_bind]
      exact elementUnlock_rule h1 _ fun st2 h2 => ⟨fun hm => absurd hm hno, fun _ => h2⟩

end

/-- The exit without unlock is taken. -/
def StorageCall.SkipsUnlock (st : ScStorage) : StorageCall → Prop
  | .changeElementSubtype _ a type => SubtypeMismatch st a type
  | _ => False

section
variable {env : ScEnv} {L : SectionKey → LockWord} {as : List ScAddr} {st : ScStorage}

theorem call_holds (h : Holds env.thread L as st) (c : StorageCall) :
    IfReturns (c.run env)
      (fun _ st' => (¬ c.SkipsUnlock st → Holds env.thread L as st') ∧
        (c.SkipsUnlock st → ∃ a, Holds env.thread L (a :: as) st')) st := by
  have hkeeps {α : Type} (x : StoreM α) (hx : Keeps (Holds env.thread L as) x) :
      IfReturns (ignoreResult x) (fun _ st' => (¬ False → Holds env.thread L as st') ∧
        (False → ∃ a, Holds env.thread L (a :: as) st')) st :=
    wp_mono (keeps_ignoreResult hx st h) (fun _ _ h' => ⟨fun _ => h', False.elim⟩)
      (fun _ _ => trivial)
  cases c with
  | isElement a => exact hkeeps _ (isElement_keeps a)
  | elementFree ctx order a => exact hkeeps _ (elementFree_keeps ctx order a)
  | nodeNew ctx type => exact hkeeps _ (nodeNew_keeps ctx type)
  | linkNew ctx isConst => exact hkeeps _ (newElement_keeps ctx _)
  | arcNew ctx type beg end_ => exact hkeeps _ (arcNew_keeps ctx type beg end_)
  | getElementType ctx a => exact hkeeps _ (readElement_keeps a _)
  | changeElementSubtype ctx a type =>
    simp only [StorageCall.run, ignoreResult, wp_bind]
    refine wp_mono (changeSubtype_locks h ctx a type) ?_ (fun _ _ => trivial)
    intro _ st' ⟨hskip, hkeep⟩
    exact ⟨hkeep, fun hm => ⟨a, hskip hm⟩⟩
  | getArcBegin ctx a => exact hkeeps _ (readElement_keeps a _)
  | getArcEnd ctx a => exact hkeeps _ (readElement_keeps a _)
  | getArcInfo ctx a => exact hkeeps _ (readElement_keeps a _)
  | setLinkContent ctx a stream => exact hkeeps _ (setLinkContent_keeps ctx a stream)
  | getLinkContent ctx a => exact hkeeps _ (getLinkContent_keeps ctx a)
  | findLinksWithContent ctx stream => exact hkeeps _ (findLinks_keeps ctx stream)
  | setAccessLevels ctx a levels => exact hkeeps _ (setAccessLevels_keeps ctx a levels)
  | getAccessLevels ctx a => exact hkeeps _ (getAccessLevels_keeps ctx a)

/-- Locks are well formed in every state, and segments are in order. -/
def StoreWf (st : ScStorage) : Prop := (∀ k, WordWf (st.locks k)) ∧ SegsInRange st

theorem Holds.storeWf (h : Holds env.thread L as st) : StoreWf st :=
  ⟨h.wf_now env.thread_ne, h.segs⟩

theorem storeWf_empty : StoreWf ScStorage.empty := by
  refine ⟨fun k => Or.inl rfl, ?_, ?_, fun _ _ => rfl, by simp [ScStorage.empty]⟩
  · intro n seg hn
    simp [ScStorage.empty] at hn
  · intro n seg hn
    simp [ScStorage.empty] at hn

theorem loadSection_lockCount (elements : ℕ → ScElement) (fuel idx : ℕ) (sec : ScSegmentSection)
    (occupied : ℤ) :
    (loadSection elements fuel idx (sec, occupied)).1.lockCount = sec.lockCount := by
  induction fuel generalizing idx sec occupied with
  | zero => rfl
  | succ fuel ih =>
    unfold loadSection
    split_ifs
    · rw [ih]
    · rw [ih]
    · rfl

theorem loadSections_lockWord (seg : ScSegment) (n i : ℕ) :
    (loadSections seg n).lockWord i = seg.lockWord i := by
  induction n with
  | zero => rfl
  | succ n ih =>
    by_cases hi : i = n
    · subst hi
      simp only [loadSections, ScSegment.lockWord, Function.update_self]
      rw [(loadSection_offset _ _ _ _ _).1, loadSection_lockCount]
    · rw [← ih]
      simp only [loadSections, ScSegment.lockWord, Function.update_of_ne hi]

theorem loadedSegment_lockWord (n : ℕ) (cells : ℕ → ScElement) (i : ℕ) :
    (loadedSegment n cells).lockWord i = (0, 0) := by
  have hw := loadSections_lockWord { scSegmentNew n with elements := cells } 32 i
  have hnew := segmentNew_lockWord n i
  simp only [loadedSegment, scSegmentLoaded]
  simp only [ScSegment.lockWord] at hw hnew ⊢
  rw [hw, hnew]

theorem storeWf_loaded (n : ℕ) (hn : n ≤ 65535) (cells : ℕ → ℕ → ScElement) (fm : FileMemory) :
    StoreWf (ScStorage.loaded n cells fm) := by
  have hseg (m : ℕ) (seg : ScSegment) (hm : (ScStorage.loaded n cells fm).segments m = some seg) :
      seg = loadedSegment m (cells m) := by
    simp only [ScStorage.loaded] at hm
    split_ifs at hm
    exact (Option.some.inj hm).symm
  refine ⟨?_, ?_, ?_, ?_, hn⟩
  · intro k
    unfold ScStorage.locks
    cases hk : (ScStorage.loaded n cells fm).segments k.1 with
    | none => exact Or.inl rfl
    | some seg =>
      rw [hseg _ _ hk]
      exact Or.inl (loadedSegment_lockWord _ _ _)
  · intro m seg hm
    rw [hseg m seg hm]
    exact (loadedSegment_elements _ _).2
  · intro m seg hm
    rw [hseg m seg hm]
    exact loadedSegment_range _ _
  · intro m hm
    simp only [ScStorage.loaded] at hm ⊢
    rw [if_neg (by omega)]

/-- A thread that owns the section of `a` holds `a` over the locks with one count less. -/
theorem holds_of_owner (h : StoreWf st) (a : ScAddr) (hl : Loaded st a)
    (howner : (st.locks a.key).1 = env.thread) :
    ∃ L, Holds env.thread L [a] st := by
  obtain ⟨hw, hs⟩ := h
  have hpos : 0 < (st.locks a.key).2 := by
    rcases hw a.key with h0 | ⟨-, hpos⟩
    · rw [h0] at howner
      exact absurd howner.symm env.thread_ne
    · exact hpos
  have hlock : Lockable env.thread
      (if (st.locks a.key).2-1 = 0 then 0 else env.thread, (st.locks a.key).2-1) := by
    split_ifs with h1
    · exact Or.inl (by rw [h1])
    · exact Or.inr ⟨rfl, by simp only; omega⟩
  refine ⟨Function.update st.locks a.key
    (if (st.locks a.key).2-1 = 0 then 0 else env.thread, (st.locks a.key).2-1), ?_, ?_, ?_, ?_, hs⟩
  · intro k
    by_cases hk : k = a.key
    · subst hk
      rw [Function.update_self]
      rcases hlock with h0 | ⟨h1, h2⟩
      · exact Or.inl h0
      · exact Or.inr ⟨by rw [h1]; exact env.thread_ne, h2⟩
    · rw [Function.update_of_ne hk]
      exact hw k
  · funext k
    by_cases hk : k = a.key
    · subst hk
      simp only [addLocks, List.map_cons, List.map_nil, List.count_cons_self, List.count_nil,
        Function.update_self]
      refine Prod.ext howner ?_
      simp
    · have hk' : a.key ≠ k := Ne.symm hk
      simp [addLocks, Function.update_of_ne hk, List.count_cons_of_ne hk']
  · intro b hb
    obtain rfl := List.mem_singleton.mp hb
    rw [Function.update_self]
    exact hlock
  · intro b hb
    obtain rfl := List.mem_singleton.mp hb
    exact hl

/-- Giving back a lock that is held, unless the element is in no segment. -/
theorem unlock_holds {st' : ScStorage} (a : ScAddr) (h : StoreWf st)
    (hret : scStorageElementUnlock env a st = .ok ((), st')) :
    st' = st ∨ ∃ L, Holds env.thread L [a] st ∧ Holds env.thread L [] st' := by
  cases hn : st.segmentOf a with
  | none =>
    simp only [scStorageElementUnlock, hn, Except.ok.injEq, Prod.mk.injEq, true_and] at hret
    exact Or.inl hret.symm
  | some seg =>
    have hseg : st.segments a.seg.toNat = some seg := by rw [← h.2.segmentOf]; exact hn
    have hok : a.offset.toNat < 65535 ∧ (seg.lockWord (a.offset.toNat%32)).1 = env.thread := by
      simp only [scStorageElementUnlock, hn, unlockElement_eq] at hret
      by_cases hoff : 65535 ≤ a.offset.toNat
      · rw [if_pos hoff] at hret
        cases hret
      · rw [if_neg hoff] at hret
        by_cases howner : (seg.lockWord (a.offset.toNat%32)).1 ≠ env.thread
        · rw [if_pos howner] at hret
          cases hret
        · exact ⟨not_le.mp hoff, not_not.mp howner⟩
    have howner : (st.locks a.key).1 = env.thread := by
      rw [ScAddr.key, locks_of_segment hseg]
      exact hok.2
    obtain ⟨L, hL⟩ := holds_of_owner h a ⟨⟨seg, hn⟩, hok.1⟩ howner
    exact Or.inr ⟨L, hL, (wp_ok (elementUnlock_wp hL fun _ => True) hret).2⟩

/-- Giving back a lock keeps the locks well formed. -/
theorem storeWf_unlock {st' : ScStorage} (a : ScAddr) (h : StoreWf st)
    (hret : scStorageElementUnlock env a st = .ok ((), st')) : StoreWf st' := by
  rcases unlock_holds a h hret with rfl | ⟨L, _, h'⟩
  · exact h
  · exact h'.storeWf

theorem storeStep_wf (st : ScStorage) (e : StoreEvent) (st' : ScStorage) (h : StoreWf st)
    (hs : StoreStep st e st') : StoreWf st' := by
  obtain ⟨env, action⟩ := e
  have hstart := holds_start env.thread st h.1 h.2
  cases action with
  | call c =>
    have hpost := wp_ok (call_holds hstart c) hs
    by_cases hskip : c.SkipsUnlock st
    · obtain ⟨a, ha⟩ := hpost.2 hskip
      exact ha.storeWf
    · exact (hpost.1 hskip).storeWf
  | ref a =>
    have hkeep : Keeps (Holds env.thread st.locks []) (scStorageElementRef env a) :=
      (refCommon_keeps a 1).bind fun _ => keeps_pure _ _
    exact (wp_ok (hkeep st hstart) hs).storeWf
  | unref a => exact (wp_ok (keeps_ignoreResult (elementUnref_keeps a) st hstart) hs).storeWf
  | lock a =>
    have hlock : IfReturns (ignoreResult (scStorageElementLock env a)) (fun _ => StoreWf) st := by
      rw [IfReturns, ignoreResult, wp_bind]
      exact wp_mono (elementLock_wp hstart a) (fun _ _ h' => h'.2.2.storeWf) (fun _ _ => trivial)
    exact wp_ok (Q := fun _ s => StoreWf s) hlock hs
  | unlock a => exact storeWf_unlock a h hs

theorem storeRun_wf (st0 st : ScStorage) (evs : List StoreEvent) (h0 : Initialized st0)
    (hr : Run StoreStep st0 evs st) : StoreWf st := by
  refine run_invariant StoreWf storeStep_wf evs st0 st ?_ hr
  rcases h0 with rfl | ⟨n, hn, cells, fm, rfl⟩
  · exact storeWf_empty
  · exact storeWf_loaded n hn cells fm

/-- In every reachable state, every operation that returns leaves the owner and the count of
every section lock as they were, unless it is a change of subtype to another class. -/
theorem locks_released_iff (st0 st : ScStorage) (evs : List StoreEvent) (h0 : Initialized st0)
    (hr : Run StoreStep st0 evs st) (env : ScEnv) (c : StorageCall) (st' : ScStorage)
    (hret : c.run env st = .ok ((), st')) : st'.locks = st.locks ↔ ¬ c.SkipsUnlock st := by
  obtain ⟨hw, hs⟩ := storeRun_wf st0 st evs h0 hr
  have hpost := wp_ok (call_holds (holds_start env.thread st hw hs) c) hret
  constructor
  · intro heq hskip
    obtain ⟨a, ha⟩ := hpost.2 hskip
    have hcount := congrArg Prod.snd (congrFun ha.locks a.key)
    simp only [heq, addLocks, List.map_cons, List.map_nil, List.count_cons_self, List.count_nil,
      zero_add, one_ne_zero, if_false, Nat.cast_one] at hcount
    omega
  · intro hskip
    exact (hpost.1 hskip).end_

end

theorem locks_released_iff_node :
    Run StoreStep ScStorage.empty [nodeNewEvent] storeWithNode ∧
      ∃ st', (StorageCall.isElement ⟨0, 1⟩).run exampleEnv storeWithNode = .ok ((), st') ∧
        (st'.locks = storeWithNode.locks ↔
          ¬ (StorageCall.isElement ⟨0, 1⟩).SkipsUnlock storeWithNode) :=
  ⟨storeWithNode_run, _, rfl, locks_released_iff _ storeWithNode [nodeNewEvent] (Or.inl rfl)
    storeWithNode_run exampleEnv _ _ rfl⟩

/-- Asking for a link type on the node leaves its section locked. -/
theorem subtype_mismatch_leaves_lock :
    Run StoreStep ScStorage.empty [nodeNewEvent] storeWithNode ∧
      ∃ st', (StorageCall.changeElementSubtype exampleContext ⟨0, 1⟩ scTypeLink).run exampleEnv
          storeWithNode = .ok ((), st') ∧
        storeWithNode.locks (0, 1) = (0, 0) ∧ st'.locks (0, 1) = (1, 1) :=
  ⟨storeWithNode_run, _, rfl, by decide, by decide⟩

end ScMachine.Store
