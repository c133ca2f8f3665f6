import ScMachine.DeletionExact
import ScMachine.SegmentsFile

/-! A restart of the store: the segments are saved and read back by a new process, in which
nobody holds references any more. -/
namespace ScMachine.Store
open ScMachine.StateExcept ScMachine.Runs ScMachine.ByteFormat

section
variable {env : ScEnv} {fs : FsEnv} {st st' : ScStorage} {a : ScAddr}

/-- Segments are made in order, and none is taken away. -/
def SegmentsFilled (st : ScStorage) : Prop := FilledTo st.segments st.segmentsNum

theorem SegmentsFilled.of_cacheOnly (h : SegmentsFilled st) (hc : CacheOnly st st') :
    SegmentsFilled st' := by
  unfold SegmentsFilled
  rw [hc.segments, hc.segmentsNum]
  exact h

theorem SegmentsFilled.withNewSegment (h : SegmentsFilled st) : SegmentsFilled st.withNewSegment := by
  intro i
  show Function.update st.segments st.segmentsNum _ i ≠ none ↔ i < st.segmentsNum+1
  by_cases hi : i = st.segmentsNum
  · simp [hi]
  · rw [Function.update_of_ne hi, h i]
    omega

theorem segmentsFilled_kept (env : ScEnv) :
    KeptBySteps env (fun _ => True) (fun _ => True) SegmentsFilled := by
  have hfree : SegmentFree env (fun _ => True) SegmentsFilled := by
    refine ⟨⟨?_, ?_, ?_, ?_⟩, ?_, ?_⟩
    · intro st n seg seg' hn h i
      show Function.update st.segments n (some seg') i ≠ none ↔ i < st.segmentsNum
      by_cases hi : i = n
      · have hlt := (h n).mp (by simp [hn])
        simp [hi, hlt]
      · rw [Function.update_of_ne hi]
        exact h i
    · intro f _ st h
      exact h
    · intro c st h
      exact h
    · intro st n seg _ h
      exact h.of_cacheOnly (cacheAppend_cacheOnly env n st)
    · intro ctx st n h
      exact h.of_cacheOnly (cacheRemove_cacheOnly ctx n st)
    · intro st h
      exact h.withNewSegment.of_cacheOnly (refilled_cacheOnly env st)
  exact hfree.kept ⟨fun _ _ => trivial, fun _ _ => trivial, fun _ _ => trivial⟩

theorem storeRun_segmentsFilled (st0 st : ScStorage) (evs : List StoreEvent) (h0 : Initialized st0)
    (hr : Run StoreStep st0 evs st) : SegmentsFilled st := by
  apply run_invariant SegmentsFilled
    (fun a e b h hs => (segmentsFilled_kept e.env).step e.action a b h hs) evs st0 st _ hr
  rcases h0 with rfl | ⟨n, _, cells, fm, rfl⟩
  · intro i
    simp [ScStorage.empty]
  · intro i
    show (if i < n then some (loadedSegment i (cells i)) else none) ≠ none ↔ i < n
    by_cases hi : i < n
    · simp [hi]
    · simp [hi]

/-- The cells that the new process finds. -/
def savedCells (fs : FsEnv) (st : ScStorage) : ℕ → ℕ → ScElement := fun i =>
  cellsOfBytes (record scSegElementsSizeByte i
    (records (bytesAt fs st.segments) st.segmentsNum))

theorem savedCells_eq (h : SegmentsFilled st) {i : ℕ} {seg : ScSegment}
    (hs : st.segments i = some seg) (o : ℕ) (ho : o < 65535) :
    savedCells fs st i o = seg.elements o := by
  have hlt : i < st.segmentsNum := (h i).mp (by simp [hs])
  unfold savedCells
  rw [record_records length_bytesAt _ i hlt, bytesAt_some hs]
  exact cellsOfBytes_segmentBytes i seg o ho

/-- The store of the new process. -/
def restarted (fs : FsEnv) (st : ScStorage) : ScStorage :=
  ScStorage.loaded st.segmentsNum (savedCells fs st) st.fileMemory

theorem restart_eq (h : SegmentsFilled st) (hn : st.segmentsNum ≤ 65535) :
    ∃ file, scStorageShutdown fs st = .ok file ∧
      scStorageInitialize fs.sha512 (some file) st.fileMemory = .ok (restarted fs st) := by
  have hread := @readBack_eq fs st.segmentsNum hn (records (bytesAt fs st.segments) st.segmentsNum)
    (length_records length_bytesAt _)
  refine ⟨_, writeToPath_eq h hn, ?_⟩
  unfold scStorageInitialize
  rw [hread]
  rfl

/-- Every cell is as it was. -/
theorem restarted_cell (h : SegmentsFilled st) (ho : a.offset.toNat < 65535) :
    (restarted fs st).cell a = st.cell a := by
  unfold ScStorage.cell restarted ScStorage.loaded
  simp only
  cases hs : st.segments a.seg.toNat with
  | none =>
    have hlt := (h a.seg.toNat).not.mp (not_not.mpr hs)
    rw [if_neg hlt]
  | some seg =>
    have hlt : a.seg.toNat < st.segmentsNum := (h _).mp (by simp [hs])
    rw [if_pos hlt]
    simp only
    rw [(loadedSegment_elements _ _).1]
    exact savedCells_eq h hs _ ho

theorem restarted_loaded (h : SegmentsFilled st) : Loaded (restarted fs st) a ↔ Loaded st a := by
  have hseg : (restarted fs st).segments a.seg.toNat ≠ none ↔ st.segments a.seg.toNat ≠ none := by
    rw [h]
    unfold restarted ScStorage.loaded
    simp only
    by_cases hlt : a.seg.toNat < st.segmentsNum
    · simp [hlt]
    · simp [hlt]
  unfold Loaded ScStorage.segmentOf
  by_cases hmax : scAddrSegMax ≤ a.seg.toNat
  · simp [hmax]
  · simp only [hmax, if_false]
    rw [← Option.ne_none_iff_exists', ← Option.ne_none_iff_exists', hseg]

/-- Nothing is locked in the new process. -/
theorem restarted_lockOutcome (hl : Loaded (restarted fs st) a) :
    lockOutcome env a (restarted fs st) = .ok true := by
  obtain ⟨⟨seg, hseg⟩, hoff⟩ := hl
  have hsome := segments_of_segmentOf hseg
  have hload : seg = loadedSegment a.seg.toNat (savedCells fs st a.seg.toNat) := by
    unfold restarted ScStorage.loaded at hsome
    simp only at hsome
    split_ifs at hsome
    exact (Option.some.inj hsome).symm
  have hword : (restarted fs st).locks a.key = (0, 0) := by
    show (restarted fs st).locks (a.seg.toNat, a.offset.toNat%32) = _
    rw [locks_of_segment hsome, hload]
    exact loadedSegment_lockWord _ _ _
  unfold lockOutcome
  rw [hseg, hword, if_neg (by simp), if_neg (by omega), if_neg (by simp)]

theorem isElement_outcome (hwf : StoreWf st) (hlock : lockOutcome env a st = .ok true) :
    outcome (scStorageIsElement env a) st = .ok (scElementIsValid (st.cell a)) := by
  have hrun := @underLock_run env st _ _ hwf a false (readCell a)
    (fun el => pure (scElementIsValid el)) (.ok (st.cell a)) (by
      intro st1 hu
      rw [← cell_of_unlocked hu]
      rfl)
  unfold outcome scStorageIsElement
  rw [hrun, hlock]
  rfl

end

/-- After a restart every occupied cell is a live element exactly when no cell had the deletion
flag as the segments were saved: the references that kept such a cell are not saved. -/
theorem restart_consistent_iff (st0 st : ScStorage) (evs : List StoreEvent) (h0 : Initialized st0)
    (hr : Run StoreStep st0 evs st) (fs : FsEnv) (env : ScEnv) :
    ∃ file st', scStorageShutdown fs st = .ok file ∧
      scStorageInitialize fs.sha512 (some file) st.fileMemory = .ok st' ∧
      (((∀ a, Loaded st' a → (st'.cell a).type ≠ 0 →
            outcome (scStorageIsElement env a) st' = .ok true) ∧
          ∀ a, (Loaded st' a ∧ Live st'.cell a) ↔ (Loaded st a ∧ Live st.cell a)) ↔
        ∀ a, Loaded st a → (st.cell a).type &&& scFlagRequestDeletion = 0) := by
  have hfill := storeRun_segmentsFilled st0 st evs h0 hr
  have hbound := (storeRun_wf st0 st evs h0 hr).2.bound
  obtain ⟨file, hsave, hload⟩ := @restart_eq fs st hfill hbound
  have hwf : StoreWf (restarted fs st) := storeWf_loaded _ hbound _ _
  have hiff (a : ScAddr) := @restarted_loaded fs st a hfill
  have hcell (a : ScAddr) (ha : Loaded st a) := @restarted_cell fs st a hfill ha.2
  have hvalid (a : ScAddr) (ha : Loaded st a) :
      outcome (scStorageIsElement env a) (restarted fs st) =
        .ok (scElementIsValid (st.cell a)) := by
    rw [isElement_outcome hwf (restarted_lockOutcome ((hiff a).mpr ha)), hcell a ha]
  refine ⟨file, restarted fs st, hsave, hload, ?_⟩
  constructor
  · rintro ⟨hlive, _⟩ a ha
    by_contra hflag
    have htype : (st.cell a).type ≠ 0 := by
      intro h0
      rw [h0] at hflag
      exact hflag rfl
    have hel := hlive a ((hiff a).mpr ha) (by rw [hcell a ha]; exact htype)
    rw [hvalid a ha] at hel
    exact hflag ((valid_iff_type _).mp (Except.ok.inj hel)).2
  · intro hflag
    constructor
    · intro a ha htype
      rw [hiff] at ha
      rw [hcell a ha] at htype
      rw [hvalid a ha, (valid_iff_type _).mpr ⟨htype, hflag a ha⟩]
    · intro a
      rw [hiff]
      apply and_congr_right
      intro ha
      unfold Live
      rw [hcell a ha]

/-- The SHA-512 digest of the element array with one node at offset 1. -/
def nodeSha512 (_ : List ScByte) : Fin 64 → ScByte :=
  digestOf 0x9fa39c381d04d26f69ac99f2dcda25e82a16266710794afeb0d15410234f5334
    0x3ce091e8138f0225d9e9719833586c3995fddc3ab0633e780e95a5b51be27419

theorem restart_consistent_iff_node :
    Run StoreStep ScStorage.empty [nodeNewEvent] storeWithNode ∧
      ∃ file st', scStorageShutdown { exampleFs with sha512 := nodeSha512 } storeWithNode =
          .ok file ∧
        scStorageInitialize nodeSha512 (some file) storeWithNode.fileMemory = .ok st' ∧
        (((∀ a, Loaded st' a → (st'.cell a).type ≠ 0 →
              outcome (scStorageIsElement exampleEnv a) st' = .ok true) ∧
            ∀ a, (Loaded st' a ∧ Live st'.cell a) ↔
              (Loaded storeWithNode a ∧ Live storeWithNode.cell a)) ↔
          ∀ a, Loaded storeWithNode a →
            (storeWithNode.cell a).type &&& scFlagRequestDeletion = 0) :=
  ⟨storeWithNode_run, restart_consistent_iff _ storeWithNode [nodeNewEvent] (Or.inl rfl)
    storeWithNode_run { exampleFs with sha512 := nodeSha512 } exampleEnv⟩

/-- A node, a reference to it as an iterator or a subscription takes one, and its deletion. -/
def heldNodeEvents : List StoreEvent :=
  [nodeNewEvent, ⟨exampleEnv, .ref ⟨0, 1⟩⟩,
    ⟨exampleEnv, .call (.elementFree exampleContext tableOrder ⟨0, 1⟩)⟩]

def storeWithHeldNode : ScStorage := stateAfterEvents heldNodeEvents ScStorage.empty

theorem storeWithHeldNode_run : Run StoreStep ScStorage.empty heldNodeEvents storeWithHeldNode :=
  storeRun_of_ownRun _ _ _ (ownRun_of_ownEvents heldNodeEvents _
    (by decide +kernel : ownEvents 1 heldNodeEvents ScStorage.empty = true))

/-- The SHA-512 digest of the element array of this store. -/
def heldNodeSha512 (_ : List ScByte) : Fin 64 → ScByte :=
  digestOf 0x3a1c026295ce80af6b5635e193644fa5f2d3c6aa822797b59f0bc6433456ce4e
    0x1857a19bc4476f3673e8e1e074b2ba224e7f4ccba7d2ba2ef1c1444d17eabc0e

/-- The deleted node is an occupied cell of the new process, and no element of it. -/
theorem held_node_survives_restart :
    ∃ file st', scStorageShutdown { exampleFs with sha512 := heldNodeSha512 } storeWithHeldNode =
        .ok file ∧
      scStorageInitialize heldNodeSha512 (some file) storeWithHeldNode.fileMemory = .ok st' ∧
      Loaded st' ⟨0, 1⟩ ∧ (st'.cell ⟨0, 1⟩).type ≠ 0 ∧
      outcome (scStorageIsElement exampleEnv ⟨0, 1⟩) st' = .ok false := by
  have hfill := storeRun_segmentsFilled _ _ _ (Or.inl rfl) storeWithHeldNode_run
  have hbound := (storeRun_wf _ _ _ (Or.inl rfl) storeWithHeldNode_run).2.bound
  obtain ⟨file, hsave, hload⟩ :=
    @restart_eq { exampleFs with sha512 := heldNodeSha512 } _ hfill hbound
  set st' := restarted { exampleFs with sha512 := heldNodeSha512 } storeWithHeldNode
  have hwf : StoreWf st' := storeWf_loaded _ hbound _ _
  have hsome : (storeWithHeldNode.segmentOf ⟨0, 1⟩).isSome = true := by decide +kernel
  have hl : Loaded st' ⟨0, 1⟩ := by
    rw [restarted_loaded hfill]
    exact ⟨Option.isSome_iff_exists.mp hsome, by decide⟩
  have hcell : st'.cell ⟨0, 1⟩ = _ := restarted_cell hfill (by decide)
  have htype : (storeWithHeldNode.cell ⟨0, 1⟩).type ≠ 0 := by decide +kernel
  have hdead : scElementIsValid (storeWithHeldNode.cell ⟨0, 1⟩) = false := by decide +kernel
  refine ⟨file, _, hsave, hload, hl, ?_, ?_⟩
  · rw [hcell]
    exact htype
  · rw [isElement_outcome hwf (restarted_lockOutcome hl), hcell, hdead]

end ScMachine.Store
