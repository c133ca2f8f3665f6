import ScMachine.CascadeDelete

/-! What each operation of the store can do to its cells, its reference counts and its content
index. Every invariant of whole runs is derived from this. -/
namespace ScMachine.Store
open ScMachine.StateExcept ScMachine.Runs

/-- The cell of a link after `bytes` with the checksum `sum` have been set. -/
def contentCell (sum : Fin 32 → ScByte) (bytes : List ScByte) (el : ScElement) : ScElement :=
  if scChecksumLen ≤ bytes.length then
    { el with type := el.type &&& ~~~scFlagLinkSelfContainer, data := sum }
  else
    { el with
      type := el.type ||| scFlagLinkSelfContainer
      data := inlineContent el.data bytes }

/-- The content index after `bytes` have been set on `a`. -/
def storeFm (a : ScAddr) (sum : Fin 32 → ScByte) (bytes : List ScByte) (fm : FileMemory) :
    FileMemory :=
  if scChecksumLen ≤ bytes.length then scFmAddrRefAppend a sum (scFmWriteStream sum bytes fm)
  else scFmAddrRefAppend a sum fm

/-- The cell of `a` becomes `el` and the content index `fm`. -/
structure CellUpdated (st : ScStorage) (a : ScAddr) (el : ScElement) (fm : FileMemory)
    (st' : ScStorage) : Prop where
  cell : st'.cell = Function.update st.cell a el
  refCount : st'.refCount = st.refCount
  holes : st'.HolesOk
  loaded : ∀ y, Loaded st' y ↔ Loaded st y
  fileMemory : st'.fileMemory = fm

section
variable {env : ScEnv} {L : SectionKey → LockWord} {as : List ScAddr} {st st' s s' : ScStorage}
  {a b x : ScAddr} {el : ScElement} {fm : FileMemory}

theorem CellsSet.cellUpdated (h : CellsSet st (Function.update st.cell a el) st') :
    CellUpdated st a el st.fileMemory st' :=
  ⟨h.cell, h.refCount, h.holes, h.loaded, h.fileMemory⟩

theorem CellUpdated.of_unlocked (h : CellUpdated s a el fm s') (hs : s.unlocked = st.unlocked)
    (hu : st'.unlocked = s'.unlocked) : CellUpdated st a el fm st' := by
  refine ⟨?_, ?_, h.holes.of_unlocked hu, ?_, ?_⟩
  · rw [cell_of_unlocked hu, h.cell, cell_of_unlocked hs]
  · rw [refCount_of_unlocked hu, h.refCount, refCount_of_unlocked hs]
  · intro y
    rw [loaded_of_unlocked hu, h.loaded, loaded_of_unlocked hs]
  · rw [fileMemory_of_unlocked hu, h.fileMemory]

/-- An operation that locks one element, with what its body does under the lock. -/
theorem underLock_rule {α : Type} (h : Holds env.thread L as st) (a : ScAddr) (body : Bool → StoreM α)
    (Q : α → ScStorage → Prop)
    (hfalse : ∀ s, s.unlocked = st.unlocked → IfReturns (body false) Q s)
    (htrue : ∀ s, s.unlocked = st.unlocked → Holds env.thread L (a :: as) s → Loaded st a →
      IfReturns (body true) Q s) :
    IfReturns (scStorageElementLock env a >>= body) Q st := by
  rw [IfReturns, wp_bind]
  apply wp_mono (elementLock_wp h a) _ (fun _ _ => trivial)
  rintro r s ⟨hu, hl, hh⟩
  cases r with
  | false => exact hfalse s hu
  | true => exact htrue s hu hh (hl.mp rfl)

/-! Operations that only read. -/

/-- Every call that returns leaves everything but the locks as it was. -/
def ReadOnly {α : Type} (x : StoreM α) : Prop :=
  ∀ u : ScStorage, Keeps (fun s => s.unlocked = u.unlocked) x

theorem readOnly_lock (env : ScEnv) (a : ScAddr) : ReadOnly (scStorageElementLock env a) := by
  intro u s hs
  unfold IfReturns Wp scStorageElementLock
  cases hn : s.segmentOf a with
  | none => exact hs
  | some seg =>
    simp only [lockElement_eq]
    split_ifs
    · trivial
    · trivial
    · exact (unlocked_setSegment (segments_of_segmentOf hn) (unlocked_setLock seg _ _)).trans hs

theorem readOnly_unlock (env : ScEnv) (a : ScAddr) : ReadOnly (scStorageElementUnlock env a) := by
  intro u s hs
  unfold IfReturns Wp scStorageElementUnlock
  cases hn : s.segmentOf a with
  | none => exact hs
  | some seg =>
    simp only [unlockElement_eq]
    split_ifs
    · trivial
    · trivial
    all_goals
      exact (unlocked_setSegment (segments_of_segmentOf hn) (unlocked_setLock seg _ _)).trans hs

theorem readOnly_isElement (a : ScAddr) : ReadOnly (scStorageIsElement env a) := by
  intro u
  apply (readOnly_lock env a u).bind
  intro r
  apply Keeps.ite (keeps_pure _ _)
  apply (keeps_readCell _ a).bind
  intro _
  exact (readOnly_unlock env a u).bind fun _ => keeps_pure _ _

theorem readOnly_readElement {α : Type} (a : ScAddr) (body : ScElement → ScResult × Option α) :
    ReadOnly (readElement env a body) := by
  intro u
  apply (readOnly_lock env a u).bind
  intro r
  apply Keeps.ite (keeps_pure _ _)
  apply (keeps_readCell _ a).bind
  intro _
  exact (readOnly_unlock env a u).bind fun _ => keeps_pure _ _

theorem readOnly_getLinkContent (ctx : ScContext) (a : ScAddr) :
    ReadOnly (scStorageGetLinkContent env ctx a) := by
  intro u
  apply (readOnly_lock env a u).bind
  intro r
  apply Keeps.ite (keeps_pure _ _)
  apply (getLockedLinkContent_keeps _ ctx a).bind
  intro _
  exact (readOnly_unlock env a u).bind fun _ => keeps_pure _ _

theorem readOnly_getAccessLevels (ctx : ScContext) (a : ScAddr) :
    ReadOnly (scStorageGetAccessLevels env ctx a) := by
  intro u
  apply (readOnly_lock env a u).bind
  intro r
  apply Keeps.ite (keeps_pure _ _)
  apply (keeps_readCell _ a).bind
  intro _
  apply (readOnly_unlock env a u).bind
  intro _
  exact Keeps.ite (keeps_pure _ _) (keeps_pure _ _)

theorem readOnly_readableLinks (ctx : ScContext) (links : List ScAddr) :
    ReadOnly (readableLinks env ctx links) := by
  intro u
  induction links with
  | nil => exact keeps_pure _ _
  | cons a links ih =>
    apply (readOnly_lock env a u).bind
    intro r
    apply Keeps.ite (keeps_pure _ _)
    apply (keeps_readCell _ a).bind
    intro _
    apply (readOnly_unlock env a u).bind
    intro _
    exact ih.bind fun _ => keeps_pure _ _

theorem readOnly_findLinks (ctx : ScContext) (stream : ScStream) :
    ReadOnly (scStorageFindLinksWithContent env ctx stream) := by
  intro u
  unfold scStorageFindLinksWithContent
  cases scLinkCalculateChecksum env stream with
  | none => exact keeps_pure _ _
  | some sum =>
    apply (keeps_get _).bind
    intro s
    cases s.fileMemory.addrs sum with
    | none => exact keeps_pure _ _
    | some addrs =>
      apply Keeps.ite (keeps_pure _ _)
      apply (readOnly_readableLinks ctx addrs u).bind
      intro r
      exact Keeps.ite (keeps_pure _ _) (Keeps.ite (keeps_pure _ _) (keeps_pure _ _))

/-! Operations that write one cell. -/

theorem storeContent_rule (h : Holds env.thread L as s) (hh : s.HolesOk) (hw : Writable s a)
    (sum : Fin 32 → ScByte) (bytes : List ScByte) :
    IfReturns (storeContent a sum bytes) (fun _ s' => Holds env.thread L as s' ∧
      CellUpdated s a (contentCell sum bytes (s.cell a)) (storeFm a sum bytes s.fileMemory) s') s := by
  unfold storeContent contentCell storeFm
  split_ifs with hlen
  · -- the database is written first
    simp only [IfReturns, wp_bind, modifyFm, wp_modify]
    set fm := scFmAddrRefAppend a sum (scFmWriteStream sum bytes s.fileMemory)
    have h2 : Holds env.thread L as ({ s with fileMemory := fm } : ScStorage) := h.congr rfl rfl
    apply modifyCell_rule h2 hh hw
    intro s2 h2' w2
    exact ⟨h2', w2.cell, w2.refCount, w2.holes, w2.loaded, w2.fileMemory⟩
  · simp only [IfReturns, wp_bind]
    apply modifyCell_rule h hh hw
    intro s2 h2' w2
    simp only [modifyFm, wp_modify]
    exact ⟨h2'.congr rfl rfl, w2.cell, w2.refCount, w2.holes, w2.loaded,
      by simp only [w2.fileMemory]⟩

/-- How a call of `sc_storage_set_link_content` ends. -/
inductive ContentOutcome (env : ScEnv) (ctx : ScContext) (a : ScAddr) (bytes : List ScByte)
    (st : ScStorage) : ScResult → ScStorage → Prop where
  | failed (r : ScResult) (s : ScStorage) : r ≠ .ok → s.unlocked = st.unlocked →
      ContentOutcome env ctx a bytes st r s
  | set (s : ScStorage) : Live st.cell a → CanWrite ctx st.cell a → (st.cell a).isLink = true →
      CellUpdated st a (contentCell (env.checksum bytes) bytes (st.cell a))
        (storeFm a (env.checksum bytes) bytes (freeContent env st.cell a st.fileMemory)) s →
      ContentOutcome env ctx a bytes st .ok s

theorem setLockedLinkContent_rule (h : Holds env.thread L as s) (hu : s.unlocked = st.unlocked)
    (hc : CellsOk st) (hl : Loaded st a) (ctx : ScContext) (stream : ScStream) :
    IfReturns (setLockedLinkContent env ctx a stream)
      (fun r s' => Holds env.thread L as s' ∧ ContentOutcome env ctx a stream.bytes st r s') s := by
  have hcell : s.cell = st.cell := cell_of_unlocked hu
  unfold setLockedLinkContent
  rw [IfReturns, wp_bind, wp_readCell, wp_ite]
  refine ⟨fun _ => ⟨h, ContentOutcome.failed _ _ (by decide) hu⟩, fun hv => ?_⟩
  rw [wp_ite]
  refine ⟨fun _ => ⟨h, ContentOutcome.failed _ _ (by decide) hu⟩, fun hw => ?_⟩
  rw [wp_ite]
  refine ⟨fun _ => ⟨h, ContentOutcome.failed _ _ (by decide) hu⟩, fun hk => ?_⟩
  have hwrite : CanWrite ctx st.cell a := by
    rw [hcell] at hw
    unfold CanWrite
    simpa using hw
  have hlive : Live st.cell a := by
    rw [hcell] at hv
    unfold Live
    simpa using hv
  have hlink : (s.cell a).isLink = true := by simpa using hk
  rw [wp_bind]
  apply removeContentAddr_wp h hlink
  intro s1 h1 hs1 hf1
  have heq := segmentsEq_of_eq hs1
  have hh1 : s1.HolesOk := heq.holes.mpr (hc.holes.of_unlocked hu)
  have hw : Writable s1 a := by
    refine ⟨(heq.loaded a).mpr ((loaded_of_unlocked hu a).mpr hl), hh1.not_hole ?_⟩
    rw [heq.cell, hcell]
    exact type_of_live hlive
  unfold scLinkCalculateChecksum
  split_ifs with hread
  swap
  · trivial
  simp only [wp_bind]
  apply wp_mono (storeContent_rule h1 hh1 hw _ _) _ (fun _ _ => trivial)
  rintro _ s2 ⟨h2, hup⟩
  apply emit_rule h2 hup.holes
  intro s3 h3 w3
  refine ⟨h3, ContentOutcome.set s3 hlive hwrite (by rw [← hcell]; exact hlink) ?_⟩
  refine ⟨?_, ?_, w3.holes, ?_, ?_⟩
  · rw [w3.cell, hup.cell, heq.cell, hcell]
  · rw [w3.refCount, hup.refCount, heq.refCount, refCount_of_unlocked hu]
  · intro y
    rw [w3.loaded, hup.loaded, heq.loaded, loaded_of_unlocked hu]
  · rw [w3.fileMemory, hup.fileMemory, hf1, hcell, fileMemory_of_unlocked hu]

theorem ContentOutcome.of_unlocked {ctx : ScContext} {bytes : List ScByte} {r : ScResult}
    (h : ContentOutcome env ctx a bytes st r s) (hu : s'.unlocked = s.unlocked) :
    ContentOutcome env ctx a bytes st r s' := by
  cases h with
  | failed _ _ hr hs => exact ContentOutcome.failed _ _ hr (hu.trans hs)
  | set _ hl hw hk hup => exact ContentOutcome.set _ hl hw hk (hup.of_unlocked rfl hu)

theorem setLinkContent_effect (h : Holds env.thread L as st) (hc : CellsOk st) (ctx : ScContext)
    (a : ScAddr) (stream : ScStream) :
    IfReturns (scStorageSetLinkContent env ctx a stream)
      (fun r st' => ContentOutcome env ctx a stream.bytes st r st') st := by
  unfold scStorageSetLinkContent
  apply underLock_rule h a
  · intro s hu
    exact ContentOutcome.failed _ _ (by decide) hu
  intro s hu h1 hl
  simp only [Bool.not_true, Bool.false_eq_true, if_false]
  rw [IfReturns, wp_bind]
  apply wp_mono (setLockedLinkContent_rule h1 hu hc hl ctx stream) _ (fun _ _ => trivial)
  rintro r s2 ⟨h2, hout⟩
  rw [wp_bind]
  apply unlock_rule h2
  intro s3 hu3 _
  exact hout.of_unlocked hu3

/-- The other writes of one cell: what the body does is `f`, and only to an element that is there. -/
theorem setAccessLevels_effect (h : Holds env.thread L as st) (hc : CellsOk st) (ctx : ScContext)
    (a : ScAddr) (levels : ScAccessLevels) (ha : (st.cell a).type ≠ 0) :
    IfReturns (scStorageSetAccessLevels env ctx a levels)
      (fun _ st' => st'.unlocked = st.unlocked ∨ CellUpdated st a
        { st.cell a with accessLevels := scAccessLvlMin ctx.accessLevels levels }
        st.fileMemory st') st := by
  unfold scStorageSetAccessLevels
  apply underLock_rule h a
  · intro s hu
    exact Or.inl hu
  intro s hu h1 hl
  have hcell : s.cell = st.cell := cell_of_unlocked hu
  have hh : s.HolesOk := hc.holes.of_unlocked hu
  have hw : Writable s a :=
    ⟨(loaded_of_unlocked hu a).mpr hl, hh.not_hole (by rw [hcell]; exact ha)⟩
  simp only [Bool.not_true, Bool.false_eq_true, if_false]
  rw [IfReturns, wp_bind, wp_readCell, wp_ite]
  constructor
  · intro _
    rw [wp_bind]
    apply modifyCell_rule h1 hh hw
    intro s2 h2 w2
    rw [wp_bind]
    apply unlock_rule h2
    intro s3 hu3 _
    have hup := w2.cellUpdated.of_unlocked hu hu3
    rw [hcell, fileMemory_of_unlocked hu] at hup
    exact Or.inr hup
  · intro _
    rw [wp_bind]
    apply unlock_rule h1
    intro s3 hu3 _
    exact Or.inl (hu3.trans hu)

theorem changeSubtype_effect (h : Holds env.thread L as st) (hc : CellsOk st) (ctx : ScContext)
    (a : ScAddr) (type : ScType) :
    IfReturns (scStorageChangeElementSubtype env ctx a type)
      (fun _ st' => st'.unlocked = st.unlocked ∨ (Live st.cell a ∧
        (st.cell a).type &&& scTypeElementMask = type &&& scTypeElementMask ∧
        CellUpdated st a { st.cell a with type := type } st.fileMemory st')) st := by
  unfold scStorageChangeElementSubtype
  apply underLock_rule h a
  · intro s hu
    exact Or.inl hu
  intro s hu h1 hl
  have hcell : s.cell = st.cell := cell_of_unlocked hu
  simp only [Bool.not_true, Bool.false_eq_true, if_false]
  rw [IfReturns, wp_bind, wp_readCell, hcell]
  split_ifs with hvalid hclass hrights
  · rw [wp_bind]
    apply unlock_rule h1
    intro s3 hu3 _
    exact Or.inl (hu3.trans hu)
  · exact Or.inl hu
  · have hlive : Live st.cell a := by
      unfold Live
      simpa using hvalid
    have hh : s.HolesOk := hc.holes.of_unlocked hu
    have hw : Writable s a :=
      ⟨(loaded_of_unlocked hu a).mpr hl, hh.not_hole (by rw [hcell]; exact type_of_live hlive)⟩
    rw [wp_bind]
    apply modifyCell_rule h1 hh hw
    intro s2 h2 w2
    rw [wp_bind]
    apply unlock_rule h2
    intro s3 hu3 _
    have hup := w2.cellUpdated.of_unlocked hu hu3
    rw [hcell, fileMemory_of_unlocked hu] at hup
    exact Or.inr ⟨hlive, not_not.mp hclass, hup⟩
  · rw [wp_bind]
    apply unlock_rule h1
    intro s3 hu3 _
    exact Or.inl (hu3.trans hu)

end

end ScMachine.Store
