import ScMachine.OperationEffects

/-! Runs of a single thread from the empty store: what one step can do, and the invariant of the
states that are reached. -/
namespace ScMachine.Store
open ScMachine.StateExcept ScMachine.Runs

/-- What the callers of the store keep to: arcs have no link bits, a subtype does not touch the
flags "just for internal usage", and access levels are set on elements that are there. -/
def StorageCall.Allowed (st : ScStorage) : StorageCall → Prop
  | .arcNew _ type _ _ => type &&& scTypeLink = 0
  | .changeElementSubtype _ a type =>
    type ≠ 0 ∧ type &&& scFlagRequestDeletion = 0 ∧ KeepsContentPlace (st.cell a) type
  | .setAccessLevels _ a _ => (st.cell a).type ≠ 0
  | _ => True

/-- Besides, a reference is given back only by one who took it. -/
def StoreAction.Allowed (st : ScStorage) : StoreAction → Prop
  | .call c => c.Allowed st
  | .unref a => Live st.cell a → 2 ≤ st.refCount a
  | _ => True

/-- A step of the one thread that uses the store. -/
structure OwnStep (thread : ℕ) (st : ScStorage) (e : StoreEvent) (st' : ScStorage) : Prop where
  thread_eq : e.env.thread = thread
  allowed : e.action.Allowed st
  step : StoreStep st e st'

instance (el : ScElement) (type : ScType) : Decidable (KeepsContentPlace el type) :=
  inferInstanceAs (Decidable (_ ∨ _ ∨ _))

instance (st : ScStorage) : (c : StorageCall) → Decidable (c.Allowed st)
  | .arcNew _ type _ _ => inferInstanceAs (Decidable (type &&& scTypeLink = 0))
  | .changeElementSubtype _ a type => inferInstanceAs (Decidable
      (type ≠ 0 ∧ type &&& scFlagRequestDeletion = 0 ∧ KeepsContentPlace (st.cell a) type))
  | .setAccessLevels _ a _ => inferInstanceAs (Decidable ((st.cell a).type ≠ 0))
  | .isElement _ | .elementFree _ _ _ | .nodeNew _ _ | .linkNew _ _ | .getElementType _ _ |
    .getArcBegin _ _ | .getArcEnd _ _ | .getArcInfo _ _ | .setLinkContent _ _ _ |
    .getLinkContent _ _ | .findLinksWithContent _ _ | .getAccessLevels _ _ =>
    inferInstanceAs (Decidable True)

instance (st : ScStorage) : (action : StoreAction) → Decidable (action.Allowed st)
  | .call c => inferInstanceAs (Decidable (c.Allowed st))
  | .unref a => inferInstanceAs
      (Decidable (scElementIsValid (st.cell a) = true → 2 ≤ st.refCount a))
  | .ref _ | .lock _ | .unlock _ => inferInstanceAs (Decidable True)

/-- Whether the events are a run of one thread. -/
def ownEvents (thread : ℕ) : List StoreEvent → ScStorage → Bool
  | [], _ => true
  | e :: evs, st => decide (e.env.thread = thread) && decide (e.action.Allowed st) &&
      returns (e.action.run e.env) st && ownEvents thread evs (stateAfter (e.action.run e.env) st)

theorem ownRun_of_ownEvents {thread : ℕ} (evs : List StoreEvent) (st : ScStorage)
    (h : ownEvents thread evs st = true) :
    Run (OwnStep thread) st evs (stateAfterEvents evs st) := by
  induction evs generalizing st with
  | nil => rfl
  | cons e evs ih =>
    unfold ownEvents at h
    simp only [Bool.and_eq_true, decide_eq_true_eq] at h
    obtain ⟨⟨⟨ht, ha⟩, hr⟩, hrest⟩ := h
    exact ⟨stateAfter (e.action.run e.env) st, ⟨ht, ha, stateAfter_eq hr⟩, ih _ hrest⟩

/-- The cell of a new node and of a new link. -/
def nodeCell (ctx : ScContext) (type : ScType) : ScElement :=
  { ScElement.zero with
    type := scFlagsRemove (scTypeNode ||| type), accessLevels := ctx.accessLevels }

def linkCell (ctx : ScContext) (isConst : Bool) : ScElement :=
  { ScElement.zero with
    type := scTypeLink ||| (if isConst then scTypeConst else scTypeVar)
    accessLevels := ctx.accessLevels }

/-- All that one step can do, besides taking and giving back locks. -/
inductive Effect (env : ScEnv) (st : ScStorage) : StoreAction → ScStorage → Prop where
  | same (action : StoreAction) (st' : ScStorage) : st'.unlocked = st.unlocked →
      Effect env st action st'
  | nodeNew (ctx : ScContext) (type : ScType) (a : ScAddr) (st' : ScStorage) :
      scTypeArcMask &&& type = 0 →
      Created st a (Function.update st.cell a (nodeCell ctx type)) st' →
      Effect env st (.call (.nodeNew ctx type)) st'
  | linkNew (ctx : ScContext) (isConst : Bool) (a : ScAddr) (st' : ScStorage) :
      Created st a (Function.update st.cell a (linkCell ctx isConst)) st' →
      Effect env st (.call (.linkNew ctx isConst)) st'
  | arcNew (ctx : ScContext) (type : ScType) (beg end_ a : ScAddr) (st' : ScStorage) :
      ArcCreated st type beg end_ ctx.accessLevels a st' →
      Effect env st (.call (.arcNew ctx type beg end_)) st'
  | freed (ctx : ScContext) (order : HashOrder) (a : ScAddr) (st' : ScStorage) :
      Live st.cell a → (∀ x ∈ checkedElements st.cell a, CanWrite ctx st.cell x) →
      Erased env st (erasedList order st.cell a) st' →
      Effect env st (.call (.elementFree ctx order a)) st'
  | contentSet (ctx : ScContext) (a : ScAddr) (stream : ScStream) (st' : ScStorage) :
      Live st.cell a → (st.cell a).isLink = true →
      CellUpdated st a (contentCell (env.checksum stream.bytes) stream.bytes (st.cell a))
        (storeFm a (env.checksum stream.bytes) stream.bytes
          (freeContent env st.cell a st.fileMemory)) st' →
      Effect env st (.call (.setLinkContent ctx a stream)) st'
  | levelsSet (ctx : ScContext) (a : ScAddr) (levels : ScAccessLevels) (st' : ScStorage) :
      (st.cell a).type ≠ 0 →
      CellUpdated st a { st.cell a with accessLevels := scAccessLvlMin ctx.accessLevels levels }
        st.fileMemory st' →
      Effect env st (.call (.setAccessLevels ctx a levels)) st'
  | subtypeChanged (ctx : ScContext) (a : ScAddr) (type : ScType) (st' : ScStorage) :
      Live st.cell a → (st.cell a).type &&& scTypeElementMask = type &&& scTypeElementMask →
      CellUpdated st a { st.cell a with type := type } st.fileMemory st' →
      Effect env st (.call (.changeElementSubtype ctx a type)) st'
  | refTaken (a : ScAddr) (st' : ScStorage) : st.refCount a+1 < 4294967295 →
      CountSet st a (st.refCount a+1) st' → Effect env st (.ref a) st'
  | refDropped (a : ScAddr) (st' : ScStorage) : Unrefed st a st' → Effect env st (.unref a) st'

section
variable {env : ScEnv} {L : SectionKey → LockWord} {as : List ScAddr} {st st' : ScStorage}
  {a : ScAddr}

theorem ReadOnly.unlocked {α : Type} {x : StoreM α} (h : ReadOnly x) {r : Unit}
    (hs : ignoreResult x st = .ok (r, st')) : st'.unlocked = st.unlocked := by
  have hkeep := keeps_ignoreResult (h st)
  exact wp_ok (Q := fun _ s => s.unlocked = st.unlocked) (hkeep st rfl) hs

/-- What a returning call of `x` says, without its result. -/
theorem ignoreResult_ok {α : Type} {x : StoreM α} {Q : α → ScStorage → Prop} {r : Unit}
    (h : IfReturns x Q st) (hs : ignoreResult x st = .ok (r, st')) : ∃ v, Q v st' := by
  have hwp : IfReturns (ignoreResult x) (fun _ s => ∃ v, Q v s) st := by
    unfold ignoreResult
    rw [IfReturns, wp_bind]
    apply wp_mono h _ (fun _ _ => trivial)
    intro v s hq
    exact ⟨v, hq⟩
  exact wp_ok hwp hs

theorem step_effect (hwf : StoreWf st) (hc : CellsOk st) (action : StoreAction)
    (hallow : action.Allowed st) (hs : StoreStep st ⟨env, action⟩ st') : Effect env st action st' := by
  have hstart := holds_start env.thread st hwf.1 hwf.2
  cases action with
  | ref a =>
    have hpost := wp_ok (elementRef_wp hstart a) hs
    exact Effect.refTaken a st' hpost.1.bounded hpost.2.1
  | unref a =>
    have hwp := wp_mono (elementUnref_wp hstart a) (fun _ _ hq => hq) (fun _ _ => trivial)
    obtain ⟨v, _, _, hun, _⟩ := ignoreResult_ok hwp hs
    exact Effect.refDropped a st' hun
  | lock a => exact Effect.same _ _ ((readOnly_lock env a).unlocked hs)
  | unlock a =>
    have hkeep := readOnly_unlock env a st st rfl
    exact Effect.same _ _ (wp_ok (Q := fun _ s => s.unlocked = st.unlocked) hkeep hs)
  | call c =>
    cases c with
    | isElement a => exact Effect.same _ _ ((readOnly_isElement a).unlocked hs)
    | elementFree ctx order a =>
      have hwp := wp_mono (elementFree_wp hstart hc ctx order a) (fun _ _ hq => hq)
        (fun _ _ => trivial)
      obtain ⟨v, _, hout⟩ := ignoreResult_ok hwp hs
      cases hout with
      | dead _ _ hu => exact Effect.same _ _ hu
      | denied _ _ _ hu => exact Effect.same _ _ hu
      | freed _ hl hall he => exact Effect.freed ctx order a st' hl hall he
    | nodeNew ctx type =>
      have hwp : IfReturns (scStorageNodeNew env ctx type) (fun r s => scTypeArcMask &&& type = 0 ∧
          (s.unlocked = st.unlocked ∨
            Created st r (Function.update st.cell r (nodeCell ctx type)) s)) st := by
        unfold scStorageNodeNew scStorageNodeNewExt
        rw [IfReturns, wp_bind, wp_scAssert]
        refine ⟨fun hm => ?_, fun _ => trivial⟩
        apply wp_mono (newElement_created hstart hc ctx _) _ (fun _ _ => trivial)
        intro r s hr
        exact ⟨by simpa using hm, hr⟩
      obtain ⟨r, hm, hu | hcr⟩ := ignoreResult_ok hwp hs
      · exact Effect.same _ _ hu
      · exact Effect.nodeNew ctx type r st' hm hcr
    | linkNew ctx isConst =>
      obtain ⟨r, hu | hcr⟩ := ignoreResult_ok (newElement_created hstart hc ctx _) hs
      · exact Effect.same _ _ hu
      · exact Effect.linkNew ctx isConst r st' hcr
    | arcNew ctx type beg end_ =>
      obtain ⟨r, hu | hcr⟩ := ignoreResult_ok (arcNew_created hstart hc ctx type beg end_) hs
      · exact Effect.same _ _ hu
      · exact Effect.arcNew ctx type beg end_ r st' hcr
    | getElementType ctx a => exact Effect.same _ _ ((readOnly_readElement a _).unlocked hs)
    | changeElementSubtype ctx a type =>
      obtain ⟨r, hu | ⟨hl, hm, hup⟩⟩ := ignoreResult_ok (changeSubtype_effect hstart hc ctx a type) hs
      · exact Effect.same _ _ hu
      · exact Effect.subtypeChanged ctx a type st' hl hm hup
    | getArcBegin ctx a => exact Effect.same _ _ ((readOnly_readElement a _).unlocked hs)
    | getArcEnd ctx a => exact Effect.same _ _ ((readOnly_readElement a _).unlocked hs)
    | getArcInfo ctx a => exact Effect.same _ _ ((readOnly_readElement a _).unlocked hs)
    | setLinkContent ctx a stream =>
      obtain ⟨r, hout⟩ := ignoreResult_ok (setLinkContent_effect hstart hc ctx a stream) hs
      cases hout with
      | failed _ _ _ hu => exact Effect.same _ _ hu
      | set _ hl _ hk hup => exact Effect.contentSet ctx a stream st' hl hk hup
    | getLinkContent ctx a => exact Effect.same _ _ ((readOnly_getLinkContent ctx a).unlocked hs)
    | findLinksWithContent ctx stream =>
      exact Effect.same _ _ ((readOnly_findLinks ctx stream).unlocked hs)
    | setAccessLevels ctx a levels =>
      obtain ⟨r, hu | hup⟩ := ignoreResult_ok
        (setAccessLevels_effect hstart hc ctx a levels hallow) hs
      · exact Effect.same _ _ hu
      · exact Effect.levelsSet ctx a levels st' hallow hup
    | getAccessLevels ctx a => exact Effect.same _ _ ((readOnly_getAccessLevels ctx a).unlocked hs)

/-! Each effect keeps the cells in order. -/

theorem CellUpdated.cellsOk {el : ScElement} {fm : FileMemory} (h : CellUpdated st a el fm st')
    (hc : CellsOk st) (ha : (st.cell a).type ≠ 0) (htype : el.type ≠ 0)
    (hlive : scElementIsValid el = scElementIsValid (st.cell a))
    (harc : el.isArc = (st.cell a).isArc) (hlink : el.isLink = (st.cell a).isLink)
    (hfirst : ∀ d, el.first d = (st.cell a).first d)
    (hfield : (st.cell a).isArc = true → ∀ f, el.arc f = (st.cell a).arc f) : CellsOk st' :=
  hc.update ha el h.holes h.cell h.refCount htype hlive harc hlink hfirst hfield

theorem andNot_and_of_disjoint (t flag mask : ScType) (hm : ~~~flag &&& mask = mask) :
    (t &&& ~~~flag) &&& mask = t &&& mask := by
  rw [BitVec.and_assoc, hm]

/-- The type of a link keeps all its bits but the flag for its storage form. -/
theorem contentCell_type (sum : Fin 32 → ScByte) (bytes : List ScByte) (el : ScElement)
    (mask : ScType) (hm : scFlagLinkSelfContainer &&& mask = 0)
    (hm' : ~~~scFlagLinkSelfContainer &&& mask = mask) :
    (contentCell sum bytes el).type &&& mask = el.type &&& mask := by
  unfold contentCell
  split_ifs
  · exact andNot_and_of_disjoint _ _ _ hm'
  · exact or_and_of_disjoint _ _ _ hm

theorem contentCell_first (sum : Fin 32 → ScByte) (bytes : List ScByte) (el : ScElement) (d : Dir) :
    (contentCell sum bytes el).first d = el.first d := by
  unfold contentCell
  split_ifs <;> cases d <;> rfl

theorem contentCell_live (sum : Fin 32 → ScByte) (bytes : List ScByte) {el : ScElement}
    (hlink : el.isLink = true) (hlive : scElementIsValid el = true) :
    scElementIsValid (contentCell sum bytes el) = true := by
  have hl : (contentCell sum bytes el).type &&& scTypeLink = el.type &&& scTypeLink :=
    contentCell_type sum bytes el _ (by decide) (by decide)
  have hr : (contentCell sum bytes el).type &&& scFlagRequestDeletion =
      el.type &&& scFlagRequestDeletion :=
    contentCell_type sum bytes el _ (by decide) (by decide)
  apply valid_of_type
  · apply @type_ne_zero_of_and _ scTypeLink
    rw [hl]
    exact bne_iff_ne.mp hlink
  · rw [hr]
    exact ((valid_iff_type _).mp hlive).2

theorem contentSet_cells (hc : CellsOk st) (hl : Live st.cell a) (hk : (st.cell a).isLink = true)
    {sum : Fin 32 → ScByte} {bytes : List ScByte} {fm : FileMemory}
    (hup : CellUpdated st a (contentCell sum bytes (st.cell a)) fm st') : CellsOk st' := by
  have hvalid := contentCell_live sum bytes hk hl
  apply hup.cellsOk hc (type_of_live hl) ((valid_iff_type _).mp hvalid).1
  · rw [hvalid]
    exact hl.symm
  · unfold ScElement.isArc
    rw [contentCell_type _ _ _ _ (by decide) (by decide)]
  · unfold ScElement.isLink
    rw [contentCell_type _ _ _ _ (by decide) (by decide)]
  · exact contentCell_first _ _ _
  · intro harc
    rw [hc.oneClass a harc] at hk
    exact absurd hk (by decide)

theorem and_of_mask {t t' mask sub : ScType} (h : t &&& mask = t' &&& mask)
    (hs : mask &&& sub = sub) : t &&& sub = t' &&& sub := by
  have h' := congrArg (fun x : ScType => x &&& sub) h
  simp only [BitVec.and_assoc, hs] at h'
  exact h'

theorem subtypeChanged_cells (hc : CellsOk st) (hl : Live st.cell a) {type : ScType}
    (hmask : (st.cell a).type &&& scTypeElementMask = type &&& scTypeElementMask) (hne : type ≠ 0)
    (hflag : type &&& scFlagRequestDeletion = 0) {fm : FileMemory}
    (hup : CellUpdated st a { st.cell a with type := type } fm st') : CellsOk st' := by
  have hvalid : scElementIsValid ({ st.cell a with type := type } : ScElement) = true :=
    valid_of_type hne hflag
  apply hup.cellsOk hc (type_of_live hl) hne
  · rw [hvalid]
    exact hl.symm
  · unfold ScElement.isArc
    rw [and_of_mask hmask (by decide)]
  · unfold ScElement.isLink
    rw [and_of_mask hmask (by decide)]
  · intro d
    cases d <;> rfl
  · intro _ f
    rfl

theorem levelsSet_cells (hc : CellsOk st) (ha : (st.cell a).type ≠ 0) {levels : ScAccessLevels}
    {fm : FileMemory}
    (hup : CellUpdated st a { st.cell a with accessLevels := levels } fm st') : CellsOk st' := by
  apply hup.cellsOk hc ha ha
  · rfl
  · rfl
  · rfl
  · intro d
    cases d <;> rfl
  · intro _ f
    rfl

theorem refTaken_cells (hc : CellsOk st) (hb : st.refCount a+1 < 4294967295)
    (hset : CountSet st a (st.refCount a+1) st') : CellsOk st' := by
  refine ⟨hset.holes hc.holes, ?_, ?_, ?_, ?_, ?_, ?_⟩
  · rw [hset.cell]
    exact hc.zero
  · rw [hset.cell]
    exact hc.inRange
  · rw [hset.cell]
    exact hc.oneClass
  · intro y hy
    rw [hset.cell] at hy
    have href := hc.referenced y hy
    rw [hset.refCount, Function.update_apply]
    split_ifs with hya
    · rw [hya] at href
      omega
    · exact href
  · intro y
    rw [hset.refCount, Function.update_apply]
    split_ifs
    · exact hb
    · exact hc.bounded y
  · rw [hset.cell]
    exact hc.arcs

theorem Unrefed.cell_other (hun : Unrefed st a st') (y : ScAddr)
    (hy : y = a → st.refCount a ≠ 1) : st'.cell y = st.cell y := by
  rw [hun.cell]
  split_ifs with hone
  · rw [Function.update_of_ne (fun he => hy he hone)]
  · rfl

/-- A reference of an element that has another one, or of an element that is dead already. -/
theorem Unrefed.same (hun : Unrefed st a st') (hallow : Live st.cell a → 2 ≤ st.refCount a)
    (y : ScAddr) (hy : Live st.cell y) : st'.cell y = st.cell y := by
  apply hun.cell_other
  rintro rfl hone
  have h2 := hallow hy
  omega

theorem Unrefed.live_iff (hun : Unrefed st a st') (hallow : Live st.cell a → 2 ≤ st.refCount a)
    (y : ScAddr) : Live st'.cell y ↔ Live st.cell y := by
  constructor
  · intro hy
    by_cases hya : y = a ∧ st.refCount a = 1
    · unfold Live at hy
      rw [hun.cell, if_pos hya.2, hya.1, Function.update_self] at hy
      exact absurd hy (by decide)
    · unfold Live at hy ⊢
      rwa [hun.cell_other y (fun he hone => hya ⟨he, hone⟩)] at hy
  · intro hy
    unfold Live
    rw [hun.same hallow y hy]
    exact hy

theorem refDropped_cells (hc : CellsOk st) (hallow : Live st.cell a → 2 ≤ st.refCount a)
    (hun : Unrefed st a st') : CellsOk st' := by
  have hcell := hun.cell_other
  have hzero (hone : st.refCount a = 1) : st'.cell a = ScElement.zero := by
    rw [hun.cell, if_pos hone, Function.update_self]
  have hlive := hun.live_iff hallow
  have hsame := hun.same hallow
  refine ⟨hun.holes hc.holes, ?_, ?_, ?_, ?_, ?_, ?_⟩
  · intro y hy
    by_cases hya : y = a ∧ st.refCount a = 1
    · rw [hya.1]
      exact hzero hya.2
    · rw [hcell y (fun he hone => hya ⟨he, hone⟩)] at hy ⊢
      exact hc.zero y hy
  · intro y hy
    by_cases hya : y = a ∧ st.refCount a = 1
    · rw [hya.1, hzero hya.2] at hy
      exact absurd rfl hy
    · rw [hcell y (fun he hone => hya ⟨he, hone⟩)] at hy
      exact hc.inRange y hy
  · intro y hy
    by_cases hya : y = a ∧ st.refCount a = 1
    · rw [hya.1, hzero hya.2] at hy
      exact absurd hy (by decide)
    · rw [hcell y (fun he hone => hya ⟨he, hone⟩)] at hy ⊢
      exact hc.oneClass y hy
  · intro y hy
    rw [hlive] at hy
    have href := hc.referenced y hy
    rw [hun.refCount, Function.update_apply]
    split_ifs with hya
    · rw [hya] at hy
      have h2 := hallow hy
      omega
    · exact href
  · intro y
    have hb := hc.bounded y
    rw [hun.refCount, Function.update_apply]
    split_ifs with hya
    · rw [hya] at hb
      omega
    · exact hb
  · apply hc.arcs.congr hlive
    · intro y hy
      rw [hsame y hy]
    · intro y d hy
      rw [hsame y hy]
    · intro y f hy
      rw [hsame y hy.1]

theorem nodeCell_type (ctx : ScContext) (type : ScType) : (nodeCell ctx type).type ≠ 0 := by
  have hnode : (nodeCell ctx type).type &&& scTypeNode ≠ 0 := by
    show scFlagsRemove (scTypeNode ||| type) &&& scTypeNode ≠ 0
    rw [flagsRemove_and _ _ (by decide), BitVec.and_or_distrib_right]
    intro h0
    exact absurd (BitVec.or_eq_zero_iff.mp h0).1 (by decide)
  exact type_ne_zero_of_and hnode

theorem nodeCell_isArc (ctx : ScContext) (type : ScType) (h : scTypeArcMask &&& type = 0) :
    (nodeCell ctx type).isArc = false := by
  have hmask : scFlagsRemove (scTypeNode ||| type) &&& scTypeArcMask = 0 := by
    rw [flagsRemove_and _ _ (by decide), BitVec.and_or_distrib_right, BitVec.and_comm type, h]
    decide
  show (scFlagsRemove (scTypeNode ||| type) &&& scTypeArcMask != 0) = false
  rw [hmask]
  rfl

theorem linkCell_type (ctx : ScContext) (isConst : Bool) :
    (linkCell ctx isConst).type ≠ 0 ∧ (linkCell ctx isConst).isArc = false := by
  cases isConst with
  | true =>
    have htype : (linkCell ctx true).type = scTypeLink ||| scTypeConst := rfl
    unfold ScElement.isArc
    rw [htype]
    decide
  | false =>
    have htype : (linkCell ctx false).type = scTypeLink ||| scTypeVar := rfl
    unfold ScElement.isArc
    rw [htype]
    decide

theorem Created.cells {el : ScElement} (h : Created st a (Function.update st.cell a el) st')
    (hc : CellsOk st) (htype : el.type ≠ 0) (harc : el.isArc = false)
    (hfirst : ∀ d, el.first d = ScAddr.empty) : CellsOk st' := by
  obtain ⟨s1, happ, hl, hw⟩ := h
  rw [← happ.cell] at hw
  exact hc.addElement happ hl hw htype harc hfirst

theorem Effect.cells {action : StoreAction} (h : Effect env st action st') (hc : CellsOk st)
    (hallow : action.Allowed st) : CellsOk st' := by
  cases h with
  | same _ _ hu => exact hc.of_unlocked hu
  | nodeNew ctx type a _ hm hcr =>
    apply hcr.cells hc (nodeCell_type ctx type) (nodeCell_isArc ctx type hm)
    intro d
    cases d <;> rfl
  | linkNew ctx isConst a _ hcr =>
    apply hcr.cells hc (linkCell_type ctx isConst).1 (linkCell_type ctx isConst).2
    intro d
    cases d <;> rfl
  | arcNew ctx type beg end_ a _ hcr => exact hcr.cells hc hallow
  | freed ctx order a _ hl _ he => exact he.cellsOk_closure hc hl
  | contentSet ctx a stream _ hl hk hup => exact contentSet_cells hc hl hk hup
  | levelsSet ctx a levels _ ha hup => exact levelsSet_cells hc ha hup
  | subtypeChanged ctx a type _ hl hm hup =>
    exact subtypeChanged_cells hc hl hm hallow.1 hallow.2.1 hup
  | refTaken a _ hb hset => exact refTaken_cells hc hb hset
  | refDropped a _ hun => exact refDropped_cells hc hallow hun

/-- A single thread meets no section of another one. -/
theorem storeStep_own (hwf : StoreWf st) {thread : ℕ} (hown : ∀ k, Lockable thread (st.locks k))
    (e : StoreEvent) (he : e.env.thread = thread) (hs : StoreStep st e st') (k : SectionKey) :
    Lockable thread (st'.locks k) := by
  obtain ⟨env, action⟩ := e
  subst he
  have hstart := holds_start env.thread st hwf.1 hwf.2
  have hlocked (as : List ScAddr) (h : Holds env.thread st.locks as st') :
      Lockable env.thread (st'.locks k) := h.lockable_now k (hown k)
  cases action with
  | call c =>
    have hpost := wp_ok (call_holds hstart c) hs
    by_cases hskip : c.SkipsUnlock st
    · obtain ⟨a, ha⟩ := hpost.2 hskip
      exact hlocked _ ha
    · exact hlocked _ (hpost.1 hskip)
  | ref a => exact hlocked _ (wp_ok (elementRef_wp hstart a) hs).2.2
  | unref a =>
    have hkeep := keeps_ignoreResult (elementUnref_keeps a) st hstart
    exact hlocked _ (wp_ok (Q := fun _ s => Holds env.thread st.locks [] s) hkeep hs)
  | lock a =>
    have hwp := wp_mono (elementLock_wp hstart a) (fun _ _ hq => hq) (fun _ _ => trivial)
    obtain ⟨r, _, _, hh⟩ := ignoreResult_ok hwp hs
    exact hlocked _ hh
  | unlock a =>
    rcases unlock_holds a hwf hs with rfl | ⟨L, h, h'⟩
    · exact hown k
    · exact h'.lockable_now k (h.lockable_of_now k (hown k))

theorem storeOk_step {thread : ℕ} (st : ScStorage) (e : StoreEvent) (st' : ScStorage)
    (h : StoreOk thread st) (hs : OwnStep thread st e st') : StoreOk thread st' := by
  have hwf' := storeStep_wf st e st' h.wf hs.step
  refine ⟨hwf', storeStep_own h.wf h.own e hs.thread_eq hs.step, ?_⟩
  exact (step_effect h.wf h.cells e.action hs.allowed hs.step).cells h.cells hs.allowed

theorem cells_empty (a : ScAddr) : ScStorage.empty.cell a = ScElement.zero := rfl

theorem storeOk_empty (thread : ℕ) : StoreOk thread ScStorage.empty := by
  have hdead (a : ScAddr) : ¬ Live ScStorage.empty.cell a := by
    unfold Live
    rw [cells_empty]
    decide
  refine ⟨storeWf_empty, fun k => Or.inl rfl, ?_, fun a _ => rfl, ?_, ?_, ?_, ?_, ?_⟩
  · intro n seg hn
    simp [ScStorage.empty] at hn
  · intro a ha
    exact absurd rfl ha
  · intro a ha
    rw [cells_empty] at ha
    exact absurd ha (by decide)
  · intro a ha
    exact absurd ha (hdead a)
  · intro a
    show (0 : ℤ) < 4294967295
    norm_num
  · exact ⟨hdead _, fun x _ hx => absurd hx.1 (hdead x), fun a _ ha => absurd ha (hdead a)⟩

/-- The invariant holds in every state that a single thread reaches. -/
theorem ownRun_storeOk {thread : ℕ} (evs : List StoreEvent) (st : ScStorage)
    (hr : Run (OwnStep thread) ScStorage.empty evs st) : StoreOk thread st :=
  run_invariant (StoreOk thread) storeOk_step evs _ st (storeOk_empty thread) hr

/-! What a step leaves of the other elements. -/

/-- An element that the creation of an arc finds is the same after it, but for its lists. -/
structure SameElement (st st' : ScStorage) (y : ScAddr) : Prop where
  type : (st'.cell y).type = (st.cell y).type
  accessLevels : (st'.cell y).accessLevels = (st.cell y).accessLevels
  data : ¬ LiveArc st.cell y → (st'.cell y).data = (st.cell y).data

theorem sameElement_of_eq {y : ScAddr} (h : st'.cell y = st.cell y) : SameElement st st' y := by
  refine ⟨?_, ?_, fun _ => ?_⟩
  · rw [h]
  · rw [h]
  · rw [h]

theorem SameElement.live {y : ScAddr} (h : SameElement st st' y) :
    Live st'.cell y ↔ Live st.cell y := by
  unfold Live scElementIsValid scElementIsRequestDeletion
  rw [h.type]

theorem linkCells_same {c : Cells} (type : ScType) (beg end_ : ScAddr) (levels : ScAccessLevels)
    (fo fi y : ScAddr) (hya : y ≠ a) :
    (linkCells type beg end_ levels fo fi a c y).type = (c y).type ∧
      (linkCells type beg end_ levels fo fi a c y).accessLevels = (c y).accessLevels ∧
      ((fo ≠ ScAddr.empty → y ≠ fo) → (fi ≠ ScAddr.empty → y ≠ fi) →
        (linkCells type beg end_ levels fo fi a c y).data = (c y).data) := by
  unfold linkCells
  rw [setHeads_eq]
  refine ⟨?_, ?_, ?_⟩
  · simp only [relinkCell_type, Function.update_of_ne hya]
  · simp only [relinkCell_eq, Function.update_of_ne hya]
    split_ifs <;> rfl
  · intro ho hi
    simp only [relinkCell_eq, Function.update_of_ne hya]
    rw [if_neg (fun hh => hi hh.2 hh.1), if_neg (fun hh => ho hh.2 hh.1)]

theorem Created.refCount {c : Cells} (h : Created st a c st') :
    st'.refCount = Function.update st.refCount a 1 ∧ st'.fileMemory = st.fileMemory ∧
      (st.cell a).type = 0 ∧ st'.cell = c := by
  obtain ⟨s, happ, _, hw⟩ := h
  exact ⟨by rw [hw.refCount, happ.refCount], by rw [hw.fileMemory, happ.fileMemory], happ.free,
    hw.cell⟩

theorem ArcCreated.same {type : ScType} {beg end_ : ScAddr} {levels : ScAccessLevels}
    (h : ArcCreated st type beg end_ levels a st') (hc : CellsOk st) (y : ScAddr) (hy : y ≠ a) :
    SameElement st st' y := by
  have hcell := h.created.refCount.2.2.2
  obtain ⟨ht, hl, hd⟩ := linkCells_same (c := st.cell) type beg end_ levels
    (st.cell beg).firstOutArc (st.cell end_).firstInArc y hy
  rw [← hcell] at ht hl hd
  refine ⟨ht, hl, ?_⟩
  intro hna
  apply hd
  · rintro hne rfl
    exact hna (hc.arcs.first_live h.beginLive .out hne)
  · rintro hne rfl
    exact hna (hc.arcs.first_live h.endLive .inp hne)

theorem ArcCreated.isArc {type : ScType} {beg end_ : ScAddr} {levels : ScAccessLevels}
    (h : ArcCreated st type beg end_ levels a st') (hc : CellsOk st) : LiveArc st'.cell a := by
  obtain ⟨s1, happ, hl, hw⟩ := h.created
  have hdead : ¬ Live st.cell a := fun hh => type_of_live hh happ.free
  have hadd := linkCells_added type beg end_ levels (hc.zero a happ.free)
    (fun he => hdead (he ▸ h.beginLive)) (fun he => hdead (he ▸ h.endLive)) happ.notEmpty
    (hc.arcs.ne_first hdead happ.notEmpty h.beginLive .out)
    (hc.arcs.ne_first hdead happ.notEmpty h.endLive .inp) (newArcCell_live _ _ _ _ _ _ _)
  rw [hw.cell]
  exact hadd.arc

theorem Unrefed.live_same (h : Unrefed st a st') (y : ScAddr) (hy : Live st'.cell y) :
    st'.cell y = st.cell y := by
  rw [h.cell] at hy ⊢
  split_ifs at hy ⊢ with hone
  · by_cases hya : y = a
    · unfold Live at hy
      rw [hya, Function.update_self] at hy
      exact absurd hy (by decide)
    · rw [Function.update_of_ne hya]
  · rfl

theorem flagsRemove_self (t : ScType) : scFlagsRemove t &&& scFlagLinkSelfContainer = 0 := by
  have hflag : ~~~(scFlagRequestDeletion ||| scFlagLinkSelfContainer) &&& scFlagLinkSelfContainer = 0 := by
    decide
  unfold scFlagsRemove
  rw [BitVec.and_assoc, hflag]
  exact BitVec.and_zero

end

end ScMachine.Store
