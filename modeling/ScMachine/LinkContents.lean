import ScMachine.ContentIndex

/-! Runs that set the contents of links: what is read from a link, and what a search by content
finds. -/
namespace ScMachine.Store
open ScMachine.StateExcept ScMachine.Runs ScMachine.InvertedIndex

/-- A step of one thread with one checksum function. A change of the subtype may move the flag for
the storage form of a content, so it is left out. -/
structure LinkStep (thread : ℕ) (checksum : List ScByte → Fin 32 → ScByte) (st : ScStorage)
    (e : StoreEvent) (st' : ScStorage) : Prop where
  own : OwnStep thread st e st'
  checksum_eq : e.env.checksum = checksum
  noSubtype : ∀ ctx a type, e.action ≠ .call (.changeElementSubtype ctx a type)

/-- The strings that the events set are among `S`. -/
def SetsFrom (S : Set (List ScByte)) (evs : List StoreEvent) : Prop :=
  ∀ e ∈ evs, ∀ ctx a stream, e.action = .call (.setLinkContent ctx a stream) → stream.bytes ∈ S

/-- What a call that returns `SC_RESULT_OK` sets on `y`. -/
def setBytes (st : ScStorage) (e : StoreEvent) (y : ScAddr) : Option (List ScByte) :=
  match e.action with
  | .call (.setLinkContent ctx a stream) =>
    match scStorageSetLinkContent e.env ctx a stream st with
    | .ok (.ok, _) => if y = a then some stream.bytes else none
    | _ => none
  | _ => none

/-- The contents last set, after one more step; an element that was not there before has none. -/
def contentsAfter (st : ScStorage) (e : StoreEvent) (m : Contents) : Contents := fun y =>
  if scElementIsValid (st.cell y) then (setBytes st e y).getD (m y) else []

/-- A step with the contents that have been set. -/
structure ContentStep (thread : ℕ) (checksum : List ScByte → Fin 32 → ScByte)
    (p : ScStorage × Contents) (e : StoreEvent) (p' : ScStorage × Contents) : Prop where
  link : LinkStep thread checksum p.1 e p'.1
  contents : p'.2 = contentsAfter p.1 e p.2

/-- The element is a link before and after, with the same cell content, or it is none. -/
structure SameLink (st st' : ScStorage) (y : ScAddr) : Prop where
  iff : (Live st'.cell y ∧ (st'.cell y).isLink = true) ↔ (Live st.cell y ∧ (st.cell y).isLink = true)
  type : Live st.cell y → (st.cell y).isLink = true → (st'.cell y).type = (st.cell y).type
  data : Live st.cell y → (st.cell y).isLink = true → (st'.cell y).data = (st.cell y).data

structure NewElement (st st' : ScStorage) (y : ScAddr) : Prop where
  dead : ¬ Live st.cell y
  data : (st'.cell y).data = ScElement.zero.data
  flag : (st'.cell y).type &&& scFlagLinkSelfContainer = 0

/-- What a step does to the links: it sets the content of one, or it removes some elements and
leaves the other links as they are. -/
inductive LinkEffect (env : ScEnv) (st : ScStorage) (action : StoreAction) (st' : ScStorage)
    (set : ScAddr → Option (List ScByte)) : Prop where
  | contentSet (ctx : ScContext) (a : ScAddr) (stream : ScStream) :
      action = .call (.setLinkContent ctx a stream) → CanWrite ctx st.cell a → Live st.cell a →
      (st.cell a).isLink = true →
      CellUpdated st a (contentCell (env.checksum stream.bytes) stream.bytes (st.cell a))
        (storeFm a (env.checksum stream.bytes) stream.bytes
          (freeContent env st.cell a st.fileMemory)) st' →
      (∀ y, set y = if y = a then some stream.bytes else none) → LinkEffect env st action st' set
  | removed (D : List ScAddr) :
      st'.fileMemory = D.foldr (freeContent env st.cell) st.fileMemory →
      (∀ x ∈ D, Live st.cell x ∧ ¬ Live st'.cell x ∧
        ∃ ctx order a, action = .call (.elementFree ctx order a) ∧
          (∀ z ∈ checkedElements st.cell a, CanWrite ctx st.cell z) ∧ InClosure st.cell a x) →
      (∀ y, y ∉ D → SameLink st st' y ∨ NewElement st st' y) →
      (∀ y, set y = none) → LinkEffect env st action st' set

section
variable {env : ScEnv} {thread : ℕ} {checksum : List ScByte → Fin 32 → ScByte}
  {S : Set (List ScByte)} {st st' : ScStorage} {m m' : Contents} {a x y : ScAddr} {e : StoreEvent}

theorem sameLink_of_type (hc : CellsOk st) (ht : (st'.cell y).type = (st.cell y).type)
    (hd : ¬ LiveArc st.cell y → (st'.cell y).data = (st.cell y).data) : SameLink st st' y := by
  refine ⟨?_, fun _ _ => ht, ?_⟩
  · unfold Live scElementIsValid scElementIsRequestDeletion ScElement.isLink
    rw [ht]
  · intro _ hk
    apply hd
    intro harc
    rw [hc.oneClass y harc.2] at hk
    exact absurd hk (by decide)

theorem sameLink_of_eq (h : st'.cell y = st.cell y) : SameLink st st' y := by
  refine ⟨?_, fun _ _ => ?_, fun _ _ => ?_⟩
  · unfold Live
    rw [h]
  · rw [h]
  · rw [h]

theorem newElement_or_same {el : ScElement}
    (hcr : Created st a (Function.update st.cell a el) st') (hdata : el.data = ScElement.zero.data)
    (hflag : el.type &&& scFlagLinkSelfContainer = 0) (y : ScAddr) :
    SameLink st st' y ∨ NewElement st st' y := by
  obtain ⟨_, _, hfree, hcell⟩ := hcr.refCount
  by_cases hya : y = a
  · right
    subst hya
    refine ⟨fun hl => type_of_live hl hfree, ?_, ?_⟩
    · rw [hcell, Function.update_self]
      exact hdata
    · rw [hcell, Function.update_self]
      exact hflag
  · left
    apply sameLink_of_eq
    rw [hcell, Function.update_of_ne hya]

/-- Every effect but a content or a subtype that is set removes some elements and leaves the other
links. -/
theorem Effect.linkEffect {action : StoreAction} (h : Effect env st action st') (hc : CellsOk st)
    (hallow : action.Allowed st)
    (hset : ∀ ctx a stream, action = .call (.setLinkContent ctx a stream) →
      st'.unlocked = st.unlocked)
    (hsub : ∀ ctx a type, action ≠ .call (.changeElementSubtype ctx a type)) :
    LinkEffect env st action st' (fun _ => none) := by
  have hkeep (hfm : st'.fileMemory = st.fileMemory)
      (hall : ∀ y, SameLink st st' y ∨ NewElement st st' y) :
      LinkEffect env st action st' (fun _ => none) :=
    LinkEffect.removed [] hfm (by simp) (fun y _ => hall y) (fun _ => rfl)
  have hsame (hu : st'.unlocked = st.unlocked) :
      LinkEffect env st action st' (fun _ => none) :=
    hkeep (fileMemory_of_unlocked hu) fun y => Or.inl (sameLink_of_eq (by rw [cell_of_unlocked hu]))
  cases h with
  | same _ _ hu => exact hsame hu
  | nodeNew ctx type a _ hm hcr =>
    exact hkeep hcr.refCount.2.1 (newElement_or_same hcr rfl (flagsRemove_self _))
  | linkNew ctx isConst a _ hcr =>
    apply hkeep hcr.refCount.2.1 (newElement_or_same hcr rfl _)
    show (scTypeLink ||| (if isConst then scTypeConst else scTypeVar)) &&&
      scFlagLinkSelfContainer = 0
    cases isConst <;> decide
  | arcNew ctx type beg end_ a _ hcr =>
    apply hkeep hcr.created.refCount.2.1
    intro y
    left
    by_cases hya : y = a
    · -- the arc is no link, and its cell was free
      subst hya
      have hdead : ¬ Live st.cell y := fun hl => type_of_live hl hcr.created.refCount.2.2.1
      refine ⟨?_, fun hl _ => absurd hl hdead, fun hl _ => absurd hl hdead⟩
      have hnl := (hcr.cells hc hallow).oneClass y (hcr.isArc hc).2
      rw [hnl]
      simp [hdead]
    · have hs := hcr.same hc y hya
      exact sameLink_of_type hc hs.type hs.data
  | freed ctx order a _ hl hall he =>
    apply LinkEffect.removed (erasedList order st.cell a) he.fileMemory
    · intro x hx
      have hcl := (mem_erasedList hc.arcs hl order x).mp hx
      exact ⟨hcl.live hl, he.cells.dead x hx, ctx, order, a, rfl, hall, hcl⟩
    · intro y hy
      have hs := he.cells.same y hy
      exact Or.inl (sameLink_of_type hc hs.type hs.data)
    · intro _
      rfl
  | contentSet ctx a stream _ _ _ _ => exact hsame (hset ctx a stream rfl)
  | levelsSet ctx a levels _ ha hup =>
    apply hkeep hup.fileMemory
    intro y
    left
    by_cases hya : y = a
    · subst hya
      have hcell : st'.cell y = { st.cell y with
          accessLevels := scAccessLvlMin ctx.accessLevels levels } := by
        rw [hup.cell, Function.update_self]
      exact sameLink_of_type hc (by rw [hcell]) (fun _ => by rw [hcell])
    · exact sameLink_of_eq (by rw [hup.cell, Function.update_of_ne hya])
  | subtypeChanged ctx a type _ _ _ _ => exact absurd rfl (hsub ctx a type)
  | refTaken a _ hb hcount =>
    exact hkeep hcount.fileMemory fun y => Or.inl (sameLink_of_eq (by rw [hcount.cell]))
  | refDropped a _ hun =>
    apply hkeep hun.fileMemory
    intro y
    left
    by_cases hy : Live st.cell y
    · exact sameLink_of_eq (hun.same hallow y hy)
    · refine ⟨?_, fun hl _ => absurd hl hy, fun hl _ => absurd hl hy⟩
      simp [hun.live_iff hallow y, hy]

/-- What one step does to the links and to the contents. -/
theorem LinkStep.effect (h : LinkStep thread checksum st e st') (hok : StoreOk thread st) :
    LinkEffect e.env st e.action st' (setBytes st e) := by
  obtain ⟨env, action⟩ := e
  have hstart := holds_start env.thread st hok.wf.1 hok.wf.2
  have heff := step_effect hok.wf hok.cells action h.own.allowed h.own.step
  by_cases hcall : ∃ ctx a stream, action = .call (.setLinkContent ctx a stream)
  · obtain ⟨ctx, a, stream, rfl⟩ := hcall
    have hstep : ignoreResult (scStorageSetLinkContent env ctx a stream) st = .ok ((), st') :=
      h.own.step
    have hwp := setLinkContent_effect hstart hok.cells ctx a stream
    unfold IfReturns Wp at hwp
    cases hrun : scStorageSetLinkContent env ctx a stream st with
    | error stop =>
      unfold ignoreResult at hstep
      rw [run_bind_error hrun] at hstep
      exact absurd hstep (by simp)
    | ok p =>
      obtain ⟨r, s⟩ := p
      rw [hrun] at hwp
      unfold ignoreResult at hstep
      rw [run_bind_ok hrun] at hstep
      have hs : s = st' := by
        simp only [pure, StateT.pure, Except.pure] at hstep
        exact (Prod.mk.inj (Except.ok.inj hstep)).2
      subst hs
      cases hwp with
      | failed _ _ hr hu =>
        have hnone : setBytes st ⟨env, .call (.setLinkContent ctx a stream)⟩ = fun _ => none := by
          funext y
          simp only [setBytes, hrun]
          cases r with
          | ok => exact absurd rfl hr
          | _ => rfl
        rw [hnone]
        exact heff.linkEffect hok.cells h.own.allowed (fun _ _ _ _ => hu) h.noSubtype
      | set _ hl hw hk hup =>
        apply LinkEffect.contentSet ctx a stream rfl hw hl hk hup
        intro y
        simp only [setBytes, hrun]
  · have hnone : setBytes st ⟨env, action⟩ = fun _ => none := by
      funext y
      cases action with
      | call c =>
        cases c with
        | setLinkContent ctx a stream => exact absurd ⟨ctx, a, stream, rfl⟩ hcall
        | _ => rfl
      | _ => rfl
    rw [hnone]
    exact heff.linkEffect hok.cells h.own.allowed
      (fun ctx a stream he => absurd ⟨ctx, a, stream, he⟩ hcall) h.noSubtype

/-! The invariant of the cells: each link has the content that was set on it. -/

theorem contentsAfter_kept (hy : Live st.cell y) (hset : setBytes st e y = none) :
    contentsAfter st e m y = m y := by
  have hv : scElementIsValid (st.cell y) = true := hy
  unfold contentsAfter
  rw [if_pos hv, hset]
  rfl

theorem contentsAfter_set {bytes : List ScByte} (hy : Live st.cell y)
    (hset : setBytes st e y = some bytes) : contentsAfter st e m y = bytes := by
  have hv : scElementIsValid (st.cell y) = true := hy
  unfold contentsAfter
  rw [if_pos hv, hset]
  rfl

theorem contentsAfter_new (hy : ¬ Live st.cell y) : contentsAfter st e m y = [] := by
  have hv : ¬ scElementIsValid (st.cell y) = true := hy
  unfold contentsAfter
  rw [if_neg hv]

/-- The checksum is a text of hexadecimal digits. -/
def HexText (checksum : List ScByte → Fin 32 → ScByte) : Prop :=
  ∀ bytes i, IsHexDigit (checksum bytes i)

theorem HexText.ne_zero (h : HexText checksum) (bytes : List ScByte) (i : Fin 32) :
    checksum bytes i ≠ 0 := by
  intro h0
  rcases h bytes i with ⟨hlo, _⟩ | ⟨hlo, _⟩
  · rw [h0] at hlo
    exact absurd hlo (by decide)
  · rw [h0] at hlo
    exact absurd hlo (by decide)

/-- A link that was never set is empty. -/
theorem CellContent.nil_of_unset {fm : FileMemory} {el : ScElement} {bytes : List ScByte}
    (h : CellContent checksum S fm el bytes) (hhex : HexText checksum) (hset : ¬ ContentSet el) :
    bytes = [] := by
  unfold ContentSet at hset
  push Not at hset
  cases h with
  | unset _ _ => rfl
  | inline _ hf _ _ _ _ => exact absurd hset.1 hf
  | stored _ _ _ hd _ _ =>
    refine absurd ?_ hset.2
    apply decide_eq_false
    intro h0
    exact hhex.ne_zero bytes 0 ((congrFun hd 0).symm.trans (h0 0))

theorem content_storeFm {fm : FileMemory} (a : ScAddr) (sum k : Fin 32 → ScByte)
    (bytes : List ScByte) : (storeFm a sum bytes fm).content k = fm.content k ∨
      k = sum ∧ (storeFm a sum bytes fm).content k = some bytes := by
  unfold storeFm scFmAddrRefAppend scFmWriteStream
  split_ifs
  · by_cases hk : k = sum
    · right
      simp [hk]
    · left
      simp [Function.update_of_ne hk]
  · left
    rfl

structure ContentsOk (thread : ℕ) (checksum : List ScByte → Fin 32 → ScByte)
    (S : Set (List ScByte)) (p : ScStorage × Contents) : Prop where
  store : StoreOk thread p.1
  indexed : ContentIndexed p.1
  keys : ContentKeysHex p.1.fileMemory
  cell : ∀ y, Live p.1.cell y → (p.1.cell y).isLink = true →
    CellContent checksum S p.1.fileMemory (p.1.cell y) (p.2 y)

/-- A content in the database is under a key where its link is in the index. -/
theorem ContentsOk.inIndex {p : ScStorage × Contents} (h : ContentsOk thread checksum S p)
    (hhex : HexText checksum) (hy : Live p.1.cell y) (hk : (p.1.cell y).isLink = true)
    (hf : (p.1.cell y).type &&& scFlagLinkSelfContainer = 0) {bytes : List ScByte}
    (hsum : (p.1.cell y).data = checksum bytes) :
    InIndex p.1.fileMemory (p.1.cell y).data y := by
  apply h.indexed y hy hk hf
  rw [hsum]
  exact hhex.ne_zero bytes 0

theorem LinkEffect.cellContent {action : StoreAction} {set : ScAddr → Option (List ScByte)}
    (h : LinkEffect env st action st' set) (hok : ContentsOk thread checksum S (st, m))
    (hhex : HexText checksum) (hinj : Set.InjOn checksum S) (henv : env.checksum = checksum)
    (hS : ∀ ctx a stream, action = .call (.setLinkContent ctx a stream) → stream.bytes ∈ S)
    (hkept : ∀ y, Live st.cell y → set y = none → m' y = m y)
    (hset : ∀ y bytes, Live st.cell y → set y = some bytes → m' y = bytes)
    (hnew : ∀ y, ¬ Live st.cell y → m' y = []) (hy : Live st'.cell y)
    (hk : (st'.cell y).isLink = true) :
    CellContent checksum S st'.fileMemory (st'.cell y) (m' y) := by
  cases h with
  | contentSet ctx a stream hact _ hl hlink hup hsets =>
    have hbytes := hS ctx a stream hact
    by_cases hya : y = a
    · subst hya
      rw [hset y stream.bytes hl (by rw [hsets, if_pos rfl]), hup.fileMemory, hup.cell,
        Function.update_self, henv]
      exact cellContent_set y _ _ hbytes
    · have hcell : st'.cell y = st.cell y := by rw [hup.cell, Function.update_of_ne hya]
      unfold Live at hy
      rw [hcell] at hy hk
      rw [hkept y hy (by rw [hsets, if_neg hya])]
      apply (hok.cell y hy hk).congr (by rw [hcell]) (by rw [hcell])
      intro hf hmem hsum hc
      -- another link with the same content keeps it in the database
      have hin := hok.inIndex hhex hy hk hf hsum
      have hfree := (@InIndex.freeContent env _ _ _ _ hin (Ne.symm hya) st.cell).2
      rw [hup.fileMemory]
      rcases content_storeFm a (env.checksum stream.bytes) (st.cell y).data stream.bytes with
        hsame | ⟨hkey, hnow⟩
      · rw [hsame, hfree]
        exact hc
      · rw [hnow]
        rw [henv, hsum] at hkey
        rw [hinj hmem hbytes hkey]
  | removed D hfm hD hrest hsets =>
    have hyD : y ∉ D := fun hh => (hD y hh).2.1 hy
    rcases hrest y hyD with hs | hn
    · obtain ⟨hl, hlink⟩ := hs.iff.mp ⟨hy, hk⟩
      rw [hkept y hl (hsets y)]
      apply (hok.cell y hl hlink).congr (hs.type hl hlink) (hs.data hl hlink)
      intro hf _ hsum hc
      rw [hfm, ((hok.inIndex hhex hl hlink hf hsum).erased st.cell D hyD).2]
      exact hc
    · rw [hnew y hn.dead]
      apply CellContent.unset hn.flag
      rw [hn.data]
      exact fun _ => rfl

theorem contentsOk_step (hhex : HexText checksum) (hinj : Set.InjOn checksum S)
    {p p' : ScStorage × Contents} (h : ContentsOk thread checksum S p)
    (hs : ContentStep thread checksum p e p')
    (hS : ∀ ctx a stream, e.action = .call (.setLinkContent ctx a stream) → stream.bytes ∈ S) :
    ContentsOk thread checksum S p' := by
  have hlink := hs.link
  have henv : HexChecksum e.env := by
    intro bytes i
    rw [hlink.checksum_eq]
    exact hhex bytes i
  refine ⟨storeOk_step _ e _ h.store hlink.own, ?_, ?_, ?_⟩
  · exact (step_effect h.store.wf h.store.cells e.action hlink.own.allowed
      hlink.own.step).contentIndexed h.store.cells hlink.own.allowed h.indexed
  · exact (contentKeysHex_kept e.env henv).step e.action _ _ h.keys hlink.own.step
  · intro y hy hk
    apply (hlink.effect h.store).cellContent h hhex hinj hlink.checksum_eq hS _ _ _ hy hk
    · intro z hz hset
      rw [hs.contents]
      exact contentsAfter_kept hz hset
    · intro z bytes hz hset
      rw [hs.contents]
      exact contentsAfter_set hz hset
    · intro z hz
      rw [hs.contents]
      exact contentsAfter_new hz

theorem dead_empty (y : ScAddr) : ¬ Live ScStorage.empty.cell y := by
  unfold Live
  rw [cells_empty]
  decide

theorem contentsOk_empty (thread : ℕ) (checksum : List ScByte → Fin 32 → ScByte)
    (S : Set (List ScByte)) (m : Contents) :
    ContentsOk thread checksum S (ScStorage.empty, m) := by
  refine ⟨storeOk_empty thread, ?_, ?_, ?_⟩
  · intro y hy
    exact absurd hy (dead_empty y)
  · intro k hk
    exact absurd rfl hk
  · intro y hy
    exact absurd hy (dead_empty y)

theorem contentRun_ok (hhex : HexText checksum) (hinj : Set.InjOn checksum S)
    (evs : List StoreEvent) (hS : SetsFrom S evs) (p : ScStorage × Contents)
    (hr : Run (ContentStep thread checksum) (ScStorage.empty, fun _ => []) evs p) :
    ContentsOk thread checksum S p :=
  run_invariant_on (ContentsOk thread checksum S) evs _ p
    (fun _ e _ he h hs => contentsOk_step hhex hinj h hs (hS e he)) (contentsOk_empty _ _ _ _) hr

theorem lockOutcome_live (hok : StoreOk env.thread st) (hy : Live st.cell y) :
    lockOutcome env y st = .ok true := by
  obtain ⟨⟨seg, hseg⟩, hoff⟩ := hok.cells.loaded hok.wf.2 (type_of_live hy)
  have hown : ¬ ((st.locks y.key).1 ≠ 0 ∧ (st.locks y.key).1 ≠ env.thread) := by
    rintro ⟨h0, hother⟩
    rcases hok.own y.key with hfree | ⟨hmine, _⟩
    · rw [hfree] at h0
      exact h0 rfl
    · exact hother hmine
  unfold lockOutcome
  rw [hseg, if_neg (by simp), if_neg (by omega), if_neg hown]

/-! The invariant of the index: on the keys `T` it holds each link once, under the key of its
content. -/

structure IndexOk (thread : ℕ) (checksum : List ScByte → Fin 32 → ScByte) (S : Set (List ScByte))
    (T : Set (Fin 32 → ScByte)) (p : ScStorage × Contents) : Prop where
  contents : ContentsOk thread checksum S p
  shape : IndexShape checksum S p.1.fileMemory
  indexes : Indexes T p.1.fileMemory.addrs (Keyed checksum p.1.cell p.2)

/-- The elements whose old entry a step has to take off the index: a link that is set, or the
elements of a deletion, by a context that passes the check of the write levels. -/
def Rekeyed (st : ScStorage) (action : StoreAction) (x : ScAddr) : Prop :=
  (∃ ctx stream, action = .call (.setLinkContent ctx x stream) ∧ CanWrite ctx st.cell x) ∨
    ∃ ctx order a, action = .call (.elementFree ctx order a) ∧
      (∀ z ∈ checkedElements st.cell a, CanWrite ctx st.cell z) ∧ InClosure st.cell a x

variable {T : Set (Fin 32 → ScByte)}

/-- The key of an entry is computed from the cell, unless the link is taken for one never set. -/
theorem ContentsOk.key (h : ContentsOk thread checksum S (st, m)) (henv : env.checksum = checksum)
    (hblind : Live st.cell x → BlindLink (st.cell x) → checksum [] ∉ T) (k : Fin 32 → ScByte)
    (hkT : k ∈ T) (hkey : Keyed checksum st.cell m x k) :
    (st.cell x).isLink = true ∧ scElementIsChecksumEmpty (st.cell x) = false ∧
      contentChecksum env (st.cell x) = k := by
  obtain ⟨⟨hl, hlink, hset⟩, hsum⟩ := hkey
  have hcc := h.cell x hl hlink
  have hne : scElementIsChecksumEmpty (st.cell x) = false := by
    rcases hset with hf | hne
    · by_contra hempty
      have hb : BlindLink (st.cell x) := ⟨hlink, hf, by simpa using hempty⟩
      have hnil : m x = [] := hcc.blind_nil hb
      rw [hnil] at hsum
      exact hblind hl hb (hsum ▸ hkT)
    · exact hne
  exact ⟨hlink, hne, (hcc.checksum_eq henv hne).trans hsum⟩

theorem contentSet_contentCell (hhex : HexText checksum) (bytes : List ScByte) (el : ScElement) :
    ContentSet (contentCell (checksum bytes) bytes el) := by
  unfold contentCell
  split_ifs
  · right
    unfold scElementIsChecksumEmpty
    apply decide_eq_false
    intro h0
    exact hhex.ne_zero bytes 0 (h0 0)
  · exact Or.inl (flagSelfContainer_or _)

theorem contentSet_congr {el el' : ScElement} (ht : el'.type = el.type) (hd : el'.data = el.data) :
    ContentSet el' ↔ ContentSet el := by
  unfold ContentSet scElementIsChecksumEmpty
  rw [ht, hd]

theorem LinkEffect.indexes {action : StoreAction} {set : ScAddr → Option (List ScByte)}
    (h : LinkEffect env st action st' set) (hok : IndexOk thread checksum S T (st, m))
    (hhex : HexText checksum) (henv : env.checksum = checksum)
    (hblind : ∀ x, Rekeyed st action x → Live st.cell x → BlindLink (st.cell x) →
      checksum [] ∉ T)
    (hkept : ∀ y, Live st.cell y → set y = none → m' y = m y)
    (hset : ∀ y bytes, Live st.cell y → set y = some bytes → m' y = bytes) :
    Indexes T st'.fileMemory.addrs (Keyed checksum st'.cell m') := by
  cases h with
  | contentSet ctx a stream hact hw hl hlink hup hsets =>
    have hkey := hok.contents.key henv (hblind a (Or.inl ⟨ctx, stream, hact, hw⟩))
    rw [hup.fileMemory, addrs_storeFm, henv]
    apply (indexes_freeContent hok.indexes hkey).append
    · rintro _ ⟨_, hne⟩
      exact hne rfl
    · intro b k _
      by_cases hba : b = a
      · subst hba
        have hcell : st'.cell b = contentCell (checksum stream.bytes) stream.bytes (st.cell b) := by
          rw [hup.cell, Function.update_self, henv]
        have hm' : m' b = stream.bytes := hset b stream.bytes hl (by rw [hsets, if_pos rfl])
        have hb : Live st'.cell b ∧ (st'.cell b).isLink = true ∧ ContentSet (st'.cell b) := by
          unfold Live ScElement.isLink
          rw [hcell]
          refine ⟨contentCell_live _ _ hlink hl, ?_, contentSet_contentCell hhex _ _⟩
          rw [contentCell_type _ _ _ _ (by decide) (by decide)]
          exact hlink
        unfold Keyed
        rw [hm']
        simp only [hb, and_self, true_and, ne_eq, not_true_eq_false, and_false, false_or]
        exact eq_comm
      · have hcell : st'.cell b = st.cell b := by rw [hup.cell, Function.update_of_ne hba]
        have hsame : Keyed checksum st'.cell m' b k ↔ Keyed checksum st.cell m b k := by
          unfold Keyed Live
          rw [hcell]
          apply and_congr_right
          rintro ⟨hlb, _⟩
          rw [hkept b hlb (by rw [hsets, if_neg hba])]
        rw [hsame]
        simp [hba]
  | removed D hfm hD hrest hsets =>
    have hkeys : ∀ x ∈ D, ∀ k ∈ T, Keyed checksum st.cell m x k → (st.cell x).isLink = true ∧
        scElementIsChecksumEmpty (st.cell x) = false ∧ contentChecksum env (st.cell x) = k := by
      intro x hx
      obtain ⟨_, _, ctx, order, a, hact, hall, hcl⟩ := hD x hx
      exact hok.contents.key henv (hblind x (Or.inr ⟨ctx, order, a, hact, hall, hcl⟩))
    rw [hfm]
    apply (indexes_erased D hok.indexes hkeys).congr
    intro b k _
    by_cases hbD : b ∈ D
    · have hdead := (hD b hbD).2.1
      constructor
      · intro hk
        exact absurd hk.1.1 hdead
      · intro hk
        exact absurd hbD hk.2
    rw [and_iff_left hbD]
    rcases hrest b hbD with hs | hn
    · constructor
      · rintro ⟨⟨hl', hlink', hcs'⟩, hsum⟩
        obtain ⟨hl, hlink⟩ := hs.iff.mp ⟨hl', hlink'⟩
        rw [hkept b hl (hsets b)] at hsum
        exact ⟨⟨hl, hlink, (contentSet_congr (hs.type hl hlink) (hs.data hl hlink)).mp hcs'⟩, hsum⟩
      · rintro ⟨⟨hl, hlink, hcs⟩, hsum⟩
        obtain ⟨hl', hlink'⟩ := hs.iff.mpr ⟨hl, hlink⟩
        refine ⟨⟨hl', hlink', ?_⟩, ?_⟩
        · exact (contentSet_congr (hs.type hl hlink) (hs.data hl hlink)).mpr hcs
        · rw [hkept b hl (hsets b)]
          exact hsum
    · constructor
      · rintro ⟨⟨_, _, hcs⟩, _⟩
        rcases hcs with hf | hne
        · exact absurd hn.flag hf
        · unfold scElementIsChecksumEmpty at hne
          rw [hn.data] at hne
          exact absurd (fun _ => rfl) (of_decide_eq_false hne)
      · intro hk
        exact absurd hk.1.1 hn.dead

theorem LinkEffect.shape {action : StoreAction} {set : ScAddr → Option (List ScByte)}
    (h : LinkEffect env st action st' set) (henv : env.checksum = checksum)
    (hS : ∀ ctx a stream, action = .call (.setLinkContent ctx a stream) → stream.bytes ∈ S)
    (hok : IndexShape checksum S st.fileMemory) : IndexShape checksum S st'.fileMemory := by
  cases h with
  | contentSet ctx a stream hact _ _ _ hup _ =>
    rw [hup.fileMemory, henv]
    exact (hok.freeContent env st.cell a).storeFm a (hS ctx a stream hact)
  | removed D hfm _ _ _ =>
    rw [hfm]
    exact hok.erased env st.cell D

theorem indexOk_step (hhex : HexText checksum) (hinj : Set.InjOn checksum S)
    {p p' : ScStorage × Contents} (h : IndexOk thread checksum S T p)
    (hs : ContentStep thread checksum p e p')
    (hS : ∀ ctx a stream, e.action = .call (.setLinkContent ctx a stream) → stream.bytes ∈ S)
    (hblind : ∀ x, Rekeyed p.1 e.action x → Live p.1.cell x → BlindLink (p.1.cell x) →
      checksum [] ∉ T) :
    IndexOk thread checksum S T p' := by
  have heff := hs.link.effect h.contents.store
  refine ⟨contentsOk_step hhex hinj h.contents hs hS, ?_, ?_⟩
  · exact heff.shape hs.link.checksum_eq hS h.shape
  · apply heff.indexes h hhex hs.link.checksum_eq hblind
    · intro y hy hset
      rw [hs.contents]
      exact contentsAfter_kept hy hset
    · intro y bytes hy hset
      rw [hs.contents]
      exact contentsAfter_set hy hset

theorem indexOk_empty (thread : ℕ) (checksum : List ScByte → Fin 32 → ScByte)
    (S : Set (List ScByte)) (T : Set (Fin 32 → ScByte)) (m : Contents) :
    IndexOk thread checksum S T (ScStorage.empty, m) := by
  refine ⟨contentsOk_empty _ _ _ _, ⟨?_, ?_⟩, ?_, ?_⟩
  · intro k hk
    exact absurd hk (by simp [ScStorage.empty])
  · intro k hk
    exact absurd rfl hk
  · intro k _
    exact List.nodup_nil
  · intro k _ y
    constructor
    · intro hy
      exact absurd hy List.not_mem_nil
    · intro hy
      exact absurd hy.1.1 (dead_empty y)

/-- A link with the empty content is not looked for under the keys of other strings. -/
theorem ContentsOk.blind_notMem {p : ScStorage × Contents} (h : ContentsOk thread checksum S p)
    (hinj : Set.InjOn checksum S) (hl : Live p.1.cell x) (hb : BlindLink (p.1.cell x)) :
    checksum [] ∉ checksum '' (S \ {[]}) := by
  rintro ⟨s, ⟨hs, hne⟩, hsum⟩
  have hcc := h.cell x hl hb.1
  have hmem : p.2 x ∈ S := hcc.mem (Or.inl hb.2.1)
  rw [hcc.blind_nil hb] at hmem
  exact hne (hinj hs hmem hsum)

theorem contentRun_indexOk (hhex : HexText checksum) (hinj : Set.InjOn checksum S)
    (evs : List StoreEvent) (hS : SetsFrom S evs) (p : ScStorage × Contents)
    (hr : Run (ContentStep thread checksum) (ScStorage.empty, fun _ => []) evs p) :
    IndexOk thread checksum S (checksum '' (S \ {[]})) p :=
  run_invariant_on (IndexOk thread checksum S (checksum '' (S \ {[]}))) evs _ p
    (fun _ e _ he h hs => indexOk_step hhex hinj h hs (hS e he)
      (fun _ _ hl hb => h.contents.blind_notMem hinj hl hb))
    (indexOk_empty _ _ _ _ _) hr

/-- Every run of the store is one with the contents that it sets. -/
theorem contentRun_of_linkRun {step : ScStorage → StoreEvent → ScStorage → Prop}
    (hstep : ∀ s e s', step s e s' → LinkStep thread checksum s e s') (evs : List StoreEvent)
    (st st' : ScStorage) (m : Contents) (hr : Run step st evs st') :
    ∃ m', Run (fun p e p' => step p.1 e p'.1 ∧ ContentStep thread checksum p e p') (st, m) evs
      (st', m') := by
  induction evs generalizing st m with
  | nil => exact ⟨m, by rw [show st' = st from hr]; rfl⟩
  | cons e evs ih =>
    obtain ⟨s, hs, hr⟩ := hr
    obtain ⟨m', hm⟩ := ih s (contentsAfter st e m) hr
    exact ⟨m', (s, contentsAfter st e m), ⟨hs, hstep _ _ _ hs, rfl⟩, hm⟩

/-- A link that can be locked gives what is in its cell or in the database. -/
theorem getLinkContent_live (hok : StoreOk env.thread st) (hy : Live st.cell y)
    (hk : (st.cell y).isLink = true) (ctx : ScContext) :
    outcome (scStorageGetLinkContent env ctx y) st =
      if scAccessLvlCheckRead ctx.accessLevels (st.cell y).accessLevels then
        (linkContent env (st.cell y) st.fileMemory).map fun c => (.ok, c)
      else .ok (.errorNoReadRights, none) := by
  rw [getLinkContent_outcome hok.wf ctx y hy hk, lockOutcome_live hok hy]
  rfl

/-- The links of a list that a context may read. -/
theorem readableOutcome_live (hok : StoreOk env.thread st) (ctx : ScContext) (as : List ScAddr)
    (hlive : ∀ a ∈ as, Live st.cell a) :
    readableOutcome env ctx st as = .ok (true, as.filter fun a =>
      scAccessLvlCheckRead ctx.accessLevels (st.cell a).accessLevels) := by
  induction as with
  | nil => rfl
  | cons a as ih =>
    have hrest := ih fun b hb => hlive b (List.mem_cons_of_mem _ hb)
    unfold readableOutcome
    rw [lockOutcome_live hok (hlive a List.mem_cons_self), hrest, List.filter_cons]
    rfl

/-- The result of a search whose list of links is `as`. -/
theorem findLinks_live (hok : StoreOk env.thread st) (ctx : ScContext) (stream : ScStream)
    (hread : stream.readable = true) (hempty : NoEmpty st.fileMemory.addrs)
    (hlive : ∀ a ∈ entries st.fileMemory.addrs (env.checksum stream.bytes), Live st.cell a) :
    ∃ r l, outcome (scStorageFindLinksWithContent env ctx stream) st = .ok (r, l, l.length) ∧
      l = (entries st.fileMemory.addrs (env.checksum stream.bytes)).filter (fun a =>
        scAccessLvlCheckRead ctx.accessLevels (st.cell a).accessLevels) ∧
      (r = .ok ↔ l ≠ []) := by
  have hsum : scLinkCalculateChecksum env stream = some (env.checksum stream.bytes) := by
    unfold scLinkCalculateChecksum
    rw [if_pos (Or.inr hread)]
  unfold outcome scStorageFindLinksWithContent
  rw [hsum]
  simp only
  rw [run_bind_ok (show (get : StoreM ScStorage) st = .ok (st, st) from rfl)]
  unfold entries at hlive ⊢
  cases haddrs : st.fileMemory.addrs (env.checksum stream.bytes) with
  | none =>
    refine ⟨.errorIo, [], rfl, by simp, ?_⟩
    simp
  | some as =>
    rw [haddrs] at hlive
    have hne : as ≠ [] := by
      rintro rfl
      exact hempty _ haddrs
    simp only [Option.getD_some] at hlive ⊢
    rw [if_neg hne]
    have hrun := @readableLinks_run env st hok.wf ctx as
    rw [readableOutcome_live hok ctx as hlive] at hrun
    rw [run_bind_ok hrun]
    simp only [Bool.not_true, Bool.false_eq_true, if_false]
    split_ifs with hnone
    · refine ⟨.errorNotFound, [], rfl, hnone.symm, ?_⟩
      simp
    · exact ⟨.ok, _, rfl, rfl, by simp [hnone]⟩

end

/-- The last 32 hexadecimal digits of a number, as text. -/
def hexDigits (n : ℕ) (i : Fin 32) : ScByte :=
  let d := n/16^(31-i.val)%16
  BitVec.ofNat 8 (if d < 10 then 48+d else 87+d)

theorem isHexDigit_hexDigits (n : ℕ) (i : Fin 32) : IsHexDigit (hexDigits n i) := by
  have hd : n/16^(31-i.val)%16 < 16 := Nat.mod_lt _ (by norm_num)
  unfold IsHexDigit hexDigits
  simp only [BitVec.toNat_ofNat]
  split_ifs
  · left
    omega
  · right
    omega

/-- Too long for a link to keep it in its own cell. -/
def fortyLetters : List ScByte := List.replicate 40 97

/-- The truncated SHA-256 texts of the empty string, of "a" and of forty times "a". -/
def exampleChecksum (bytes : List ScByte) : Fin 32 → ScByte :=
  hexDigits (if bytes = [] then 0xe3b0c44298fc1c149afbf4c8996fb924
    else if bytes = fortyLetters then 0xe33cdf9c7f7120b98e8c78408953e07f
    else 0xca978112ca1bbdcafac231b39a23dc4d)

def exampleStrings : Set (List ScByte) := {[], [97], fortyLetters}

theorem exampleChecksum_hexText : HexText exampleChecksum := fun _ i => isHexDigit_hexDigits _ i

theorem exampleChecksum_ne : exampleChecksum [97] ≠ exampleChecksum [] := by
  intro h
  exact absurd (congrFun h 0) (by decide)

theorem exampleChecksum_forty : exampleChecksum fortyLetters ≠ exampleChecksum [97] ∧
    exampleChecksum fortyLetters ≠ exampleChecksum [] := by
  constructor
  · intro h
    exact absurd (congrFun h 0) (by decide)
  · intro h
    exact absurd (congrFun h 2) (by decide)

theorem exampleChecksum_injOn : Set.InjOn exampleChecksum exampleStrings := by
  obtain ⟨hletter, hempty⟩ := exampleChecksum_forty
  intro s hs t ht hst
  rcases hs with rfl | rfl | rfl
  · rcases ht with rfl | rfl | rfl
    · rfl
    · exact absurd hst.symm exampleChecksum_ne
    · exact absurd hst.symm hempty
  · rcases ht with rfl | rfl | rfl
    · exact absurd hst exampleChecksum_ne
    · rfl
    · exact absurd hst.symm hletter
  · rcases ht with rfl | rfl | rfl
    · exact absurd hst hempty
    · exact absurd hst hletter
    · rfl

def linkEnv : ScEnv := { exampleEnv with checksum := exampleChecksum }

def linkNewEvent : StoreEvent := ⟨linkEnv, .call (.linkNew exampleContext true)⟩

def streamOf (bytes : List ScByte) (h : bytes.length < 4294967296) : ScStream := ⟨bytes, true, h⟩

/-- The empty content and the content "a" are set on the link at offset 1. -/
def setEmptyEvent : StoreEvent :=
  ⟨linkEnv, .call (.setLinkContent exampleContext ⟨0, 1⟩ (streamOf [] (by decide)))⟩

theorem letter_fits : ([97] : List ScByte).length < 4294967296 := by decide

def setLetterEvent : StoreEvent :=
  ⟨linkEnv, .call (.setLinkContent exampleContext ⟨0, 1⟩ (streamOf [97] letter_fits))⟩

theorem fortyLetters_fit : fortyLetters.length < 4294967296 := by decide

/-- The next link, at offset 33, is given a content that goes to the file memory. -/
def setFortyLettersEvent : StoreEvent :=
  ⟨linkEnv, .call (.setLinkContent exampleContext ⟨0, 33⟩ (streamOf fortyLetters fortyLetters_fit))⟩

def storeWithLetter : ScStorage :=
  stateAfterEvents [linkNewEvent, setLetterEvent] ScStorage.empty

/-- The calls of the runs below. -/
def ExampleEvent (e : StoreEvent) : Prop :=
  e = linkNewEvent ∨ e = setEmptyEvent ∨ e = setLetterEvent ∨ e = setFortyLettersEvent

theorem setsFrom_exampleStrings (evs : List StoreEvent) (h : ∀ e ∈ evs, ExampleEvent e) :
    SetsFrom exampleStrings evs := by
  intro e he ctx a stream hact
  rcases h e he with rfl | rfl | rfl | rfl
  · simp [linkNewEvent] at hact
  · simp only [setEmptyEvent, StoreAction.call.injEq, StorageCall.setLinkContent.injEq] at hact
    rw [← hact.2.2]
    exact Or.inl rfl
  · simp only [setLetterEvent, StoreAction.call.injEq, StorageCall.setLinkContent.injEq] at hact
    rw [← hact.2.2]
    exact Or.inr (Or.inl rfl)
  · simp only [setFortyLettersEvent, StoreAction.call.injEq, StorageCall.setLinkContent.injEq] at hact
    rw [← hact.2.2]
    exact Or.inr (Or.inr rfl)

theorem linkStep_of_returns {e : StoreEvent} {st : ScStorage} (h : ExampleEvent e)
    (hr : returns (e.action.run e.env) st = true) :
    LinkStep 1 exampleChecksum st e (stateAfter (e.action.run e.env) st) := by
  rcases h with rfl | rfl | rfl | rfl
  all_goals exact ⟨⟨rfl, trivial, stateAfter_eq hr⟩, rfl, fun _ _ _ h => by cases h⟩

/-- The contents set by some events one after another. -/
def contentsAfterEvents : List StoreEvent → ScStorage → Contents → Contents
  | [], _, m => m
  | e :: evs, st, m =>
    contentsAfterEvents evs (stateAfter (e.action.run e.env) st) (contentsAfter st e m)

def allReturn : List StoreEvent → ScStorage → Bool
  | [], _ => true
  | e :: evs, st =>
    returns (e.action.run e.env) st && allReturn evs (stateAfter (e.action.run e.env) st)

theorem exampleEvents_run (evs : List StoreEvent) (h : ∀ e ∈ evs, ExampleEvent e) (st : ScStorage)
    (m : Contents) (hr : allReturn evs st = true) :
    Run (ContentStep 1 exampleChecksum) (st, m) evs
      (stateAfterEvents evs st, contentsAfterEvents evs st m) := by
  induction evs generalizing st m with
  | nil => rfl
  | cons e evs ih =>
    simp only [allReturn, Bool.and_eq_true] at hr
    have hstep := linkStep_of_returns (h e (by simp)) hr.1
    have hrest := ih (fun e he => h e (by simp [he])) _ (contentsAfter st e m) hr.2
    exact ⟨_, ⟨hstep, rfl⟩, hrest⟩

def bothFormsEvents : List StoreEvent :=
  [linkNewEvent, linkNewEvent, setLetterEvent, setFortyLettersEvent]

def storeWithBothForms : ScStorage := stateAfterEvents bothFormsEvents ScStorage.empty

/-- What was last set on a link is read from it, in either storage form, whatever has been done
with other links. -/
theorem link_content_round_trip (thread : ℕ) (checksum : List ScByte → Fin 32 → ScByte)
    (S : Set (List ScByte)) (hinj : Set.InjOn checksum S) (hhex : HexText checksum)
    (evs : List StoreEvent) (hS : SetsFrom S evs) (st : ScStorage) (m : Contents)
    (hr : Run (ContentStep thread checksum) (ScStorage.empty, fun _ => []) evs (st, m))
    (env : ScEnv) (ht : env.thread = thread) (ctx : ScContext) (y : ScAddr) (hy : Live st.cell y)
    (hk : (st.cell y).isLink = true) :
    if scAccessLvlCheckRead ctx.accessLevels (st.cell y).accessLevels then
      ∃ r, outcome (scStorageGetLinkContent env ctx y) st = .ok (.ok, r) ∧ r.getD [] = m y
    else outcome (scStorageGetLinkContent env ctx y) st = .ok (.errorNoReadRights, none) := by
  subst ht
  have hok := contentRun_ok hhex hinj evs hS _ hr
  obtain ⟨r, hread, hbytes⟩ := (hok.cell y hy hk).linkContent hok.keys env
  rw [getLinkContent_live hok.store hy hk ctx, hread]
  split_ifs
  · exact ⟨r, rfl, hbytes⟩
  · rfl

theorem link_content_round_trip_letter :
    ∃ m : Contents, Run (ContentStep 1 exampleChecksum) (ScStorage.empty, fun _ => [])
        bothFormsEvents (storeWithBothForms, m) ∧ m ⟨0, 1⟩ = [97] ∧ m ⟨0, 33⟩ = fortyLetters ∧
      ∀ y ∈ [(⟨0, 1⟩ : ScAddr), ⟨0, 33⟩],
        if scAccessLvlCheckRead exampleContext.accessLevels
            (storeWithBothForms.cell y).accessLevels then
          ∃ r, outcome (scStorageGetLinkContent linkEnv exampleContext y) storeWithBothForms =
            .ok (.ok, r) ∧ r.getD [] = m y
        else outcome (scStorageGetLinkContent linkEnv exampleContext y) storeWithBothForms =
          .ok (.errorNoReadRights, none) := by
  have hlive : ∀ y ∈ [(⟨0, 1⟩ : ScAddr), ⟨0, 33⟩],
      Live storeWithBothForms.cell y ∧ (storeWithBothForms.cell y).isLink = true := by
    unfold Live
    decide +kernel
  have hevs : ∀ e ∈ bothFormsEvents, ExampleEvent e := by
    intro e he
    simp only [bothFormsEvents, List.mem_cons, List.not_mem_nil, or_false] at he
    rcases he with rfl | rfl | rfl | rfl
    · exact Or.inl rfl
    · exact Or.inl rfl
    · exact Or.inr (Or.inr (Or.inl rfl))
    · exact Or.inr (Or.inr (Or.inr rfl))
  have hrun := exampleEvents_run bothFormsEvents hevs ScStorage.empty (fun _ => [])
    (by decide +kernel)
  refine ⟨_, hrun, by decide +kernel, by decide +kernel, ?_⟩
  intro y hy
  obtain ⟨hy', hk⟩ := hlive y hy
  exact link_content_round_trip 1 exampleChecksum exampleStrings exampleChecksum_injOn
    exampleChecksum_hexText _ (setsFrom_exampleStrings _ hevs) storeWithBothForms _ hrun linkEnv
    rfl exampleContext y hy' hk

/-- The link gives the content `s`. -/
def HasContent (env : ScEnv) (st : ScStorage) (y : ScAddr) (s : List ScByte) : Prop :=
  ∃ r, linkContent env (st.cell y) st.fileMemory = .ok r ∧ r.getD [] = s

/-- A search for a content that is not empty finds exactly the links that have it and may be
read. -/
theorem search_by_content_exact (thread : ℕ) (checksum : List ScByte → Fin 32 → ScByte)
    (S : Set (List ScByte)) (hinj : Set.InjOn checksum S) (hhex : HexText checksum)
    (evs : List StoreEvent) (hS : SetsFrom S evs) (st : ScStorage)
    (hr : Run (LinkStep thread checksum) ScStorage.empty evs st) (env : ScEnv)
    (ht : env.thread = thread) (hsum : env.checksum = checksum) (ctx : ScContext)
    (stream : ScStream) (hread : stream.readable = true) (hne : stream.bytes ≠ [])
    (hmem : stream.bytes ∈ S) :
    ∃ r l, outcome (scStorageFindLinksWithContent env ctx stream) st = .ok (r, l, l.length) ∧
      l.Nodup ∧ (r = .ok ↔ l ≠ []) ∧
      ∀ y, y ∈ l ↔ (Live st.cell y ∧ (st.cell y).isLink = true) ∧
        HasContent env st y stream.bytes ∧
        scAccessLvlCheckRead ctx.accessLevels (st.cell y).accessLevels = true := by
  subst ht
  obtain ⟨m, hm⟩ := contentRun_of_linkRun (fun _ _ _ hs => hs) evs _ st (fun _ => []) hr
  have hm' := run_mono (fun _ _ _ hs => hs.2) evs _ _ hm
  have hok := contentRun_indexOk hhex hinj evs hS _ hm'
  have hcell := hok.contents.cell
  have hkT : checksum stream.bytes ∈ checksum '' (S \ {[]}) := ⟨_, ⟨hmem, hne⟩, rfl⟩
  have hentries := hok.indexes.mem _ hkT
  have hlive : ∀ a ∈ entries st.fileMemory.addrs (env.checksum stream.bytes), Live st.cell a := by
    rw [hsum]
    intro a ha
    exact ((hentries a).mp ha).1.1
  obtain ⟨r, l, hrun, hl, hres⟩ := findLinks_live hok.contents.store ctx stream hread
    hok.shape.noEmpty hlive
  rw [hsum] at hl
  refine ⟨r, l, hrun, ?_, hres, ?_⟩
  · rw [hl]
    exact (hok.indexes.nodup _ hkT).filter _
  intro y
  rw [hl, List.mem_filter, hentries y]
  constructor
  · rintro ⟨⟨⟨hy, hk, hset⟩, hkey⟩, hrights⟩
    have hc := hcell y hy hk
    obtain ⟨c, hread, hbytes⟩ := hc.linkContent hok.contents.keys env
    have hms : m y = stream.bytes := hinj (hc.mem hset) hmem hkey
    exact ⟨⟨hy, hk⟩, ⟨c, hread, hbytes.trans hms⟩, hrights⟩
  · rintro ⟨⟨hy, hk⟩, ⟨c, hread, hbytes⟩, hrights⟩
    have hc := hcell y hy hk
    obtain ⟨c', hread', hbytes'⟩ := hc.linkContent hok.contents.keys env
    have hcc : c' = c := Except.ok.inj (hread'.symm.trans hread)
    have hms : m y = stream.bytes := by
      subst hcc
      exact hbytes'.symm.trans hbytes
    refine ⟨⟨⟨hy, hk, ?_⟩, congrArg checksum hms⟩, hrights⟩
    by_contra hset
    exact hne (hms.symm.trans (hc.nil_of_unset hhex hset))

theorem search_by_content_exact_letter :
    (streamOf [97] (by decide)).bytes ≠ [] ∧ ∃ r l,
      outcome (scStorageFindLinksWithContent linkEnv exampleContext (streamOf [97] (by decide)))
        storeWithLetter = .ok (r, l, l.length) ∧
      l.Nodup ∧ (r = .ok ↔ l ≠ []) ∧
      ∀ y, y ∈ l ↔ (Live storeWithLetter.cell y ∧ (storeWithLetter.cell y).isLink = true) ∧
        HasContent linkEnv storeWithLetter y (streamOf [97] (by decide)).bytes ∧
        scAccessLvlCheckRead exampleContext.accessLevels
          (storeWithLetter.cell y).accessLevels = true :=
  ⟨by decide, search_by_content_exact 1 exampleChecksum exampleStrings exampleChecksum_injOn
    exampleChecksum_hexText [linkNewEvent, setLetterEvent] (setsFrom_exampleStrings _ (by simp [ExampleEvent]))
    storeWithLetter
    ⟨_, linkStep_of_returns (Or.inl rfl) (by decide +kernel), _,
      linkStep_of_returns (Or.inr (Or.inr (Or.inl rfl))) (by decide +kernel), rfl⟩
    linkEnv rfl rfl exampleContext _ rfl (by decide) (Or.inr (Or.inl rfl))⟩

/-- A step that takes no entry off the index for a link that passes for one never set. -/
structure SeenStep (thread : ℕ) (checksum : List ScByte → Fin 32 → ScByte) (st : ScStorage)
    (e : StoreEvent) (st' : ScStorage) : Prop where
  link : LinkStep thread checksum st e st'
  seen : ∀ x, Rekeyed st e.action x → Live st.cell x → ¬ BlindLink (st.cell x)

/-- As long as no link with the flag for a content in its cell and 32 zero bytes there is set or
deleted, every address of the index is a live link under the checksum of its content. -/
theorem index_addresses_right (thread : ℕ) (checksum : List ScByte → Fin 32 → ScByte)
    (S : Set (List ScByte)) (hinj : Set.InjOn checksum S) (hhex : HexText checksum)
    (evs : List StoreEvent) (hS : SetsFrom S evs) (st : ScStorage)
    (hr : Run (SeenStep thread checksum) ScStorage.empty evs st) (env : ScEnv)
    (k : Fin 32 → ScByte) (l : List ScAddr) (hl : st.fileMemory.addrs k = some l) :
    l.Nodup ∧ ∀ y ∈ l, Live st.cell y ∧ (st.cell y).isLink = true ∧
      ∃ s, HasContent env st y s ∧ checksum s = k := by
  obtain ⟨m, hm⟩ := contentRun_of_linkRun (fun _ _ _ hs => hs.link) evs _ st (fun _ => []) hr
  have hok : IndexOk thread checksum S Set.univ (st, m) := by
    apply run_invariant_on _ evs _ _ _ (indexOk_empty _ _ _ _ _) hm
    intro p e p' he h hs
    apply indexOk_step hhex hinj h hs.2 (hS e he)
    intro x hx hl hb
    exact absurd hb (hs.1.seen x hx hl)
  have hentries : entries st.fileMemory.addrs k = l := by
    unfold entries
    rw [hl]
    rfl
  constructor
  · rw [← hentries]
    exact hok.indexes.nodup k (Set.mem_univ k)
  · intro y hy
    rw [← hentries] at hy
    obtain ⟨⟨hlive, hk, _⟩, hkey⟩ := (hok.indexes.mem k (Set.mem_univ k) y).mp hy
    obtain ⟨r, hread, hbytes⟩ := (hok.contents.cell y hlive hk).linkContent hok.contents.keys env
    exact ⟨hlive, hk, m y, ⟨r, hread, hbytes⟩, hkey⟩

instance (el : ScElement) : Decidable (BlindLink el) := inferInstanceAs (Decidable (_ ∧ _ ∧ _))

theorem index_addresses_right_letter :
    storeWithLetter.fileMemory.addrs (exampleChecksum [97]) = some [⟨0, 1⟩] ∧
      ([⟨0, 1⟩] : List ScAddr).Nodup ∧ ∀ y ∈ ([⟨0, 1⟩] : List ScAddr),
        Live storeWithLetter.cell y ∧ (storeWithLetter.cell y).isLink = true ∧
          ∃ s, HasContent linkEnv storeWithLetter y s ∧
            exampleChecksum s = exampleChecksum [97] := by
  have haddrs : storeWithLetter.fileMemory.addrs (exampleChecksum [97]) = some [⟨0, 1⟩] := by
    decide +kernel
  refine ⟨haddrs, index_addresses_right 1 exampleChecksum exampleStrings exampleChecksum_injOn
    exampleChecksum_hexText [linkNewEvent, setLetterEvent] (setsFrom_exampleStrings _ (by simp [ExampleEvent]))
    storeWithLetter ?_ linkEnv _ _ haddrs⟩
  refine ⟨_, ⟨linkStep_of_returns (Or.inl rfl) (by decide +kernel), ?_⟩, _,
    ⟨linkStep_of_returns (Or.inr (Or.inr (Or.inl rfl))) (by decide +kernel), ?_⟩, rfl⟩
  · rintro x (⟨_, _, hact, _⟩ | ⟨_, _, _, hact, _⟩)
    · simp [linkNewEvent] at hact
    · simp [linkNewEvent] at hact
  · rintro x (⟨_, _, hact, _⟩ | ⟨_, _, _, hact, _⟩)
    · simp only [setLetterEvent, StoreAction.call.injEq, StorageCall.setLinkContent.injEq] at hact
      rw [← hact.2.1]
      intro _
      decide +kernel
    · simp [setLetterEvent] at hact

/-- After the empty string and then "a" have been set on a new link, the link still stands under
the checksum of the empty string. -/
def storeWithStaleEntry : ScStorage :=
  stateAfterEvents [linkNewEvent, setEmptyEvent, setLetterEvent] ScStorage.empty

theorem empty_content_entry_stays :
    Run (LinkStep 1 exampleChecksum) ScStorage.empty [linkNewEvent, setEmptyEvent, setLetterEvent]
        storeWithStaleEntry ∧
      storeWithStaleEntry.fileMemory.addrs (exampleChecksum []) = some [⟨0, 1⟩] ∧
      ¬ ∃ s, HasContent linkEnv storeWithStaleEntry ⟨0, 1⟩ s ∧
        exampleChecksum s = exampleChecksum [] := by
  refine ⟨⟨_, linkStep_of_returns (Or.inl rfl) (by decide +kernel), _,
    linkStep_of_returns (Or.inr (Or.inl rfl)) (by decide +kernel), _,
    linkStep_of_returns (Or.inr (Or.inr (Or.inl rfl))) (by decide +kernel), rfl⟩, by decide +kernel, ?_⟩
  rintro ⟨s, ⟨r, hread, rfl⟩, hsum⟩
  have hletter : linkContent linkEnv (storeWithStaleEntry.cell ⟨0, 1⟩)
      storeWithStaleEntry.fileMemory = .ok (some [97]) := by decide +kernel
  rw [hletter] at hread
  rw [← Except.ok.inj hread] at hsum
  exact exampleChecksum_ne hsum

end ScMachine.Store
