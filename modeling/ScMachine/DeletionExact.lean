import ScMachine.OwnRuns

/-! The arc lists in every reachable state, and the exactness of deletion: which elements go, what
the others keep, and whose write rights are asked for. -/
namespace ScMachine.Store
open ScMachine.StateExcept ScMachine.Runs ScMachine.DoublyLinked

/-- In every state that a single thread reaches, the two lists of every live element are linked in
both directions and hold exactly the live arcs that begin (end) there, the walk along them ends,
and the endpoints of every live arc are live. -/
theorem arc_lists_exact (thread : ℕ) (evs : List StoreEvent) (st : ScStorage)
    (hr : Run (OwnStep thread) ScStorage.empty evs st) :
    (∀ a d, Live st.cell a → ArcChain st.cell d a (arcList st.cell d a) ∧
        (arcList st.cell d a).length < walkFuel) ∧
      ∀ x d, LiveArc st.cell x → Live st.cell (ownerOf st.cell d x) := by
  have hok := (ownRun_storeOk evs st hr).cells.arcs
  constructor
  · intro a d ha
    have hchain := hok.arcList (d := d) ha
    refine ⟨hchain, ?_⟩
    have hlen := length_le_of_nodup_addrs _ hchain.nodup
    exact lt_of_le_of_lt hlen (by norm_num [walkFuel])
  · exact hok.endpoint

/-- Two nodes and an arc from the first to the second. -/
def arcEvents : List StoreEvent :=
  [nodeNewEvent, nodeNewEvent,
    ⟨exampleEnv, .call (.arcNew exampleContext scTypeArcCommon ⟨0, 1⟩ ⟨0, 33⟩)⟩]

def storeWithArc : ScStorage := stateAfterEvents arcEvents ScStorage.empty

theorem storeWithArc_run : Run (OwnStep 1) ScStorage.empty arcEvents storeWithArc :=
  ownRun_of_ownEvents arcEvents _ (by decide +kernel)

theorem arc_lists_exact_storeWithArc :
    LiveArc storeWithArc.cell ⟨0, 65⟩ ∧ Live storeWithArc.cell ⟨0, 1⟩ ∧
      ArcChain storeWithArc.cell .out ⟨0, 1⟩ (arcList storeWithArc.cell .out ⟨0, 1⟩) ∧
      arcList storeWithArc.cell .out ⟨0, 1⟩ = [⟨0, 65⟩] := by
  have harc : LiveArc storeWithArc.cell ⟨0, 65⟩ := by
    unfold LiveArc Live
    decide +kernel
  have hlive : Live storeWithArc.cell ⟨0, 1⟩ := by
    unfold Live
    decide +kernel
  have hexact := arc_lists_exact 1 arcEvents storeWithArc storeWithArc_run
  exact ⟨harc, hlive, (hexact.1 _ .out hlive).1, by decide +kernel⟩

/-! The content of the links that stay. -/

/-- The address `y` is in the index under the key `k`. -/
def InIndex (fm : FileMemory) (k : Fin 32 → ScByte) (y : ScAddr) : Prop :=
  ∃ l, fm.addrs k = some l ∧ y ∈ l

/-- Every link whose content is in the database is in the index under its key. -/
def ContentIndexed (st : ScStorage) : Prop :=
  ∀ y, Live st.cell y → (st.cell y).isLink = true →
    (st.cell y).type &&& scFlagLinkSelfContainer = 0 → (st.cell y).data 0 ≠ 0 →
    InIndex st.fileMemory (st.cell y).data y

section
variable {env : ScEnv} {st st' : ScStorage} {a x y : ScAddr} {fm : FileMemory}
  {k k' : Fin 32 → ScByte}

theorem InIndex.remove (h : InIndex fm k y) (hxy : x ≠ y) :
    InIndex (scFmAddrRefRemove x k' fm) k y ∧
      (scFmAddrRefRemove x k' fm).content k = fm.content k := by
  obtain ⟨l, hl, hy⟩ := h
  unfold scFmAddrRefRemove
  by_cases hk : k = k'
  · subst hk
    have hmem : y ∈ l.erase x := (List.mem_erase_of_ne (Ne.symm hxy)).mpr hy
    simp only [hl]
    rw [if_neg (List.ne_nil_of_mem hmem)]
    exact ⟨⟨l.erase x, by simp, hmem⟩, rfl⟩
  · cases h' : fm.addrs k' with
    | none => exact ⟨⟨l, hl, hy⟩, rfl⟩
    | some l' =>
      simp only
      split_ifs
      · exact ⟨⟨l, by simpa [Function.update_of_ne hk] using hl, hy⟩,
          by simp [Function.update_of_ne hk]⟩
      · exact ⟨⟨l, by simpa [Function.update_of_ne hk] using hl, hy⟩, rfl⟩

theorem content_remove_none (h : fm.content k = none) :
    (scFmAddrRefRemove x k' fm).content k = none := by
  unfold scFmAddrRefRemove
  cases fm.addrs k' with
  | none => exact h
  | some l =>
    simp only
    split_ifs
    · by_cases hk : k = k'
      · subst hk
        simp
      · simp [Function.update_of_ne hk, h]
    · exact h

theorem InIndex.freeContent (h : InIndex fm k y) (hxy : x ≠ y) (c : Cells) :
    InIndex (freeContent env c x fm) k y ∧ (freeContent env c x fm).content k = fm.content k := by
  unfold Store.freeContent
  split_ifs
  · exact h.remove hxy
  · exact ⟨h, rfl⟩

theorem InIndex.append (h : InIndex fm k y) (x : ScAddr) (k' : Fin 32 → ScByte) :
    InIndex (scFmAddrRefAppend x k' fm) k y := by
  obtain ⟨l, hl, hy⟩ := h
  unfold scFmAddrRefAppend
  by_cases hk : k = k'
  · subst hk
    exact ⟨l ++ [x], by simp [hl], List.mem_append_left _ hy⟩
  · exact ⟨l, by simpa [Function.update_of_ne hk] using hl, hy⟩

theorem inIndex_append (x : ScAddr) (k : Fin 32 → ScByte) (fm : FileMemory) :
    InIndex (scFmAddrRefAppend x k fm) k x :=
  ⟨(fm.addrs k).getD [] ++ [x], by simp [scFmAddrRefAppend], by simp⟩

theorem InIndex.storeFm (h : InIndex fm k y) (x : ScAddr) (sum : Fin 32 → ScByte)
    (bytes : List ScByte) : InIndex (storeFm x sum bytes fm) k y := by
  unfold Store.storeFm
  split_ifs
  · have hw : InIndex (scFmWriteStream sum bytes fm) k y := h
    exact hw.append x sum
  · exact h.append x sum

/-- The removal of other elements leaves the entry and the content of `y`. -/
theorem InIndex.erased (c : Cells) (D : List ScAddr) (hy : y ∉ D) (h : InIndex fm k y) :
    InIndex (D.foldr (Store.freeContent env c) fm) k y ∧
      (D.foldr (Store.freeContent env c) fm).content k = fm.content k := by
  induction D with
  | nil => exact ⟨h, rfl⟩
  | cons x D ih =>
    obtain ⟨hyx, hyD⟩ := not_or.mp (List.mem_cons.not.mp hy)
    obtain ⟨hin, hcont⟩ := ih hyD
    have hstep := @InIndex.freeContent env _ _ _ _ hin (Ne.symm hyx) c
    exact ⟨hstep.1, hstep.2.trans hcont⟩

theorem content_erased_none (c : Cells) (D : List ScAddr) (h : fm.content k = none) :
    (D.foldr (freeContent env c) fm).content k = none := by
  induction D with
  | nil => exact h
  | cons x D ih =>
    rw [List.foldr_cons]
    unfold freeContent
    split_ifs
    · exact content_remove_none ih
    · exact ih

theorem flagSelfContainer_or (t : ScType) :
    (t ||| scFlagLinkSelfContainer) &&& scFlagLinkSelfContainer ≠ 0 := by
  rw [BitVec.and_or_distrib_right]
  intro h0
  exact absurd (BitVec.or_eq_zero_iff.mp h0).2 (by decide)

/-- How a step can give a live link: it is new, it is as it was, or it is the one that the step
is about. -/
inductive LinkOrigin (env : ScEnv) (st : ScStorage) (action : StoreAction) (st' : ScStorage)
    (y : ScAddr) : Prop where
  | new : (st.cell y).type = 0 → (st'.cell y).data = ScElement.zero.data →
      (st'.cell y).type &&& scFlagLinkSelfContainer = 0 → LinkOrigin env st action st' y
  | kept : Live st.cell y → (st.cell y).isLink = true → (st'.cell y).type = (st.cell y).type →
      (st'.cell y).data = (st.cell y).data →
      (∀ k, InIndex st.fileMemory k y → InIndex st'.fileMemory k y) →
      LinkOrigin env st action st' y
  | contentSet (stream : ScStream) : Live st.cell y → (st.cell y).isLink = true →
      st'.cell y = contentCell (env.checksum stream.bytes) stream.bytes (st.cell y) →
      st'.fileMemory = storeFm y (env.checksum stream.bytes) stream.bytes
        (freeContent env st.cell y st.fileMemory) → LinkOrigin env st action st' y
  | subtypeChanged (ctx : ScContext) (type : ScType) : Live st.cell y → (st.cell y).isLink = true →
      action = .call (.changeElementSubtype ctx y type) →
      st'.cell y = { st.cell y with type := type } → st'.fileMemory = st.fileMemory →
      LinkOrigin env st action st' y

theorem LinkOrigin.of_same {action : StoreAction} (ht : (st'.cell y).type = (st.cell y).type)
    (hd : ¬ LiveArc st.cell y → (st'.cell y).data = (st.cell y).data)
    (hc : CellsOk st) (hy : Live st'.cell y) (hk : (st'.cell y).isLink = true)
    (hi : ∀ k, InIndex st.fileMemory k y → InIndex st'.fileMemory k y) :
    LinkOrigin env st action st' y := by
  have hl : Live st.cell y := by
    unfold Live scElementIsValid scElementIsRequestDeletion at hy ⊢
    rwa [ht] at hy
  have hk' : (st.cell y).isLink = true := by
    unfold ScElement.isLink at hk ⊢
    rwa [ht] at hk
  refine LinkOrigin.kept hl hk' ht (hd ?_) hi
  intro harc
  rw [hc.oneClass y harc.2] at hk'
  exact absurd hk' (by decide)

theorem LinkOrigin.of_cell {action : StoreAction} (hcell : st'.cell y = st.cell y)
    (hfm : st'.fileMemory = st.fileMemory) (hc : CellsOk st) (hy : Live st'.cell y)
    (hk : (st'.cell y).isLink = true) : LinkOrigin env st action st' y := by
  apply LinkOrigin.of_same (by rw [hcell]) (fun _ => by rw [hcell]) hc hy hk
  intro k hk
  rw [hfm]
  exact hk

/-- A created element is a new link, or the link was there. -/
theorem LinkOrigin.of_created {action : StoreAction} {el : ScElement}
    (hcr : Created st a (Function.update st.cell a el) st') (hdata : el.data = ScElement.zero.data)
    (hflag : el.type &&& scFlagLinkSelfContainer = 0) (hc : CellsOk st) (hy : Live st'.cell y)
    (hk : (st'.cell y).isLink = true) : LinkOrigin env st action st' y := by
  obtain ⟨_, hfm, hfree, hcell⟩ := hcr.refCount
  by_cases hya : y = a
  · rw [hya]
    apply LinkOrigin.new hfree
    · rw [hcell, Function.update_self]
      exact hdata
    · rw [hcell, Function.update_self]
      exact hflag
  · apply LinkOrigin.of_cell _ hfm hc hy hk
    rw [hcell, Function.update_of_ne hya]

theorem Effect.link_origin {action : StoreAction} (h : Effect env st action st') (hc : CellsOk st)
    (hallow : action.Allowed st) (hy : Live st'.cell y) (hk : (st'.cell y).isLink = true) :
    LinkOrigin env st action st' y := by
  cases h with
  | same _ _ hu =>
    exact LinkOrigin.of_cell (by rw [cell_of_unlocked hu]) (fileMemory_of_unlocked hu) hc hy hk
  | nodeNew ctx type a _ hm hcr =>
    exact LinkOrigin.of_created hcr rfl (flagsRemove_self _) hc hy hk
  | linkNew ctx isConst a _ hcr =>
    apply LinkOrigin.of_created hcr rfl _ hc hy hk
    show (scTypeLink ||| (if isConst then scTypeConst else scTypeVar)) &&&
      scFlagLinkSelfContainer = 0
    cases isConst <;> decide
  | arcNew ctx type beg end_ a _ hcr =>
    by_cases hya : y = a
    · have hc' := hcr.cells hc hallow
      rw [hya, hc'.oneClass a (hcr.isArc hc).2] at hk
      exact absurd hk (by decide)
    · have hs := hcr.same hc y hya
      apply LinkOrigin.of_same hs.type hs.data hc hy hk
      intro k hk
      rw [hcr.created.refCount.2.1]
      exact hk
  | freed ctx order a _ hl _ he =>
    have hyD : y ∉ erasedList order st.cell a := fun hh => he.cells.dead y hh hy
    have hs := he.cells.same y hyD
    apply LinkOrigin.of_same hs.type hs.data hc hy hk
    intro k hk
    rw [he.fileMemory]
    exact (hk.erased _ _ hyD).1
  | contentSet ctx a stream _ hl hlink hup =>
    by_cases hya : y = a
    · subst hya
      refine LinkOrigin.contentSet stream hl hlink ?_ hup.fileMemory
      rw [hup.cell, Function.update_self]
    · have hcell : st'.cell y = st.cell y := by rw [hup.cell, Function.update_of_ne hya]
      apply LinkOrigin.of_same (by rw [hcell]) (fun _ => by rw [hcell]) hc hy hk
      intro k hk
      rw [hup.fileMemory]
      exact (hk.freeContent (Ne.symm hya) _).1.storeFm _ _ _
  | levelsSet ctx a levels _ ha hup =>
    have htd : (st'.cell y).type = (st.cell y).type ∧ (st'.cell y).data = (st.cell y).data := by
      rw [hup.cell]
      by_cases hya : y = a
      · rw [hya, Function.update_self]
        exact ⟨rfl, rfl⟩
      · rw [Function.update_of_ne hya]
        exact ⟨rfl, rfl⟩
    apply LinkOrigin.of_same htd.1 (fun _ => htd.2) hc hy hk
    intro k hk
    rw [hup.fileMemory]
    exact hk
  | subtypeChanged ctx a type _ hl hm hup =>
    by_cases hya : y = a
    · subst hya
      have hcell : st'.cell y = { st.cell y with type := type } := by
        rw [hup.cell, Function.update_self]
      have hlink : (st.cell y).isLink = true := by
        unfold ScElement.isLink at hk ⊢
        rw [hcell] at hk
        rw [and_of_mask hm (by decide)]
        exact hk
      exact LinkOrigin.subtypeChanged ctx type hl hlink rfl hcell hup.fileMemory
    · exact LinkOrigin.of_cell (by rw [hup.cell, Function.update_of_ne hya]) hup.fileMemory hc hy hk
  | refTaken a _ hb hset =>
    exact LinkOrigin.of_cell (by rw [hset.cell]) hset.fileMemory hc hy hk
  | refDropped a _ hun =>
    exact LinkOrigin.of_cell (hun.live_same y hy) hun.fileMemory hc hy hk

theorem Effect.contentIndexed {action : StoreAction} (h : Effect env st action st')
    (hc : CellsOk st) (hallow : action.Allowed st) (hi : ContentIndexed st) : ContentIndexed st' := by
  intro y hy hk hflag hdata
  cases h.link_origin hc hallow hy hk with
  | new _ hd _ =>
    rw [hd] at hdata
    exact absurd rfl hdata
  | kept hl hlink ht hd hin =>
    rw [ht] at hflag
    rw [hd] at hdata ⊢
    exact hin _ (hi y hl hlink hflag hdata)
  | contentSet stream hl hlink hcell hfm =>
    rw [hcell] at hflag ⊢
    rw [hfm]
    unfold contentCell storeFm at *
    split_ifs at hflag ⊢ with hlen
    · exact inIndex_append _ _ _
    · exact absurd hflag (flagSelfContainer_or _)
  | subtypeChanged ctx type hl hlink hact hcell hfm =>
    subst hact
    rw [hcell] at hflag hdata ⊢
    rw [hfm]
    -- the caller has kept the place of the content
    rcases hallow.2.2 with hnl | hsame | h0
    · rw [hlink] at hnl
      exact absurd hnl (by decide)
    · exact hi y hl hlink (hsame.symm.trans hflag) hdata
    · exact absurd h0 hdata

theorem ownRun_contentIndexed {thread : ℕ} (evs : List StoreEvent) (st : ScStorage)
    (hr : Run (OwnStep thread) ScStorage.empty evs st) : ContentIndexed st := by
  have hinv := run_invariant (fun s => StoreOk thread s ∧ ContentIndexed s) ?_ evs _ st
    ⟨storeOk_empty thread, ?_⟩ hr
  · exact hinv.2
  · intro s e s' ⟨hok, hi⟩ hs
    refine ⟨storeOk_step s e s' hok hs, ?_⟩
    exact (step_effect hok.wf hok.cells e.action hs.allowed hs.step).contentIndexed hok.cells
      hs.allowed hi
  · intro y hy
    unfold Live at hy
    rw [cells_empty] at hy
    exact absurd hy (by decide)

/-- The content that a link gives is the same after elements other than it have been removed. -/
theorem linkContent_erased (hkeys : ContentKeysHex st.fileMemory) (hi : ContentIndexed st)
    (c : Cells) (D : List ScAddr) (hyD : y ∉ D) (hy : Live st.cell y)
    (hk : (st.cell y).isLink = true) (ht : (st'.cell y).type = (st.cell y).type)
    (hd : (st'.cell y).data = (st.cell y).data) (env' : ScEnv)
    (hfm : st'.fileMemory = D.foldr (freeContent env c) st.fileMemory) :
    linkContent env' (st'.cell y) st'.fileMemory = linkContent env' (st.cell y) st.fileMemory := by
  unfold linkContent
  rw [ht, hd]
  by_cases hflag : (st.cell y).type &&& scFlagLinkSelfContainer = 0
  · have hcont : st'.fileMemory.content (st.cell y).data = st.fileMemory.content (st.cell y).data := by
      rw [hfm]
      by_cases h0 : (st.cell y).data 0 = 0
      · have hnone := @ContentKeysHex.content_none _ hkeys (st.cell y).data (by rw [h0]; decide)
        rw [hnone]
        exact content_erased_none c D hnone
      · exact ((hi y hy hk hflag h0).erased c D hyD).2
    simp only [hflag, hcont]
  · have hf : ((st.cell y).type &&& scFlagLinkSelfContainer != 0) = true := bne_iff_ne.mpr hflag
    simp only [hf, if_true]

open Classical in
/-- What a deletion leaves of an element outside of the closure. -/
structure Survives (env : ScEnv) (st st' : ScStorage) (a y : ScAddr) : Prop where
  live : Live st'.cell y
  type : (st'.cell y).type = (st.cell y).type
  accessLevels : (st'.cell y).accessLevels = (st.cell y).accessLevels
  endpoint : ∀ d, ownerOf st'.cell d y = ownerOf st.cell d y
  content : (st.cell y).isLink = true →
    linkContent env (st'.cell y) st'.fileMemory = linkContent env (st.cell y) st.fileMemory
  lists : ∀ d, ArcChain st'.cell d y ((arcList st.cell d y).filter fun x => ¬ InClosure st.cell a x)

/-- A call of a single thread on a live element does not stop. -/
theorem elementFree_returns (hok : StoreOk env.thread st) (ha : Live st.cell a) (ctx : ScContext)
    (order : HashOrder) : ∃ r st', scStorageElementFree env ctx order a st = .ok (r, st') ∧
      st'.locks = st.locks ∧ FreeOutcome env ctx order a st r st' := by
  have hstart := holds_start env.thread st hok.wf.1 hok.wf.2
  have hwp : Wp (scStorageElementFree env ctx order a)
      (fun r s' => Holds env.thread st.locks [] s' ∧ FreeOutcome env ctx order a st r s')
      (fun _ => False) st := by
    apply wp_mono (elementFree_wp hstart hok.cells ctx order a) (fun _ _ hq => hq)
    intro _ hstop
    rcases hstop with hb | hoff
    · exact hb hok.own
    · have hin := hok.cells.inRange a (type_of_live ha)
      omega
  obtain ⟨r, st', hrun, hh, hout⟩ := wp_returns hwp
  refine ⟨r, st', hrun, ?_, hout⟩
  rw [hh.locks]
  exact addLocks_nil _ _

open Classical in
theorem Erased.survives (hc : CellsOk st) (hkeys : ContentKeysHex st.fileMemory)
    (hi : ContentIndexed st) (ha : Live st.cell a) {order : HashOrder}
    (he : Erased env st (erasedList order st.cell a) st') (hy : Live st.cell y)
    (hya : ¬ InClosure st.cell a y) (env' : ScEnv) : Survives env' st st' a y := by
  have hmem (x : ScAddr) := mem_erasedList hc.arcs ha order x
  have hyD : y ∉ erasedList order st.cell a := (hmem y).not.mpr hya
  have hs := he.cells.same y hyD
  refine ⟨hs.live.mpr hy, hs.type, hs.accessLevels, hs.owner, ?_, ?_⟩
  · intro hlink
    have hnarc : ¬ LiveArc st.cell y := by
      intro harc
      rw [hc.oneClass y harc.2] at hlink
      exact absurd hlink (by decide)
    exact linkContent_erased hkeys hi st.cell _ hyD hy hlink hs.type (hs.data hnarc) env'
      he.fileMemory
  · intro d
    have hchain := he.cells.arcChain hc.arcs hy hyD (d := d)
    have hrest : restList st.cell (erasedList order st.cell a) d y =
        (arcList st.cell d y).filter fun x => decide (¬ InClosure st.cell a x) := by
      apply List.filter_congr
      intro x _
      simp only [hmem]
    rwa [hrest] at hchain

/-- The elements that stop being live are those of the closure. -/
theorem Erased.dead_iff (hc : CellsOk st) (ha : Live st.cell a) {order : HashOrder}
    (he : Erased env st (erasedList order st.cell a) st') (x : ScAddr) :
    Live st'.cell x ↔ Live st.cell x ∧ ¬ InClosure st.cell a x := by
  rw [← mem_erasedList hc.arcs ha order]
  by_cases hx : x ∈ erasedList order st.cell a
  · simp only [hx, not_true_eq_false, and_false, iff_false]
    exact he.cells.dead x hx
  · simp only [hx, not_false_eq_true, and_true]
    exact (he.cells.same x hx).live

end

theorem storeRun_of_ownRun {thread : ℕ} (st st' : ScStorage) (evs : List StoreEvent)
    (hr : Run (OwnStep thread) st evs st') : Run StoreStep st evs st' :=
  run_mono (fun _ _ _ hs => hs.step) evs st st' hr

/-- For an element without references of others in its closure and a context that may write all
elements, deletion removes exactly the closure, whatever the order of the hash table is. -/
theorem deletion_exact (thread : ℕ) (evs : List StoreEvent) (st : ScStorage)
    (hr : Run (OwnStep thread) ScStorage.empty evs st) (hhex : ∀ e ∈ evs, HexChecksum e.env)
    (env : ScEnv) (ht : env.thread = thread) (ctx : ScContext) (a : ScAddr) (ha : Live st.cell a)
    (href : ∀ x, InClosure st.cell a x → st.refCount x = 1)
    (hwrite : ∀ x, Live st.cell x → CanWrite ctx st.cell x) :
    ∃ c : Cells, ∀ order : HashOrder, ∃ st',
      scStorageElementFree env ctx order a st = .ok (.ok, st') ∧ st'.cell = c ∧
        (∀ x, Live st.cell x ∧ ¬ Live st'.cell x ↔ InClosure st.cell a x) ∧
        (∀ x, Live st'.cell x → Live st.cell x) ∧
        ∀ y, Live st.cell y → ¬ InClosure st.cell a y → Survives env st st' a y := by
  subst ht
  have hok := ownRun_storeOk evs st hr
  have hi := ownRun_contentIndexed evs st hr
  have hkeys := storeRun_contentKeys _ st evs (fun _ h => absurd rfl h) hhex
    (storeRun_of_ownRun _ _ _ hr)
  have harcs := hok.cells.arcs
  have hfree (order : HashOrder) : ∃ st', scStorageElementFree env ctx order a st = .ok (.ok, st') ∧
      Erased env st (erasedList order st.cell a) st' := by
    obtain ⟨r, st', hrun, _, hout⟩ := elementFree_returns hok ha ctx order
    cases hout with
    | dead _ hd _ => exact absurd ha hd
    | denied _ _ hden _ =>
      refine absurd ?_ hden
      intro x hx
      apply hwrite
      have hx' := List.mem_of_mem_dropLast hx
      rcases List.mem_cons.mp hx' with rfl | hx'
      · exact ha
      · exact ((mem_removeOrder harcs ha x).mp hx').live ha
    | freed _ _ _ he => exact ⟨st', hrun, he⟩
  obtain ⟨st0, _, he0⟩ := hfree ⟨id, fun _ => List.Perm.refl _⟩
  refine ⟨st0.cell, fun order => ?_⟩
  obtain ⟨st', hrun, he⟩ := hfree order
  have hlive := he.dead_iff hok.cells ha
  refine ⟨st', hrun, ?_, ?_, ?_, ?_⟩
  · apply he0.cells.unique harcs he.cells
    · intro z
      rw [mem_erasedList harcs ha, mem_erasedList harcs ha]
    · intro z hz
      exact href z ((mem_erasedList harcs ha _ z).mp hz)
  · intro x
    rw [hlive]
    constructor
    · rintro ⟨hx, hn⟩
      by_contra hcl
      exact hn ⟨hx, hcl⟩
    · intro hx
      exact ⟨hx.live ha, fun hn => hn.2 hx⟩
  · intro x hx
    exact ((hlive x).mp hx).1
  · intro y hy hya
    exact he.survives hok.cells hkeys hi ha hy hya env

def tableOrder : HashOrder := ⟨id, List.Perm.refl⟩

theorem canWrite_exampleContext (c : Cells) (x : ScAddr) : CanWrite exampleContext c x := by
  unfold CanWrite
  generalize (c x).accessLevels = levels
  revert levels
  decide

/-- With the end of the arc the arc goes. -/
theorem deletion_exact_storeWithArc :
    Live storeWithArc.cell ⟨0, 65⟩ ∧ ∃ st',
      scStorageElementFree exampleEnv exampleContext tableOrder ⟨0, 33⟩ storeWithArc =
        .ok (.ok, st') ∧ ¬ Live st'.cell ⟨0, 65⟩ := by
  have hok := (ownRun_storeOk arcEvents _ storeWithArc_run).cells.arcs
  have hlive : Live storeWithArc.cell ⟨0, 33⟩ := by
    unfold Live
    decide +kernel
  have hmem (x : ScAddr) := mem_removeOrder hok hlive x
  have hrefs : ∀ x ∈ removeOrder storeWithArc.cell ⟨0, 33⟩, storeWithArc.refCount x = 1 := by
    decide +kernel
  have hcl : (⟨0, 65⟩ : ScAddr) ∈ removeOrder storeWithArc.cell ⟨0, 33⟩ := by decide +kernel
  have hhex : ∀ e ∈ arcEvents, HexChecksum e.env := by
    have henv : HexChecksum exampleEnv :=
      fun _ _ => Or.inl ⟨le_refl 48, (by norm_num : 48 ≤ 57)⟩
    intro e he
    simp only [arcEvents, List.mem_cons, List.not_mem_nil, or_false] at he
    rcases he with rfl | rfl | rfl <;> exact henv
  obtain ⟨_, hfree⟩ := deletion_exact 1 arcEvents storeWithArc storeWithArc_run hhex
    exampleEnv rfl exampleContext ⟨0, 33⟩ hlive (fun x hx => hrefs x ((hmem x).mpr hx))
    (fun x _ => canWrite_exampleContext _ x)
  obtain ⟨st', hrun, _, hdead, _⟩ := hfree tableOrder
  obtain ⟨hl, hd⟩ := (hdead _).mpr ((hmem _).mp hcl)
  exact ⟨hl, st', hrun, hd⟩

/-! The write rights. -/

/-- The element that the search takes off its list last. -/
def lastCollected (c : Cells) (a : ScAddr) : ScAddr :=
  (a :: removeOrder c a).getLast (List.cons_ne_nil _ _)

theorem inClosure_cases {c : Cells} {a x : ScAddr} (h : ArcsOk c) (ha : Live c a)
    (hx : InClosure c a x) : x ∈ checkedElements c a ∨ x = lastCollected c a := by
  have hmem : x ∈ a :: removeOrder c a :=
    List.mem_cons_of_mem _ ((mem_removeOrder h ha x).mpr hx)
  rw [← List.dropLast_append_getLast (List.cons_ne_nil a (removeOrder c a)), List.mem_append,
    List.mem_singleton] at hmem
  exact hmem

theorem inClosure_lastCollected {c : Cells} {a : ScAddr} (h : ArcsOk c) (ha : Live c a) :
    InClosure c a (lastCollected c a) := by
  have hmem := List.getLast_mem (List.cons_ne_nil a (removeOrder c a))
  rcases List.mem_cons.mp hmem with hroot | hlast
  · unfold lastCollected
    rw [hroot]
    exact InClosure.root
  · exact (mem_removeOrder h ha _).mp hlast

/-- The rights on the whole closure are respected unless the only element beyond the rights of the
context is the last one that the search takes off its list: `el` is loaded after the check. -/
theorem write_rights_respected_iff (thread : ℕ) (evs : List StoreEvent) (st : ScStorage)
    (hr : Run (OwnStep thread) ScStorage.empty evs st) (env : ScEnv) (ht : env.thread = thread)
    (ctx : ScContext) (order : HashOrder) (a : ScAddr) (ha : Live st.cell a) :
    ((∃ x, InClosure st.cell a x ∧ ¬ CanWrite ctx st.cell x) →
        scStorageElementFree env ctx order a st = .ok (.errorNoWriteRights, st)) ↔
      CanWrite ctx st.cell (lastCollected st.cell a) ∨
        ∃ x ∈ checkedElements st.cell a, ¬ CanWrite ctx st.cell x := by
  subst ht
  have hok := ownRun_storeOk evs st hr
  obtain ⟨r, st', hrun, hlocks, hout⟩ := elementFree_returns hok ha ctx order
  cases hout with
  | dead _ hd _ => exact absurd ha hd
  | denied _ _ hden hu =>
    have hst : st' = st := eq_of_unlocked_locks hu hlocks
    rw [hrun, hst]
    push Not at hden
    exact ⟨fun _ => Or.inr hden, fun _ _ => rfl⟩
  | freed _ _ hall _ =>
    rw [hrun]
    constructor
    · intro h
      left
      by_contra hlast
      have herr := h ⟨_, inClosure_lastCollected hok.cells.arcs ha, hlast⟩
      simp at herr
    · rintro hcond ⟨x, hx, hn⟩
      exfalso
      rcases hcond with hlast | ⟨y, hy, hny⟩
      · rcases inClosure_cases hok.cells.arcs ha hx with hx | rfl
        · exact hn (hall x hx)
        · exact hn hlast
      · exact hny (hall y hy)

/-- A node that everyone may write, with a loop made by a context of the highest level. -/
def guardedLoopEvents : List StoreEvent :=
  [⟨exampleEnv, .call (.nodeNew ⟨1, 0⟩ 0)⟩,
    ⟨exampleEnv, .call (.arcNew exampleContext scTypeArcCommon ⟨0, 1⟩ ⟨0, 1⟩)⟩]

def storeWithGuardedLoop : ScStorage := stateAfterEvents guardedLoopEvents ScStorage.empty

theorem storeWithGuardedLoop_run :
    Run (OwnStep 1) ScStorage.empty guardedLoopEvents storeWithGuardedLoop :=
  ownRun_of_ownEvents guardedLoopEvents _ (by decide +kernel)

theorem storeWithGuardedLoop_live : Live storeWithGuardedLoop.cell ⟨0, 1⟩ := by
  unfold Live
  decide +kernel

theorem write_rights_respected_iff_storeWithGuardedLoop :
    Live storeWithGuardedLoop.cell ⟨0, 1⟩ ∧
      (((∃ x, InClosure storeWithGuardedLoop.cell ⟨0, 1⟩ x ∧
          ¬ CanWrite ⟨2, 0⟩ storeWithGuardedLoop.cell x) →
        scStorageElementFree exampleEnv ⟨2, 0⟩ tableOrder ⟨0, 1⟩ storeWithGuardedLoop =
          .ok (.errorNoWriteRights, storeWithGuardedLoop)) ↔
      CanWrite ⟨2, 0⟩ storeWithGuardedLoop.cell (lastCollected storeWithGuardedLoop.cell ⟨0, 1⟩) ∨
        ∃ x ∈ checkedElements storeWithGuardedLoop.cell ⟨0, 1⟩,
          ¬ CanWrite ⟨2, 0⟩ storeWithGuardedLoop.cell x) :=
  ⟨storeWithGuardedLoop_live, write_rights_respected_iff 1 guardedLoopEvents _
    storeWithGuardedLoop_run exampleEnv rfl ⟨2, 0⟩ tableOrder ⟨0, 1⟩ storeWithGuardedLoop_live⟩

/-- A context of level 0 deletes the node and, with it, the loop that it may not write. -/
theorem guarded_loop_deleted :
    Run (OwnStep 1) ScStorage.empty guardedLoopEvents storeWithGuardedLoop ∧
      InClosure storeWithGuardedLoop.cell ⟨0, 1⟩ ⟨0, 33⟩ ∧
      ¬ CanWrite ⟨2, 0⟩ storeWithGuardedLoop.cell ⟨0, 33⟩ ∧
      ∃ st', scStorageElementFree exampleEnv ⟨2, 0⟩ tableOrder ⟨0, 1⟩ storeWithGuardedLoop =
          .ok (.ok, st') ∧ Live storeWithGuardedLoop.cell ⟨0, 33⟩ ∧ ¬ Live st'.cell ⟨0, 33⟩ := by
  have hok := ownRun_storeOk guardedLoopEvents _ storeWithGuardedLoop_run
  have hcl : InClosure storeWithGuardedLoop.cell ⟨0, 1⟩ ⟨0, 33⟩ := by
    rw [← mem_removeOrder hok.cells.arcs storeWithGuardedLoop_live]
    decide +kernel
  have hall : ∀ x ∈ checkedElements storeWithGuardedLoop.cell ⟨0, 1⟩,
      CanWrite ⟨2, 0⟩ storeWithGuardedLoop.cell x := by
    unfold CanWrite
    decide +kernel
  refine ⟨storeWithGuardedLoop_run, hcl, ?_, ?_⟩
  · unfold CanWrite
    decide +kernel
  obtain ⟨r, st', hrun, _, hout⟩ := @elementFree_returns exampleEnv _ _ hok
    storeWithGuardedLoop_live ⟨2, 0⟩ tableOrder
  cases hout with
  | dead _ hd _ => exact absurd storeWithGuardedLoop_live hd
  | denied _ _ hden _ => exact absurd hall hden
  | freed _ hl _ he =>
    refine ⟨st', hrun, hcl.live storeWithGuardedLoop_live, ?_⟩
    rw [he.dead_iff hok.cells hl]
    exact fun h => h.2 hcl

end ScMachine.Store
