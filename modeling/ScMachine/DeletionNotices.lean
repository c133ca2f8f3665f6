import ScMachine.PendingMode

/-! What a deletion announces to the event system, and which notifications are queued for it. -/
namespace ScMachine.Store
open ScMachine.StateExcept ScMachine.Runs

/-- The parts of a cell that are announced: class, levels, begin and end. -/
structure SameHeader (el el' : ScElement) : Prop where
  type : el'.type = el.type
  accessLevels : el'.accessLevels = el.accessLevels
  owner : ∀ d : Dir, el'.arc d.owner = el.arc d.owner

/-- Nothing has been announced since `st`, and the announced parts of the cells are as they were. -/
structure Quiet (st s : ScStorage) : Prop where
  emitted : s.emitted = st.emitted
  header : ∀ z, SameHeader (st.cell z) (s.cell z)

/-- The call of `sc_event_emit` for an arc in one of its lists. -/
def unlinkCall (c : Cells) (levels : ScAccessLevels) (d : Dir) (x : ScAddr) : ScEventCall :=
  .emit (ownerOf c d x) levels d.removeEvent x ((c x).arc d.other)

/-- The calls for one element of `remove_table` when `D` has been erased before. What the levels of an
erased owner are then is left open. -/
def ElementCalls (c : Cells) (D : List ScAddr) (x : ScAddr) (calls : List ScEventCall) : Prop :=
  ∃ levels : Dir → ScAccessLevels,
    (∀ d, ownerOf c d x ∉ D → levels d = (c (ownerOf c d x)).accessLevels) ∧
      calls = (if (c x).isArc then
          [unlinkCall c (levels .out) .out x, unlinkCall c (levels .inp) .inp x] else []) ++
        [.emit x (c x).accessLevels .removeElement ScAddr.empty ScAddr.empty, .elementDeleted x]

/-- The calls for the elements of a list, one after the other. -/
def CallsFor (c : Cells) : List ScAddr → List ScAddr → List ScEventCall → Prop
  | _, [], calls => calls = []
  | D, x :: l, calls =>
    ∃ first rest, calls = first ++ rest ∧ ElementCalls c D x first ∧ CallsFor c (x :: D) l rest

/-- The notifications for one of the lists that the arc `x` is taken out of. -/
def unlinkNotices (ev : ScEvents) (c : Cells) (gone : List ScAddr) (x : ScAddr) (d : Dir) :
    List EventJob :=
  ev.heard gone (ownerOf c d x) (c (ownerOf c d x)).accessLevels d.removeEvent x ((c x).arc d.other)

/-- What is queued for `x` when the subscriptions to `gone` have been dropped before. -/
def queuedNotices (ev : ScEvents) (c : Cells) (gone : List ScAddr) (x : ScAddr) : List EventJob :=
  (if (c x).isArc then unlinkNotices ev c gone x .out ++ unlinkNotices ev c gone x .inp else []) ++
    ev.heard gone x (c x).accessLevels .removeElement ScAddr.empty ScAddr.empty

def noticesInOrder (ev : ScEvents) (c : Cells) : List ScAddr → List ScAddr → List EventJob
  | _, [] => []
  | gone, x :: l => queuedNotices ev c gone x ++ noticesInOrder ev c (x :: gone) l

/-- All subscriptions to `x` of one type, readable or not. -/
def ScEvents.subscriptions (ev : ScEvents) (x : ScAddr) (type : ScEventType) : List ℕ :=
  (ev.listOf x).filter fun id => (ev.find id).any fun e => e.type = type

/-- What a deletion is to notify for `x`: the subscriptions on begin and end of an arc that may read
them, and every subscription to the removal of `x`. -/
def dueNotices (ev : ScEvents) (c : Cells) (x : ScAddr) : List EventJob :=
  (if (c x).isArc then unlinkNotices ev c [] x .out ++ unlinkNotices ev c [] x .inp else []) ++
    (ev.subscriptions x .removeElement).map fun id => ⟨id, ScAddr.empty, ScAddr.empty⟩

/-- What the deletion of the elements `D` is to notify. -/
def deletionNotices (ev : ScEvents) (c : Cells) (D : List ScAddr) : List EventJob :=
  D.flatMap (dueNotices ev c)

section
variable {env : ScEnv} {st s s' : ScStorage} {a x : ScAddr} {lt : List ScAddr}

theorem SameHeader.refl (el : ScElement) : SameHeader el el := ⟨rfl, rfl, fun _ => rfl⟩

theorem SameHeader.trans {el el' el'' : ScElement} (h : SameHeader el el')
    (h' : SameHeader el' el'') : SameHeader el el'' :=
  ⟨h'.type.trans h.type, h'.accessLevels.trans h.accessLevels,
    fun d => (h'.owner d).trans (h.owner d)⟩

theorem Quiet.refl (st : ScStorage) : Quiet st st := ⟨rfl, fun _ => SameHeader.refl _⟩

theorem emitted_of_unlocked (hu : s'.unlocked = s.unlocked) : s'.emitted = s.emitted := by
  have heq : s'.unlocked.emitted = s.unlocked.emitted := by rw [hu]
  exact heq

theorem Quiet.of_unlocked (h : Quiet st s) (hu : s'.unlocked = s.unlocked) : Quiet st s' := by
  refine ⟨(emitted_of_unlocked hu).trans h.emitted, fun z => ?_⟩
  rw [cell_of_unlocked hu]
  exact h.header z

theorem ReadOnly.quiet {α : Type} {x : StoreM α} (h : ReadOnly x) : Keeps (Quiet st) x := by
  intro s hs
  apply wp_mono (h s s rfl) _ (fun _ _ => trivial)
  intro _ s' hu
  exact hs.of_unlocked hu

/-! Taking an arc out of its lists. -/

theorem quiet_modifyCell (a : ScAddr) (f : ScElement → ScElement) (hf : ∀ el, SameHeader el (f el)) :
    Keeps (Quiet st) (modifyCell a f) := by
  apply keeps_modify
  intro s hs
  cases hn : s.segments a.seg.toNat with
  | none =>
    unfold ScStorage.setCell
    rw [hn]
    exact hs
  | some seg =>
    refine ⟨?_, fun z => ?_⟩
    · unfold ScStorage.setCell
      rw [hn]
      exact hs.emitted
    · rw [cell_setCell hn]
      split_ifs with hz
      · rw [hz]
        exact (hs.header a).trans (hf _)
      · exact hs.header z

theorem sameHeader_setArc (el : ScElement) (d : Dir) (target : ScAddr) :
    SameHeader el (el.setArc d.next target) ∧ SameHeader el (el.setArc d.prev target) := by
  refine ⟨⟨rfl, rfl, ?_⟩, ⟨rfl, rfl, ?_⟩⟩
  · intro d'
    rw [arc_setArc, if_neg]
    cases d <;> cases d' <;> decide
  · intro d'
    rw [arc_setArc, if_neg]
    cases d <;> cases d' <;> decide

theorem sameHeader_setFirst (el : ScElement) (d : Dir) (target : ScAddr) :
    SameHeader el (el.setFirst target d) := by
  refine ⟨type_setFirst _ _ _, accessLevels_setFirst _ _ _, fun d' => ?_⟩
  unfold ScElement.arc
  rw [data_setFirst]

theorem quiet_relink (field : ArcField) (hfield : ∀ el target, SameHeader el (el.setArc field target))
    (a target : ScAddr) : Keeps (Quiet st) (relink lt a field target) := by
  apply keeps_unlessEmpty
  apply (keeps_scAssert _ _).bind
  intro _
  exact quiet_modifyCell a _ fun el => hfield el target

theorem quiet_lockOwner (owner : ScAddr) : Keeps (Quiet st) (lockOwner env lt owner) := by
  apply (keeps_pure _ _).ite
  apply (readOnly_lock env owner).quiet.bind
  intro _
  exact (keeps_throw _ _).ite (keeps_pure _ _)

theorem quiet_unlockOwner (owner : ScAddr) : Keeps (Quiet st) (unlockOwner env lt owner) :=
  (keeps_pure _ _).ite (readOnly_unlock env owner).quiet

theorem unlinkArc_calls (d : Dir) (x : ScAddr) (s : ScStorage) :
    IfReturns (unlinkArc env lt d x) (fun _ s' => (∀ z, SameHeader (s.cell z) (s'.cell z)) ∧
      s'.emitted = s.emitted ++
        [unlinkCall s.cell (s.cell (ownerOf s.cell d x)).accessLevels d x]) s := by
  unfold unlinkArc
  rw [IfReturns, wp_bind, wp_readCell]
  dsimp only
  rw [wp_bind]
  apply wp_mono (quiet_relink d.next (fun el t => (sameHeader_setArc el d t).1) _ _ s (Quiet.refl s)) _
    (fun _ _ => trivial)
  intro _ s1 h1
  rw [wp_bind]
  apply wp_mono (quiet_relink d.prev (fun el t => (sameHeader_setArc el d t).2) _ _ s1 h1) _
    (fun _ _ => trivial)
  intro _ s2 h2
  rw [wp_bind]
  apply wp_mono (quiet_lockOwner _ s2 h2) _ (fun _ _ => trivial)
  intro _ s3 h3
  rw [wp_bind]
  have hfirst : ∀ el : ScElement, SameHeader el
      (if el.first d = x then el.setFirst ((s.cell x).arc d.next) d else el) := by
    intro el
    split_ifs
    · exact sameHeader_setFirst _ _ _
    · exact SameHeader.refl _
  apply wp_mono (quiet_modifyCell _ _ hfirst s3 h3) _ (fun _ _ => trivial)
  intro _ s4 h4
  rw [wp_bind, wp_readCell, wp_bind]
  unfold emit
  rw [wp_modify, (h4.header _).accessLevels]
  -- the lock of the owner is given back after the call
  have hunlock := @quiet_unlockOwner env { s4 with emitted := s4.emitted ++
    [.emit (ownerOf s.cell d x) (s.cell (ownerOf s.cell d x)).accessLevels d.removeEvent x
      ((s.cell x).arc d.other)] } lt (ownerOf s.cell d x) _ (Quiet.refl _)
  apply wp_mono hunlock _ (fun _ _ => trivial)
  intro _ s5 h5
  refine ⟨fun z => (h4.header z).trans (h5.header z), ?_⟩
  rw [h5.emitted, h4.emitted]
  rfl

/-! One element of `remove_table`. -/

theorem emitted_unref (a : ScAddr) (l : List ScEventCall) :
    Keeps (fun s => s.emitted = l) (scStorageElementUnref env a) := by
  have hread {α : Type} {x : StoreM α} (h : ReadOnly x) : Keeps (fun s => s.emitted = l) x := by
    intro s hs
    apply wp_mono (h s s rfl) _ (fun _ _ => trivial)
    intro _ s' hu
    exact (emitted_of_unlocked hu).trans hs
  have hlock : Keeps (fun s => s.emitted = l) (scStorageElementLock env a) :=
    hread (readOnly_lock env a)
  have hunlock : Keeps (fun s => s.emitted = l) (scStorageElementUnlock env a) :=
    hread (readOnly_unlock env a)
  have hcount (n : ℤ) : Keeps (fun s => s.emitted = l)
      (modify fun st => st.setRefCount a n : StoreM Unit) := by
    apply keeps_modify
    intro s hs
    unfold ScStorage.setRefCount
    cases s.segments a.seg.toNat <;> exact hs
  have hcommon : Keeps (fun s => s.emitted = l) (scStorageRefCommon env a (-1)) := by
    apply (keeps_scAssert _ _).bind
    intro _
    apply hlock.bind
    intro r
    apply Keeps.ite (keeps_throw _ _)
    apply (keeps_get _).bind
    intro _
    apply (keeps_scAssert _ _).bind
    intro _
    apply (keeps_get _).bind
    intro s0
    apply (keeps_scAssert _ _).bind
    intro _
    apply (keeps_scAssert _ _).bind
    intro _
    apply (hcount _).bind
    intro _
    exact hunlock.bind fun _ => keeps_pure _ _
  have herase : Keeps (fun s => s.emitted = l) (scStorageEraseElementFromSegment a) := by
    intro s hs
    unfold IfReturns Wp scStorageEraseElementFromSegment
    cases hn : s.segments a.seg.toNat with
    | none => trivial
    | some seg =>
      dsimp only
      cases scSegmentEraseElement seg a.offset.toNat with
      | error e => trivial
      | ok seg' => exact hs
  have hcache : Keeps (fun s => s.emitted = l)
      (modify (scSegmentCacheAppend env a.seg.toNat) : StoreM Unit) := by
    apply keeps_modify
    intro s hs
    rw [(cacheAppend_cacheOnly env _ s).emitted]
    exact hs
  have hfree : Keeps (fun s => s.emitted = l) (eraseUnreferenced env a) := by
    apply hlock.bind
    intro r
    apply Keeps.ite (keeps_throw _ _)
    exact herase.bind fun _ => hcache.bind fun _ => hunlock
  apply hcommon.bind
  intro r
  exact (hfree.bind fun _ => keeps_pure _ _).ite (keeps_pure _ _)

/-- What is announced for an element, from the cells at that moment. -/
def elementCalls (c : Cells) (x : ScAddr) : List ScEventCall :=
  (if (c x).isLink then [] else if (c x).isArc then
      [unlinkCall c (c (ownerOf c .out x)).accessLevels .out x,
        unlinkCall c (c (ownerOf c .inp x)).accessLevels .inp x] else []) ++
    [.emit x (c x).accessLevels .removeElement ScAddr.empty ScAddr.empty, .elementDeleted x]

theorem detachElement_calls (x : ScAddr) (s : ScStorage) :
    IfReturns (detachElement env lt x (s.cell x)) (fun _ s' => s'.emitted = s.emitted ++
      if (s.cell x).isLink then [] else if (s.cell x).isArc then
        [unlinkCall s.cell (s.cell (ownerOf s.cell .out x)).accessLevels .out x,
          unlinkCall s.cell (s.cell (ownerOf s.cell .inp x)).accessLevels .inp x] else []) s := by
  unfold detachElement
  rw [IfReturns, wp_ite]
  constructor
  · intro hlink
    rw [if_pos hlink, List.append_nil]
    unfold removeContentAddr
    rw [wp_ite]
    exact ⟨fun _ => rfl, fun _ => rfl⟩
  intro hlink
  rw [wp_ite, if_neg hlink]
  constructor
  · intro harc
    rw [if_pos harc, wp_bind]
    apply wp_mono (unlinkArc_calls .out x s) _ (fun _ _ => trivial)
    rintro _ s1 ⟨hheader, hemitted⟩
    apply wp_mono (unlinkArc_calls .inp x s1) _ (fun _ _ => trivial)
    rintro _ s2 ⟨_, hemitted2⟩
    -- the second call announces what it would have announced before the first one
    have howner (d : Dir) : ownerOf s1.cell d x = ownerOf s.cell d x := (hheader x).owner d
    have hcall : unlinkCall s1.cell (s1.cell (ownerOf s1.cell .inp x)).accessLevels .inp x =
        unlinkCall s.cell (s.cell (ownerOf s.cell .inp x)).accessLevels .inp x := by
      have hother : (s1.cell x).arc Dir.inp.other = (s.cell x).arc Dir.inp.other :=
        (hheader x).owner .out
      unfold unlinkCall
      rw [howner, (hheader _).accessLevels, hother]
    rw [hemitted2, hemitted, hcall, List.append_assoc]
    rfl
  · intro harc
    rw [if_neg harc, List.append_nil]
    exact rfl

theorem eraseElement_calls (s : ScStorage)
    (hflag : scElementIsRequestDeletion (s.cell x) = false) :
    IfReturns (eraseElement env lt x) (fun _ s' => s'.emitted = s.emitted ++ elementCalls s.cell x)
      s := by
  unfold eraseElement
  rw [IfReturns, wp_bind, wp_readCell, wp_ite]
  constructor
  · intro hset
    rw [hflag] at hset
    exact absurd hset Bool.false_ne_true
  intro _
  rw [wp_bind]
  apply wp_mono (detachElement_calls x s) _ (fun _ _ => trivial)
  intro _ s1 hs1
  rw [wp_bind, wp_modifyCell, wp_bind]
  have hset : (s1.setCell x { s1.cell x with
      type := (s1.cell x).type ||| scFlagRequestDeletion }).emitted = s1.emitted := by
    unfold ScStorage.setCell
    cases s1.segments x.seg.toNat <;> rfl
  apply wp_mono (emitted_unref x s1.emitted _ hset) _ (fun _ _ => trivial)
  intro _ s2 hs2
  unfold emit
  rw [wp_bind, wp_modify, wp_modify]
  dsimp only
  unfold elementCalls
  rw [hs2, hs1, List.append_assoc, List.append_assoc]
  rfl

/-! The loop, and the whole call. -/

theorem elementCalls_of_erased (hc : CellsOk st) {D : List ScAddr} (he : Erased env st D s)
    (hx : x ∉ D) : ElementCalls st.cell D x (elementCalls s.cell x) := by
  have hsame := he.cells.same x hx
  have howner (d : Dir) : ownerOf s.cell d x = ownerOf st.cell d x := hsame.owner d
  have hother (d : Dir) : (s.cell x).arc d.other = (st.cell x).arc d.other := by
    cases d
    · exact howner .inp
    · exact howner .out
  refine ⟨fun d => (s.cell (ownerOf st.cell d x)).accessLevels, ?_, ?_⟩
  · intro d hd
    exact (he.cells.same _ hd).accessLevels
  · have hcall (levels : ScAccessLevels) (d : Dir) :
        unlinkCall s.cell levels d x = unlinkCall st.cell levels d x := by
      unfold unlinkCall
      rw [howner, hother]
    have hlink : (s.cell x).isLink = (st.cell x).isLink := by
      unfold ScElement.isLink
      rw [hsame.type]
    unfold elementCalls
    rw [hsame.accessLevels, hsame.isArc, hlink, howner, howner, hcall, hcall]
    congr 1
    by_cases harc : (st.cell x).isArc = true
    · rw [if_neg (by rw [hc.oneClass x harc]; simp)]
    · rw [if_neg harc, ite_self]

theorem eraseElements_calls {L : SectionKey → LockWord} {as R : List ScAddr} (hc : CellsOk st)
    (hseg : SegsInRange st) (l D : List ScAddr) (h : Holds env.thread L as s)
    (he : Erased env st D s) (hnb : NeighboursIn lt st.cell R D s.cell) (hR : ∀ x ∈ l, x ∈ R)
    (hlive : ∀ x ∈ l, Live st.cell x) (hnd : l.Nodup) (hD : ∀ x ∈ l, x ∉ D) :
    Wp (eraseElements env lt l)
      (fun _ s' => Holds env.thread L as s' ∧
        ∃ calls, s'.emitted = s.emitted ++ calls ∧ CallsFor st.cell D l calls)
      (fun _ => Blocked env.thread L) s := by
  induction l generalizing s D with
  | nil => exact ⟨h, [], (List.append_nil _).symm, rfl⟩
  | cons x l ih =>
    obtain ⟨hxl, hnd⟩ := List.nodup_cons.mp hnd
    have hxD := hD x List.mem_cons_self
    have hflag : scElementIsRequestDeletion (s.cell x) = false := by
      have hvalid : scElementIsValid (s.cell x) = true := by
        rw [(he.cells.same x hxD).valid]
        exact hlive x List.mem_cons_self
      have htype := (valid_iff_type _).mp hvalid
      unfold scElementIsRequestDeletion
      rw [htype.2]
      decide
    unfold eraseElements
    rw [wp_bind]
    apply wp_mono (wp_and (eraseElement_wp hc hseg h he hnb (hR x List.mem_cons_self) hxD
      (hlive x List.mem_cons_self)) (eraseElement_calls s hflag)) _ (fun _ hb => hb.1)
    rintro _ s1 ⟨⟨h1, he1, hnb1, _⟩, hcalls1⟩
    have hrest := ih (x :: D) h1 he1 hnb1 (fun y hy => hR y (List.mem_cons_of_mem _ hy))
      (fun y hy => hlive y (List.mem_cons_of_mem _ hy)) hnd ?_
    · apply wp_mono hrest _ (fun _ hb => hb)
      rintro _ s2 ⟨h2, calls, hcalls, hfor⟩
      refine ⟨h2, elementCalls s.cell x ++ calls, ?_, elementCalls s.cell x, calls, rfl,
        elementCalls_of_erased hc he hxD, hfor⟩
      rw [hcalls, hcalls1, List.append_assoc]
    · intro y hy hyD
      rcases List.mem_cons.mp hyD with rfl | hyD
      · exact hxl hy
      · exact hD y (List.mem_cons_of_mem _ hy) hyD

/-- A deletion that is not refused announces each removed element once, in the order of the table. -/
theorem elementFree_calls (hok : StoreOk env.thread st) (ha : Live st.cell a) (ctx : ScContext)
    (hwrite : ∀ x ∈ checkedElements st.cell a, CanWrite ctx st.cell x) (order : HashOrder) :
    ∃ st' calls, scStorageElementFree env ctx order a st = .ok (.ok, st') ∧
      st'.emitted = st.emitted ++ calls ∧
        CallsFor st.cell [] (order.list (removeOrder st.cell a)) calls := by
  have hstart := holds_start env.thread st hok.wf.1 hok.wf.2
  have hrule := elementFree_rule hstart hok.cells ctx order a
    (fun s => ∃ calls, s.emitted = st.emitted ++ calls ∧
      CallsFor st.cell [] (order.list (removeOrder st.cell a)) calls) ?_ ?_
  · have hwp : Wp (scStorageElementFree env ctx order a) (fun r s' => r = .ok ∧
        ∃ calls, s'.emitted = st.emitted ++ calls ∧
          CallsFor st.cell [] (order.list (removeOrder st.cell a)) calls) (fun _ => False) st := by
      apply wp_mono hrule
      · intro r s' ⟨_, hout⟩
        rcases hout with ⟨hr, _, _, hcalls⟩ | ⟨_, hout⟩
        · exact ⟨hr, hcalls⟩
        · cases hout with
          | dead _ hdead _ => exact absurd ha hdead
          | denied _ _ hdenied _ => exact absurd hwrite hdenied
          | freed _ _ _ _ => contradiction
      · intro _ hstop
        rcases hstop with hb | hoff
        · exact hb hok.own
        · have hin := hok.cells.inRange a (type_of_live ha)
          omega
    obtain ⟨r, st', hrun, hr, calls, hemitted, hfor⟩ := wp_returns hwp
    rw [hr] at hrun
    exact ⟨st', calls, hrun, hemitted, hfor⟩
  · intro s s' hu ⟨calls, hemitted, hfor⟩
    exact ⟨calls, (emitted_of_unlocked hu).trans hemitted, hfor⟩
  · intro hlive lt s hu hh hnb
    obtain ⟨hnd, hmem, hlives⟩ := removeTable_spec hok.cells hlive order
    have herased := erased_start env hok.cells hu
    rw [← cell_of_unlocked hu] at hnb
    have hloop := @eraseElements_calls env st s lt _ _ (removeOrder st.cell a) hok.cells hstart.segs
      (order.list (removeOrder st.cell a)) [] hh herased ?_ hmem hlives hnd (by simp)
    · apply wp_mono hloop _ (fun _ hb => hb)
      intro _ s' ⟨h', calls, hemitted, hfor⟩
      exact ⟨h', calls, by rw [hemitted, emitted_of_unlocked hu], hfor⟩
    · rw [cell_of_unlocked hu] at hnb ⊢
      exact hnb

/-! The notifications. -/

variable {ev : ScEvents} {c : Cells} {gone D l : List ScAddr} {calls : List ScEventCall} {d : Dir}
  {phase : ℕ → DestroyPhase}

/-- What is announced of an owner that is gone reaches nobody. -/
theorem heard_unlink (levels : ScAccessLevels) (d : Dir)
    (hlevels : ownerOf c d x ∉ gone → levels = (c (ownerOf c d x)).accessLevels) :
    ev.heard gone (ownerOf c d x) levels d.removeEvent x ((c x).arc d.other) =
      unlinkNotices ev c gone x d := by
  unfold unlinkNotices ScEvents.heard
  split_ifs with howner
  · rfl
  · rw [hlevels howner]

theorem notified_callsFor (hcalls : CallsFor c gone l calls) :
    ev.notified gone calls = noticesInOrder ev c gone l := by
  induction l generalizing gone calls with
  | nil =>
    have hnil : calls = [] := hcalls
    rw [hnil]
    rfl
  | cons x l ih =>
    obtain ⟨first, rest, rfl, ⟨levels, hlevels, rfl⟩, hrest⟩ := hcalls
    have hcons (tail : List ScEventCall) : ev.notified gone
        (.emit x (c x).accessLevels .removeElement ScAddr.empty ScAddr.empty ::
          .elementDeleted x :: tail) =
          ev.heard gone x (c x).accessLevels .removeElement ScAddr.empty ScAddr.empty ++
            ev.notified (x :: gone) tail := rfl
    unfold noticesInOrder queuedNotices
    rw [← ih hrest]
    by_cases harc : (c x).isArc = true
    · have hunlink (d : Dir) (tail : List ScEventCall) :
          ev.notified gone (unlinkCall c (levels d) d x :: tail) =
            unlinkNotices ev c gone x d ++ ev.notified gone tail := by
        rw [← heard_unlink (levels d) d (hlevels d)]
        rfl
      rw [if_pos harc, if_pos harc]
      simp only [List.cons_append, List.nil_append]
      rw [hunlink, hunlink, hcons]
      simp only [List.append_assoc]
    · rw [if_neg harc, if_neg harc]
      exact hcons rest

/-- Only live elements are announced. -/
theorem element_callsFor (h : ArcsOk c) (hlive : ∀ x ∈ l, Live c x) (hcalls : CallsFor c gone l calls)
    (el : ScAddr) (access : ScAccessLevels) (type : ScEventType) (edge other : ScAddr)
    (hmem : .emit el access type edge other ∈ calls) : el ≠ ScAddr.empty := by
  have hne {y : ScAddr} (hy : Live c y) : y ≠ ScAddr.empty := by
    rintro rfl
    exact h.notEmpty hy
  induction l generalizing gone calls with
  | nil =>
    have hnil : calls = [] := hcalls
    rw [hnil] at hmem
    simp at hmem
  | cons x l ih =>
    obtain ⟨first, rest, rfl, ⟨levels, _, rfl⟩, hrest⟩ := hcalls
    have hx := hlive x List.mem_cons_self
    rcases List.mem_append.mp hmem with hfirst | hmem
    · rcases List.mem_append.mp hfirst with harcs | hself
      · split_ifs at harcs with harc
        · simp only [List.mem_cons, List.not_mem_nil, or_false, unlinkCall,
            ScEventCall.emit.injEq] at harcs
          rcases harcs with ⟨rfl, _⟩ | ⟨rfl, _⟩
          · exact hne (h.endpoint x .out ⟨hx, harc⟩)
          · exact hne (h.endpoint x .inp ⟨hx, harc⟩)
        · simp at harcs
      · simp only [List.mem_cons, List.not_mem_nil, or_false, ScEventCall.emit.injEq,
          reduceCtorEq] at hself
        rw [hself.1]
        exact hne hx
    · exact ih (fun y hy => hlive y (List.mem_cons_of_mem _ hy)) hrest hmem

/-! What is queued against what is due. -/

theorem heard_sublist (gone : List ScAddr) (el : ScAddr) (access : ScAccessLevels)
    (type : ScEventType) (edge other : ScAddr) :
    (ev.heard gone el access type edge other).Sublist (ev.heard [] el access type edge other) := by
  unfold ScEvents.heard
  rw [if_neg List.not_mem_nil]
  split_ifs
  · exact List.nil_sublist _
  · exact List.Sublist.refl _

theorem subscribers_sublist (el : ScAddr) (access : ScAccessLevels) (type : ScEventType) :
    (ev.subscribers el access type).Sublist (ev.subscriptions el type) := by
  apply List.monotone_filter_right
  intro id hid
  cases hfind : ev.find id with
  | none => simp [hfind] at hid
  | some e =>
    rw [hfind, Option.any_some, ScEvent.accepts] at hid
    simp only [Bool.and_eq_true, decide_eq_true_eq] at hid
    simp [hid.1.1]

theorem queuedNotices_sublist (gone : List ScAddr) (x : ScAddr) :
    (queuedNotices ev c gone x).Sublist (dueNotices ev c x) := by
  unfold queuedNotices dueNotices
  apply List.Sublist.append
  · split_ifs
    · exact (heard_sublist gone _ _ _ _ _).append (heard_sublist gone _ _ _ _ _)
    · exact List.Sublist.refl _
  · apply (heard_sublist gone x _ _ _ _).trans
    unfold ScEvents.heard
    rw [if_neg List.not_mem_nil]
    exact (subscribers_sublist x _ _).map _

theorem noticesInOrder_sublist (gone l : List ScAddr) :
    (noticesInOrder ev c gone l).Sublist (deletionNotices ev c l) := by
  induction l generalizing gone with
  | nil => exact List.Sublist.refl _
  | cons x l ih => exact (queuedNotices_sublist gone x).append (ih (x :: gone))

/-- A notification of one element that is lost is missing in the end. -/
theorem noticesInOrder_lt (hx : x ∈ l)
    (hlost : ∀ gone', gone ⊆ gone' →
      (queuedNotices ev c gone' x).length < (dueNotices ev c x).length) :
    (noticesInOrder ev c gone l).length < (deletionNotices ev c l).length := by
  induction l generalizing gone with
  | nil => simp at hx
  | cons y l ih =>
    have hcons : deletionNotices ev c (y :: l) = dueNotices ev c y ++ deletionNotices ev c l := rfl
    unfold noticesInOrder
    rw [hcons, List.length_append, List.length_append]
    rcases List.mem_cons.mp hx with rfl | hx
    · have hfirst := hlost gone (List.Subset.refl _)
      have hrest := (@noticesInOrder_sublist ev c (x :: gone) l).length_le
      omega
    · have hfirst := (@queuedNotices_sublist ev c gone y).length_le
      have hrest := @ih (y :: gone) hx fun gone' hsub =>
        hlost gone' fun z hz => hsub (List.mem_cons_of_mem _ hz)
      omega

/-! When all that is due is queued. -/

/-- A subscription to an element that is itself removed waits for an arc to be taken out of its
lists. -/
def LosesNotice (ev : ScEvents) (c : Cells) (a x : ScAddr) (d : Dir) : Prop :=
  LiveArc c x ∧ InClosure c a x ∧ InClosure c a (ownerOf c d x) ∧ ownerOf c d x ≠ x ∧
    ev.subscribers (ownerOf c d x) (c (ownerOf c d x)).accessLevels d.removeEvent ≠ []

/-- The subscriptions to the removal of `x` may read it. -/
def RemovalReadable (ev : ScEvents) (c : Cells) (x : ScAddr) : Prop :=
  ∀ id ∈ ev.subscriptions x .removeElement, ∀ e, ev.find id = some e →
    scAccessLvlCheckRead e.accessLevels (c x).accessLevels = true

theorem heard_of_empty (gone : List ScAddr) (el : ScAddr) (access : ScAccessLevels)
    (type : ScEventType) (edge other : ScAddr)
    (h : el ∈ gone → ev.subscribers el access type = []) :
    ev.heard gone el access type edge other = ev.heard [] el access type edge other := by
  unfold ScEvents.heard
  rw [if_neg List.not_mem_nil]
  split_ifs with hgone
  · rw [h hgone]
    rfl
  · rfl

theorem subscribers_eq_iff (hs : EventsOk ⟨ev, phase⟩) (x : ScAddr) :
    ev.subscribers x (c x).accessLevels .removeElement = ev.subscriptions x .removeElement ↔
      RemovalReadable ev c x := by
  constructor
  · intro heq id hid e he
    rw [← heq] at hid
    have haccepts := (List.mem_filter.mp hid).2
    rw [he, Option.any_some, ScEvent.accepts] at haccepts
    simp only [Bool.and_eq_true, decide_eq_true_eq] at haccepts
    exact haccepts.1.2
  · intro hread
    apply List.filter_congr
    intro id hid
    obtain ⟨e, he, _, hflag, _⟩ := listOf_find hs hid
    dsimp only at he
    by_cases htype : e.type = .removeElement
    · have hmem : id ∈ ev.subscriptions x .removeElement := by
        apply List.mem_filter.mpr
        exact ⟨hid, by simp [he, htype]⟩
      simp [he, ScEvent.accepts, htype, hflag, hread id hmem e he]
    · simp [he, ScEvent.accepts, htype]

/-- Without losses everything is queued, in the order of the table. -/
theorem noticesInOrder_eq (hs : EventsOk ⟨ev, phase⟩) (hl : ∀ x ∈ l, InClosure c a x)
    (hlive : ∀ x, InClosure c a x → Live c x) (hgone : ∀ x ∈ gone, InClosure c a x)
    (hnd : l.Nodup) (hdisj : ∀ x ∈ l, x ∉ gone) (hlost : ∀ x d, ¬ LosesNotice ev c a x d)
    (hread : ∀ x, InClosure c a x → RemovalReadable ev c x) :
    noticesInOrder ev c gone l = deletionNotices ev c l := by
  induction l generalizing gone with
  | nil => rfl
  | cons x l ih =>
    obtain ⟨hxl, hnd⟩ := List.nodup_cons.mp hnd
    have hx := hl x List.mem_cons_self
    have hxgone := hdisj x List.mem_cons_self
    have hunlink (harc : (c x).isArc = true) (d : Dir) :
        unlinkNotices ev c gone x d = unlinkNotices ev c [] x d := by
      apply heard_of_empty
      intro howner
      by_contra hsub
      refine hlost x d ⟨⟨hlive x hx, harc⟩, hx, hgone _ howner, ?_, hsub⟩
      intro hself
      rw [hself] at howner
      exact hxgone howner
    have hself : ev.heard gone x (c x).accessLevels .removeElement ScAddr.empty ScAddr.empty =
        (ev.subscriptions x .removeElement).map fun id => ⟨id, ScAddr.empty, ScAddr.empty⟩ := by
      unfold ScEvents.heard
      rw [if_neg hxgone, (subscribers_eq_iff hs x).mpr (hread x hx)]
    have hfirst : queuedNotices ev c gone x = dueNotices ev c x := by
      unfold queuedNotices dueNotices
      rw [hself]
      by_cases harc : (c x).isArc = true
      · rw [if_pos harc, if_pos harc, hunlink harc, hunlink harc]
      · rw [if_neg harc, if_neg harc]
    have hrest := @ih (x :: gone) (fun y hy => hl y (List.mem_cons_of_mem _ hy)) ?_ hnd ?_
    · unfold noticesInOrder
      rw [hfirst, hrest]
      rfl
    · intro y hy
      rcases List.mem_cons.mp hy with rfl | hy
      · exact hx
      · exact hgone y hy
    · intro y hy hygone
      rcases List.mem_cons.mp hygone with rfl | hygone
      · exact hxl hy
      · exact hdisj y (List.mem_cons_of_mem _ hy) hygone

/-- Where the owner of an arc is gone, the subscriptions to it miss the arc. -/
theorem queuedNotices_lt_of_gone (hx : LosesNotice ev c a x d) (hgone : ownerOf c d x ∈ gone) :
    (queuedNotices ev c gone x).length < (dueNotices ev c x).length := by
  obtain ⟨⟨_, harc⟩, _, _, _, hsub⟩ := hx
  have hpos : 0 < (unlinkNotices ev c [] x d).length := by
    unfold unlinkNotices ScEvents.heard
    rw [if_neg List.not_mem_nil, List.length_map]
    exact List.length_pos_iff.mpr hsub
  have hnone : (unlinkNotices ev c gone x d).length = 0 := by
    unfold unlinkNotices ScEvents.heard
    rw [if_pos hgone]
    rfl
  have hle (d : Dir) : (unlinkNotices ev c gone x d).length ≤ (unlinkNotices ev c [] x d).length :=
    (heard_sublist gone _ _ _ _ _).length_le
  have hself : (ev.heard gone x (c x).accessLevels .removeElement ScAddr.empty ScAddr.empty).length ≤
      ((ev.subscriptions x .removeElement).map fun id =>
        (⟨id, ScAddr.empty, ScAddr.empty⟩ : EventJob)).length := by
    apply (heard_sublist gone _ _ _ _ _).length_le.trans
    unfold ScEvents.heard
    rw [if_neg List.not_mem_nil]
    exact ((subscribers_sublist x _ _).map _).length_le
  have hout := hle .out
  have hinp := hle .inp
  unfold queuedNotices dueNotices
  rw [if_pos harc, if_pos harc]
  simp only [List.length_append]
  cases d with
  | out => omega
  | inp => omega

/-- A subscription that may not read the element misses its removal. -/
theorem queuedNotices_lt_of_unreadable (hs : EventsOk ⟨ev, phase⟩) (hx : ¬ RemovalReadable ev c x) :
    (queuedNotices ev c gone x).length < (dueNotices ev c x).length := by
  have hsub := @subscribers_sublist ev x (c x).accessLevels .removeElement
  have hlt : (ev.subscribers x (c x).accessLevels .removeElement).length <
      (ev.subscriptions x .removeElement).length := by
    apply lt_of_le_of_ne hsub.length_le
    intro heq
    exact hx ((subscribers_eq_iff hs x).mp (hsub.eq_of_length heq))
  have hself : (ev.heard gone x (c x).accessLevels .removeElement ScAddr.empty ScAddr.empty).length ≤
      (ev.subscribers x (c x).accessLevels .removeElement).length := by
    apply (heard_sublist gone _ _ _ _ _).length_le.trans
    unfold ScEvents.heard
    rw [if_neg List.not_mem_nil, List.length_map]
  have hunlink (d : Dir) :
      (unlinkNotices ev c gone x d).length ≤ (unlinkNotices ev c [] x d).length :=
    (heard_sublist gone _ _ _ _ _).length_le
  have hout := hunlink .out
  have hinp := hunlink .inp
  unfold queuedNotices dueNotices
  simp only [List.length_append, List.length_map]
  split_ifs
  · simp only [List.length_append]
    omega
  · omega

/-! The whole call, for every order of the table. -/

/-- The table with `x` in front. -/
def HashOrder.startingWith (x : ScAddr) : HashOrder where
  list l := if x ∈ l then x :: l.erase x else l
  perm l := by
    split_ifs with hx
    · exact (List.perm_cons_erase hx).symm
    · exact List.Perm.refl _

/-- What the call queues for one order, given that the counts have room. -/
theorem elementFree_queued (hok : StoreOk env.thread st) (hs : EventsOk ⟨ev, phase⟩)
    (ha : Live st.cell a) (ctx : ScContext) (himm : ev.pending ctx.id = none)
    (hwrite : ∀ x ∈ checkedElements st.cell a, CanWrite ctx st.cell x) (order : HashOrder)
    (hroom : ∀ id e, ev.find id = some e →
      e.refs+jobCount id (deletionNotices ev st.cell (order.list (removeOrder st.cell a))) ≤ 2147483647)
    {sys : ScSystem} (hstore : sys.store = st) (hev : sys.events = ev) :
    ∃ sys', storageCall env (.elementFree ctx order a) sys = .ok ((), sys') ∧
      sys'.events.queue = ev.queue ++ if ev.running then
        noticesInOrder ev st.cell [] (order.list (removeOrder st.cell a)) else [] := by
  subst hstore hev
  obtain ⟨st', calls, hrun, hemitted, hfor⟩ := elementFree_calls hok ha ctx hwrite order
  obtain ⟨_, _, hlives⟩ := removeTable_spec hok.cells ha order
  have hstep : CallStep sys.store (env, .elementFree ctx order a) st' := by
    have hignore : ignoreResult (scStorageElementFree env ctx order a) sys.store = .ok ((), st') :=
      run_bind_ok hrun _
    exact hignore
  have hcall := @storageCall_eq ctx sys st' (env, .elementFree ctx order a) (Or.inr rfl) hstep
  have hann : (StorageCall.elementFree ctx order a).announced sys.store st' = calls := by
    unfold StorageCall.announced StorageCall.emitContext
    dsimp only
    rw [hemitted, List.drop_left]
  have hnotified := @notified_callsFor sys.events _ _ _ _ hfor
  have hwp : Wp (eventCalls ctx calls) (fun _ ev' => ev'.queue = sys.events.queue ++
      if sys.events.running then
        noticesInOrder sys.events sys.store.cell [] (order.list (removeOrder sys.store.cell a)) else [])
      (fun _ => False) sys.events := by
    apply wp_mono (eventCalls_immediate ctx calls hs hs delivered_start himm)
    · intro _ ev' ⟨_, hdel, _⟩
      have hqueue := hdel.queue
      rw [List.nil_append, hnotified] at hqueue
      exact hqueue
    · intro _ hnoroom
      apply hnoroom
      constructor
      · intro el access type edge other hmem
        exact element_callsFor hok.cells.arcs hlives hfor el access type edge other hmem
      · intro id e he _
        have hle := (@noticesInOrder_sublist sys.events sys.store.cell []
          (order.list (removeOrder sys.store.cell a))).countP_le (p := fun job => job.event = id)
        have hbound := hroom id e he
        rw [hnotified]
        unfold jobCount at hbound ⊢
        rw [List.countP_nil]
        omega
  obtain ⟨_, ev', hevents, hqueue⟩ := wp_returns hwp
  dsimp only at hcall
  rw [hann] at hcall
  refine ⟨{ sys with store := st', events := ev' }, ?_, hqueue⟩
  rw [hcall]
  exact @inEvents_ok { sys with store := st' } _ _ _ _ hevents

theorem deletionNotices_perm {D D' : List ScAddr} (h : D.Perm D') :
    (deletionNotices ev c D).Perm (deletionNotices ev c D') := h.flatMap_right _

/-- For every order of `remove_table` exactly the due notifications are queued, if and only if there
are none, or the queue is running, no removed element that an arc of the closure begins or ends at
has a subscription that waits for the arc, and the subscriptions to removals may read the
elements. -/
theorem deletion_notices_iff (thread : ℕ) (evs : List StoreEvent) (st : ScStorage)
    (hr : Run (OwnStep thread) ScStorage.empty evs st) (actions : List EventAction) (s : EventParties)
    (hs : Run EventStep EventParties.empty actions s) (sys : ScSystem) (hstore : sys.store = st)
    (hev : sys.events = s.ev) (env : ScEnv) (ht : env.thread = thread) (ctx : ScContext)
    (himm : sys.events.pending ctx.id = none) (a : ScAddr) (ha : Live st.cell a)
    (hwrite : ∀ x ∈ checkedElements st.cell a, CanWrite ctx st.cell x) (D : List ScAddr)
    (hnodup : D.Nodup) (hD : ∀ x, x ∈ D ↔ InClosure st.cell a x)
    (hroom : ∀ id e, sys.events.find id = some e →
      e.refs+jobCount id (deletionNotices sys.events st.cell D) ≤ 2147483647) :
    (∀ order : HashOrder, ∃ sys' jobs, storageCall env (.elementFree ctx order a) sys = .ok ((), sys') ∧
        sys'.events.queue = sys.events.queue ++ jobs ∧
          jobs.Perm (deletionNotices sys.events st.cell D)) ↔
      deletionNotices sys.events st.cell D = [] ∨ (sys.events.running = true ∧
        (∀ x d, ¬ LosesNotice sys.events st.cell a x d) ∧
          ∀ x, InClosure st.cell a x → RemovalReadable sys.events st.cell x) := by
  subst ht
  have hok := ownRun_storeOk evs st hr
  have hs' : EventsOk ⟨sys.events, s.phase⟩ := by
    rw [hev]
    exact eventRun_ok actions s hs
  have harcs := hok.cells.arcs
  have hperm (order : HashOrder) : (order.list (removeOrder st.cell a)).Perm D := by
    apply (List.perm_ext_iff_of_nodup (removeTable_spec hok.cells ha order).1 hnodup).mpr
    intro x
    rw [(order.perm _).mem_iff, mem_removeOrder harcs ha, hD]
  have hqueued (order : HashOrder) := elementFree_queued hok hs' ha ctx himm hwrite order
    (fun id e he => by
      have hbound := hroom id e he
      rw [jobCount, ((deletionNotices_perm (hperm order)).countP_eq _)]
      exact hbound) hstore rfl
  have hmem (order : HashOrder) (x : ScAddr) :
      x ∈ order.list (removeOrder st.cell a) ↔ InClosure st.cell a x := by
    rw [(hperm order).mem_iff, hD]
  constructor
  · intro hall
    by_cases hempty : deletionNotices sys.events st.cell D = []
    · exact Or.inl hempty
    right
    -- what is queued for an order is as much as is due
    have hlength (order : HashOrder) : sys.events.running = true ∧
        (noticesInOrder sys.events st.cell [] (order.list (removeOrder st.cell a))).length =
          (deletionNotices sys.events st.cell (order.list (removeOrder st.cell a))).length := by
      obtain ⟨sys1, hrun1, hqueue1⟩ := hqueued order
      obtain ⟨sys2, jobs, hrun2, hqueue2, hjobs⟩ := hall order
      rw [hrun1, Except.ok.injEq, Prod.mk.injEq] at hrun2
      rw [hrun2.2, hqueue2, List.append_cancel_left_eq] at hqueue1
      have hlen := hjobs.length_eq
      have hdue := (@deletionNotices_perm sys.events st.cell _ _ (hperm order)).length_eq
      split_ifs at hqueue1 with hrunning
      · rw [hqueue1] at hlen
        exact ⟨hrunning, hlen.trans hdue.symm⟩
      · rw [hqueue1, List.length_nil] at hlen
        exact absurd (List.length_eq_zero_iff.mp hlen.symm) hempty
    refine ⟨(hlength tableOrder).1, ?_, ?_⟩
    · intro x d hloses
      have hloses' := hloses
      obtain ⟨_, hx, howner, hne, _⟩ := hloses'
      -- the owner comes first
      have hlen := (hlength (HashOrder.startingWith (ownerOf st.cell d x))).2
      have howner' := (mem_removeOrder harcs ha _).mpr howner
      have hx' := (mem_removeOrder harcs ha _).mpr hx
      have hlist : (HashOrder.startingWith (ownerOf st.cell d x)).list (removeOrder st.cell a) =
          ownerOf st.cell d x :: (removeOrder st.cell a).erase (ownerOf st.cell d x) := if_pos howner'
      rw [hlist] at hlen
      have hlt := @noticesInOrder_lt x sys.events st.cell [ownerOf st.cell d x]
        ((removeOrder st.cell a).erase (ownerOf st.cell d x))
        ((List.mem_erase_of_ne (Ne.symm hne)).mpr hx') fun gone' hsub =>
          queuedNotices_lt_of_gone hloses (hsub List.mem_cons_self)
      have hfirst := (@queuedNotices_sublist sys.events st.cell [] (ownerOf st.cell d x)).length_le
      have hcons (l : List ScAddr) : deletionNotices sys.events st.cell (ownerOf st.cell d x :: l) =
        dueNotices sys.events st.cell (ownerOf st.cell d x) ++ deletionNotices sys.events st.cell l :=
          rfl
      unfold noticesInOrder at hlen
      rw [hcons, List.length_append, List.length_append] at hlen
      omega
    · intro x hx
      by_contra hread
      have hlen := (hlength tableOrder).2
      have hlt := @noticesInOrder_lt x sys.events st.cell [] (tableOrder.list (removeOrder st.cell a))
        ((hmem tableOrder x).mpr hx) fun gone' _ => queuedNotices_lt_of_unreadable hs' hread
      omega
  · intro hcond order
    obtain ⟨sys', hrun, hqueue⟩ := hqueued order
    refine ⟨sys', _, hrun, hqueue, ?_⟩
    have hdue := @deletionNotices_perm sys.events st.cell _ _ (hperm order)
    rcases hcond with hempty | ⟨hrunning, hloses, hread⟩
    · rw [hempty] at hdue ⊢
      have hsub := @noticesInOrder_sublist sys.events st.cell [] (order.list (removeOrder st.cell a))
      rw [hdue.eq_nil, List.sublist_nil] at hsub
      rw [hsub, ite_self]
    · rw [if_pos hrunning, noticesInOrder_eq hs' (fun x hx => (hmem order x).mp hx)
        (fun x hx => hx.live ha) (by simp) (removeTable_spec hok.cells ha order).1 (by simp) hloses hread]
      exact hdue

end

/-- An arc between two nodes, and a subscription to arcs leaving the first one. -/
def subscribedArc : ScSystem := subscribedTo storeWithArc .removeOutputArc

theorem deletion_notices_iff_arcEnd :
    ∃ sys' jobs, storageCall exampleEnv
        (.elementFree exampleContext (HashOrder.startingWith ⟨0, 65⟩) ⟨0, 33⟩) subscribedArc =
      .ok ((), sys') ∧ sys'.events.queue = subscribedArc.events.queue ++ jobs ∧
        jobs.Perm [⟨0, ⟨0, 65⟩, ⟨0, 33⟩⟩] := by
  have hok := (ownRun_storeOk arcEvents _ storeWithArc_run).cells.arcs
  have hlive : Live storeWithArc.cell ⟨0, 33⟩ := by
    unfold Live
    decide +kernel
  have hmem (x : ScAddr) := mem_removeOrder hok hlive x
  have howners : ∀ x ∈ removeOrder storeWithArc.cell ⟨0, 33⟩,
      (∀ d ∈ [Dir.out, Dir.inp], ownerOf storeWithArc.cell d x ∈ removeOrder storeWithArc.cell ⟨0, 33⟩ →
        subscribedArc.events.subscribers (ownerOf storeWithArc.cell d x)
          (storeWithArc.cell (ownerOf storeWithArc.cell d x)).accessLevels d.removeEvent = []) ∧
      subscribedArc.events.subscriptions x .removeElement = [] := by decide +kernel
  have hcounts : ∀ e ∈ subscribedArc.events.events, e.refs+jobCount e.id (deletionNotices
      subscribedArc.events storeWithArc.cell (removeOrder storeWithArc.cell ⟨0, 33⟩)) ≤ 2147483647 := by
    decide +kernel
  have hall := (deletion_notices_iff 1 arcEvents storeWithArc storeWithArc_run
    [.new ⟨0, 1⟩ .removeOutputArc .simple 0xff] _ (eventRun_of_actions _ _ (by decide +kernel))
    subscribedArc (subscribedTo_store _ _) (subscribedTo_events _ _) exampleEnv rfl exampleContext
    (by decide +kernel) ⟨0, 33⟩ hlive
    (fun x _ => canWrite_exampleContext _ x) _ (removeOrder_spec _ _).1 hmem ?_).mpr (Or.inr ?_)
    (HashOrder.startingWith ⟨0, 65⟩)
  · have hdue : deletionNotices subscribedArc.events storeWithArc.cell
        (removeOrder storeWithArc.cell ⟨0, 33⟩) = [⟨0, ⟨0, 65⟩, ⟨0, 33⟩⟩] := by decide +kernel
    rw [hdue] at hall
    exact hall
  · intro id e he
    rw [← find_id he]
    exact hcounts e (find_mem he)
  · refine ⟨by decide +kernel, ?_, ?_⟩
    · intro x d ⟨_, hx, howner, _, hsub⟩
      apply hsub
      apply (howners x ((hmem x).mpr hx)).1 d _ ((hmem _).mpr howner)
      cases d <;> simp
    · intro x hx id hid
      rw [(howners x ((hmem x).mpr hx)).2] at hid
      simp at hid

/-- With the node at the begin of the arc the notification depends on which of the two is erased
first. -/
theorem notices_depend_on_order :
    storageCall exampleEnv (.elementFree exampleContext (HashOrder.startingWith ⟨0, 65⟩) ⟨0, 1⟩)
        subscribedArc = .ok ((), systemResult (storageCall exampleEnv
          (.elementFree exampleContext (HashOrder.startingWith ⟨0, 65⟩) ⟨0, 1⟩)) subscribedArc) ∧
    storageCall exampleEnv (.elementFree exampleContext (HashOrder.startingWith ⟨0, 1⟩) ⟨0, 1⟩)
        subscribedArc = .ok ((), systemResult (storageCall exampleEnv
          (.elementFree exampleContext (HashOrder.startingWith ⟨0, 1⟩) ⟨0, 1⟩)) subscribedArc) ∧
    (systemResult (storageCall exampleEnv
        (.elementFree exampleContext (HashOrder.startingWith ⟨0, 65⟩) ⟨0, 1⟩))
          subscribedArc).events.queue = [⟨0, ⟨0, 65⟩, ⟨0, 33⟩⟩] ∧
    (systemResult (storageCall exampleEnv
        (.elementFree exampleContext (HashOrder.startingWith ⟨0, 1⟩) ⟨0, 1⟩))
          subscribedArc).events.queue = [] :=
  ⟨systemResult_eq (by decide +kernel), systemResult_eq (by decide +kernel), by decide +kernel,
    by decide +kernel⟩

end ScMachine.Store
