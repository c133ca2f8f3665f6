import ScMachine.EventLifetime
import ScMachine.SctpEventManager

/-! What the clients of the server have to do with each other's subscriptions. -/
namespace ScMachine.Sctp
open ScMachine.Store ScMachine.Runs

/-- A thread that has the mutex of the manager. -/
def CommandPhase.Holds : CommandPhase → Prop
  | .creating _ _ | .destroying _ _ => True
  | _ => False

/-- The mutex is what its holders take it for, and at most one callback has it. -/
structure MutexOk (s : SctpEvents) : Prop where
  holder : ∀ t, (s.commands t).phase.Holds → s.mutex = some (.command t)
  locked : ∀ i : ℕ, s.callbacks[i]? = some .locked → s.mutex = some .callback
  unique : ∀ i j : ℕ, s.callbacks[i]? = some .locked → s.callbacks[j]? = some .locked → i = j

section
variable {asserts : Bool} {s s' : SctpEvents} {action : SctpAction} {t : ℕ} {c : SctpCommand}

/-- A thread goes on and neither takes nor gives back the mutex. -/
theorem MutexOk.keep (h : MutexOk s) (hcommands : s'.commands = Function.update s.commands t c)
    (hmutex : s'.mutex = s.mutex) (hcallbacks : s'.callbacks = s.callbacks)
    (hc : c.phase.Holds → (s.commands t).phase.Holds) : MutexOk s' := by
  refine ⟨?_, by rw [hmutex, hcallbacks]; exact h.locked, by rw [hcallbacks]; exact h.unique⟩
  intro u hu
  rw [hcommands] at hu
  rw [hmutex]
  by_cases hut : u = t
  · subst hut
    rw [Function.update_self] at hu
    exact h.holder u (hc hu)
  · rw [Function.update_of_ne hut] at hu
    exact h.holder u hu

theorem MutexOk.acquire (h : MutexOk s) (hfree : s.mutex = none)
    (hcommands : s'.commands = Function.update s.commands t c)
    (hmutex : s'.mutex = some (.command t)) (hcallbacks : s'.callbacks = s.callbacks) : MutexOk s' := by
  refine ⟨?_, ?_, by rw [hcallbacks]; exact h.unique⟩
  · intro u hu
    by_cases hut : u = t
    · rw [hut, hmutex]
    · -- nobody else can have had it
      rw [hcommands, Function.update_of_ne hut] at hu
      have hold := h.holder u hu
      rw [hfree] at hold
      cases hold
  · intro i hi
    rw [hcallbacks] at hi
    have hold := h.locked i hi
    rw [hfree] at hold
    cases hold

theorem MutexOk.release (h : MutexOk s) (hold : (s.commands t).phase.Holds)
    (hcommands : s'.commands = Function.update s.commands t c)
    (hcallbacks : s'.callbacks = s.callbacks) (hc : ¬ c.phase.Holds) : MutexOk s' := by
  have hown := h.holder t hold
  refine ⟨?_, ?_, by rw [hcallbacks]; exact h.unique⟩
  · intro u hu
    exfalso
    rw [hcommands] at hu
    by_cases hut : u = t
    · rw [hut, Function.update_self] at hu
      exact hc hu
    · rw [Function.update_of_ne hut] at hu
      have hother := h.holder u hu
      rw [hown] at hother
      cases hother
      exact hut rfl
  · intro i hi
    rw [hcallbacks] at hi
    have hother := h.locked i hi
    rw [hown] at hother
    cases hother

/-- A step of the core, or of a worker outside the mutex: no callback is new under the mutex. -/
theorem MutexOk.workers (h : MutexOk s) (hcommands : s'.commands = s.commands)
    (hmutex : s'.mutex = s.mutex) (f : ℕ → ℕ) (hf : Function.Injective f)
    (hcallbacks : ∀ i : ℕ, s'.callbacks[i]? = some .locked → s.callbacks[f i]? = some .locked) :
    MutexOk s' := by
  refine ⟨?_, ?_, ?_⟩
  · rw [hcommands, hmutex]
    exact h.holder
  · intro i hi
    rw [hmutex]
    exact h.locked (f i) (hcallbacks i hi)
  · intro i j hi hj
    exact hf (h.unique _ _ (hcallbacks i hi) (hcallbacks j hj))

/-- A callback has given back the mutex. -/
theorem MutexOk.returned (h : MutexOk s) {i : ℕ} (hi : s.callbacks[i]? = some .locked)
    (hcommands : ∀ u, (s'.commands u).phase = (s.commands u).phase)
    (hcallbacks : s'.callbacks = s.callbacks.set i .returned) : MutexOk s' := by
  have hown := h.locked i hi
  have hnone (j : ℕ) : s'.callbacks[j]? ≠ some .locked := by
    intro hj
    rw [hcallbacks, List.getElem?_set] at hj
    split_ifs at hj with hij
    · cases hj
    · exact hij (h.unique i j hi hj)
  refine ⟨?_, fun j hj => absurd hj (hnone j), fun j k hj => absurd hj (hnone j)⟩
  intro u hu
  rw [hcommands] at hu
  have hother := h.holder u hu
  rw [hown] at hother
  cases hother

/-- The thread behind `sc_event_destroy`. -/
theorem MutexOk.afterDestroy (h : MutexOk s) {freed : Bool} {caller : DestroyCaller}
    (hold : (s.commands t).phase.Holds) (hafter : s.afterDestroy t freed caller = some s') :
    MutexOk s' := by
  unfold SctpEvents.afterDestroy at hafter
  split at hafter
  · cases hafter
    exact h.release hold rfl rfl (fun hc => hc)
  · cases hafter
    exact h.release hold rfl rfl (fun hc => hc)
  · cases hafter
    exact h.release hold rfl rfl (fun hc => hc)
  · obtain ⟨evt, _, rfl⟩ := Option.map_eq_some_iff.mp hafter
    exact h.keep rfl rfl rfl fun _ => hold

theorem mutex_step (h : MutexOk s) (hstep : SctpStep asserts s action s') : MutexOk s' := by
  have hcore (core : EventParties) : MutexOk { s with core := core } :=
    h.workers rfl rfl id Function.injective_id fun i hi => hi
  cases hstep with
  | createLock t type addr hphase hmutex => exact h.acquire hmutex rfl rfl rfl
  | destroyLock t id d evt hphase hmutex => exact h.acquire hmutex rfl rfl rfl
  | leaveLock t id rest d evt hphase hmutex => exact h.acquire hmutex rfl rfl rfl
  | shutdownLock t d rest evt hphase hmutex => exact h.acquire hmutex rfl rfl rfl
  | createNoId t type addr levels hphase =>
    exact @MutexOk.release s _ t _ h (by rw [hphase]; trivial) rfl rfl (fun hc => hc)
  | createNull t type addr levels id hphase =>
    exact @MutexOk.release s _ t _ h (by rw [hphase]; trivial) rfl rfl (fun hc => hc)
  | createEvent t type addr l id core hphase =>
    exact @MutexOk.release s _ t _ h (by rw [hphase]; trivial) rfl rfl (fun hc => hc)
  | createFail | createKnown | createDone | disconnect | leaveMissing | leaveDone =>
    exact h.keep rfl rfl rfl fun hc => hc.elim
  | emitEvents t hphase => exact h.keep rfl rfl rfl fun hc => hc
  | destroyMissing | shutdownEmpty => exact h
  | destroyRequest | destroyUnref | destroyWaits | emit | notifyDeleted => exact hcore _
  | destroyRefused t evt caller core s' hphase _ _ hafter =>
    exact (hcore core).afterDestroy (by show (s.commands t).phase.Holds; rw [hphase]; trivial) hafter
  | destroyFreed t evt caller core s' hphase _ _ hafter =>
    exact (hcore core).afterDestroy (by show (s.commands t).phase.Holds; rw [hphase]; trivial) hafter
  | workerStart i job e core =>
    refine h.workers rfl rfl id Function.injective_id ?_
    intro j hj
    change (s.callbacks ++ _)[j]? = _ at hj
    by_cases hlt : j < s.callbacks.length
    · rw [List.getElem?_append_left hlt] at hj
      exact hj
    · rw [List.getElem?_append_right (by omega)] at hj
      have hmem := List.mem_of_getElem? hj
      rw [List.mem_singleton] at hmem
      split_ifs at hmem
  | callbackLock i hentered hmutex =>
    refine ⟨?_, fun _ _ => rfl, ?_⟩
    · intro u hu
      have hold := h.holder u hu
      rw [hmutex] at hold
      cases hold
    · -- before the step no callback was under the mutex
      have hnew (j : ℕ) (hj : (s.callbacks.set i .locked)[j]? = some .locked) : i = j := by
        rw [List.getElem?_set] at hj
        split_ifs at hj with hij
        · exact hij
        · have hold := h.locked j hj
          rw [hmutex] at hold
          cases hold
      intro j k hj hk
      rw [← hnew j hj, ← hnew k hk]
  | callbackMissing i job e hlocked => exact h.returned hlocked (fun u => rfl) rfl
  | callbackRun i job e d hlocked =>
    apply h.returned hlocked _ rfl
    intro u
    show (Function.update s.commands d.cmd _ u).phase = _
    by_cases hu : u = d.cmd
    · rw [hu, Function.update_self]
      rfl
    · rw [Function.update_of_ne hu]
  | workerFinish i core =>
    refine h.workers rfl rfl (fun j => if j < i then j else j+1) ?_ ?_
    · intro j k hjk
      dsimp only at hjk
      split_ifs at hjk <;> omega
    · intro j hj
      change (s.callbacks.eraseIdx i)[j]? = _ at hj
      rw [List.getElem?_eraseIdx] at hj
      split_ifs at hj ⊢ <;> exact hj

theorem mutexOk_empty : MutexOk SctpEvents.empty := by
  have hnone (i : ℕ) : SctpEvents.empty.callbacks[i]? = none := by cases i <;> rfl
  refine ⟨fun _ h => h.elim, ?_, ?_⟩
  · intro i h
    rw [hnone] at h
    cases h
  · intro i j h
    rw [hnone] at h
    cases h

/-- What `sc_event_destroy` is called for: the entry that its caller has found, or one of the entries that
`sctpEventManager::shutdown` goes through. -/
def DestroysOwn (s : SctpEvents) (t evt : ℕ) : DestroyCaller → Prop
  | .command id | .disconnect id _ => ∃ d ∈ s.mEvents, d.id = id ∧ d.event = some evt ∧ d.cmd = t
  | .shutdown rest => ∀ d ∈ s.mEvents, d ∈ rest ∨ d.event = some evt ∨
    ∃ x, d.event = some x ∧ s.core.phase x = .freed

/-- Each subscription that has not been freed has its entry, with its id and its client. -/
structure OwnersOk (s : SctpEvents) : Prop where
  ids : (s.mEvents.map SEventData.id).Nodup
  entry : ∀ evt < s.core.ev.nextId, s.core.phase evt ≠ .freed → ∃ d ∈ s.mEvents,
    d.event = some evt ∧ d.id = s.eventData evt ∧ d.cmd = s.creator evt
  destroying : ∀ t evt caller, (s.commands t).phase = .destroying evt caller → DestroysOwn s t evt caller

/-- What a client was told of is what it has been sent and what is still to be sent. -/
structure InboxOk (s : SctpEvents) : Prop where
  inbox : ∀ t, s.notified t = (s.commands t).sent.flatMap Prod.snd ++ (s.commands t).sendData
  count : ∀ t, (s.commands t).sendEventsCount = BitVec.ofNat 32 (s.commands t).sendData.length
  counts : ∀ t, ∀ r ∈ (s.commands t).sent, r.1 = BitVec.ofNat 32 r.2.length

theorem findEvent_some {l : List SEventData} {id : TEventId} {d : SEventData}
    (h : findEvent l id = some d) : d ∈ l ∧ d.id = id := by
  have hid := List.find?_some h
  exact ⟨List.mem_of_find?_eq_some h, of_decide_eq_true hid⟩

theorem findEvent_of_mem {l : List SEventData} (hids : (l.map SEventData.id).Nodup) {d : SEventData}
    (hd : d ∈ l) : findEvent l d.id = some d := by
  have hsome : (findEvent l d.id).isSome := by
    unfold findEvent
    rw [List.find?_isSome]
    exact ⟨d, hd, by simp⟩
  obtain ⟨d', hd'⟩ := Option.isSome_iff_exists.mp hsome
  obtain ⟨hmem, hid⟩ := findEvent_some hd'
  rw [hd', List.inj_on_of_nodup_map hids hmem hd hid]

theorem mem_eraseEvent {l : List SEventData} {id : TEventId} {d : SEventData} :
    d ∈ eraseEvent l id ↔ d ∈ l ∧ d.id ≠ id := by
  unfold eraseEvent
  rw [List.mem_filter, decide_eq_true_eq]

/-- A new id: no entry is written over. -/
theorem insertEvent_new {l : List SEventData} {d : SEventData} (h : findEvent l d.id = none) :
    insertEvent l d = d :: l := by
  have hne (x : SEventData) (hx : x ∈ l) : x.id ≠ d.id := by
    have hx' := List.find?_eq_none.mp h x hx
    simpa using hx'
  unfold insertEvent eraseEvent
  rw [List.filter_eq_self.mpr (fun x hx => decide_eq_true (hne x hx))]

/-- A step that leaves the entries and the freed subscriptions as they are. -/
theorem OwnersOk.keep (h : OwnersOk s) (hevents : s'.mEvents = s.mEvents)
    (hdata : s'.eventData = s.eventData) (hcreator : s'.creator = s.creator)
    (hnext : s'.core.ev.nextId = s.core.ev.nextId)
    (hfreed : ∀ x, s'.core.phase x = .freed ↔ s.core.phase x = .freed)
    (hphase : ∀ u evt caller, (s'.commands u).phase = .destroying evt caller →
      (s.commands u).phase = .destroying evt caller ∨ DestroysOwn s u evt caller) : OwnersOk s' := by
  refine ⟨hevents ▸ h.ids, ?_, ?_⟩
  · intro evt hevt hne
    rw [hnext] at hevt
    rw [hevents, hdata, hcreator]
    exact h.entry evt hevt (fun hf => hne ((hfreed evt).mpr hf))
  · intro u evt caller hu
    have hown : DestroysOwn s u evt caller := (hphase u evt caller hu).elim (h.destroying u evt caller) id
    unfold DestroysOwn at hown ⊢
    rw [hevents]
    cases caller with
    | command => exact hown
    | disconnect => exact hown
    | shutdown rest =>
      intro d hd
      rcases hown d hd with hin | hevt | ⟨x, hx, hf⟩
      · exact Or.inl hin
      · exact Or.inr (Or.inl hevt)
      · exact Or.inr (Or.inr ⟨x, hx, (hfreed x).mpr hf⟩)

/-- The steps of the core that neither make nor free a subscription. -/
theorem core_same {p p' : EventParties} {a : EventAction} (hs : EventsOk p) (hstep : EventStep p a p')
    (hnew : ∀ el type callback levels, a ≠ .new el type callback levels)
    (hfree : ∀ x, a = .destroyPass x → p'.phase x ≠ .freed) :
    p'.ev.nextId = p.ev.nextId ∧ ∀ x, p'.phase x = .freed ↔ p.phase x = .freed := by
  have hupdate (y : ℕ) (phase : DestroyPhase) (hy : p.phase y ≠ .freed) (hphase : phase ≠ .freed) (x : ℕ) :
      Function.update p.phase y phase x = .freed ↔ p.phase x = .freed := by
    by_cases hx : x = y
    · rw [hx, Function.update_self]
      exact ⟨fun h => absurd h hphase, fun h => absurd h hy⟩
    · rw [Function.update_of_ne hx]
  cases event_outcome hs a hstep with
  | new el type callback levels => exact absurd rfl (hnew el type callback levels)
  | destroyMarked y e hy => exact ⟨rfl, hupdate y _ (by simp [hy]) (by simp)⟩
  | destroyClosed y e entries hy => exact ⟨rfl, hupdate y _ (by simp [hy]) (by simp)⟩
  | destroyUnref y hy => exact ⟨rfl, hupdate y _ (by simp [hy]) (by simp)⟩
  | destroyFreed y => exact absurd (Function.update_self _ _ _) (hfree y rfl)
  | _ => exact ⟨rfl, fun x => Iff.rfl⟩

/-- Ids are not given twice, subscriptions can be made, and a client destroys its own ones. -/
def Separate (s : SctpEvents) : SctpAction → Prop
  | .createEvent t levels => ∀ type addr id, (s.commands t).phase = .creating type addr →
    getAvailableEventId s.mEvents s.lastEventId = some id →
      findEvent s.mEvents id = none ∧ addr ≠ ScAddr.empty ∧ levels ≠ none
  | .createReply t => ∀ id, (s.commands t).phase = .created (some id) → id ∉ (s.commands t).eventsSet
  | .destroyEvent t id => ∀ d, findEvent s.mEvents id = some d → d.cmd = t
  | .leave t => ∀ id rest d, (s.commands t).phase = .leaving (id :: rest) →
    findEvent s.mEvents id = some d → d.cmd = t
  | _ => True

structure SeparateStep (asserts : Bool) (s : SctpEvents) (action : SctpAction) (s' : SctpEvents) :
    Prop where
  step : SctpStep asserts s action s'
  separate : Separate s action

/-- A client makes a subscription under a new id. -/
theorem OwnersOk.created (h : OwnersOk s) (hm : MutexOk s) (hs : EventsOk s.core) {type : ScEventType}
    {addr : ScAddr} {l : ScAccessLevels} {id : TEventId} {core : EventParties}
    (hphase : (s.commands t).phase = .creating type addr)
    (hcore : EventStep s.core (.new addr type .simple l) core) (hnew : findEvent s.mEvents id = none) :
    OwnersOk { s.setPhase t (.created (some id)) with
      core := core
      eventData := Function.update s.eventData s.core.ev.nextId id
      creator := Function.update s.creator s.core.ev.nextId t
      mutex := none, lastEventId := id
      mEvents := insertEvent s.mEvents ⟨some s.core.ev.nextId, t, id⟩ } := by
  have hinsert : insertEvent s.mEvents ⟨some s.core.ev.nextId, t, id⟩ =
      ⟨some s.core.ev.nextId, t, id⟩ :: s.mEvents := insertEvent_new hnew
  have hout : core.ev.nextId = s.core.ev.nextId+1 ∧ core.phase = s.core.phase := by
    cases event_outcome hs _ hcore
    exact ⟨rfl, rfl⟩
  have hmutex := hm.holder t (by rw [hphase]; trivial)
  refine ⟨?_, ?_, ?_⟩
  · show ((insertEvent s.mEvents _).map SEventData.id).Nodup
    rw [hinsert, List.map_cons, List.nodup_cons]
    refine ⟨?_, h.ids⟩
    intro hid
    obtain ⟨d, hd, hdid⟩ := List.mem_map.mp hid
    change d.id = id at hdid
    have hfound := findEvent_of_mem h.ids hd
    rw [hdid, hnew] at hfound
    cases hfound
  · intro evt hevt hne
    change evt < core.ev.nextId at hevt
    change core.phase evt ≠ .freed at hne
    show ∃ d ∈ insertEvent s.mEvents _, d.event = some evt ∧
      d.id = Function.update s.eventData s.core.ev.nextId id evt ∧
        d.cmd = Function.update s.creator s.core.ev.nextId t evt
    rw [hinsert]
    by_cases hlast : evt = s.core.ev.nextId
    · subst hlast
      exact ⟨_, List.mem_cons_self, rfl, by rw [Function.update_self], by rw [Function.update_self]⟩
    · rw [hout.2] at hne
      obtain ⟨d, hd, hevent, hid, hcmd⟩ := h.entry evt (by omega) hne
      rw [Function.update_of_ne hlast, Function.update_of_ne hlast]
      exact ⟨d, List.mem_cons_of_mem _ hd, hevent, hid, hcmd⟩
  · -- another thread that destroys something would have the mutex
    intro u evt caller hu
    exfalso
    change (Function.update s.commands t _ u).phase = _ at hu
    by_cases hut : u = t
    · rw [hut, Function.update_self] at hu
      cases hu
    · rw [Function.update_of_ne hut] at hu
      have hother := hm.holder u (by rw [hu]; trivial)
      rw [hmutex] at hother
      cases hother
      exact hut rfl

/-- Behind `sc_event_destroy`: only the entry of the freed subscription is gone. -/
theorem OwnersOk.freed (h : OwnersOk s) (hm : MutexOk s) (hs : EventsOk s.core) {evt : ℕ}
    {caller : DestroyCaller} {core : EventParties}
    (hphase : (s.commands t).phase = .destroying evt caller)
    (hcore : EventStep s.core (.destroyPass evt) core) (hfreed : core.phase evt = .freed)
    (hafter : ({ s with core := core } : SctpEvents).afterDestroy t true caller = some s') :
    OwnersOk s' := by
  have hout : core.ev.nextId = s.core.ev.nextId ∧ ∀ x, x ≠ evt → core.phase x = s.core.phase x := by
    cases event_outcome hs _ hcore with
    | destroyWaits => exact ⟨rfl, fun _ _ => rfl⟩
    | destroyFreed => exact ⟨rfl, fun x hx => Function.update_of_ne hx _ _⟩
  have hmutex := hm.holder t (by rw [hphase]; trivial)
  have hown := h.destroying t evt caller hphase
  have hstays (x : ℕ) (hx : x < core.ev.nextId) (hne : core.phase x ≠ .freed) :
      x ≠ evt ∧ ∃ d ∈ s.mEvents, d.event = some x ∧ d.id = s.eventData x ∧ d.cmd = s.creator x := by
    have hxe : x ≠ evt := fun he => hne (he ▸ hfreed)
    rw [hout.2 x hxe] at hne
    rw [hout.1] at hx
    exact ⟨hxe, h.entry x hx hne⟩
  have hnone (phase : CommandPhase) (hp : ∀ x c, phase ≠ .destroying x c) (u x : ℕ) (c : DestroyCaller)
      (hu : (Function.update s.commands t { s.commands t with phase := phase } u).phase =
        .destroying x c) : False := by
    by_cases hut : u = t
    · rw [hut, Function.update_self] at hu
      exact hp x c hu
    · rw [Function.update_of_ne hut] at hu
      have hother := hm.holder u (by rw [hu]; trivial)
      rw [hmutex] at hother
      cases hother
      exact hut rfl
  have herased (id : TEventId) (hid : ∃ d ∈ s.mEvents, d.id = id ∧ d.event = some evt ∧ d.cmd = t) :
      ((eraseEvent s.mEvents id).map SEventData.id).Nodup ∧ ∀ x < core.ev.nextId, core.phase x ≠ .freed →
        ∃ d ∈ eraseEvent s.mEvents id, d.event = some x ∧ d.id = s.eventData x ∧ d.cmd = s.creator x := by
    obtain ⟨d, hd, hdid, hdevent, _⟩ := hid
    refine ⟨h.ids.sublist (List.filter_sublist.map _), ?_⟩
    intro x hx hne
    obtain ⟨hxe, d', hd', hevent, hid', hcmd⟩ := hstays x hx hne
    refine ⟨d', mem_eraseEvent.mpr ⟨hd', ?_⟩, hevent, hid', hcmd⟩
    -- the erased entry is the one of the freed subscription
    intro heq
    rw [← hdid] at heq
    rw [List.inj_on_of_nodup_map h.ids hd' hd heq, hdevent] at hevent
    cases hevent
    exact hxe rfl
  unfold SctpEvents.afterDestroy at hafter
  split at hafter
  · cases hafter
    obtain ⟨hids, hentry⟩ := herased _ hown
    exact ⟨hids, hentry, fun u x c hu => (hnone .idle (by simp) u x c hu).elim⟩
  · cases hafter
    obtain ⟨hids, hentry⟩ := herased _ hown
    exact ⟨hids, hentry, fun u x c hu => (hnone (.leaving _) (by simp) u x c hu).elim⟩
  · cases hafter
    refine ⟨List.nodup_nil, ?_, fun u x c hu => (hnone .idle (by simp) u x c hu).elim⟩
    intro x hx hne
    exfalso
    obtain ⟨hxe, d, hd, hevent, _⟩ := hstays x hx hne
    rcases hown d hd with hin | hlast | ⟨y, hy, hf⟩
    · cases hin
    · rw [hevent] at hlast
      cases hlast
      exact hxe rfl
    · rw [hevent] at hy
      cases hy
      exact hne ((hout.2 x hxe).trans hf)
  · obtain ⟨next, hnext, rfl⟩ := Option.map_eq_some_iff.mp hafter
    refine ⟨h.ids, fun x hx hne => (hstays x hx hne).2, ?_⟩
    intro u x c hu
    change (Function.update s.commands t _ u).phase = _ at hu
    by_cases hut : u = t
    · rw [hut, Function.update_self] at hu
      cases hu
      intro d hd
      change d ∈ s.mEvents at hd
      rcases hown d hd with hin | hlast | ⟨y, hy, hf⟩
      · rcases List.mem_cons.mp hin with rfl | hin
        · exact Or.inr (Or.inl hnext)
        · exact Or.inl hin
      · exact Or.inr (Or.inr ⟨evt, hlast, hfreed⟩)
      · by_cases hye : y = evt
        · exact Or.inr (Or.inr ⟨y, hy, hye ▸ hfreed⟩)
        · exact Or.inr (Or.inr ⟨y, hy, (hout.2 y hye).trans hf⟩)
    · exfalso
      rw [Function.update_of_ne hut] at hu
      have hother := hm.holder u (by rw [hu]; trivial)
      rw [hmutex] at hother
      cases hother
      exact hut rfl

/-- Another phase of one thread, which is not the one of a thread that destroys something. -/
theorem OwnersOk.phase (h : OwnersOk s) (hcommands : s'.commands = Function.update s.commands t c)
    (hevents : s'.mEvents = s.mEvents) (hdata : s'.eventData = s.eventData)
    (hcreator : s'.creator = s.creator) (hcore : s'.core = s.core)
    (hc : ∀ evt caller, c.phase = .destroying evt caller → DestroysOwn s t evt caller) :
    OwnersOk s' := by
  refine h.keep hevents hdata hcreator (by rw [hcore]) (by rw [hcore]; exact fun _ => Iff.rfl) ?_
  intro u evt caller hu
  rw [hcommands] at hu
  by_cases hut : u = t
  · subst hut
    rw [Function.update_self] at hu
    exact Or.inr (hc evt caller hu)
  · rw [Function.update_of_ne hut] at hu
    exact Or.inl hu

/-- The core goes on, and no subscription is made or freed. -/
theorem OwnersOk.core_step (h : OwnersOk s) (hs : EventsOk s.core) {a : EventAction}
    {core : EventParties} (hcore : EventStep s.core a core)
    (hnew : ∀ el type callback levels, a ≠ .new el type callback levels)
    (hfree : ∀ x, a = .destroyPass x → core.phase x ≠ .freed) (hs' : s'.core = core)
    (hcommands : s'.commands = s.commands) (hevents : s'.mEvents = s.mEvents)
    (hdata : s'.eventData = s.eventData) (hcreator : s'.creator = s.creator) : OwnersOk s' := by
  subst hs'
  obtain ⟨hnext, hfreed⟩ := core_same hs hcore hnew hfree
  refine h.keep hevents hdata hcreator hnext hfreed ?_
  intro u evt caller hu
  rw [hcommands] at hu
  exact Or.inl hu

theorem owners_step (hw : WorkersOk s) (hm : MutexOk s) (h : OwnersOk s)
    (hstep : SeparateStep asserts s action s') : OwnersOk s' := by
  have hseparate := hstep.separate
  -- the entry that a client has found, which it may destroy
  have hfound (u : ℕ) (id : TEventId) (d : SEventData) (evt : ℕ)
      (hfind : findEvent s.mEvents id = some d) (hevent : d.event = some evt) (hcmd : d.cmd = u) :
      ∃ d ∈ s.mEvents, d.id = id ∧ d.event = some evt ∧ d.cmd = u := by
    obtain ⟨hmem, hid⟩ := findEvent_some hfind
    exact ⟨d, hmem, hid, hevent, hcmd⟩
  cases hstep.step with
  | createLock | createNoId | createFail | createKnown | createDone | disconnect | leaveMissing
  | leaveDone => exact h.phase rfl rfl rfl rfl rfl (by simp)
  | emitEvents t hphase =>
    refine h.phase rfl rfl rfl rfl rfl ?_
    intro evt caller hc
    rw [show (s.commands t).phase = .idle from hphase] at hc
    cases hc
  | createNull t type addr levels id hphase hid hnull =>
    obtain ⟨_, haddr, hlevels⟩ := hseparate type addr id hphase hid
    exact (hnull.elim haddr hlevels).elim
  | createEvent t type addr l id core hphase hid haddr hcore =>
    exact h.created hm hw.core hphase hcore (hseparate type addr id hphase hid).1
  | destroyMissing | shutdownEmpty => exact h
  | destroyLock t id d evt hphase hmutex hfind hevent =>
    refine h.phase rfl rfl rfl rfl rfl ?_
    intro x caller hc
    cases hc
    exact hfound t id d evt hfind hevent (hseparate d hfind)
  | leaveLock t id rest d evt hphase hmutex hfind hevent =>
    refine h.phase rfl rfl rfl rfl rfl ?_
    intro x caller hc
    cases hc
    exact hfound t id d evt hfind hevent (hseparate id rest d hphase hfind)
  | shutdownLock t d rest evt hphase hmutex hevents hevent =>
    refine h.phase rfl rfl rfl rfl rfl ?_
    intro x caller hc
    cases hc
    intro d' hd'
    rw [hevents] at hd'
    rcases List.mem_cons.mp hd' with rfl | hin
    · exact Or.inr (Or.inl hevent)
    · exact Or.inl hin
  | destroyRequest t evt caller core hphase hcore =>
    exact h.core_step hw.core hcore (by simp) (by simp) rfl rfl rfl rfl rfl
  | destroyRefused t evt caller core s' hphase hcore hok =>
    exact absurd hok ((eventStep_ok _ _ _ hw.core hcore).noFail evt)
  | destroyUnref t evt caller core hphase hcore =>
    exact h.core_step hw.core hcore (by simp) (by simp) rfl rfl rfl rfl rfl
  | destroyWaits t evt caller core hphase hcore hwait =>
    refine h.core_step hw.core hcore (by simp) ?_ rfl rfl rfl rfl rfl
    intro x hx
    cases hx
    simp [hwait]
  | destroyFreed t evt caller core s' hphase hcore hfreed hafter =>
    exact h.freed hm hw.core hphase hcore hfreed hafter
  | emit el access type edge other core hcore =>
    exact h.core_step hw.core hcore (by simp) (by simp) rfl rfl rfl rfl rfl
  | notifyDeleted el core hcore =>
    exact h.core_step hw.core hcore (by simp) (by simp) rfl rfl rfl rfl rfl
  | workerStart i job e core hjob hfind hcore =>
    exact h.core_step hw.core hcore (by simp) (by simp) rfl rfl rfl rfl rfl
  | callbackLock | callbackMissing =>
    exact h.keep rfl rfl rfl rfl (fun _ => Iff.rfl) fun u evt caller hu => Or.inl hu
  | callbackRun i job e d =>
    refine h.keep rfl rfl rfl rfl (fun _ => Iff.rfl) ?_
    intro u evt caller hu
    left
    change (Function.update s.commands d.cmd _ u).phase = _ at hu
    by_cases hud : u = d.cmd
    · rw [hud, Function.update_self] at hu
      rw [hud]
      exact hu
    · rw [Function.update_of_ne hud] at hu
      exact hu
  | workerFinish i core hcallback hcore =>
    exact h.core_step hw.core hcore (by simp) (by simp) rfl rfl rfl rfl rfl

/-- The entry of the subscription whose callback a worker is in. -/
theorem OwnersOk.entry_of_job (h : OwnersOk s) (hs : EventsOk s.core) {job : EventJob} {i : ℕ}
    (hjob : s.core.ev.working[i]? = some job) : ∃ d, findEvent s.mEvents (s.eventData job.event) = some d ∧
      d.event = some job.event ∧ d.id = s.eventData job.event ∧ d.cmd = s.creator job.event := by
  have halive := hs.jobs job (List.mem_append_right _ (List.mem_of_getElem? hjob))
  obtain ⟨hlt, hne⟩ := (hs.alive job.event).mp halive
  obtain ⟨d, hd, hevent, hid, hcmd⟩ := h.entry job.event hlt hne
  refine ⟨d, ?_, hevent, hid, hcmd⟩
  rw [← hid]
  exact findEvent_of_mem h.ids hd

/-- A step that sends nothing and appends nothing. -/
theorem InboxOk.keep (h : InboxOk s) (hnotified : s'.notified = s.notified)
    (hcommands : ∀ u, (s'.commands u).sent = (s.commands u).sent ∧
      (s'.commands u).sendData = (s.commands u).sendData ∧
        (s'.commands u).sendEventsCount = (s.commands u).sendEventsCount) : InboxOk s' := by
  refine ⟨?_, ?_, ?_⟩
  · intro u
    rw [hnotified, (hcommands u).1, (hcommands u).2.1]
    exact h.inbox u
  · intro u
    rw [(hcommands u).2.1, (hcommands u).2.2]
    exact h.count u
  · intro u
    rw [(hcommands u).1]
    exact h.counts u

theorem buffers_update (hcommands : s'.commands = Function.update s.commands t c)
    (hc : c.sent = (s.commands t).sent ∧ c.sendData = (s.commands t).sendData ∧
      c.sendEventsCount = (s.commands t).sendEventsCount) (u : ℕ) :
    (s'.commands u).sent = (s.commands u).sent ∧ (s'.commands u).sendData = (s.commands u).sendData ∧
      (s'.commands u).sendEventsCount = (s.commands u).sendEventsCount := by
  rw [hcommands]
  by_cases hut : u = t
  · rw [hut, Function.update_self]
    exact hc
  · rw [Function.update_of_ne hut]
    exact ⟨rfl, rfl, rfl⟩

theorem afterDestroy_buffers {freed : Bool} {caller : DestroyCaller}
    (hafter : s.afterDestroy t freed caller = some s') (h : InboxOk s) : InboxOk s' := by
  unfold SctpEvents.afterDestroy at hafter
  split at hafter
  · cases hafter
    exact h.keep rfl (buffers_update rfl ⟨rfl, rfl, rfl⟩)
  · cases hafter
    exact h.keep rfl (buffers_update rfl ⟨rfl, rfl, rfl⟩)
  · cases hafter
    exact h.keep rfl (buffers_update rfl ⟨rfl, rfl, rfl⟩)
  · obtain ⟨evt, _, rfl⟩ := Option.map_eq_some_iff.mp hafter
    exact h.keep rfl (buffers_update rfl ⟨rfl, rfl, rfl⟩)

/-- The count of the notices goes along when one is appended. -/
theorem count_append (l : List EventNotice) (n : EventNotice) :
    BitVec.ofNat 32 l.length+1 = BitVec.ofNat 32 (l ++ [n]).length := by
  rw [List.length_append]
  apply BitVec.eq_of_toNat_eq
  simp

theorem inbox_step (hw : WorkersOk s) (ho : OwnersOk s) (h : InboxOk s)
    (hstep : SctpStep asserts s action s') : InboxOk s' := by
  cases hstep with
  | createLock | createNoId | createNull | createEvent | createFail | createKnown | createDone
  | destroyLock | disconnect | leaveMissing | leaveLock | leaveDone | shutdownLock =>
    exact h.keep rfl (buffers_update rfl ⟨rfl, rfl, rfl⟩)
  | destroyMissing | shutdownEmpty => exact h
  | destroyRequest | destroyUnref | destroyWaits | emit | notifyDeleted | workerStart | callbackLock
  | workerFinish => exact h.keep rfl fun u => ⟨rfl, rfl, rfl⟩
  | destroyRefused t evt caller core s' hphase hcore hok hafter =>
    exact afterDestroy_buffers hafter (h.keep rfl fun u => ⟨rfl, rfl, rfl⟩)
  | destroyFreed t evt caller core s' hphase hcore hok hafter =>
    exact afterDestroy_buffers hafter (h.keep rfl fun u => ⟨rfl, rfl, rfl⟩)
  | emitEvents t hphase =>
    refine ⟨?_, ?_, ?_⟩
    · intro u
      show s.notified u = (Function.update s.commands t _ u).sent.flatMap Prod.snd ++
        (Function.update s.commands t _ u).sendData
      by_cases hut : u = t
      · subst hut
        rw [Function.update_self, h.inbox u, List.flatMap_append]
        simp
      · rw [Function.update_of_ne hut]
        exact h.inbox u
    · intro u
      show (Function.update s.commands t _ u).sendEventsCount =
        BitVec.ofNat 32 (Function.update s.commands t _ u).sendData.length
      by_cases hut : u = t
      · rw [hut, Function.update_self]
        rfl
      · rw [Function.update_of_ne hut]
        exact h.count u
    · intro u r hr
      change r ∈ (Function.update s.commands t _ u).sent at hr
      by_cases hut : u = t
      · subst hut
        rw [Function.update_self] at hr
        rcases List.mem_append.mp hr with hr | hr
        · exact h.counts u r hr
        · rw [List.mem_singleton.mp hr]
          exact h.count u
      · rw [Function.update_of_ne hut] at hr
        exact h.counts u r hr
  | callbackMissing i job e hcallback hjob he hfind =>
    obtain ⟨d, hd, _⟩ := ho.entry_of_job hw.core hjob
    rw [hfind] at hd
    cases hd
  | callbackRun i job e d hcallback hjob he hfind hassert =>
    -- the callback has found the entry of its own subscription
    obtain ⟨d', hd', _, hid, hcmd⟩ := ho.entry_of_job hw.core hjob
    rw [hfind] at hd'
    cases hd'
    refine ⟨?_, ?_, ?_⟩
    · intro u
      show Function.update s.notified _ _ u = (Function.update s.commands d.cmd _ u).sent.flatMap
        Prod.snd ++ (Function.update s.commands d.cmd _ u).sendData
      rw [← hcmd, ← hid]
      by_cases hud : u = d.cmd
      · subst hud
        rw [Function.update_self, Function.update_self, h.inbox d.cmd, List.append_assoc]
        rfl
      · rw [Function.update_of_ne hud, Function.update_of_ne hud]
        exact h.inbox u
    · intro u
      show (Function.update s.commands d.cmd _ u).sendEventsCount =
        BitVec.ofNat 32 (Function.update s.commands d.cmd _ u).sendData.length
      by_cases hud : u = d.cmd
      · rw [hud, Function.update_self]
        show (s.commands d.cmd).sendEventsCount+1 = _
        rw [h.count d.cmd]
        exact count_append _ _
      · rw [Function.update_of_ne hud]
        exact h.count u
    · intro u r hr
      change r ∈ (Function.update s.commands d.cmd _ u).sent at hr
      by_cases hud : u = d.cmd
      · subst hud
        rw [Function.update_self] at hr
        exact h.counts _ r hr
      · rw [Function.update_of_ne hud] at hr
        exact h.counts u r hr

/-- Thread `t` is in the command that takes the entry away: in `EVENT_DESTROY` or in the end of its own
client, or in the end of the server, with the last entry. -/
def RemovesOwn (s : SctpEvents) (t : ℕ) (d : SEventData) : Prop :=
  ∃ evt, (s.commands t).phase = .destroying evt (.shutdown []) ∨ d.cmd = t ∧
    ((s.commands t).phase = .destroying evt (.command d.id) ∨
      ∃ rest, (s.commands t).phase = .destroying evt (.disconnect d.id rest))

/-- The step keeps the clients apart: the ids differ, only the client of an entry removes it,
`EVENT_CREATE` registers one event or fails and registers none, and each client has been sent or is to be
sent all that its subscriptions were told of, in order, with the right counts. -/
structure Isolated (s : SctpEvents) (action : SctpAction) (s' : SctpEvents) : Prop where
  ids : (s'.mEvents.map SEventData.id).Nodup
  removed : ∀ d ∈ s.mEvents, d ∉ s'.mEvents → ∃ t, action = .destroyPass t ∧ RemovesOwn s t d
  created : ∀ t levels, action = .createEvent t levels →
    (s'.commands t).phase = .created none ∧ s'.mEvents = s.mEvents ∨
    ∃ id evt, (s'.commands t).phase = .created (some id) ∧ s'.mEvents = ⟨some evt, t, id⟩ :: s.mEvents
  replied : ∀ t, action = .createReply t →
    (s.commands t).phase = .created none ∧ (s'.commands t).eventsSet = (s.commands t).eventsSet ∨
    ∃ id, (s.commands t).phase = .created (some id) ∧ id ∉ (s.commands t).eventsSet ∧
      ∀ x, x ∈ (s'.commands t).eventsSet ↔ x = id ∨ x ∈ (s.commands t).eventsSet
  inbox : InboxOk s'

/-- Behind `sc_event_destroy` the entries that are gone are the one of the command, or all of them. -/
theorem afterDestroy_removed {caller : DestroyCaller} {evt : ℕ} (ho : OwnersOk s)
    (hphase : (s.commands t).phase = .destroying evt caller) {core : EventParties}
    (hafter : ({ s with core := core } : SctpEvents).afterDestroy t true caller = some s')
    {d : SEventData} (hd : d ∈ s.mEvents) (hgone : d ∉ s'.mEvents) : RemovesOwn s t d := by
  have hown := ho.destroying t evt caller hphase
  -- an entry that `eraseEvent` has taken away is the one that the caller has found
  have herased (id : TEventId) (hid : ∃ d ∈ s.mEvents, d.id = id ∧ d.event = some evt ∧ d.cmd = t)
      (hnot : d ∉ eraseEvent s.mEvents id) : d.id = id ∧ d.cmd = t := by
    have heq : d.id = id := by
      by_contra hne
      exact hnot (mem_eraseEvent.mpr ⟨hd, hne⟩)
    obtain ⟨d', hd', hid', _, hcmd⟩ := hid
    have hsame : d = d' := List.inj_on_of_nodup_map ho.ids hd hd' (heq.trans hid'.symm)
    exact ⟨heq, hsame ▸ hcmd⟩
  unfold SctpEvents.afterDestroy at hafter
  split at hafter
  · cases hafter
    obtain ⟨hid, hcmd⟩ := herased _ hown hgone
    exact ⟨evt, Or.inr ⟨hcmd, Or.inl (hid ▸ hphase)⟩⟩
  · cases hafter
    obtain ⟨hid, hcmd⟩ := herased _ hown hgone
    exact ⟨evt, Or.inr ⟨hcmd, Or.inr ⟨_, hid ▸ hphase⟩⟩⟩
  · exact ⟨evt, Or.inl hphase⟩
  · -- `sctpEventManager::shutdown` goes on to the next entry
    obtain ⟨_, _, rfl⟩ := Option.map_eq_some_iff.mp hafter
    exact absurd hd hgone

theorem removed_step (hw : WorkersOk s) (ho : OwnersOk s) (hstep : SeparateStep asserts s action s')
    {d : SEventData} (hd : d ∈ s.mEvents) (hgone : d ∉ s'.mEvents) :
    ∃ t, action = .destroyPass t ∧ RemovesOwn s t d := by
  have hseparate := hstep.separate
  cases hstep.step with
  | createNull t type addr levels id hphase hid hnull =>
    obtain ⟨_, haddr, hlevels⟩ := hseparate type addr id hphase hid
    exact (hnull.elim haddr hlevels).elim
  | createEvent t type addr l id core hphase hid haddr hcore =>
    have hnew := (hseparate type addr id hphase hid).1
    change d ∉ insertEvent s.mEvents ⟨some s.core.ev.nextId, t, id⟩ at hgone
    rw [insertEvent_new hnew] at hgone
    exact absurd (List.mem_cons_of_mem _ hd) hgone
  | destroyRefused t evt caller core s' hphase hcore hok =>
    exact absurd hok ((eventStep_ok _ _ _ hw.core hcore).noFail evt)
  | destroyFreed t evt caller core s' hphase hcore hfreed hafter =>
    exact ⟨t, rfl, afterDestroy_removed ho hphase hafter hd hgone⟩
  | _ => exact absurd hd hgone

theorem created_step (hstep : SeparateStep asserts s (.createEvent t levels) s') :
    (s'.commands t).phase = .created none ∧ s'.mEvents = s.mEvents ∨
    ∃ id evt, (s'.commands t).phase = .created (some id) ∧
      s'.mEvents = ⟨some evt, t, id⟩ :: s.mEvents := by
  have hseparate := hstep.separate
  cases hstep.step with
  | createNoId t type addr levels hphase hid =>
    exact Or.inl ⟨congrArg SctpCommand.phase (Function.update_self t _ s.commands), rfl⟩
  | createNull t type addr levels id hphase hid hnull =>
    obtain ⟨_, haddr, hlevels⟩ := hseparate type addr id hphase hid
    exact (hnull.elim haddr hlevels).elim
  | createEvent t type addr l id core hphase hid haddr hcore =>
    right
    refine ⟨id, s.core.ev.nextId, congrArg SctpCommand.phase (Function.update_self t _ s.commands), ?_⟩
    exact insertEvent_new (hseparate type addr id hphase hid).1

theorem replied_step (hstep : SeparateStep asserts s (.createReply t) s') :
    (s.commands t).phase = .created none ∧ (s'.commands t).eventsSet = (s.commands t).eventsSet ∨
    ∃ id, (s.commands t).phase = .created (some id) ∧ id ∉ (s.commands t).eventsSet ∧
      ∀ x, x ∈ (s'.commands t).eventsSet ↔ x = id ∨ x ∈ (s.commands t).eventsSet := by
  have hseparate := hstep.separate
  cases hstep.step with
  | createFail t hphase =>
    refine Or.inl ⟨hphase, ?_⟩
    show (Function.update s.commands t _ t).eventsSet = _
    rw [Function.update_self]
  | createKnown t id hphase hknown => exact absurd hknown (hseparate id hphase)
  | createDone t id hphase hnew =>
    refine Or.inr ⟨id, hphase, hnew, ?_⟩
    intro x
    show x ∈ (Function.update s.commands t _ t).eventsSet ↔ _
    rw [Function.update_self]
    exact List.mem_orderedInsert (· ≤ ·)

/-- The invariant of the runs in which the clients keep to their own subscriptions. -/
structure ClientsOk (s : SctpEvents) : Prop where
  workers : WorkersOk s
  mutex : MutexOk s
  owners : OwnersOk s
  inbox : InboxOk s

theorem clientsOk_empty : ClientsOk SctpEvents.empty := by
  refine ⟨workersOk_empty, mutexOk_empty, ?_, ?_⟩
  · refine ⟨List.nodup_nil, ?_, ?_⟩
    · intro evt hlt
      exact absurd hlt (Nat.not_lt_zero evt)
    · intro t evt caller hphase
      cases hphase
  · refine ⟨fun _ => rfl, fun _ => rfl, ?_⟩
    intro t r hr
    cases hr

theorem clients_step (s : SctpEvents) (action : SctpAction) (s' : SctpEvents) (h : ClientsOk s)
    (hstep : SeparateStep asserts s action s') : ClientsOk s' :=
  ⟨workers_step h.workers hstep.step, mutex_step h.mutex hstep.step,
    owners_step h.workers h.mutex h.owners hstep, inbox_step h.workers h.owners h.inbox hstep.step⟩

/-- Every step of a run in which the clients keep to their own subscriptions keeps them apart. -/
theorem separate_isolated (actions : List SctpAction)
    (hr : Run (SeparateStep asserts) SctpEvents.empty actions s)
    (hstep : SeparateStep asserts s action s') : Isolated s action s' := by
  have h : ClientsOk s := run_invariant ClientsOk clients_step actions _ s clientsOk_empty hr
  have h' := clients_step s action s' h hstep
  refine ⟨h'.owners.ids, fun d hd hgone => removed_step h.workers h.owners hstep hd hgone, ?_, ?_,
    h'.inbox⟩
  · intro t levels haction
    subst haction
    exact created_step hstep
  · intro t haction
    subst haction
    exact replied_step hstep

end

/-- Two clients subscribe, both are to be told of an arc, and the first one unsubscribes. -/
def twoClientsActions : List SctpAction :=
  [.createLock 0 .addOutputArc ⟨0, 1⟩, .createEvent 0 (some 0xff), .createReply 0,
    .createLock 1 .addOutputArc ⟨0, 1⟩, .createEvent 1 (some 0xff), .createReply 1,
    .emit ⟨0, 1⟩ 0xff .addOutputArc ⟨0, 2⟩ ⟨0, 3⟩, .workerStart 0, .callbackLock 0, .callbackRun 0,
    .workerFinish 0, .destroyEvent 0 2, .destroyRequest 0, .destroyUnref 0]

theorem two_clients_isolated : ∃ s s', Run (SeparateStep true) SctpEvents.empty twoClientsActions s ∧
    SeparateStep true s (.destroyPass 0) s' ∧ Isolated s (.destroyPass 0) s' := by
  have hrun : ∃ s s', Run (SeparateStep true) SctpEvents.empty twoClientsActions s ∧
      SeparateStep true s (.destroyPass 0) s' := by
    refine ⟨_, _, ⟨_, ⟨.createLock 0 _ _ rfl rfl, trivial⟩,
      _, ⟨.createEvent 0 _ _ _ 2 _ rfl rfl (by decide) ⟨trivial, rfl⟩ (fun _ => rfl), ?_⟩,
      _, ⟨.createDone 0 2 rfl (by decide), ?_⟩,
      _, ⟨.createLock 1 _ _ rfl rfl, trivial⟩,
      _, ⟨.createEvent 1 _ _ _ 3 _ rfl rfl (by decide) ⟨trivial, rfl⟩ (fun _ => rfl), ?_⟩,
      _, ⟨.createDone 1 3 rfl (by decide), ?_⟩, _, ⟨.emit _ _ _ _ _ _ ⟨trivial, rfl⟩, trivial⟩,
      _, ⟨.workerStart 0 _ _ _ rfl rfl ⟨by decide, rfl⟩, trivial⟩,
      _, ⟨.callbackLock 0 rfl rfl, trivial⟩,
      _, ⟨.callbackRun 0 _ _ _ rfl rfl rfl rfl (fun _ => rfl), trivial⟩,
      _, ⟨.workerFinish 0 _ rfl ⟨by decide, rfl⟩, trivial⟩,
      _, ⟨.destroyLock 0 2 _ _ rfl rfl rfl rfl, ?_⟩,
      _, ⟨.destroyRequest 0 _ _ _ rfl ⟨by decide, rfl⟩ rfl, trivial⟩,
      _, ⟨.destroyUnref 0 _ _ _ rfl ⟨rfl, rfl⟩, trivial⟩, rfl⟩,
      ⟨.destroyFreed 0 _ _ _ _ rfl ⟨rfl, rfl⟩ rfl rfl, trivial⟩⟩
    · rintro _ _ id hphase hid
      cases hphase
      cases hid
      exact ⟨rfl, by decide, by decide⟩
    · rintro id hphase
      cases hphase
      decide
    · rintro _ _ id hphase hid
      cases hphase
      cases hid
      exact ⟨rfl, by decide, by decide⟩
    · rintro id hphase
      cases hphase
      decide
    · rintro d hfind
      cases hfind
      rfl
  obtain ⟨s, s', hr, hstep⟩ := hrun
  exact ⟨s, s', hr, hstep, separate_isolated twoClientsActions hr hstep⟩

/-- The second client sends `EVENT_DESTROY` with the id of the first one. -/
theorem destroy_not_isolated : ¬ ∀ (asserts : Bool) (actions : List SctpAction) (s : SctpEvents)
    (action : SctpAction) (s' : SctpEvents), Run (SctpStep asserts) SctpEvents.empty actions s →
      SctpStep asserts s action s' → Isolated s action s' := by
  intro hall
  have hrun : ∃ s s', Run (SctpStep true) SctpEvents.empty
      [.createLock 0 .addOutputArc ⟨0, 1⟩, .createEvent 0 (some 0xff), .createReply 0,
        .destroyEvent 1 2, .destroyRequest 1, .destroyUnref 1] s ∧
      SctpStep true s (.destroyPass 1) s' ∧ s.mEvents = [⟨some 0, 0, 2⟩] ∧ s'.mEvents = [] ∧
      (s.commands 1).phase = .destroying 0 (.command 2) := by
    refine ⟨_, _, ⟨_, .createLock 0 _ _ rfl rfl,
      _, .createEvent 0 _ _ _ 2 _ rfl rfl (by decide) ⟨trivial, rfl⟩ (fun _ => rfl),
      _, .createDone 0 2 rfl (by decide), _, .destroyLock 1 2 _ _ rfl rfl rfl rfl,
      _, .destroyRequest 1 _ _ _ rfl ⟨by decide, rfl⟩ rfl,
      _, .destroyUnref 1 _ _ _ rfl ⟨rfl, rfl⟩, rfl⟩,
      .destroyFreed 1 _ _ _ _ rfl ⟨rfl, rfl⟩ rfl rfl, rfl, rfl, rfl⟩
  obtain ⟨s, s', hr, hstep, hevents, hgone, hphase⟩ := hrun
  obtain ⟨t, ht, evt, howner⟩ := (hall true _ s _ s' hr hstep).removed ⟨some 0, 0, 2⟩
    (by simp [hevents]) (by simp [hgone])
  cases ht
  rw [hphase] at howner
  rcases howner with hlast | ⟨hcmd, _⟩
  · cases hlast
  · cases hcmd

end ScMachine.Sctp
