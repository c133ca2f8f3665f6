import ScMachine.EventDelivery
import ScMachine.EventLifetime
import ScMachine.HeldReferences

/-! Operations between `sc_memory_context_pending_begin` and `sc_memory_context_pending_end` against
the same operations in immediate mode. -/
namespace ScMachine.Store
open ScMachine.StateExcept ScMachine.Runs

def storageCalls : List (ScEnv × StorageCall) → SystemM Unit
  | [] => return ()
  | c :: cs => do
    storageCall c.1 c.2
    storageCalls cs

def storageCallsPending (ctx : ScContext) (cs : List (ScEnv × StorageCall)) : SystemM Unit := do
  inEvents (scMemoryContextPendingBegin ctx)
  storageCalls cs
  inEvents (scMemoryContextPendingEnd ctx)

/-- What an operation between the states `st` and `st'` of the store has the event system do. -/
def StorageCall.announced (c : StorageCall) (st st' : ScStorage) : List ScEventCall :=
  match c.emitContext with
  | none => []
  | some _ => st'.emitted.drop st.emitted.length

def announcedBy : List (ScEnv × StorageCall) → ScStorage → List ScEventCall
  | [], _ => []
  | c :: cs, st =>
    match c.2.run c.1 st with
    | .ok (_, st') => c.2.announced st st' ++ announcedBy cs st'
    | .error _ => []

def CallStep (st : ScStorage) (c : ScEnv × StorageCall) (st' : ScStorage) : Prop :=
  c.2.run c.1 st = .ok ((), st')

/-- All calls that go to the event system are made with `ctx`. -/
def OnContext (ctx : ScContext) (cs : List (ScEnv × StorageCall)) : Prop :=
  ∀ c ∈ cs, c.2.emitContext = none ∨ c.2.emitContext = some ctx

section
variable {ctx : ScContext} {cs : List (ScEnv × StorageCall)} {sys sys' : ScSystem}
  {st st' : ScStorage}

theorem inStore_ok {α : Type} {x : StoreM α} {r : α} (h : x sys.store = .ok (r, st)) :
    inStore x sys = .ok (r, { sys with store := st }) := by
  unfold inStore
  rw [h]
  rfl

theorem inStore_error {α : Type} {x : StoreM α} {e : ScStop} (h : x sys.store = .error e) :
    inStore x sys = .error e := by
  unfold inStore
  rw [h]
  rfl

theorem inEvents_ok {α : Type} {x : EventM α} {r : α} {ev : ScEvents}
    (h : x sys.events = .ok (r, ev)) : inEvents x sys = .ok (r, { sys with events := ev }) := by
  unfold inEvents
  rw [h]
  rfl

theorem inEvents_error {α : Type} {x : EventM α} {e : ScStop} (h : x sys.events = .error e) :
    inEvents x sys = .error e := by
  unfold inEvents
  rw [h]
  rfl

theorem eventCalls_append (ctx : ScContext) (a b : List ScEventCall) :
    eventCalls ctx (a ++ b) = (do
      eventCalls ctx a
      eventCalls ctx b) := by
  induction a with
  | nil => rfl
  | cons call calls ih => rw [List.cons_append, eventCalls, ih, eventCalls, bind_assoc]

theorem storageCall_error (c : ScEnv × StorageCall) {e : ScStop}
    (h : c.2.run c.1 sys.store = .error e) : storageCall c.1 c.2 sys = .error e := by
  have hcall : storageCall c.1 c.2 sys = (inStore (c.2.run c.1) >>= fun _ =>
      (match c.2.emitContext with
      | none => return ()
      | some ctx => do
        inEvents (eventCalls ctx ((← get).store.emitted.drop sys.store.emitted.length)) : SystemM Unit))
      sys := rfl
  rw [hcall, run_bind_error (inStore_error h)]

/-- An operation of the store, and then its calls to the event system. -/
theorem storageCall_eq (c : ScEnv × StorageCall)
    (hctx : c.2.emitContext = none ∨ c.2.emitContext = some ctx) (hstep : CallStep sys.store c st') :
    storageCall c.1 c.2 sys =
      inEvents (eventCalls ctx (c.2.announced sys.store st')) { sys with store := st' } := by
  have hcall : storageCall c.1 c.2 sys = (inStore (c.2.run c.1) >>= fun _ =>
      (match c.2.emitContext with
      | none => return ()
      | some ctx => do
        inEvents (eventCalls ctx ((← get).store.emitted.drop sys.store.emitted.length)) : SystemM Unit))
      sys := rfl
  rw [hcall, run_bind_ok (inStore_ok hstep)]
  unfold StorageCall.announced
  rcases hctx with hnone | hsome
  · rw [hnone]
    rfl
  · rw [hsome]
    rfl

theorem announcedBy_cons {c : ScEnv × StorageCall} {st1 : ScStorage} (h : CallStep st c st1) :
    announcedBy (c :: cs) st = c.2.announced st st1 ++ announcedBy cs st1 := by
  have hcons : announcedBy (c :: cs) st =
      match c.2.run c.1 st with
      | .ok (_, st') => c.2.announced st st' ++ announcedBy cs st'
      | .error _ => [] := rfl
  rw [hcons, h]

theorem storageCalls_eq (hctx : OnContext ctx cs) (hr : Run CallStep sys.store cs st') :
    storageCalls cs sys =
      inEvents (eventCalls ctx (announcedBy cs sys.store)) { sys with store := st' } := by
  induction cs generalizing sys with
  | nil =>
    obtain rfl := hr
    rfl
  | cons c cs ih =>
    obtain ⟨st1, hstep, hr⟩ := hr
    have hstart := @storageCall_eq ctx sys st1 c (hctx c List.mem_cons_self) hstep
    have hctx' : OnContext ctx cs := fun c hc => hctx c (List.mem_cons_of_mem _ hc)
    have hcalls : storageCalls (c :: cs) sys =
        (storageCall c.1 c.2 >>= fun _ => storageCalls cs) sys := rfl
    rw [hcalls, announcedBy_cons hstep, eventCalls_append]
    -- the calls of the first operation end in the same way on both sides
    cases hev : eventCalls ctx (c.2.announced sys.store st1) sys.events with
    | error e =>
      have hleft : storageCall c.1 c.2 sys = .error e := by
        rw [hstart]
        exact inEvents_error hev
      rw [run_bind_error hleft]
      exact (@inEvents_error { sys with store := st' } _ _ _ (run_bind_error hev _)).symm
    | ok p =>
      have hleft : storageCall c.1 c.2 sys = .ok ((), { sys with store := st1, events := p.2 }) := by
        rw [hstart]
        exact inEvents_ok hev
      rw [run_bind_ok hleft, @ih { sys with store := st1, events := p.2 } hctx' hr]
      dsimp only
      unfold inEvents
      dsimp only
      rw [run_bind_ok hev]

/-- Operations that return, return from the store. -/
theorem callRun_of_returns (h : storageCalls cs sys = .ok ((), sys')) :
    ∃ st', Run CallStep sys.store cs st' := by
  induction cs generalizing sys with
  | nil => exact ⟨sys.store, rfl⟩
  | cons c cs ih =>
    have hcalls : storageCalls (c :: cs) sys =
        (storageCall c.1 c.2 >>= fun _ => storageCalls cs) sys := rfl
    rw [hcalls] at h
    cases hcall : storageCall c.1 c.2 sys with
    | error e =>
      rw [run_bind_error hcall] at h
      simp at h
    | ok q =>
      rw [run_bind_ok hcall] at h
      obtain ⟨st', hr⟩ := ih h
      cases hstore : c.2.run c.1 sys.store with
      | error e =>
        rw [storageCall_error c hstore] at hcall
        simp at hcall
      | ok p =>
        have hkeep : IfReturns (storageCall c.1 c.2) (fun _ s => s.store = p.2) sys := by
          unfold storageCall
          rw [IfReturns, wp_bind, wp_get, wp_bind, wp_inStore, wp_iff_of_eq hstore]
          cases c.2.emitContext with
          | none => exact rfl
          | some ctx =>
            dsimp only
            rw [wp_bind, wp_get, wp_inEvents]
            exact ifReturns_of_ok fun _ _ _ => rfl
        have hq := wp_ok (Q := fun _ s => s.store = p.2) hkeep hcall
        rw [hq] at hr
        exact ⟨st', p.2, hstore, hr⟩

/-- Whatever operations are made on one context, pending mode returns where immediate mode does, and
leaves the store in the same state. It queues the same for each subscription if and only if no
emission that reaches a subscription is followed by the deletion of the element. -/
theorem pending_delivers_iff (actions : List EventAction) (s : EventParties)
    (hs : Run EventStep EventParties.empty actions s) (sys sys' : ScSystem)
    (hev : sys.events = s.ev) (ctx : ScContext) (himm : sys.events.pending ctx.id = none)
    (cs : List (ScEnv × StorageCall)) (hctx : OnContext ctx cs)
    (h : storageCalls cs sys = .ok ((), sys')) :
    ∃ sys'', storageCallsPending ctx cs sys = .ok ((), sys'') ∧ sys''.store = sys'.store ∧
      ((∀ id, sys''.events.queuedFor id = sys'.events.queuedFor id) ↔
        (sys.events.running = true → NothingLost sys.events [] (announcedBy cs sys.store))) := by
  obtain ⟨st', hr⟩ := callRun_of_returns h
  have hok := eventRun_ok actions s hs
  have hok' : EventsOk ⟨sys.events, s.phase⟩ := by
    rw [hev]
    exact hok
  -- immediate mode
  rw [storageCalls_eq hctx hr] at h
  have himmediate := eventCalls_immediate ctx (announcedBy cs sys.store) hok' hok' delivered_start himm
  have hsys' : IfReturns (inEvents (eventCalls ctx (announcedBy cs sys.store)))
      (fun _ t => t.store = st' ∧
        Delivered sys.events (goneAfter [] (announcedBy cs sys.store))
          (sys.events.notified [] (announcedBy cs sys.store)) t.events ∧
        CallsRoom sys.events [] [] (announcedBy cs sys.store)) { sys with store := st' } := by
    rw [IfReturns, wp_inEvents]
    apply wp_mono himmediate _ (fun _ _ => trivial)
    rintro _ ev ⟨_, hdel, hroom⟩
    exact ⟨rfl, hdel, hroom⟩
  obtain ⟨hstore, hdel, hroom⟩ := wp_ok (Q := fun _ t => t.store = st' ∧ _ ∧ _) hsys' h
  -- pending mode
  have hwp : Wp (storageCallsPending ctx cs) (fun _ t => t.store = st' ∧
      t.events.queue = sys.events.queue ++ if sys.events.running then
        sys.events.notified (goneAfter [] (announcedBy cs sys.store))
          (putOff (announcedBy cs sys.store)) else []) (fun _ => False) sys := by
    unfold storageCallsPending scMemoryContextPendingBegin
    rw [wp_bind, wp_inEvents, wp_bind, wp_get]
    simp only [himm, Option.isSome_none, Bool.false_eq_true, if_false, wp_modify]
    have hbegin := eventsOk_pending hok' (Function.update sys.events.pending ctx.id (some []))
    have hcalls := @storageCalls_eq ctx cs { sys with events := { sys.events with
      pending := Function.update sys.events.pending ctx.id (some []) } } st' hctx hr
    rw [wp_bind, wp_congr hcalls, wp_inEvents]
    have hstart : Delivered sys.events [] [] { sys.events with
        pending := Function.update sys.events.pending ctx.id (some []) } :=
      ⟨delivered_start.listOf, delivered_start.find, delivered_start.queue, rfl⟩
    apply wp_mono (eventCalls_pending ctx _ hbegin hstart (Function.update_self _ _ _) _) _
      (fun _ hf => hf)
    rintro _ ev1 ⟨hok1, hpend1, hdel1⟩
    rw [List.nil_append] at hpend1
    unfold scMemoryContextPendingEnd
    rw [wp_inEvents, wp_bind, wp_get]
    dsimp only
    rw [hpend1]
    dsimp only
    rw [wp_bind, wp_modify]
    have hend := eventCalls_immediate ctx (putOff (announcedBy cs sys.store)) hok'
      (eventsOk_pending hok1 (Function.update ev1.pending ctx.id none))
      ⟨hdel1.listOf, hdel1.find, hdel1.queue, hdel1.running⟩ (Function.update_self _ _ _)
    apply wp_mono hend
    · rintro _ ev2 ⟨_, hdel2, _⟩
      refine ⟨rfl, ?_⟩
      have hqueue := hdel2.queue
      rw [List.nil_append] at hqueue
      exact hqueue
    · intro _ hnoroom
      exact hnoroom (callsRoom_putOff hroom)
  obtain ⟨_, sys'', hpending, hstore'', hqueue''⟩ := wp_returns hwp
  refine ⟨sys'', hpending, hstore''.trans hstore.symm, ?_⟩
  unfold ScEvents.queuedFor
  rw [hqueue'', hdel.queue]
  simp only [List.filter_append, List.append_cancel_left_eq]
  have hgone (x : ScAddr) := mem_goneAfter x (announcedBy cs sys.store) []
  constructor
  · intro hsame hrunning
    apply nothingLost_of_counts _ hgone
    intro id
    have hlength := congrArg List.length (hsame id)
    rw [if_pos hrunning, if_pos hrunning, ← List.countP_eq_length_filter,
      ← List.countP_eq_length_filter] at hlength
    exact hlength
  · intro hlost id
    split_ifs with hrunning
    · rw [notified_putOff_eq _ hgone (hlost hrunning)]
    · rfl

end

/-! Runs on given operations. -/

def systemResult (x : SystemM Unit) (sys : ScSystem) : ScSystem :=
  match x sys with
  | .ok (_, sys') => sys'
  | .error _ => sys

def systemReturns (x : SystemM Unit) (sys : ScSystem) : Bool :=
  match x sys with
  | .ok _ => true
  | .error _ => false

theorem systemResult_eq {x : SystemM Unit} {sys : ScSystem} (h : systemReturns x sys = true) :
    x sys = .ok ((), systemResult x sys) := by
  unfold systemReturns at h
  unfold systemResult
  cases hx : x sys with
  | error e =>
    rw [hx] at h
    exact absurd h Bool.false_ne_true
  | ok p => rfl

/-- A store with one subscription, to its first element. -/
def subscribedTo (st : ScStorage) (type : ScEventType) : ScSystem :=
  ⟨st, (eventsAfter [.new ⟨0, 1⟩ type .simple 0xff] EventParties.empty).ev, [], []⟩

theorem subscribedTo_store (st : ScStorage) (type : ScEventType) : (subscribedTo st type).store = st :=
  rfl

theorem subscribedTo_events (st : ScStorage) (type : ScEventType) : (subscribedTo st type).events =
    (eventsAfter [.new ⟨0, 1⟩ type .simple 0xff] EventParties.empty).ev := rfl

/-- An arc from the node to itself is created and deleted. -/
def loopCalls : List (ScEnv × StorageCall) :=
  [(exampleEnv, .arcNew exampleContext scTypeArcCommon ⟨0, 1⟩ ⟨0, 1⟩),
    (exampleEnv, .elementFree exampleContext tableOrder ⟨0, 33⟩)]

theorem loopCalls_onContext : OnContext exampleContext loopCalls := by
  intro c hc
  unfold loopCalls at hc
  simp only [List.mem_cons, List.not_mem_nil, or_false] at hc
  rcases hc with rfl | rfl
  · exact Or.inr rfl
  · exact Or.inr rfl

theorem pending_delivers_iff_loop :
    (systemResult (storageCalls loopCalls) (subscribedTo storeWithNode .removeOutputArc)).events.queuedFor 0 =
        [⟨0, ⟨0, 33⟩, ⟨0, 1⟩⟩] ∧
      ∃ sys'', storageCallsPending exampleContext loopCalls (subscribedTo storeWithNode .removeOutputArc) =
        .ok ((), sys'') ∧ ∀ id, sys''.events.queuedFor id =
          (systemResult (storageCalls loopCalls) (subscribedTo storeWithNode .removeOutputArc)).events.queuedFor
            id := by
  obtain ⟨sys'', hrun, _, hiff⟩ := pending_delivers_iff
    [.new ⟨0, 1⟩ .removeOutputArc .simple 0xff] _ (eventRun_of_actions _ _ (by decide +kernel))
    (subscribedTo storeWithNode .removeOutputArc) _ (subscribedTo_events _ _) exampleContext (by decide +kernel) loopCalls
    loopCalls_onContext (systemResult_eq (by decide +kernel))
  refine ⟨by decide +kernel, sys'', hrun, hiff.mpr fun _ => ?_⟩
  decide +kernel

/-- The node itself is deleted: its subscription to that is gone before the end of pending mode. -/
theorem pending_loses_deletion :
    storageCalls [(exampleEnv, .elementFree exampleContext tableOrder ⟨0, 1⟩)]
        (subscribedTo storeWithNode .removeElement) = .ok ((),
      systemResult (storageCalls [(exampleEnv, .elementFree exampleContext tableOrder ⟨0, 1⟩)])
        (subscribedTo storeWithNode .removeElement)) ∧
    storageCallsPending exampleContext [(exampleEnv, .elementFree exampleContext tableOrder ⟨0, 1⟩)]
        (subscribedTo storeWithNode .removeElement) = .ok ((),
      systemResult (storageCallsPending exampleContext
        [(exampleEnv, .elementFree exampleContext tableOrder ⟨0, 1⟩)])
          (subscribedTo storeWithNode .removeElement)) ∧
    (systemResult (storageCalls [(exampleEnv, .elementFree exampleContext tableOrder ⟨0, 1⟩)])
        (subscribedTo storeWithNode .removeElement)).events.queuedFor 0 =
      [⟨0, ScAddr.empty, ScAddr.empty⟩] ∧
    (systemResult (storageCallsPending exampleContext
      [(exampleEnv, .elementFree exampleContext tableOrder ⟨0, 1⟩)])
        (subscribedTo storeWithNode .removeElement)).events.queuedFor 0 = [] :=
  ⟨systemResult_eq (by decide +kernel), systemResult_eq (by decide +kernel), by decide +kernel,
    by decide +kernel⟩

end ScMachine.Store
