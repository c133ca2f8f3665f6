import ScMachine.CascadeCollect

/-! `sc_storage_element_free` as a whole: the closure of an element under incident arcs is removed,
and nothing else. -/
namespace ScMachine.Store
open ScMachine.StateExcept ScMachine.Runs ScMachine.DoublyLinked ScMachine.Worklist

/-- The least set that contains `a` and every arc whose begin or end is in it. -/
inductive InClosure (c : Cells) (a : ScAddr) : ScAddr → Prop where
  | root : InClosure c a a
  | arc (x : ScAddr) (d : Dir) : LiveArc c x → InClosure c a (ownerOf c d x) → InClosure c a x

/-- The elements whose write level is compared with that of the context. -/
def checkedElements (c : Cells) (a : ScAddr) : List ScAddr := (a :: removeOrder c a).dropLast

/-- The removed elements, the last one first, when `remove_table` is iterated in the given order. -/
def erasedList (order : HashOrder) (c : Cells) (a : ScAddr) : List ScAddr :=
  (order.list (removeOrder c a)).reverse

section
variable {env : ScEnv} {L : SectionKey → LockWord} {as : List ScAddr} {st s s' : ScStorage}
  {a b x : ScAddr} {c : Cells}

theorem mem_incident (h : ArcsOk c) (hx : Live c x) (y : ScAddr) :
    y ∈ incident c x ↔ LiveArc c y ∧ ∃ d, ownerOf c d y = x := by
  unfold incident
  rw [List.mem_append, (h.arcList hx).mem, (h.arcList hx).mem]
  constructor
  · rintro (⟨hy, ho⟩ | ⟨hy, ho⟩)
    · exact ⟨hy, .out, ho⟩
    · exact ⟨hy, .inp, ho⟩
  · rintro ⟨hy, d, ho⟩
    cases d with
    | out => exact Or.inl ⟨hy, ho⟩
    | inp => exact Or.inr ⟨hy, ho⟩

theorem removeOrder_spec (c : Cells) (a : ScAddr) :
    (removeOrder c a).Nodup ∧ a ∈ removeOrder c a ∧
      ∀ x ∈ removeOrder c a, ∀ y ∈ incident c x, y ∈ removeOrder c a := by
  have hstart : Progress (incident c) [] [a] := ⟨by simp, by simp⟩
  have hbfs := bfs_closed length_le_of_nodup_addrs walkFuel [] [a] hstart (by norm_num [walkFuel])
  simp only [List.nil_append] at hbfs
  exact ⟨hbfs.1, hbfs.2.1 a List.mem_cons_self, hbfs.2.2⟩

theorem InClosure.live (ha : Live c a) (hx : InClosure c a x) : Live c x := by
  cases hx with
  | root => exact ha
  | arc _ d hx _ => exact hx.1

/-- The search finds exactly the closure. -/
theorem mem_removeOrder (h : ArcsOk c) (ha : Live c a) (x : ScAddr) :
    x ∈ removeOrder c a ↔ InClosure c a x := by
  obtain ⟨_, hroot, hclosed⟩ := removeOrder_spec c a
  constructor
  · have hleast := @bfs_least _ _ (incident c) (fun y => InClosure c a y) ?_ walkFuel [] [a] ?_
    · exact hleast x
    · intro y hy z hz
      obtain ⟨hza, d, ho⟩ := (mem_incident h (hy.live ha) z).mp hz
      exact InClosure.arc z d hza (ho ▸ hy)
    · intro y hy
      rw [List.mem_singleton.mp hy]
      exact InClosure.root
  · intro hx
    induction hx with
    | root => exact hroot
    | arc y d hy ho ih =>
      have hlive := h.endpoint y d hy
      exact hclosed _ ih y ((mem_incident h hlive y).mpr ⟨hy, d, rfl⟩)

theorem mem_erasedList (h : ArcsOk c) (ha : Live c a) (order : HashOrder) (x : ScAddr) :
    x ∈ erasedList order c a ↔ InClosure c a x := by
  unfold erasedList
  rw [List.mem_reverse, (order.perm _).mem_iff, mem_removeOrder h ha]

/-- How a call of `sc_storage_element_free` ends. -/
inductive FreeOutcome (env : ScEnv) (ctx : ScContext) (order : HashOrder) (a : ScAddr)
    (st : ScStorage) : ScResult → ScStorage → Prop where
  | dead (s : ScStorage) : ¬ Live st.cell a → s.unlocked = st.unlocked →
      FreeOutcome env ctx order a st .error s
  | denied (s : ScStorage) : Live st.cell a →
      (¬ ∀ x ∈ checkedElements st.cell a, CanWrite ctx st.cell x) → s.unlocked = st.unlocked →
      FreeOutcome env ctx order a st .errorNoWriteRights s
  | freed (s : ScStorage) : Live st.cell a →
      (∀ x ∈ checkedElements st.cell a, CanWrite ctx st.cell x) →
      Erased env st (erasedList order st.cell a) s → FreeOutcome env ctx order a st .ok s

/-- The call around the loop over `remove_table`. Giving back the locks keeps what that loop
leaves. -/
theorem elementFree_rule (h : Holds env.thread L as st) (hc : CellsOk st) (ctx : ScContext)
    (order : HashOrder) (a : ScAddr) (R : ScStorage → Prop)
    (hR : ∀ s s', s'.unlocked = s.unlocked → R s → R s')
    (herase : Live st.cell a → ∀ lt s, s.unlocked = st.unlocked → Holds env.thread L (lt ++ as) s →
      NeighboursIn lt st.cell (removeOrder st.cell a) [] st.cell →
        Wp (eraseElements env lt (order.list (removeOrder st.cell a)))
          (fun _ s' => Holds env.thread L (lt ++ as) s' ∧ R s') (fun _ => Blocked env.thread L) s) :
    Wp (scStorageElementFree env ctx order a)
      (fun r s' => Holds env.thread L as s' ∧
        ((r = .ok ∧ Live st.cell a ∧ (∀ x ∈ checkedElements st.cell a, CanWrite ctx st.cell x) ∧ R s') ∨
          (r ≠ .ok ∧ FreeOutcome env ctx order a st r s')))
      (fun _ => Blocked env.thread L ∨ 65535 ≤ a.offset.toNat) st := by
  unfold scStorageElementFree
  rw [wp_bind]
  apply wp_mono (elementLock_wp h a)
  swap
  · intro _ hstop
    rcases hstop with hoff | hlock
    · exact Or.inr hoff
    · exact Or.inl fun hall => hlock (hall _)
  rintro r s1 ⟨hu1, hloaded, h1⟩
  cases r with
  | false =>
    refine ⟨h1, Or.inr ⟨by simp, FreeOutcome.dead s1 ?_ hu1⟩⟩
    intro hlive
    simpa using hloaded.mpr (hc.loaded h.segs (type_of_live hlive))
  | true =>
    simp only [Bool.not_true, Bool.false_eq_true, if_false]
    rw [wp_bind, wp_readCell, cell_of_unlocked hu1, wp_ite]
    constructor
    · intro hdead
      have hdead' : ¬ Live st.cell a := by
        unfold Live
        simpa using hdead
      rw [wp_bind]
      apply unlock_rule h1
      intro s2 hu2 h2
      exact ⟨h2, Or.inr ⟨by simp, FreeOutcome.dead s2 hdead' (hu2.trans hu1)⟩⟩
    intro hvalid
    have hlive : Live st.cell a := by
      unfold Live
      simpa using hvalid
    rw [wp_bind]
    have hstart : Collecting env L as st ⟨[a], [a], [a]⟩ s1 := by
      refine ⟨⟨hu1, h1⟩, List.Subset.refl _, ?_⟩
      intro x hx
      rw [List.mem_singleton.mp hx]
      exact hlive
    have hloop := collectLoop_wp hc h.segs ctx walkFuel a [] ⟨[a], [a], [a]⟩ hstart rfl (by simp)
      ⟨by simp, by simp⟩ (by norm_num [walkFuel])
    apply wp_mono hloop _ (fun _ hb => Or.inl hb)
    rintro r s2 ⟨hcol, hok, hbad⟩
    obtain ⟨res, t⟩ := r
    simp only at hcol hok hbad
    -- every way out gives back the locks of the table
    have hunlock (r : ScResult) (P : ScStorage → Prop) (s' : ScStorage)
        (h' : Holds env.thread L (t.lockTable ++ as) s')
        (hP : ∀ s'', s''.unlocked = s'.unlocked → P s'') :
        Wp (do
          unlockElements env (order.list t.lockTable)
          return r) (fun r' s'' => r' = r ∧ Holds env.thread L as s'' ∧ P s'')
          (fun _ => Blocked env.thread L ∨ 65535 ≤ a.offset.toNat) s' := by
      rw [wp_bind]
      have hperm := (order.perm t.lockTable).symm.append_right as
      apply wp_mono (unlockElements_wp _ (h'.perm hperm) _) _ (fun _ hb => hb)
      rintro _ s'' ⟨hu, h''⟩
      exact ⟨rfl, h'', hP s'' hu⟩
    by_cases hall : ∀ x ∈ checkedElements st.cell a, CanWrite ctx st.cell x
    · obtain ⟨rfl, htab, haround⟩ := hok hall
      simp only
      rw [wp_bind]
      have htab' : t.removeTable = removeOrder st.cell a := htab
      have hnb : NeighboursIn t.lockTable st.cell (removeOrder st.cell a) [] st.cell := by
        intro y hy _ hya d
        rw [← htab'] at hy
        exact (haround y hy hya d).2
      rw [htab']
      apply wp_mono (herase hlive t.lockTable s2 hcol.held.same hcol.held.holds hnb) _
        (fun _ hb => Or.inl hb)
      rintro _ s3 ⟨h3, hR3⟩
      apply wp_mono (hunlock .ok R s3 h3 (fun s'' hu => hR s3 s'' hu hR3)) _ (fun _ hb => hb)
      rintro r' s4 ⟨rfl, h4, hR4⟩
      exact ⟨h4, Or.inl ⟨rfl, hlive, hall, hR4⟩⟩
    · obtain rfl := hbad hall
      simp only
      apply wp_mono (hunlock .errorNoWriteRights (fun s'' => s''.unlocked = st.unlocked) s2
        hcol.held.holds (fun s'' hu => hu.trans hcol.held.same)) _ (fun _ hb => hb)
      rintro r' s4 ⟨rfl, h4, hu4⟩
      exact ⟨h4, Or.inr ⟨by simp, FreeOutcome.denied s4 hlive hall hu4⟩⟩

/-- What the loop over `remove_table` is about. -/
theorem removeTable_spec (hc : CellsOk st) (ha : Live st.cell a) (order : HashOrder) :
    (order.list (removeOrder st.cell a)).Nodup ∧
      (∀ x ∈ order.list (removeOrder st.cell a), x ∈ removeOrder st.cell a) ∧
      ∀ x ∈ order.list (removeOrder st.cell a), Live st.cell x := by
  have hmem (x : ScAddr) (hx : x ∈ order.list (removeOrder st.cell a)) : x ∈ removeOrder st.cell a :=
    (order.perm _).mem_iff.mp hx
  refine ⟨?_, hmem, fun x hx => ((mem_removeOrder hc.arcs ha x).mp (hmem x hx)).live ha⟩
  rw [(order.perm _).nodup_iff]
  exact (removeOrder_spec _ _).1

/-- A call returns unless another thread holds a section or the offset is out of range. -/
theorem elementFree_wp (h : Holds env.thread L as st) (hc : CellsOk st) (ctx : ScContext)
    (order : HashOrder) (a : ScAddr) :
    Wp (scStorageElementFree env ctx order a)
      (fun r s' => Holds env.thread L as s' ∧ FreeOutcome env ctx order a st r s')
      (fun _ => Blocked env.thread L ∨ 65535 ≤ a.offset.toNat) st := by
  have hrule := elementFree_rule h hc ctx order a
    (fun s => Erased env st (erasedList order st.cell a) s) (fun _ _ hu he => he.of_unlocked hu) ?_
  · apply wp_mono hrule _ (fun _ hb => hb)
    intro r s' ⟨h', hout⟩
    rcases hout with ⟨rfl, hlive, hall, he⟩ | ⟨_, hout⟩
    · exact ⟨h', FreeOutcome.freed s' hlive hall he⟩
    · exact ⟨h', hout⟩
  · intro hlive lt s hu hh hnb
    obtain ⟨hnd, hmem, hlives⟩ := removeTable_spec hc hlive order
    rw [← cell_of_unlocked hu] at hnb
    apply wp_mono (eraseElements_wp hc h.segs _ [] hh (erased_start env hc hu) _ hmem hlives hnd
      (by simp)) _ (fun _ hb => hb)
    · rw [cell_of_unlocked hu] at hnb ⊢
      exact hnb
    intro _ s3 ⟨h3, he3, _⟩
    rw [List.append_nil] at he3
    exact ⟨h3, he3⟩

/-- After a deletion the store is in order again. -/
theorem Erased.cellsOk_closure (hc : CellsOk st) (ha : Live st.cell a) {order : HashOrder}
    (he : Erased env st (erasedList order st.cell a) s) : CellsOk s := by
  apply he.cellsOk hc
  · intro x hx
    exact ((mem_erasedList hc.arcs ha order x).mp hx).live ha
  · intro x d hx ho
    rw [mem_erasedList hc.arcs ha] at ho ⊢
    exact InClosure.arc x d hx ho

end

end ScMachine.Store
