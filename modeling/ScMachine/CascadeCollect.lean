import ScMachine.CascadeErase
import ScMachine.Worklist

/-! The first phase of `sc_storage_element_free`: a breadth-first search for the elements to
remove, which locks them and what is around them. -/
namespace ScMachine.Store
open ScMachine.StateExcept ScMachine.Runs ScMachine.DoublyLinked ScMachine.Worklist

/-- The arcs that go with `x`, in the order in which they are collected. -/
def incident (c : Cells) (x : ScAddr) : List ScAddr := arcList c .out x ++ arcList c .inp x

/-- The elements in the order in which they are taken off `remove_list`. -/
def removeOrder (c : Cells) (a : ScAddr) : List ScAddr := bfs (incident c) walkFuel [] [a]

/-- The endpoints and the neighbours of `x` are in `lt`. -/
def LockedAround (c : Cells) (lt : List ScAddr) (x : ScAddr) : Prop :=
  LiveArc c x → ∀ d, ownerOf c d x ∈ lt ∧ (nextOf c d x = ScAddr.empty ∨ nextOf c d x ∈ lt) ∧
    (prevOf c d x = ScAddr.empty ∨ prevOf c d x ∈ lt)

/-- The locks of `lt` are held over the store `st`. -/
structure TableHeld (env : ScEnv) (L : SectionKey → LockWord) (as : List ScAddr) (st : ScStorage)
    (lt : List ScAddr) (s : ScStorage) : Prop where
  same : s.unlocked = st.unlocked
  holds : Holds env.thread L (lt ++ as) s

section
variable {env : ScEnv} {L : SectionKey → LockWord} {as : List ScAddr} {st s s' : ScStorage}
  {a b x : ScAddr} {lt : List ScAddr}

theorem LockedAround.mono {c : Cells} {lt' : List ScAddr} (h : LockedAround c lt x)
    (hlt : lt ⊆ lt') : LockedAround c lt' x := by
  intro hx d
  obtain ⟨ho, hn, hp⟩ := h hx d
  exact ⟨hlt ho, hn.imp id (fun hh => hlt hh), hp.imp id (fun hh => hlt hh)⟩

/-- The element is locked and added to the table. -/
theorem lockInto_wp {α : Type} (h : TableHeld env L as st lt s) (hl : Loaded st a)
    (f : Bool → StoreM α) (Q : α → ScStorage → Prop)
    (hQ : ∀ s', TableHeld env L as st (lt ++ [a]) s' → Wp (f true) Q (fun _ => Blocked env.thread L) s') :
    Wp (scStorageElementLock env a >>= f) Q (fun _ => Blocked env.thread L) s := by
  have hl' : Loaded s a := (loaded_of_unlocked h.same a).mpr hl
  rw [wp_bind]
  apply wp_mono (elementLock_wp h.holds a)
  swap
  · intro _ hstop hall
    rcases hstop with hoff | hlock
    · exact absurd hl.2 (by omega)
    · exact hlock (hall _)
  intro r s1 ⟨hu, hloaded, h1⟩
  cases r with
  | false => simpa using hloaded.mpr hl'
  | true => exact hQ s1 ⟨hu.trans h.same, h1.concat⟩

theorem lockEndpoint_wp (h : TableHeld env L as st lt s) (hl : Loaded st a) :
    Wp (lockEndpoint env a lt)
      (fun lt' s' => TableHeld env L as st lt' s' ∧ lt ⊆ lt' ∧ a ∈ lt')
      (fun _ => Blocked env.thread L) s := by
  unfold lockEndpoint
  rw [wp_ite]
  constructor
  · intro hmem
    exact ⟨h, List.Subset.refl _, hmem⟩
  · intro _
    apply lockInto_wp h hl
    intro s1 h1
    exact ⟨h1, List.subset_append_left _ _, by simp⟩

theorem lockNeighbour_wp (h : TableHeld env L as st lt s) (hl : a ≠ ScAddr.empty → Loaded st a) :
    Wp (lockNeighbour env a lt)
      (fun lt' s' => TableHeld env L as st lt' s' ∧ lt ⊆ lt' ∧ (a = ScAddr.empty ∨ a ∈ lt'))
      (fun _ => Blocked env.thread L) s := by
  unfold lockNeighbour
  rw [wp_ite]
  constructor
  · intro hmem
    exact ⟨h, List.Subset.refl _, hmem⟩
  · intro hno
    obtain ⟨hne, _⟩ := not_or.mp hno
    apply lockInto_wp h (hl hne)
    intro s1 h1
    exact ⟨h1, List.subset_append_left _ _, Or.inr (by simp)⟩

/-- The neighbours of a live arc are live arcs. -/
theorem ArcsOk.neighbour_live {c : Cells} (h : ArcsOk c) (hx : LiveArc c x) (d : Dir) :
    (nextOf c d x ≠ ScAddr.empty → LiveArc c (nextOf c d x)) ∧
      (prevOf c d x ≠ ScAddr.empty → LiveArc c (prevOf c d x)) := by
  have hn := (erasing_start (fun _ => True) h).neighbour h hx List.not_mem_nil d
  have ho := h.endpoint x d hx
  constructor
  · intro hne
    exact ((mem_restList h ho _).mp (hn.1.resolve_left hne)).1
  · intro hne
    exact ((mem_restList h ho _).mp (hn.2.resolve_left hne)).1

theorem lockAround_wp (hc : CellsOk st) (hseg : SegsInRange st) (h : TableHeld env L as st lt s)
    (hx : Live st.cell x) :
    Wp (lockAround env (st.cell x) lt)
      (fun lt' s' => TableHeld env L as st lt' s' ∧ lt ⊆ lt' ∧ LockedAround st.cell lt' x)
      (fun _ => Blocked env.thread L) s := by
  have hloaded (b : ScAddr) (hb : Live st.cell b) : Loaded st b := hc.loaded hseg (type_of_live hb)
  unfold lockAround
  rw [wp_ite]
  constructor
  · intro hna
    refine ⟨h, List.Subset.refl _, ?_⟩
    intro hxa
    rw [hxa.2] at hna
    exact absurd hna (by decide)
  intro harc
  have hxa : LiveArc st.cell x := ⟨hx, by simpa using harc⟩
  have hown (d : Dir) : Loaded st (ownerOf st.cell d x) := hloaded _ (hc.arcs.endpoint x d hxa)
  have hnext (d : Dir) (hne : nextOf st.cell d x ≠ ScAddr.empty) : Loaded st (nextOf st.cell d x) :=
    hloaded _ ((hc.arcs.neighbour_live hxa d).1 hne).1
  have hprev (d : Dir) (hne : prevOf st.cell d x ≠ ScAddr.empty) : Loaded st (prevOf st.cell d x) :=
    hloaded _ ((hc.arcs.neighbour_live hxa d).2 hne).1
  rw [wp_bind]
  apply wp_mono (lockEndpoint_wp h (hown .out)) _ (fun _ hb => hb)
  intro lt1 s1 ⟨h1, hs1, hm1⟩
  rw [wp_bind]
  apply wp_mono (lockEndpoint_wp h1 (hown .inp)) _ (fun _ hb => hb)
  intro lt2 s2 ⟨h2, hs2, hm2⟩
  rw [wp_bind]
  apply wp_mono (lockNeighbour_wp h2 (hprev .out)) _ (fun _ hb => hb)
  intro lt3 s3 ⟨h3, hs3, hm3⟩
  rw [wp_bind]
  apply wp_mono (lockNeighbour_wp h3 (hprev .inp)) _ (fun _ hb => hb)
  intro lt4 s4 ⟨h4, hs4, hm4⟩
  rw [wp_bind]
  apply wp_mono (lockNeighbour_wp h4 (hnext .out)) _ (fun _ hb => hb)
  intro lt5 s5 ⟨h5, hs5, hm5⟩
  apply wp_mono (lockNeighbour_wp h5 (hnext .inp)) _ (fun _ hb => hb)
  intro lt6 s6 ⟨h6, hs6, hm6⟩
  have h56 : lt5 ⊆ lt6 := hs6
  have h46 : lt4 ⊆ lt6 := fun _ hy => h56 (hs5 hy)
  have h36 : lt3 ⊆ lt6 := fun _ hy => h46 (hs4 hy)
  have h26 : lt2 ⊆ lt6 := fun _ hy => h36 (hs3 hy)
  have h16 : lt1 ⊆ lt6 := fun _ hy => h26 (hs2 hy)
  refine ⟨h6, fun _ hy => h16 (hs1 hy), ?_⟩
  intro _ d
  cases d with
  | out => exact ⟨h16 hm1, hm5.imp id (fun hh => h56 hh), hm3.imp id (fun hh => h36 hh)⟩
  | inp => exact ⟨h26 hm2, hm6, hm4.imp id (fun hh => h46 hh)⟩

/-- The tables while elements are collected: what is to be removed is live and locked. -/
structure Collecting (env : ScEnv) (L : SectionKey → LockWord) (as : List ScAddr) (st : ScStorage)
    (t : FreeTables) (s : ScStorage) : Prop where
  held : TableHeld env L as st t.lockTable s
  locked : t.removeTable ⊆ t.lockTable
  live : ∀ x ∈ t.removeTable, Live st.cell x

/-- The elements `xs` are put into `remove_table` and on `remove_list`, if they are not there. -/
structure Collected (t : FreeTables) (xs : List ScAddr) (t' : FreeTables) : Prop where
  removeTable : t'.removeTable = t.removeTable ++ fresh t.removeTable xs
  removeList : t'.removeList = t.removeList ++ fresh t.removeTable xs
  lockTable : t.lockTable ⊆ t'.lockTable

theorem collected_nil (t : FreeTables) : Collected t [] t :=
  ⟨by simp [fresh], by simp [fresh], List.Subset.refl _⟩

theorem Collected.append {t t1 t2 : FreeTables} {xs ys : List ScAddr} (h : Collected t xs t1)
    (h' : Collected t1 ys t2) : Collected t (xs ++ ys) t2 := by
  refine ⟨?_, ?_, fun _ hy => h'.lockTable (h.lockTable hy)⟩
  · rw [h'.removeTable, h.removeTable, fresh_append, List.append_assoc]
  · rw [h'.removeList, h.removeList, h.removeTable, fresh_append, List.append_assoc]

theorem collectArc_wp (hc : CellsOk st) (hseg : SegsInRange st) {t : FreeTables}
    (h : Collecting env L as st t s) (hx : Live st.cell x) :
    Wp (collectArc env x t)
      (fun t' s' => Collecting env L as st t' s' ∧ Collected t [x] t')
      (fun _ => Blocked env.thread L) s := by
  have hlive (x' : ScAddr) (hx' : x' ∈ t.removeTable ++ [x]) : Live st.cell x' := by
    rcases List.mem_append.mp hx' with hx' | hx'
    · exact h.live x' hx'
    · rw [List.mem_singleton.mp hx']
      exact hx
  unfold collectArc
  rw [wp_ite]
  constructor
  · intro hmem
    exact ⟨h, by simp [fresh, hmem], by simp [fresh, hmem], List.Subset.refl _⟩
  intro hno
  rw [wp_ite]
  constructor
  · intro hmem
    refine ⟨⟨h.held, ?_, hlive⟩, by simp [fresh, hno], by simp [fresh, hno], List.Subset.refl _⟩
    intro y hy
    rcases List.mem_append.mp hy with hy | hy
    · exact h.locked hy
    · rw [List.mem_singleton.mp hy]
      exact hmem
  intro _
  apply lockInto_wp h.held (hc.loaded hseg (type_of_live hx))
  intro s1 h1
  refine ⟨⟨h1, ?_, hlive⟩, by simp [fresh, hno], by simp [fresh, hno],
    List.subset_append_left _ _⟩
  intro y hy
  rcases List.mem_append.mp hy with hy | hy
  · exact List.mem_append_left _ (h.locked hy)
  · exact List.mem_append_right _ hy

/-- The walk along a list of arcs. -/
theorem collectArcs_wp (hc : CellsOk st) (hseg : SegsInRange st) (d : Dir) (l : List ScAddr)
    {p : ScAddr} (hl : Linked (nextOf st.cell d) (prevOf st.cell d) ScAddr.empty p l)
    (hlive : ∀ x ∈ l, Live st.cell x) (fuel : ℕ) (hfuel : l.length < fuel) {t : FreeTables}
    (h : Collecting env L as st t s) :
    Wp (collectArcs env d.next fuel (l.headD ScAddr.empty) t)
      (fun t' s' => Collecting env L as st t' s' ∧ Collected t l t')
      (fun _ => Blocked env.thread L) s := by
  induction l generalizing p fuel t s with
  | nil =>
    cases fuel with
    | zero => simp at hfuel
    | succ fuel =>
      simp only [collectArcs, List.headD_nil, if_true, wp_pure]
      exact ⟨h, collected_nil t⟩
  | cons x l ih =>
    cases fuel with
    | zero => simp at hfuel
    | succ fuel =>
      obtain ⟨hne, _, hnext, hl⟩ := hl
      unfold collectArcs
      rw [List.headD_cons, if_neg hne, wp_bind]
      apply wp_mono (collectArc_wp hc hseg h (hlive x List.mem_cons_self)) _ (fun _ hb => hb)
      intro t1 s1 ⟨h1, hx⟩
      rw [wp_bind, wp_readCell, cell_of_unlocked h1.held.same]
      have hstep : (st.cell x).arc d.next = l.headD ScAddr.empty := hnext
      rw [hstep]
      have hrec := ih hl (fun y hy => hlive y (List.mem_cons_of_mem _ hy)) fuel
        (by simpa using hfuel) h1
      apply wp_mono hrec _ (fun _ hb => hb)
      intro t2 s2 ⟨h2, hys⟩
      exact ⟨h2, by simpa using hx.append hys⟩

theorem arcList_live (hc : CellsOk st) (d : Dir) (hx : Live st.cell x) (y : ScAddr)
    (hy : y ∈ arcList st.cell d x) : Live st.cell y :=
  (((hc.arcs.arcList hx).mem y).mp hy).1.1

theorem collectElement_wp (hc : CellsOk st) (hseg : SegsInRange st) {t : FreeTables}
    (h : Collecting env L as st t s) (hx : Live st.cell x) :
    Wp (collectElement env x t)
      (fun t' s' => Collecting env L as st t' s' ∧ Collected t (incident st.cell x) t' ∧
        LockedAround st.cell t'.lockTable x)
      (fun _ => Blocked env.thread L) s := by
  have hwalk (d : Dir) : (st.cell x).first d = (arcList st.cell d x).headD ScAddr.empty :=
    (hc.arcs.arcList hx).first
  have hfuel (d : Dir) : (arcList st.cell d x).length < walkFuel := by
    have hlen := length_le_of_nodup_addrs _ (hc.arcs.arcList (d := d) hx).nodup
    exact lt_of_le_of_lt hlen (by norm_num [walkFuel])
  unfold collectElement
  rw [wp_bind, wp_readCell, cell_of_unlocked h.held.same, wp_bind]
  apply wp_mono (lockAround_wp hc hseg h.held hx) _ (fun _ hb => hb)
  rintro lt1 s1 ⟨h1, hs1, haround⟩
  have hcol : Collecting env L as st { t with lockTable := lt1 } s1 :=
    ⟨h1, fun _ hy => hs1 (h.locked hy), h.live⟩
  rw [wp_bind]
  have hout : (st.cell x).firstOutArc = (arcList st.cell .out x).headD ScAddr.empty := hwalk .out
  have hinp : (st.cell x).firstInArc = (arcList st.cell .inp x).headD ScAddr.empty := hwalk .inp
  rw [hout, hinp]
  apply wp_mono (collectArcs_wp hc hseg .out _ (hc.arcs.arcList hx).linked
    (arcList_live hc .out hx) walkFuel (hfuel .out) hcol) _ (fun _ hb => hb)
  rintro t2 s2 ⟨h2, hc2⟩
  apply wp_mono (collectArcs_wp hc hseg .inp _ (hc.arcs.arcList hx).linked
    (arcList_live hc .inp hx) walkFuel (hfuel .inp) h2) _ (fun _ hb => hb)
  rintro t3 s3 ⟨h3, hc3⟩
  have hboth := hc2.append hc3
  refine ⟨h3, ⟨hboth.removeTable, hboth.removeList, ?_⟩, haround.mono hboth.lockTable⟩
  intro y hy
  exact hboth.lockTable (hs1 hy)

theorem takeFromList_wp {t : FreeTables} (rest : List ScAddr) (h : Collecting env L as st t s)
    (hx : x ∈ t.removeTable) :
    Wp (takeFromList env x rest t)
      (fun t' s' => t' = { t with removeList := rest } ∧ Collecting env L as st t' s')
      (fun _ => Blocked env.thread L) s := by
  unfold takeFromList
  rw [if_pos (h.locked hx), wp_pure]
  exact ⟨rfl, h.held, h.locked, h.live⟩

/-- Whether the context may write the element. -/
def CanWrite (ctx : ScContext) (c : Cells) (x : ScAddr) : Prop :=
  scAccessLvlCheckWrite ctx.accessLevels (c x).accessLevels = true

/-- The loop of the search: `el` is the element of the round before, so the last element that is
taken off the list is never asked for its access levels. -/
theorem collectLoop_wp (hc : CellsOk st) (hseg : SegsInRange st) (ctx : ScContext) (fuel : ℕ)
    (el : ScAddr) (done : List ScAddr) (t : FreeTables) (h : Collecting env L as st t s)
    (hdone : t.removeTable = done ++ t.removeList)
    (haround : ∀ x ∈ done, LockedAround st.cell t.lockTable x)
    (hprog : Progress (incident st.cell) done t.removeList) (hfuel : 2^32 < fuel+done.length) :
    Wp (collectLoop env ctx fuel el t)
      (fun r s' => Collecting env L as st r.2 s' ∧
        ((∀ x ∈ (el :: bfs (incident st.cell) fuel done t.removeList).dropLast,
            CanWrite ctx st.cell x) →
          r.1 = .ok ∧ r.2.removeTable = done ++ bfs (incident st.cell) fuel done t.removeList ∧
            ∀ x ∈ r.2.removeTable, LockedAround st.cell r.2.lockTable x) ∧
        ((¬ ∀ x ∈ (el :: bfs (incident st.cell) fuel done t.removeList).dropLast,
            CanWrite ctx st.cell x) → r.1 = .errorNoWriteRights))
      (fun _ => Blocked env.thread L) s := by
  induction fuel generalizing el done t s with
  | zero =>
    have hlen := length_le_of_nodup_addrs done (List.Nodup.of_append_left hprog.nodup)
    omega
  | succ fuel ih =>
    unfold collectLoop
    cases hq : t.removeList with
    | nil =>
      rw [hq, List.append_nil] at hdone
      refine ⟨h, ?_, ?_⟩
      · intro _
        refine ⟨rfl, ?_, ?_⟩
        · simpa [bfs] using hdone
        · rw [hdone]
          exact haround
      · intro hno
        exact absurd (by simp [bfs]) hno
    | cons a rest =>
      rw [hq] at hdone hprog
      have hbfs : bfs (incident st.cell) (fuel+1) done (a :: rest) = a ::
          bfs (incident st.cell) fuel (done ++ [a])
            (rest ++ fresh (done ++ a :: rest) (incident st.cell a)) := rfl
      have hdrop (l : List ScAddr) : (el :: a :: l).dropLast = el :: (a :: l).dropLast := rfl
      simp only
      rw [wp_bind, wp_readCell, cell_of_unlocked h.held.same, wp_ite]
      constructor
      · -- the element of the round before is not writable
        intro hno
        have hel : ¬ CanWrite ctx st.cell el := by
          unfold CanWrite
          simpa using hno
        refine ⟨h, ?_, fun _ => rfl⟩
        intro hall
        rw [hbfs, hdrop] at hall
        exact absurd (hall el List.mem_cons_self) hel
      · intro hyes
        have hel : CanWrite ctx st.cell el := by
          unfold CanWrite
          simpa using hyes
        have hamem : a ∈ t.removeTable := by
          rw [hdone]
          simp
        rw [wp_bind]
        apply wp_mono (takeFromList_wp rest h hamem) _ (fun _ hb => hb)
        rintro t1 s1 ⟨ht1, h1⟩
        rw [wp_bind]
        apply wp_mono (collectElement_wp hc hseg h1 (h.live a hamem)) _ (fun _ hb => hb)
        rintro t2 s2 ⟨h2, hcol, hlock⟩
        have htable : t1.removeTable = done ++ a :: rest := by rw [ht1]; exact hdone
        have hlist : t2.removeList = rest ++ fresh (done ++ a :: rest) (incident st.cell a) := by
          rw [hcol.removeList, htable, ht1]
        have hlt : t.lockTable ⊆ t2.lockTable := by
          have hsub := hcol.lockTable
          rwa [ht1] at hsub
        have hrec := ih a (done ++ [a]) t2 h2 ?_ ?_ ?_ ?_
        · apply wp_mono hrec _ (fun _ hb => hb)
          rintro r s3 ⟨h3, hok, hbad⟩
          rw [← hlist] at hbfs
          refine ⟨h3, ?_, ?_⟩
          · intro hall
            rw [hbfs, hdrop] at hall
            obtain ⟨hr, htab, har⟩ := hok fun x hx => hall x (List.mem_cons_of_mem _ hx)
            refine ⟨hr, ?_, har⟩
            rw [htab, hbfs]
            simp
          · intro hno
            apply hbad
            intro hall
            apply hno
            rw [hbfs, hdrop]
            intro x hx
            rcases List.mem_cons.mp hx with rfl | hx
            · exact hel
            · exact hall x hx
        · rw [hcol.removeTable, htable, hlist]
          simp
        · intro x hx
          rcases List.mem_append.mp hx with hx | hx
          · exact (haround x hx).mono hlt
          · rw [List.mem_singleton.mp hx]
            exact hlock
        · rw [hlist]
          exact hprog.step
        · rw [List.length_append]
          simp only [List.length_cons, List.length_nil]
          omega

end

end ScMachine.Store
