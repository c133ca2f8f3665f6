import ScMachine.ArcRanks

/-! The arc lists of a reachable store are in the order of creation: a new arc stands in front of the
older ones, and it is newer than its ends. So what hangs on an arc stands in front of it. -/
namespace ScMachine.Store
open ScMachine.StateExcept ScMachine.Runs ScMachine.DoublyLinked

/-- `age` grows with the time of creation, as far as the arcs and their lists tell. -/
structure AgedBy (c : Cells) (age : ScAddr → ℕ) : Prop where
  ends : ∀ x d, LiveArc c x → age (ownerOf c d x) < age x
  lists : ∀ d a, Live c a → (arcList c d a).Pairwise fun x y => age y < age x

def ArcsAged (c : Cells) : Prop := ∃ age, AgedBy c age

section
variable {c c' : Cells} {d : Dir} {a x y : ScAddr} {l : List ScAddr} {age : ScAddr → ℕ}

/-- Whatever goes with `a` is at least as new. -/
theorem AgedBy.closure (h : AgedBy c age) (hx : InClosure c a x) : age a ≤ age x := by
  induction hx with
  | root => exact le_refl _
  | arc x d hx _ ih =>
    have hlt := h.ends x d hx
    omega

/-- What stands behind an arc in a list does not go with it. -/
theorem AgedBy.behind (h : AgedBy c age) (ha : Live c a) {pre rest : List ScAddr}
    (hl : arcList c d a = pre ++ x :: rest) (hy : y ∈ rest) : ¬ InClosure c x y := by
  have hlists := h.lists d a ha
  rw [hl, List.pairwise_append, List.pairwise_cons] at hlists
  have hlt := hlists.2.1.1 y hy
  intro hin
  have hle := h.closure hin
  omega

theorem ArcsOk.arcList_nil (h : ArcsOk c) (ha : Live c a)
    (hnone : ∀ y, LiveArc c y → ownerOf c d y ≠ a) : Store.arcList c d a = [] := by
  apply List.eq_nil_iff_forall_not_mem.mpr
  intro y hy
  obtain ⟨harc, howner⟩ := ((h.arcList ha).mem y).mp hy
  exact hnone y harc howner

/-- A list whose arcs have the same fields is the same list. -/
theorem ArcChain.of_same (h : ArcChain c d a l) (hla : ∀ y, LiveArc c' y ↔ LiveArc c y)
    (hfield : ∀ y f, LiveArc c y → (c' y).arc f = (c y).arc f)
    (hfirst : (c' a).first d = (c a).first d) : ArcChain c' d a l := by
  refine ⟨h.nodup, ?_, ?_, hfirst.trans h.first⟩
  · intro y
    rw [h.mem, hla]
    apply and_congr_right
    intro hy
    unfold ownerOf
    rw [hfield y _ hy]
  · apply h.linked.congr
    intro y hy
    have hy' := ((h.mem y).mp hy).1
    exact ⟨hfield y _ hy', hfield y _ hy'⟩

/-- Nothing happens to the arcs; at most elements without arcs appear. -/
theorem AgedBy.of_same (h : AgedBy c age) (hc : ArcsOk c) (hc' : ArcsOk c')
    (hla : ∀ y, LiveArc c' y ↔ LiveArc c y)
    (hfield : ∀ y f, LiveArc c y → (c' y).arc f = (c y).arc f)
    (hfirst : ∀ a d, Live c a → (c' a).first d = (c a).first d) : AgedBy c' age := by
  have howner (y : ScAddr) (d : Dir) (hy : LiveArc c y) : ownerOf c' d y = ownerOf c d y :=
    hfield y _ hy
  refine ⟨fun y d hy => ?_, fun d a ha => ?_⟩
  · have hy' := (hla y).mp hy
    rw [howner y d hy']
    exact h.ends y d hy'
  · by_cases hold : Live c a
    · have hsame := (hc.arcList (d := d) hold).of_same hla hfield (hfirst a d hold)
      rw [hsame.arcList_eq]
      exact h.lists d a hold
    · -- no arc begins or ends in what was not there
      rw [hc'.arcList_nil ha]
      · exact List.Pairwise.nil
      · intro y hy he
        have hy' := (hla y).mp hy
        rw [howner y d hy'] at he
        exact hold (he ▸ hc.endpoint y d hy')

/-- Arcs are taken out of the lists, and the others stay in their order. -/
theorem AgedBy.of_erasing (h : AgedBy c age) (hc : ArcsOk c) {once : ScAddr → Prop} {D : List ScAddr}
    (he : Erasing once c D c') : AgedBy c' age := by
  have hkept (y : ScAddr) (hy : Live c' y) : y ∉ D := fun hD => he.dead y hD hy
  refine ⟨fun y d hy => ?_, fun d a ha => ?_⟩
  · have hsame := he.same y (hkept y hy.1)
    rw [hsame.owner]
    exact h.ends y d ⟨hsame.live.mp hy.1, hsame.isArc ▸ hy.2⟩
  · have haD := hkept a ha
    have hold := (he.same a haD).live.mp ha
    rw [(he.arcChain hc hold haD).arcList_eq]
    exact (h.lists d a hold).filter _

theorem exists_above (age : ScAddr → ℕ) : ∃ n, ∀ y, age y < n := by
  have hinj : Function.Injective fun a : ScAddr => (a.seg, a.offset) := by
    intro a b hab
    cases a
    cases b
    simpa using hab
  have hfinite : Finite ScAddr := Finite.of_injective _ hinj
  obtain ⟨n, hn⟩ := (Set.finite_range age).bddAbove
  exact ⟨n+1, fun y => Nat.lt_succ_of_le (hn ⟨y, rfl⟩)⟩

/-- A new arc comes first in its lists, newer than everything. -/
theorem AgedBy.added (h : AgedBy c age) (hc : ArcsOk c) (hc' : ArcsOk c') (hx : ¬ Live c x)
    (hne : x ≠ ScAddr.empty) {ends : Dir → ScAddr} (hends : ∀ d, Live c (ends d))
    (hadd : ArcAdded c c' x ends) : ArcsAged c' := by
  obtain ⟨n, hn⟩ := exists_above age
  refine ⟨Function.update age x n, fun y d hy => ?_, fun d a ha => ?_⟩
  · have hendx : ownerOf c' d y ≠ x := by
      rw [hadd.owner]
      split_ifs with hyx
      · exact fun he => hx (he ▸ hends d)
      · have hold := ((hadd.liveArc y).mp hy).resolve_left hyx
        exact fun he => hx (he ▸ hc.endpoint y d hold)
    rw [Function.update_of_ne hendx]
    by_cases hyx : y = x
    · rw [hyx, Function.update_self]
      exact hn _
    · have hold := ((hadd.liveArc y).mp hy).resolve_left hyx
      rw [Function.update_of_ne hyx, hadd.owner, if_neg hyx]
      exact h.ends y d hold
  · by_cases hax : a = x
    · -- the new arc has no arcs itself
      rw [hc'.arcList_nil ha]
      · exact List.Pairwise.nil
      · intro y hy he
        rw [hadd.owner, hax] at he
        split_ifs at he with hyx
        · exact hx (he ▸ hends d)
        · have hold := ((hadd.liveArc y).mp hy).resolve_left hyx
          exact hx (he ▸ hc.endpoint y d hold)
    · have hold := (hadd.live a hax).mp ha
      have hchain := hc.arcList (d := d) hold
      have hnex (y : ScAddr) (hy : y ∈ arcList c d a) : y ≠ x :=
        fun he => hx (he ▸ ((hchain.mem y).mp hy).1.1)
      have hlist : (arcList c d a).Pairwise fun y z =>
          Function.update age x n z < Function.update age x n y := by
        apply (h.lists d a hold).imp_of_mem
        intro y z hy hz hlt
        rwa [Function.update_of_ne (hnex y hy), Function.update_of_ne (hnex z hz)]
      rw [(hadd.arcChain hc hx hne hends hchain).arcList_eq]
      split_ifs with hend
      · apply List.pairwise_cons.mpr
        refine ⟨fun y hy => ?_, hlist⟩
        rw [Function.update_self, Function.update_of_ne (hnex y hy)]
        exact hn y
      · exact hlist

end

section
variable {env : ScEnv} {st st' : ScStorage} {action : StoreAction} {a : ScAddr}

theorem ArcsAged.of_cells (h : ArcsAged st.cell) (hcell : st'.cell = st.cell) : ArcsAged st'.cell := by
  rwa [hcell]

/-- The live elements keep the words that thread the lists. -/
theorem ArcsAged.of_kept (h : ArcsAged st.cell) (hc : CellsOk st) (hc' : CellsOk st')
    (hla : ∀ y, LiveArc st'.cell y ↔ LiveArc st.cell y)
    (hfield : ∀ y f, LiveArc st.cell y → (st'.cell y).arc f = (st.cell y).arc f)
    (hfirst : ∀ a d, Live st.cell a → (st'.cell a).first d = (st.cell a).first d) :
    ArcsAged st'.cell := by
  obtain ⟨age, hage⟩ := h
  exact ⟨age, hage.of_same hc.arcs hc'.arcs hla hfield hfirst⟩

theorem ArcsAged.of_created (h : ArcsAged st.cell) (hc : CellsOk st) (hc' : CellsOk st')
    {el : ScElement} (hel : el.isArc = false)
    (hcr : Created st a (Function.update st.cell a el) st') : ArcsAged st'.cell := by
  have hcell := hcr.refCount.2.2.2
  have hdead : ¬ Live st.cell a := fun hl => type_of_live hl hcr.refCount.2.2.1
  have hother (y : ScAddr) (hy : y ≠ a) : st'.cell y = st.cell y := by
    rw [hcell, Function.update_of_ne hy]
  have hne (y : ScAddr) (hy : Live st.cell y) : y ≠ a := fun he => hdead (he ▸ hy)
  apply h.of_kept hc hc'
  · intro y
    by_cases hya : y = a
    · refine iff_of_false (fun hy => ?_) (fun hy => hne y hy.1 hya)
      have harc := hy.2
      rw [hcell, hya, Function.update_self, hel] at harc
      exact absurd harc (by decide)
    · unfold LiveArc Live
      rw [hother y hya]
  · intro y f hy
    rw [hother y (hne y hy.1)]
  · intro y d hy
    rw [hother y (hne y hy)]

/-- A cell gets other fields, but not those that thread the lists. -/
theorem ArcsAged.of_updated (h : ArcsAged st.cell) (hc : CellsOk st) (hc' : CellsOk st')
    {el : ScElement} {fm : FileMemory} (hup : CellUpdated st a el fm st')
    (hlive : scElementIsValid el = scElementIsValid (st.cell a))
    (harc : el.isArc = (st.cell a).isArc)
    (hdata : (st.cell a).isArc = true → el.data = (st.cell a).data)
    (hfirst : ∀ d, el.first d = (st.cell a).first d) : ArcsAged st'.cell := by
  have hself : st'.cell a = el := by rw [hup.cell, Function.update_self]
  have hother (y : ScAddr) (hy : y ≠ a) : st'.cell y = st.cell y := by
    rw [hup.cell, Function.update_of_ne hy]
  apply h.of_kept hc hc'
  · intro y
    unfold LiveArc Live
    by_cases hya : y = a
    · rw [hya, hself, hlive, harc]
    · rw [hother y hya]
  · intro y f hy
    by_cases hya : y = a
    · have hy' := hy.2
      rw [hya] at hy'
      rw [hya, hself]
      unfold ScElement.arc
      rw [hdata hy']
    · rw [hother y hya]
  · intro y d _
    by_cases hya : y = a
    · rw [hya, hself, hfirst]
    · rw [hother y hya]

theorem Effect.arcsAged (h : Effect env st action st') (hc : CellsOk st)
    (hallow : action.Allowed st) (ha : ArcsAged st.cell) : ArcsAged st'.cell := by
  have hc' := h.cells hc hallow
  cases h with
  | same _ _ hu => exact ha.of_cells (cell_of_unlocked hu)
  | nodeNew ctx type a _ hm hcr => exact ha.of_created hc hc' (nodeCell_isArc ctx type hm) hcr
  | linkNew ctx isConst a _ hcr => exact ha.of_created hc hc' (linkCell_type ctx isConst).2 hcr
  | arcNew ctx type beg end_ a _ hcr =>
    obtain ⟨age, hage⟩ := ha
    have hfree : ¬ Live st.cell a := fun hl => type_of_live hl hcr.created.refCount.2.2.1
    apply hage.added hc.arcs hc'.arcs hfree hcr.created.notEmpty _ (hcr.added hc)
    intro d
    cases d with
    | out => exact hcr.beginLive
    | inp => exact hcr.endLive
  | freed ctx order a _ hl _ he =>
    obtain ⟨age, hage⟩ := ha
    exact ⟨age, hage.of_erasing hc.arcs he.cells⟩
  | contentSet ctx a stream _ hl hk hup =>
    have hbit : (contentCell (env.checksum stream.bytes) stream.bytes (st.cell a)).isArc =
        (st.cell a).isArc := by
      unfold ScElement.isArc
      rw [contentCell_type _ _ _ _ (by decide) (by decide)]
    apply ha.of_updated hc hc' hup _ hbit
    · intro harc
      rw [hc.oneClass a harc] at hk
      exact absurd hk (by decide)
    · intro d
      cases d <;> (unfold contentCell ScElement.first; split_ifs <;> rfl)
    · exact (contentCell_live _ _ hk hl).trans hl.symm
  | levelsSet ctx a levels _ _ hup =>
    apply ha.of_updated hc hc' hup rfl rfl (fun _ => rfl)
    intro d
    cases d <;> rfl
  | subtypeChanged ctx a type _ hl hm hup =>
    have hbit : ({ st.cell a with type := type } : ScElement).isArc = (st.cell a).isArc := by
      unfold ScElement.isArc
      rw [and_of_mask hm (by decide)]
    apply ha.of_updated hc hc' hup _ hbit (fun _ => rfl)
    · intro d
      cases d <;> rfl
    · exact (valid_of_type hallow.1 hallow.2.1).trans hl.symm
  | refTaken a _ _ hset => exact ha.of_cells hset.cell
  | refDropped a _ hun =>
    have hlive (y : ScAddr) : Live st'.cell y ↔ Live st.cell y := hun.live_iff hallow y
    have hsame (y : ScAddr) (hy : Live st.cell y) : st'.cell y = st.cell y := hun.same hallow y hy
    apply ha.of_kept hc hc'
    · intro y
      unfold LiveArc
      rw [hlive]
      apply and_congr_right
      intro hy
      rw [hsame y hy]
    · intro y f hy
      rw [hsame y hy.1]
    · intro y d hy
      rw [hsame y hy]

theorem arcsAged_empty : ArcsAged ScStorage.empty.cell := by
  have hnone (x : ScAddr) : ¬ Live ScStorage.empty.cell x := by
    intro hlive
    unfold Live at hlive
    rw [cells_empty] at hlive
    exact absurd hlive (by decide)
  exact ⟨fun _ => 0, fun x _ hx => (hnone x hx.1).elim, fun _ a ha => (hnone a ha).elim⟩

end

end ScMachine.Store
