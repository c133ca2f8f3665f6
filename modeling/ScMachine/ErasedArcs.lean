import ScMachine.CascadeDelete

/-! The way from an erased arc back into its list: while somebody holds a reference of it, its cell
keeps the word that names the next arc, as long as that arc is not erased with it. -/
namespace ScMachine.DoublyLinked

section
variable {α : Type} {next prev : α → α} {nil p x : α} {l : List α}

/-- The node that comes after the node before `x` is `x`. -/
theorem Linked.next_prev (h : Linked next prev nil p l) (hx : x ∈ l) (hp : p ∉ l)
    (hprev : prev x ∈ l) (hd : l.Nodup) : next (prev x) = x := by
  induction l generalizing p with
  | nil => simp at hx
  | cons y ys ih =>
    obtain ⟨_, hpy, hn, ht⟩ := h
    obtain ⟨hy, hd⟩ := List.nodup_cons.mp hd
    rcases List.mem_cons.mp hx with rfl | hx
    · rw [hpy] at hprev
      exact absurd hprev hp
    · -- the node before `x` is `y`, or it is behind `y` too
      rcases ht.prev_cases hx hd with ⟨hhead, hxy⟩ | ⟨_, htail⟩
      · rw [hxy, hn, hhead]
      · exact ih ht hx hy htail hd

end

end ScMachine.DoublyLinked

namespace ScMachine.Store
open ScMachine.StateExcept ScMachine.DoublyLinked

section
variable {env : ScEnv} {L : SectionKey → LockWord} {as D R lt : List ScAddr} {st s : ScStorage}
  {a x y n : ScAddr} {d : Dir} {ctx : ScContext}

/-- The flag of the deletion leaves the words of the cell as they are. -/
theorem flagAndUnref_data (h : Holds env.thread L as s) (hh : s.HolesOk) (hl : Loaded s x)
    (hlive : (s.cell x).type ≠ 0) (levels : ScAccessLevels) :
    IfReturns (do
        modifyCell x fun el => { el with type := el.type ||| scFlagRequestDeletion }
        let _ ← scStorageElementUnref env x
        emit (.emit x levels .removeElement ScAddr.empty ScAddr.empty)
        emit (.elementDeleted x))
      (fun _ s' => s.refCount x ≠ 1 → (s'.cell x).data = (s.cell x).data) s := by
  rw [IfReturns, wp_bind]
  apply modifyCell_rule h hh ⟨hl, hh.not_hole hlive⟩
  intro s1 h1 w1
  rw [wp_bind]
  apply wp_mono (elementUnref_wp h1 x) _ (fun _ _ => trivial)
  intro r s2 hpost
  obtain ⟨_, _, hun, h2⟩ := hpost
  simp only [wp_bind]
  apply emit_rule h2 (hun.holes w1.holes)
  intro s3 h3 w3
  apply emit_rule h3 w3.holes
  intro s4 h4 w4 hone
  have hone' : ¬ s1.refCount x = 1 := by rwa [w1.refCount]
  rw [w4.cell, w3.cell, hun.cell, if_neg hone', w1.cell, Function.update_self]

/-- An arc that is taken out of its lists keeps the words of its own. -/
theorem eraseElement_self (hc : CellsOk st) (hseg : SegsInRange st) (h : Holds env.thread L as s)
    (he : Erased env st D s) (hnb : NeighboursIn lt st.cell R D s.cell) (hx : x ∈ R) (hxD : x ∉ D)
    (hxa : LiveArc st.cell x) (hcount : st.refCount x ≠ 1) (d : Dir) :
    IfReturns (eraseElement env lt x) (fun _ s' => nextOf s'.cell d x = nextOf s.cell d x) s := by
  have hsame := he.cells.same x hxD
  have hvalid : scElementIsValid (s.cell x) = true := by
    rw [hsame.valid]
    exact hxa.1
  have htype := (valid_iff_type _).mp hvalid
  have harc : (s.cell x).isArc = true := hsame.isArc.trans hxa.2
  have hnlink : (s.cell x).isLink = false := by
    unfold ScElement.isLink
    rw [hsame.type]
    exact hc.oneClass x hxa.2
  have hloaded (y : ScAddr) (hy : Live st.cell y) : Loaded s y :=
    (he.loaded y).mpr (hc.loaded hseg (type_of_live hy))
  have hin (d : Dir) (b : ScAddr) (hb : b ∈ restList st.cell D d (ownerOf st.cell d x)) :
      Loaded s b :=
    hloaded b ((mem_restList hc.arcs (hc.arcs.endpoint x d hxa) b).mp hb).1.1
  have hnext (d : Dir) (hn : nextOf s.cell d x ≠ ScAddr.empty) :
      nextOf s.cell d x ∈ lt ∧ Loaded s (nextOf s.cell d x) :=
    ⟨(hnb x hx hxD hxa d).1.resolve_left hn,
      hin d _ ((he.cells.neighbour hc.arcs hxa hxD d).1.resolve_left hn)⟩
  have hprev (d : Dir) (hn : prevOf s.cell d x ≠ ScAddr.empty) :
      prevOf s.cell d x ∈ lt ∧ Loaded s (prevOf s.cell d x) :=
    ⟨(hnb x hx hxD hxa d).2.resolve_left hn,
      hin d _ ((he.cells.neighbour hc.arcs hxa hxD d).2.resolve_left hn)⟩
  have howner (d : Dir) : Loaded s (ownerOf s.cell d x) := by
    rw [hsame.owner d]
    exact hloaded _ (hc.arcs.endpoint x d hxa)
  unfold eraseElement
  rw [IfReturns, wp_bind, wp_readCell, wp_ite]
  refine ⟨fun _ => rfl, fun _ => ?_⟩
  rw [wp_bind]
  unfold detachElement
  rw [if_neg (by simp [hnlink]), if_pos harc, wp_bind]
  apply wp_mono (unlinkArc_wp h he.holes lt .out x (hnext .out) (hprev .out) (howner .out)) _
    (fun _ _ => trivial)
  intro _ s1 hpost1
  obtain ⟨w1, h1⟩ := hpost1
  have hn1 : nextOf s1.cell .inp x = nextOf s.cell .inp x := by
    simp [nextOf, w1.cell, unlinkCells_arc, Dir.next, Dir.prev]
  have hp1 : prevOf s1.cell .inp x = prevOf s.cell .inp x := by
    simp [prevOf, w1.cell, unlinkCells_arc, Dir.next, Dir.prev]
  have ho1 : ownerOf s1.cell .inp x = ownerOf s.cell .inp x := by
    simp [ownerOf, w1.cell, unlinkCells_arc, Dir.next, Dir.prev, Dir.owner]
  have hnext1 : nextOf s1.cell .inp x ≠ ScAddr.empty →
      nextOf s1.cell .inp x ∈ lt ∧ Loaded s1 (nextOf s1.cell .inp x) := by
    rw [hn1]
    exact fun hne => ⟨(hnext .inp hne).1, (w1.loaded _).mpr (hnext .inp hne).2⟩
  have hprev1 : prevOf s1.cell .inp x ≠ ScAddr.empty →
      prevOf s1.cell .inp x ∈ lt ∧ Loaded s1 (prevOf s1.cell .inp x) := by
    rw [hp1]
    exact fun hne => ⟨(hprev .inp hne).1, (w1.loaded _).mpr (hprev .inp hne).2⟩
  have howner1 : Loaded s1 (ownerOf s1.cell .inp x) := by
    rw [ho1]
    exact (w1.loaded _).mpr (howner .inp)
  apply wp_mono (unlinkArc_wp h1 w1.holes lt .inp x hnext1 hprev1 howner1) _ (fun _ _ => trivial)
  intro _ s2 hpost2
  obtain ⟨w2, h2⟩ := hpost2
  have w12 := w1.trans w2
  rw [w1.cell] at w12
  have hcell : s2.cell = unlinkBoth x s.cell := w12.cell
  have htype2 : (s2.cell x).type ≠ 0 := by
    rw [hcell, unlinkBoth_type]
    exact htype.1
  apply wp_mono (flagAndUnref_data h2 w2.holes ((w12.loaded x).mpr (hloaded x hxa.1)) htype2 _) _
    (fun _ _ => trivial)
  intro _ s3 hdata
  have hcount2 : s2.refCount x ≠ 1 := by
    rwa [w12.refCount, he.refCount, if_neg hxD]
  have hself : nextOf s3.cell d x = nextOf s2.cell d x := by
    unfold nextOf ScElement.arc
    rw [hdata hcount2]
  rw [hself, hcell, unlinkBoth_next]
  split_ifs <;> rfl

/-- While other elements are erased, the word of `y` is changed only with the arc it names. -/
theorem eraseElement_next (hc : CellsOk st) (hseg : SegsInRange st) (h : Holds env.thread L as s)
    (he : Erased env st D s) (hnb : NeighboursIn lt st.cell R D s.cell) (hx : x ∈ R) (hxD : x ∉ D)
    (hlive : Live st.cell x) (hy : LiveArc st.cell y) (hcount : st.refCount y ≠ 1) (hxn : x ≠ n)
    (hn : nextOf s.cell d y = n) :
    IfReturns (eraseElement env lt x) (fun _ s' => nextOf s'.cell d y = n) s := by
  by_cases hyx : y = x
  · subst hyx
    rw [← hn]
    exact eraseElement_self hc hseg h he hnb hx hxD hy hcount d
  · apply wp_mono (eraseElement_wp hc hseg h he hnb hx hxD hlive) _ (fun _ _ => trivial)
    intro _ s' hpost
    have hcell := hpost.2.2.2 y hyx
    by_cases hxa : LiveArc st.cell x
    · rw [if_pos hxa] at hcell
      have hsame : nextOf s'.cell d y = nextOf (unlinkBoth x s.cell) d y := by
        unfold nextOf
        rw [hcell]
      rw [hsame, unlinkBoth_next]
      split_ifs with hprev
      · -- then `x` would be the arc that `y` names
        exfalso
        obtain ⟨hprev, hne⟩ := hprev
        have howner := hc.arcs.endpoint x d hxa
        have hchain := he.cells.chain (ownerOf st.cell d x) d howner
        have hnd : (restList st.cell D d (ownerOf st.cell d x)).Nodup := nodup_restList hc.arcs howner
        have hmem : x ∈ restList st.cell D d (ownerOf st.cell d x) :=
          (mem_restList hc.arcs howner x).mpr ⟨hxa, rfl, hxD⟩
        have hempty : ScAddr.empty ∉ restList st.cell D d (ownerOf st.cell d x) :=
          fun hm => hchain.ne_nil hm rfl
        have hyin : prevOf s.cell d x ∈ restList st.cell D d (ownerOf st.cell d x) :=
          (he.cells.neighbour hc.arcs hxa hxD d).2.resolve_left (hprev ▸ hne)
        have hback := hchain.next_prev hmem hempty hyin hnd
        rw [← hprev, hn] at hback
        exact hxn hback.symm
      · exact hn
    · rw [if_neg hxa] at hcell
      unfold nextOf
      rw [hcell]
      exact hn

theorem eraseElements_next (hc : CellsOk st) (hseg : SegsInRange st) (l D : List ScAddr)
    (h : Holds env.thread L as s) (he : Erased env st D s)
    (hnb : NeighboursIn lt st.cell R D s.cell) (hR : ∀ x ∈ l, x ∈ R)
    (hlive : ∀ x ∈ l, Live st.cell x) (hnd : l.Nodup) (hD : ∀ x ∈ l, x ∉ D)
    (hy : LiveArc st.cell y) (hcount : st.refCount y ≠ 1) (hln : n ∉ l)
    (hn : nextOf s.cell d y = n) :
    IfReturns (eraseElements env lt l) (fun _ s' => nextOf s'.cell d y = n) s := by
  induction l generalizing s D with
  | nil => exact hn
  | cons x l ih =>
    obtain ⟨hxl, hnd⟩ := List.nodup_cons.mp hnd
    have hxD := hD x List.mem_cons_self
    have hxR := hR x List.mem_cons_self
    have hx := hlive x List.mem_cons_self
    have hxn : x ≠ n := fun he => hln (he ▸ List.mem_cons_self)
    have hstep : IfReturns (eraseElement env lt x) (fun _ s' => Holds env.thread L as s' ∧
        Erased env st (x :: D) s' ∧ NeighboursIn lt st.cell R (x :: D) s'.cell) s :=
      wp_mono (eraseElement_wp hc hseg h he hnb hxR hxD hx)
        (fun _ _ hpost => ⟨hpost.1, hpost.2.1, hpost.2.2.1⟩) (fun _ _ => trivial)
    unfold eraseElements
    rw [IfReturns, wp_bind]
    apply wp_mono (wp_and hstep (eraseElement_next hc hseg h he hnb hxR hxD hx hy hcount hxn hn)) _
      (fun _ _ => trivial)
    intro _ s1 hpost
    obtain ⟨⟨h1, he1, hnb1⟩, hn1⟩ := hpost
    apply ih (x :: D) h1 he1 hnb1 (fun z hz => hR z (List.mem_cons_of_mem _ hz))
      (fun z hz => hlive z (List.mem_cons_of_mem _ hz)) hnd _
      (fun hm => hln (List.mem_cons_of_mem _ hm)) hn1
    intro z hz hzD
    rcases List.mem_cons.mp hzD with rfl | hzD
    · exact hxl hz
    · exact hD z (List.mem_cons_of_mem _ hz) hzD

/-- A deletion leaves the word of a held arc that names an arc outside of the deletion. -/
theorem elementFree_next (h : Holds env.thread L as st) (hc : CellsOk st) (ctx : ScContext)
    (order : HashOrder) (a : ScAddr) (hy : LiveArc st.cell y) (hcount : st.refCount y ≠ 1)
    (hn : ¬ InClosure st.cell a (nextOf st.cell d y)) :
    IfReturns (scStorageElementFree env ctx order a)
      (fun _ s' => nextOf s'.cell d y = nextOf st.cell d y) st := by
  have hsame (s : ScStorage) (hu : s.unlocked = st.unlocked) :
      nextOf s.cell d y = nextOf st.cell d y := by
    rw [cell_of_unlocked hu]
  have hrule := elementFree_rule h hc ctx order a
    (fun s => nextOf s.cell d y = nextOf st.cell d y) (fun s s' hu hs => by
      rw [← hs, cell_of_unlocked hu]) ?_
  · apply wp_mono hrule _ (fun _ _ => trivial)
    intro r s' hpost
    rcases hpost.2 with ⟨_, _, _, hR⟩ | ⟨hne, hout⟩
    · exact hR
    · cases hout with
      | dead _ _ hu => exact hsame _ hu
      | denied _ _ _ hu => exact hsame _ hu
      | freed _ _ _ _ => exact absurd rfl hne
  · intro ha lt s hu hh hnb
    obtain ⟨hnd, hmem, hlives⟩ := removeTable_spec hc ha order
    have hout : nextOf st.cell d y ∉ order.list (removeOrder st.cell a) := by
      intro hm
      exact hn ((mem_removeOrder hc.arcs ha _).mp (hmem _ hm))
    rw [← cell_of_unlocked hu] at hnb
    have hnb' : NeighboursIn lt st.cell (removeOrder st.cell a) [] s.cell := by
      rw [cell_of_unlocked hu] at hnb ⊢
      exact hnb
    have hwp := eraseElements_wp hc h.segs _ [] hh (erased_start env hc hu) hnb' hmem hlives hnd
      (by simp)
    have hnext := eraseElements_next hc h.segs _ [] hh (erased_start env hc hu) hnb' hmem hlives hnd
      (by simp) hy hcount hout (hsame s hu)
    apply wp_mono (wp_and hwp hnext)
    · intro _ s3 hpost
      exact ⟨hpost.1.1, hpost.2⟩
    · intro e hb
      exact hb.1

end

end ScMachine.Store
