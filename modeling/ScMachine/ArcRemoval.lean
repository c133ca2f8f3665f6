import ScMachine.ArcLists

/-! The removal of a set of elements from the arc lists, one element after the other in any order.
The lists of elements that are removed before their arcs stay linked, only their heads are lost. -/
namespace ScMachine.Store
open ScMachine.DoublyLinked

/-- A neighbour in the list gets `t` in one of its fields. -/
def relinkCell (a : ScAddr) (f : ArcField) (t : ScAddr) (c : Cells) : Cells :=
  if a = ScAddr.empty then c else Function.update c a ((c a).setArc f t)

/-- The owner of a list whose first arc is `x` gets `next` instead. -/
def dropFirst (d : Dir) (x next owner : ScAddr) (c : Cells) : Cells :=
  Function.update c owner
    (if (c owner).first d = x then (c owner).setFirst next d else c owner)

/-- The effect of `unlinkArc` on the element array. -/
def unlinkCells (d : Dir) (x : ScAddr) (c : Cells) : Cells :=
  dropFirst d x (nextOf c d x) (ownerOf c d x)
    (relinkCell (nextOf c d x) d.prev (prevOf c d x)
      (relinkCell (prevOf c d x) d.next (nextOf c d x) c))

section
variable {c c' c0 : Cells} {d : Dir} {a x : ScAddr}

@[simp] theorem type_setFirst (el : ScElement) (t : ScAddr) (d : Dir) :
    (el.setFirst t d).type = el.type := by
  cases d <;> rfl

@[simp] theorem accessLevels_setFirst (el : ScElement) (t : ScAddr) (d : Dir) :
    (el.setFirst t d).accessLevels = el.accessLevels := by
  cases d <;> rfl

@[simp] theorem data_setFirst (el : ScElement) (t : ScAddr) (d : Dir) :
    (el.setFirst t d).data = el.data := by
  cases d <;> rfl

@[simp] theorem first_setFirst (el : ScElement) (t : ScAddr) (d d' : Dir) :
    (el.setFirst t d).first d' = if d' = d then t else el.first d' := by
  cases d <;> cases d' <;> rfl

@[simp] theorem first_setArc (el : ScElement) (f : ArcField) (t : ScAddr) (d : Dir) :
    (el.setArc f t).first d = el.first d := by
  cases d <;> rfl

theorem relinkCell_eq (a : ScAddr) (f : ArcField) (t : ScAddr) (c : Cells) (y : ScAddr) :
    relinkCell a f t c y = if y = a ∧ a ≠ ScAddr.empty then (c y).setArc f t else c y := by
  unfold relinkCell
  by_cases ha : a = ScAddr.empty
  · simp [ha]
  · by_cases hy : y = a
    · subst hy
      simp [ha]
    · simp [ha, hy]

theorem relinkCell_arc (a : ScAddr) (f : ArcField) (t : ScAddr) (c : Cells) (y : ScAddr)
    (g : ArcField) : (relinkCell a f t c y).arc g =
      if g = f ∧ y = a ∧ y ≠ ScAddr.empty then t else (c y).arc g := by
  rw [relinkCell_eq]
  by_cases h : y = a ∧ a ≠ ScAddr.empty
  · rw [if_pos h, arc_setArc]
    have hy : y = a ∧ y ≠ ScAddr.empty := ⟨h.1, h.1 ▸ h.2⟩
    by_cases hg : g = f
    · rw [if_pos hg, if_pos ⟨hg, hy⟩]
    · rw [if_neg hg, if_neg (fun hh => hg hh.1)]
  · rw [if_neg h, if_neg]
    rintro ⟨_, hy, hne⟩
    exact h ⟨hy, hy ▸ hne⟩

theorem dropFirst_eq (d : Dir) (x next owner : ScAddr) (c : Cells) (y : ScAddr) :
    dropFirst d x next owner c y =
      if y = owner ∧ (c y).first d = x then (c y).setFirst next d else c y := by
  unfold dropFirst
  by_cases hy : y = owner
  · subst hy
    simp
  · simp [hy]

/-- The words of a cell that thread the lists. -/
def linkWords : List (Fin 8) := [2, 3, 4, 5]

theorem readAddr_setArc_of_not_link (el : ScElement) (d : Dir) (t : ScAddr) (w : Fin 8)
    (hw : w ∉ linkWords) : readAddr (el.setArc d.next t).data w = readAddr el.data w ∧
      readAddr (el.setArc d.prev t).data w = readAddr el.data w := by
  have hne : w ≠ d.next.word ∧ w ≠ d.prev.word := by
    cases d
    · exact ⟨fun h => hw (h ▸ by decide), fun h => hw (h ▸ by decide)⟩
    · exact ⟨fun h => hw (h ▸ by decide), fun h => hw (h ▸ by decide)⟩
  unfold ScElement.setArc
  rw [readAddr_writeAddr, readAddr_writeAddr, if_neg hne.1, if_neg hne.2]
  exact ⟨rfl, rfl⟩

theorem unlinkCells_type (d : Dir) (x : ScAddr) (c : Cells) (y : ScAddr) :
    (unlinkCells d x c y).type = (c y).type := by
  unfold unlinkCells
  rw [dropFirst_eq]
  split_ifs <;> simp only [type_setFirst, relinkCell_eq] <;> split_ifs <;> rfl

theorem unlinkCells_accessLevels (d : Dir) (x : ScAddr) (c : Cells) (y : ScAddr) :
    (unlinkCells d x c y).accessLevels = (c y).accessLevels := by
  unfold unlinkCells
  rw [dropFirst_eq]
  split_ifs <;> simp only [accessLevels_setFirst, relinkCell_eq] <;> split_ifs <;> rfl

theorem unlinkCells_data (d : Dir) (x : ScAddr) (c : Cells) (y : ScAddr) :
    (unlinkCells d x c y).data = (relinkCell (nextOf c d x) d.prev (prevOf c d x)
      (relinkCell (prevOf c d x) d.next (nextOf c d x) c) y).data := by
  unfold unlinkCells
  rw [dropFirst_eq]
  split_ifs
  · exact data_setFirst _ _ _
  · rfl

/-- Every field of an arc after the removal of `x` from one of its lists. -/
theorem unlinkCells_arc (d : Dir) (x : ScAddr) (c : Cells) (y : ScAddr) (f : ArcField) :
    (unlinkCells d x c y).arc f =
      if f = d.prev ∧ y = nextOf c d x ∧ y ≠ ScAddr.empty then prevOf c d x
      else if f = d.next ∧ y = prevOf c d x ∧ y ≠ ScAddr.empty then nextOf c d x
      else (c y).arc f := by
  have hdata : (unlinkCells d x c y).arc f = (relinkCell (nextOf c d x) d.prev (prevOf c d x)
      (relinkCell (prevOf c d x) d.next (nextOf c d x) c) y).arc f := by
    unfold ScElement.arc
    rw [unlinkCells_data]
  rw [hdata, relinkCell_arc, relinkCell_arc]

theorem unlinkCells_first (d : Dir) (x : ScAddr) (c : Cells) (y : ScAddr) (d' : Dir) :
    (unlinkCells d x c y).first d' =
      if d' = d ∧ y = ownerOf c d x ∧ (c y).first d = x then nextOf c d x else (c y).first d' := by
  have hrel (d' : Dir) : (relinkCell (nextOf c d x) d.prev (prevOf c d x)
      (relinkCell (prevOf c d x) d.next (nextOf c d x) c) y).first d' = (c y).first d' := by
    rw [relinkCell_eq, relinkCell_eq]
    split_ifs <;> simp
  unfold unlinkCells
  rw [dropFirst_eq, hrel]
  by_cases h : y = ownerOf c d x ∧ (c y).first d = x
  · rw [if_pos h, first_setFirst, hrel]
    by_cases hd : d' = d
    · rw [if_pos hd, if_pos ⟨hd, h⟩]
    · rw [if_neg hd, if_neg (fun hh => hd hh.1)]
  · rw [if_neg h, if_neg (fun hh => h hh.2), hrel]

/-- The effect of both calls of `unlinkArc` for the arc `x`. -/
def unlinkBoth (x : ScAddr) (c : Cells) : Cells := unlinkCells .inp x (unlinkCells .out x c)

theorem unlinkBoth_type (x : ScAddr) (c : Cells) (y : ScAddr) :
    (unlinkBoth x c y).type = (c y).type := by
  unfold unlinkBoth
  rw [unlinkCells_type, unlinkCells_type]

theorem unlinkBoth_accessLevels (x : ScAddr) (c : Cells) (y : ScAddr) :
    (unlinkBoth x c y).accessLevels = (c y).accessLevels := by
  unfold unlinkBoth
  rw [unlinkCells_accessLevels, unlinkCells_accessLevels]

theorem unlinkBoth_next (x : ScAddr) (c : Cells) (d : Dir) (y : ScAddr) :
    nextOf (unlinkBoth x c) d y =
      if y = prevOf c d x ∧ y ≠ ScAddr.empty then nextOf c d x else nextOf c d y := by
  cases d with
  | out =>
    simp [unlinkBoth, nextOf, prevOf, unlinkCells_arc, Dir.next, Dir.prev]
    congr
  | inp =>
    simp [unlinkBoth, nextOf, prevOf, unlinkCells_arc, Dir.next, Dir.prev]
    congr

theorem unlinkBoth_prev (x : ScAddr) (c : Cells) (d : Dir) (y : ScAddr) :
    prevOf (unlinkBoth x c) d y =
      if y = nextOf c d x ∧ y ≠ ScAddr.empty then prevOf c d x else prevOf c d y := by
  cases d with
  | out =>
    simp [unlinkBoth, nextOf, prevOf, unlinkCells_arc, Dir.next, Dir.prev]
    congr
  | inp =>
    simp [unlinkBoth, nextOf, prevOf, unlinkCells_arc, Dir.next, Dir.prev]
    congr

theorem unlinkBoth_first (x : ScAddr) (c : Cells) (d : Dir) (y : ScAddr) :
    (unlinkBoth x c y).first d =
      if y = ownerOf c d x ∧ (c y).first d = x then nextOf c d x else (c y).first d := by
  cases d with
  | out =>
    simp [unlinkBoth, unlinkCells_first]
  | inp =>
    simp [unlinkBoth, unlinkCells_first, ownerOf, nextOf, unlinkCells_arc, Dir.next, Dir.prev,
      Dir.owner]
    congr

/-- A cell is changed only as a neighbour or as an owner of the arc. -/
theorem unlinkCells_other (d : Dir) (x : ScAddr) (c : Cells) (y : ScAddr)
    (hn : y = nextOf c d x → y = ScAddr.empty) (hp : y = prevOf c d x → y = ScAddr.empty) :
    (unlinkCells d x c y).data = (c y).data ∧
      ((y = ownerOf c d x → (c y).first d ≠ x) → unlinkCells d x c y = c y) := by
  have hrel : relinkCell (nextOf c d x) d.prev (prevOf c d x)
      (relinkCell (prevOf c d x) d.next (nextOf c d x) c) y = c y := by
    rw [relinkCell_eq, if_neg, relinkCell_eq, if_neg]
    · rintro ⟨hy, hne⟩
      exact hne (hy ▸ hp hy)
    · rintro ⟨hy, hne⟩
      exact hne (hy ▸ hn hy)
  refine ⟨by rw [unlinkCells_data, hrel], ?_⟩
  intro ho
  unfold unlinkCells
  rw [dropFirst_eq, hrel, if_neg]
  rintro ⟨hy, hf⟩
  exact ho hy hf

theorem unlinkBoth_other (x : ScAddr) (c : Cells) (y : ScAddr)
    (hn : ∀ d, y = nextOf c d x → y = ScAddr.empty)
    (hp : ∀ d, y = prevOf c d x → y = ScAddr.empty) :
    (unlinkBoth x c y).data = (c y).data ∧
      ((∀ d, y = ownerOf c d x → (c y).first d ≠ x) → unlinkBoth x c y = c y) := by
  have h1 := unlinkCells_other .out x c y (hn .out) (hp .out)
  have hnext : nextOf (unlinkCells .out x c) .inp x = nextOf c .inp x := by
    simp [nextOf, unlinkCells_arc, Dir.next, Dir.prev]
  have hprev : prevOf (unlinkCells .out x c) .inp x = prevOf c .inp x := by
    simp [prevOf, unlinkCells_arc, Dir.next, Dir.prev]
  have howner : ownerOf (unlinkCells .out x c) .inp x = ownerOf c .inp x := by
    simp [ownerOf, unlinkCells_arc, Dir.next, Dir.prev, Dir.owner]
  have h2 := unlinkCells_other .inp x (unlinkCells .out x c) y (by rw [hnext]; exact hn .inp)
    (by rw [hprev]; exact hp .inp)
  refine ⟨h2.1.trans h1.1, ?_⟩
  intro ho
  have hout := h1.2 (ho .out)
  rw [howner, hout] at h2
  exact h2.2 (ho .inp)

/-- A word that threads no list. -/
theorem unlinkCells_word (d : Dir) (x : ScAddr) (c : Cells) (y : ScAddr) (w : Fin 8)
    (hw : w ∉ linkWords) :
    readAddr (unlinkCells d x c y).data w = readAddr (c y).data w := by
  rw [unlinkCells_data, relinkCell_eq, relinkCell_eq]
  split_ifs
  · rw [(readAddr_setArc_of_not_link _ d _ w hw).2, (readAddr_setArc_of_not_link _ d _ w hw).1]
  · rw [(readAddr_setArc_of_not_link _ d _ w hw).2]
  · rw [(readAddr_setArc_of_not_link _ d _ w hw).1]
  · rfl

theorem unlinkBoth_word (x : ScAddr) (c : Cells) (y : ScAddr) (w : Fin 8) (hw : w ∉ linkWords) :
    readAddr (unlinkBoth x c y).data w = readAddr (c y).data w := by
  unfold unlinkBoth
  rw [unlinkCells_word .inp x _ y w hw, unlinkCells_word .out x c y w hw]

/-- The element at `z` is as it was, but for the fields that thread the lists. -/
structure SameButLinks (c0 c : Cells) (z : ScAddr) : Prop where
  type : (c z).type = (c0 z).type
  accessLevels : (c z).accessLevels = (c0 z).accessLevels
  word : ∀ w, w ∉ linkWords → readAddr (c z).data w = readAddr (c0 z).data w
  data : ¬ LiveArc c0 z → (c z).data = (c0 z).data
  cell : ¬ Live c0 z → c z = c0 z

/-- The array `c` while elements of `c0` are being removed: those of `D` are dead, zeroed where no
reference is left (`once`) and flagged elsewhere. -/
structure Erasing (once : ScAddr → Prop) (c0 : Cells) (D : List ScAddr) (c : Cells) : Prop where
  same : ∀ z, z ∉ D → SameButLinks c0 c z
  dead : ∀ z ∈ D, ¬ Live c z
  zero : ∀ z ∈ D, once z → c z = ScElement.zero
  flagged : ∀ z ∈ D, ¬ once z → (c z).type = (c0 z).type ||| scFlagRequestDeletion
  chain : ∀ a d, Live c0 a → Linked (nextOf c d) (prevOf c d) ScAddr.empty ScAddr.empty
    ((arcList c0 d a).filter fun y => y ∉ D)
  first : ∀ a d, Live c0 a → a ∉ D →
    (c a).first d = ((arcList c0 d a).filter fun y => y ∉ D).headD ScAddr.empty

theorem filter_notMem_cons (l D : List ScAddr) (x : ScAddr) :
    (l.filter fun y => y ∉ x :: D) = (l.filter fun y => y ∉ D).filter fun y => y ≠ x := by
  rw [List.filter_filter]
  refine List.filter_congr fun y _ => ?_
  by_cases hyx : y = x
  · simp [hyx]
  · simp [hyx]

theorem filter_ne_of_notMem (l : List ScAddr) (hx : x ∉ l) : (l.filter fun y => y ≠ x) = l := by
  refine List.filter_eq_self.mpr fun y hy => ?_
  have hyx : y ≠ x := fun he => hx (he ▸ hy)
  simpa using hyx

theorem erasing_start (once : ScAddr → Prop) (h0 : ArcsOk c0) : Erasing once c0 [] c0 := by
  refine ⟨fun z _ => ⟨rfl, rfl, fun _ _ => rfl, fun _ => rfl, fun _ => rfl⟩, by simp, by simp,
    by simp, ?_, ?_⟩
  · intro a d ha
    have hl := (h0.arcList (d := d) ha).linked
    simpa using hl
  · intro a d ha _
    have hf := (h0.arcList (d := d) ha).first
    simpa using hf

/-- The list of `a` as it is while elements are being removed. -/
def restList (c0 : Cells) (D : List ScAddr) (d : Dir) (a : ScAddr) : List ScAddr :=
  (arcList c0 d a).filter fun y => y ∉ D

section
variable {once : ScAddr → Prop} {D : List ScAddr}

theorem mem_restList (h0 : ArcsOk c0) (ha : Live c0 a) (y : ScAddr) :
    y ∈ restList c0 D d a ↔ LiveArc c0 y ∧ ownerOf c0 d y = a ∧ y ∉ D := by
  unfold restList
  rw [List.mem_filter, (h0.arcList ha).mem]
  simp only [decide_eq_true_eq, and_assoc]

theorem nodup_restList (h0 : ArcsOk c0) (ha : Live c0 a) : (restList c0 D d a).Nodup :=
  (h0.arcList ha).nodup.filter _

theorem restList_cons (c0 : Cells) (D : List ScAddr) (d : Dir) (a x : ScAddr) :
    restList c0 (x :: D) d a = (restList c0 D d a).filter fun y => y ≠ x :=
  filter_notMem_cons _ _ _

/-- An element that is still there has its owners. -/
theorem SameButLinks.owner {z : ScAddr} (h : SameButLinks c0 c z) (d : Dir) :
    ownerOf c d z = ownerOf c0 d z := by
  refine h.word d.owner.word ?_
  cases d <;> decide

theorem SameButLinks.live {z : ScAddr} (h : SameButLinks c0 c z) : Live c z ↔ Live c0 z := by
  unfold Live scElementIsValid scElementIsRequestDeletion
  rw [h.type]

theorem SameButLinks.isArc {z : ScAddr} (h : SameButLinks c0 c z) : (c z).isArc = (c0 z).isArc := by
  unfold ScElement.isArc
  rw [h.type]

/-- The neighbours of an arc that is still in a list are in it too. -/
theorem Erasing.neighbour (h0 : ArcsOk c0) (h : Erasing once c0 D c) (hx : LiveArc c0 x)
    (hxD : x ∉ D) (d : Dir) :
    (nextOf c d x = ScAddr.empty ∨ nextOf c d x ∈ restList c0 D d (ownerOf c0 d x)) ∧
      (prevOf c d x = ScAddr.empty ∨ prevOf c d x ∈ restList c0 D d (ownerOf c0 d x)) := by
  have ho := h0.endpoint x d hx
  have hl := h.chain (ownerOf c0 d x) d ho
  have hmem : x ∈ restList c0 D d (ownerOf c0 d x) := (mem_restList h0 ho x).mpr ⟨hx, rfl, hxD⟩
  refine ⟨?_, ?_⟩
  · rcases Linked.next_cases hl hmem with h1 | h1
    · exact Or.inl h1
    · exact Or.inr (List.mem_of_mem_tail h1)
  · rcases Linked.prev_cases hl hmem (nodup_restList h0 ho) with ⟨_, h1⟩ | ⟨_, h1⟩
    · exact Or.inl h1
    · exact Or.inr h1

/-- An arc is taken out of its two lists and dies. -/
theorem Erasing.removeArc (h0 : ArcsOk c0) (h : Erasing once c0 D c) (hx : LiveArc c0 x)
    (hxD : x ∉ D) (hother : ∀ y, y ≠ x → c' y = unlinkBoth x c y) (hdead : ¬ Live c' x)
    (hzero : once x → c' x = ScElement.zero)
    (hflag : ¬ once x → (c' x).type = (c x).type ||| scFlagRequestDeletion) :
    Erasing once c0 (x :: D) c' := by
  have hxe : x ≠ ScAddr.empty := fun he => h0.notEmpty (he ▸ hx.1)
  have howner (d : Dir) : ownerOf c d x = ownerOf c0 d x := (h.same x hxD).owner d
  -- what is not a live arc that is still there is no neighbour of `x`
  have hnext (y : ScAddr) (hy : ¬ LiveArc c0 y ∨ y ∈ D) (d : Dir) (he : y = nextOf c d x) :
      y = ScAddr.empty := by
    rcases (h.neighbour h0 hx hxD d).1 with h1 | h1
    · rw [he, h1]
    · rw [← he, mem_restList h0 (h0.endpoint x d hx)] at h1
      rcases hy with hy | hy
      · exact absurd h1.1 hy
      · exact absurd hy h1.2.2
  have hprev (y : ScAddr) (hy : ¬ LiveArc c0 y ∨ y ∈ D) (d : Dir) (he : y = prevOf c d x) :
      y = ScAddr.empty := by
    rcases (h.neighbour h0 hx hxD d).2 with h1 | h1
    · rw [he, h1]
    · rw [← he, mem_restList h0 (h0.endpoint x d hx)] at h1
      rcases hy with hy | hy
      · exact absurd h1.1 hy
      · exact absurd hy h1.2.2
  have hptr (y : ScAddr) (hy : y ≠ x) (hye : y ≠ ScAddr.empty) (d : Dir) :
      nextOf c' d y = (if y = prevOf c d x then nextOf c d x else nextOf c d y) ∧
        prevOf c' d y = if y = nextOf c d x then prevOf c d x else prevOf c d y := by
    have hn := unlinkBoth_next x c d y
    have hp := unlinkBoth_prev x c d y
    simp only [hye, ne_eq, not_false_eq_true, and_true] at hn hp
    unfold nextOf prevOf at hn hp ⊢
    rw [hother y hy]
    exact ⟨hn, hp⟩
  refine ⟨?_, ?_, ?_, ?_, ?_, ?_⟩
  · intro z hz
    obtain ⟨hzx, hzD⟩ := not_or.mp (List.mem_cons.not.mp hz)
    have hs := h.same z hzD
    refine ⟨?_, ?_, ?_, ?_, ?_⟩
    · rw [hother z hzx, unlinkBoth_type, hs.type]
    · rw [hother z hzx, unlinkBoth_accessLevels, hs.accessLevels]
    · intro w hw
      rw [hother z hzx, unlinkBoth_word x c z w hw, hs.word w hw]
    · intro hza
      rw [hother z hzx, (unlinkBoth_other x c z (hnext z (Or.inl hza)) (hprev z (Or.inl hza))).1,
        hs.data hza]
    · intro hzl
      have hza : ¬ LiveArc c0 z := fun hh => hzl hh.1
      rw [hother z hzx, (unlinkBoth_other x c z (hnext z (Or.inl hza)) (hprev z (Or.inl hza))).2,
        hs.cell hzl]
      intro d ho
      rw [howner] at ho
      exact absurd (ho ▸ h0.endpoint x d hx) hzl
  · intro z hz
    rcases List.mem_cons.mp hz with rfl | hzD
    · exact hdead
    · have hzx : z ≠ x := fun he => hxD (he ▸ hzD)
      have hzdead := h.dead z hzD
      unfold Live scElementIsValid scElementIsRequestDeletion at hzdead ⊢
      rwa [hother z hzx, unlinkBoth_type]
  · intro z hz hone
    rcases List.mem_cons.mp hz with rfl | hzD
    · exact hzero hone
    · have hzx : z ≠ x := fun he => hxD (he ▸ hzD)
      have hz0 := h.zero z hzD hone
      rw [hother z hzx, (unlinkBoth_other x c z (hnext z (Or.inr hzD)) (hprev z (Or.inr hzD))).2, hz0]
      intro d _
      rw [hz0]
      cases d <;> exact Ne.symm hxe
  · intro z hz hone
    rcases List.mem_cons.mp hz with rfl | hzD
    · rw [hflag hone, (h.same z hxD).type]
    · have hzx : z ≠ x := fun he => hxD (he ▸ hzD)
      rw [hother z hzx, unlinkBoth_type, h.flagged z hzD hone]
  · intro a d ha
    have hl : Linked (nextOf c d) (prevOf c d) ScAddr.empty ScAddr.empty (restList c0 D d a) :=
      h.chain a d ha
    show Linked _ _ _ _ (restList c0 (x :: D) d a)
    rw [restList_cons]
    by_cases hao : ownerOf c0 d x = a
    · refine hl.filter (nodup_restList h0 ha) ?_ ((mem_restList h0 ha x).mpr ⟨hx, hao, hxD⟩) ?_
      · intro he
        exact hl.ne_nil he rfl
      · intro y hy hyx
        exact hptr y hyx (hl.ne_nil hy) d
    · have hxl : x ∉ restList c0 D d a := fun hh => hao ((mem_restList h0 ha x).mp hh).2.1
      rw [filter_ne_of_notMem _ hxl]
      refine hl.congr fun y hy => ?_
      have hyx : y ≠ x := fun he => hxl (he ▸ hy)
      have hye := hl.ne_nil hy
      have hya := ((mem_restList h0 ha y).mp hy).2.1
      -- the neighbours of `x` are in the list of another owner
      obtain ⟨hnx, hpx⟩ := h.neighbour h0 hx hxD d
      have hyn : y ≠ nextOf c d x := by
        rintro he
        rcases hnx with h1 | h1
        · exact hye (he.trans h1)
        · rw [← he, mem_restList h0 (h0.endpoint x d hx)] at h1
          exact hao (h1.2.1.symm.trans hya)
      have hyp : y ≠ prevOf c d x := by
        rintro he
        rcases hpx with h1 | h1
        · exact hye (he.trans h1)
        · rw [← he, mem_restList h0 (h0.endpoint x d hx)] at h1
          exact hao (h1.2.1.symm.trans hya)
      obtain ⟨hn, hp⟩ := hptr y hyx hye d
      rw [if_neg hyp] at hn
      rw [if_neg hyn] at hp
      exact ⟨hn, hp⟩
  · intro a d ha haD
    obtain ⟨hax, haD⟩ := not_or.mp (List.mem_cons.not.mp haD)
    have hf : (c a).first d = (restList c0 D d a).headD ScAddr.empty := h.first a d ha haD
    have hl : Linked (nextOf c d) (prevOf c d) ScAddr.empty ScAddr.empty (restList c0 D d a) :=
      h.chain a d ha
    show _ = (restList c0 (x :: D) d a).headD _
    rw [hother a hax, unlinkBoth_first, restList_cons, howner, hf]
    by_cases hao : ownerOf c0 d x = a
    · rw [hl.headD_filter (nodup_restList h0 ha) ((mem_restList h0 ha x).mpr ⟨hx, hao, hxD⟩)]
      simp [hao]
    · have hxl : x ∉ restList c0 D d a := fun hh => hao ((mem_restList h0 ha x).mp hh).2.1
      rw [filter_ne_of_notMem _ hxl, if_neg]
      rintro ⟨he, _⟩
      exact hao he.symm

/-- An element that is no arc dies. -/
theorem Erasing.removeOther (h0 : ArcsOk c0) (h : Erasing once c0 D c) (hx : ¬ LiveArc c0 x)
    (hxD : x ∉ D) (hother : ∀ y, y ≠ x → c' y = c y) (hdead : ¬ Live c' x)
    (hzero : once x → c' x = ScElement.zero)
    (hflag : ¬ once x → (c' x).type = (c x).type ||| scFlagRequestDeletion) :
    Erasing once c0 (x :: D) c' := by
  have hrest (a : ScAddr) (d : Dir) (ha : Live c0 a) :
      restList c0 (x :: D) d a = restList c0 D d a := by
    rw [restList_cons]
    exact filter_ne_of_notMem _ fun hh => hx ((mem_restList h0 ha x).mp hh).1
  refine ⟨?_, ?_, ?_, ?_, ?_, ?_⟩
  · intro z hz
    obtain ⟨hzx, hzD⟩ := not_or.mp (List.mem_cons.not.mp hz)
    have hs := h.same z hzD
    have hc : c' z = c z := hother z hzx
    exact ⟨by rw [hc, hs.type], by rw [hc, hs.accessLevels], fun w hw => by rw [hc, hs.word w hw],
      fun ha => by rw [hc, hs.data ha], fun ha => by rw [hc, hs.cell ha]⟩
  · intro z hz
    rcases List.mem_cons.mp hz with rfl | hzD
    · exact hdead
    · have hzx : z ≠ x := fun he => hxD (he ▸ hzD)
      unfold Live
      rw [hother z hzx]
      exact h.dead z hzD
  · intro z hz hone
    rcases List.mem_cons.mp hz with rfl | hzD
    · exact hzero hone
    · have hzx : z ≠ x := fun he => hxD (he ▸ hzD)
      rw [hother z hzx]
      exact h.zero z hzD hone
  · intro z hz hone
    rcases List.mem_cons.mp hz with rfl | hzD
    · rw [hflag hone, (h.same z hxD).type]
    · have hzx : z ≠ x := fun he => hxD (he ▸ hzD)
      rw [hother z hzx, h.flagged z hzD hone]
  · intro a d ha
    show Linked _ _ _ _ (restList c0 (x :: D) d a)
    rw [hrest a d ha]
    refine Linked.congr (h.chain a d ha) fun y hy => ?_
    have hyx : y ≠ x := fun he => hx (he ▸ ((mem_restList h0 ha y).mp hy).1)
    unfold nextOf prevOf
    rw [hother y hyx]
    exact ⟨rfl, rfl⟩
  · intro a d ha haD
    obtain ⟨hax, haD⟩ := not_or.mp (List.mem_cons.not.mp haD)
    show _ = (restList c0 (x :: D) d a).headD _
    rw [hother a hax, hrest a d ha]
    exact h.first a d ha haD

/-- What is left of the list of a survivor is its list. -/
theorem Erasing.arcChain (h0 : ArcsOk c0) (h : Erasing once c0 D c) (ha : Live c0 a) (haD : a ∉ D) :
    ArcChain c d a (restList c0 D d a) := by
  refine ⟨nodup_restList h0 ha, ?_, h.chain a d ha, h.first a d ha haD⟩
  intro x
  rw [mem_restList h0 ha]
  constructor
  · rintro ⟨⟨hx, hxa⟩, ho, hxD⟩
    have hs := h.same x hxD
    exact ⟨⟨hs.live.mpr hx, hs.isArc.trans hxa⟩, (hs.owner d).trans ho⟩
  · rintro ⟨⟨hx, hxa⟩, ho⟩
    have hxD : x ∉ D := fun hh => h.dead x hh hx
    have hs := h.same x hxD
    exact ⟨⟨hs.live.mp hx, hs.isArc ▸ hxa⟩, (hs.owner d) ▸ ho, hxD⟩

/-- When a set that is closed under incident arcs has been removed, the lists are in order. -/
theorem Erasing.arcsOk (h0 : ArcsOk c0) (h : Erasing once c0 D c)
    (hclosed : ∀ x d, LiveArc c0 x → ownerOf c0 d x ∈ D → x ∈ D) : ArcsOk c := by
  have hlive (a : ScAddr) (ha : Live c a) : a ∉ D ∧ Live c0 a := by
    have haD : a ∉ D := fun hh => h.dead a hh ha
    exact ⟨haD, (h.same a haD).live.mp ha⟩
  refine ⟨?_, ?_, ?_⟩
  · intro he
    exact h0.notEmpty (hlive _ he).2
  · intro x d hx
    obtain ⟨hxD, hx0⟩ := hlive x hx.1
    have hs := h.same x hxD
    have hxa : LiveArc c0 x := ⟨hx0, hs.isArc ▸ hx.2⟩
    rw [hs.owner d]
    have hoD : ownerOf c0 d x ∉ D := fun hh => hxD (hclosed x d hxa hh)
    exact (h.same _ hoD).live.mpr (h0.endpoint x d hxa)
  · intro a d ha
    obtain ⟨haD, ha0⟩ := hlive a ha
    exact ⟨_, h.arcChain h0 ha0 haD⟩

theorem low_append (x y : ScByte) : (x ++ y : BitVec (8+8)).setWidth 8 = y := by
  apply BitVec.eq_of_getLsbD_eq
  intro i hi
  rw [BitVec.getLsbD_setWidth, BitVec.getLsbD_append]
  simp [hi]

theorem high_append (x y : ScByte) : ((x ++ y : BitVec (8+8)) >>> 8).setWidth 8 = x := by
  apply BitVec.eq_of_getLsbD_eq
  intro i hi
  rw [BitVec.getLsbD_setWidth, BitVec.getLsbD_ushiftRight, BitVec.getLsbD_append]
  simp [hi]

theorem addrByte_readAddr (data : Fin 32 → ScByte) (w : Fin 8) (k : ℕ) (hk : k < 4) :
    addrByte (readAddr data w) k = data ⟨4*w.val+k, by omega⟩ := by
  interval_cases k
  · exact low_append _ _
  · exact high_append _ _
  · exact low_append _ _
  · exact high_append _ _

/-- The eight words of a cell determine its data. -/
theorem data_ext {data data' : Fin 32 → ScByte}
    (h : ∀ w, readAddr data w = readAddr data' w) : data = data' := by
  funext i
  have hk : i.val%4 < 4 := Nat.mod_lt _ (by omega)
  have hw : i.val/4 < 8 := by omega
  have hi : (⟨4*(⟨i.val/4, hw⟩ : Fin 8).val+i.val%4, by simp only; omega⟩ : Fin 32) = i := by
    apply Fin.ext
    simp only
    omega
  have h1 := addrByte_readAddr data ⟨i.val/4, hw⟩ (i.val%4) hk
  have h2 := addrByte_readAddr data' ⟨i.val/4, hw⟩ (i.val%4) hk
  rw [h ⟨i.val/4, hw⟩, h2, hi] at h1
  exact h1.symm

theorem linkWords_cases (w : Fin 8) (hw : w ∈ linkWords) :
    ∃ d : Dir, w = d.next.word ∨ w = d.prev.word := by
  simp only [linkWords, List.mem_cons, List.not_mem_nil, or_false] at hw
  rcases hw with rfl | rfl | rfl | rfl
  · exact ⟨.out, Or.inl rfl⟩
  · exact ⟨.inp, Or.inl rfl⟩
  · exact ⟨.out, Or.inr rfl⟩
  · exact ⟨.inp, Or.inr rfl⟩

/-- The array that is left depends only on the set that has been removed. -/
theorem Erasing.unique {D' : List ScAddr} (h0 : ArcsOk c0) (h : Erasing once c0 D c)
    (h' : Erasing once c0 D' c') (hD : ∀ z, z ∈ D ↔ z ∈ D') (hone : ∀ z ∈ D, once z) : c' = c := by
  have hrest (d : Dir) (a : ScAddr) : restList c0 D' d a = restList c0 D d a := by
    refine List.filter_congr fun y _ => ?_
    simp only [hD]
  funext z
  by_cases hz : z ∈ D
  · rw [h.zero z hz (hone z hz), h'.zero z ((hD z).mp hz) (hone z hz)]
  have hz' : z ∉ D' := fun hh => hz ((hD z).mpr hh)
  have hs := h.same z hz
  have hs' := h'.same z hz'
  by_cases hl : Live c0 z
  swap
  · rw [hs.cell hl, hs'.cell hl]
  have hdata : (c' z).data = (c z).data := by
    by_cases harc : LiveArc c0 z
    swap
    · rw [hs.data harc, hs'.data harc]
    apply data_ext
    intro w
    by_cases hw : w ∈ linkWords
    · -- a field that threads a list is determined by what is left of that list
      have hptr (d : Dir) : nextOf c' d z = nextOf c d z ∧ prevOf c' d z = prevOf c d z := by
        have ho := h0.endpoint z d harc
        have hc : Linked (nextOf c d) (prevOf c d) ScAddr.empty ScAddr.empty
            (restList c0 D d (ownerOf c0 d z)) := h.chain _ d ho
        have hc' : Linked (nextOf c' d) (prevOf c' d) ScAddr.empty ScAddr.empty
            (restList c0 D' d (ownerOf c0 d z)) := h'.chain _ d ho
        rw [hrest] at hc'
        exact hc.unique hc' ((mem_restList h0 ho z).mpr ⟨harc, rfl, hz⟩)
      obtain ⟨d, rfl | rfl⟩ := linkWords_cases w hw
      · exact (hptr d).1
      · exact (hptr d).2
    · rw [hs.word w hw, hs'.word w hw]
  have hfirst (d : Dir) : (c' z).first d = (c z).first d := by
    have h1 : (c z).first d = (restList c0 D d z).headD ScAddr.empty := h.first z d hl hz
    have h2 : (c' z).first d = (restList c0 D' d z).headD ScAddr.empty := h'.first z d hl hz'
    rw [h1, h2, hrest]
  have htype := hs'.type.trans hs.type.symm
  have hlevels := hs'.accessLevels.trans hs.accessLevels.symm
  have hout : (c' z).firstOutArc = (c z).firstOutArc := hfirst .out
  have hinp : (c' z).firstInArc = (c z).firstInArc := hfirst .inp
  revert htype hlevels hout hinp hdata
  cases c z
  cases c' z
  simp only [ScElement.mk.injEq]
  tauto

end

end

end ScMachine.Store
