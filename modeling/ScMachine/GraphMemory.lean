import Mathlib

/-! Graphs whose arcs are elements too: an arc may begin and end in other arcs. With an element
goes what depends on it. -/
namespace ScMachine.GraphMemory

@[ext] structure ElementGraph (α β : Type*) where
  label : α → Option β
  ends : α → Option (α × α)

namespace ElementGraph

section
variable {α β : Type*} {g h k : ElementGraph α β} {a b x y : α}

def empty (α β : Type*) : ElementGraph α β := ⟨fun _ => none, fun _ => none⟩

def elements (g : ElementGraph α β) : Set α := {x | g.label x ≠ none}

theorem mem_elements : x ∈ g.elements ↔ g.label x ≠ none := Iff.rfl

/-- Only elements are arcs, and both ends of an arc are elements. -/
def Closed (g : ElementGraph α β) : Prop :=
  ∀ x p, g.ends x = some p → x ∈ g.elements ∧ p.1 ∈ g.elements ∧ p.2 ∈ g.elements

def Incident (g : ElementGraph α β) (x y : α) : Prop := ∃ p, g.ends x = some p ∧ (p.1 = y ∨ p.2 = y)

/-- `a`, the arcs at it, the arcs at these, and so on. -/
inductive Dependent (g : ElementGraph α β) (a : α) : α → Prop where
  | refl : Dependent g a a
  | arc (x y : α) : Dependent g a y → g.Incident x y → Dependent g a x

open Classical in
noncomputable def delete (g : ElementGraph α β) (a : α) : ElementGraph α β where
  label x := if g.Dependent a x then none else g.label x
  ends x := if g.Dependent a x then none else g.ends x

/-- A part of `g`: some of its elements as they are there. -/
def Within (h g : ElementGraph α β) : Prop :=
  ∀ x ∈ h.elements, h.label x = g.label x ∧ h.ends x = g.ends x

theorem Within.trans (hk : h.Within k) (hg : k.Within g) : h.Within g := by
  intro x hx
  obtain ⟨hl, he⟩ := hk x hx
  have hx' : x ∈ k.elements := by
    rw [mem_elements, ← hl]
    exact hx
  obtain ⟨hl', he'⟩ := hg x hx'
  exact ⟨hl.trans hl', he.trans he'⟩

theorem Within.mem (hk : h.Within g) (hx : x ∈ h.elements) : x ∈ g.elements := by
  rw [mem_elements, ← (hk x hx).1]
  exact hx

/-- Parts that contain each other are the same. -/
theorem Within.antisymm (hh : h.Closed) (hg : g.Closed) (hle : h.Within g) (hge : g.Within h) :
    h = g := by
  have hiff (x : α) : x ∈ h.elements ↔ x ∈ g.elements := ⟨hle.mem, hge.mem⟩
  have hnone {k : ElementGraph α β} (hk : k.Closed) {x : α} (hx : x ∉ k.elements) :
      k.label x = none ∧ k.ends x = none := by
    refine ⟨not_not.mp hx, ?_⟩
    by_contra hne
    obtain ⟨p, hp⟩ := Option.ne_none_iff_exists'.mp hne
    exact hx (hk x p hp).1
  have hsame (x : α) : h.label x = g.label x ∧ h.ends x = g.ends x := by
    by_cases hx : x ∈ h.elements
    · exact hle x hx
    · obtain ⟨hl, he⟩ := hnone hh hx
      obtain ⟨hl', he'⟩ := hnone hg (fun h' => hx ((hiff x).mpr h'))
      exact ⟨hl.trans hl'.symm, he.trans he'.symm⟩
  ext1
  · funext x
    exact (hsame x).1
  · funext x
    exact (hsame x).2

theorem mem_delete : x ∈ (g.delete a).elements ↔ x ∈ g.elements ∧ ¬ g.Dependent a x := by
  simp only [mem_elements, delete]
  split_ifs with hd
  · simp [hd]
  · simp [hd]

theorem eq_delete (hd : ∀ x, g.Dependent a x → h.label x = none ∧ h.ends x = none)
    (ho : ∀ x, ¬ g.Dependent a x → h.label x = g.label x ∧ h.ends x = g.ends x) :
    h = g.delete a := by
  have hsame (x : α) : h.label x = (g.delete a).label x ∧ h.ends x = (g.delete a).ends x := by
    simp only [delete]
    split_ifs with hx
    · exact hd x hx
    · exact ho x hx
  ext1
  · funext x
    exact (hsame x).1
  · funext x
    exact (hsame x).2

theorem delete_within (g : ElementGraph α β) (a : α) : (g.delete a).Within g := by
  intro x hx
  have hd := (mem_delete.mp hx).2
  exact ⟨if_neg hd, if_neg hd⟩

theorem not_mem_delete (g : ElementGraph α β) (a : α) : a ∉ (g.delete a).elements :=
  fun ha => (mem_delete.mp ha).2 .refl

theorem Closed.delete (hg : g.Closed) (a : α) : (g.delete a).Closed := by
  intro x p hp
  have hd : ¬ g.Dependent a x := by
    intro hd
    simp [ElementGraph.delete, hd] at hp
  have hp' : g.ends x = some p := by
    simpa only [ElementGraph.delete, hd, if_false] using hp
  obtain ⟨hx, hb, he⟩ := hg x p hp'
  refine ⟨mem_delete.mpr ⟨hx, hd⟩, mem_delete.mpr ⟨hb, ?_⟩, mem_delete.mpr ⟨he, ?_⟩⟩
  · intro hdb
    exact hd (.arc x p.1 hdb ⟨p, hp', Or.inl rfl⟩)
  · intro hde
    exact hd (.arc x p.2 hde ⟨p, hp', Or.inr rfl⟩)

/-- A closed part without an element is without what depends on it. -/
theorem Within.not_mem (hh : h.Closed) (hg : h.Within g) (ha : a ∉ h.elements)
    (hd : g.Dependent a x) : x ∉ h.elements := by
  induction hd with
  | refl => exact ha
  | arc x y _ hxy ih =>
    intro hx
    obtain ⟨p, hp, hend⟩ := hxy
    obtain ⟨_, hb, he⟩ := hh x p ((hg x hx).2.trans hp)
    rcases hend with rfl | rfl
    · exact ih hb
    · exact ih he

/-- What is left by a deletion is the greatest closed part without the element. -/
theorem within_delete (hh : h.Closed) (hg : h.Within g) (ha : a ∉ h.elements) :
    h.Within (g.delete a) := by
  intro x hx
  have hd : ¬ g.Dependent a x := fun hd => hg.not_mem hh ha hd hx
  obtain ⟨hl, he⟩ := hg x hx
  exact ⟨hl.trans (if_neg hd).symm, he.trans (if_neg hd).symm⟩

theorem delete_delete_within (hg : g.Closed) (a b : α) :
    ((g.delete a).delete b).Within ((g.delete b).delete a) := by
  have hclosed := (hg.delete a).delete b
  have hpart : ((g.delete a).delete b).Within g := (delete_within _ b).trans (delete_within g a)
  have hb : b ∉ ((g.delete a).delete b).elements := not_mem_delete _ b
  have ha : a ∉ ((g.delete a).delete b).elements :=
    fun h => not_mem_delete g a ((delete_within _ b).mem h)
  exact within_delete hclosed (within_delete hclosed hpart hb) ha

theorem delete_comm (hg : g.Closed) (a b : α) : (g.delete a).delete b = (g.delete b).delete a :=
  Within.antisymm ((hg.delete a).delete b) ((hg.delete b).delete a) (delete_delete_within hg a b)
    (delete_delete_within hg b a)

/-- Nothing depends on what is no element. -/
theorem delete_not_mem (hg : g.Closed) (ha : a ∉ g.elements) : g.delete a = g :=
  Within.antisymm (hg.delete a) hg (delete_within g a) (within_delete hg (fun _ _ => ⟨rfl, rfl⟩) ha)

open Classical in
/-- The elements of a set are deleted, each with what depends on it. -/
noncomputable def deleteAll (g : ElementGraph α β) (S : Set α) : ElementGraph α β where
  label x := if ∃ a ∈ S, g.Dependent a x then none else g.label x
  ends x := if ∃ a ∈ S, g.Dependent a x then none else g.ends x

variable {S : Set α}

theorem mem_deleteAll :
    x ∈ (g.deleteAll S).elements ↔ x ∈ g.elements ∧ ∀ a ∈ S, ¬ g.Dependent a x := by
  simp only [mem_elements, deleteAll]
  split_ifs with hd
  · obtain ⟨a, ha, hax⟩ := hd
    exact iff_of_false (fun h => h rfl) (fun h => h.2 a ha hax)
  · push Not at hd
    exact (and_iff_left hd).symm

theorem deleteAll_within (g : ElementGraph α β) (S : Set α) : (g.deleteAll S).Within g := by
  intro x hx
  have hd := (mem_deleteAll.mp hx).2
  have hd' : ¬ ∃ a ∈ S, g.Dependent a x := by
    push Not
    exact hd
  exact ⟨if_neg hd', if_neg hd'⟩

theorem Closed.deleteAll (hg : g.Closed) (S : Set α) : (g.deleteAll S).Closed := by
  intro x p hp
  have hd : ¬ ∃ a ∈ S, g.Dependent a x := by
    intro hd
    simp [ElementGraph.deleteAll, hd] at hp
  have hp' : g.ends x = some p := by
    simpa only [ElementGraph.deleteAll, hd, if_false] using hp
  push Not at hd
  obtain ⟨hx, hb, he⟩ := hg x p hp'
  refine ⟨mem_deleteAll.mpr ⟨hx, hd⟩, mem_deleteAll.mpr ⟨hb, ?_⟩, mem_deleteAll.mpr ⟨he, ?_⟩⟩
  · intro a ha hab
    exact hd a ha (.arc x p.1 hab ⟨p, hp', Or.inl rfl⟩)
  · intro a ha hae
    exact hd a ha (.arc x p.2 hae ⟨p, hp', Or.inr rfl⟩)

theorem within_deleteAll (hh : h.Closed) (hg : h.Within g) (hS : ∀ a ∈ S, a ∉ h.elements) :
    h.Within (g.deleteAll S) := by
  intro x hx
  have hd : ¬ ∃ a ∈ S, g.Dependent a x := by
    push Not
    exact fun a ha hax => hg.not_mem hh (hS a ha) hax hx
  obtain ⟨hl, he⟩ := hg x hx
  exact ⟨hl.trans (if_neg hd).symm, he.trans (if_neg hd).symm⟩

theorem not_mem_deleteAll (ha : a ∈ S) : a ∉ (g.deleteAll S).elements :=
  fun h => (mem_deleteAll.mp h).2 a ha .refl

theorem deleteAll_empty (g : ElementGraph α β) : g.deleteAll ∅ = g := by
  ext1
  · funext x
    simp [deleteAll]
  · funext x
    simp [deleteAll]

/-- The elements of a set can be deleted one after the other. -/
theorem delete_deleteAll (hg : g.Closed) (a : α) (S : Set α) :
    (g.delete a).deleteAll S = g.deleteAll (insert a S) := by
  have hpart : ((g.delete a).deleteAll S).Within g :=
    (deleteAll_within _ S).trans (delete_within g a)
  apply Within.antisymm ((hg.delete a).deleteAll S) (hg.deleteAll _)
  · apply within_deleteAll ((hg.delete a).deleteAll S) hpart
    intro b hb
    rcases Set.mem_insert_iff.mp hb with rfl | hb
    · exact fun h => not_mem_delete g b ((deleteAll_within _ S).mem h)
    · exact not_mem_deleteAll hb
  · have hgone : a ∉ (g.deleteAll (insert a S)).elements :=
      not_mem_deleteAll (Set.mem_insert a S)
    apply within_deleteAll (hg.deleteAll _) (within_delete (hg.deleteAll _) (deleteAll_within g _) hgone)
    exact fun b hb => not_mem_deleteAll (Set.mem_insert_of_mem a hb)

end

section
variable {α β : Type*} [DecidableEq α] {g h : ElementGraph α β} {x y : α} {l : β}

/-- A new element, an arc if it is given two ends. -/
def put (g : ElementGraph α β) (x : α) (l : β) (p : Option (α × α)) : ElementGraph α β where
  label := Function.update g.label x (some l)
  ends := Function.update g.ends x p

def relabel (g : ElementGraph α β) (x : α) (l : β) : ElementGraph α β where
  label := Function.update g.label x (some l)
  ends := g.ends

theorem mem_put {p : Option (α × α)} : y ∈ (g.put x l p).elements ↔ y = x ∨ y ∈ g.elements := by
  simp only [mem_elements, put, Function.update_apply]
  split_ifs with hy
  · simp [hy]
  · simp [hy]

theorem Closed.put (hg : g.Closed) {p : Option (α × α)}
    (hp : ∀ q, p = some q → q.1 ∈ g.elements ∧ q.2 ∈ g.elements) : (g.put x l p).Closed := by
  intro y q hq
  simp only [mem_put]
  simp only [ElementGraph.put, Function.update_apply] at hq
  split_ifs at hq with hy
  · obtain ⟨hb, he⟩ := hp q hq
    exact ⟨Or.inl hy, Or.inr hb, Or.inr he⟩
  · obtain ⟨hy', hb, he⟩ := hg y q hq
    exact ⟨Or.inr hy', Or.inr hb, Or.inr he⟩

theorem eq_put {p : Option (α × α)} (hl : h.label x = some l) (he : h.ends x = p)
    (ho : ∀ y, y ≠ x → h.label y = g.label y ∧ h.ends y = g.ends y) : h = g.put x l p := by
  ext1
  · exact Function.eq_update_iff.mpr ⟨hl, fun y hy => (ho y hy).1⟩
  · exact Function.eq_update_iff.mpr ⟨he, fun y hy => (ho y hy).2⟩

theorem eq_relabel (hl : h.label x = some l) (he : h.ends x = g.ends x)
    (ho : ∀ y, y ≠ x → h.label y = g.label y ∧ h.ends y = g.ends y) : h = g.relabel x l := by
  ext1
  · exact Function.eq_update_iff.mpr ⟨hl, fun y hy => (ho y hy).1⟩
  · funext y
    by_cases hy : y = x
    · rw [hy]
      exact he
    · exact (ho y hy).2

theorem within_put (hx : x ∉ g.elements) (l : β) (p : Option (α × α)) : g.Within (g.put x l p) := by
  intro y hy
  have hne : y ≠ x := fun he => hx (he ▸ hy)
  exact ⟨(Function.update_of_ne hne _ _).symm, (Function.update_of_ne hne _ _).symm⟩

theorem relabel_self (hx : g.label x = some l) : g.relabel x l = g :=
  (eq_relabel hx rfl fun _ _ => ⟨rfl, rfl⟩).symm

/-- Nothing depends on a new element. -/
theorem put_dependent (hg : g.Closed) (hx : x ∉ g.elements) {p : Option (α × α)}
    (hp : ∀ q, p = some q → q.1 ∈ g.elements ∧ q.2 ∈ g.elements)
    (hd : (g.put x l p).Dependent x y) : y = x := by
  induction hd with
  | refl => rfl
  | arc z y _ hzy ih =>
    subst ih
    obtain ⟨q, hq, hend⟩ := hzy
    simp only [put, Function.update_apply] at hq
    have hold : q.1 ∈ g.elements ∧ q.2 ∈ g.elements := by
      split_ifs at hq with hz
      · exact hp q hq
      · exact (hg z q hq).2
    rcases hend with he | he
    · exact absurd (he ▸ hold.1) hx
    · exact absurd (he ▸ hold.2) hx

/-- A new element is deleted again without a trace. -/
theorem put_delete (hg : g.Closed) (hx : x ∉ g.elements) {p : Option (α × α)}
    (hp : ∀ q, p = some q → q.1 ∈ g.elements ∧ q.2 ∈ g.elements) :
    (g.put x l p).delete x = g := by
  have hpart := within_put hx l p
  have hclosed := hg.put (x := x) (l := l) hp
  apply Within.antisymm (hclosed.delete x) hg _ (within_delete hg hpart hx)
  intro y hy
  obtain ⟨hmem, hd⟩ := mem_delete.mp hy
  have hne : y ≠ x := fun he => hd (he ▸ .refl)
  obtain ⟨hl, he⟩ := delete_within _ x y hy
  exact ⟨hl.trans (Function.update_of_ne hne _ _), he.trans (Function.update_of_ne hne _ _)⟩

end

end ElementGraph

end ScMachine.GraphMemory
