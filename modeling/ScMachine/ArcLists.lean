import ScMachine.DoublyLinked
import ScMachine.ElementFree

/-! The arc lists of the store: every arc is in the list of its begin and in the list of its end,
and both lists thread exactly the live arcs. -/
namespace ScMachine.Store
open ScMachine.DoublyLinked

/-- The element array of a store. -/
abbrev Cells := ScAddr → ScElement

def Live (c : Cells) (a : ScAddr) : Prop := scElementIsValid (c a) = true

def LiveArc (c : Cells) (x : ScAddr) : Prop := Live c x ∧ (c x).isArc = true

def nextOf (c : Cells) (d : Dir) (x : ScAddr) : ScAddr := (c x).arc d.next

def prevOf (c : Cells) (d : Dir) (x : ScAddr) : ScAddr := (c x).arc d.prev

/-- The begin of an arc for `.out`, its end for `.inp`. -/
def ownerOf (c : Cells) (d : Dir) (x : ScAddr) : ScAddr := (c x).arc d.owner

/-- The walk along the list of `a`. -/
def arcList (c : Cells) (d : Dir) (a : ScAddr) : List ScAddr :=
  walk (nextOf c d) ScAddr.empty walkFuel ((c a).first d)

/-- The list `l` of `a`: it starts at the first arc of `a`, it is linked in both directions, and
it has exactly the live arcs with `a` as their begin (end). -/
structure ArcChain (c : Cells) (d : Dir) (a : ScAddr) (l : List ScAddr) : Prop where
  nodup : l.Nodup
  mem : ∀ x, x ∈ l ↔ LiveArc c x ∧ ownerOf c d x = a
  linked : Linked (nextOf c d) (prevOf c d) ScAddr.empty ScAddr.empty l
  first : (c a).first d = l.headD ScAddr.empty

structure ArcsOk (c : Cells) : Prop where
  notEmpty : ¬ Live c ScAddr.empty
  endpoint : ∀ x d, LiveArc c x → Live c (ownerOf c d x)
  chain : ∀ a d, Live c a → ∃ l, ArcChain c d a l

section
variable {c c' : Cells} {d : Dir} {a x : ScAddr} {l : List ScAddr}

theorem ArcChain.arcList_eq (h : ArcChain c d a l) : arcList c d a = l := by
  have hlen := length_le_of_nodup_addrs l h.nodup
  unfold arcList
  rw [h.first]
  exact h.linked.walk_eq walkFuel (le_trans hlen (by norm_num [walkFuel]))

theorem ArcsOk.arcList (h : ArcsOk c) (ha : Live c a) : ArcChain c d a (arcList c d a) := by
  obtain ⟨l, hl⟩ := h.chain a d ha
  rw [hl.arcList_eq]
  exact hl

/-- Only liveness, the class and the fields of the lists matter. -/
theorem ArcsOk.congr (h : ArcsOk c) (hlive : ∀ y, Live c' y ↔ Live c y)
    (harc : ∀ y, Live c y → (c' y).isArc = (c y).isArc)
    (hfirst : ∀ y d, Live c y → (c' y).first d = (c y).first d)
    (hfield : ∀ y f, LiveArc c y → (c' y).arc f = (c y).arc f) : ArcsOk c' := by
  have hla (y : ScAddr) : LiveArc c' y ↔ LiveArc c y := by
    unfold LiveArc
    rw [hlive]
    constructor
    · rintro ⟨hy, hy'⟩
      exact ⟨hy, by rwa [harc y hy] at hy'⟩
    · rintro ⟨hy, hy'⟩
      exact ⟨hy, by rwa [harc y hy]⟩
  refine ⟨?_, ?_, ?_⟩
  · rw [hlive]
    exact h.notEmpty
  · intro x d hx
    rw [hla] at hx
    rw [hlive, ownerOf, hfield x d.owner hx]
    exact h.endpoint x d hx
  · intro a d ha
    rw [hlive] at ha
    obtain ⟨l, hl⟩ := h.chain a d ha
    refine ⟨l, hl.nodup, ?_, ?_, ?_⟩
    · intro x
      rw [hl.mem, hla]
      constructor
      · rintro ⟨hx, ho⟩
        exact ⟨hx, by rw [ownerOf, hfield x d.owner hx]; exact ho⟩
      · rintro ⟨hx, ho⟩
        exact ⟨hx, by rw [ownerOf, hfield x d.owner hx] at ho; exact ho⟩
    · refine hl.linked.congr fun x hx => ?_
      have hx' := ((hl.mem x).mp hx).1
      exact ⟨hfield x d.next hx', hfield x d.prev hx'⟩
    · rw [hfirst a d ha, hl.first]

/-- A new element without arcs. -/
theorem ArcsOk.addElement (h : ArcsOk c) (hx : ¬ Live c x) (hne : x ≠ ScAddr.empty)
    (hother : ∀ y, y ≠ x → c' y = c y) (harc : (c' x).isArc = false)
    (hfirst : ∀ d, (c' x).first d = ScAddr.empty) : ArcsOk c' := by
  have hlive (y : ScAddr) (hy : y ≠ x) : Live c' y ↔ Live c y := by
    unfold Live
    rw [hother y hy]
  have hla (y : ScAddr) : LiveArc c' y ↔ LiveArc c y := by
    by_cases hy : y = x
    · subst hy
      constructor
      · rintro ⟨_, h'⟩
        rw [harc] at h'
        simp at h'
      · intro h'
        exact absurd h'.1 hx
    · unfold LiveArc
      rw [hlive y hy, hother y hy]
  have hmem (y : ScAddr) (hy : LiveArc c y) : c' y = c y := by
    refine hother y ?_
    rintro rfl
    exact hx hy.1
  refine ⟨?_, ?_, ?_⟩
  · rw [hlive _ (Ne.symm hne)]
    exact h.notEmpty
  · intro y d hy
    rw [hla] at hy
    have ho := h.endpoint y d hy
    unfold ownerOf
    rw [hmem y hy]
    rw [hlive _ ?_]
    · exact ho
    · rintro he
      unfold ownerOf at ho
      rw [he] at ho
      exact hx ho
  · intro a d ha
    by_cases hax : a = x
    · subst hax
      refine ⟨[], List.nodup_nil, ?_, trivial, hfirst d⟩
      intro y
      simp only [List.not_mem_nil, false_iff, not_and]
      intro hy ho
      rw [hla] at hy
      have hlo := h.endpoint y d hy
      unfold ownerOf at ho hlo
      rw [hmem y hy] at ho
      rw [ho] at hlo
      exact hx hlo
    · rw [hlive a hax] at ha
      obtain ⟨l, hl⟩ := h.chain a d ha
      refine ⟨l, hl.nodup, ?_, ?_, ?_⟩
      · intro y
        rw [hl.mem, hla]
        constructor
        · rintro ⟨hy, ho⟩
          exact ⟨hy, by unfold ownerOf; rw [hmem y hy]; exact ho⟩
        · rintro ⟨hy, ho⟩
          exact ⟨hy, by unfold ownerOf at ho; rw [hmem y hy] at ho; exact ho⟩
      · refine hl.linked.congr fun y hy => ?_
        have hy' := hmem y ((hl.mem y).mp hy).1
        unfold nextOf prevOf
        rw [hy']
        exact ⟨rfl, rfl⟩
      · rw [hother a hax, hl.first]

/-- `c'` is `c` with a new arc `x` at the head of the list of `ends .out` and of that of
`ends .inp`. -/
structure ArcAdded (c c' : Cells) (x : ScAddr) (ends : Dir → ScAddr) : Prop where
  type : ∀ y, y ≠ x → (c' y).type = (c y).type
  arc : LiveArc c' x
  owner : ∀ d y, ownerOf c' d y = if y = x then ends d else ownerOf c d y
  next : ∀ d y, nextOf c' d y = if y = x then (c (ends d)).first d else nextOf c d y
  prev : ∀ d y, y ≠ ScAddr.empty → prevOf c' d y =
    if y = x then ScAddr.empty else if y = (c (ends d)).first d then x else prevOf c d y
  first : ∀ d y, (c' y).first d = if y = ends d then x else (c y).first d

section
variable {ends : Dir → ScAddr} (h : ArcsOk c) (hx : ¬ Live c x) (hne : x ≠ ScAddr.empty)
  (hends : ∀ d, Live c (ends d)) (hadd : ArcAdded c c' x ends)
include hadd

theorem ArcAdded.live (y : ScAddr) (hy : y ≠ x) : Live c' y ↔ Live c y := by
  unfold Live scElementIsValid scElementIsRequestDeletion
  rw [hadd.type y hy]

theorem ArcAdded.liveArc (y : ScAddr) : LiveArc c' y ↔ y = x ∨ LiveArc c y := by
  by_cases hy : y = x
  · subst hy
    exact ⟨fun _ => Or.inl rfl, fun _ => hadd.arc⟩
  · unfold LiveArc ScElement.isArc
    rw [hadd.live y hy, hadd.type y hy]
    simp [hy]

include h hx hne hends

/-- The new arc comes first in the lists of its ends. -/
theorem ArcAdded.arcChain (hl : ArcChain c d a l) :
    ArcChain c' d a (if a = ends d then x :: l else l) := by
  have hla := hadd.liveArc
  have hnex (y : ScAddr) (hy : LiveArc c y) : y ≠ x := fun he => hx (he ▸ hy.1)
  have hlx (y : ScAddr) (hy : y ∈ l) : y ≠ x := hnex y ((hl.mem y).mp hy).1
  have hln (y : ScAddr) (hy : y ∈ l) : y ≠ ScAddr.empty := hl.linked.ne_nil hy
  have hnext (y : ScAddr) (hy : y ∈ l) : nextOf c' d y = nextOf c d y := by
    rw [hadd.next, if_neg (hlx y hy)]
  split_ifs with hend
  · refine ⟨List.nodup_cons.mpr ⟨fun hxl => hlx x hxl rfl, hl.nodup⟩, ?_, ?_, ?_⟩
    · intro y
      rw [List.mem_cons, hl.mem, hadd.owner, hla]
      by_cases hyx : y = x
      · simp [hyx, hend]
      · simp [hyx]
    · refine hl.linked.push hl.nodup hne ?_ ?_ hnext ?_
      · rw [hadd.next, if_pos rfl, ← hend, hl.first]
      · rw [hadd.prev d x hne, if_pos rfl]
      · intro y hy
        rw [hadd.prev d y (hln y hy), if_neg (hlx y hy), ← hend, hl.first]
    · rw [hadd.first, if_pos hend]
      rfl
  · refine ⟨hl.nodup, ?_, ?_, ?_⟩
    · intro y
      rw [hl.mem, hadd.owner, hla]
      by_cases hyx : y = x
      · have hno : ¬ LiveArc c y := fun hy => hnex y hy hyx
        simp [hyx, Ne.symm hend, hyx ▸ hno]
      · simp [hyx]
    · refine hl.linked.congr fun y hy => ⟨hnext y hy, ?_⟩
      rw [hadd.prev d y (hln y hy), if_neg (hlx y hy), if_neg]
      -- the head of another list has another owner
      intro hyf
      obtain ⟨l', hl'⟩ := h.chain (ends d) d (hends d)
      rw [hl'.first] at hyf
      cases l' with
      | nil => exact hln y hy hyf
      | cons z zs =>
        have hz := ((hl'.mem z).mp List.mem_cons_self).2
        have hya := ((hl.mem y).mp hy).2
        rw [List.headD_cons] at hyf
        rw [← hyf, hya] at hz
        exact hend hz
    · rw [hadd.first, if_neg hend, hl.first]

theorem ArcsOk.addArc (hfirst : ∀ d, (c x).first d = ScAddr.empty) : ArcsOk c' := by
  have hlive := hadd.live
  have hla := hadd.liveArc
  have hxend (d : Dir) : x ≠ ends d := fun he => hx (he ▸ hends d)
  have hnex (y : ScAddr) (hy : LiveArc c y) : y ≠ x := fun he => hx (he ▸ hy.1)
  refine ⟨?_, ?_, ?_⟩
  · rw [hlive _ (Ne.symm hne)]
    exact h.notEmpty
  · intro y d hy
    rw [hadd.owner]
    rcases (hla y).mp hy with rfl | hy
    · rw [if_pos rfl, hlive _ (Ne.symm (hxend d))]
      exact hends d
    · rw [if_neg (hnex y hy)]
      have ho := h.endpoint y d hy
      rw [hlive]
      · exact ho
      · intro he
        exact hx (he ▸ ho)
  · intro a d ha
    by_cases hax : a = x
    · -- the new arc has no arcs of its own
      subst hax
      refine ⟨[], List.nodup_nil, ?_, trivial, ?_⟩
      · intro y
        simp only [List.not_mem_nil, false_iff, not_and]
        intro hy
        rw [hadd.owner]
        rcases (hla y).mp hy with rfl | hy
        · rw [if_pos rfl]
          exact Ne.symm (hxend d)
        · rw [if_neg (hnex y hy)]
          intro ho
          exact hx (ho ▸ h.endpoint y d hy)
      · rw [hadd.first, if_neg (hxend d), hfirst]
        rfl
    · rw [hlive a hax] at ha
      obtain ⟨l, hl⟩ := h.chain a d ha
      exact ⟨_, hadd.arcChain h hx hne hends hl⟩

end

end

end ScMachine.Store
