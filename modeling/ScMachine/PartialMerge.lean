import Mathlib

/-! Merges that can fail, one label after another. When two merges commute and a repeated one
changes nothing, the outcome of a list of them depends on the set of its labels alone. -/
namespace ScMachine.PartialMerge

section
variable {α κ : Type*} {merge : α → κ → Option α} {P : α → Prop} {K : κ → Prop}

/-- The values of `P` are closed under merging labels of `K`, any two of which commute, and a
label that has been merged can be merged again without effect. -/
structure Consistent (merge : α → κ → Option α) (P : α → Prop) (K : κ → Prop) : Prop where
  keeps : ∀ a k b, P a → K k → merge a k = some b → P b
  comm : ∀ a k k', P a → K k → K k' →
    ((merge a k).bind fun b => merge b k') = (merge a k').bind fun b => merge b k
  idem : ∀ a k b, P a → K k → merge a k = some b → merge b k = some b

/-- The labels of a list, merged from left to right. -/
def mergeAll (merge : α → κ → Option α) (a : α) : List κ → Option α
  | [] => some a
  | k :: l => (merge a k).bind fun b => mergeAll merge b l

theorem mergeAll_append (a : α) (l l' : List κ) :
    mergeAll merge a (l ++ l') = (mergeAll merge a l).bind fun b => mergeAll merge b l' := by
  induction l generalizing a with
  | nil => rfl
  | cons k l ih =>
    simp only [List.cons_append, mergeAll]
    cases merge a k with
    | none => rfl
    | some b => exact ih b

variable (h : Consistent merge P K)
include h

theorem mergeAll_perm (l l' : List κ) (hp : l.Perm l') (a : α) (ha : P a) (hl : ∀ k ∈ l, K k) :
    mergeAll merge a l = mergeAll merge a l' := by
  induction hp generalizing a with
  | nil => rfl
  | cons k hp ih =>
    simp only [mergeAll]
    cases hc : merge a k with
    | none => rfl
    | some c =>
      exact ih c (h.keeps a k c ha (hl k List.mem_cons_self) hc)
        (fun x hx => hl x (List.mem_cons_of_mem k hx))
  | swap k k' l =>
    have hcomm := h.comm a k k' ha (hl k (by simp)) (hl k' (by simp))
    simp only [mergeAll, ← Option.bind_assoc]
    rw [hcomm]
  | trans hp hp' ih ih' =>
    rw [ih a ha hl]
    exact ih' a ha (fun k hk => hl k (hp.mem_iff.mpr hk))

/-- What a value has absorbed, everything merged into it later has absorbed too. -/
theorem mergeAll_absorbed (a b : α) (k : κ) (l : List κ) (ha : P a) (hk : K k)
    (hl : ∀ k ∈ l, K k) (habs : merge a k = some a) (hm : mergeAll merge a l = some b) :
    merge b k = some b := by
  induction l generalizing a with
  | nil => exact Option.some.inj hm ▸ habs
  | cons x l ih =>
    obtain ⟨c, hc, hrest⟩ := Option.bind_eq_some_iff.mp hm
    have hx := hl x List.mem_cons_self
    have hcomm := h.comm a k x ha hk hx
    rw [habs, hc] at hcomm
    have habs' : merge c k = some c := hcomm.symm.trans hc
    exact ih c (h.keeps a x c ha hx hc) (fun y hy => hl y (List.mem_cons_of_mem x hy)) habs' hrest

theorem mergeAll_mem (a b : α) (k : κ) (l : List κ) (ha : P a) (hl : ∀ k ∈ l, K k)
    (hm : mergeAll merge a l = some b) (hk : k ∈ l) : merge b k = some b := by
  induction l generalizing a with
  | nil => cases hk
  | cons x l ih =>
    obtain ⟨c, hc, hrest⟩ := Option.bind_eq_some_iff.mp hm
    have hx := hl x List.mem_cons_self
    have hc' := h.keeps a x c ha hx hc
    have htail : ∀ y ∈ l, K y := fun y hy => hl y (List.mem_cons_of_mem x hy)
    obtain rfl | hkl := List.mem_cons.mp hk
    · exact mergeAll_absorbed h c b k l hc' hx htail (h.idem a k c ha hx hc) hrest
    · exact ih c hc' htail hrest hkl

theorem mergeAll_append_of_subset (a : α) (l l' : List κ) (ha : P a) (hl : ∀ k ∈ l, K k)
    (hsub : ∀ k ∈ l', k ∈ l) : mergeAll merge a (l ++ l') = mergeAll merge a l := by
  rw [mergeAll_append]
  cases hb : mergeAll merge a l with
  | none => rfl
  | some b =>
    have habs : ∀ k ∈ l', merge b k = some b := fun k hk =>
      mergeAll_mem h a b k l ha hl hb (hsub k hk)
    clear hsub
    induction l' with
    | nil => rfl
    | cons k l' ih =>
      rw [Option.bind_some, mergeAll, habs k List.mem_cons_self]
      exact ih (fun x hx => habs x (List.mem_cons_of_mem k hx))

/-- The outcome depends on the set of labels alone. -/
theorem mergeAll_congr (a : α) (l l' : List κ) (ha : P a) (hl : ∀ k ∈ l, K k)
    (hset : ∀ k, k ∈ l ↔ k ∈ l') : mergeAll merge a l = mergeAll merge a l' := by
  have hl' : ∀ k ∈ l', K k := fun k hk => hl k ((hset k).mpr hk)
  calc mergeAll merge a l = mergeAll merge a (l ++ l') :=
        (mergeAll_append_of_subset h a l l' ha hl (fun k => (hset k).mpr)).symm
    _ = mergeAll merge a (l' ++ l) := by
        apply mergeAll_perm h _ _ List.perm_append_comm a ha
        intro k hk
        exact (List.mem_append.mp hk).elim (hl k) (hl' k)
    _ = mergeAll merge a l' := mergeAll_append_of_subset h a l' l ha hl' (fun k => (hset k).mp)

end

end ScMachine.PartialMerge
