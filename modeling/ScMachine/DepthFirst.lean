import Mathlib.Data.Finset.Card
import Mathlib.Data.List.Nodup
import Mathlib.Logic.Relation

/-! Depth-first walks through arcs that may be elements themselves. -/
namespace ScMachine.DepthFirst

/-- The arcs with their ends; an end may be an arc. -/
structure ArcGraph (α : Type) where
  arcs : List α
  source : α → α
  target : α → α

namespace ArcGraph
variable {α : Type} (g : ArcGraph α)

def Joins (e u w : α) : Prop := (g.source e = u ∧ g.target e = w) ∨ (g.source e = w ∧ g.target e = u)

/-- There is a way through arcs of `S`. -/
def Linked (S : Set α) : α → α → Prop := Relation.ReflTransGen fun u w => ∃ e ∈ g.arcs, e ∈ S ∧ g.Joins e u w

def Reached (keys : List α) (v : α) : Prop := ∃ k ∈ keys, g.Linked Set.univ k v

/-- The arc can be come to. -/
def Connected (keys : List α) (e : α) : Prop := e ∈ g.arcs ∧ g.Reached keys (g.source e)

/-- No arc that can be come to lies on a cycle. -/
def NoCycle (keys : List α) : Prop :=
  ∀ e, g.Connected keys e → ¬ g.Linked {f | f ≠ e} (g.source e) (g.target e)

variable [DecidableEq α]

/-- The arcs out of an element and those into it; a loop is there twice. -/
def arcsAt (v : α) : List α :=
  g.arcs.filter (fun e => g.source e = v) ++ g.arcs.filter fun e => g.target e = v

/-- The end of the arc that is not `v`. -/
def other (e v : α) : α := if v = g.target e then g.source e else g.target e

end ArcGraph

section
variable {α : Type} {g : ArcGraph α} {e u v w : α} {S S' : Set α} {keys : List α}

theorem joins_symm (h : g.Joins e u w) : g.Joins e w u := Or.symm h

theorem joins_ends (e : α) : g.Joins e (g.source e) (g.target e) := Or.inl ⟨rfl, rfl⟩

theorem linked_symm (h : g.Linked S u w) : g.Linked S w u := by
  induction h with
  | refl => exact Relation.ReflTransGen.refl
  | tail _ hstep ih =>
    obtain ⟨e, harc, hin, hjoins⟩ := hstep
    exact Relation.ReflTransGen.head ⟨e, harc, hin, joins_symm hjoins⟩ ih

theorem linked_mono (hsub : S ⊆ S') (h : g.Linked S u w) : g.Linked S' u w := by
  induction h with
  | refl => exact Relation.ReflTransGen.refl
  | tail _ hstep ih =>
    obtain ⟨e, harc, hin, hjoins⟩ := hstep
    exact ih.tail ⟨e, harc, hsub hin, hjoins⟩

theorem reached_of_joins (h : g.Reached keys u) (harc : e ∈ g.arcs) (hjoins : g.Joins e u w) :
    g.Reached keys w := by
  obtain ⟨k, hk, hlinked⟩ := h
  exact ⟨k, hk, hlinked.tail ⟨e, harc, trivial, hjoins⟩⟩

/-- A way between the ends of an arc, whichever of them is named first. -/
theorem linked_ends (h : g.Joins e u w) (hlinked : g.Linked S u w) : g.Linked S (g.source e) (g.target e) := by
  rcases h with ⟨rfl, rfl⟩ | ⟨rfl, rfl⟩
  · exact hlinked
  · exact linked_symm hlinked

end

variable {α : Type} [DecidableEq α]

/-- What a walk has still to go to: an element, or the other end of an arc. -/
inductive Stop (α : Type) where
  | element (v : α)
  | arc (e v : α)

/-- The arcs at `v` that have no mark yet, when `v` is marked. -/
def fresh (g : ArcGraph α) (v : α) (marked : List α) : List α := (g.arcsAt v).filter fun e => e ∉ v :: marked

/-- Where the walk may come to `v`: the arcs there that are marked are those that have been met before, and
no other is met twice. -/
structure InOrder (g : ArcGraph α) (v : α) (marked met : List α) : Prop where
  marked_iff : ∀ e ∈ g.arcsAt v, e ∈ v :: marked ↔ e ∈ met
  once : (fresh g v marked).Nodup

/-- The depth-first walk comes to every element in order. An arc is met at the first of its ends, and marked
when it is its turn; an element is marked when it is come to. -/
inductive Orderly (g : ArcGraph α) : List (Stop α) → List α → List α → Prop
  | done (marked met : List α) : Orderly g [] marked met
  | element {v : α} {rest : List (Stop α)} {marked met : List α} (horder : InOrder g v marked met)
      (hnext : Orderly g ((fresh g v marked).map (Stop.arc · v) ++ rest) (v :: marked) (fresh g v marked ++ met)) :
      Orderly g (.element v :: rest) marked met
  | arc {e v : α} {rest : List (Stop α)} {marked met : List α}
      (hnext : Orderly g (.element (g.other e v) :: rest) (e :: marked) met) :
      Orderly g (.arc e v :: rest) marked met

section
variable {g : ArcGraph α} {e u v w x : α} {S S' : Set α} {keys : List α}

theorem mem_arcsAt : e ∈ g.arcsAt v ↔ e ∈ g.arcs ∧ (g.source e = v ∨ g.target e = v) := by
  unfold ArcGraph.arcsAt
  rw [List.mem_append, List.mem_filter, List.mem_filter]
  simp only [decide_eq_true_eq]
  exact and_or_left.symm

theorem joins_other (h : e ∈ g.arcsAt v) : g.Joins e v (g.other e v) := by
  unfold ArcGraph.other
  obtain ⟨_, hend⟩ := mem_arcsAt.mp h
  by_cases htarget : v = g.target e
  · rw [if_pos htarget]
    exact Or.inr ⟨rfl, htarget.symm⟩
  · rw [if_neg htarget]
    exact Or.inl ⟨hend.resolve_right fun hno => htarget hno.symm, rfl⟩

theorem mem_arcsAt_of_joins (harc : e ∈ g.arcs) (h : g.Joins e u w) : e ∈ g.arcsAt u := by
  refine mem_arcsAt.mpr ⟨harc, ?_⟩
  rcases h with ⟨hu, _⟩ | ⟨_, hu⟩
  · exact Or.inl hu
  · exact Or.inr hu

theorem connected_of_arcsAt (h : g.Reached keys v) (he : e ∈ g.arcsAt v) : g.Connected keys e := by
  obtain ⟨harc, hend⟩ := mem_arcsAt.mp he
  refine ⟨harc, ?_⟩
  rcases hend with rfl | htarget
  · exact h
  · exact reached_of_joins h harc (Or.inr ⟨rfl, htarget⟩)

/-- No arc of `S` ends at `x`. -/
def Untouched (g : ArcGraph α) (S : Set α) (x : α) : Prop := ∀ e ∈ S, e ∉ g.arcsAt x

theorem untouched_linked (h : Untouched g S x) (hlinked : g.Linked S x w) : w = x := by
  induction hlinked with
  | refl => rfl
  | tail _ hstep ih =>
    obtain ⟨e, harc, hin, hjoins⟩ := hstep
    subst ih
    exact absurd (mem_arcsAt_of_joins harc hjoins) (h e hin)

/-- An arc to an element that nothing else ends at is of no use on the way between others. -/
theorem linked_without_leaf (h : Untouched g S x) (hjoins : g.Joins e v x) (hvx : v ≠ x) (hu : u ≠ x)
    (hlinked : g.Linked (insert e S) u w) : (w ≠ x → g.Linked S u w) ∧ (w = x → g.Linked S u v) := by
  induction hlinked with
  | refl => exact ⟨fun _ => Relation.ReflTransGen.refl, fun hno => absurd hno hu⟩
  | @tail b c _ hstep ih =>
    obtain ⟨f, harc, hin, hjf⟩ := hstep
    rcases hin with rfl | hin
    · -- the arc itself: it is from `v` to `x`, or back
      have hends : (b = v ∧ c = x) ∨ (b = x ∧ c = v) := by
        rcases hjoins with ⟨h1, h2⟩ | ⟨h1, h2⟩ <;> rcases hjf with ⟨h3, h4⟩ | ⟨h3, h4⟩
        · exact Or.inl ⟨h3.symm.trans h1, h4.symm.trans h2⟩
        · exact Or.inr ⟨h4.symm.trans h2, h3.symm.trans h1⟩
        · exact Or.inr ⟨h3.symm.trans h1, h4.symm.trans h2⟩
        · exact Or.inl ⟨h4.symm.trans h2, h3.symm.trans h1⟩
      rcases hends with ⟨rfl, rfl⟩ | ⟨rfl, rfl⟩
      · exact ⟨fun hno => absurd rfl hno, fun _ => ih.1 hvx⟩
      · exact ⟨fun _ => ih.2 rfl, fun hno => absurd hno hvx⟩
    · have hb : b ≠ x := fun hno => h f hin (mem_arcsAt_of_joins harc (hno ▸ hjf))
      have hc : c ≠ x := fun hno => h f hin (mem_arcsAt_of_joins harc (hno ▸ joins_symm hjf))
      exact ⟨fun _ => (ih.1 hb).tail ⟨f, harc, hin, hjf⟩, fun hno => absurd hno hc⟩

end

/-- Where a walk is: the element it is at, the arcs that wait for their turn, each with the end they have been
met at, the elements it begins with that are left, and what has been marked and met. -/
structure Place (α : Type) where
  top : Option α
  waiting : List (α × α)
  roots : List α
  marked : List α
  met : List α

def Place.agenda (p : Place α) : List (Stop α) :=
  p.top.toList.map .element ++ (p.waiting.map (fun q => .arc q.1 q.2) ++ p.roots.map .element)

/-- What holds all along a walk in order, where no arc that can be come to is an element to come to: `built` are
the elements that have been come to, and `turned` the arcs that have had their turn. -/
structure Tidy (g : ArcGraph α) (keys : List α) (built turned : Set α) (p : Place α) : Prop where
  met_iff : ∀ e, e ∈ p.met ↔ e ∈ turned ∨ ∃ v, (e, v) ∈ p.waiting
  turned_marked : ∀ e ∈ turned, e ∈ p.marked
  marked_turned : ∀ e ∈ p.marked, g.Connected keys e → e ∈ turned
  waiting_turned : ∀ e v, (e, v) ∈ p.waiting → e ∉ turned
  waiting_nodup : (p.waiting.map Prod.fst).Nodup
  waiting_built : ∀ e v, (e, v) ∈ p.waiting → v ∈ built ∧ e ∈ g.arcsAt v ∧ g.other e v ∉ built
  closed : ∀ v ∈ built, ∀ e ∈ g.arcsAt v, e ∈ p.met
  turned_ends : ∀ e ∈ turned, e ∈ g.arcs ∧ ∀ v, e ∈ g.arcsAt v → v ∈ built ∨ p.top = some v
  built_reached : ∀ v ∈ built, g.Reached keys v
  top_reached : ∀ v, p.top = some v → g.Reached keys v
  roots_keys : ∀ k ∈ p.roots, k ∈ keys
  keys_met : ∀ k ∈ keys, k ∈ built ∨ k ∈ p.roots ∨ p.top = some k
  waiting_linked : ∀ e v f w, (e, v) ∈ p.waiting → (f, w) ∈ p.waiting → g.Linked turned v w
  top_linked : ∀ e v w, (e, v) ∈ p.waiting → p.top = some w → g.Linked turned v w
  top_new : ∀ v, p.top = some v → p.waiting = [] ∨ v ∉ built
  forest : ∀ e ∈ turned, ¬ g.Linked (turned \ {e}) (g.source e) (g.target e)

section
variable {g : ArcGraph α} {keys : List α} {built turned : Set α} {p : Place α} {x : α}

theorem mem_fresh {e v : α} {marked : List α} : e ∈ fresh g v marked ↔ e ∈ g.arcsAt v ∧ e ∉ v :: marked := by
  unfold fresh
  rw [List.mem_filter, decide_eq_true_eq]

/-- Where there is no cycle the walk is in order. -/
theorem inOrder_of_noCycle (harcs : g.arcs.Nodup) (hapart : ∀ e, g.Connected keys e → ¬ g.Reached keys e)
    (hno : g.NoCycle keys) (h : Tidy g keys built turned p) (htop : p.top = some x) :
    InOrder g x p.marked p.met := by
  have hreached := h.top_reached x htop
  refine ⟨fun e he => ⟨fun hmarked => ?_, fun hmet => ?_⟩, ?_⟩
  · have hconn := connected_of_arcsAt hreached he
    rcases List.mem_cons.mp hmarked with rfl | hmarked
    · exact absurd hreached (hapart e hconn)
    · exact (h.met_iff e).mpr (Or.inl (h.marked_turned e hmarked hconn))
  · rcases (h.met_iff e).mp hmet with hturned | ⟨v, hwait⟩
    · exact List.mem_cons_of_mem _ (h.turned_marked e hturned)
    · -- an arc that waits would lead back to where it has been met
      exfalso
      obtain ⟨hbuilt, hat, _⟩ := h.waiting_built e v hwait
      have hnew : x ∉ built := (h.top_new x htop).resolve_left (List.ne_nil_of_mem hwait)
      have hjoins := joins_other hat
      have hx : g.other e v = x := by
        rcases hjoins with ⟨hs, ht⟩ | ⟨hs, ht⟩ <;> rcases (mem_arcsAt.mp he).2 with hx | hx
        · exact absurd (hs.symm.trans hx ▸ hbuilt) hnew
        · exact ht.symm.trans hx
        · exact hs.symm.trans hx
        · exact absurd (ht.symm.trans hx ▸ hbuilt) hnew
      rw [hx] at hjoins
      have hlinked := linked_mono (fun f (hf : f ∈ turned) (hfe : f = e) => h.waiting_turned e v hwait (hfe ▸ hf))
        (h.top_linked e v x hwait htop)
      exact hno e (connected_of_arcsAt hreached he) (linked_ends hjoins hlinked)
  · refine List.Nodup.filter _ (List.Nodup.append (harcs.filter _) (harcs.filter _) ?_)
    intro e hout hin
    obtain ⟨harc, hs⟩ := List.mem_filter.mp hout
    obtain ⟨_, ht⟩ := List.mem_filter.mp hin
    rw [decide_eq_true_eq] at hs ht
    have hconn : g.Connected keys e := ⟨harc, hs ▸ hreached⟩
    apply hno e hconn
    rw [hs, ht]
    exact Relation.ReflTransGen.refl

/-- An element is come to. -/
theorem Tidy.element (hapart : ∀ e, g.Connected keys e → ¬ g.Reached keys e)
    (h : Tidy g keys built turned p) (htop : p.top = some x) (horder : InOrder g x p.marked p.met) :
    Tidy g keys (insert x built) turned
      ⟨none, (fresh g x p.marked).map (fun e => (e, x)) ++ p.waiting, p.roots, x :: p.marked,
        fresh g x p.marked ++ p.met⟩ := by
  have hreached := h.top_reached x htop
  have hwaiting (e v : α) : (e, v) ∈ (fresh g x p.marked).map (fun e => (e, x)) ++ p.waiting ↔
      (e ∈ fresh g x p.marked ∧ v = x) ∨ (e, v) ∈ p.waiting := by
    rw [List.mem_append, List.mem_map]
    refine or_congr_left ⟨?_, ?_⟩
    · rintro ⟨e', he, hpair⟩
      cases hpair
      exact ⟨he, rfl⟩
    · rintro ⟨he, rfl⟩
      exact ⟨e, he, rfl⟩
  -- an arc at the element that has been met is marked, so that it does not wait
  have hfree (e v : α) (hwait : (e, v) ∈ p.waiting) : e ∉ g.arcsAt x := by
    intro he
    have hmet : e ∈ p.met := (h.met_iff e).mpr (Or.inr ⟨v, hwait⟩)
    have hconn := connected_of_arcsAt hreached he
    rcases List.mem_cons.mp ((horder.marked_iff e he).mpr hmet) with rfl | hmarked
    · exact hapart e hconn hreached
    · exact h.waiting_turned e v hwait (h.marked_turned e hmarked hconn)
  have hnew (e : α) (he : e ∈ fresh g x p.marked) : e ∉ p.met := by
    obtain ⟨hat, hunmarked⟩ := mem_fresh.mp he
    exact fun hmet => hunmarked ((horder.marked_iff e hat).mpr hmet)
  constructor
  · intro e
    simp only [List.mem_append, hwaiting]
    rw [h.met_iff e]
    constructor
    · rintro (hf | ht | ⟨v, hv⟩)
      · exact Or.inr ⟨x, Or.inl ⟨hf, rfl⟩⟩
      · exact Or.inl ht
      · exact Or.inr ⟨v, Or.inr hv⟩
    · rintro (ht | ⟨v, ⟨hf, _⟩ | hv⟩)
      · exact Or.inr (Or.inl ht)
      · exact Or.inl hf
      · exact Or.inr (Or.inr ⟨v, hv⟩)
  · exact fun e he => List.mem_cons_of_mem _ (h.turned_marked e he)
  · intro e he hconn
    rcases List.mem_cons.mp he with rfl | he
    · exact absurd hreached (hapart e hconn)
    · exact h.marked_turned e he hconn
  · intro e v hv hturned
    rcases (hwaiting e v).mp hv with ⟨hf, _⟩ | hv
    · exact hnew e hf ((h.met_iff e).mpr (Or.inl hturned))
    · exact h.waiting_turned e v hv hturned
  · simp only [List.map_append, List.map_map]
    have hfirst : (fresh g x p.marked).map (Prod.fst ∘ fun e => (e, x)) = fresh g x p.marked := List.map_id _
    rw [hfirst]
    refine List.Nodup.append horder.once h.waiting_nodup fun e hf hw => ?_
    obtain ⟨⟨e', v⟩, hv, rfl⟩ := List.mem_map.mp hw
    exact hnew e' hf ((h.met_iff e').mpr (Or.inr ⟨v, hv⟩))
  · intro e v hv
    rcases (hwaiting e v).mp hv with ⟨hf, rfl⟩ | hv
    · obtain ⟨hat, _⟩ := mem_fresh.mp hf
      refine ⟨Set.mem_insert _ _, hat, ?_⟩
      have hother := mem_arcsAt_of_joins (mem_arcsAt.mp hat).1 (joins_symm (joins_other hat))
      rintro (hloop | hbuilt)
      · -- a loop is met twice
        have hjoins := joins_other hat
        rw [hloop] at hjoins
        have hends : g.source e = v ∧ g.target e = v := by
          rcases hjoins with hends | hends
          · exact hends
          · exact hends
        have htwice := horder.once
        unfold fresh ArcGraph.arcsAt at htwice
        rw [List.filter_append] at htwice
        have hin (q : α → α) (hq : q e = v) :
            e ∈ (g.arcs.filter fun e => q e = v).filter fun e => e ∉ v :: p.marked := by
          rw [List.mem_filter, List.mem_filter]
          exact ⟨⟨(mem_arcsAt.mp hat).1, by simpa using hq⟩, by simpa using (mem_fresh.mp hf).2⟩
        exact (List.nodup_append.mp htwice).2.2 e (hin g.source hends.1) e (hin g.target hends.2) rfl
      · exact hnew e hf (h.closed _ hbuilt e hother)
    · obtain ⟨hb, hat, hother⟩ := h.waiting_built e v hv
      refine ⟨Set.mem_insert_of_mem _ hb, hat, ?_⟩
      rintro (he | hbuilt)
      · apply hfree e v hv
        have hat' := mem_arcsAt_of_joins (mem_arcsAt.mp hat).1 (joins_symm (joins_other hat))
        rwa [he] at hat'
      · exact hother hbuilt
  · rintro v (rfl | hv) e he
    · by_cases hmarked : e ∈ v :: p.marked
      · exact List.mem_append_right _ ((horder.marked_iff e he).mp hmarked)
      · exact List.mem_append_left _ (mem_fresh.mpr ⟨he, hmarked⟩)
    · exact List.mem_append_right _ (h.closed v hv e he)
  · intro e he
    obtain ⟨harc, hends⟩ := h.turned_ends e he
    refine ⟨harc, fun v hv => Or.inl ?_⟩
    rcases hends v hv with hb | ht
    · exact Set.mem_insert_of_mem _ hb
    · rw [htop] at ht
      cases ht
      exact Set.mem_insert _ _
  · rintro v (rfl | hv)
    · exact hreached
    · exact h.built_reached v hv
  · exact nofun
  · exact h.roots_keys
  · intro k hk
    rcases h.keys_met k hk with hb | hr | ht
    · exact Or.inl (Set.mem_insert_of_mem _ hb)
    · exact Or.inr (Or.inl hr)
    · rw [htop] at ht
      cases ht
      exact Or.inl (Set.mem_insert _ _)
  · intro e v f w hv hw
    rcases (hwaiting e v).mp hv with ⟨_, hvx⟩ | hv' <;> rcases (hwaiting f w).mp hw with ⟨_, hwx⟩ | hw'
    · rw [hvx, hwx]
      exact Relation.ReflTransGen.refl
    · rw [hvx]
      exact linked_symm (h.top_linked f w x hw' htop)
    · rw [hwx]
      exact h.top_linked e v x hv' htop
    · exact h.waiting_linked e v f w hv' hw'
  · exact nofun
  · exact nofun
  · exact h.forest

/-- It is the turn of the first arc that waits. -/
theorem Tidy.arc {e v : α} {rest : List (α × α)} (h : Tidy g keys built turned p) (htop : p.top = none)
    (hwait : p.waiting = (e, v) :: rest) :
    Tidy g keys built (insert e turned) ⟨some (g.other e v), rest, p.roots, e :: p.marked, p.met⟩ := by
  have hhead : (e, v) ∈ p.waiting := hwait ▸ List.mem_cons_self
  have hmem {f w : α} (hf : (f, w) ∈ rest) : (f, w) ∈ p.waiting := hwait ▸ List.mem_cons_of_mem _ hf
  obtain ⟨hbuilt, hat, hnew⟩ := h.waiting_built e v hhead
  have hjoins := joins_other hat
  have harc := (mem_arcsAt.mp hat).1
  have hne : v ≠ g.other e v := fun he => hnew (he ▸ hbuilt)
  have hnodup := h.waiting_nodup
  rw [hwait, List.map_cons, List.nodup_cons] at hnodup
  have hends (z : α) (hz : e ∈ g.arcsAt z) : z = v ∨ z = g.other e v := by
    rcases hjoins with ⟨hs, ht⟩ | ⟨hs, ht⟩ <;> rcases (mem_arcsAt.mp hz).2 with hz | hz
    · exact Or.inl (hz.symm.trans hs)
    · exact Or.inr (hz.symm.trans ht)
    · exact Or.inr (hz.symm.trans hs)
    · exact Or.inl (hz.symm.trans ht)
  -- nothing that has had its turn ends at the element that is new
  have huntouched : Untouched g turned (g.other e v) := by
    intro f hf hatf
    rcases (h.turned_ends f hf).2 _ hatf with hb | ht
    · exact hnew hb
    · rw [htop] at ht
      cases ht
  constructor
  · intro f
    rw [h.met_iff f, hwait]
    constructor
    · rintro (ht | ⟨w, hw⟩)
      · exact Or.inl (Set.mem_insert_of_mem _ ht)
      · rcases List.mem_cons.mp hw with he | hw
        · cases he
          exact Or.inl (Set.mem_insert _ _)
        · exact Or.inr ⟨w, hw⟩
    · rintro ((rfl | ht) | ⟨w, hw⟩)
      · exact Or.inr ⟨v, List.mem_cons_self⟩
      · exact Or.inl ht
      · exact Or.inr ⟨w, List.mem_cons_of_mem _ hw⟩
  · rintro f (rfl | hf)
    · exact List.mem_cons_self
    · exact List.mem_cons_of_mem _ (h.turned_marked f hf)
  · intro f hf hconn
    rcases List.mem_cons.mp hf with rfl | hf
    · exact Set.mem_insert _ _
    · exact Set.mem_insert_of_mem _ (h.marked_turned f hf hconn)
  · rintro f w hw (rfl | hf)
    · exact hnodup.1 (List.mem_map.mpr ⟨_, hw, rfl⟩)
    · exact h.waiting_turned f w (hmem hw) hf
  · exact hnodup.2
  · exact fun f w hw => h.waiting_built f w (hmem hw)
  · exact h.closed
  · rintro f (rfl | hf)
    · refine ⟨harc, fun z hz => ?_⟩
      rcases hends z hz with rfl | rfl
      · exact Or.inl hbuilt
      · exact Or.inr rfl
    · refine ⟨(h.turned_ends f hf).1, fun z hz => Or.inl ?_⟩
      rcases (h.turned_ends f hf).2 z hz with hb | ht
      · exact hb
      · rw [htop] at ht
        cases ht
  · exact h.built_reached
  · rintro z hz
    cases hz
    exact reached_of_joins (h.built_reached v hbuilt) harc hjoins
  · exact h.roots_keys
  · intro k hk
    rcases h.keys_met k hk with hb | hr | ht
    · exact Or.inl hb
    · exact Or.inr (Or.inl hr)
    · rw [htop] at ht
      cases ht
  · exact fun f w f' w' hf hf' =>
      linked_mono (Set.subset_insert _ _) (h.waiting_linked f w f' w' (hmem hf) (hmem hf'))
  · rintro f w z hf hz
    cases hz
    exact (linked_mono (Set.subset_insert _ _) (h.waiting_linked f w e v (hmem hf) hhead)).tail
      ⟨e, harc, Set.mem_insert _ _, hjoins⟩
  · rintro z hz
    cases hz
    exact Or.inr hnew
  · rintro f (rfl | hf) hlinked
    · have hsub : insert f turned \ {f} ⊆ turned := fun x hx => hx.1.resolve_left hx.2
      have hcycle := linked_mono hsub hlinked
      rcases hjoins with ⟨hs, ht⟩ | ⟨hs, ht⟩ <;> rw [hs, ht] at hcycle
      · exact hne (untouched_linked huntouched (linked_symm hcycle))
      · exact hne (untouched_linked huntouched hcycle)
    · have hefree : f ≠ e := by
        rintro rfl
        exact h.waiting_turned f v hhead hf
      have hsub : insert e turned \ {f} ⊆ insert e (turned \ {f}) := by
        rintro x ⟨rfl | hx, hxf⟩
        · exact Set.mem_insert _ _
        · exact Set.mem_insert_of_mem _ ⟨hx, hxf⟩
      have hfarc := (h.turned_ends f hf).1
      have hs : g.source f ≠ g.other e v := fun hno =>
        huntouched f hf (mem_arcsAt.mpr ⟨hfarc, Or.inl hno⟩)
      have ht : g.target f ≠ g.other e v := fun hno =>
        huntouched f hf (mem_arcsAt.mpr ⟨hfarc, Or.inr hno⟩)
      have hless : Untouched g (turned \ {f}) (g.other e v) := fun x hx => huntouched x hx.1
      exact h.forest f hf ((linked_without_leaf hless hjoins hne hs (linked_mono hsub hlinked)).1 ht)

/-- The next of the elements that the walk begins with. -/
theorem Tidy.root {k : α} {rest : List α} (h : Tidy g keys built turned p) (htop : p.top = none)
    (hwait : p.waiting = []) (hroots : p.roots = k :: rest) :
    Tidy g keys built turned ⟨some k, [], rest, p.marked, p.met⟩ := by
  have hnone (e v : α) : (e, v) ∉ p.waiting := by rw [hwait]; exact List.not_mem_nil
  constructor
  · intro e
    rw [h.met_iff e, hwait]
  · exact h.turned_marked
  · exact h.marked_turned
  · exact nofun
  · exact List.nodup_nil
  · exact nofun
  · exact h.closed
  · intro e he
    refine ⟨(h.turned_ends e he).1, fun v hv => Or.inl ?_⟩
    rcases (h.turned_ends e he).2 v hv with hb | ht
    · exact hb
    · rw [htop] at ht
      cases ht
  · exact h.built_reached
  · rintro v hv
    cases hv
    exact ⟨k, h.roots_keys k (hroots ▸ List.mem_cons_self), Relation.ReflTransGen.refl⟩
  · exact fun k' hk => h.roots_keys k' (hroots ▸ List.mem_cons_of_mem _ hk)
  · intro k' hk
    rcases h.keys_met k' hk with hb | hr | ht
    · exact Or.inl hb
    · rw [hroots] at hr
      rcases List.mem_cons.mp hr with rfl | hr
      · exact Or.inr (Or.inr rfl)
      · exact Or.inr (Or.inl hr)
    · rw [htop] at ht
      cases ht
  · exact nofun
  · exact nofun
  · exact fun _ _ => Or.inl rfl
  · exact h.forest

/-- At the end of a walk in order all arcs that can be come to have had their turn, and there is no cycle. -/
theorem Tidy.noCycle (h : Tidy g keys built turned p) (htop : p.top = none) (hwait : p.waiting = [])
    (hroots : p.roots = []) : g.NoCycle keys := by
  have hturned {v e : α} (hv : v ∈ built) (he : e ∈ g.arcsAt v) : e ∈ turned := by
    rcases (h.met_iff e).mp (h.closed v hv e he) with ht | ⟨w, hw⟩
    · exact ht
    · rw [hwait] at hw
      cases hw
  have hstep {v w e : α} (hv : v ∈ built) (harc : e ∈ g.arcs) (hjoins : g.Joins e v w) :
      e ∈ turned ∧ w ∈ built := by
    have ht := hturned hv (mem_arcsAt_of_joins harc hjoins)
    refine ⟨ht, ?_⟩
    rcases (h.turned_ends e ht).2 w (mem_arcsAt_of_joins harc (joins_symm hjoins)) with hb | hno
    · exact hb
    · rw [htop] at hno
      cases hno
  have hall {S : Set α} {v w : α} (hv : v ∈ built) (hlinked : g.Linked S v w) :
      w ∈ built ∧ g.Linked (turned ∩ S) v w := by
    induction hlinked with
    | refl => exact ⟨hv, Relation.ReflTransGen.refl⟩
    | tail _ hnext ih =>
      obtain ⟨f, harc, hin, hjoins⟩ := hnext
      obtain ⟨ht, hw⟩ := hstep ih.1 harc hjoins
      exact ⟨hw, ih.2.tail ⟨f, harc, ⟨ht, hin⟩, hjoins⟩⟩
  rintro e ⟨harc, k, hk, hlinked⟩ hcycle
  have hkbuilt : k ∈ built := by
    rcases h.keys_met k hk with hb | hr | ht
    · exact hb
    · rw [hroots] at hr
      cases hr
    · rw [htop] at ht
      cases ht
  have hsource := (hall hkbuilt hlinked).1
  have hin := (hstep hsource harc (joins_ends e)).1
  exact h.forest e hin (hall hsource hcycle).2

/-- The arcs that have not been met. -/
def unmet (g : ArcGraph α) (met : List α) : ℕ := (g.arcs.toFinset \ met.toFinset).card

theorem unmet_append {new met : List α} (hnodup : new.Nodup) (harcs : ∀ e ∈ new, e ∈ g.arcs)
    (hnew : ∀ e ∈ new, e ∉ met) : unmet g (new ++ met)+new.length = unmet g met := by
  unfold unmet
  have hsub : new.toFinset ⊆ g.arcs.toFinset \ met.toFinset := by
    intro e he
    rw [List.mem_toFinset] at he
    rw [Finset.mem_sdiff, List.mem_toFinset, List.mem_toFinset]
    exact ⟨harcs e he, hnew e he⟩
  have hsplit : g.arcs.toFinset \ (new ++ met).toFinset = (g.arcs.toFinset \ met.toFinset) \ new.toFinset := by
    ext e
    simp only [Finset.mem_sdiff, List.mem_toFinset, List.mem_append]
    tauto
  rw [hsplit, ← List.toFinset_card_of_nodup hnodup, Finset.card_sdiff_add_card_eq_card hsub]

theorem orderly_element_iff {v : α} {rest : List (Stop α)} {marked met : List α} :
    Orderly g (.element v :: rest) marked met ↔ InOrder g v marked met ∧
      Orderly g ((fresh g v marked).map (Stop.arc · v) ++ rest) (v :: marked) (fresh g v marked ++ met) := by
  constructor
  · rintro (_ | ⟨horder, hnext⟩)
    exact ⟨horder, hnext⟩
  · exact fun h => .element h.1 h.2

theorem orderly_arc_iff {e v : α} {rest : List (Stop α)} {marked met : List α} :
    Orderly g (.arc e v :: rest) marked met ↔
      Orderly g (.element (g.other e v) :: rest) (e :: marked) met := by
  constructor
  · rintro (_ | _ | hnext)
    exact hnext
  · exact .arc

/-- A tidy walk is in order to its end exactly when there is no cycle. -/
theorem orderly_iff_of_tidy (harcs : g.arcs.Nodup) (hapart : ∀ e, g.Connected keys e → ¬ g.Reached keys e)
    (n : ℕ) (p : Place α) (built turned : Set α) (h : Tidy g keys built turned p)
    (hn : 3*unmet g p.met+2*p.waiting.length+2*p.roots.length+p.top.toList.length ≤ n) :
    Orderly g p.agenda p.marked p.met ↔ g.NoCycle keys := by
  induction n using Nat.strong_induction_on generalizing p built turned with
  | _ n ih =>
    obtain ⟨top, waiting, roots, marked, met⟩ := p
    cases top with
    | some x =>
      have hagenda : Place.agenda ⟨some x, waiting, roots, marked, met⟩ =
          .element x :: (waiting.map (fun q => .arc q.1 q.2) ++ roots.map .element) := rfl
      rw [hagenda, orderly_element_iff]
      by_cases horder : InOrder g x marked met
      · rw [and_iff_right horder]
        have hnext := h.element hapart rfl horder
        have hcount := unmet_append horder.once
          (fun e he => (mem_arcsAt.mp (mem_fresh.mp he).1).1)
          (fun e he hmet => (mem_fresh.mp he).2 ((horder.marked_iff e (mem_fresh.mp he).1).mpr hmet))
        have hiff := ih (3*unmet g (fresh g x marked ++ met)+2*((fresh g x marked).length+waiting.length)+
            2*roots.length) (by dsimp only [Option.toList, List.length_singleton] at hn; omega)
          _ _ _ hnext (by simp)
        unfold Place.agenda at hiff
        simp only [Option.toList, List.map_nil, List.nil_append, List.map_append, List.map_map,
          List.append_assoc] at hiff
        exact hiff
      · exact iff_of_false (fun hno => horder hno.1) fun hno =>
          horder (inOrder_of_noCycle harcs hapart hno h rfl)
    | none =>
      cases waiting with
      | cons q rest =>
        obtain ⟨e, v⟩ := q
        have hiff := ih (3*unmet g met+2*rest.length+2*roots.length+1) (by simp at hn; omega) _ _ _
          (h.arc rfl rfl) (by simp)
        have hagenda : Place.agenda ⟨none, (e, v) :: rest, roots, marked, met⟩ =
          .arc e v :: (rest.map (fun q => .arc q.1 q.2) ++ roots.map .element) := rfl
        rw [hagenda, orderly_arc_iff]
        exact hiff
      | nil =>
        cases roots with
        | nil => exact iff_of_true (Orderly.done marked met) (h.noCycle rfl rfl rfl)
        | cons k rest =>
          exact ih (3*unmet g met+2*rest.length+1) (by simp at hn; omega) ⟨some k, [], rest, marked, met⟩ _ _
            (h.root rfl rfl rfl) (by simp)

/-- A walk from the keys is in order exactly when no arc that it comes to lies on a cycle, where none of these
arcs is an element that it comes to. -/
theorem orderly_iff_noCycle (harcs : g.arcs.Nodup)
    (hapart : ∀ e, g.Connected keys e → ¬ g.Reached keys e) :
    Orderly g (keys.map .element) [] [] ↔ g.NoCycle keys := by
  have hstart : Tidy g keys ∅ ∅ ⟨none, [], keys, [], []⟩ := by
    constructor
    case met_iff => simp
    case waiting_nodup => exact List.nodup_nil
    case roots_keys => exact fun _ hk => hk
    case keys_met => exact fun _ hk => Or.inr (Or.inl hk)
    all_goals exact nofun
  exact orderly_iff_of_tidy harcs hapart _ _ _ _ hstart le_rfl

end

end ScMachine.DepthFirst
