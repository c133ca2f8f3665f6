import ScMachine.CreationSteps
import ScMachine.GenerateExact

/-! A generation that fails: what it has made, and what is left of that when it has cleaned up. -/
namespace ScMachine.Store
open ScMachine.StateExcept ScMachine.Runs

/-- What `c'` has of live elements is as it is in `c`. -/
def PartOf (c c' : Cells) : Prop :=
  ∀ x, Live c' x → Live c x ∧ (c' x).type = (c x).type ∧
    (c' x).accessLevels = (c x).accessLevels ∧ ∀ d, ownerOf c' d x = ownerOf c d x

section
variable {env : ScEnv} {ctx : ScContext} {st s s' : ScStorage} {a x y : ScAddr} {c c' c2 : Cells}
  {new : Set ScAddr}

theorem PartOf.refl (c : Cells) : PartOf c c := fun _ hx => ⟨hx, rfl, rfl, fun _ => rfl⟩

theorem PartOf.trans (h : PartOf c c') (h' : PartOf c' c2) : PartOf c c2 := by
  intro x hx
  obtain ⟨hx', ht', hl', ho'⟩ := h' x hx
  obtain ⟨hx0, ht, hl, ho⟩ := h x hx'
  exact ⟨hx0, ht'.trans ht, hl'.trans hl, fun d => (ho' d).trans (ho d)⟩

theorem PartOf.liveArc (h : PartOf c c') (hx : Live c' x) : LiveArc c' x ↔ LiveArc c x := by
  obtain ⟨hx0, ht, _, _⟩ := h x hx
  have harc : (c' x).isArc = (c x).isArc := by
    unfold ScElement.isArc
    rw [ht]
  exact ⟨fun hl => ⟨hx0, harc ▸ hl.2⟩, fun hl => ⟨hx, harc ▸ hl.2⟩⟩

/-- The closure of an element is what is left of the closure that it had. -/
theorem PartOf.inClosure (h : PartOf c c') (hc' : ArcsOk c') (hx : Live c' x) :
    InClosure c' a x ↔ InClosure c a x := by
  constructor
  · intro hcl
    induction hcl with
    | root => exact .root
    | arc y d hy _ ih =>
      obtain ⟨_, _, _, howner⟩ := h y hx
      rw [howner] at ih
      refine .arc y d ((h.liveArc hx).mp hy) (ih ?_)
      rw [← howner]
      exact hc'.endpoint y d hy
  · intro hcl
    induction hcl with
    | root => exact .root
    | arc y d hy _ ih =>
      obtain ⟨_, _, _, howner⟩ := h y hx
      have hy' := (h.liveArc hx).mpr hy
      refine .arc y d hy' ?_
      rw [howner]
      apply ih
      rw [← howner]
      exact hc'.endpoint y d hy'

theorem Erased.partOf {D : List ScAddr} (h : Erased env st D s) : PartOf st.cell s.cell := by
  intro x hx
  have hsame := h.cells.same x fun hD => h.cells.dead x hD hx
  exact ⟨hsame.live.mp hx, hsame.type, hsame.accessLevels, hsame.owner⟩

/-- Erasing an element with a closure that may be written. -/
theorem elementFree_closure (hok : StoreOk env.thread s) (order : HashOrder) (ha : Live s.cell a)
    (hwrite : ∀ x, InClosure s.cell a x → CanWrite ctx s.cell x) :
    IfReturns (scStorageElementFree env ctx order a) (fun _ s' => StoreOk env.thread s' ∧
      PartOf s.cell s'.cell ∧ ∀ x, Live s'.cell x ↔ Live s.cell x ∧ ¬ InClosure s.cell a x) s := by
  have hcall := storeOk_call (f := scStorageElementFree env ctx order a) (.elementFree ctx order a) rfl trivial hok
  have hfree := elementFree_wp (holds_start env.thread s hok.wf.1 hok.wf.2) hok.cells ctx order a
  apply wp_mono (wp_and hcall hfree) _ (fun _ _ => trivial)
  intro r s' ⟨hok', _, hout⟩
  cases hout with
  | dead _ hdead _ => exact absurd ha hdead
  | denied _ _ hden _ =>
    refine absurd (fun x hx => hwrite x ?_) hden
    rcases List.mem_cons.mp (List.mem_of_mem_dropLast hx) with rfl | hx
    · exact .root
    · exact (mem_removeOrder hok.cells.arcs ha x).mp hx
  | freed _ _ _ he => exact ⟨hok', he.partOf, he.dead_iff hok.cells ha⟩

end

end ScMachine.Store

namespace ScMachine.Template
open ScMachine.Store ScMachine.StateExcept ScMachine.Runs

section
variable {env : ScEnv} {ctx : ScContext} {order : HashOrder} {params : ScTemplateParams}
  {st st0 s s' : ScStorage} {g g' : GenerateState} {a x : ScAddr}

/-- What cannot be reached from the erased elements over arcs is left. -/
theorem cleanupCreated_returns (as : List ScAddr) (hok : StoreOk env.thread s)
    (hlive : ∀ a ∈ as, Live s.cell a ∧ (s.cell a).isArc = false) (hnodup : as.Nodup)
    (hwrite : ∀ a ∈ as, ∀ x, InClosure s.cell a x → CanWrite ctx s.cell x) :
    IfReturns (cleanupCreated env ctx order as) (fun _ s' => PartOf s.cell s'.cell ∧
      ∀ x, Live s'.cell x ↔ Live s.cell x ∧ ∀ a ∈ as, ¬ InClosure s.cell a x) s := by
  induction as generalizing s with
  | nil => exact ⟨PartOf.refl _, fun x => by simp⟩
  | cons a as ih =>
    obtain ⟨ha, harc⟩ := hlive a List.mem_cons_self
    unfold cleanupCreated
    rw [IfReturns, wp_bind]
    apply wp_mono (elementFree_closure hok order ha (hwrite a List.mem_cons_self)) _ (fun _ _ => trivial)
    rintro _ s1 ⟨hok1, hpart, hlive1⟩
    -- the other elements are no arcs, so they are not in the closure
    have hrest (b : ScAddr) (hb : b ∈ as) : Live s1.cell b ∧ (s1.cell b).isArc = false := by
      obtain ⟨hbl, hbarc⟩ := hlive b (List.mem_cons_of_mem _ hb)
      have hb1 : Live s1.cell b := by
        rw [hlive1]
        refine ⟨hbl, fun hcl => ?_⟩
        cases hcl with
        | root => exact (List.nodup_cons.mp hnodup).1 hb
        | arc _ d hy _ =>
          have hno := hy.2
          rw [hbarc] at hno
          cases hno
      refine ⟨hb1, ?_⟩
      have htype := (hpart b hb1).2.1
      unfold ScElement.isArc at hbarc ⊢
      rw [htype]
      exact hbarc
    have hcl (b x : ScAddr) (hx : Live s1.cell x) : InClosure s1.cell b x ↔ InClosure s.cell b x :=
      hpart.inClosure hok1.cells.arcs hx
    have hwrite1 : ∀ b ∈ as, ∀ x, InClosure s1.cell b x → CanWrite ctx s1.cell x := by
      intro b hb x hx
      have hxl := hx.live (hrest b hb).1
      have hw := hwrite b (List.mem_cons_of_mem _ hb) x ((hcl b x hxl).mp hx)
      unfold CanWrite at hw ⊢
      rw [(hpart x hxl).2.2.1]
      exact hw
    apply wp_mono (ih hok1 hrest (List.nodup_cons.mp hnodup).2 hwrite1) _ (fun _ _ => trivial)
    rintro _ s2 ⟨hpart2, hlive2⟩
    refine ⟨hpart.trans hpart2, fun x => ?_⟩
    rw [hlive2, hlive1, List.forall_mem_cons]
    constructor
    · rintro ⟨⟨hx, hno⟩, hall⟩
      exact ⟨hx, hno, fun b hb => (hcl b x ((hlive1 x).mpr ⟨hx, hno⟩)).not.mp (hall b hb)⟩
    · rintro ⟨hx, hno, hall⟩
      exact ⟨⟨hx, hno⟩, fun b hb => (hcl b x ((hlive1 x).mpr ⟨hx, hno⟩)).not.mpr (hall b hb)⟩

/-- The nodes, links and arcs that a call has made are all that has been added to `st0`. -/
structure Making (thread : ℕ) (ctx : ScContext) (st0 : ScStorage) (g : GenerateState) (arcs : List ScAddr)
    (s : ScStorage) : Prop where
  store : StoreOk thread s
  grown : GrownBy st0 {x | x ∈ g.createdElements ∨ x ∈ arcs} s
  ends : ∀ x ∈ g.createdElements, (s.cell x).isArc = false
  nodup : g.createdElements.Nodup
  levels : ∀ x, x ∈ g.createdElements ∨ x ∈ arcs → (s.cell x).accessLevels = ctx.accessLevels

theorem making_start {thread : ℕ} (hok : StoreOk thread st) (result : ScTemplateNamedStruct) :
    Making thread ctx st ⟨result, []⟩ [] st := by
  refine ⟨hok, ?_, by simp, List.nodup_nil, by simp⟩
  have hnone : {x | x ∈ (⟨result, []⟩ : GenerateState).createdElements ∨ x ∈ ([] : List ScAddr)} =
      (∅ : Set ScAddr) := by
    ext x
    simp
  rw [hnone]
  exact GrownBy.refl st

/-- One more element has been made. -/
theorem Making.add {thread : ℕ} {arcs arcs' : List ScAddr} (h : Making thread ctx st0 g arcs s)
    (hok' : StoreOk thread s') (hg : GrownBy s {a} s')
    (hnew : ∀ x, (x ∈ g'.createdElements ∨ x ∈ arcs') ↔ (x ∈ g.createdElements ∨ x ∈ arcs) ∨ x = a)
    (hends : ∀ x ∈ g'.createdElements, x ∈ g.createdElements ∨ x = a ∧ (s'.cell a).isArc = false)
    (hnodup : g'.createdElements.Nodup) (hlevel : (s'.cell a).accessLevels = ctx.accessLevels) :
    Making thread ctx st0 g' arcs' s' := by
  have hset : {x | x ∈ g'.createdElements ∨ x ∈ arcs'} =
      {x | x ∈ g.createdElements ∨ x ∈ arcs} ∪ {a} := by
    ext x
    exact hnew x
  have hold {x : ScAddr} (hx : x ∈ g.createdElements ∨ x ∈ arcs) : SameElement s s' x := by
    have hxa : x ∉ ({a} : Set ScAddr) := by
      rintro rfl
      exact type_of_live (h.grown.live x hx) (hg.free x rfl)
    exact (hg.others x hxa).same
  refine ⟨hok', ?_, ?_, hnodup, ?_⟩
  · rw [hset]
    exact h.grown.trans hg
  · intro x hx
    rcases hends x hx with hx | ⟨rfl, harc⟩
    · have harc := h.ends x hx
      unfold ScElement.isArc at harc ⊢
      rwa [(hold (Or.inl hx)).type]
    · exact harc
  · intro x hx
    rcases (hnew x).mp hx with hx | rfl
    · exact (hold hx).accessLevels.trans (h.levels x hx)
    · exact hlevel

theorem EndCreated.cell {type : ScType} (h : EndCreated ctx type st a st0) :
    (st0.cell a).isArc = false ∧ (st0.cell a).accessLevels = ctx.accessLevels := by
  have hcell : st0.cell a = endCell ctx type := by
    rw [h.created.refCount.2.2.2, Function.update_self]
  rw [hcell]
  unfold endCell
  rcases h.isEnd with ⟨hn, hmask⟩ | ⟨hn, _⟩
  · rw [if_pos hn]
    exact ⟨nodeCell_isArc ctx type hmask, rfl⟩
  · rw [if_neg (by rw [hn]; decide)]
    exact ⟨(linkCell_type ctx true).2, rfl⟩

/-- More has been made since. -/
structure MadeMore (thread : ℕ) (ctx : ScContext) (st0 : ScStorage) (g : GenerateState) (s : ScStorage)
    (g' : GenerateState) (arcs' : List ScAddr) (s' : ScStorage) : Prop where
  making : Making thread ctx st0 g' arcs' s'
  grown : ∃ new, GrownBy s new s'
  created : ∀ x ∈ g.createdElements, x ∈ g'.createdElements

theorem MadeMore.trans {thread : ℕ} {g1 : GenerateState} {arcs arcs' : List ScAddr} {s1 : ScStorage}
    (h : MadeMore thread ctx st0 g s g1 arcs s1) (h' : MadeMore thread ctx st0 g1 s1 g' arcs' s') :
    MadeMore thread ctx st0 g s g' arcs' s' := by
  obtain ⟨new, hg⟩ := h.grown
  obtain ⟨new', hg'⟩ := h'.grown
  exact ⟨h'.making, ⟨_, hg.trans hg'⟩, fun x hx => h'.created x (h.created x hx)⟩

theorem ItemResolved.made {thread : ℕ} {arcs : List ScAddr} {item : ScTemplateArg}
    (h : Making thread ctx st0 g arcs s) (hok' : StoreOk thread s')
    (hres : ItemResolved ctx params item s g a s' g') : MadeMore thread ctx st0 g s g' arcs s' := by
  cases hres with
  | known _ => exact ⟨h, ⟨_, GrownBy.refl s⟩, fun _ hx => hx⟩
  | fresh _ _ _ _ hcr =>
    have hdead : a ∉ g.createdElements := fun ha =>
      type_of_live (h.grown.live a (Or.inl ha)) hcr.created.refCount.2.2.1
    refine ⟨?_, ⟨_, hcr.grown⟩, fun x hx => List.mem_append_left _ hx⟩
    refine h.add hok' hcr.grown (fun x => ?_) (fun x hx => ?_) ?_ hcr.cell.2
    · simp only [List.mem_append, List.mem_singleton]
      tauto
    · rcases List.mem_append.mp hx with hx | hx
      · exact Or.inl hx
      · exact Or.inr ⟨List.mem_singleton.mp hx, hcr.cell.1⟩
    · exact List.nodup_append.mpr ⟨h.nodup, List.nodup_singleton a, by
        rintro x hx y hy rfl
        exact hdead (List.mem_singleton.mp hy ▸ hx)⟩

/-! Which of the elements are erased again. -/

/-- The element is erased with one of those that are. -/
def Covered (c : Cells) (created : List ScAddr) (x : ScAddr) : Prop := ∃ a ∈ created, InClosure c a x

/-- An arc between elements that were there before. -/
def BetweenOld (st0 : ScStorage) (c : Cells) (x : ScAddr) : Prop :=
  LiveArc c x ∧ ∀ d, Live st0.cell (ownerOf c d x)

theorem InClosure.grown {new : Set ScAddr} (h : InClosure st.cell a x) (hg : GrownBy st new s) :
    InClosure s.cell a x := by
  induction h with
  | root => exact .root
  | arc y d hy _ ih =>
    obtain ⟨hy', _, howner⟩ := hg.liveArc hy
    refine .arc y d hy' ?_
    rwa [howner]

theorem MadeMore.covered {thread : ℕ} {arcs : List ScAddr} (h : MadeMore thread ctx st0 g s g' arcs s')
    (hx : Covered s.cell g.createdElements x) : Covered s'.cell g'.createdElements x := by
  obtain ⟨a, ha, hcl⟩ := hx
  obtain ⟨new, hg⟩ := h.grown
  exact ⟨a, h.created a ha, InClosure.grown hcl hg⟩

theorem MadeMore.betweenOld {thread : ℕ} {arcs : List ScAddr} (h : MadeMore thread ctx st0 g s g' arcs s')
    (hx : BetweenOld st0 s.cell x) : BetweenOld st0 s'.cell x := by
  obtain ⟨new, hg⟩ := h.grown
  obtain ⟨hl, _, howner⟩ := hg.liveArc hx.1
  refine ⟨hl, fun d => ?_⟩
  rw [howner]
  exact hx.2 d

/-- The closure of what has been made is of what has been made. -/
theorem Making.of_inClosure {thread : ℕ} {arcs : List ScAddr} (h : Making thread ctx st0 g arcs s)
    (hc0 : CellsOk st0) (ha : a ∈ g.createdElements ∨ a ∈ arcs) (hx : InClosure s.cell a x) :
    x ∈ g.createdElements ∨ x ∈ arcs := by
  induction hx with
  | root => exact ha
  | arc y d hy _ ih =>
    by_contra hno
    -- an arc that was there before ends in elements that were there before
    have hsame := h.grown.others y hno
    have hend := hc0.arcs.endpoint y d (hsame.same.liveArc.mp hy)
    rw [← hsame.owner] at hend
    exact type_of_live hend (h.grown.free _ ih)

theorem Making.not_covered {thread : ℕ} {arcs : List ScAddr} (h : Making thread ctx st0 g arcs s)
    (hc0 : CellsOk st0) (hx : BetweenOld st0 s.cell x) : ¬ Covered s.cell g.createdElements x := by
  rintro ⟨a, ha, hcl⟩
  cases hcl with
  | root =>
    have harc := hx.1.2
    rw [h.ends _ ha] at harc
    cases harc
  | arc _ d _ hown => exact type_of_live (hx.2 d) (h.grown.free _ (h.of_inClosure hc0 (Or.inl ha) hown))

/-! What the ends of the triples are without the elements that the call makes. -/

/-- The names after a triple, with the empty address for what the call makes itself. -/
def namesWithTriple (params : ScTemplateParams) (t : Triple ScTemplateArg) (r : ScTemplateNamedStruct) :
    ScTemplateNamedStruct :=
  addResult t.target.replacementName (knownAddr params r t.target)
    (addResult t.edge.replacementName ScAddr.empty
      (addResult t.source.replacementName (knownAddr params r t.source) r))

/-- No triple has two elements of `c` as its ends, the given addresses being all that it can have of
them. -/
def NoneBetweenOld (params : ScTemplateParams) (c : Cells) :
    List (Triple ScTemplateArg) → ScTemplateNamedStruct → Prop
  | [], _ => True
  | t :: ts, r =>
    ¬ (Live c (knownAddr params r t.source) ∧ Live c (knownAddr params r t.target)) ∧
      NoneBetweenOld params c ts (namesWithTriple params t r)

/-- The address is the given one, or none is given and the element was not there before. -/
def Given (st0 : ScStorage) (given a : ScAddr) : Prop :=
  a = given ∨ given = ScAddr.empty ∧ ¬ Live st0.cell a

def NamesGiven (st0 : ScStorage) (r result : ScTemplateNamedStruct) : Prop :=
  ∀ name, Option.Rel (Given st0) (r.names name) (result.names name)

theorem Given.live_iff {given : ScAddr} (h : Given st0 given a) (hc0 : CellsOk st0) :
    Live st0.cell a ↔ Live st0.cell given := by
  rcases h with rfl | ⟨rfl, hno⟩
  · exact Iff.rfl
  · exact iff_of_false hno hc0.arcs.notEmpty

theorem NamesGiven.get {r result : ScTemplateNamedStruct} (h : NamesGiven st0 r result) (name : String) :
    Given st0 (r.get name) (result.get name) := by
  unfold ScTemplateNamedStruct.get
  have hrel := h name
  revert hrel
  generalize r.names name = x
  generalize result.names name = y
  rintro (h | _)
  · exact h
  · exact Or.inl rfl

theorem NamesGiven.addResult {r result : ScTemplateNamedStruct} {given : ScAddr} (h : NamesGiven st0 r result)
    (ha : Given st0 given a) (name : String) :
    NamesGiven st0 (addResult name given r) (addResult name a result) := by
  have hhas : r.has name = result.has name := by
    unfold ScTemplateNamedStruct.has
    have hrel := h name
    revert hrel
    generalize r.names name = x
    generalize result.names name = y
    rintro (_ | _) <;> rfl
  unfold Template.addResult
  rw [hhas]
  split_ifs
  · exact h
  · intro other
    by_cases hother : other = name
    · subst hother
      simp only [ScTemplateNamedStruct.add, Function.update_self]
      exact .some ha
    · simp only [ScTemplateNamedStruct.add, Function.update_of_ne hother]
      exact h other

theorem NamesGiven.known (params : ScTemplateParams) {r result : ScTemplateNamedStruct}
    (h : NamesGiven st0 r result) (item : ScTemplateArg) :
    Given st0 (knownAddr params r item) (knownAddr params result item) := by
  unfold knownAddr
  by_cases hname : item.hasReplacementName = true
  · simp only [hname, if_true]
    by_cases hvalue : params.tryGet item.replacementName = ScAddr.empty
    · simp only [hvalue, ne_eq, not_true_eq_false, if_false]
      cases item.kind with
      | addr => exact Or.inl rfl
      | type => exact h.get _
      | replace => exact h.get _
    · simp only [ne_eq, hvalue, not_false_eq_true, if_true]
      exact Or.inl rfl
  · simp only [hname, Bool.false_eq_true, if_false, ne_eq, not_true_eq_false]
    cases item.kind with
    | addr => exact Or.inl rfl
    | type => exact Or.inl rfl
    | replace => exact h.get _

/-- The element that an item stands for is the given one, or it was not there before. -/
theorem ItemResolved.givenAddr {thread : ℕ} {arcs : List ScAddr} {item : ScTemplateArg}
    {r : ScTemplateNamedStruct} (h : Making thread ctx st0 g arcs s) (hr : NamesGiven st0 r g.result)
    (hres : ItemResolved ctx params item s g a s' g') : Given st0 (knownAddr params r item) a := by
  have hknown := hr.known params item
  cases hres with
  | known _ => exact hknown
  | fresh _ _ hnone _ hcr =>
    rw [hnone] at hknown
    have hgiven : knownAddr params r item = ScAddr.empty := by
      rcases hknown with h | ⟨h, _⟩
      · exact h.symm
      · exact h
    exact Or.inr ⟨hgiven, fun hl => type_of_live hl (h.grown.was_free hcr.created.refCount.2.2.1)⟩

/-- The arc of a triple, whose ends are the given ones or were not there before. -/
structure ArcMade (params : ScTemplateParams) (st0 : ScStorage) (t : Triple ScTemplateArg)
    (r : ScTemplateNamedStruct) (z : ScAddr) (s : ScStorage) : Prop where
  arc : LiveArc s.cell z
  apart : ∀ d, ownerOf s.cell d z ≠ z
  source : Given st0 (knownAddr params r t.source) (ownerOf s.cell .out z)
  target : Given st0 (knownAddr params r t.target) (ownerOf s.cell .inp z)

/-- A call that changes no element of the store makes nothing. -/
theorem Making.unlocked {thread : ℕ} {arcs : List ScAddr} (h : Making thread ctx st0 g arcs s)
    (hok' : StoreOk thread s') (hu : s'.unlocked = s.unlocked) :
    MadeMore thread ctx st0 g s g arcs s' := by
  have hg := grownBy_of_unlocked hu
  have hgrown := h.grown.trans hg
  rw [Set.union_empty] at hgrown
  refine ⟨⟨hok', hgrown, ?_, h.nodup, ?_⟩, ⟨_, hg⟩, fun _ hx => hx⟩
  · rw [cell_of_unlocked hu]
    exact h.ends
  · rw [cell_of_unlocked hu]
    exact h.levels

/-- An item is resolved, or nothing is made for it. -/
theorem resolveAddr_made {arcs : List ScAddr} (h : Making env.thread ctx st0 g arcs s) (item : ScTemplateArg) :
    IfReturns (resolveAddr env ctx params item g) (fun p s' => StoreOk env.thread s' ∧
      MadeMore env.thread ctx st0 g s p.2 arcs s' ∧
      (p.1 = ScAddr.empty ∨ ItemResolved ctx params item s g p.1 s' p.2)) s := by
  apply wp_mono (resolveAddr_returns h.store item g) _ (fun _ _ => trivial)
  rintro ⟨a, g1⟩ s1 ⟨hok1, ⟨hu, hmiss⟩ | hres⟩
  · obtain ⟨rfl, rfl⟩ := Prod.mk.inj hmiss
    exact ⟨hok1, h.unlocked hok1 hu, Or.inl rfl⟩
  · exact ⟨hok1, ItemResolved.made h hok1 hres, Or.inr hres⟩

/-- A triple adds its arc, or nothing but nodes and links. -/
theorem generateTriple_made {asserts : Bool} {arcs : List ScAddr} {r : ScTemplateNamedStruct}
    (h : Making env.thread ctx st0 g arcs s) (hr : NamesGiven st0 r g.result) (t : Triple ScTemplateArg)
    (harc : ArcTyped asserts t) :
    IfReturns (generateTriple asserts env ctx params t g) (fun o s' => ∀ e g', o = .ok (e, g') →
      match e with
      | none => MadeMore env.thread ctx st0 g s g' arcs s'
      | some z => MadeMore env.thread ctx st0 g s g' (arcs ++ [z]) s' ∧
          NamesGiven st0 (namesWithTriple params t r) g'.result ∧ ArcMade params st0 t r z s') s := by
  unfold generateTriple
  rw [IfReturns, wp_ite]
  refine ⟨fun _ e g' he => (by cases he), fun _ => ?_⟩
  rw [wp_bind]
  apply wp_mono (resolveAddr_made h t.source) _ (fun _ _ => trivial)
  rintro ⟨a, g1⟩ s1 ⟨hok1, hmore1, h1⟩
  simp only at hmore1 h1 ⊢
  rw [wp_ite]
  refine ⟨fun _ e g' he => (by cases he), fun _ => ?_⟩
  rw [wp_bind]
  apply wp_mono (resolveAddr_made hmore1.making t.target) _ (fun _ _ => trivial)
  rintro ⟨b, g2⟩ s2 ⟨hok2, hmore12, h2⟩
  simp only at hmore12 h2 ⊢
  have hmore2 := hmore1.trans hmore12
  rw [wp_ite]
  refine ⟨fun _ e g' he => (by cases he), fun _ => ?_⟩
  rw [wp_ite, wp_pure]
  refine ⟨fun _ e g' he => ?_, fun hends => ?_⟩
  · obtain ⟨rfl, rfl⟩ := Prod.mk.inj (Except.ok.inj he)
    exact hmore2
  have hres1 := h1.resolve_left fun hmiss => hends (Or.inl hmiss)
  have hres2 := h2.resolve_left fun hmiss => hends (Or.inr hmiss)
  have hgiven1 := ItemResolved.givenAddr h hr hres1
  have hr1 : NamesGiven st0 r g1.result := by
    rw [hres1.result_eq]
    exact hr
  have hgiven2 := ItemResolved.givenAddr hmore1.making hr1 hres2
  have hcall := storeOk_call (f := scStorageArcNew env ctx t.edge.typeValue.upConstType a b)
    (.arcNew ctx t.edge.typeValue.upConstType a b) rfl harc.not_link hok2
  have hnew := arcNew_returns (holds_start env.thread s2 hok2.wf.1 hok2.wf.2) hok2.cells ctx
    t.edge.typeValue.upConstType a b
  rw [wp_bind]
  apply wp_mono (wp_and hcall hnew) _ (fun _ _ => trivial)
  rintro z s3 ⟨hok3, hcase⟩
  rw [wp_ite, wp_pure, wp_pure]
  constructor
  · intro hz e g' he
    obtain ⟨rfl, rfl⟩ := Prod.mk.inj (Except.ok.inj he)
    rcases hcase with ⟨hu, _⟩ | hcr
    · exact hmore2.trans (hmore2.making.unlocked hok3 hu)
    · exact absurd hz hcr.created.notEmpty
  · intro hz e g' he
    obtain ⟨rfl, rfl⟩ := Prod.mk.inj (Except.ok.inj he)
    rcases hcase with ⟨_, h0⟩ | hcr
    · exact absurd h0 hz
    have hadd := hcr.added hok2.cells
    have hdead : ¬ Live s2.cell z := fun hl => type_of_live hl hcr.created.refCount.2.2.1
    have hmaking : Making env.thread ctx st0 { g2 with
        result := addResult t.target.replacementName b
          (addResult t.edge.replacementName z (addResult t.source.replacementName a g2.result)) }
        (arcs ++ [z]) s3 :=
      hmore2.making.add hok3 (hcr.grown hok2.cells)
        (fun x => by simp only [List.mem_append, List.mem_singleton]; tauto)
        (fun x hx => Or.inl hx) hmore2.making.nodup hcr.typeOf.2
    refine ⟨hmore2.trans ⟨hmaking, ⟨_, hcr.grown hok2.cells⟩, fun _ hx => hx⟩, ?_, hadd.arc, ?_, ?_, ?_⟩
    · have hz0 : Given st0 ScAddr.empty z := by
        refine Or.inr ⟨rfl, fun hl => ?_⟩
        exact type_of_live hl (hmore2.making.grown.was_free hcr.created.refCount.2.2.1)
      have hr2 : NamesGiven st0 r g2.result := by
        rw [hres2.result_eq]
        exact hr1
      exact ((hr2.addResult hgiven1 _).addResult hz0 _).addResult hgiven2 _
    · intro d hd
      rw [hadd.owner, if_pos rfl] at hd
      cases d with
      | out => exact hdead (hd ▸ hcr.beginLive)
      | inp => exact hdead (hd ▸ hcr.endLive)
    · rw [hadd.owner, if_pos rfl]
      exact hgiven1
    · rw [hadd.owner, if_pos rfl]
      exact hgiven2

/-- An arc without two ends that were there before is covered if the others are. -/
theorem ArcMade.covered {thread : ℕ} {arcs : List ScAddr} {t : Triple ScTemplateArg}
    {r : ScTemplateNamedStruct} {z : ScAddr} (h : ArcMade params st0 t r z s')
    (hmore : MadeMore thread ctx st0 g s g' (arcs ++ [z]) s') (hc0 : CellsOk st0)
    (hno : ¬ (Live st0.cell (knownAddr params r t.source) ∧ Live st0.cell (knownAddr params r t.target)))
    (hall : ∀ x ∈ arcs, Covered s'.cell g'.createdElements x) : Covered s'.cell g'.createdElements z := by
  have hend : ∃ d, ¬ Live st0.cell (ownerOf s'.cell d z) := by
    by_contra hold
    push Not at hold
    exact hno ⟨(h.source.live_iff hc0).mp (hold .out), (h.target.live_iff hc0).mp (hold .inp)⟩
  obtain ⟨d, hnew⟩ := hend
  have hlive := hmore.making.store.cells.arcs.endpoint z d h.arc
  have hin : ownerOf s'.cell d z ∈ g'.createdElements ∨ ownerOf s'.cell d z ∈ arcs ++ [z] := by
    by_contra hout
    exact hnew ((hmore.making.grown.others _ hout).same.live.mp hlive)
  have hcov : Covered s'.cell g'.createdElements (ownerOf s'.cell d z) := by
    rcases hin with hin | hin
    · exact ⟨_, hin, .root⟩
    · rcases List.mem_append.mp hin with hin | hin
      · exact hall _ hin
      · exact absurd (List.mem_singleton.mp hin) (h.apart d)
  obtain ⟨a, ha, hcl⟩ := hcov
  exact ⟨a, ha, .arc z d h.arc hcl⟩

/-- Under the condition all arcs that have been made are covered, and else one is between elements that were
there before. -/
structure CoveredWhen (st0 : ScStorage) (g : GenerateState) (arcs : List ScAddr) (s : ScStorage)
    (condition : Prop) : Prop where
  covered : condition → ∀ x ∈ arcs, Covered s.cell g.createdElements x
  between : ¬ condition → ∃ x ∈ arcs, BetweenOld st0 s.cell x

theorem CoveredWhen.more {thread : ℕ} {arcs arcs' : List ScAddr} {condition : Prop}
    (h : CoveredWhen st0 g arcs s condition) (hmore : MadeMore thread ctx st0 g s g' arcs' s') :
    CoveredWhen st0 g' arcs s' condition := by
  refine ⟨fun hc x hx => hmore.covered (h.covered hc x hx), fun hc => ?_⟩
  obtain ⟨x, hx, hb⟩ := h.between hc
  exact ⟨x, hx, hmore.betweenOld hb⟩

theorem CoveredWhen.triple {thread : ℕ} {arcs : List ScAddr} {condition : Prop} {t : Triple ScTemplateArg}
    {r : ScTemplateNamedStruct} {z : ScAddr} (h : CoveredWhen st0 g arcs s condition)
    (hmore : MadeMore thread ctx st0 g s g' (arcs ++ [z]) s') (hmade : ArcMade params st0 t r z s')
    (hc0 : CellsOk st0) : CoveredWhen st0 g' (arcs ++ [z]) s' (condition ∧
      ¬ (Live st0.cell (knownAddr params r t.source) ∧ Live st0.cell (knownAddr params r t.target))) := by
  have h' := h.more hmore
  constructor
  · rintro ⟨hc, hno⟩ x hx
    rcases List.mem_append.mp hx with hx | hx
    · exact h'.covered hc x hx
    · rw [List.mem_singleton.mp hx]
      exact hmade.covered hmore hc0 hno (h'.covered hc)
  · intro hno
    by_cases hc : condition
    · have hboth := not_not.mp fun hn => hno ⟨hc, hn⟩
      refine ⟨z, List.mem_append_right _ List.mem_cons_self, hmade.arc, fun d => ?_⟩
      cases d with
      | out => exact (hmade.source.live_iff hc0).mpr hboth.1
      | inp => exact (hmade.target.live_iff hc0).mpr hboth.2
    · obtain ⟨x, hx, hb⟩ := h'.between hc
      exact ⟨x, List.mem_append_left _ hx, hb⟩

/-- The first `n` triples are generated and the arc of the next one is not. -/
inductive FailsAt (asserts : Bool) (env : ScEnv) (ctx : ScContext) (params : ScTemplateParams) :
    List (Triple ScTemplateArg) → ℕ → GenerateState → ScStorage → Prop where
  | here {t : Triple ScTemplateArg} {ts : List (Triple ScTemplateArg)} {g g' : GenerateState}
      {s s' : ScStorage} : generateTriple asserts env ctx params t g s = .ok (.ok (none, g'), s') →
      FailsAt asserts env ctx params (t :: ts) 0 g s
  | later {t : Triple ScTemplateArg} {ts : List (Triple ScTemplateArg)} {n : ℕ} {g g' : GenerateState}
      {s s' : ScStorage} {z : ScAddr} : generateTriple asserts env ctx params t g s = .ok (.ok (some z, g'), s') →
      FailsAt asserts env ctx params ts n g' s' →
      FailsAt asserts env ctx params (t :: ts) (n+1) g s

theorem FailsAt.unique {asserts : Bool} {ts : List (Triple ScTemplateArg)} {n m : ℕ}
    (h : FailsAt asserts env ctx params ts n g s) (h' : FailsAt asserts env ctx params ts m g s) : n = m := by
  induction h generalizing m with
  | here hrun =>
    cases h' with
    | here _ => rfl
    | later hrun' _ =>
      rw [hrun] at hrun'
      cases hrun'
  | later hrun _ ih =>
    cases h' with
    | here hrun' =>
      rw [hrun] at hrun'
      cases hrun'
    | later hrun' hrest =>
      rw [hrun] at hrun'
      cases hrun'
      rw [ih hrest]

/-- A run that stops without a result has covered its arcs as long as none was between elements that were
there before. -/
theorem generateTriples_failed {asserts : Bool} (hc0 : CellsOk st0) (ts : List (Triple ScTemplateArg))
    (harc : ∀ t ∈ ts, ArcTyped asserts t) {arcs : List ScAddr} {condition : Prop} {r : ScTemplateNamedStruct}
    (h : Making env.thread ctx st0 g arcs s) (hr : NamesGiven st0 r g.result)
    (hanchored : CoveredWhen st0 g arcs s condition)
    (hrun : generateTriples asserts env ctx params ts g s = .ok (.ok (none, g'), s')) :
    ∃ n, FailsAt asserts env ctx params ts n g s ∧ ∃ arcs', Making env.thread ctx st0 g' arcs' s' ∧
      CoveredWhen st0 g' arcs' s' (condition ∧ NoneBetweenOld params st0.cell (ts.take n) r) := by
  induction ts generalizing g s arcs condition r with
  | nil => cases hrun
  | cons t ts ih =>
    unfold generateTriples at hrun
    obtain ⟨⟨o, s1⟩, hfirst, hrun⟩ := bind_ok hrun
    have hmade := wp_ok (generateTriple_made h hr t (harc t List.mem_cons_self)) hfirst
    rcases o with e | ⟨_ | z, g1⟩
    · cases hrun
    · have hmore := hmade none g1 rfl
      obtain ⟨h0, rfl⟩ := Prod.mk.inj (Except.ok.inj hrun)
      obtain ⟨_, rfl⟩ := Prod.mk.inj (Except.ok.inj h0)
      refine ⟨0, .here hfirst, arcs, hmore.making, ?_⟩
      rw [List.take_zero, show NoneBetweenOld params st0.cell [] r ↔ True from Iff.rfl, and_true]
      exact hanchored.more hmore
    · obtain ⟨hmore, hr1, harcMade⟩ := hmade (some z) g1 rfl
      obtain ⟨⟨o2, s2⟩, hrest, hrun⟩ := bind_ok hrun
      rcases o2 with e | ⟨_ | edges, g2⟩
      · cases hrun
      · obtain ⟨h0, rfl⟩ := Prod.mk.inj (Except.ok.inj hrun)
        obtain ⟨_, rfl⟩ := Prod.mk.inj (Except.ok.inj h0)
        obtain ⟨n, hfails, arcs', hmaking, hanch⟩ := ih (fun t ht => harc t (List.mem_cons_of_mem _ ht))
          hmore.making hr1 (hanchored.triple hmore harcMade hc0) hrest
        refine ⟨n+1, .later hfirst hfails, arcs', hmaking, ?_⟩
        rw [List.take_succ_cons]
        rwa [and_assoc] at hanch
      · obtain ⟨h0, _⟩ := Prod.mk.inj (Except.ok.inj hrun)
        cases h0

/-- The same elements are live, and they are as they were. -/
structure SameGraph (c c' : Cells) : Prop where
  live : ∀ x, Live c' x ↔ Live c x
  same : PartOf c c'

/-- What is left when everything that was made is erased again. -/
theorem Making.cleaned {arcs : List ScAddr} (h : Making env.thread ctx st0 g arcs s) (hc0 : CellsOk st0) :
    IfReturns (cleanupCreated env ctx order g.createdElements) (fun _ s' =>
      SameGraph st0.cell s'.cell ↔ ∀ x ∈ arcs, Covered s.cell g.createdElements x) s := by
  have hold {x : ScAddr} (hx : Live st0.cell x) : ¬ (x ∈ g.createdElements ∨ x ∈ arcs) :=
    fun hin => type_of_live hx (h.grown.free x hin)
  have hwrite : ∀ a ∈ g.createdElements, ∀ x, InClosure s.cell a x → CanWrite ctx s.cell x := by
    intro a ha x hx
    unfold CanWrite
    rw [h.levels x (h.of_inClosure hc0 (Or.inl ha) hx)]
    exact checkWrite_self _
  apply wp_mono (cleanupCreated_returns g.createdElements h.store
    (fun a ha => ⟨h.grown.live a (Or.inl ha), h.ends a ha⟩) h.nodup hwrite) _ (fun _ _ => trivial)
  intro _ s' ⟨hpart, hlive⟩
  constructor
  · intro hsame x hx
    by_contra hno
    have hx' : Live s'.cell x :=
      (hlive x).mpr ⟨h.grown.live x (Or.inr hx), fun a ha hcl => hno ⟨a, ha, hcl⟩⟩
    exact hold ((hsame.live x).mp hx') (Or.inr hx)
  · intro hall
    have hgone {x : ScAddr} (hx : x ∈ g.createdElements ∨ x ∈ arcs) : ¬ Live s'.cell x := by
      intro hl
      obtain ⟨a, ha, hcl⟩ : Covered s.cell g.createdElements x := by
        rcases hx with hx | hx
        · exact ⟨x, hx, .root⟩
        · exact hall x hx
      exact ((hlive x).mp hl).2 a ha hcl
    refine ⟨fun x => ⟨fun hx => ?_, fun hx => ?_⟩, fun x hx => ?_⟩
    · have hun := h.grown.others x fun hin => hgone hin hx
      exact hun.same.live.mp ((hlive x).mp hx).1
    · refine (hlive x).mpr ⟨(h.grown.others x (hold hx)).same.live.mpr hx, fun a ha hcl => ?_⟩
      exact hold hx (h.of_inClosure hc0 (Or.inl ha) hcl)
    · have hun := h.grown.others x fun hin => hgone hin hx
      obtain ⟨hs, ht, hl, howner⟩ := hpart x hx
      exact ⟨hun.same.live.mp hs, ht.trans hun.same.type, hl.trans hun.same.accessLevels,
        fun d => (howner d).trans (hun.owner d)⟩

end

/-- Where a generation without a result leaves the elements as they were: the parameters have been
refused, or no triple before the one that fails is between two elements that were there before. -/
theorem generate_failure_unchanged_iff {asserts : Bool} {st st' : ScStorage} {env : ScEnv} (thread : ℕ)
    (evs : List StoreEvent) (hr : Run (OwnStep thread) ScStorage.empty evs st) (henv : env.thread = thread)
    (ctx : ScContext) (order : HashOrder) (data : ScTemplateData)
    (harc : ∀ t ∈ data.triples, ArcTyped asserts (data.items t)) (params : ScTemplateParams) (message : String)
    (hdo : scTemplateGenerateDo asserts env ctx order data params st = .ok (.failed message, st')) :
    SameGraph st.cell st'.cell ↔ (checkParams data params = false ∨
      ∀ n, FailsAt asserts env ctx params (data.triples.map data.items) n ⟨ScTemplateNamedStruct.empty, []⟩ st →
        NoneBetweenOld params st.cell ((data.triples.map data.items).take n) ScTemplateNamedStruct.empty) := by
  subst henv
  have hok := ownRun_storeOk evs st hr
  unfold scTemplateGenerateDo at hdo
  split_ifs at hdo with hfixed hcheck
  · cases hdo
  · obtain ⟨_, rfl⟩ := Prod.mk.inj (Except.ok.inj hdo)
    have hfalse : checkParams data params = false := by simpa using hcheck
    exact iff_of_true ⟨fun _ => Iff.rfl, PartOf.refl _⟩ (Or.inl hfalse)
  have htrue : checkParams data params ≠ false := by simpa using hcheck
  obtain ⟨⟨o, s1⟩, hgen, hdo⟩ := bind_ok hdo
  rcases o with e | ⟨_ | edges, g1⟩
  · cases hdo
  · obtain ⟨⟨_, s2⟩, hclean, hdo⟩ := bind_ok hdo
    obtain ⟨_, rfl⟩ := Prod.mk.inj (Except.ok.inj hdo)
    have htyped : ∀ t ∈ data.triples.map data.items, ArcTyped asserts t := by
      intro t ht
      obtain ⟨t', ht', rfl⟩ := List.mem_map.mp ht
      exact harc t' ht'
    have hnames : NamesGiven st ScTemplateNamedStruct.empty ScTemplateNamedStruct.empty := fun _ => .none
    have hnothing : CoveredWhen st ⟨ScTemplateNamedStruct.empty, []⟩ [] st True :=
      ⟨by simp, fun hno => absurd trivial hno⟩
    obtain ⟨n, hfails, arcs, hmaking, hanchored⟩ := generateTriples_failed hok.cells _ htyped
      (making_start hok ScTemplateNamedStruct.empty) hnames hnothing hgen
    rw [true_and] at hanchored
    rw [wp_ok (hmaking.cleaned hok.cells) hclean, or_iff_right htrue]
    constructor
    · intro hall m hm
      rw [← hfails.unique hm]
      by_contra hno
      obtain ⟨x, hx, hb⟩ := hanchored.between hno
      exact hmaking.not_covered hok.cells hb (hall x hx)
    · intro hall
      exact hanchored.covered (hall n hfails)
  · cases hdo

/-! A template of two arcs from the first of two nodes; the second arc goes to an address without an
element. -/

def exampleFirst (target : ScTemplateArg) : Except ScException ScTemplateData :=
  ScTemplateData.empty.addTriple ⟨.ofAddr ⟨0, 1⟩ "", .ofType scTypeEdgeAccessVarPosPerm "", target⟩

def exampleFailing (target : ScTemplateArg) : Except ScException ScTemplateData :=
  (templateOf (exampleFirst target)).addTriple
    ⟨.ofAddr ⟨0, 1⟩ "", .ofType scTypeEdgeAccessVarPosPerm "", .ofAddr ⟨0, 193⟩ ""⟩

/-- The first arc goes to a new node. -/
def failingToNew : ScTemplateData := templateOf (exampleFailing (.ofType scTypeNodeVar "_x"))

/-- The first arc goes to the other node. -/
def failingToOld : ScTemplateData := templateOf (exampleFailing (.ofAddr ⟨0, 33⟩ ""))

def isFailed (x : Except ScStop (GenerateOutcome × ScStorage)) : Bool :=
  match x with
  | .ok (.failed _, _) => true
  | _ => false

theorem exists_of_isFailed {x : Except ScStop (GenerateOutcome × ScStorage)} (h : isFailed x = true) :
    ∃ message st', x = .ok (.failed message, st') := by
  unfold isFailed at h
  split at h
  · exact ⟨_, _, rfl⟩
  · cases h

def liveAfter (x : Except ScStop (GenerateOutcome × ScStorage)) (a : ScAddr) : Bool :=
  match x with
  | .ok (_, st') => scElementIsValid (st'.cell a)
  | .error _ => false

theorem generate_failure_unchanged_new : ∃ message st',
    exampleDo true failingToNew ScTemplateParams.empty = .ok (.failed message, st') ∧
      (SameGraph (stateAfterEvents twoNodes ScStorage.empty).cell st'.cell ↔
        (checkParams failingToNew ScTemplateParams.empty = false ∨
          ∀ n, FailsAt true exampleEnv exampleContext ScTemplateParams.empty
            (failingToNew.triples.map failingToNew.items) n ⟨ScTemplateNamedStruct.empty, []⟩
            (stateAfterEvents twoNodes ScStorage.empty) →
          NoneBetweenOld ScTemplateParams.empty (stateAfterEvents twoNodes ScStorage.empty).cell
            ((failingToNew.triples.map failingToNew.items).take n) ScTemplateNamedStruct.empty)) := by
  have hfailed : isFailed (exampleDo true failingToNew ScTemplateParams.empty) = true := by decide +kernel
  obtain ⟨message, st', hdo⟩ := exists_of_isFailed hfailed
  have harc : ∀ t ∈ failingToNew.triples, ArcTyped true (failingToNew.items t) := by
    unfold ArcTyped
    decide +kernel
  exact ⟨message, st', hdo, generate_failure_unchanged_iff 1 twoNodes twoNodes_run rfl exampleContext
    listedOrder failingToNew harc ScTemplateParams.empty message hdo⟩

/-- The arc between the two nodes stays. -/
theorem generated_arc_left : ∃ message st',
    scTemplateGenerateDo true exampleEnv exampleContext listedOrder failingToOld ScTemplateParams.empty
        (stateAfterEvents twoNodes ScStorage.empty) = .ok (.failed message, st') ∧
      Built failingToOld ∧ Run (OwnStep 1) ScStorage.empty twoNodes (stateAfterEvents twoNodes ScStorage.empty) ∧
      ¬ Live (stateAfterEvents twoNodes ScStorage.empty).cell ⟨0, 65⟩ ∧ Live st'.cell ⟨0, 65⟩ ∧
      ¬ SameGraph (stateAfterEvents twoNodes ScStorage.empty).cell st'.cell := by
  have hfailed : isFailed (exampleDo true failingToOld ScTemplateParams.empty) = true := by decide +kernel
  have hleft : liveAfter (exampleDo true failingToOld ScTemplateParams.empty) ⟨0, 65⟩ = true := by
    decide +kernel
  have hbuilt : Built failingToOld :=
    Built.triple _ (Built.triple _ Built.empty (templateOf_ok (by decide +kernel)))
      (templateOf_ok (by decide +kernel))
  obtain ⟨message, st', hdo⟩ := exists_of_isFailed hfailed
  have hdead : ¬ Live (stateAfterEvents twoNodes ScStorage.empty).cell ⟨0, 65⟩ := by decide +kernel
  rw [hdo] at hleft
  exact ⟨message, st', hdo, hbuilt, twoNodes_run, hdead, hleft, fun hsame => hdead ((hsame.live _).mp hleft)⟩

end ScMachine.Template
