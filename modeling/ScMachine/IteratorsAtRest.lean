import ScMachine.IteratorJoin
import ScMachine.EdgeIterators
import ScMachine.ScTemplateSearch

/-! What the iterators yield in a store at rest, and the relation between elements that it is. -/
namespace ScMachine.Template
open ScMachine.Store

/-- What an iterator over five elements yields one after the other; `none` is the null iterator. -/
def iterator5 (c : Cells) (ctx : ScContext) (params : Iterator5Params) : Option (List FiveAddrs) :=
  if params.main.Creatable c ctx then
    some (match params with
      | .faa beg _ _ _ => params.joined c ctx (arcList c .out beg)
      | .aaf _ _ end_ _ | .faf _ _ end_ _ => params.joined c ctx (arcList c .inp end_))
  else none

def Triple.values (t : Triple ScAddr) : ScAddr × ScAddr × ScAddr := (t.source, t.edge, t.target)

section
variable {env : ScEnv} {st : ScStorage}

/-- The calls of an iterator over three elements return what it yields at rest. -/
theorem iterate3_at_rest (hok : StoreOk env.thread st) (ctx : ScContext) (params : Iterator3Params) :
    Enumerates (iterate3 env (params.create env ctx)) st (CreateRoom st params)
      (((iterator3 st.cell ctx params).getD []).map Triple.values) := by
  have hmap (l : List ScAddr) : (l.map fun x =>
      (⟨ownerOf st.cell .out x, x, ownerOf st.cell .inp x⟩ : Triple ScAddr)).map Triple.values =
        l.map (arcTriple st.cell) := List.map_map
  have hlist {d : Dir} {anchor : ScAddr} (hp : params.arcs = some (d, anchor)) :
      ((iterator3 st.cell ctx params).getD []).map Triple.values =
        if params.Creatable st.cell ctx then
          ((arcList st.cell d anchor).filter (params.matching st.cell ctx)).map (arcTriple st.cell)
        else [] := by
    unfold iterator3
    by_cases hc : params.Creatable st.cell ctx
    · have hfixed : ∀ a ∈ params.fixed, Live st.cell a ∧ CanRead ctx st.cell a := hc
      simp only [if_pos hfixed, if_pos hc, Option.getD_some]
      cases params <;> cases hp <;> exact hmap _
    · have hfixed : ¬ ∀ a ∈ params.fixed, Live st.cell a ∧ CanRead ctx st.cell a := hc
      rw [if_neg hfixed, if_neg hc]
      rfl
  -- the words of the edge are compared before it is yielded
  have hends (p q : Prop) [Decidable p] [Decidable q] (h : p ↔ q) {edge : ScAddr} :
      (if p then [(⟨ownerOf st.cell .out edge, edge, ownerOf st.cell .inp edge⟩ : Triple ScAddr)]
        else []).map Triple.values = if q then [arcTriple st.cell edge] else [] := by
    by_cases hp : p
    · rw [if_pos hp, if_pos (h.mp hp)]
      rfl
    · rw [if_neg hp, if_neg fun hq => hp (h.mpr hq)]
      rfl
  have hedge (hp : params.arcs = none) :
      ((iterator3 st.cell ctx params).getD []).map Triple.values = edgeYield st.cell ctx params := by
    unfold iterator3 edgeYield
    by_cases hc : params.Creatable st.cell ctx
    · have hfixed : ∀ a ∈ params.fixed, Live st.cell a ∧ CanRead ctx st.cell a := hc
      simp only [if_pos hfixed, Option.getD_some, hc, true_and]
      cases params with
      | faa _ _ _ => cases hp
      | aaf _ _ _ => cases hp
      | faf _ _ _ => cases hp
      | afa _ _ _ => exact (if_pos ⟨trivial, trivial⟩).symm
      | ffa _ _ _ => exact hends _ _ (and_iff_left trivial).symm
      | aff _ _ _ => exact hends _ _ (and_iff_right trivial).symm
      | fff _ _ _ => exact hends _ _ Iff.rfl
    · have hfixed : ¬ ∀ a ∈ params.fixed, Live st.cell a ∧ CanRead ctx st.cell a := hc
      rw [if_neg hfixed, if_neg fun h => hc h.1]
      rfl
  cases hp : params.arcs with
  | none =>
    rw [hedge hp]
    exact edge_iterate3_enumerates hok ctx hp
  | some p =>
    obtain ⟨d, anchor⟩ := p
    rw [hlist hp]
    exact iterate3_enumerates hok ctx hp

/-- The calls of an iterator over five elements return what it yields at rest. -/
theorem iterate5_at_rest (hok : StoreOk env.thread st) (ctx : ScContext) (params : Iterator5Params) :
    Enumerates (iterate5 env (params.create env ctx)) st
      (RefRoom st 9 ∧ (∀ a ∈ params.main.fixed, a.offset.toNat < 65535) ∧
        ∀ p5, params.attr.beg = .addr p5 → p5.offset.toNat < 65535)
      ((iterator5 st.cell ctx params).getD []) := by
  obtain ⟨d, anchor, hp⟩ := main_arcs params
  have hlist : (iterator5 st.cell ctx params).getD [] = if params.main.Creatable st.cell ctx then
      params.joined st.cell ctx (arcList st.cell d anchor) else [] := by
    unfold iterator5
    by_cases hc : params.main.Creatable st.cell ctx
    · rw [if_pos hc, if_pos hc]
      cases params <;> cases hp <;> rfl
    · rw [if_neg hc, if_neg hc]
      rfl
  rw [hlist]
  exact iterate5_enumerates hok ctx params hp

end

section
variable {c : Cells} {ctx : ScContext} {params : Iterator5Params} {p1 p2 p3 p4 p5 : ScIteratorParam}

/-- An iterator over five elements yields the constructions that fit its parameters. -/
theorem mem_iterator5 (hc : ArcsOk c) {type : ScIterator5Type}
    (htype : Iterator5Params.ofType type p1 p2 p3 p4 p5 = some params) (a e1 b e2 f : ScAddr) :
    (a, e1, b, e2, f) ∈ (iterator5 c ctx params).getD [] ↔
      IsJoin c ctx p1 p2 p3 p4 p5 a e1 b e2 f := by
  unfold iterator5
  cases params with
  | faa q1 q2 q3 attr =>
    rw [← @mem_joined c ctx .out _ q1 hc rfl type p1 p2 p3 p4 p5 htype]
    split_ifs with h
    · exact (and_iff_right h).symm
    · exact iff_of_false List.not_mem_nil fun hno => h hno.1
  | aaf q1 q2 q3 attr =>
    rw [← @mem_joined c ctx .inp _ q3 hc rfl type p1 p2 p3 p4 p5 htype]
    split_ifs with h
    · exact (and_iff_right h).symm
    · exact iff_of_false List.not_mem_nil fun hno => h hno.1
  | faf q1 q2 q3 attr =>
    rw [← @mem_joined c ctx .inp _ q3 hc rfl type p1 p2 p3 p4 p5 htype]
    split_ifs with h
    · exact (and_iff_right h).symm
    · exact iff_of_false List.not_mem_nil fun hno => h hno.1

/-- The edge is an arc from the source to the target, and the three fit the parameters. -/
structure IsTriple (c : Cells) (p1 p2 p3 : ScIteratorParam) (t : Triple ScAddr) : Prop where
  arc : LiveArc c t.edge
  source : ownerOf c .out t.edge = t.source
  target : ownerOf c .inp t.edge = t.target
  fits : p1.Fits c t.source ∧ p2.Fits c t.edge ∧ p3.Fits c t.target

/-- The kinds of iterators that walk along a list, with the attribute left out. -/
def listParams (params : Iterator3Params) : Option Iterator5Params :=
  match params with
  | .faa beg arcType endType => some (.faa beg arcType endType ⟨0, .type 0⟩)
  | .aaf begType arcType end_ => some (.aaf begType arcType end_ ⟨0, .type 0⟩)
  | .faf beg arcType end_ => some (.faf beg arcType end_ ⟨0, .type 0⟩)
  | _ => none

/-- The three elements may be read. -/
def ReadableTriple (c : Cells) (ctx : ScContext) (t : Triple ScAddr) : Prop :=
  CanRead ctx c t.source ∧ CanRead ctx c t.edge ∧ CanRead ctx c t.target

/-- An iterator over three elements yields the triples that fit and may be read. -/
theorem mem_iterator3 (hc : ArcsOk c) {params3 : Iterator3Params} (hlist : listParams params3 = some params)
    (hparams : params.Takes p1 p2 p3) (t : Triple ScAddr) :
    t ∈ (iterator3 c ctx params3).getD [] ↔ IsTriple c p1 p2 p3 t ∧ ReadableTriple c ctx t := by
  obtain ⟨d, anchor, hp⟩ := main_arcs params
  have hmain : params.main = params3 := by
    cases params3 <;> simp only [listParams, Option.some.injEq, reduceCtorEq] at hlist <;> subst hlist <;> rfl
  have hmem := fun x => @mem_main c ctx d params anchor hc hp x p1 p2 p3 hparams
  rw [hmain] at hmem hp
  have hiter : (iterator3 c ctx params3).getD [] = if params3.Creatable c ctx then
      ((arcList c d anchor).filter (params3.matching c ctx)).map
        (fun x => (⟨ownerOf c .out x, x, ownerOf c .inp x⟩ : Triple ScAddr)) else [] := by
    unfold iterator3
    dsimp only
    by_cases hcreate : params3.Creatable c ctx
    · have hfixed : ∀ a ∈ params3.fixed, Live c a ∧ CanRead ctx c a := hcreate
      rw [if_pos hcreate, if_pos hfixed]
      cases params3 <;> simp only [listParams, reduceCtorEq] at hlist <;>
        (obtain ⟨rfl, rfl⟩ := Prod.mk.inj (Option.some.inj hp); rfl)
    · have hfixed : ¬ ∀ a ∈ params3.fixed, Live c a ∧ CanRead ctx c a := hcreate
      rw [if_neg hcreate, if_neg hfixed]
      rfl
  rw [hiter]
  constructor
  · intro ht
    split_ifs at ht with hcreate
    · obtain ⟨x, hx, rfl⟩ := List.mem_map.mp ht
      obtain ⟨hin, hm⟩ := List.mem_filter.mp hx
      obtain ⟨harc, hread, hfits⟩ := (hmem x).mp ⟨hcreate, hin, of_decide_eq_true hm⟩
      exact ⟨⟨harc, rfl, rfl, hfits⟩, hread⟩
    · cases ht
  · rintro ⟨⟨harc, hs, ht, hfits⟩, hread⟩
    obtain ⟨source, edge, target⟩ := t
    dsimp only at harc hs ht hfits
    subst hs ht
    obtain ⟨hcreate, hin, hm⟩ := (hmem edge).mpr ⟨harc, hread, hfits⟩
    rw [if_pos hcreate]
    exact List.mem_map.mpr ⟨edge, List.mem_filter.mpr ⟨hin, decide_eq_true hm⟩, rfl⟩

/-- Where everything may be read, an iterator over three elements yields the triples that fit. -/
theorem mem_iterator3_readable (hc : ArcsOk c) {params3 : Iterator3Params}
    (hlist : listParams params3 = some params) (hparams : params.Takes p1 p2 p3)
    (hread : ∀ x, Live c x → CanRead ctx c x) (t : Triple ScAddr) :
    t ∈ (iterator3 c ctx params3).getD [] ↔ IsTriple c p1 p2 p3 t := by
  rw [mem_iterator3 hc hlist hparams, and_iff_left_iff_imp]
  intro h
  refine ⟨?_, hread _ h.arc.1, ?_⟩
  · rw [← h.source]
    exact hread _ (hc.endpoint _ .out h.arc)
  · rw [← h.target]
    exact hread _ (hc.endpoint _ .inp h.arc)

end

/-- Every iterator over five elements is one of the six kinds. -/
theorem exists_ofType (params : Iterator5Params) :
    ∃ type p1 p2 p3 p4 p5, Iterator5Params.ofType type p1 p2 p3 p4 p5 = some params := by
  cases params with
  | faa q1 q2 q3 attr =>
    obtain ⟨q4, q5 | q5⟩ := attr
    · exact ⟨.faaaa, .addr q1, .type q2, .type q3, .type q4, .type q5, rfl⟩
    · exact ⟨.faaaf, .addr q1, .type q2, .type q3, .type q4, .addr q5, rfl⟩
  | aaf q1 q2 q3 attr =>
    obtain ⟨q4, q5 | q5⟩ := attr
    · exact ⟨.aafaa, .type q1, .type q2, .addr q3, .type q4, .type q5, rfl⟩
    · exact ⟨.aafaf, .type q1, .type q2, .addr q3, .type q4, .addr q5, rfl⟩
  | faf q1 q2 q3 attr =>
    obtain ⟨q4, q5 | q5⟩ := attr
    · exact ⟨.fafaa, .addr q1, .type q2, .addr q3, .type q4, .type q5, rfl⟩
    · exact ⟨.fafaf, .addr q1, .type q2, .addr q3, .type q4, .addr q5, rfl⟩

section
variable {c : Cells} {ctx : ScContext}

theorem mem_iterator3_faa (hc : ArcsOk c) (hread : ∀ x, Live c x → CanRead ctx c x) (beg : ScAddr)
    (arcType endType : ScType) (t : Triple ScAddr) :
    t ∈ (iterator3 c ctx (.faa beg arcType endType)).getD [] ↔
      IsTriple c (.addr beg) (.type arcType) (.type endType) t :=
  mem_iterator3_readable hc (show listParams _ = some (.faa beg arcType endType ⟨0, .type 0⟩) from rfl) ⟨rfl, rfl, rfl⟩ hread t

theorem mem_iterator3_aaf (hc : ArcsOk c) (hread : ∀ x, Live c x → CanRead ctx c x)
    (begType arcType : ScType) (end_ : ScAddr) (t : Triple ScAddr) :
    t ∈ (iterator3 c ctx (.aaf begType arcType end_)).getD [] ↔
      IsTriple c (.type begType) (.type arcType) (.addr end_) t :=
  mem_iterator3_readable hc (show listParams _ = some (.aaf begType arcType end_ ⟨0, .type 0⟩) from rfl) ⟨rfl, rfl, rfl⟩ hread t

theorem mem_iterator3_faf (hc : ArcsOk c) (hread : ∀ x, Live c x → CanRead ctx c x) (beg : ScAddr)
    (arcType : ScType) (end_ : ScAddr) (t : Triple ScAddr) :
    t ∈ (iterator3 c ctx (.faf beg arcType end_)).getD [] ↔
      IsTriple c (.addr beg) (.type arcType) (.addr end_) t :=
  mem_iterator3_readable hc (show listParams _ = some (.faf beg arcType end_ ⟨0, .type 0⟩) from rfl) ⟨rfl, rfl, rfl⟩ hread t

end

end ScMachine.Template
