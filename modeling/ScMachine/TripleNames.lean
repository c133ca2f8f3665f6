import ScMachine.TemplateItems

/-! What `AddTriple` leaves of a template, whether it returns or throws. -/
namespace ScMachine.Template
open ScMachine.Store ScMachine.StateExcept

def sameReplacementMessage : String :=
  "You can't use same replacement for an edge and source/target"

/-- The edge bears the name of another argument. -/
def SameReplacement (args : Triple ScTemplateArg) : Prop :=
  args.edge.hasReplacementName = true ∧
    (args.edge.replacementName = args.source.replacementName ∨
      args.edge.replacementName = args.target.replacementName)

instance (args : Triple ScTemplateArg) : Decidable (SameReplacement args) :=
  inferInstanceAs (Decidable (_ ∧ _))

/-- `AddTriple` with the template that it leaves, and the exception if it throws one. The items of
the arguments before a refused one stay where they have been put. -/
def ScTemplateData.addTripleState (d : ScTemplateData) (args : Triple ScTemplateArg) :
    Option ScException × ScTemplateData :=
  if SameReplacement args then (some (.invalidParams sameReplacementMessage), d)
  else
    match d.addItem args.source with
    | .error e => (some e, d)
    | .ok (source, d1) =>
      match d1.addItem args.edge with
      | .error e => (some e, d1)
      | .ok (edge, d2) =>
        match d2.addItem args.target with
        | .error e => (some e, d2)
        | .ok (target, d3) => (none, { d3 with triples := d3.triples ++ [⟨source, edge, target⟩] })

/-- The templates that calls leave, also those that throw. -/
inductive Reached : ScTemplateData → Prop
  | empty : Reached ScTemplateData.empty
  | triple {d : ScTemplateData} (args : Triple ScTemplateArg) :
      Reached d → Reached (d.addTripleState args).2
  | replAlias {asserts : Bool} {d d' : ScTemplateData} (replName newAlias : String) :
      Reached d → d.setupReplAlias asserts replName newAlias = .ok d' → Reached d'

/-- Every index that the template stores is that of an item. -/
structure Indexed (d : ScTemplateData) : Prop where
  names : ∀ name i, d.repl name = some i → i < d.elements.length
  triples : ∀ t ∈ d.triples, ∀ i ∈ t.toList, i < d.elements.length

/-- The argument has no name, or its name leads to the item. -/
def Resolves (d : ScTemplateData) (arg : ScTemplateArg) (i : ℕ) : Prop :=
  arg.hasReplacementName = true → d.repl arg.replacementName = some i

/-- A triple has been added for the arguments, and all else is as it was. -/
structure TripleAdded (d : ScTemplateData) (args : Triple ScTemplateArg) (d' : ScTemplateData) :
    Prop where
  triple : ∃ t, d'.triples = d.triples ++ [t] ∧ Resolves d' args.source t.source ∧
    Resolves d' args.edge t.edge ∧ Resolves d' args.target t.target
  names : ∀ name i, d.repl name = some i → d'.repl name = some i
  elements : d.elements <+: d'.elements
  indexed : Indexed d'

def AddTripleKeeps (d : ScTemplateData) (args : Triple ScTemplateArg) : Prop :=
  match d.addTripleState args with
  | (none, d') => TripleAdded d args d'
  | (some _, d') => d' = d

/-! What becomes of an argument is told by the names that are known before it. -/

def ScTemplateData.names (d : ScTemplateData) : Set String := fun name => (d.repl name).isSome = true

/-- The exceptions that the loop of `AddTriple` throws. -/
def Refused (names : Set String) (arg : ScTemplateArg) : Prop :=
  (arg.kind = .type ∧ arg.typeValue.isConst = true) ∨
    (arg.kind = .addr ∧ arg.addrValue = ScAddr.empty) ∨
    (arg.kind ≠ .replace ∧ arg.hasReplacementName = true ∧ arg.replacementName ∈ names) ∨
    (arg.kind = .replace ∧ arg.replacementName ∉ names)

/-- The argument gets an item of its own. -/
def AddsItem (names : Set String) (arg : ScTemplateArg) : Prop :=
  arg.kind = .type ∨ (arg.kind = .addr ∧ arg.addrValue.toString ∉ names)

/-- The names that are known after the argument. -/
def namesAfter (names : Set String) (arg : ScTemplateArg) : Set String := fun name =>
  name ∈ names ∨ (AddsItem names arg ∧
    ((arg.kind = .addr ∧ name = arg.addrValue.toString) ∨
      (arg.hasReplacementName = true ∧ name = arg.replacementName)))

/-- An address that is known shares the item of that address, which does not get the name. -/
def LosesName (names : Set String) (arg : ScTemplateArg) : Prop :=
  arg.kind = .addr ∧ arg.addrValue.toString ∈ names ∧ arg.hasReplacementName = true

/-- No name of the arguments is lost, and none of them is refused after an item has been added. -/
def TripleClean (names : Set String) (args : Triple ScTemplateArg) : Prop :=
  let names1 := namesAfter names args.source
  let names2 := namesAfter names1 args.edge
  SameReplacement args ∨ Refused names args.source ∨
    (Refused names1 args.edge ∧ ¬ AddsItem names args.source) ∨
    (¬ Refused names1 args.edge ∧ Refused names2 args.target ∧ ¬ AddsItem names args.source ∧
      ¬ AddsItem names1 args.edge) ∨
    (¬ Refused names1 args.edge ∧ ¬ Refused names2 args.target ∧ ¬ LosesName names args.source ∧
      ¬ LosesName names1 args.edge ∧ ¬ LosesName names2 args.target)

section
variable {d d' d'' : ScTemplateData} {i j : ℕ} {arg arg' : ScTemplateArg}
  {name : String}

theorem mem_names : name ∈ d.names ↔ (d.repl name).isSome = true := Iff.rfl

theorem not_mem_names : name ∉ d.names ↔ d.repl name = none := by
  rw [mem_names, Bool.not_eq_true, Option.isSome_eq_false_iff, Option.isNone_iff_eq_none]

theorem mem_insertName (repl : String → Option ℕ) (m : String) :
    (insertName repl m j name).isSome = true ↔ (repl name).isSome = true ∨ name = m := by
  unfold insertName
  by_cases hm : (repl m).isSome = true
  · rw [if_pos hm]
    exact ⟨Or.inl, fun h => h.elim id (fun he => he ▸ hm)⟩
  · rw [if_neg hm]
    by_cases he : name = m
    · rw [he, Function.update_self]
      exact iff_of_true rfl (Or.inr rfl)
    · rw [Function.update_of_ne he]
      exact ⟨Or.inl, fun h => h.elim id (fun h => absurd h he)⟩

theorem mem_insertReplacementName (repl : String → Option ℕ) :
    (insertReplacementName arg repl j name).isSome = true ↔
      (repl name).isSome = true ∨ (arg.hasReplacementName = true ∧ name = arg.replacementName) := by
  unfold insertReplacementName
  by_cases harg : arg.hasReplacementName = true
  · rw [if_pos harg, mem_insertName]
    simp only [harg, true_and]
  · rw [if_neg harg]
    exact (or_iff_left (fun h => harg h.1)).symm

/-- The checks of the loop. -/
theorem addItem_refused : (∃ e, d.addItem arg = .error e) ↔ Refused d.names arg := by
  unfold ScTemplateData.addItem Refused
  simp only [mem_names]
  split_ifs with hconst hempty hname
  · exact iff_of_true ⟨_, rfl⟩ (Or.inl hconst)
  · exact iff_of_true ⟨_, rfl⟩ (Or.inr (Or.inl hempty))
  · exact iff_of_true ⟨_, rfl⟩ (Or.inr (Or.inr (Or.inl hname)))
  · simp only [hconst, hempty, hname, false_or]
    cases hkind : arg.kind with
    | addr =>
      dsimp only
      cases d.repl arg.addrValue.toString <;> simp
    | type => simp
    | replace =>
      dsimp only
      cases d.repl arg.replacementName <;> simp

theorem addItem_accepted (h : d.addItem arg = .ok (i, d')) : ¬ Refused d.names arg := by
  rw [← addItem_refused, h]
  exact fun ⟨_, he⟩ => nomatch he

theorem AddedItem.triples_eq (h : AddedItem d arg i d') : d'.triples = d.triples := by
  cases h <;> rfl

theorem AddedItem.mono (h : AddedItem d arg i d') (hname : d.repl name = some j) :
    d'.repl name = some j := by
  cases h with
  | addr => exact insertReplacementName_mono _ _ (insertName_mono _ _ _ hname)
  | type => exact insertReplacementName_mono _ _ hname
  | knownAddr => exact hname
  | knownName => exact hname

/-- A name that an argument enters leads to the item behind the others. -/
theorem AddedItem.entered (h : AddedItem d arg i d') (hname : d'.repl name = some j) :
    d.repl name = some j ∨ j = d.elements.length := by
  cases h with
  | addr =>
    exact (insertReplacementName_some _ _ hname).elim (insertName_some _ _ _) Or.inr
  | type => exact insertReplacementName_some _ _ hname
  | knownAddr => exact Or.inl hname
  | knownName => exact Or.inl hname

theorem AddedItem.same (h : AddedItem d arg i d') (hadds : ¬ AddsItem d.names arg) : d' = d := by
  cases h with
  | addr hkind _ hnew _ => exact absurd (Or.inr ⟨hkind, not_mem_names.mpr hnew⟩) hadds
  | type hkind _ _ => exact absurd (Or.inl hkind) hadds
  | knownAddr => rfl
  | knownName => rfl

theorem not_addsItem_addr (hkind : arg.kind = .addr)
    (hknown : d.repl arg.addrValue.toString = some i) : ¬ AddsItem d.names arg := by
  rintro (htype | ⟨_, hnew⟩)
  · rw [hkind] at htype
    cases htype
  · rw [not_mem_names.mp hnew] at hknown
    cases hknown

theorem not_addsItem_replace (names : Set String) (hkind : arg.kind = .replace) :
    ¬ AddsItem names arg := by
  rintro (htype | ⟨haddr, _⟩)
  · rw [hkind] at htype
    cases htype
  · rw [hkind] at haddr
    cases haddr

theorem AddedItem.elements (h : AddedItem d arg i d') (hadds : AddsItem d.names arg) :
    d'.elements = d.elements ++ [arg] := by
  cases h with
  | addr => rfl
  | type => rfl
  | knownAddr _ hkind hknown _ => exact absurd hadds (not_addsItem_addr hkind hknown)
  | knownName _ hkind _ => exact absurd hadds (not_addsItem_replace _ hkind)

theorem AddedItem.kept (h : AddedItem d arg i d') : d.elements <+: d'.elements := by
  by_cases hadds : AddsItem d.names arg
  · exact ⟨[arg], (h.elements hadds).symm⟩
  · rw [h.same hadds]

theorem AddedItem.knownNames (h : AddedItem d arg i d') : d'.names = namesAfter d.names arg := by
  ext name
  by_cases hadds : AddsItem d.names arg
  · have hafter : name ∈ namesAfter d.names arg ↔ name ∈ d.names ∨
        ((arg.kind = .addr ∧ name = arg.addrValue.toString) ∨
          (arg.hasReplacementName = true ∧ name = arg.replacementName)) :=
      or_congr Iff.rfl (and_iff_right hadds)
    rw [hafter, mem_names, mem_names]
    cases h with
    | addr hkind =>
      rw [mem_insertReplacementName, mem_insertName, or_assoc]
      simp only [hkind, true_and]
    | type hkind =>
      rw [mem_insertReplacementName]
      simp only [hkind, reduceCtorEq, false_and, false_or]
    | knownAddr _ hkind hknown _ => exact absurd hadds (not_addsItem_addr hkind hknown)
    | knownName _ hkind _ => exact absurd hadds (not_addsItem_replace _ hkind)
  · rw [h.same hadds]
    exact ⟨Or.inl, fun hname => hname.elim id (fun hnew => absurd hnew.1 hadds)⟩

/-- The item of an argument bears its name, unless it is shared by address. -/
theorem AddedItem.resolves (h : AddedItem d arg i d') (hkeeps : ¬ LosesName d.names arg) :
    Resolves d' arg i := by
  intro hname
  cases h with
  | addr _ _ hnew hfresh =>
    unfold insertReplacementName
    rw [if_pos hname]
    by_cases he : arg.replacementName = arg.addrValue.toString
    · rw [he]
      exact insertName_mono _ _ _ (insertName_self _ _ _ hnew)
    · apply insertName_self
      have hnone := hfresh hname
      unfold insertName
      rw [hnew]
      simpa [Function.update_of_ne he] using hnone
  | type _ _ hfresh =>
    unfold insertReplacementName
    rw [if_pos hname]
    exact insertName_self _ _ _ (hfresh hname)
  | knownAddr _ hkind hknown _ =>
    exact absurd ⟨hkind, mem_names.mpr (Option.isSome_iff_exists.mpr ⟨i, hknown⟩), hname⟩ hkeeps
  | knownName _ _ hknown => exact hknown

/-- The name of an argument that is shared by address is not entered. -/
theorem AddedItem.lost (h : AddedItem d arg i d') (hloses : LosesName d.names arg) :
    d'.repl arg.replacementName = none := by
  obtain ⟨hkind, hknown, hname⟩ := hloses
  cases h with
  | addr _ _ hnew _ => exact absurd hknown (not_mem_names.mpr hnew)
  | type htype _ _ =>
    rw [hkind] at htype
    cases htype
  | knownAddr _ _ _ hfresh => exact hfresh hname
  | knownName _ hreplace _ =>
    rw [hkind] at hreplace
    cases hreplace

theorem AddedItem.lt {ps : List ℕ} (hok : ItemsOk d ps) (h : AddedItem d arg i d') :
    i < d'.elements.length := by
  cases h with
  | addr => simp
  | type => simp
  | knownAddr _ _ hknown _ => exact (hok.target _ _ hknown).1
  | knownName _ _ hknown => exact (hok.target _ _ hknown).1

/-- A name that does not lead to an item that is there will not lead to it later. -/
theorem AddedItem.not_later (h : AddedItem d arg j d') (hi : i < d.elements.length)
    (hname : d.repl name ≠ some i) : d'.repl name ≠ some i := by
  intro hlater
  rcases h.entered hlater with hold | hnew
  · exact hname hold
  · omega

/-- The items have places, be they in a triple or left from a call that threw. -/
def Placed (d : ScTemplateData) : Prop :=
  ∃ ps, (∀ i ∈ places d.triples, i ∈ ps) ∧ ItemsOk d ps

theorem Placed.indexed (h : Placed d) : Indexed d := by
  obtain ⟨ps, hps, hok⟩ := h
  refine ⟨fun name i hi => (hok.target name i hi).1, fun t ht i hi => hok.range i (hps i ?_)⟩
  exact List.mem_flatMap.mpr ⟨t, ht, hi⟩

theorem Placed.addItem (h : Placed d) (hadd : d.addItem arg = .ok (i, d')) : Placed d' := by
  obtain ⟨ps, hps, hok⟩ := h
  obtain ⟨hok', htriples⟩ := hok.addItem hadd
  refine ⟨ps ++ [i], fun k hk => List.mem_append_left _ (hps k ?_), hok'⟩
  rwa [htriples] at hk

theorem Placed.addTriple (h : Placed d) (args : Triple ScTemplateArg) :
    Placed (d.addTripleState args).2 := by
  unfold ScTemplateData.addTripleState
  by_cases hsame : SameReplacement args
  · rw [if_pos hsame]
    exact h
  rw [if_neg hsame]
  cases h1 : d.addItem args.source with
  | error e => exact h
  | ok a =>
    obtain ⟨source, d1⟩ := a
    dsimp only
    cases h2 : d1.addItem args.edge with
    | error e => exact h.addItem h1
    | ok b =>
      obtain ⟨edge, d2⟩ := b
      dsimp only
      cases h3 : d2.addItem args.target with
      | error e => exact (h.addItem h1).addItem h2
      | ok c =>
        obtain ⟨target, d3⟩ := c
        obtain ⟨ps, hps, hok⟩ := h
        obtain ⟨hok1, ht1⟩ := hok.addItem h1
        obtain ⟨hok2, ht2⟩ := hok1.addItem h2
        obtain ⟨hok3, ht3⟩ := hok2.addItem h3
        refine ⟨ps ++ [source] ++ [edge] ++ [target], fun i hi => ?_,
          ⟨hok3.range, hok3.kinds, hok3.addrs, hok3.named, hok3.target, hok3.notConst, hok3.once⟩⟩
        have hsplit : i ∈ places d.triples ∨ i = source ∨ i = edge ∨ i = target := by
          simpa [places, ht1, ht2, ht3, Triple.toList, or_assoc] using hi
        simp only [List.mem_append, List.mem_singleton, or_assoc]
        exact hsplit.imp_left (hps i)

theorem Placed.setupReplAlias (h : Placed d) {asserts : Bool} {replName newAlias : String}
    (hset : d.setupReplAlias asserts replName newAlias = .ok d') : Placed d' := by
  obtain ⟨ps, hps, hok⟩ := h
  obtain ⟨hok', htriples⟩ := hok.setupReplAlias hset
  refine ⟨ps, fun i hi => hps i ?_, hok'⟩
  rwa [htriples] at hi

theorem Reached.placed (h : Reached d) : Placed d := by
  induction h with
  | empty => exact ⟨[], fun _ hi => hi, itemsOk_empty⟩
  | triple args _ ih => exact ih.addTriple args
  | replAlias replName newAlias _ hset ih => exact ih.setupReplAlias hset

/-- Once an item has been put behind the others, the template is another one. -/
theorem ne_of_elements (hadds : d'.elements = d.elements ++ [arg]) (hkept : d'.elements <+: d''.elements) :
    d'' ≠ d := by
  rintro rfl
  have hlength := hkept.length_le
  rw [hadds, List.length_append, List.length_singleton] at hlength
  omega

theorem Placed.index_lt (h : Placed d) (hadd : d.addItem arg = .ok (i, d')) :
    i < d'.elements.length := by
  obtain ⟨ps, _, hok⟩ := h
  exact AddedItem.lt hok (addItem_added hadd)

theorem Resolves.later (h : Resolves d arg i) (hadded : AddedItem d arg' j d') :
    Resolves d' arg i := fun hname => hadded.mono (h hname)

/-- The triple of accepted arguments has their items if and only if no name was lost. -/
theorem tripleAdded_iff (hplaced : Placed d) (args : Triple ScTemplateArg) {source edge target : ℕ}
    {d1 d2 d3 : ScTemplateData} (h1 : d.addItem args.source = .ok (source, d1))
    (h2 : d1.addItem args.edge = .ok (edge, d2)) (h3 : d2.addItem args.target = .ok (target, d3))
    (hindexed : Indexed { d3 with triples := d3.triples ++ [⟨source, edge, target⟩] }) :
    TripleAdded d args { d3 with triples := d3.triples ++ [⟨source, edge, target⟩] } ↔
      ¬ LosesName d.names args.source ∧ ¬ LosesName d1.names args.edge ∧
        ¬ LosesName d2.names args.target := by
  have hplaced1 := hplaced.addItem h1
  have hplaced2 := hplaced1.addItem h2
  have hlt1 := hplaced.index_lt h1
  have hlt2 := hplaced1.index_lt h2
  have hadded1 := addItem_added h1
  have hadded2 := addItem_added h2
  have hadded3 := addItem_added h3
  have htriples : d3.triples = d.triples := by
    rw [hadded3.triples_eq, hadded2.triples_eq, hadded1.triples_eq]
  constructor
  · intro hadded
    obtain ⟨t, ht, hsource, hedge, htarget⟩ := hadded.triple
    obtain rfl : (⟨source, edge, target⟩ : Triple ℕ) = t := by
      have happend : d3.triples ++ [⟨source, edge, target⟩] = d.triples ++ [t] := ht
      rw [htriples] at happend
      exact List.singleton_inj.mp (List.append_cancel_left happend)
    refine ⟨fun hloses => ?_, fun hloses => ?_, fun hloses => ?_⟩
    · have hnot : d1.repl args.source.replacementName ≠ some source := by
        rw [hadded1.lost hloses]
        exact nofun
      have hnot2 := hadded2.not_later hlt1 hnot
      exact hadded3.not_later (hlt1.trans_le hadded2.kept.length_le) hnot2 (hsource hloses.2.2)
    · have hnot : d2.repl args.edge.replacementName ≠ some edge := by
        rw [hadded2.lost hloses]
        exact nofun
      exact hadded3.not_later hlt2 hnot (hedge hloses.2.2)
    · have hresolves : d3.repl args.target.replacementName = some target := htarget hloses.2.2
      rw [hadded3.lost hloses] at hresolves
      cases hresolves
  · rintro ⟨hsource, hedge, htarget⟩
    refine ⟨⟨_, congrArg (· ++ _) htriples, ?_, ?_, ?_⟩, fun name i hname => ?_, ?_, hindexed⟩
    · have hresolves := ((hadded1.resolves hsource).later hadded2).later hadded3
      exact hresolves
    · have hresolves := (hadded2.resolves hedge).later hadded3
      exact hresolves
    · exact hadded3.resolves htarget
    · exact hadded3.mono (hadded2.mono (hadded1.mono hname))
    · exact (hadded1.kept.trans hadded2.kept).trans hadded3.kept

/-- `AddTriple` keeps the template consistent if and only if no name of its arguments is lost and
none of them is refused after an item has been added. -/
theorem addTriple_keeps_iff (h : Reached d) (args : Triple ScTemplateArg) :
    AddTripleKeeps d args ↔ TripleClean d.names args := by
  have hplaced := h.placed
  have hafter := hplaced.addTriple args
  unfold AddTripleKeeps TripleClean
  by_cases hsame : SameReplacement args
  · rw [ScTemplateData.addTripleState, if_pos hsame]
    exact iff_of_true rfl (Or.inl hsame)
  simp only [hsame, false_or]
  rw [ScTemplateData.addTripleState, if_neg hsame] at hafter ⊢
  cases h1 : d.addItem args.source with
  | error e => exact iff_of_true rfl (Or.inl (addItem_refused.mp ⟨e, h1⟩))
  | ok a =>
    obtain ⟨source, d1⟩ := a
    have hadded1 := addItem_added h1
    have haccepted1 := addItem_accepted h1
    simp only [haccepted1, false_or, ← hadded1.knownNames]
    rw [h1] at hafter
    dsimp only at hafter ⊢
    cases h2 : d1.addItem args.edge with
    | error e =>
      have hrefused := addItem_refused.mp ⟨e, h2⟩
      simp only [hrefused, not_true_eq_false, false_and, or_false, true_and]
      exact ⟨fun he hadds => ne_of_elements (hadded1.elements hadds) List.prefix_rfl he, hadded1.same⟩
    | ok b =>
      obtain ⟨edge, d2⟩ := b
      have hadded2 := addItem_added h2
      have haccepted2 := addItem_accepted h2
      simp only [haccepted2, false_and, false_or, not_false_eq_true, true_and, ← hadded2.knownNames]
      rw [h2] at hafter
      dsimp only at hafter ⊢
      cases h3 : d2.addItem args.target with
      | error e =>
        have hrefused := addItem_refused.mp ⟨e, h3⟩
        simp only [hrefused, not_true_eq_false, false_and, or_false, true_and]
        constructor
        · intro he
          refine ⟨fun hadds => ne_of_elements (hadded1.elements hadds) hadded2.kept he,
            fun hadds => ?_⟩
          have hshort := (hadded1.kept.trans List.prefix_rfl).length_le
          have hlength := congrArg List.length (hadded2.elements hadds)
          rw [he, List.length_append, List.length_singleton] at hlength
          omega
        · intro hclean
          rw [hadded2.same hclean.2, hadded1.same hclean.1]
      | ok c =>
        obtain ⟨target, d3⟩ := c
        have hadded3 := addItem_added h3
        have haccepted3 := addItem_accepted h3
        simp only [haccepted3, false_and, false_or, not_false_eq_true, true_and]
        rw [h3] at hafter
        dsimp only at hafter ⊢
        exact tripleAdded_iff hplaced args h1 h2 h3 hafter.indexed

end

def someAddr (offset : BitVec 16) (replName : String) : ScTemplateArg := .ofAddr ⟨0, offset⟩ replName

def someArc : ScTemplateArg := .ofType (scTypeArcAccess ||| scTypeVar) ""

/-- The template of one triple between two addresses. -/
def oneTriple : ScTemplateData :=
  (ScTemplateData.empty.addTripleState ⟨someAddr 1 "", someArc, someAddr 2 ""⟩).2

theorem oneTriple_reached : Reached oneTriple := Reached.empty.triple _

theorem addTriple_keeps_new_address :
    AddTripleKeeps oneTriple ⟨someAddr 3 "_x", someArc, someAddr 2 ""⟩ ↔
      TripleClean oneTriple.names ⟨someAddr 3 "_x", someArc, someAddr 2 ""⟩ :=
  addTriple_keeps_iff oneTriple_reached _

/-- The name of an address that is known is lost, and the item before an unknown name stays. -/
theorem lost_name_and_leftover_item :
    Reached oneTriple ∧
      (oneTriple.addTripleState ⟨someAddr 1 "_x", someArc, someAddr 3 ""⟩).1 = none ∧
      (oneTriple.addTripleState ⟨someAddr 1 "_x", someArc, someAddr 3 ""⟩).2.repl "_x" = none ∧
      ¬ AddTripleKeeps oneTriple ⟨someAddr 1 "_x", someArc, someAddr 3 ""⟩ ∧
      (ScTemplateData.empty.addTripleState ⟨someAddr 1 "", .ofName "_y", someAddr 2 ""⟩).1 =
        some (.invalidParams "There are no parameter with name _y") ∧
      (ScTemplateData.empty.addTripleState ⟨someAddr 1 "", .ofName "_y", someAddr 2 ""⟩).2.elements =
        [someAddr 1 ""] ∧
      ¬ AddTripleKeeps ScTemplateData.empty ⟨someAddr 1 "", .ofName "_y", someAddr 2 ""⟩ := by
  have hreturns : (oneTriple.addTripleState ⟨someAddr 1 "_x", someArc, someAddr 3 ""⟩).1 = none := by
    decide +kernel
  have hlost : (oneTriple.addTripleState ⟨someAddr 1 "_x", someArc, someAddr 3 ""⟩).2.repl "_x" =
      none := by decide +kernel
  have hthrows : (ScTemplateData.empty.addTripleState
      ⟨someAddr 1 "", .ofName "_y", someAddr 2 ""⟩).1 =
        some (.invalidParams "There are no parameter with name _y") := by decide +kernel
  have hleft : (ScTemplateData.empty.addTripleState
      ⟨someAddr 1 "", .ofName "_y", someAddr 2 ""⟩).2.elements = [someAddr 1 ""] := by decide +kernel
  refine ⟨oneTriple_reached, hreturns, hlost, fun hkeeps => ?_, hthrows, hleft, fun hkeeps => ?_⟩
  · unfold AddTripleKeeps at hkeeps
    cases hstate : oneTriple.addTripleState ⟨someAddr 1 "_x", someArc, someAddr 3 ""⟩ with
    | mk e d' =>
      rw [hstate] at hkeeps hreturns hlost
      cases hreturns
      obtain ⟨t, _, hsource, _⟩ := hkeeps.triple
      cases hlost.symm.trans (hsource rfl)
  · unfold AddTripleKeeps at hkeeps
    cases hstate : ScTemplateData.empty.addTripleState
        ⟨someAddr 1 "", .ofName "_y", someAddr 2 ""⟩ with
    | mk e d' =>
      rw [hstate] at hkeeps hthrows hleft
      cases hthrows
      rw [hkeeps] at hleft
      cases hleft

end ScMachine.Template
