import ScMachine.GraphMemory
import ScMachine.LinkContents
import ScMachine.CreationSteps
import ScMachine.AgentCommands
import ScMachine.StoreRestart

/-! The store as a graph memory: whatever a single thread calls, the answers are those of a graph to
which elements are added and from which an element is deleted with all that depends on it. -/
namespace ScMachine.Store
open ScMachine.StateExcept ScMachine.Runs ScMachine.GraphMemory ScMachine.ByteFormat

/-- What callers see of an element besides its ends. The flags are for internal usage. -/
structure ElementLabel where
  type : ScType
  accessLevels : ScAccessLevels

abbrev StoreGraph := ElementGraph ScAddr ElementLabel

def labelOf (el : ScElement) : ElementLabel := ⟨scFlagsRemove el.type, el.accessLevels⟩

def graphOf (c : Cells) : StoreGraph where
  label x := if scElementIsValid (c x) then some (labelOf (c x)) else none
  ends x := if scElementIsValid (c x) ∧ (c x).isArc then some (ownerOf c .out x, ownerOf c .inp x)
    else none

/-- What a call of the store returns. -/
def StorageCall.Answer : StorageCall → Type
  | .isElement _ => Bool
  | .elementFree _ _ _ | .changeElementSubtype _ _ _ | .setLinkContent _ _ _ => ScResult
  | .nodeNew _ _ | .linkNew _ _ | .arcNew _ _ _ _ => ScAddr
  | .getElementType _ _ => ScResult × Option ScType
  | .getArcBegin _ _ | .getArcEnd _ _ => ScResult × Option ScAddr
  | .getArcInfo _ _ => ScResult × Option (ScAddr × ScAddr)
  | .getLinkContent _ _ => ScResult × Option (List ScByte)
  | .findLinksWithContent _ _ => ScResult × List ScAddr × ℕ
  | .setAccessLevels _ _ _ | .getAccessLevels _ _ => ScResult × Option ScAccessLevels

def StorageCall.answer (env : ScEnv) : (c : StorageCall) → StoreM c.Answer
  | .isElement a => scStorageIsElement env a
  | .elementFree ctx order a => scStorageElementFree env ctx order a
  | .nodeNew ctx type => scStorageNodeNew env ctx type
  | .linkNew ctx isConst => scStorageLinkNew env ctx isConst
  | .arcNew ctx type beg end_ => scStorageArcNew env ctx type beg end_
  | .getElementType ctx a => scStorageGetElementType env ctx a
  | .changeElementSubtype ctx a type => scStorageChangeElementSubtype env ctx a type
  | .getArcBegin ctx a => scStorageGetArcBegin env ctx a
  | .getArcEnd ctx a => scStorageGetArcEnd env ctx a
  | .getArcInfo ctx a => scStorageGetArcInfo env ctx a
  | .setLinkContent ctx a stream => scStorageSetLinkContent env ctx a stream
  | .getLinkContent ctx a => scStorageGetLinkContent env ctx a
  | .findLinksWithContent ctx stream => scStorageFindLinksWithContent env ctx stream
  | .setAccessLevels ctx a levels => scStorageSetAccessLevels env ctx a levels
  | .getAccessLevels ctx a => scStorageGetAccessLevels env ctx a

theorem run_eq_answer (env : ScEnv) (c : StorageCall) : c.run env = ignoreResult (c.answer env) := by
  cases c <;> rfl

/-- A reader of the element `a`: what its label says to a context that may read it, `failed`
without the right, and a failure where there is no element. -/
def Reads {α : Type} (g : StoreGraph) (ctx : ScContext) (a : ScAddr)
    (value : ElementLabel → ScResult × Option α) (r : ScResult × Option α) : Prop :=
  match g.label a with
  | none => r.1 ≠ .ok ∧ r.2 = none
  | some l =>
    r = if scAccessLvlCheckRead ctx.accessLevels l.accessLevels then value l
      else (.errorNoReadRights, none)

/-- The readers of the ends of an arc. -/
def ReadsEnds {α : Type} (g : StoreGraph) (ctx : ScContext) (a : ScAddr)
    (value : ScAddr × ScAddr → α) : ScResult × Option α → Prop :=
  Reads g ctx a fun _ =>
    match g.ends a with
    | some p => (.ok, some (value p))
    | none => (.errorInvalidType, none)

/-- A writer of the label of `a`. -/
def Writes (g : StoreGraph) (ctx : ScContext) (a : ScAddr) (l l' : ElementLabel) (ok denied : Prop)
    (g' : StoreGraph) : Prop :=
  if scAccessLvlCheckWrite ctx.accessLevels l.accessLevels then ok ∧ g' = g.relabel a l'
  else denied ∧ g' = g

def SubtypeChanges (g : StoreGraph) (ctx : ScContext) (a : ScAddr) (type : ScType) (r : ScResult)
    (g' : StoreGraph) : Prop :=
  match g.label a with
  | none => r ≠ .ok ∧ g' = g
  | some l =>
    if l.type &&& scTypeElementMask ≠ type &&& scTypeElementMask then
      r = .errorInvalidParams ∧ g' = g
    else Writes g ctx a l { l with type := scFlagsRemove type } (r = .ok) (r = .errorNoWriteRights) g'

def LevelsChange (g : StoreGraph) (ctx : ScContext) (a : ScAddr) (levels : ScAccessLevels)
    (r : ScResult × Option ScAccessLevels) (g' : StoreGraph) : Prop :=
  match g.label a with
  | none => g' = g
  | some l =>
    Writes g ctx a l { l with accessLevels := scAccessLvlMin ctx.accessLevels levels }
      (r = (.ok, some (scAccessLvlMin ctx.accessLevels levels))) (r = (.errorNoWriteRights, none)) g'

/-- The content of a link that the context may write is set; the graph stays. -/
def ContentSets (g : StoreGraph) (ctx : ScContext) (a : ScAddr) (r : ScResult) (g' : StoreGraph) :
    Prop :=
  (r = .ok → ∃ l, g.label a = some l ∧ l.type &&& scTypeLink ≠ 0 ∧
    scAccessLvlCheckWrite ctx.accessLevels l.accessLevels = true) ∧ g' = g

/-- The context may write the element, if it is one. -/
def StoreGraph.MayWrite (g : StoreGraph) (ctx : ScContext) (x : ScAddr) : Prop :=
  ∀ l, g.label x = some l → scAccessLvlCheckWrite ctx.accessLevels l.accessLevels = true

/-- An element is deleted with what depends on it, or something of that may not be written. The rights
of one of the elements that depend on it, which the graph does not tell, are not asked for. -/
def Deletes (g : StoreGraph) (ctx : ScContext) (a : ScAddr) (r : ScResult) (g' : StoreGraph) : Prop :=
  (a ∉ g.elements ∧ r = .error ∧ g' = g) ∨
    (a ∈ g.elements ∧ r = .errorNoWriteRights ∧ g' = g ∧ ∃ x, g.Dependent a x ∧ ¬ g.MayWrite ctx x) ∨
    (a ∈ g.elements ∧ r = .ok ∧ g' = g.delete a ∧ g.MayWrite ctx a ∧
      ∃ y, ∀ x, g.Dependent a x → x ≠ y → g.MayWrite ctx x)

/-- A new element `x` if this is possible, or else nothing new and no address. -/
def Creates (g : StoreGraph) (possible : Prop) (x : ScAddr) (l : ElementLabel)
    (p : Option (ScAddr × ScAddr)) (g' : StoreGraph) : Prop :=
  (¬ possible ∧ x = ScAddr.empty ∧ g' = g) ∨
    (possible ∧ x ≠ ScAddr.empty ∧ x ∉ g.elements ∧ g' = g.put x l p)

/-- What the calls are for, in terms of the graph, where there is room for more elements or not: `c` may
answer `r` and leave `g'`. The contents of links are not part of the graph. -/
def Specified (g : StoreGraph) (room : Prop) : (c : StorageCall) → c.Answer → StoreGraph → Prop
  | .isElement a, r, g' => (r = true ↔ a ∈ g.elements) ∧ g' = g
  | .elementFree ctx _ a, r, g' => Deletes g ctx a r g'
  | .nodeNew ctx type, x, g' =>
    Creates g room x ⟨scFlagsRemove (scTypeNode ||| type), ctx.accessLevels⟩ none g'
  | .linkNew ctx isConst, x, g' =>
    Creates g room x ⟨scTypeLink ||| (if isConst then scTypeConst else scTypeVar), ctx.accessLevels⟩
      none g'
  | .arcNew ctx type beg end_, x, g' =>
    Creates g (beg ∈ g.elements ∧ end_ ∈ g.elements) x ⟨arcTypeOf type, ctx.accessLevels⟩
      (some (beg, end_)) g' ∧ (x ≠ ScAddr.empty → room)
  | .getElementType ctx a, r, g' => Reads g ctx a (fun l => (.ok, some l.type)) r ∧ g' = g
  | .changeElementSubtype ctx a type, r, g' => SubtypeChanges g ctx a type r g'
  | .getArcBegin ctx a, r, g' => ReadsEnds g ctx a Prod.fst r ∧ g' = g
  | .getArcEnd ctx a, r, g' => ReadsEnds g ctx a Prod.snd r ∧ g' = g
  | .getArcInfo ctx a, r, g' => ReadsEnds g ctx a id r ∧ g' = g
  | .setLinkContent ctx a _, r, g' => ContentSets g ctx a r g'
  | .getLinkContent _ _, _, g' => g' = g
  | .findLinksWithContent _ _, _, g' => g' = g
  | .setAccessLevels ctx a levels, r, g' => LevelsChange g ctx a levels r g'
  | .getAccessLevels ctx a, r, g' =>
    (a ∈ g.elements → Reads g ctx a (fun l => (.ok, some l.accessLevels)) r) ∧ g' = g

section
variable {env : ScEnv} {ctx : ScContext} {c c' : Cells} {st st' s : ScStorage} {a x : ScAddr}

theorem label_of_live (hx : Live c x) : (graphOf c).label x = some (labelOf (c x)) := if_pos hx

theorem label_of_dead (hx : ¬ Live c x) : (graphOf c).label x = none := if_neg hx

theorem mem_graphOf : x ∈ (graphOf c).elements ↔ Live c x := by
  rw [ElementGraph.mem_elements]
  by_cases hx : Live c x
  · rw [label_of_live hx]
    exact iff_of_true (by simp) hx
  · rw [label_of_dead hx]
    exact iff_of_false (by simp) hx

theorem ends_of_arc (hx : LiveArc c x) :
    (graphOf c).ends x = some (ownerOf c .out x, ownerOf c .inp x) := if_pos hx

theorem ends_of_other (hx : ¬ LiveArc c x) : (graphOf c).ends x = none := if_neg hx

theorem ends_iff {p : ScAddr × ScAddr} : (graphOf c).ends x = some p ↔
    LiveArc c x ∧ ownerOf c .out x = p.1 ∧ ownerOf c .inp x = p.2 := by
  by_cases hx : LiveArc c x
  · rw [ends_of_arc hx, Option.some.injEq, Prod.ext_iff]
    simp only [hx, true_and]
  · rw [ends_of_other hx]
    exact iff_of_false (by simp) (fun h => hx h.1)

theorem graphOf_closed (h : ArcsOk c) : (graphOf c).Closed := by
  intro x p hp
  obtain ⟨hx, hb, he⟩ := ends_iff.mp hp
  simp only [mem_graphOf, ← hb, ← he]
  exact ⟨hx.1, h.endpoint x .out hx, h.endpoint x .inp hx⟩

theorem incident_iff (y : ScAddr) :
    (graphOf c).Incident x y ↔ LiveArc c x ∧ ∃ d, ownerOf c d x = y := by
  constructor
  · rintro ⟨p, hp, hend⟩
    obtain ⟨hx, hb, he⟩ := ends_iff.mp hp
    refine ⟨hx, ?_⟩
    rcases hend with rfl | rfl
    · exact ⟨.out, hb⟩
    · exact ⟨.inp, he⟩
  · rintro ⟨hx, d, rfl⟩
    refine ⟨_, ends_of_arc hx, ?_⟩
    cases d with
    | out => exact Or.inl rfl
    | inp => exact Or.inr rfl

/-- The elements that a deletion removes are those that depend on the deleted one. -/
theorem dependent_iff : (graphOf c).Dependent a x ↔ InClosure c a x := by
  constructor
  · intro h
    induction h with
    | refl => exact .root
    | arc x y _ hxy ih =>
      obtain ⟨hx, d, rfl⟩ := (incident_iff y).mp hxy
      exact .arc x d hx ih
  · intro h
    induction h with
    | root => exact .refl
    | arc x d hx _ ih => exact .arc x _ ih ((incident_iff _).mpr ⟨hx, d, rfl⟩)

theorem labelOf_eq {el el' : ScElement} (ht : el'.type = el.type)
    (hl : el'.accessLevels = el.accessLevels) : labelOf el' = labelOf el := by
  unfold labelOf
  rw [ht, hl]

/-- Where two stores have the same element, the graphs are the same there. -/
theorem graphOf_at (hlive : Live c' x ↔ Live c x) (hlabel : labelOf (c' x) = labelOf (c x))
    (harc : (c' x).isArc = (c x).isArc) (ho : ∀ d, ownerOf c' d x = ownerOf c d x) :
    (graphOf c').label x = (graphOf c).label x ∧ (graphOf c').ends x = (graphOf c).ends x := by
  have hiff : LiveArc c' x ↔ LiveArc c x := by
    unfold LiveArc
    rw [hlive, harc]
  constructor
  · by_cases hx : Live c x
    · rw [label_of_live hx, label_of_live (hlive.mpr hx), hlabel]
    · rw [label_of_dead hx, label_of_dead (fun h => hx (hlive.mp h))]
  · by_cases hx : LiveArc c x
    · rw [ends_of_arc hx, ends_of_arc (hiff.mpr hx), ho, ho]
    · rw [ends_of_other hx, ends_of_other (fun h => hx (hiff.mp h))]

theorem graphOf_at_eq (h : c' x = c x) :
    (graphOf c').label x = (graphOf c).label x ∧ (graphOf c').ends x = (graphOf c).ends x := by
  apply graphOf_at
  · unfold Live
    rw [h]
  · rw [h]
  · rw [h]
  · intro d
    unfold ownerOf
    rw [h]

theorem Untouched.graphOf_at (h : Untouched st st' x) :
    (graphOf st'.cell).label x = (graphOf st.cell).label x ∧
      (graphOf st'.cell).ends x = (graphOf st.cell).ends x := by
  apply Store.graphOf_at h.same.live (labelOf_eq h.same.type h.same.accessLevels) _ h.owner
  unfold ScElement.isArc
  rw [h.same.type]

theorem graphOf_of_unlocked (h : s.unlocked = st.unlocked) : graphOf s.cell = graphOf st.cell := by
  rw [cell_of_unlocked h]

theorem graphOf_created {el : ScElement} (h : Created st a (Function.update st.cell a el) st')
    (hlive : scElementIsValid el = true) (harc : el.isArc = false) :
    graphOf st'.cell = (graphOf st.cell).put a (labelOf el) none := by
  have hcell := h.refCount.2.2.2
  have hself : st'.cell a = el := by rw [hcell, Function.update_self]
  apply ElementGraph.eq_put
  · rw [label_of_live (by rw [Live, hself]; exact hlive), hself]
  · apply ends_of_other
    rintro ⟨_, h⟩
    rw [hself, harc] at h
    exact absurd h (by decide)
  · intro x hx
    apply graphOf_at_eq
    rw [hcell, Function.update_of_ne hx]

theorem graphOf_arcCreated {type : ScType} {beg end_ : ScAddr} {levels : ScAccessLevels}
    (h : ArcCreated st type beg end_ levels a st') (hc : CellsOk st) :
    graphOf st'.cell = (graphOf st.cell).put a ⟨arcTypeOf type, levels⟩ (some (beg, end_)) := by
  have hnew := h.isArc hc
  have howner := (h.added hc).owner
  have hlabel : labelOf (st'.cell a) = ⟨arcTypeOf type, levels⟩ := by
    unfold labelOf
    rw [h.typeOf.1, h.typeOf.2]
    unfold arcTypeOf
    rw [flagsRemove_idem]
  apply ElementGraph.eq_put
  · rw [label_of_live hnew.1, hlabel]
  · rw [ends_of_arc hnew, howner, howner, if_pos rfl, if_pos rfl]
  · intro x hx
    exact (h.untouched hc hx).graphOf_at

theorem graphOf_updated {el : ScElement} {fm : FileMemory} (h : CellUpdated st a el fm st')
    (ha : Live st.cell a) (hlive : scElementIsValid el = true) (harc : el.isArc = (st.cell a).isArc)
    (hfield : (st.cell a).isArc = true → ∀ f, el.arc f = (st.cell a).arc f) :
    graphOf st'.cell = (graphOf st.cell).relabel a (labelOf el) := by
  have hself : st'.cell a = el := by rw [h.cell, Function.update_self]
  have hnew : Live st'.cell a := by
    rw [Live, hself]
    exact hlive
  apply ElementGraph.eq_relabel
  · rw [label_of_live hnew, hself]
  · by_cases hl : (st.cell a).isArc = true
    · rw [ends_of_arc ⟨hnew, by rw [hself, harc, hl]⟩, ends_of_arc ⟨ha, hl⟩]
      unfold ownerOf
      rw [hself, hfield hl, hfield hl]
    · rw [ends_of_other (fun h' => hl h'.2), ends_of_other]
      rintro ⟨_, h'⟩
      rw [hself, harc] at h'
      exact hl h'
  · intro x hx
    apply graphOf_at_eq
    rw [h.cell, Function.update_of_ne hx]

theorem graphOf_erased (hc : CellsOk st) (ha : Live st.cell a) {order : HashOrder}
    (he : Erased env st (erasedList order st.cell a) st') :
    graphOf st'.cell = (graphOf st.cell).delete a := by
  have hlive := he.dead_iff hc ha
  apply ElementGraph.eq_delete
  · intro x hx
    rw [dependent_iff] at hx
    have hdead : ¬ Live st'.cell x := fun h => ((hlive x).mp h).2 hx
    exact ⟨label_of_dead hdead, ends_of_other fun h => hdead h.1⟩
  · intro x hx
    rw [dependent_iff] at hx
    have hs := he.cells.same x ((mem_erasedList hc.arcs ha order x).not.mpr hx)
    exact graphOf_at hs.live (labelOf_eq hs.type hs.accessLevels) hs.isArc hs.owner

/-! The answers. -/

theorem underLock_own {α : Type} (hok : StoreOk env.thread st) (body : Bool → StoreM α)
    (Q : α → ScStorage → Prop)
    (hfalse : ¬ Live st.cell a → ∀ s, s.unlocked = st.unlocked → IfReturns (body false) Q s)
    (htrue : ∀ s, s.unlocked = st.unlocked → Holds env.thread st.locks [a] s → Loaded st a →
      IfReturns (body true) Q s) :
    IfReturns (scStorageElementLock env a >>= body) Q st := by
  have hstart := holds_start env.thread st hok.wf.1 hok.wf.2
  rw [IfReturns, wp_bind]
  apply wp_mono (elementLock_wp hstart a) _ (fun _ _ => trivial)
  rintro r s ⟨hu, hl, hh⟩
  cases r with
  | false =>
    apply hfalse _ s hu
    intro ha
    exact absurd (hl.mpr (hok.cells.loaded hok.wf.2 (type_of_live ha))) (by simp)
  | true => exact htrue s hu hh (hl.mp rfl)

theorem isElement_answer (hok : StoreOk env.thread st) (a : ScAddr) :
    IfReturns (scStorageIsElement env a) (fun r s => (r = true ↔ a ∈ (graphOf st.cell).elements) ∧
      graphOf s.cell = graphOf st.cell) st := by
  simp only [mem_graphOf]
  unfold scStorageIsElement
  apply underLock_own hok
  · intro ha s hu
    exact ⟨iff_of_false (by simp) ha, graphOf_of_unlocked hu⟩
  · intro s hu h1 _
    simp only [Bool.not_true, Bool.false_eq_true, if_false]
    rw [IfReturns, wp_bind, wp_readCell, wp_bind]
    apply unlock_rule h1
    intro s' hu' _
    refine ⟨?_, graphOf_of_unlocked (hu'.trans hu)⟩
    rw [cell_of_unlocked hu]
    exact Iff.rfl

theorem readElement_answer {α : Type} (hok : StoreOk env.thread st) (a : ScAddr)
    (body : ScElement → ScResult × Option α) :
    IfReturns (readElement env a body) (fun r s => graphOf s.cell = graphOf st.cell ∧
      ((¬ Live st.cell a ∧ r.1 ≠ .ok ∧ r.2 = none) ∨ (Live st.cell a ∧ r = body (st.cell a)))) st := by
  unfold readElement
  apply underLock_own hok
  · intro ha s hu
    exact ⟨graphOf_of_unlocked hu, Or.inl ⟨ha, by simp, rfl⟩⟩
  · intro s hu h1 _
    simp only [Bool.not_true, Bool.false_eq_true, if_false]
    rw [IfReturns, wp_bind, wp_readCell, wp_bind]
    apply unlock_rule h1
    intro s' hu' _
    refine ⟨graphOf_of_unlocked (hu'.trans hu), ?_⟩
    rw [cell_of_unlocked hu]
    split_ifs with hvalid
    · exact Or.inr ⟨hvalid, rfl⟩
    · exact Or.inl ⟨hvalid, by simp, rfl⟩

theorem getElementType_answer (hok : StoreOk env.thread st) (a : ScAddr) :
    IfReturns (scStorageGetElementType env ctx a) (fun r s =>
      Reads (graphOf st.cell) ctx a (fun l => (.ok, some l.type)) r ∧
        graphOf s.cell = graphOf st.cell) st := by
  apply wp_mono (readElement_answer hok a _) _ (fun _ _ => trivial)
  rintro r s ⟨hg, ⟨hd, hr⟩ | ⟨hl, rfl⟩⟩
  · refine ⟨?_, hg⟩
    unfold Reads
    rw [label_of_dead hd]
    exact hr
  · refine ⟨?_, hg⟩
    unfold Reads
    rw [label_of_live hl]
    rfl

theorem readArc_answer {α : Type} (hok : StoreOk env.thread st) (a : ScAddr)
    (value : ScAddr × ScAddr → α) :
    IfReturns (readArc env ctx a fun el => value (el.arc .arcBegin, el.arc .arcEnd)) (fun r s =>
      ReadsEnds (graphOf st.cell) ctx a value r ∧ graphOf s.cell = graphOf st.cell) st := by
  apply wp_mono (readElement_answer hok a _) _ (fun _ _ => trivial)
  rintro r s ⟨hg, ⟨hd, hr⟩ | ⟨hl, rfl⟩⟩
  · refine ⟨?_, hg⟩
    unfold ReadsEnds Reads
    rw [label_of_dead hd]
    exact hr
  · refine ⟨?_, hg⟩
    unfold ReadsEnds Reads
    rw [label_of_live hl]
    by_cases harc : (st.cell a).isArc = true
    · simp only [ends_of_arc ⟨hl, harc⟩, harc, if_true]
      rfl
    · simp only [ends_of_other (fun h => harc h.2), harc]
      rfl

theorem getAccessLevels_answer (hok : StoreOk env.thread st) (a : ScAddr) :
    IfReturns (scStorageGetAccessLevels env ctx a) (fun r s =>
      (a ∈ (graphOf st.cell).elements →
        Reads (graphOf st.cell) ctx a (fun l => (.ok, some l.accessLevels)) r) ∧
        graphOf s.cell = graphOf st.cell) st := by
  simp only [mem_graphOf]
  unfold scStorageGetAccessLevels
  apply underLock_own hok
  · intro ha s hu
    exact ⟨fun h => absurd h ha, graphOf_of_unlocked hu⟩
  · intro s hu h1 _
    simp only [Bool.not_true, Bool.false_eq_true, if_false]
    rw [IfReturns, wp_bind, wp_readCell, wp_bind]
    apply unlock_rule h1
    intro s' hu' _
    have hg := graphOf_of_unlocked (hu'.trans hu)
    rw [cell_of_unlocked hu]
    have hreads (r : ScResult × Option ScAccessLevels)
        (hr : r = if scAccessLvlCheckRead ctx.accessLevels (st.cell a).accessLevels then
          (.ok, some (st.cell a).accessLevels) else (.errorNoReadRights, none)) :
        Live st.cell a →
          Reads (graphOf st.cell) ctx a (fun l => (.ok, some l.accessLevels)) r := by
      intro hl
      unfold Reads
      rw [label_of_live hl]
      exact hr
    rw [wp_ite]
    refine ⟨fun hread => ⟨hreads _ ?_, hg⟩, fun hread => ⟨hreads _ ?_, hg⟩⟩
    · rw [if_pos hread]
    · rw [if_neg hread]

theorem writes_ok {g g' : StoreGraph} {l l' : ElementLabel} {ok denied : Prop}
    (h : scAccessLvlCheckWrite ctx.accessLevels l.accessLevels = true) (hok : ok)
    (hg : g' = g.relabel a l') : Writes g ctx a l l' ok denied g' := by
  unfold Writes
  rw [if_pos h]
  exact ⟨hok, hg⟩

theorem writes_denied {g g' : StoreGraph} {l l' : ElementLabel} {ok denied : Prop}
    (h : ¬ scAccessLvlCheckWrite ctx.accessLevels l.accessLevels = true) (hd : denied)
    (hg : g' = g) : Writes g ctx a l l' ok denied g' := by
  unfold Writes
  rw [if_neg h]
  exact ⟨hd, hg⟩

theorem changeSubtype_answer (hok : StoreOk env.thread st) (a : ScAddr) (type : ScType)
    (hallow : (StorageCall.changeElementSubtype ctx a type).Allowed st) :
    IfReturns (scStorageChangeElementSubtype env ctx a type) (fun r s =>
      SubtypeChanges (graphOf st.cell) ctx a type r (graphOf s.cell)) st := by
  have hcells := hok.cells
  unfold scStorageChangeElementSubtype
  apply underLock_own hok
  · intro ha s hu
    simp only [SubtypeChanges, label_of_dead ha]
    exact ⟨by simp, graphOf_of_unlocked hu⟩
  intro s hu h1 hl
  simp only [Bool.not_true, Bool.false_eq_true, if_false]
  rw [IfReturns, wp_bind, wp_readCell, cell_of_unlocked hu]
  by_cases hvalid : Live st.cell a
  swap
  · rw [if_pos (by simpa [Live] using hvalid), wp_bind]
    apply unlock_rule h1
    intro s' hu' _
    simp only [SubtypeChanges, label_of_dead hvalid]
    exact ⟨by simp, graphOf_of_unlocked (hu'.trans hu)⟩
  rw [if_neg (by simpa [Live] using hvalid)]
  have hmask : (labelOf (st.cell a)).type &&& scTypeElementMask =
      (st.cell a).type &&& scTypeElementMask := flagsRemove_and _ _ (by decide)
  simp only [SubtypeChanges, label_of_live hvalid, hmask]
  split_ifs with hclass hrights
  · exact ⟨rfl, graphOf_of_unlocked hu⟩
  · have hw : Writable s a := ⟨(loaded_of_unlocked hu a).mpr hl,
      (hcells.holes.of_unlocked hu).not_hole (by rw [cell_of_unlocked hu]; exact type_of_live hvalid)⟩
    rw [wp_bind]
    apply modifyCell_rule h1 (hcells.holes.of_unlocked hu) hw
    intro s2 h2 w2
    rw [wp_bind]
    apply unlock_rule h2
    intro s3 hu3 _
    have hup := w2.cellUpdated.of_unlocked hu hu3
    rw [cell_of_unlocked hu] at hup
    have hg := graphOf_updated hup hvalid (valid_of_type hallow.1 hallow.2.1)
      (by unfold ScElement.isArc; rw [and_of_mask (not_not.mp hclass) (by decide)])
      (fun _ _ => rfl)
    exact writes_ok hrights rfl hg
  · rw [wp_bind]
    apply unlock_rule h1
    intro s3 hu3 _
    exact writes_denied hrights rfl (graphOf_of_unlocked (hu3.trans hu))

theorem setAccessLevels_answer (hok : StoreOk env.thread st) (a : ScAddr) (levels : ScAccessLevels)
    (hallow : (st.cell a).type ≠ 0) :
    IfReturns (scStorageSetAccessLevels env ctx a levels) (fun r s =>
      LevelsChange (graphOf st.cell) ctx a levels r (graphOf s.cell)) st := by
  have hcells := hok.cells
  unfold scStorageSetAccessLevels
  apply underLock_own hok
  · intro ha s hu
    simp only [LevelsChange, label_of_dead ha]
    exact graphOf_of_unlocked hu
  intro s hu h1 hl
  simp only [Bool.not_true, Bool.false_eq_true, if_false]
  have hw : Writable s a := ⟨(loaded_of_unlocked hu a).mpr hl,
    (hcells.holes.of_unlocked hu).not_hole (by rw [cell_of_unlocked hu]; exact hallow)⟩
  rw [IfReturns, wp_bind, wp_readCell, cell_of_unlocked hu, wp_ite]
  constructor
  · intro hrights
    rw [wp_bind]
    apply modifyCell_rule h1 (hcells.holes.of_unlocked hu) hw
    intro s2 h2 w2
    rw [wp_bind]
    apply unlock_rule h2
    intro s3 hu3 _
    have hup := w2.cellUpdated.of_unlocked hu hu3
    rw [cell_of_unlocked hu] at hup
    by_cases hlive : Live st.cell a
    · have hg := graphOf_updated hup hlive hlive rfl (fun _ _ => rfl)
      simp only [LevelsChange, label_of_live hlive]
      exact writes_ok hrights rfl hg
    · simp only [LevelsChange, label_of_dead hlive]
      -- a deleted element that is still referenced is written too, and stays no element
      have hat (x : ScAddr) : (graphOf s3.cell).label x = (graphOf st.cell).label x ∧
          (graphOf s3.cell).ends x = (graphOf st.cell).ends x := by
        by_cases hx : x = a
        · subst hx
          have hdead : ¬ Live s3.cell x := by
            rw [Live, hup.cell, Function.update_self]
            exact hlive
          rw [label_of_dead hdead, label_of_dead hlive, ends_of_other fun h => hdead h.1,
            ends_of_other fun h => hlive h.1]
          exact ⟨rfl, rfl⟩
        · apply graphOf_at_eq
          rw [hup.cell, Function.update_of_ne hx]
      ext1
      · funext x
        exact (hat x).1
      · funext x
        exact (hat x).2
  · intro hrights
    rw [wp_bind]
    apply unlock_rule h1
    intro s3 hu3 _
    have hg := graphOf_of_unlocked (hu3.trans hu)
    by_cases hlive : Live st.cell a
    · simp only [LevelsChange, label_of_live hlive]
      exact writes_denied hrights rfl hg
    · simp only [LevelsChange, label_of_dead hlive]
      exact hg

theorem setLinkContent_answer (hok : StoreOk env.thread st) (a : ScAddr) (stream : ScStream) :
    IfReturns (scStorageSetLinkContent env ctx a stream) (fun r s =>
      ContentSets (graphOf st.cell) ctx a r (graphOf s.cell)) st := by
  have hstart := holds_start env.thread st hok.wf.1 hok.wf.2
  apply wp_mono (setLinkContent_effect hstart hok.cells ctx a stream) _ (fun _ _ => trivial)
  intro r s hout
  cases hout with
  | failed _ _ hr hu => exact ⟨fun h => absurd h hr, graphOf_of_unlocked hu⟩
  | set _ hl hw hk hup =>
    have hlabel : (graphOf st.cell).label a = some (labelOf (st.cell a)) := label_of_live hl
    have hlink : (labelOf (st.cell a)).type &&& scTypeLink = (st.cell a).type &&& scTypeLink :=
      flagsRemove_and _ _ (by decide)
    refine ⟨fun _ => ⟨_, hlabel, ?_, hw⟩, ?_⟩
    · rw [hlink]
      exact bne_iff_ne.mp hk
    · have hnarc : (st.cell a).isArc = false := by
        by_contra harc
        rw [hok.cells.oneClass a (by simpa using harc)] at hk
        exact absurd hk (by decide)
      have hsame : labelOf (contentCell (env.checksum stream.bytes) stream.bytes (st.cell a)) =
          labelOf (st.cell a) := by
        unfold labelOf scFlagsRemove
        rw [contentCell_type _ _ _ _ (by decide) (by decide)]
        congr 1
        unfold contentCell
        split_ifs <;> rfl
      have hg := graphOf_updated hup hl (contentCell_live _ _ hk hl)
        (by unfold ScElement.isArc; rw [contentCell_type _ _ _ _ (by decide) (by decide)])
        (fun harc => absurd harc (by simp [hnarc]))
      rw [hg, hsame, ElementGraph.relabel_self hlabel]

theorem Created.not_mem {c : Cells} (h : Created st x c st') : x ∉ (graphOf st.cell).elements := by
  rw [mem_graphOf]
  exact fun hl => type_of_live hl h.refCount.2.2.1

theorem nodeNew_answer (hok : StoreOk env.thread st) (type : ScType) :
    IfReturns (scStorageNodeNew env ctx type) (fun x s =>
      Creates (graphOf st.cell) (st.segmentsNum < env.maxLoadedSegments) x
        ⟨scFlagsRemove (scTypeNode ||| type), ctx.accessLevels⟩ none (graphOf s.cell)) st := by
  have hstart := holds_start env.thread st hok.wf.1 hok.wf.2
  unfold scStorageNodeNew scStorageNodeNewExt
  rw [IfReturns, wp_bind, wp_scAssert]
  refine ⟨fun hm => ?_, fun _ => trivial⟩
  apply wp_mono (newElement_made hstart hok.cells ctx _) _ (fun _ _ => trivial)
  rintro x s (⟨hfull, rfl, hx⟩ | ⟨hroom, hcr⟩)
  · exact Or.inl ⟨not_lt.mpr hfull, hx, rfl⟩
  · have hg := @graphOf_created _ _ _ (nodeCell ctx type) hcr (Template.nodeCell_live ctx type x)
      (nodeCell_isArc ctx type (by simpa using hm))
    have hlabel : labelOf (nodeCell ctx type) =
        ⟨scFlagsRemove (scTypeNode ||| type), ctx.accessLevels⟩ := by
      unfold labelOf nodeCell
      rw [flagsRemove_idem]
    rw [hlabel] at hg
    exact Or.inr ⟨hroom, hcr.notEmpty, hcr.not_mem, hg⟩

theorem linkNew_answer (hok : StoreOk env.thread st) (isConst : Bool) :
    IfReturns (scStorageLinkNew env ctx isConst) (fun x s =>
      Creates (graphOf st.cell) (st.segmentsNum < env.maxLoadedSegments) x
        ⟨scTypeLink ||| (if isConst then scTypeConst else scTypeVar), ctx.accessLevels⟩ none
        (graphOf s.cell)) st := by
  have hstart := holds_start env.thread st hok.wf.1 hok.wf.2
  apply wp_mono (newElement_made hstart hok.cells ctx _) _ (fun _ _ => trivial)
  rintro x s (⟨hfull, rfl, hx⟩ | ⟨hroom, hcr⟩)
  · exact Or.inl ⟨not_lt.mpr hfull, hx, rfl⟩
  · have hg := @graphOf_created _ _ _ (linkCell ctx isConst) hcr (Template.linkCell_live ctx isConst x)
      (linkCell_type ctx isConst).2
    have hlabel : labelOf (linkCell ctx isConst) =
        ⟨scTypeLink ||| (if isConst then scTypeConst else scTypeVar), ctx.accessLevels⟩ := by
      have hflags (b : Bool) : scFlagsRemove (scTypeLink ||| (if b then scTypeConst else scTypeVar)) =
          scTypeLink ||| (if b then scTypeConst else scTypeVar) := by
        cases b <;> decide
      unfold labelOf linkCell
      rw [hflags]
    rw [hlabel] at hg
    exact Or.inr ⟨hroom, hcr.notEmpty, hcr.not_mem, hg⟩

theorem arcNew_answer (hok : StoreOk env.thread st) (type : ScType) (beg end_ : ScAddr)
    (hlink : type &&& scTypeLink = 0) :
    IfReturns (scStorageArcNew env ctx type beg end_) (fun x s => Creates (graphOf st.cell)
      (beg ∈ (graphOf st.cell).elements ∧ end_ ∈ (graphOf st.cell).elements) x
      ⟨arcTypeOf type, ctx.accessLevels⟩ (some (beg, end_)) (graphOf s.cell) ∧
        (x ≠ ScAddr.empty → st.segmentsNum < env.maxLoadedSegments)) st := by
  have hstart := holds_start env.thread st hok.wf.1 hok.wf.2
  simp only [mem_graphOf]
  by_cases hboth : Live st.cell beg ∧ Live st.cell end_
  · by_cases htype : scTypeNode &&& type = 0
    · apply wp_mono (wp_and (arcNew_live hok htype hlink hboth.1 hboth.2)
        (arcNew_room hok htype hboth.1 hboth.2)) _ (fun _ _ => trivial)
      rintro x s ⟨⟨_, hcr⟩, hroom⟩
      have hmade := graphOf_arcCreated hcr hok.cells
      exact ⟨Or.inr ⟨hboth, hcr.created.notEmpty, hcr.created.not_mem, hmade⟩, fun _ => hroom⟩
    · unfold scStorageArcNew scStorageArcNewExt
      rw [IfReturns, wp_bind, wp_scAssert]
      exact ⟨fun h => absurd (by simpa using h) htype, fun _ => trivial⟩
  · apply wp_mono (arcNew_returns hstart hok.cells ctx type beg end_) _ (fun _ _ => trivial)
    rintro x s (⟨hu, hx⟩ | hcr)
    · exact ⟨Or.inl ⟨hboth, hx, graphOf_of_unlocked hu⟩, fun hne => absurd hx hne⟩
    · exact absurd ⟨hcr.beginLive, hcr.endLive⟩ hboth

theorem mayWrite_iff {c : Cells} (hx : Live c x) : (graphOf c).MayWrite ctx x ↔ CanWrite ctx c x := by
  unfold StoreGraph.MayWrite CanWrite
  rw [label_of_live hx]
  simp only [Option.some.injEq, forall_eq']
  exact Iff.rfl

/-- Besides the one that the search reaches last, the rights of every element that goes are asked for. -/
theorem unchecked_one (c : Cells) (a : ScAddr) :
    ∃ y, ∀ x ∈ removeOrder c a, x ≠ y → x ∈ checkedElements c a := by
  by_cases hnil : removeOrder c a = []
  · exact ⟨a, fun x hx => by simp [hnil] at hx⟩
  · refine ⟨(removeOrder c a).getLast hnil, fun x hx hne => ?_⟩
    rw [checkedElements, List.dropLast_cons_of_ne_nil hnil]
    rw [← List.dropLast_append_getLast hnil, List.mem_append, List.mem_singleton] at hx
    exact List.mem_cons_of_mem _ (hx.resolve_right hne)

theorem root_checked {c : Cells} (hc : ArcsOk c) (ha : Live c a) : a ∈ checkedElements c a := by
  have hroot : a ∈ removeOrder c a := (mem_removeOrder hc ha a).mpr .root
  rw [checkedElements, List.dropLast_cons_of_ne_nil (List.ne_nil_of_mem hroot)]
  exact List.mem_cons_self

theorem elementFree_answer (hok : StoreOk env.thread st) (order : HashOrder) (a : ScAddr) :
    IfReturns (scStorageElementFree env ctx order a)
      (fun r s => Deletes (graphOf st.cell) ctx a r (graphOf s.cell)) st := by
  have hstart := holds_start env.thread st hok.wf.1 hok.wf.2
  apply wp_mono (elementFree_wp hstart hok.cells ctx order a) _ (fun _ _ => trivial)
  rintro r s ⟨_, hout⟩
  cases hout with
  | dead _ hd hu => exact Or.inl ⟨mem_graphOf.not.mpr hd, rfl, graphOf_of_unlocked hu⟩
  | denied _ hl hden hu =>
    refine Or.inr (Or.inl ⟨mem_graphOf.mpr hl, rfl, graphOf_of_unlocked hu, ?_⟩)
    push Not at hden
    obtain ⟨x, hx, hno⟩ := hden
    have hclosure : InClosure st.cell a x := by
      rcases List.mem_cons.mp (List.mem_of_mem_dropLast hx) with rfl | hx
      · exact .root
      · exact (mem_removeOrder hok.cells.arcs hl x).mp hx
    exact ⟨x, dependent_iff.mpr hclosure, fun hmay => hno ((mayWrite_iff (hclosure.live hl)).mp hmay)⟩
  | freed _ hl hcan he =>
    refine Or.inr (Or.inr ⟨mem_graphOf.mpr hl, rfl, graphOf_erased hok.cells hl he, ?_, ?_⟩)
    · exact (mayWrite_iff hl).mpr (hcan a (root_checked hok.cells.arcs hl))
    · obtain ⟨y, hy⟩ := unchecked_one st.cell a
      refine ⟨y, fun x hx hxy => ?_⟩
      have hclosure := dependent_iff.mp hx
      apply (mayWrite_iff (hclosure.live hl)).mpr
      exact hcan x (hy x ((mem_removeOrder hok.cells.arcs hl x).mpr hclosure) hxy)

/-- Whatever is called, the answer and the new graph are as specified. -/
theorem answer_specified (hok : StoreOk env.thread st) (c : StorageCall) (hallow : c.Allowed st) :
    IfReturns (c.answer env) (fun r s => Specified (graphOf st.cell)
      (st.segmentsNum < env.maxLoadedSegments) c r (graphOf s.cell)) st := by
  cases c with
  | isElement a => exact isElement_answer hok a
  | elementFree ctx order a => exact elementFree_answer hok order a
  | nodeNew ctx type => exact nodeNew_answer hok type
  | linkNew ctx isConst => exact linkNew_answer hok isConst
  | arcNew ctx type beg end_ => exact arcNew_answer hok type beg end_ hallow
  | getElementType ctx a => exact getElementType_answer hok a
  | changeElementSubtype ctx a type => exact changeSubtype_answer hok a type hallow
  | getArcBegin ctx a => exact readArc_answer hok a Prod.fst
  | getArcEnd ctx a => exact readArc_answer hok a Prod.snd
  | getArcInfo ctx a => exact readArc_answer hok a id
  | setLinkContent ctx a stream => exact setLinkContent_answer hok a stream
  | getLinkContent ctx a =>
    exact wp_mono (readOnly_getLinkContent ctx a st st rfl) (fun _ _ hu => graphOf_of_unlocked hu)
      (fun _ _ => trivial)
  | findLinksWithContent ctx stream =>
    exact wp_mono (readOnly_findLinks ctx stream st st rfl) (fun _ _ hu => graphOf_of_unlocked hu)
      (fun _ _ => trivial)
  | setAccessLevels ctx a levels => exact setAccessLevels_answer hok a levels hallow
  | getAccessLevels ctx a => exact getAccessLevels_answer hok a

end

/-! Runs with their answers. -/

def StoreAction.Answer : StoreAction → Type
  | .call c => c.Answer
  | .ref _ | .unref _ | .lock _ | .unlock _ => Unit

def StoreAction.answer (env : ScEnv) : (action : StoreAction) → StoreM action.Answer
  | .call c => c.answer env
  | .ref a => (StoreAction.ref a).run env
  | .unref a => (StoreAction.unref a).run env
  | .lock a => (StoreAction.lock a).run env
  | .unlock a => (StoreAction.unlock a).run env

/-- What the caller of the store knows of a step. -/
structure Observation where
  env : ScEnv
  action : StoreAction
  answer : action.Answer

structure ObservedStep (thread : ℕ) (st : ScStorage) (o : Observation) (st' : ScStorage) : Prop where
  thread_eq : o.env.thread = thread
  allowed : o.action.Allowed st
  answers : o.action.answer o.env st = .ok (o.answer, st')

/-- References and locks are no matter of the graph. -/
def SpecifiedAnswer (g : StoreGraph) (room : Prop) :
    (action : StoreAction) → action.Answer → StoreGraph → Prop
  | .call c, r, g' => Specified g room c r g'
  | .ref _, _, g' => g' = g
  | .unref _, _, g' => g' = g
  | .lock _, _, g' => g' = g
  | .unlock _, _, g' => g' = g

/-- A memory of elements, which takes more of them while it may have another segment. -/
structure SegmentedGraph where
  graph : StoreGraph
  segments : ℕ

def segmentedOf (st : ScStorage) : SegmentedGraph := ⟨graphOf st.cell, st.segmentsNum⟩

/-- Only the creation of elements takes segments, and none is given back. -/
structure SpecifiedStep (m : SegmentedGraph) (o : Observation) (m' : SegmentedGraph) : Prop where
  answer : SpecifiedAnswer m.graph (m.segments < o.env.maxLoadedSegments) o.action o.answer m'.graph
  grows : m.segments ≤ m'.segments
  same : o.action.isCreation = false → m'.segments = m.segments

section
variable {thread : ℕ} {st st' : ScStorage}

theorem ObservedStep.own {o : Observation} (h : ObservedStep thread st o st') :
    OwnStep thread st ⟨o.env, o.action⟩ st' := by
  refine ⟨h.thread_eq, h.allowed, ?_⟩
  obtain ⟨env, action, answer⟩ := o
  have hrun := h.answers
  cases action with
  | call c =>
    have hcall : c.answer env st = .ok (answer, st') := hrun
    show c.run env st = .ok ((), st')
    rw [run_eq_answer]
    unfold ignoreResult
    rw [run_bind_ok hcall]
    rfl
  | ref a => exact hrun
  | unref a => exact hrun
  | lock a => exact hrun
  | unlock a => exact hrun

theorem Unrefed.graphOf_eq {a : ScAddr} (h : Unrefed st a st')
    (hallow : Live st.cell a → 2 ≤ st.refCount a) : graphOf st'.cell = graphOf st.cell := by
  have hat (x : ScAddr) : (graphOf st'.cell).label x = (graphOf st.cell).label x ∧
      (graphOf st'.cell).ends x = (graphOf st.cell).ends x := by
    by_cases hx : Live st.cell x
    · exact graphOf_at_eq (h.same hallow x hx)
    · have hx' : ¬ Live st'.cell x := fun h' => hx ((h.live_iff hallow x).mp h')
      rw [label_of_dead hx, label_of_dead hx', ends_of_other fun h' => hx h'.1,
        ends_of_other fun h' => hx' h'.1]
      exact ⟨rfl, rfl⟩
  ext1
  · funext x
    exact (hat x).1
  · funext x
    exact (hat x).2

theorem ObservedStep.answer_specified {o : Observation} (hok : StoreOk thread st)
    (h : ObservedStep thread st o st') : SpecifiedAnswer (graphOf st.cell)
      (st.segmentsNum < o.env.maxLoadedSegments) o.action o.answer (graphOf st'.cell) := by
  have hown := h.own
  obtain ⟨env, action, answer⟩ := o
  obtain ⟨rfl, hallow, hrun⟩ := h
  have heff := step_effect hok.wf hok.cells action hown.allowed hown.step
  cases action with
  | call c =>
    have hcall : c.answer env st = .ok (answer, st') := hrun
    have hspec := wp_ok (Store.answer_specified hok c hallow) hcall
    exact hspec
  | ref a =>
    cases heff with
    | same _ _ hu => exact graphOf_of_unlocked hu
    | refTaken _ _ _ hset =>
      show graphOf st'.cell = graphOf st.cell
      rw [hset.cell]
  | unref a =>
    cases heff with
    | same _ _ hu => exact graphOf_of_unlocked hu
    | refDropped _ _ hun => exact hun.graphOf_eq hallow
  | lock a =>
    cases heff with
    | same _ _ hu => exact graphOf_of_unlocked hu
  | unlock a =>
    cases heff with
    | same _ _ hu => exact graphOf_of_unlocked hu

/-- One step of the store is a step of the graph. -/
theorem ObservedStep.specified {o : Observation} (hok : StoreOk thread st)
    (h : ObservedStep thread st o st') : SpecifiedStep (segmentedOf st) o (segmentedOf st') := by
  have hrun := h.own.step
  refine ⟨h.answer_specified hok, ?_, fun hno => ?_⟩
  · exact (segmentsNum_grows o.env st.segmentsNum).step o.action st st' le_rfl hrun
  · have hkept : IfReturns (o.action.run o.env) (fun _ s => s.segmentsNum = st.segmentsNum) st :=
      (segmentsNum_kept o.env st.segmentsNum).action o.action hno st rfl
    have hsame := wp_ok hkept hrun
    exact hsame

theorem run_simulates {σ τ ε : Type*} {step : σ → ε → σ → Prop} {step' : τ → ε → τ → Prop}
    (P : σ → Prop) (f : σ → τ) (hstep : ∀ a e b, P a → step a e b → P b ∧ step' (f a) e (f b))
    (evs : List ε) (s t : σ) (h0 : P s) (hr : Run step s evs t) : Run step' (f s) evs (f t) := by
  induction evs generalizing s with
  | nil => exact congrArg f hr
  | cons e evs ih =>
    obtain ⟨m, hm, hr⟩ := hr
    obtain ⟨hP, hm'⟩ := hstep s e m h0 hm
    exact ⟨f m, hm', ih m hP hr⟩

theorem graphOf_empty : graphOf ScStorage.empty.cell = ElementGraph.empty ScAddr ElementLabel := by
  have hdead (x : ScAddr) : ¬ Live ScStorage.empty.cell x := by
    unfold Live
    rw [cells_empty]
    decide
  ext1
  · funext x
    exact label_of_dead (hdead x)
  · funext x
    exact ends_of_other fun h => hdead x h.1

theorem segmentedOf_empty : segmentedOf ScStorage.empty = ⟨ElementGraph.empty ScAddr ElementLabel, 0⟩ := by
  unfold segmentedOf
  rw [graphOf_empty]
  rfl

theorem observedRun_storeOk (os : List Observation) (st : ScStorage)
    (hr : Run (ObservedStep thread) ScStorage.empty os st) : StoreOk thread st :=
  run_invariant (StoreOk thread) (fun a _ b h hs => storeOk_step a _ b h hs.own) os _ st
    (storeOk_empty thread) hr

end

/-- A node, an arc from it to itself, what is known of the arc, and the deletion of the node. -/
def loopObservations : List Observation :=
  [⟨exampleEnv, .call (.nodeNew exampleContext 0), (⟨0, 1⟩ : ScAddr)⟩,
    ⟨exampleEnv, .call (.arcNew exampleContext scTypeArcCommon ⟨0, 1⟩ ⟨0, 1⟩), (⟨0, 33⟩ : ScAddr)⟩,
    ⟨exampleEnv, .call (.getArcInfo exampleContext ⟨0, 33⟩),
      (ScResult.ok, some ((⟨0, 1⟩ : ScAddr), (⟨0, 1⟩ : ScAddr)))⟩,
    ⟨exampleEnv, .call (.elementFree exampleContext tableOrder ⟨0, 1⟩), ScResult.ok⟩]

def storeAfterLoop : ScStorage :=
  Agent.afterCall (scStorageElementFree exampleEnv exampleContext tableOrder ⟨0, 1⟩)
    (Agent.afterCall (scStorageGetArcInfo exampleEnv exampleContext ⟨0, 33⟩)
      (Agent.afterCall (scStorageArcNew exampleEnv exampleContext scTypeArcCommon ⟨0, 1⟩ ⟨0, 1⟩)
        (Agent.afterCall (scStorageNodeNew exampleEnv exampleContext 0) ScStorage.empty)))

theorem storeAfterLoop_run :
    Run (ObservedStep 1) ScStorage.empty loopObservations storeAfterLoop := by
  refine ⟨_, ⟨rfl, trivial, Agent.call_eq (by decide +kernel : Agent.valueOf (scStorageNodeNew exampleEnv
    exampleContext 0) ScStorage.empty = some ⟨0, 1⟩)⟩, _, ⟨rfl, ?_, Agent.call_eq (by decide +kernel :
    Agent.valueOf (scStorageArcNew exampleEnv exampleContext scTypeArcCommon ⟨0, 1⟩ ⟨0, 1⟩) _ =
      some ⟨0, 33⟩)⟩, _, ⟨rfl, trivial, Agent.call_eq (by decide +kernel :
    Agent.valueOf (scStorageGetArcInfo exampleEnv exampleContext ⟨0, 33⟩) _ =
      some (ScResult.ok, some ((⟨0, 1⟩ : ScAddr), (⟨0, 1⟩ : ScAddr))))⟩, _, ⟨rfl, trivial,
    Agent.call_eq (by decide +kernel : Agent.valueOf (scStorageElementFree exampleEnv exampleContext tableOrder
      ⟨0, 1⟩) _ = some ScResult.ok)⟩, rfl⟩
  show scTypeArcCommon &&& scTypeLink = 0
  decide

section
variable {env : ScEnv} {ctx : ScContext} {st : ScStorage} {a b : ScAddr}

/-- With all rights an element is deleted, or there is none. -/
theorem free_graph (hok : StoreOk env.thread st) (hctx : ∀ levels, scAccessLvlCheckWrite
    ctx.accessLevels levels = true) (hoff : a.offset.toNat < 65535) (order : HashOrder) :
    ∃ r s, scStorageElementFree env ctx order a st = .ok (r, s) ∧ StoreOk env.thread s ∧
      graphOf s.cell = (graphOf st.cell).delete a := by
  have hstart := holds_start env.thread st hok.wf.1 hok.wf.2
  have hcall := storeOk_call (f := scStorageElementFree env ctx order a) (.elementFree ctx order a)
    rfl trivial hok
  have htotal : Wp (scStorageElementFree env ctx order a) (fun _ _ => True) (fun _ => False) st := by
    apply wp_mono (elementFree_wp hstart hok.cells ctx order a) (fun _ _ _ => trivial)
    rintro _ (hblocked | hout)
    · exact hblocked hok.own
    · omega
  obtain ⟨r, s, hrun, _⟩ := wp_returns htotal
  have hok' := wp_ok hcall hrun
  refine ⟨r, s, hrun, hok', ?_⟩
  rcases wp_ok (elementFree_answer hok order a) hrun with
    ⟨hno, _, hg⟩ | ⟨_, _, _, x, _, hden⟩ | ⟨_, _, hg, _⟩
  · rw [hg, ElementGraph.delete_not_mem (graphOf_closed hok.cells.arcs) hno]
  · have hmay : (graphOf st.cell).MayWrite ctx x := fun l _ => hctx l.accessLevels
    exact absurd hmay hden
  · exact hg

end

/-- In whatever order two elements are deleted, and whatever the orders of the hash tables are, the
same graph is left. -/
theorem deletions_commute (thread : ℕ) (evs : List StoreEvent) (st : ScStorage)
    (hr : Run (OwnStep thread) ScStorage.empty evs st) (env : ScEnv) (henv : env.thread = thread)
    (ctx : ScContext) (hctx : ∀ levels, scAccessLvlCheckWrite ctx.accessLevels levels = true)
    (a b : ScAddr) (ha : Live st.cell a) (hb : Live st.cell b) (o1 o2 o3 o4 : HashOrder) :
    ∃ r1 s1 r2 s2 r3 s3 r4 s4,
      scStorageElementFree env ctx o1 a st = .ok (r1, s1) ∧
      scStorageElementFree env ctx o2 b s1 = .ok (r2, s2) ∧
      scStorageElementFree env ctx o3 b st = .ok (r3, s3) ∧
      scStorageElementFree env ctx o4 a s3 = .ok (r4, s4) ∧
      graphOf s2.cell = graphOf s4.cell ∧
      graphOf s2.cell = ((graphOf st.cell).delete a).delete b := by
  subst henv
  have hok := ownRun_storeOk evs st hr
  have hoffa := hok.cells.inRange a (type_of_live ha)
  have hoffb := hok.cells.inRange b (type_of_live hb)
  obtain ⟨r1, s1, hrun1, hok1, hg1⟩ := free_graph hok hctx hoffa o1
  obtain ⟨r2, s2, hrun2, _, hg2⟩ := free_graph hok1 hctx hoffb o2
  obtain ⟨r3, s3, hrun3, hok3, hg3⟩ := free_graph hok hctx hoffb o3
  obtain ⟨r4, s4, hrun4, _, hg4⟩ := free_graph hok3 hctx hoffa o4
  refine ⟨r1, s1, r2, s2, r3, s3, r4, s4, hrun1, hrun2, hrun3, hrun4, ?_, ?_⟩
  · rw [hg2, hg1, hg4, hg3]
    exact ElementGraph.delete_comm (graphOf_closed hok.cells.arcs) a b
  · rw [hg2, hg1]

theorem exampleContext_writes (levels : ScAccessLevels) :
    scAccessLvlCheckWrite exampleContext.accessLevels levels = true :=
  canWrite_exampleContext (fun _ => { ScElement.zero with accessLevels := levels }) ScAddr.empty

theorem deletions_commute_storeWithArc :
    ∃ r1 s1 r2 s2 r3 s3 r4 s4,
      scStorageElementFree exampleEnv exampleContext tableOrder ⟨0, 1⟩ storeWithArc = .ok (r1, s1) ∧
      scStorageElementFree exampleEnv exampleContext tableOrder ⟨0, 65⟩ s1 = .ok (r2, s2) ∧
      scStorageElementFree exampleEnv exampleContext tableOrder ⟨0, 65⟩ storeWithArc =
        .ok (r3, s3) ∧
      scStorageElementFree exampleEnv exampleContext tableOrder ⟨0, 1⟩ s3 = .ok (r4, s4) ∧
      graphOf s2.cell = graphOf s4.cell ∧
      graphOf s2.cell = ((graphOf storeWithArc.cell).delete ⟨0, 1⟩).delete ⟨0, 65⟩ :=
  deletions_commute 1 arcEvents storeWithArc storeWithArc_run exampleEnv rfl exampleContext
    exampleContext_writes ⟨0, 1⟩ ⟨0, 65⟩ (by unfold Live; decide +kernel)
    (by unfold Live; decide +kernel) tableOrder tableOrder tableOrder tableOrder

/-- What can be created, and by which call. -/
inductive ElementKind where
  | node (type : ScType)
  | link (isConst : Bool)
  | arc (type : ScType) (beg end_ : ScAddr)

def ElementKind.call (ctx : ScContext) : ElementKind → StorageCall
  | .node type => .nodeNew ctx type
  | .link isConst => .linkNew ctx isConst
  | .arc type beg end_ => .arcNew ctx type beg end_

def ElementKind.create (env : ScEnv) (ctx : ScContext) : ElementKind → StoreM ScAddr
  | .node type => scStorageNodeNew env ctx type
  | .link isConst => scStorageLinkNew env ctx isConst
  | .arc type beg end_ => scStorageArcNew env ctx type beg end_

def EndsIn (g : StoreGraph) (p : Option (ScAddr × ScAddr)) : Prop :=
  ∀ q, p = some q → q.1 ∈ g.elements ∧ q.2 ∈ g.elements

theorem create_answer {env : ScEnv} {ctx : ScContext} {st : ScStorage}
    (hok : StoreOk env.thread st) (kind : ElementKind) (hallow : (kind.call ctx).Allowed st) :
    IfReturns (kind.create env ctx) (fun x s => StoreOk env.thread s ∧
      ∃ type p possible, Creates (graphOf st.cell) possible x ⟨type, ctx.accessLevels⟩ p (graphOf s.cell) ∧
        (possible → EndsIn (graphOf st.cell) p)) st := by
  have hrun : (kind.call ctx).run env = ignoreResult (kind.create env ctx) := by
    cases kind <;> rfl
  have hcall := storeOk_call (kind.call ctx) hrun hallow hok
  have hnone : EndsIn (graphOf st.cell) none := fun _ h => absurd h (by simp)
  have hmade : IfReturns (kind.create env ctx) (fun x s =>
      ∃ type p possible, Creates (graphOf st.cell) possible x ⟨type, ctx.accessLevels⟩ p (graphOf s.cell) ∧
        (possible → EndsIn (graphOf st.cell) p)) st := by
    cases kind with
    | node type =>
      exact wp_mono (nodeNew_answer hok type) (fun _ _ h => ⟨_, _, _, h, fun _ => hnone⟩)
        (fun _ _ => trivial)
    | link isConst =>
      exact wp_mono (linkNew_answer hok isConst) (fun _ _ h => ⟨_, _, _, h, fun _ => hnone⟩)
        (fun _ _ => trivial)
    | arc type beg end_ =>
      apply wp_mono (arcNew_answer hok type beg end_ hallow) _ (fun _ _ => trivial)
      intro x s h
      refine ⟨_, _, _, h.1, fun hboth q hq => ?_⟩
      rw [← Option.some.inj hq]
      exact hboth
  exact wp_mono (wp_and hcall hmade) (fun _ _ h => h) (fun _ _ => trivial)

/-- Who creates an element can delete it again, with any access levels, and the graph is as before. -/
theorem creation_undone (thread : ℕ) (evs : List StoreEvent) (st : ScStorage)
    (hr : Run (OwnStep thread) ScStorage.empty evs st) (env : ScEnv) (henv : env.thread = thread)
    (ctx : ScContext) (kind : ElementKind) (hallow : (kind.call ctx).Allowed st) (x : ScAddr)
    (s : ScStorage) (hnew : kind.create env ctx st = .ok (x, s)) (hx : x ≠ ScAddr.empty)
    (order : HashOrder) :
    ∃ s', scStorageElementFree env ctx order x s = .ok (.ok, s') ∧
      graphOf s'.cell = graphOf st.cell := by
  subst henv
  have hok := ownRun_storeOk evs st hr
  obtain ⟨hok', type, p, possible, ⟨_, he, _⟩ | ⟨hpossible, _, hout, hg⟩, hends⟩ :=
    wp_ok (create_answer hok kind hallow) hnew
  · exact absurd he hx
  replace hends := hends hpossible
  have hclosed := graphOf_closed hok.cells.arcs
  have hmem : x ∈ (graphOf s.cell).elements := by
    rw [hg]
    exact ElementGraph.mem_put.mpr (Or.inl rfl)
  obtain ⟨r, s', hrun, _, hfree⟩ := elementFree_returns hok' (mem_graphOf.mp hmem) ctx order
  rcases wp_ok (elementFree_answer hok' order x) hrun with
    ⟨hno, _⟩ | ⟨_, _, _, y, hd, hden⟩ | ⟨_, rfl, hg', _⟩
  · exact absurd hmem hno
  · rw [hg] at hd hden
    obtain rfl := ElementGraph.put_dependent hclosed hout hends hd
    apply absurd _ hden
    intro l hl
    have hlabel : l = ⟨type, ctx.accessLevels⟩ := by
      simpa [ElementGraph.put] using hl.symm
    rw [hlabel, checkWrite_self]
  · refine ⟨s', hrun, ?_⟩
    rw [hg', hg, ElementGraph.put_delete hclosed hout hends]

theorem creation_undone_storeWithArc :
    ∃ s', scStorageElementFree exampleEnv exampleContext tableOrder ⟨0, 97⟩
        (Agent.afterCall (scStorageArcNew exampleEnv exampleContext scTypeArcCommon ⟨0, 65⟩ ⟨0, 1⟩)
          storeWithArc) = .ok (.ok, s') ∧ graphOf s'.cell = graphOf storeWithArc.cell :=
  creation_undone 1 arcEvents storeWithArc storeWithArc_run exampleEnv rfl exampleContext
    (.arc scTypeArcCommon ⟨0, 65⟩ ⟨0, 1⟩) (by show scTypeArcCommon &&& scTypeLink = 0; decide)
    ⟨0, 97⟩ _ (Agent.call_eq (by decide +kernel : Agent.valueOf (scStorageArcNew exampleEnv exampleContext
      scTypeArcCommon ⟨0, 65⟩ ⟨0, 1⟩) storeWithArc = some ⟨0, 97⟩)) (by decide) tableOrder

theorem restarted_behind (fs : FsEnv) (st : ScStorage) {x : ScAddr} (hx : 65535 ≤ x.offset.toNat) :
    ((restarted fs st).cell x).type = 0 := by
  unfold ScStorage.cell restarted ScStorage.loaded
  simp only
  split_ifs
  · simp only
    rw [(loadedSegment_elements _ _).1]
    have hnone : record scElementSize x.offset.toNat (record scSegElementsSizeByte x.seg.toNat
        (records (bytesAt fs st.segments) st.segmentsNum)) = [] := by
      have hlen : (record scSegElementsSizeByte x.seg.toNat
          (records (bytesAt fs st.segments) st.segmentsNum)).length ≤ scElementSize*65535 := by
        unfold record
        exact (List.length_take_le _ _).trans (le_of_eq (by decide))
      have hle : scElementSize*65535 ≤ scElementSize*x.offset.toNat :=
        Nat.mul_le_mul_left _ hx
      unfold record at hlen ⊢
      rw [List.drop_eq_nil_of_le (hlen.trans hle), List.take_nil]
    show (elementOfBytes (record scElementSize x.offset.toNat _)).type = 0
    rw [hnone]
    rfl
  · rfl

/-- The new process finds the same graph, whatever was referenced or locked in the old one. -/
theorem restart_keeps_graph (thread : ℕ) (evs : List StoreEvent) (st : ScStorage)
    (hr : Run (OwnStep thread) ScStorage.empty evs st) (fs : FsEnv) :
    ∃ file st', scStorageShutdown fs st = .ok file ∧
      scStorageInitialize fs.sha512 (some file) st.fileMemory = .ok st' ∧
      st'.fileMemory = st.fileMemory ∧ graphOf st'.cell = graphOf st.cell := by
  have hstore := storeRun_of_ownRun _ _ _ hr
  have hfill := storeRun_segmentsFilled _ st evs (Or.inl rfl) hstore
  have hbound := (storeRun_wf _ st evs (Or.inl rfl) hstore).2.bound
  obtain ⟨file, hsave, hload⟩ := @restart_eq fs st hfill hbound
  refine ⟨file, _, hsave, hload, rfl, ?_⟩
  have hcells := (ownRun_storeOk evs st hr).cells
  have hat (x : ScAddr) : (graphOf (restarted fs st).cell).label x = (graphOf st.cell).label x ∧
      (graphOf (restarted fs st).cell).ends x = (graphOf st.cell).ends x := by
    by_cases hoff : x.offset.toNat < 65535
    · exact graphOf_at_eq (restarted_cell hfill hoff)
    · -- there is no cell behind the last one
      have hdead : ¬ Live st.cell x := fun hl => hoff (hcells.inRange x (type_of_live hl))
      have hdead' : ¬ Live (restarted fs st).cell x := by
        intro hl
        exact type_of_live hl (restarted_behind fs st (by omega))
      rw [label_of_dead hdead, label_of_dead hdead', ends_of_other fun h => hdead h.1,
        ends_of_other fun h => hdead' h.1]
      exact ⟨rfl, rfl⟩
  ext1
  · funext x
    exact (hat x).1
  · funext x
    exact (hat x).2

theorem restart_keeps_graph_storeWithArc :
    ∃ file st', scStorageShutdown exampleFs storeWithArc = .ok file ∧
      scStorageInitialize exampleFs.sha512 (some file) storeWithArc.fileMemory = .ok st' ∧
      st'.fileMemory = storeWithArc.fileMemory ∧
      graphOf st'.cell = graphOf storeWithArc.cell :=
  restart_keeps_graph 1 arcEvents storeWithArc storeWithArc_run exampleFs

end ScMachine.Store
