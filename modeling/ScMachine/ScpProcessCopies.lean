import ScMachine.ScpOperandValues
import ScMachine.ScpProcessCreator

/-! What `gen_copy` leaves in its table, whatever order the elements of the pattern come in. -/
namespace ScMachine.Scp
open ScMachine.Store ScMachine.Template ScMachine.StateExcept ScMachine.Runs ScMachine.Agent

section
variable {ctx : ScContext} {s s' : ScStorage} {r : ScAddr}

/-- What is made can be read by the context that made it. -/
theorem reads_of_grown (hreads : ∀ x, Live s.cell x → CanRead ctx s.cell x) (hgrown : GrownBy s {r} s')
    (hlevels : (s'.cell r).accessLevels = ctx.accessLevels) (x : ScAddr) (hx : Live s'.cell x) :
    CanRead ctx s'.cell x := by
  by_cases hxr : x = r
  · unfold CanRead scAccessLvlCheckRead
    rw [hxr, hlevels]
    exact decide_eq_true le_rfl
  · have hsame := (hgrown.others x hxr).same
    unfold CanRead
    rw [hsame.accessLevels]
    exact hreads x (hsame.live.mp hx)

end

/-- What copies are made from: the store, the table and the pattern before the loop. -/
structure CopyBase where
  store : ScStorage
  table : ScTypeResult
  pattern : List ScAddr

namespace CopyBase
variable (m : CopyBase)

/-- The table has the element, or it can be made. -/
def Known (w : ScAddr) : Prop :=
  (m.table[w]?).isSome ∨ HasType m.store.cell w scTypeNode ∨ w ∈ m.pattern

/-- Both ends of each arc of the pattern are known. -/
def EndsKnown : Prop :=
  ∀ v ∈ m.pattern, LiveArc m.store.cell v → ∀ d, m.Known (ownerOf m.store.cell d v)

/-- The pair has come into the table since. -/
def NewPair (copies : ScTypeResult) (v x : ScAddr) : Prop := copies[v]? = some x ∧ m.table[v]? = none

/-- `y` stands for `w`: by the table, or as a node that is not in the pattern. -/
def IsImage (copies : ScTypeResult) (w y : ScAddr) : Prop :=
  copies[w]? = some y ∨
    m.table[w]? = none ∧ w ∉ m.pattern ∧ HasType m.store.cell w scTypeNode ∧ y = w

/-- `x` is a copy of `v`, an arc between what stands for its ends. -/
structure StandsFor (copies : ScTypeResult) (s : ScStorage) (v x : ScAddr) : Prop where
  type : scFlagsRemove (s.cell x).type = scFlagsRemove (m.store.cell v).type
  between : HasType m.store.cell v scTypeNode ∨ LiveArc m.store.cell v ∧ LiveArc s.cell x ∧
    ∀ d, m.IsImage copies (ownerOf m.store.cell d v) (ownerOf s.cell d x)

/-- The elements of the pattern can be read, and have no preset value; the table has live values. -/
structure Ok (rank : ScAddr → ℕ) : Prop where
  value : ∀ v x : ScAddr, m.table[v]? = some x → x ≠ ScAddr.empty ∧ Live m.store.cell x
  element : ∀ v ∈ m.pattern, m.table[v]? = none ∧ Live m.store.cell v
  kind : ∀ v ∈ m.pattern, HasType m.store.cell v scTypeNode ∨ LiveArc m.store.cell v
  arc : ∀ v ∈ m.pattern, LiveArc m.store.cell v → (m.store.cell v).type &&& scTypeNode = 0 ∧ ∀ d,
    Live m.store.cell (ownerOf m.store.cell d v) ∧ rank (ownerOf m.store.cell d v) < rank v
  inner : ∀ v ∈ m.pattern, LiveArc m.store.cell v → ∀ d, LiveArc m.store.cell (ownerOf m.store.cell d v) →
    (m.table[ownerOf m.store.cell d v]?).isSome ∨ ownerOf m.store.cell d v ∈ m.pattern

/-- The calls of `gen_copy` come to the elements of the pattern and to the ends of its arcs. -/
def Reached (v : ScAddr) : Prop :=
  v ∈ m.pattern ∨ ∃ a ∈ m.pattern, LiveArc m.store.cell a ∧ ∃ d, v = ownerOf m.store.cell d a

/-- What has come into the table: an element of its own for each key, and nothing else has been made. -/
structure Added (Stands : ScTypeResult → ScStorage → ScAddr → ScAddr → Prop) (env : ScEnv)
    (ctx : ScContext) (st : ScStorage) (n : ℕ) (copies : ScTypeResult) (s : ScStorage) : Prop where
  store : StoreOk env.thread s
  extends_ : Extends m.table copies
  grown : GrownBy m.store {x | ∃ v, m.NewPair copies v x} s
  key : ∀ v x, m.NewPair copies v x → v ∈ m.pattern ∧ x ≠ ScAddr.empty
  distinct : ∀ v w x, m.NewPair copies v x → m.NewPair copies w x → v = w
  stands : ∀ v x, m.NewPair copies v x → Stands copies s v x
  reads : ∀ x, Live s.cell x → CanRead ctx s.cell x
  made : ∃ k, copies.size = m.table.size+k ∧ Creations env ctx st (n+k) s

/-- The new elements are copies. -/
structure Copied (env : ScEnv) (ctx : ScContext) (st : ScStorage) (n : ℕ) (tables : CopyTables)
    (s : ScStorage) : Prop extends m.Added m.StandsFor env ctx st n tables.copies s where
  pattern : tables.pattern = m.pattern

variable {m} {env : ScEnv} {ctx : ScContext} {rank : ScAddr → ℕ} {st s s' : ScStorage} {n total : ℕ}
  {tables tables' : CopyTables} {copies copies' : ScTypeResult} {v w x y r : ScAddr}
  {Stands : ScTypeResult → ScStorage → ScAddr → ScAddr → Prop}

/-! The table. -/

theorem insert_get : (copies.insert v r)[w]? = if v = w then some r else copies[w]? := by
  rw [Std.TreeMap.getElem?_insert]
  simp only [comparator_eq_iff]

theorem extends_insert (h : copies[v]? = none) : Extends copies (copies.insert v r) := by
  intro w x hw
  rw [insert_get, if_neg, hw]
  rintro rfl
  rw [h] at hw
  cases hw

theorem IsImage.mono (h : m.IsImage copies w y) (hext : Extends copies copies') : m.IsImage copies' w y :=
  h.imp_left (hext w y)

theorem newPair_insert (hnone : copies[v]? = none) (htable : m.table[v]? = none) :
    m.NewPair (copies.insert v r) w x ↔ v = w ∧ r = x ∨ m.NewPair copies w x := by
  unfold NewPair
  rw [insert_get]
  split_ifs with he
  · subst he
    rw [hnone, Option.some.injEq]
    simp only [htable, and_true, true_and, reduceCtorEq, or_false]
  · simp only [he, false_and, false_or]

theorem StandsFor.mono {new : Set ScAddr} (h : m.StandsFor copies s v x) (hgrown : GrownBy s new s')
    (hlive : Live s.cell x) (hext : Extends copies copies') : m.StandsFor copies' s' v x := by
  have hsame := grown_same hgrown hlive
  refine ⟨by rw [hsame.same.type, h.type], h.between.imp_right ?_⟩
  rintro ⟨harc, hnew, hends⟩
  refine ⟨harc, hsame.same.liveArc.mpr hnew, fun d => ?_⟩
  rw [hsame.owner]
  exact (hends d).mono hext

theorem Added.live (h : m.Added Stands env ctx st n copies s) (hv : m.NewPair copies v x) :
    Live s.cell x :=
  h.grown.live x ⟨v, hv⟩

theorem Added.untouched (h : m.Added Stands env ctx st n copies s) (hx : Live m.store.cell x) :
    Untouched m.store s x :=
  grown_same h.grown hx

/-- What the table has is live. -/
theorem Copied.value (h : m.Copied env ctx st n tables s) (hm : m.Ok rank)
    (hx : tables.copies[v]? = some x) : x ≠ ScAddr.empty ∧ Live s.cell x := by
  cases htable : m.table[v]? with
  | none => exact ⟨(h.key v x ⟨hx, htable⟩).2, h.live ⟨hx, htable⟩⟩
  | some y =>
    obtain rfl := Option.some.inj ((h.extends_ v y htable).symm.trans hx)
    obtain ⟨hne, hlive⟩ := hm.value v y htable
    exact ⟨hne, (h.untouched hlive).same.live.mpr hlive⟩

theorem Copied.find (h : m.Copied env ctx st n tables s) (hm : m.Ok rank) (v : ScAddr) :
    findCopy tables.copies v = tables.copies[v]? := by
  unfold findCopy
  cases hx : tables.copies[v]? with
  | none => rfl
  | some x =>
    rw [Option.filter_some, if_pos]
    exact decide_eq_true (h.value hm hx).1

theorem added_start (hok : StoreOk env.thread m.store)
    (hreads : ∀ x, Live m.store.cell x → CanRead ctx m.store.cell x)
    (hmade : Creations env ctx st n m.store) : m.Added Stands env ctx st n m.table m.store := by
  have hno (v x : ScAddr) : ¬ m.NewPair m.table v x := by
    rintro ⟨hv, hnone⟩
    rw [hnone] at hv
    cases hv
  have hset : {x | ∃ v, m.NewPair m.table v x} = ∅ := by
    ext x
    constructor
    · rintro ⟨v, hv⟩
      exact hno v x hv
    · intro hx
      exact hx.elim
  refine ⟨hok, fun _ _ hx => hx, hset ▸ GrownBy.refl _, ?_, ?_, ?_, hreads, 0, rfl, hmade⟩
  · exact fun v x hv => absurd hv (hno v x)
  · exact fun v w x hv => absurd hv (hno v x)
  · exact fun v x hv => absurd hv (hno v x)

theorem mem_keys_iff : v ∈ copies.keys ↔ (copies[v]?).isSome :=
  Std.TreeMap.mem_keys.trans Std.TreeMap.mem_iff_isSome_getElem?

theorem Added.keys_subset (h : m.Added Stands env ctx st n copies s) :
    copies.keys ⊆ m.table.keys ++ m.pattern := by
  intro w hw
  rw [List.mem_append, mem_keys_iff]
  obtain ⟨x, hx⟩ := Option.isSome_iff_exists.mp (mem_keys_iff.mp hw)
  cases htable : m.table[w]? with
  | none => exact Or.inr (h.key w x ⟨hx, htable⟩).1
  | some y => exact Or.inl rfl

/-- There is at most one new pair for each element of the pattern. -/
theorem Added.size_le (h : m.Added Stands env ctx st n copies s) :
    copies.size ≤ m.table.size+m.pattern.length :=
  calc copies.size = copies.keys.length := Std.TreeMap.length_keys.symm
    _ ≤ (m.table.keys ++ m.pattern).length :=
      (List.subperm_of_subset Std.TreeMap.nodup_keys h.keys_subset).length_le
    _ = m.table.size+m.pattern.length := by rw [List.length_append, Std.TreeMap.length_keys]

theorem Added.room (h : m.Added Stands env ctx st n copies s) (hv : v ∈ m.pattern)
    (hnone : copies[v]? = none) :
    ∃ k, copies.size = m.table.size+k ∧ k < m.pattern.length ∧ Creations env ctx st (n+k) s := by
  obtain ⟨k, hsize, hmade⟩ := h.made
  refine ⟨k, hsize, ?_, hmade⟩
  -- the element itself comes to the keys
  have hnodup : (v :: copies.keys).Nodup := by
    refine List.nodup_cons.mpr ⟨fun hmem => ?_, Std.TreeMap.nodup_keys⟩
    rw [mem_keys_iff, hnone] at hmem
    cases hmem
  have hsub : v :: copies.keys ⊆ m.table.keys ++ m.pattern :=
    List.cons_subset.mpr ⟨List.mem_append_right _ hv, h.keys_subset⟩
  have hlen := (List.subperm_of_subset hnodup hsub).length_le
  rw [List.length_cons, List.length_append, Std.TreeMap.length_keys, Std.TreeMap.length_keys] at hlen
  omega

/-- A new element comes into the table. -/
theorem Added.insert {k : ℕ} (h : m.Added Stands env ctx st n copies s)
    (hmono : ∀ v x, Stands copies s v x → Live s.cell x → Stands (copies.insert w r) s' v x)
    (hw : w ∈ m.pattern) (hnone : copies[w]? = none) (htable : m.table[w]? = none)
    (hne : r ≠ ScAddr.empty) (hok : StoreOk env.thread s') (hgrown : GrownBy s {r} s')
    (hlevels : (s'.cell r).accessLevels = ctx.accessLevels)
    (hsize : copies.size = m.table.size+k) (hmade : Creations env ctx st (n+k+1) s')
    (hr : Stands (copies.insert w r) s' w r) :
    m.Added Stands env ctx st n (copies.insert w r) s' := by
  have hpair (v x : ScAddr) := @newPair_insert m copies w v x r hnone htable
  have hext := @extends_insert copies w r hnone
  have hfresh (v : ScAddr) : ¬ m.NewPair copies v r := fun hv =>
    type_of_live (h.live hv) (hgrown.free r rfl)
  have hset : {x | ∃ v, m.NewPair (copies.insert w r) v x} = {x | ∃ v, m.NewPair copies v x} ∪ {r} := by
    ext x
    simp only [Set.mem_ofPred_eq, hpair, Set.mem_union, Set.mem_singleton_iff]
    constructor
    · rintro ⟨v, ⟨_, rfl⟩ | hv⟩
      · exact Or.inr rfl
      · exact Or.inl ⟨v, hv⟩
    · rintro (⟨v, hv⟩ | rfl)
      · exact ⟨v, Or.inr hv⟩
      · exact ⟨w, Or.inl ⟨rfl, rfl⟩⟩
  refine ⟨hok, fun v x hv => hext v x (h.extends_ v x hv), hset ▸ h.grown.trans hgrown,
    ?_, ?_, ?_, reads_of_grown h.reads hgrown hlevels, k+1, ?_, hmade⟩
  · intro v x hv
    rcases (hpair v x).mp hv with ⟨rfl, rfl⟩ | hold
    · exact ⟨hw, hne⟩
    · exact h.key v x hold
  · intro v v' x hv hv'
    rcases (hpair v x).mp hv with ⟨rfl, rfl⟩ | hold
    · rcases (hpair v' r).mp hv' with ⟨rfl, _⟩ | hold'
      · rfl
      · exact absurd hold' (hfresh v')
    · rcases (hpair v' x).mp hv' with ⟨_, rfl⟩ | hold'
      · exact absurd hold (hfresh v)
      · exact h.distinct v v' x hold hold'
  · intro v x hv
    rcases (hpair v x).mp hv with ⟨rfl, rfl⟩ | hold
    · exact hr
    · exact hmono v x (h.stands v x hold) (h.live hold)
  · rw [Std.TreeMap.size_insert, if_neg, hsize]
    · rfl
    · rw [← Std.TreeMap.mem_iff_contains, Std.TreeMap.mem_iff_isSome_getElem?, hnone]
      exact Bool.false_ne_true

/-! One call. -/

/-- What one call leaves: its result stands for the element, and nothing of a greater rank has come into
the table. -/
structure Made (m : CopyBase) (env : ScEnv) (ctx : ScContext) (rank : ScAddr → ℕ) (st : ScStorage) (n : ℕ)
    (v : ScAddr) (tables : CopyTables) (q : ScAddr × CopyTables) (s' : ScStorage) : Prop where
  copied : m.Copied env ctx st n q.2 s'
  extends_ : Extends tables.copies q.2.copies
  image : m.IsImage q.2.copies v q.1
  above : ∀ w, rank v < rank w → q.2.copies[w]? = tables.copies[w]?

theorem Ok.live (hm : m.Ok rank) (hv : m.Reached v) : Live m.store.cell v := by
  rcases hv with hv | ⟨a, ha, harc, d, rfl⟩
  · exact (hm.element v hv).2
  · exact ((hm.arc a ha harc).2 d).1

/-- What is met and not preset is a node, an arc of the pattern or an end that is not known. -/
theorem Ok.cases (hm : m.Ok rank) (hv : m.Reached v) (htable : m.table[v]? = none) :
    HasType m.store.cell v scTypeNode ∨ LiveArc m.store.cell v ∧ v ∈ m.pattern ∨
      ¬ LiveArc m.store.cell v ∧ ¬ m.EndsKnown := by
  by_cases hnode : HasType m.store.cell v scTypeNode
  · exact Or.inl hnode
  rcases hv with hv | ⟨a, ha, harc, d, rfl⟩
  · exact Or.inr (Or.inl ⟨(hm.kind v hv).resolve_left hnode, hv⟩)
  by_cases hin : ownerOf m.store.cell d a ∈ m.pattern
  · exact Or.inr (Or.inl ⟨(hm.kind _ hin).resolve_left hnode, hin⟩)
  · have hno : ¬ (m.table[ownerOf m.store.cell d a]?).isSome := by
      rw [htable]
      exact Bool.false_ne_true
    refine Or.inr (Or.inr ⟨fun hw => ?_, fun hknown => ?_⟩)
    · exact (hm.inner a ha harc d hw).elim hno hin
    · exact (hknown a ha harc d).elim hno fun h => h.elim hnode hin

theorem IsImage.live (hi : m.IsImage tables.copies v y) (h : m.Copied env ctx st n tables s)
    (hm : m.Ok rank) (hv : m.Reached v) : Live s.cell y := by
  rcases hi with hy | ⟨_, _, _, rfl⟩
  · exact (h.value hm hy).2
  · exact (h.untouched (hm.live hv)).same.live.mpr (hm.live hv)

theorem Added.elementType (h : m.Added Stands env ctx st n copies s) (hv : Live m.store.cell v) :
    scMemoryGetElementType s.cell ctx v = some (scFlagsRemove (m.store.cell v).type) := by
  have hsame := (h.untouched hv).same
  unfold scMemoryGetElementType
  rw [if_pos ⟨hsame.live.mpr hv, h.reads v (hsame.live.mpr hv)⟩, hsame.type]

theorem Added.hasType (h : m.Added Stands env ctx st n copies s) (hv : Live m.store.cell v) (type : ScType) :
    HasType s.cell v type ↔ HasType m.store.cell v type :=
  hasType_of_type (h.untouched hv).same.type

section
variable (h : m.Copied env ctx st n tables s) (hm : m.Ok rank) (htotal : n+m.pattern.length ≤ total)
include h hm

/-- A copy of the element is made, or the cells run out. -/
theorem copyElement_made {make : ScType → StoreM ScAddr} (hv : v ∈ m.pattern)
    (hnone : tables.copies[v]? = none)
    (hmake : ∀ k, k < m.pattern.length → Creations env ctx st (n+k) s →
      Wp (make (scFlagsRemove (m.store.cell v).type)) (fun r s' => OutOfCells env ctx total st ∨
        r ≠ ScAddr.empty ∧ StoreOk env.thread s' ∧ GrownBy s {r} s' ∧ Creations env ctx st (n+k+1) s' ∧
          (s'.cell r).accessLevels = ctx.accessLevels ∧ m.StandsFor tables.copies s' v r)
        (fun _ => OutOfCells env ctx total st) s) :
    Wp (copyElement ctx v tables make) (fun q s' => OutOfCells env ctx total st ∨
      m.Copied env ctx st n q.2 s' ∧ q.2.copies = tables.copies.insert v q.1)
      (fun _ => OutOfCells env ctx total st) s := by
  obtain ⟨htable, hlive⟩ := hm.element v hv
  obtain ⟨k, hsize, hk, hmade⟩ := h.room hv hnone
  unfold copyElement
  rw [wp_bind, wp_get]
  simp only [h.elementType hlive]
  rw [wp_bind]
  apply wp_mono (hmake k hk hmade) _ (fun _ he => he)
  rintro r s' (hout | ⟨hne, hok, hgrown, hmade', hlevels, hr⟩)
  · exact Or.inl hout
  · have hext := @extends_insert tables.copies v r hnone
    refine Or.inr ⟨⟨h.toAdded.insert ?_ hv hnone htable hne hok hgrown hlevels hsize hmade' ?_, h.pattern⟩, rfl⟩
    · exact fun w x hw hx => hw.mono hgrown hx hext
    · exact hr.mono (GrownBy.refl s') (hgrown.live r rfl) hext

include htotal in
/-- A node of the pattern. -/
theorem copyNode_made (hv : v ∈ m.pattern) (hnone : tables.copies[v]? = none)
    (hnode : HasType m.store.cell v scTypeNode) :
    Wp (copyElement ctx v tables (scStorageNodeNew env ctx)) (fun q s' => OutOfCells env ctx total st ∨
      m.Copied env ctx st n q.2 s' ∧ q.2.copies = tables.copies.insert v q.1)
      (fun _ => OutOfCells env ctx total st) s := by
  have hlive := (hm.element v hv).2
  have hmask : scTypeArcMask &&& scFlagsRemove (m.store.cell v).type = 0 := by
    rw [BitVec.and_comm, flagsRemove_and _ _ (by decide)]
    by_contra harc
    have hbits := (hm.arc v hv ⟨hlive, bne_iff_ne.mpr harc⟩).1
    unfold HasType at hnode
    rw [BitVec.and_comm, flagsRemove_and _ _ (by decide), hbits] at hnode
    exact absurd hnode (by decide)
  refine copyElement_made h hm hv hnone fun k hk hmade => ?_
  apply wp_mono (nodeNew_creation total h.store hmade (by omega) hmask) _ (fun _ he => he)
  rintro r s' (⟨_, hout⟩ | ⟨hne, hok, hmade', hcr⟩)
  · exact Or.inl hout
  · have hcell : s'.cell r = nodeCell ctx (scFlagsRemove (m.store.cell v).type) := by
      rw [hcr.refCount.2.2.2, Function.update_self]
    refine Or.inr ⟨hne, hok, hcr.grown (nodeCell_live ctx _ r), hmade', by rw [hcell]; rfl, ?_, Or.inl hnode⟩
    rw [hcell]
    show scFlagsRemove (scFlagsRemove (scTypeNode ||| scFlagsRemove (m.store.cell v).type)) = _
    rw [or_of_subset _ _ hnode, flagsRemove_idem, flagsRemove_idem]

include htotal in
/-- An arc of the pattern, between what stands for its ends. -/
theorem copyArc_made {ends : Dir → ScAddr} (hv : v ∈ m.pattern) (hnone : tables.copies[v]? = none)
    (harc : LiveArc m.store.cell v)
    (hends : ∀ d, m.IsImage tables.copies (ownerOf m.store.cell d v) (ends d)) :
    Wp (copyElement ctx v tables fun type => scStorageArcNew env ctx type (ends .out) (ends .inp))
      (fun q s' => OutOfCells env ctx total st ∨
        m.Copied env ctx st n q.2 s' ∧ q.2.copies = tables.copies.insert v q.1)
      (fun _ => OutOfCells env ctx total st) s := by
  obtain ⟨hbits, hinner⟩ := hm.arc v hv harc
  have hmask : (m.store.cell v).type &&& scTypeArcMask ≠ 0 := bne_iff_ne.mp harc.2
  have hnode : scTypeNode &&& scFlagsRemove (m.store.cell v).type = 0 := by
    rw [BitVec.and_comm, flagsRemove_and _ _ (by decide), hbits]
  have hsame := h.untouched harc.1
  have hlink : scFlagsRemove (m.store.cell v).type &&& scTypeLink = 0 := by
    rw [flagsRemove_and _ _ (by decide), ← hsame.same.type]
    exact bne_eq_false_iff_eq.mp (h.store.cells.oneClass v (hsame.same.liveArc.mpr harc).2)
  have htype : arcTypeOf (scFlagsRemove (m.store.cell v).type) = scFlagsRemove (m.store.cell v).type := by
    unfold arcTypeOf
    rw [flagsRemove_and _ _ (by decide), if_pos (bne_iff_ne.mpr hmask), flagsRemove_idem]
  have hlive (d : Dir) : Live s.cell (ends d) :=
    (hends d).live h hm (Or.inr ⟨v, hv, harc, d, rfl⟩)
  refine copyElement_made h hm hv hnone fun k hk hmade => ?_
  apply wp_mono (arcNew_creation total h.store hmade (by omega) hnode hlink (hlive .out) (hlive .inp)) _
    (fun _ he => he)
  rintro r s' ⟨hok, hmade', hcr, hne⟩
  have hadd := hcr.added h.store.cells
  refine Or.inr ⟨hne, hok, hcr.grown h.store.cells, hmade', hcr.typeOf.2, ?_, Or.inr ⟨harc, hadd.arc, fun d => ?_⟩⟩
  · rw [hcr.typeOf.1, htype, flagsRemove_idem]
  · rw [hadd.owner, if_pos rfl]
    cases d with
    | out => exact hends .out
    | inp => exact hends .inp

end

/-- What is copied stands for itself from then on. -/
theorem Made.of_insert {q : ScAddr × CopyTables} (hnone : tables'.copies[v]? = none)
    (hext : Extends tables.copies tables'.copies)
    (habove : ∀ w, rank v < rank w → tables'.copies[w]? = tables.copies[w]?)
    (hcopied : m.Copied env ctx st n q.2 s') (hq : q.2.copies = tables'.copies.insert v q.1) :
    Made m env ctx rank st n v tables q s' := by
  refine ⟨hcopied, fun w x hw => ?_, Or.inl ?_, fun w hw => ?_⟩
  · rw [hq]
    exact extends_insert hnone w x (hext w x hw)
  · rw [hq, insert_get, if_pos rfl]
  · rw [hq, insert_get, if_neg, habove w hw]
    rintro rfl
    exact lt_irrefl _ hw

/-- A call returns with a copy, or comes to an end that is not known, or the cells run out. -/
theorem genCopy_made (hm : m.Ok rank) (htotal : n+m.pattern.length ≤ total) (fuel : ℕ) (v : ScAddr)
    (tables : CopyTables) (s : ScStorage) (h : m.Copied env ctx st n tables s) (hv : m.Reached v)
    (hfuel : rank v < fuel) :
    Wp (genCopy env ctx fuel v tables)
      (fun q s' => OutOfCells env ctx total st ∨ Made m env ctx rank st n v tables q s')
      (fun _ => OutOfCells env ctx total st ∨ ¬ m.EndsKnown) s := by
  induction fuel generalizing v tables s with
  | zero => omega
  | succ fuel ih =>
    have hlive := hm.live hv
    unfold genCopy
    rw [h.find hm]
    cases hfound : tables.copies[v]? with
    | some copy => exact Or.inr ⟨h, fun _ _ hx => hx, Or.inl hfound, fun _ _ => rfl⟩
    | none =>
      have htable : m.table[v]? = none := by
        cases ht : m.table[v]? with
        | none => rfl
        | some x => exact absurd (h.extends_ v x ht) (by rw [hfound]; exact (Option.some_ne_none x).symm)
      have hsame := h.untouched hlive
      simp only
      rw [wp_bind, wp_get, wp_ite, checkType_iff h.reads (hsame.same.live.mpr hlive), h.hasType hlive]
      constructor
      · intro hnode
        rw [wp_ite, h.pattern]
        constructor
        · intro hout
          exact Or.inr ⟨h, fun _ _ hx => hx, Or.inr ⟨htable, hout, hnode, rfl⟩, fun _ _ => rfl⟩
        · intro hin
          apply wp_mono (copyNode_made h hm htotal (not_not.mp hin) hfound hnode) _ (fun _ he => Or.inl he)
          rintro q s' (hno | ⟨hcopied, hq⟩)
          · exact Or.inl hno
          · exact Or.inr (.of_insert hfound (fun _ _ hx => hx) (fun _ _ => rfl) hcopied hq)
      · intro hnode
        have howner (d : Dir) : scMemoryGetArcOwner s.cell ctx d v =
            if LiveArc m.store.cell v then some (ownerOf m.store.cell d v) else none := by
          unfold scMemoryGetArcOwner
          simp only [hsame.same.liveArc, h.reads v (hsame.same.live.mpr hlive), and_true, hsame.owner]
        simp only [scMemoryGetArcBegin, scMemoryGetArcEnd, howner]
        rcases hm.cases hv htable with hn | ⟨harc, hin⟩ | ⟨hnotArc, hunknown⟩
        · exact absurd hn hnode
        · -- the calls for the ends come before the arc itself is in the table
          simp only [if_pos harc]
          have hrank := (hm.arc v hin harc).2
          have hends (d : Dir) : m.Reached (ownerOf m.store.cell d v) := Or.inr ⟨v, hin, harc, d, rfl⟩
          have hout := (hrank .out).2
          have hinp := (hrank .inp).2
          rw [wp_bind]
          apply wp_mono (ih _ tables s h (hends .out) (by omega)) _ (fun _ he => he)
          rintro ⟨newBegin, tables1⟩ s1 (hno | h1)
          · exact wp_always (fun _ _ => Or.inl hno) (fun _ => Or.inl hno)
          rw [wp_bind]
          apply wp_mono (ih _ tables1 s1 h1.copied (hends .inp) (by omega)) _ (fun _ he => he)
          rintro ⟨newEnd, tables2⟩ s2 (hno | h2)
          · exact wp_always (fun _ _ => Or.inl hno) (fun _ => Or.inl hno)
          have habove (w : ScAddr) (hw : rank v ≤ rank w) : tables2.copies[w]? = tables.copies[w]? := by
            rw [h2.above w (by omega), h1.above w (by omega)]
          have hnone : tables2.copies[v]? = none := by rw [habove v le_rfl, hfound]
          have himages (d : Dir) : m.IsImage tables2.copies (ownerOf m.store.cell d v)
              (Dir.rec newBegin newEnd d) := by
            cases d with
            | out => exact h1.image.mono h2.extends_
            | inp => exact h2.image
          apply wp_mono (copyArc_made h2.copied hm htotal hin hnone harc himages) _ (fun _ he => Or.inl he)
          rintro q s' (hno | ⟨hcopied, hq⟩)
          · exact Or.inl hno
          · refine Or.inr (.of_insert hnone (fun w x hw => h2.extends_ w x (h1.extends_ w x hw)) ?_ hcopied hq)
            exact fun w hw => habove w hw.le
        · simp only [if_neg hnotArc]
          exact Or.inr hunknown

/-! The loop. -/

/-- The loop leaves a copy of each element that it comes to. -/
theorem genCopies_made (hm : m.Ok rank) (htotal : n+m.pattern.length ≤ total) (fuel : ℕ)
    (elements : List ScAddr) (tables : CopyTables) (s : ScStorage) (h : m.Copied env ctx st n tables s)
    (hin : ∀ v ∈ elements, v ∈ m.pattern ∧ rank v < fuel) :
    Wp (genCopies env ctx fuel elements tables) (fun tables' s' => OutOfCells env ctx total st ∨
        m.Copied env ctx st n tables' s' ∧ Extends tables.copies tables'.copies ∧
          ∀ v ∈ elements, (tables'.copies[v]?).isSome)
      (fun _ => OutOfCells env ctx total st ∨ ¬ m.EndsKnown) s := by
  induction elements generalizing tables s with
  | nil => exact Or.inr ⟨h, fun _ _ hx => hx, fun v hv => by cases hv⟩
  | cons v elements ih =>
    obtain ⟨hv, hfuel⟩ := hin v List.mem_cons_self
    unfold genCopies
    rw [wp_bind]
    apply wp_mono (genCopy_made hm htotal fuel v tables s h (Or.inl hv) hfuel) _ (fun _ he => he)
    rintro q s1 (hno | h1)
    · exact wp_always (fun _ _ => Or.inl hno) (fun _ => Or.inl hno)
    apply wp_mono (ih q.2 s1 h1.copied fun w hw => hin w (List.mem_cons_of_mem v hw)) _ (fun _ he => he)
    rintro tables' s' (hno | ⟨h', hext, hall⟩)
    · exact Or.inl hno
    refine Or.inr ⟨h', fun w x hw => hext w x (h1.extends_ w x hw), fun w hw => ?_⟩
    rcases List.mem_cons.mp hw with rfl | hw
    · rcases h1.image with hx | ⟨_, hout, _⟩
      · rw [hext w q.1 hx]
        rfl
      · exact absurd hv hout
    · exact hall w hw

/-- Where each element of the pattern has been copied, the ends of its arcs are known. -/
theorem Copied.endsKnown (h : m.Copied env ctx st n tables s) (hm : m.Ok rank)
    (hall : ∀ v ∈ m.pattern, (tables.copies[v]?).isSome) : m.EndsKnown := by
  intro v hv harc d
  obtain ⟨x, hx⟩ := Option.isSome_iff_exists.mp (hall v hv)
  rcases (h.stands v x ⟨hx, (hm.element v hv).1⟩).between with hnode | ⟨_, _, hends⟩
  · unfold HasType at hnode
    rw [BitVec.and_comm, flagsRemove_and _ _ (by decide), (hm.arc v hv harc).1] at hnode
    exact absurd hnode (by decide)
  · rcases hends d with hy | ⟨_, _, hnode, _⟩
    · cases htable : m.table[ownerOf m.store.cell d v]? with
      | some z => exact Or.inl (by rw [htable]; rfl)
      | none => exact Or.inr (Or.inr (h.key _ _ ⟨hy, htable⟩).1)
    · exact Or.inr (Or.inl hnode)

/-- Elements that can be read: nodes, and arcs whose arc ends come into the table or have a value. -/
structure Pattern (c : Cells) (tables : CopyTables) : Prop where
  value : ∀ v x : ScAddr, tables.copies[v]? = some x → x ≠ ScAddr.empty ∧ Live c x
  element : ∀ v ∈ tables.pattern, tables.copies[v]? = none ∧
    (Live c v ∧ HasType c v scTypeNode ∨ LiveArc c v)
  inner : ∀ v ∈ tables.pattern, LiveArc c v → ∀ d, LiveArc c (ownerOf c d v) →
    (tables.copies[ownerOf c d v]?).isSome ∨ ownerOf c d v ∈ tables.pattern

theorem Pattern.ok (h : Pattern s.cell tables) (hc : ArcsOk s.cell)
    (hnot : ∀ x, LiveArc s.cell x → (s.cell x).type &&& scTypeNode = 0)
    (hrank : ∀ x d, LiveArc s.cell x → rank (ownerOf s.cell d x) < rank x) :
    (CopyBase.mk s tables.copies tables.pattern).Ok rank := by
  refine ⟨h.value, fun v hv => ?_, fun v hv => ?_, fun v hv harc => ?_, h.inner⟩
  · obtain ⟨hnone, hkind⟩ := h.element v hv
    exact ⟨hnone, hkind.elim And.left And.left⟩
  · exact (h.element v hv).2.imp_left And.right
  · exact ⟨hnot v harc, fun d => ⟨hc.endpoint v d harc, hrank v d harc⟩⟩

/-- In whatever order the hash table lists the pattern: the loop makes one copy of each of its elements,
apart from each other, the arcs between what stands for their ends, exactly if the ends are known. -/
theorem gen_copies_exact (thread : ℕ) (evs : List StoreEvent) (st : ScStorage)
    (hr : Run (OwnStep thread) ScStorage.empty evs st) (env : ScEnv) (henv : env.thread = thread)
    (ctx : ScContext) (hread : ∀ x, Live st.cell x → CanRead ctx st.cell x) (patternOrder : HashOrder)
    (tables : CopyTables) (h : Pattern st.cell tables) :
    ∃ bound, ∀ fuel, bound ≤ fuel → OutOfCells env ctx tables.pattern.length st ∨
      ((CopyBase.mk st tables.copies tables.pattern).EndsKnown ↔ ∃ tables' s,
        genCopies env ctx fuel (patternOrder.list tables.pattern) tables st = .ok (tables', s) ∧
          (CopyBase.mk st tables.copies tables.pattern).Copied env ctx st 0 tables' s ∧
            ∀ v ∈ tables.pattern, (tables'.copies[v]?).isSome) := by
  subst henv
  have hok := ownRun_storeOk evs st hr
  have hranked := ownRun_arcsRanked evs st hr
  obtain ⟨rank, hrank⟩ := hranked.ranked
  have hm := h.ok hok.cells.arcs hranked.notNode hrank
  refine ⟨tables.pattern.toFinset.sup rank+1, fun fuel hfuel => ?_⟩
  have hin (v : ScAddr) (hv : v ∈ patternOrder.list tables.pattern) :
      v ∈ tables.pattern ∧ rank v < fuel := by
    have hv' := (patternOrder.perm _).mem_iff.mp hv
    have hle : rank v ≤ _ := Finset.le_sup (List.mem_toFinset.mpr hv')
    exact ⟨hv', by omega⟩
  have hstart : (CopyBase.mk st tables.copies tables.pattern).Copied env ctx st 0 tables st :=
    ⟨added_start hok hread .none, rfl⟩
  have htotal : 0+tables.pattern.length ≤ tables.pattern.length := by omega
  have hmade := genCopies_made hm htotal fuel _ tables st hstart hin
  by_cases hout : OutOfCells env ctx tables.pattern.length st
  · exact Or.inl hout
  refine Or.inr ⟨fun hknown => ?_, ?_⟩
  · cases hrun : genCopies env ctx fuel (patternOrder.list tables.pattern) tables st with
    | error stop =>
      unfold Wp at hmade
      rw [hrun] at hmade
      rcases hmade with hno | hunknown
      · exact absurd hno hout
      · exact absurd hknown hunknown
    | ok q =>
      rcases wp_ok hmade hrun with hno | ⟨hcopied, _, hall⟩
      · exact absurd hno hout
      · exact ⟨q.1, q.2, rfl, hcopied, fun v hv => hall v ((patternOrder.perm _).mem_iff.mpr hv)⟩
  · rintro ⟨tables', s, _, hcopied, hall⟩
    exact hcopied.endsKnown hm hall

/-- A node, an arc from it to itself and an arc from it to this arc are copied. -/
theorem gen_copies_exact_arcPattern :
    ∃ bound, ∀ fuel, bound ≤ fuel → OutOfCells exampleEnv exampleContext 3 arcPattern ∨
      ((CopyBase.mk arcPattern ∅ [⟨0, 33⟩, ⟨0, 65⟩, ⟨0, 97⟩]).EndsKnown ↔ ∃ tables' s,
        genCopies exampleEnv exampleContext fuel (tableOrder.list [⟨0, 33⟩, ⟨0, 65⟩, ⟨0, 97⟩])
            ⟨∅, [⟨0, 33⟩, ⟨0, 65⟩, ⟨0, 97⟩]⟩ arcPattern = .ok (tables', s) ∧
          (CopyBase.mk arcPattern ∅ [⟨0, 33⟩, ⟨0, 65⟩, ⟨0, 97⟩]).Copied exampleEnv exampleContext arcPattern 0
            tables' s ∧
            ∀ v ∈ [(⟨0, 33⟩ : ScAddr), ⟨0, 65⟩, ⟨0, 97⟩], (tables'.copies[v]?).isSome) := by
  refine gen_copies_exact 1 arcPatternEvents arcPattern arcPattern_run exampleEnv rfl exampleContext
    (everything_readable _) tableOrder ⟨∅, [⟨0, 33⟩, ⟨0, 65⟩, ⟨0, 97⟩]⟩ ⟨fun v x hx => ?_, fun v hv => ?_, ?_⟩
  · rw [Std.TreeMap.getElem?_emptyc] at hx
    cases hx
  · have hkind : ∀ v ∈ [(⟨0, 33⟩ : ScAddr), ⟨0, 65⟩, ⟨0, 97⟩], scElementIsValid (arcPattern.cell v) = true ∧
        (HasType arcPattern.cell v scTypeNode ∨ (arcPattern.cell v).isArc = true) := by
      decide +kernel
    obtain ⟨hlive, hk⟩ := hkind v hv
    exact ⟨Std.TreeMap.getElem?_emptyc, hk.imp (And.intro hlive) (And.intro hlive)⟩
  · have hends : ∀ v ∈ [(⟨0, 33⟩ : ScAddr), ⟨0, 65⟩, ⟨0, 97⟩],
        LiveArc arcPattern.cell v → ownerOf arcPattern.cell .out v ∈ [(⟨0, 33⟩ : ScAddr), ⟨0, 65⟩, ⟨0, 97⟩] ∧
          ownerOf arcPattern.cell .inp v ∈ [(⟨0, 33⟩ : ScAddr), ⟨0, 65⟩, ⟨0, 97⟩] := by
      unfold LiveArc Live
      decide +kernel
    intro v hv harc d _
    obtain ⟨hout, hinp⟩ := hends v hv harc
    cases d with
    | out => exact Or.inr hout
    | inp => exact Or.inr hinp

end CopyBase

end ScMachine.Scp
