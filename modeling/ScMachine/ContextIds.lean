import ScMachine.ScStorage

/-! The identifiers of memory contexts (`sc_memory.c`). The search for a free one goes through
32-bit candidates and stops when it comes back to the last identifier given, of which only 16
bits are kept. -/
namespace ScMachine.Store

def gMaxUInt32 : ℕ := 4294967295

/-- The static variables behind contexts, and the allocated contexts with their addresses. -/
structure ContextTable where
  contextIdLast : ℕ
  contextIdCount : ℕ
  contextHashTable : ℕ → Option ℕ
  contexts : List (ℕ × ScContext)

/-- No context yet. `s_context_id_last` is 1 in a new process and 0 after a shutdown. -/
def ContextTable.start (last : ℕ) : ContextTable := ⟨last, 0, fun _ => none, []⟩

/-- The condition under which the search goes on. -/
def ContextTable.Busy (m : ContextTable) (index : ℕ) : Prop :=
  index = 0 ∨ (index ≠ m.contextIdLast ∧ (m.contextHashTable index).isSome)

instance (m : ContextTable) (index : ℕ) : Decidable (m.Busy index) :=
  inferInstanceAs (Decidable (_ ∨ _))

/-- The loop over `index`, with a bound on its rounds. -/
def searchIndex (m : ContextTable) : ℕ → ℕ → Option ℕ
  | 0, _ => none
  | fuel + 1, index =>
    if m.Busy index then searchIndex m fuel ((index+1)%gMaxUInt32) else some index

/-- `ctx` is the address that `g_new0` returns; the result is `0` for the null pointer. A search
through all candidates that does not stop never does. -/
def scMemoryContextNewImpl (levels : ScAccessLevels) (ctx : ℕ) (m : ContextTable) :
    Except ScStop (ℕ × ContextTable) :=
  if gMaxUInt32 ≤ m.contextIdCount then .ok (0, m)
  else
    match searchIndex m gMaxUInt32 ((m.contextIdLast+1)%gMaxUInt32) with
    | none => .error .diverge
    | some index =>
      if index ≠ m.contextIdLast then
        .ok (ctx, {
          contextIdLast := index%2^16
          contextIdCount := (m.contextIdCount+1)%2^32
          contextHashTable := Function.update m.contextHashTable index (some ctx)
          contexts := (ctx, ⟨index, levels⟩) :: m.contexts })
      else .ok (0, m)

def scMemoryContextFreeImpl (ctx : ℕ) (m : ContextTable) : Except ScStop ContextTable :=
  match m.contexts.lookup ctx with
  | none => .error .abort
  | some c =>
    if m.contextHashTable c.id ≠ some ctx then .error .abort
    else .ok { m with
      contextIdCount := if m.contextIdCount = 0 then gMaxUInt32 else m.contextIdCount-1
      contextHashTable := Function.update m.contextHashTable c.id none
      contexts := m.contexts.filter (fun p => p.1 ≠ ctx) }

theorem searchIndex_some (m : ContextTable) (fuel index r : ℕ) (hi : index < gMaxUInt32)
    (h : searchIndex m fuel index = some r) :
    ¬ m.Busy r ∧ ∃ j < fuel, r = (index+j)%gMaxUInt32 ∧
      ∀ i < j, m.Busy ((index+i)%gMaxUInt32) := by
  induction fuel generalizing index with
  | zero => simp [searchIndex] at h
  | succ fuel ih =>
    simp only [searchIndex] at h
    split_ifs at h with hbusy
    · obtain ⟨hfree, j, hj, hr, hbefore⟩ := ih _ (Nat.mod_lt _ (by decide)) h
      have hshift (i : ℕ) :
          ((index+1)%gMaxUInt32+i)%gMaxUInt32 = (index+(i+1))%gMaxUInt32 := by
        rw [Nat.mod_add_mod]
        congr 1
        omega
      refine ⟨hfree, j+1, by omega, by rw [hr, hshift], fun i hij => ?_⟩
      cases i with
      | zero => rwa [add_zero, Nat.mod_eq_of_lt hi]
      | succ i => exact hshift i ▸ hbefore i (by omega)
    · obtain rfl := Option.some.inj h
      exact ⟨hbusy, 0, by omega, by rw [add_zero, Nat.mod_eq_of_lt hi],
        fun i hij => absurd hij (by omega)⟩

theorem searchIndex_none (m : ContextTable) (fuel index : ℕ) (hi : index < gMaxUInt32)
    (h : searchIndex m fuel index = none) (j : ℕ) (hj : j < fuel) :
    m.Busy ((index+j)%gMaxUInt32) := by
  induction fuel generalizing index j with
  | zero => omega
  | succ fuel ih =>
    simp only [searchIndex] at h
    split_ifs at h with hbusy
    cases j with
    | zero => rwa [add_zero, Nat.mod_eq_of_lt hi]
    | succ j =>
      have hrest := ih _ (Nat.mod_lt _ (by decide)) h j (by omega)
      rw [Nat.mod_add_mod] at hrest
      rwa [show index+(j+1) = index+1+j from by omega]

/-- Every candidate is met in one round through all of them. -/
theorem candidate_met (index r : ℕ) (hi : index < gMaxUInt32) (hr : r < gMaxUInt32) :
    ∃ j < gMaxUInt32, (index+j)%gMaxUInt32 = r := by
  have hpos : gMaxUInt32 = 4294967295 := rfl
  by_cases hle : index ≤ r
  · exact ⟨r-index, by omega, by rw [Nat.mod_eq_of_lt (by omega)]; omega⟩
  · refine ⟨r+gMaxUInt32-index, by omega, ?_⟩
    rw [show index+(r+gMaxUInt32-index) = r+gMaxUInt32 from by omega, Nat.add_mod_right,
      Nat.mod_eq_of_lt hr]

/-- One round decides whether the loop ever stops. -/
theorem searchIndex_terminates_iff (m : ContextTable) (index : ℕ) (hi : index < gMaxUInt32) :
    (∃ fuel, searchIndex m fuel index ≠ none) ↔ searchIndex m gMaxUInt32 index ≠ none := by
  constructor
  · rintro ⟨fuel, hfuel⟩ hnone
    obtain ⟨r, hr⟩ := Option.ne_none_iff_exists'.mp hfuel
    obtain ⟨hfree, j, _, hj, _⟩ := searchIndex_some m fuel index r hi hr
    obtain ⟨k, hk, hkr⟩ := candidate_met index r hi (hj ▸ Nat.mod_lt _ (by decide))
    exact hfree (hkr ▸ searchIndex_none m gMaxUInt32 index hi hnone k hk)
  · intro h
    exact ⟨gMaxUInt32, h⟩

/-- The identifiers and the table of contexts as they should be. -/
structure ContextsValid (m : ContextTable) : Prop where
  lastLt : m.contextIdLast < 2^16
  addresses : (m.contexts.map (fun p => p.1)).Nodup
  addressNe : ∀ p ∈ m.contexts, p.1 ≠ 0
  ids : (m.contexts.map (fun p => p.2.id)).Nodup
  idNe : ∀ p ∈ m.contexts, p.2.id ≠ 0 ∧ p.2.id < gMaxUInt32
  table : ∀ id ctx, m.contextHashTable id = some ctx ↔ ∃ c, (ctx, c) ∈ m.contexts ∧ c.id = id
  count : m.contextIdCount = m.contexts.length

theorem start_valid (last : ℕ) (h : last < 2^16) : ContextsValid (ContextTable.start last) := by
  refine ⟨h, List.nodup_nil, nofun, List.nodup_nil, nofun, fun id ctx => ?_, rfl⟩
  simp [ContextTable.start]

section
variable {m : ContextTable} (h : ContextsValid m)
include h

/-- The identifiers of live contexts are keys between 1 and `G_MAXUINT32 - 1`. -/
theorem ContextsValid.ids_subset :
    (m.contexts.map (fun p => p.2.id)).toFinset ⊆ Finset.Ico 1 gMaxUInt32 := by
  intro id hid
  obtain ⟨p, hp, rfl⟩ := List.mem_map.mp (List.mem_toFinset.mp hid)
  obtain ⟨hne, hlt⟩ := h.idNe p hp
  exact Finset.mem_Ico.mpr ⟨by omega, hlt⟩

theorem ContextsValid.card_ids :
    (m.contexts.map (fun p => p.2.id)).toFinset.card = m.contextIdCount := by
  rw [List.toFinset_card_of_nodup h.ids, List.length_map, h.count]

theorem ContextsValid.count_le : m.contextIdCount ≤ gMaxUInt32-1 := by
  rw [← h.card_ids]
  exact (Finset.card_le_card h.ids_subset).trans_eq (by rw [Nat.card_Ico])

theorem ContextsValid.table_none_iff (id : ℕ) :
    m.contextHashTable id = none ↔ id ∉ (m.contexts.map (fun p => p.2.id)).toFinset := by
  rw [List.mem_toFinset, List.mem_map, Option.eq_none_iff_forall_ne_some]
  constructor
  · rintro hnone ⟨p, hp, rfl⟩
    exact hnone p.1 ((h.table p.2.id p.1).mpr ⟨p.2, hp, rfl⟩)
  · intro hnot ctx hsome
    obtain ⟨c, hc, hid⟩ := (h.table id ctx).mp hsome
    exact hnot ⟨(ctx, c), hc, hid⟩

/-- Some identifier is free until there are `G_MAXUINT32 - 1` contexts. -/
theorem ContextsValid.free_id_iff :
    (∃ id, 0 < id ∧ id < gMaxUInt32 ∧ m.contextHashTable id = none) ↔
      m.contextIdCount < gMaxUInt32-1 := by
  constructor
  · rintro ⟨id, hpos, hlt, hnone⟩
    have hnot := (h.table_none_iff id).mp hnone
    have hsub := Finset.ssubset_iff_subset_ne.mpr ⟨h.ids_subset,
      fun he => hnot (he ▸ Finset.mem_Ico.mpr ⟨hpos, hlt⟩)⟩
    have hcard := Finset.card_lt_card hsub
    rwa [h.card_ids, Nat.card_Ico] at hcard
  · intro hcount
    have hcard : (m.contexts.map (fun p => p.2.id)).toFinset.card <
        (Finset.Ico 1 gMaxUInt32).card := by
      rwa [h.card_ids, Nat.card_Ico]
    obtain ⟨id, hid, hnot⟩ := Finset.exists_mem_notMem_of_card_lt_card hcard
    obtain ⟨hpos, hlt⟩ := Finset.mem_Ico.mp hid
    exact ⟨id, hpos, hlt, (h.table_none_iff id).mpr hnot⟩

end

/-- The state in which the search comes to an end: the loop is left at the last identifier, unless
that is 0, or at a free one. -/
def SearchCloses (m : ContextTable) : Prop :=
  m.contextIdLast ≠ 0 ∨ m.contextIdCount < gMaxUInt32-1

theorem searchIndex_closes_iff (m : ContextTable) (h : ContextsValid m) :
    searchIndex m gMaxUInt32 ((m.contextIdLast+1)%gMaxUInt32) ≠ none ↔ SearchCloses m := by
  have hstart : (m.contextIdLast+1)%gMaxUInt32 < gMaxUInt32 := Nat.mod_lt _ (by decide)
  constructor
  · intro hsome
    obtain ⟨r, hr⟩ := Option.ne_none_iff_exists'.mp hsome
    obtain ⟨hfree, j, _, hj, _⟩ := searchIndex_some m gMaxUInt32 _ r hstart hr
    by_contra hnot
    unfold SearchCloses at hnot
    have hlt : r < gMaxUInt32 := hj ▸ Nat.mod_lt _ (by decide)
    unfold ContextTable.Busy at hfree
    have hne : ¬ (r ≠ m.contextIdLast ∧ (m.contextHashTable r).isSome) := fun hb => hfree (Or.inr hb)
    have hr0 : r ≠ 0 := fun h0 => hfree (Or.inl h0)
    have hnone : m.contextHashTable r = none := by
      by_contra hsome
      exact hne ⟨by omega, Option.isSome_iff_ne_none.mpr hsome⟩
    exact hnot (Or.inr (h.free_id_iff.mp ⟨r, by omega, hlt, hnone⟩))
  · intro hcloses hnone
    have hbusy (r : ℕ) (hr : r < gMaxUInt32) : m.Busy r := by
      obtain ⟨j, hj, rfl⟩ := candidate_met _ r hstart hr
      exact searchIndex_none m gMaxUInt32 _ hstart hnone j hj
    obtain hlast | hcount := hcloses
    · have hlt : m.contextIdLast < gMaxUInt32 := h.lastLt.trans (by decide)
      obtain h0 | ⟨hne, _⟩ := hbusy _ hlt
      · exact hlast h0
      · exact hne rfl
    · obtain ⟨id, hpos, hlt, hfree⟩ := h.free_id_iff.mpr hcount
      obtain h0 | ⟨_, hsome⟩ := hbusy id hlt
      · omega
      · rw [hfree] at hsome
        exact absurd hsome (by decide)

/-- The state after a context at `ctx` has been given the identifier `index`. -/
def ContextTable.insert (m : ContextTable) (levels : ScAccessLevels) (ctx index : ℕ) :
    ContextTable where
  contextIdLast := index%2^16
  contextIdCount := (m.contextIdCount+1)%2^32
  contextHashTable := Function.update m.contextHashTable index (some ctx)
  contexts := (ctx, ⟨index, levels⟩) :: m.contexts

theorem ContextTable.insert_table (m : ContextTable) (levels : ScAccessLevels) (ctx index id : ℕ) :
    (m.insert levels ctx index).contextHashTable id =
      if id = index then some ctx else m.contextHashTable id := by
  simp only [ContextTable.insert, Function.update_apply]

/-- Everything that a creation can do. -/
theorem contextNew_cases (levels : ScAccessLevels) (ctx r : ℕ) (m m' : ContextTable)
    (hnew : scMemoryContextNewImpl levels ctx m = .ok (r, m')) :
    (r = 0 ∧ m' = m) ∨
      ∃ index, 0 < index ∧ index < gMaxUInt32 ∧ m.contextHashTable index = none ∧
        r = ctx ∧ m' = m.insert levels ctx index := by
  have hstart : (m.contextIdLast+1)%gMaxUInt32 < gMaxUInt32 := Nat.mod_lt _ (by decide)
  unfold scMemoryContextNewImpl at hnew
  split at hnew
  · cases hnew
    exact Or.inl ⟨rfl, rfl⟩
  · split at hnew
    · cases hnew
    · rename_i index hindex
      obtain ⟨hfree, j, _, hj, _⟩ := searchIndex_some m gMaxUInt32 _ index hstart hindex
      split_ifs at hnew with hlast
      · cases hnew
        have hne : index ≠ 0 := fun h0 => hfree (Or.inl h0)
        refine Or.inr ⟨index, by omega, hj ▸ Nat.mod_lt _ (by decide), ?_, rfl, rfl⟩
        by_contra hsome
        exact hfree (Or.inr ⟨hlast, Option.isSome_iff_ne_none.mpr hsome⟩)
      · cases hnew
        exact Or.inl ⟨rfl, rfl⟩

/-- A free identifier keeps the identifiers different. -/
theorem ContextsValid.insert {m : ContextTable} (h : ContextsValid m) (levels : ScAccessLevels)
    (ctx index : ℕ) (hctx : ctx ≠ 0) (hfresh : ∀ p ∈ m.contexts, p.1 ≠ ctx) (hpos : 0 < index)
    (hlt : index < gMaxUInt32) (hnone : m.contextHashTable index = none) :
    ContextsValid (m.insert levels ctx index) := by
  have hunused := (h.table_none_iff index).mp hnone
  rw [List.mem_toFinset] at hunused
  have hcount := h.free_id_iff.mp ⟨index, hpos, hlt, hnone⟩
  refine ⟨Nat.mod_lt _ (by decide), ?_, ?_, List.nodup_cons.mpr ⟨hunused, h.ids⟩, ?_, ?_, ?_⟩
  · refine List.nodup_cons.mpr ⟨fun hmem => ?_, h.addresses⟩
    obtain ⟨p, hp, he⟩ := List.mem_map.mp hmem
    exact hfresh p hp he
  · rintro p (_ | ⟨_, hp⟩)
    · exact hctx
    · exact h.addressNe p hp
  · rintro p (_ | ⟨_, hp⟩)
    · exact ⟨by simp only; omega, hlt⟩
    · exact h.idNe p hp
  · intro id ctx'
    simp only [ContextTable.insert, List.mem_cons]
    by_cases hid : id = index
    · subst hid
      rw [Function.update_self]
      constructor
      · intro he
        obtain rfl := Option.some.inj he
        exact ⟨⟨id, levels⟩, Or.inl rfl, rfl⟩
      · rintro ⟨c, hhead | htail, hcid⟩
        · rw [(Prod.mk.inj hhead).1]
        · exact absurd (List.mem_map.mpr ⟨_, htail, hcid⟩) hunused
    · rw [Function.update_of_ne hid, h.table]
      constructor
      · rintro ⟨c, hc, hcid⟩
        exact ⟨c, Or.inr hc, hcid⟩
      · rintro ⟨c, hhead | htail, hcid⟩
        · exact absurd (hcid.symm.trans (congrArg (fun p => p.2.id) hhead)) hid
        · exact ⟨c, htail, hcid⟩
  · simp only [ContextTable.insert, List.length_cons, ← h.count]
    simp only [gMaxUInt32] at hcount
    exact Nat.mod_eq_of_lt (by omega)

/-- The state after the context at `ctx`, with identifier `id`, has been freed. -/
def ContextTable.erase (m : ContextTable) (ctx id : ℕ) : ContextTable :=
  { m with
    contextIdCount := if m.contextIdCount = 0 then gMaxUInt32 else m.contextIdCount-1
    contextHashTable := Function.update m.contextHashTable id none
    contexts := m.contexts.filter (fun p => p.1 ≠ ctx) }

theorem ContextTable.erase_table (m : ContextTable) (ctx index id : ℕ) :
    (m.erase ctx index).contextHashTable id =
      if id = index then none else m.contextHashTable id := by
  simp only [ContextTable.erase, Function.update_apply]

section
variable {m : ContextTable} (h : ContextsValid m)
include h

theorem ContextsValid.context_unique (ctx : ℕ) (c d : ScContext) (hc : (ctx, c) ∈ m.contexts)
    (hd : (ctx, d) ∈ m.contexts) : c = d :=
  congrArg Prod.snd (List.inj_on_of_nodup_map h.addresses hc hd rfl)

theorem ContextsValid.lookup (ctx : ℕ) (c : ScContext) (hc : (ctx, c) ∈ m.contexts) :
    m.contexts.lookup ctx = some c := by
  cases hd : m.contexts.lookup ctx with
  | none =>
    have hne := List.lookup_eq_none_iff.mp hd (ctx, c) hc
    simp at hne
  | some d =>
    obtain ⟨l₁, l₂, hl, _⟩ := List.lookup_eq_some_iff.mp hd
    have hmem : (ctx, d) ∈ m.contexts := by
      rw [hl]
      simp
    rw [h.context_unique ctx d c hmem hc]

/-- Freeing a live context never fails its assertion. -/
theorem ContextsValid.free (ctx : ℕ) (c : ScContext) (hc : (ctx, c) ∈ m.contexts) :
    scMemoryContextFreeImpl ctx m = .ok (m.erase ctx c.id) := by
  have htable := (h.table c.id ctx).mpr ⟨c, hc, rfl⟩
  simp only [scMemoryContextFreeImpl, h.lookup ctx c hc, htable, ne_eq, not_true_eq_false, if_false]
  rfl

theorem ContextsValid.length_erase (ctx : ℕ) (c : ScContext) (hc : (ctx, c) ∈ m.contexts) :
    (m.contexts.filter (fun p => p.1 ≠ ctx)).length+1 = m.contexts.length := by
  have hone : (m.contexts.map (fun p => p.1)).count ctx = 1 :=
    List.count_eq_one_of_mem h.addresses (List.mem_map.mpr ⟨_, hc, rfl⟩)
  rw [List.count, List.countP_map, List.countP_eq_length_filter] at hone
  have hsplit := List.length_eq_length_filter_add (l := m.contexts) (fun p => decide (p.1 ≠ ctx))
  have hother : (m.contexts.filter (fun p => !decide (p.1 ≠ ctx))).length = 1 := by
    rw [← hone]
    congr 2
    funext p
    by_cases hp : p.1 = ctx <;> simp [hp]
  omega

theorem ContextsValid.erase (ctx : ℕ) (c : ScContext) (hc : (ctx, c) ∈ m.contexts) :
    ContextsValid (m.erase ctx c.id) where
  lastLt := h.lastLt
  addresses := h.addresses.sublist (List.filter_sublist.map _)
  addressNe p hp := h.addressNe p (List.mem_of_mem_filter hp)
  ids := h.ids.sublist (List.filter_sublist.map _)
  idNe p hp := h.idNe p (List.mem_of_mem_filter hp)
  table id ctx' := by
    simp only [ContextTable.erase, List.mem_filter, ne_eq, decide_not, Bool.not_eq_eq_eq_not,
      Bool.not_true, decide_eq_false_iff_not]
    by_cases hid : id = c.id
    · subst hid
      rw [Function.update_self]
      constructor
      · nofun
      · -- only the freed context has this identifier
        rintro ⟨d, ⟨hd, hne⟩, hdid⟩
        have hsame := List.inj_on_of_nodup_map h.ids hd hc hdid
        exact absurd (congrArg Prod.fst hsame) hne
    · rw [Function.update_of_ne hid, h.table]
      constructor
      · rintro ⟨d, hd, hdid⟩
        refine ⟨d, ⟨hd, fun he => ?_⟩, hdid⟩
        subst he
        rw [h.context_unique _ d c hd hc] at hdid
        exact hid hdid.symm
      · rintro ⟨d, ⟨hd, _⟩, hdid⟩
        exact ⟨d, hd, hdid⟩
  count := by
    have hlen := h.length_erase ctx c hc
    have hle := h.count_le
    have hcount := h.count
    simp only [ContextTable.erase]
    rw [if_neg (by omega)]
    omega

end

/-- A call of `sc_memory_context_new` with the address `ctx` that its allocation returns, or of
`sc_memory_context_free`. -/
inductive ContextCall where
  | new (levels : ScAccessLevels) (ctx : ℕ)
  | free (ctx : ℕ)

def ContextCall.run : ContextCall → ContextTable → Except ScStop ContextTable
  | .new levels ctx, m => (scMemoryContextNewImpl levels ctx m).map (fun r => r.2)
  | .free ctx, m => scMemoryContextFreeImpl ctx m

/-- Allocated memory is not handed out twice, and only live contexts are freed. -/
def ContextCall.Legal : ContextCall → ContextTable → Prop
  | .new _ ctx, m => ctx ≠ 0 ∧ ∀ p ∈ m.contexts, p.1 ≠ ctx
  | .free ctx, m => ∃ c, (ctx, c) ∈ m.contexts

/-- A creation starts in a state in which its search comes to an end. -/
def ContextCall.Closes : ContextCall → ContextTable → Prop
  | .new _ _, m => SearchCloses m
  | .free _, _ => True

def runCalls : List ContextCall → ContextTable → Except ScStop ContextTable
  | [], m => .ok m
  | call :: calls, m => call.run m >>= runCalls calls

/-- `P` holds of each call that is made, in the state in which it is made. -/
def EachCall (P : ContextCall → ContextTable → Prop) : List ContextCall → ContextTable → Prop
  | [], _ => True
  | call :: calls, m => P call m ∧ ∀ m', call.run m = .ok m' → EachCall P calls m'

/-- A legal call from a valid state keeps it valid, and it returns unless its search runs on. -/
theorem call_valid (call : ContextCall) (m : ContextTable) (h : ContextsValid m)
    (hlegal : call.Legal m) :
    ((∃ m', call.run m = .ok m') ↔ call.Closes m) ∧
      ∀ m', call.run m = .ok m' → ContextsValid m' := by
  cases call with
  | new levels ctx =>
    obtain ⟨hctx, hfresh⟩ := hlegal
    constructor
    · have hcount : ¬ gMaxUInt32 ≤ m.contextIdCount := by
        have hle := h.count_le
        simp only [gMaxUInt32] at hle ⊢
        omega
      rw [ContextCall.Closes, ← searchIndex_closes_iff m h]
      simp only [ContextCall.run, scMemoryContextNewImpl, if_neg hcount]
      cases searchIndex m gMaxUInt32 ((m.contextIdLast+1)%gMaxUInt32) with
      | none => simp [Except.map]
      | some index =>
        by_cases hlast : index = m.contextIdLast <;> simp [hlast, Except.map]
    · intro m' hrun
      cases hnew : scMemoryContextNewImpl levels ctx m with
      | error e => simp [ContextCall.run, hnew, Except.map] at hrun
      | ok r =>
        have hr : r.2 = m' := by simpa [ContextCall.run, hnew, Except.map] using hrun
        subst hr
        obtain ⟨_, hsame⟩ | ⟨index, hpos, hlt, hnone, _, hins⟩ := contextNew_cases levels ctx r.1 m r.2 hnew
        · exact hsame ▸ h
        · exact hins ▸ h.insert levels ctx index hctx hfresh hpos hlt hnone
  | free ctx =>
    obtain ⟨c, hc⟩ := hlegal
    have hfree := h.free ctx c hc
    refine ⟨⟨fun _ => trivial, fun _ => ⟨_, hfree⟩⟩, fun m' hrun => ?_⟩
    obtain rfl := Except.ok.inj (hfree.symm.trans hrun)
    exact h.erase ctx c hc

/-- Every call of the sequence returns, and every state between them is valid. -/
def ContextsBehave (calls : List ContextCall) (m : ContextTable) : Prop :=
  ∀ pre, pre <+: calls → ∃ m', runCalls pre m = .ok m' ∧ ContextsValid m'

theorem contextsBehave_cons (call : ContextCall) (calls : List ContextCall) (m : ContextTable)
    (h : ContextsValid m) :
    ContextsBehave (call :: calls) m ↔ ∃ m', call.run m = .ok m' ∧ ContextsBehave calls m' := by
  constructor
  · intro hb
    obtain ⟨m', hrun, _⟩ := hb [call] ⟨calls, rfl⟩
    have hcall : call.run m = .ok m' := by
      cases hr : call.run m with
      | error e => simp [runCalls, hr, bind, Except.bind] at hrun
      | ok m'' =>
        simpa [runCalls, hr, bind, Except.bind] using hrun
    refine ⟨m', hcall, fun pre hpre => ?_⟩
    obtain ⟨m'', hrest, hvalid⟩ := hb (call :: pre) (List.cons_prefix_cons.mpr ⟨rfl, hpre⟩)
    simp only [runCalls, hcall, bind, Except.bind] at hrest
    exact ⟨m'', hrest, hvalid⟩
  · rintro ⟨m', hcall, hb⟩ pre hpre
    cases pre with
    | nil => exact ⟨m, rfl, h⟩
    | cons c pre =>
      obtain ⟨rfl, htail⟩ := List.cons_prefix_cons.mp hpre
      obtain ⟨m'', hrest, hvalid⟩ := hb pre htail
      refine ⟨m'', ?_, hvalid⟩
      simp only [runCalls, hcall, bind, Except.bind]
      exact hrest

theorem contexts_behave_from (calls : List ContextCall) (m : ContextTable) (h : ContextsValid m)
    (hlegal : EachCall ContextCall.Legal calls m) :
    ContextsBehave calls m ↔ EachCall ContextCall.Closes calls m := by
  induction calls generalizing m with
  | nil =>
    refine ⟨fun _ => trivial, fun _ pre hpre => ⟨m, ?_, h⟩⟩
    rw [List.prefix_nil.mp hpre]
    rfl
  | cons call calls ih =>
    obtain ⟨hcall, hrest⟩ := hlegal
    obtain ⟨hreturns, hvalid⟩ := call_valid call m h hcall
    rw [contextsBehave_cons call calls m h]
    constructor
    · rintro ⟨m', hrun, hb⟩
      refine ⟨hreturns.mp ⟨m', hrun⟩, fun m'' hrun' => ?_⟩
      obtain rfl := Except.ok.inj (hrun.symm.trans hrun')
      exact (ih m' (hvalid m' hrun) (hrest m' hrun)).mp hb
    · rintro ⟨hcloses, hafter⟩
      obtain ⟨m', hrun⟩ := hreturns.mpr hcloses
      exact ⟨m', hrun, (ih m' (hvalid m' hrun) (hrest m' hrun)).mpr (hafter m' hrun)⟩

/-- In any sequence of creations and deletions, every call returns and all identifiers are
different, exactly when each creation starts with a last identifier that is not 0 modulo 2^16 or
with an identifier left. -/
theorem context_ids_unique_iff (last : ℕ) (hlast : last < 2^16) (calls : List ContextCall)
    (hlegal : EachCall ContextCall.Legal calls (ContextTable.start last)) :
    ContextsBehave calls (ContextTable.start last) ↔
      EachCall ContextCall.Closes calls (ContextTable.start last) :=
  contexts_behave_from calls _ (start_valid last hlast) hlegal

/-- A free candidate right after the last identifier is taken at once. -/
theorem contextNew_next (m : ContextTable) (levels : ScAccessLevels) (ctx : ℕ)
    (hlast : m.contextIdLast < 2^16) (hcount : m.contextIdCount < gMaxUInt32)
    (hfree : m.contextHashTable (m.contextIdLast+1) = none) :
    scMemoryContextNewImpl levels ctx m =
      .ok (ctx, m.insert levels ctx (m.contextIdLast+1)) := by
  have hmod : (m.contextIdLast+1)%gMaxUInt32 = m.contextIdLast+1 := by
    apply Nat.mod_eq_of_lt
    simp only [gMaxUInt32]
    omega
  have hbusy : ¬ m.Busy (m.contextIdLast+1) := by
    rintro (h0 | ⟨_, hsome⟩)
    · omega
    · rw [hfree] at hsome
      exact absurd hsome (by decide)
  have hsearch : searchIndex m gMaxUInt32 (m.contextIdLast+1) = some (m.contextIdLast+1) := by
    rw [show gMaxUInt32 = (gMaxUInt32-1)+1 from rfl, searchIndex, if_neg hbusy]
  have hne : m.contextIdLast+1 ≠ m.contextIdLast := by omega
  simp only [scMemoryContextNewImpl, if_neg (not_le.mpr hcount), hmod, hsearch, if_pos hne]
  rfl

/-- As long as an identifier other than the last one is free, a creation gets a free one: the
search meets it before it comes back to the last one. -/
theorem contextNew_some_free (m : ContextTable) (h : ContextsValid m) (levels : ScAccessLevels)
    (ctx r : ℕ) (hpos : 0 < r) (hr : r < gMaxUInt32) (hne : r ≠ m.contextIdLast)
    (hfree : m.contextHashTable r = none) :
    ∃ index, 0 < index ∧ index < gMaxUInt32 ∧ m.contextHashTable index = none ∧
      scMemoryContextNewImpl levels ctx m = .ok (ctx, m.insert levels ctx index) := by
  have hstart : (m.contextIdLast+1)%gMaxUInt32 < gMaxUInt32 := Nat.mod_lt _ (by decide)
  have hcount := h.free_id_iff.mp ⟨r, hpos, hr, hfree⟩
  have hle : ¬ gMaxUInt32 ≤ m.contextIdCount := by omega
  have hsome := (searchIndex_closes_iff m h).mpr (Or.inr hcount)
  obtain ⟨index, hindex⟩ := Option.ne_none_iff_exists'.mp hsome
  obtain ⟨hidle, j, hj, hij, hbefore⟩ := searchIndex_some m gMaxUInt32 _ index hstart hindex
  have hlast : index ≠ m.contextIdLast := by
    intro he
    obtain ⟨k, hk, hkr⟩ := candidate_met _ r hstart hr
    have hlt : m.contextIdLast < gMaxUInt32 := h.lastLt.trans (by decide)
    -- the last identifier is the last candidate of the round
    have hjlast : j = gMaxUInt32-1 := by
      rw [he, Nat.mod_add_mod] at hij
      simp only [gMaxUInt32] at hij hj hlt ⊢
      omega
    have hkne : k ≠ gMaxUInt32-1 := by
      intro hk'
      rw [hk', Nat.mod_add_mod] at hkr
      simp only [gMaxUInt32] at hkr hr hlt
      omega
    have hbusy := hbefore k (by omega)
    rw [hkr] at hbusy
    obtain h0 | ⟨_, hlive⟩ := hbusy
    · omega
    · rw [hfree] at hlive
      exact absurd hlive (by decide)
  refine ⟨index, ?_, hij ▸ Nat.mod_lt _ (by decide), ?_, ?_⟩
  · exact Nat.pos_of_ne_zero (fun h0 => hidle (Or.inl h0))
  · by_contra hlive
    exact hidle (Or.inr ⟨hlast, Option.isSome_iff_ne_none.mpr hlive⟩)
  · simp only [scMemoryContextNewImpl, if_neg hle, hindex, if_pos hlast]
    rfl

/-- Two contexts are created and the first one is freed. -/
def twoContexts : List ContextCall := [.new 0xff 16, .new 0xff 32, .free 16]

theorem context_ids_unique_two :
    ContextsBehave twoContexts (ContextTable.start 1) ↔
      EachCall ContextCall.Closes twoContexts (ContextTable.start 1) := by
  have h1 := contextNew_next (ContextTable.start 1) 0xff 16 (by decide) (by decide) rfl
  have h2 := contextNew_next ((ContextTable.start 1).insert 0xff 16 2) 0xff 32 (by decide)
    (by decide) (by decide)
  refine context_ids_unique_iff 1 (by decide) twoContexts ⟨⟨by decide, nofun⟩, fun m hm => ?_⟩
  obtain rfl : (ContextTable.start 1).insert 0xff 16 2 = m := by
    simp only [ContextCall.run, h1, Except.map] at hm
    exact Except.ok.inj hm
  refine ⟨⟨by decide, by decide⟩, fun m hm => ?_⟩
  obtain rfl : ((ContextTable.start 1).insert 0xff 16 2).insert 0xff 32 3 = m := by
    simp only [ContextCall.run, h2, Except.map] at hm
    exact Except.ok.inj hm
  exact ⟨⟨⟨2, 0xff⟩, by simp [ContextTable.insert]⟩, fun _ _ => trivial⟩

theorem runCalls_append (l l' : List ContextCall) (m : ContextTable) :
    runCalls (l ++ l') m = runCalls l m >>= runCalls l' := by
  induction l generalizing m with
  | nil => rfl
  | cons call l ih =>
    simp only [List.cons_append, runCalls]
    cases call.run m with
    | error e => rfl
    | ok m' => exact ih m'

theorem eachCall_append (P : ContextCall → ContextTable → Prop) (l l' : List ContextCall)
    (m : ContextTable) (h : EachCall P l m)
    (h' : ∀ m', runCalls l m = .ok m' → EachCall P l' m') : EachCall P (l ++ l') m := by
  induction l generalizing m with
  | nil => exact h' m rfl
  | cons call l ih =>
    refine ⟨h.1, fun m' hm' => ih m' (h.2 m' hm') (fun m'' hm'' => h' m'' ?_)⟩
    simp only [runCalls, hm', bind, Except.bind]
    exact hm''

/-- `n` contexts are created at the addresses `1, …, n`. -/
@[irreducible] def fillCalls (n : ℕ) : List ContextCall :=
  (List.range n).map (fun k => .new 0xff (k+1))

theorem fillCalls_zero : fillCalls 0 = [] := by
  rw [fillCalls]
  rfl

theorem fillCalls_succ (n : ℕ) : fillCalls (n+1) = fillCalls n ++ [.new 0xff (n+1)] := by
  rw [fillCalls, fillCalls, List.range_succ, List.map_append]
  rfl

/-- The state after `k` creations at the addresses `1, …, k`, none of them refused. -/
structure Filled (k : ℕ) (m : ContextTable) : Prop where
  legal : EachCall ContextCall.Legal (fillCalls k) (ContextTable.start 1)
  run : runCalls (fillCalls k) (ContextTable.start 1) = .ok m
  valid : ContextsValid m
  count : m.contextIdCount = k
  addresses : ∀ p ∈ m.contexts, p.1 ≤ k

theorem Filled.next {k : ℕ} {m : ContextTable} (h : Filled k m) (index : ℕ)
    (hpos : 0 < index) (hlt : index < gMaxUInt32) (hnone : m.contextHashTable index = none)
    (hnew : scMemoryContextNewImpl 0xff (k+1) m = .ok (k+1, m.insert 0xff (k+1) index)) :
    Filled (k+1) (m.insert 0xff (k+1) index) := by
  have hfresh : ∀ p ∈ m.contexts, p.1 ≠ k+1 := fun p hp => by
    have hle := h.addresses p hp
    omega
  have hcount := h.valid.free_id_iff.mp ⟨index, hpos, hlt, hnone⟩
  refine ⟨?_, ?_, h.valid.insert 0xff (k+1) index (by omega) hfresh hpos hlt hnone, ?_, ?_⟩
  · rw [fillCalls_succ]
    refine eachCall_append _ _ _ _ h.legal (fun m' hm' => ?_)
    obtain rfl := Except.ok.inj (h.run.symm.trans hm')
    exact ⟨⟨by omega, hfresh⟩, fun _ _ => trivial⟩
  · rw [fillCalls_succ, runCalls_append, h.run]
    simp only [runCalls, ContextCall.run, hnew, Except.map, bind, Except.bind]
  · rw [h.count] at hcount
    simp only [ContextTable.insert, h.count]
    simp only [gMaxUInt32] at hcount
    exact Nat.mod_eq_of_lt (by omega)
  · rintro p (_ | ⟨_, hp⟩)
    · exact le_rfl
    · exact (h.addresses p hp).trans (Nat.le_succ k)

/-- The first 65535 contexts get the identifiers `2, …, 65536`. -/
theorem filled_first (k : ℕ) (hk : k ≤ 65535) :
    ∃ m, Filled k m ∧ m.contextIdLast = (k+1)%2^16 ∧
      ∀ id, m.contextHashTable id = if 2 ≤ id ∧ id ≤ k+1 then some (id-1) else none := by
  induction k with
  | zero =>
    have hfilled : Filled 0 (ContextTable.start 1) := by
      refine ⟨?_, ?_, start_valid 1 (by decide), rfl, nofun⟩
      · rw [fillCalls_zero]
        trivial
      · rw [fillCalls_zero]
        rfl
    refine ⟨ContextTable.start 1, hfilled, rfl, fun id => ?_⟩
    rw [if_neg (by omega)]
    rfl
  | succ k ih =>
    obtain ⟨m, hm, hlast, htable⟩ := ih (by omega)
    have hlast' : m.contextIdLast = k+1 := by omega
    have hnone : m.contextHashTable (m.contextIdLast+1) = none := by
      rw [htable, if_neg (by omega)]
    have hnew := contextNew_next m 0xff (k+1) hm.valid.lastLt
      (by rw [hm.count]; simp only [gMaxUInt32]; omega) hnone
    refine ⟨_, hm.next _ (by omega) (by simp only [gMaxUInt32]; omega) hnone hnew, ?_, fun id => ?_⟩
    · rw [hlast']
      rfl
    · simp only [ContextTable.insert, hlast']
      by_cases hid : id = k+1+1
      · subst hid
        rw [Function.update_self, if_pos (by omega)]
        rfl
      · rw [Function.update_of_ne hid, htable]
        by_cases hin : 2 ≤ id ∧ id ≤ k+1
        · rw [if_pos hin, if_pos (by omega)]
        · rw [if_neg hin, if_neg (by omega)]

/-- From then on every creation gets an identifier, until there is none left. -/
theorem filled_all (k : ℕ) (hk : 65536 ≤ k) (hlt : k ≤ gMaxUInt32-1) :
    ∃ m, Filled k m ∧ m.contextHashTable 65536 = some 65535 ∧
      ∀ id, 0 < id → id ≤ 65536 → m.contextHashTable id ≠ none := by
  induction k, hk using Nat.le_induction with
  | base =>
    obtain ⟨m, hm, hlast, htable⟩ := filled_first 65535 le_rfl
    have hnone : m.contextHashTable (m.contextIdLast+1) = none := by
      rw [htable, hlast]
      rfl
    have hnew := contextNew_next m 0xff (65535+1) hm.valid.lastLt
      (by rw [hm.count]; decide) hnone
    refine ⟨_, hm.next _ (by omega) (by rw [hlast]; decide) hnone hnew, ?_, fun id h0 h1 => ?_⟩
    · simp only [ContextTable.insert, hlast]
      rw [Function.update_of_ne (by decide), htable]
      rfl
    · simp only [ContextTable.insert, hlast]
      by_cases hid : id = 1
      · subst hid
        exact fun h => absurd ((Function.update_self ..).symm.trans h) nofun
      · rw [Function.update_of_ne (by omega), htable, if_pos (by omega)]
        exact nofun
  | succ k hk ih =>
    obtain ⟨m, hm, hmark, hlow⟩ := ih (by omega)
    obtain ⟨r, hpos, hr, hfree⟩ := hm.valid.free_id_iff.mpr (by rw [hm.count]; omega)
    have hne : r ≠ m.contextIdLast := by
      rintro rfl
      have hlast := hm.valid.lastLt
      exact hlow _ hpos (by omega) hfree
    obtain ⟨index, hipos, hilt, hinone, hnew⟩ :=
      contextNew_some_free m hm.valid 0xff (k+1) r hpos hr hne hfree
    have hhigh : 65536 < index := by
      by_contra hle
      exact hlow index hipos (by omega) hinone
    refine ⟨_, hm.next index hipos hilt hinone hnew, ?_, fun id h0 h1 => ?_⟩
    · simp only [ContextTable.insert]
      rw [Function.update_of_ne (by omega), hmark]
    · simp only [ContextTable.insert]
      rw [Function.update_of_ne (by omega)]
      exact hlow id h0 h1

/-- All identifiers are taken; the context with identifier 65536 is freed and created again, which
leaves 0 as the last identifier; then one more context is asked for. -/
def exhaustingCalls : List ContextCall :=
  fillCalls (gMaxUInt32-1) ++ [.free 65535, .new 0xff gMaxUInt32, .new 0xff (gMaxUInt32+1)]

/-- With 0 as the last identifier and none left, the next creation does not return. -/
theorem contextNew_runs_on (m : ContextTable) (h : ContextsValid m) (levels : ScAccessLevels)
    (ctx : ℕ) (hlast : m.contextIdLast = 0)
    (hfull : ∀ id, 0 < id → id < gMaxUInt32 → m.contextHashTable id ≠ none) :
    scMemoryContextNewImpl levels ctx m = .error .diverge := by
  have hopen : ¬ SearchCloses m := by
    rintro (hne | hcount)
    · exact hne hlast
    · obtain ⟨id, hpos, hlt, hnone⟩ := h.free_id_iff.mpr hcount
      exact hfull id hpos hlt hnone
  have hle : ¬ gMaxUInt32 ≤ m.contextIdCount := by
    have hcount := h.count_le
    have hpos : 0 < gMaxUInt32 := by decide
    omega
  have hnone := not_not.mp (mt (searchIndex_closes_iff m h).mp hopen)
  simp only [scMemoryContextNewImpl, if_neg hle, hnone]

theorem exhausting_search_runs_on :
    EachCall ContextCall.Legal exhaustingCalls (ContextTable.start 1) ∧
      runCalls exhaustingCalls (ContextTable.start 1) = .error .diverge ∧
      ¬ ContextsBehave exhaustingCalls (ContextTable.start 1) := by
  have hpos : 0 < gMaxUInt32 := by decide
  obtain ⟨m, ⟨hlegal, hrun0, hv, hcount0, haddr⟩, hmark, _⟩ :=
    filled_all (gMaxUInt32-1) (by decide) le_rfl
  have hfull (id : ℕ) (hid : 0 < id) (hlt : id < gMaxUInt32) : m.contextHashTable id ≠ none := by
    intro hnone
    have hcount := hv.free_id_iff.mp ⟨id, hid, hlt, hnone⟩
    rw [hcount0] at hcount
    exact lt_irrefl _ hcount
  obtain ⟨c, hc, hcid⟩ := (hv.table 65536 65535).mp hmark
  have hfree := hv.free 65535 c hc
  have hv1 := hv.erase 65535 c hc
  have htable1 := m.erase_table 65535 c.id
  have haddr1 (p : ℕ × ScContext) (hp : p ∈ (m.erase 65535 c.id).contexts) :
      p.1 ≤ gMaxUInt32-1 := haddr p (List.mem_of_mem_filter hp)
  generalize m.erase 65535 c.id = m1 at *
  rw [hcid] at htable1
  have hfresh1 (p : ℕ × ScContext) (hp : p ∈ m1.contexts) : p.1 ≠ gMaxUInt32 := by
    have hle := haddr1 p hp
    omega
  -- the only free identifier is not the last one, so the next creation takes it
  have hlast1 : (65536 : ℕ) ≠ m1.contextIdLast := by
    have hlt := hv1.lastLt
    omega
  obtain ⟨index, hipos, hilt, hinone, hnew⟩ := contextNew_some_free m1 hv1 0xff gMaxUInt32 65536
    (by omega) (by decide) hlast1 (by rw [htable1, if_pos rfl])
  have hindex : index = 65536 := by
    by_contra hne
    rw [htable1, if_neg hne] at hinone
    exact hfull index hipos hilt hinone
  have hv2 := hv1.insert 0xff gMaxUInt32 index (by omega) hfresh1 hipos hilt hinone
  have htable2 := m1.insert_table 0xff gMaxUInt32 index
  have hfresh2 (p : ℕ × ScContext) (hp : p ∈ (m1.insert 0xff gMaxUInt32 index).contexts) :
      p.1 ≠ gMaxUInt32+1 := by
    obtain rfl | hp := List.mem_cons.mp hp
    · exact Nat.ne_of_lt (Nat.lt_succ_self _)
    · have hle := haddr1 p hp
      omega
  have hlast2 : (m1.insert 0xff gMaxUInt32 index).contextIdLast = 0 := by
    rw [hindex]
    rfl
  generalize m1.insert 0xff gMaxUInt32 index = m2 at *
  have hfull2 (id : ℕ) (hid : 0 < id) (hlt : id < gMaxUInt32) : m2.contextHashTable id ≠ none := by
    rw [htable2, htable1, hindex]
    by_cases he : id = 65536
    · rw [if_pos he]
      exact nofun
    · rw [if_neg he, if_neg he]
      exact hfull id hid hlt
  have hdiverge := contextNew_runs_on m2 hv2 0xff (gMaxUInt32+1) hlast2 hfull2
  have hrun : runCalls exhaustingCalls (ContextTable.start 1) = .error .diverge := by
    rw [exhaustingCalls, runCalls_append, hrun0]
    simp only [runCalls, ContextCall.run, hfree, hnew, hdiverge, Except.map, bind, Except.bind]
  refine ⟨?_, hrun, fun hb => ?_⟩
  · rw [exhaustingCalls]
    generalize fillCalls (gMaxUInt32-1) = calls at hlegal hrun0 ⊢
    refine eachCall_append ContextCall.Legal calls _ _ hlegal (fun m' hm' => ?_)
    obtain rfl := Except.ok.inj (hrun0.symm.trans hm')
    refine ⟨⟨c, hc⟩, fun m' hm' => ?_⟩
    obtain rfl := Except.ok.inj (hfree.symm.trans hm')
    refine ⟨⟨by omega, hfresh1⟩, fun m' hm' => ?_⟩
    simp only [ContextCall.run, hnew, Except.map] at hm'
    obtain rfl := Except.ok.inj hm'
    exact ⟨⟨by omega, hfresh2⟩, fun _ _ => trivial⟩
  · obtain ⟨m', hm', _⟩ := hb exhaustingCalls List.prefix_rfl
    rw [hrun] at hm'
    cases hm'

end ScMachine.Store
