import ScMachine.DeletionExact
import ScMachine.InvertedIndex

/-! The content of a link, in its cell or in the database, and the index from checksums to links. -/
namespace ScMachine.Store
open ScMachine.StateExcept ScMachine.Runs ScMachine.InvertedIndex

/-- The strings that have been set on the links. -/
abbrev Contents := ScAddr → List ScByte

/-- Some content has been set on the link. -/
def ContentSet (el : ScElement) : Prop :=
  el.type &&& scFlagLinkSelfContainer ≠ 0 ∨ scElementIsChecksumEmpty el = false

/-- A link with the empty content in its cell that passes for one that was never set. -/
def BlindLink (el : ScElement) : Prop :=
  el.isLink = true ∧ el.type &&& scFlagLinkSelfContainer ≠ 0 ∧ scElementIsChecksumEmpty el = true

/-- The link with the cell `el` has the content `bytes`, one of the strings `S`. -/
inductive CellContent (checksum : List ScByte → Fin 32 → ScByte) (S : Set (List ScByte))
    (fm : FileMemory) (el : ScElement) : List ScByte → Prop where
  | unset : el.type &&& scFlagLinkSelfContainer = 0 → (∀ i, el.data i = 0) →
      CellContent checksum S fm el []
  | inline (bytes : List ScByte) : el.type &&& scFlagLinkSelfContainer ≠ 0 → bytes ∈ S →
      bytes.length < 32 → el.data 0 = BitVec.ofNat 8 bytes.length →
      (∀ env, selfContainerBytes env el.data = bytes) → CellContent checksum S fm el bytes
  | stored (bytes : List ScByte) : el.type &&& scFlagLinkSelfContainer = 0 → bytes ∈ S →
      el.data = checksum bytes → fm.content el.data = some bytes → 32 ≤ bytes.length →
      CellContent checksum S fm el bytes

/-- The address stands under the key of its content. -/
def Keyed (checksum : List ScByte → Fin 32 → ScByte) (c : Cells) (m : Contents) (y : ScAddr)
    (k : Fin 32 → ScByte) : Prop :=
  (Live c y ∧ (c y).isLink = true ∧ ContentSet (c y)) ∧ checksum (m y) = k

section
variable {env : ScEnv} {st st' : ScStorage} {a x y : ScAddr} {fm fm' : FileMemory}
  {checksum : List ScByte → Fin 32 → ScByte} {S : Set (List ScByte)} {el el' : ScElement}
  {bytes : List ScByte}

theorem addrs_remove (a : ScAddr) (sum : Fin 32 → ScByte) (fm : FileMemory) :
    (scFmAddrRefRemove a sum fm).addrs = remove fm.addrs sum a := by
  unfold scFmAddrRefRemove remove
  cases fm.addrs sum with
  | none => rfl
  | some l =>
    simp only
    split_ifs
    · rfl
    · rfl

theorem addrs_storeFm (a : ScAddr) (sum : Fin 32 → ScByte) (bytes : List ScByte) (fm : FileMemory) :
    (storeFm a sum bytes fm).addrs = append fm.addrs sum a := by
  unfold storeFm
  split_ifs
  · rfl
  · rfl

/-- The bytes of a short content are read back from the cell. -/
theorem selfContainerBytes_inline (env : ScEnv) (data : Fin 32 → ScByte) (hlen : bytes.length < 32) :
    selfContainerBytes env (inlineContent data bytes) = bytes := by
  have hlen0 : (inlineContent data bytes 0).toNat = bytes.length := by
    unfold inlineContent
    simp only [Fin.coe_ofNat_eq_mod, Nat.zero_mod, if_true, BitVec.toNat_ofNat]
    omega
  unfold selfContainerBytes
  rw [hlen0]
  apply List.ext_getElem
  · simp
  · intro i h1 h2
    have hi : i+1 < 32 := by omega
    rw [List.getElem_map, List.getElem_range, dif_pos hi]
    unfold inlineContent
    rw [if_neg (by simp), if_pos (by simpa using h2)]
    exact List.getD_eq_getElem _ _ h2

theorem CellContent.congr (h : CellContent checksum S fm el bytes) (ht : el'.type = el.type)
    (hd : el'.data = el.data)
    (hfm : el.type &&& scFlagLinkSelfContainer = 0 → bytes ∈ S → el.data = checksum bytes →
      fm.content el.data = some bytes → fm'.content el.data = some bytes) :
    CellContent checksum S fm' el' bytes := by
  cases h with
  | unset hf h0 =>
    apply CellContent.unset
    · rw [ht]
      exact hf
    · rw [hd]
      exact h0
  | inline _ hf hS hlen h0 hb =>
    apply CellContent.inline _ _ hS hlen
    · rw [hd]
      exact h0
    · rw [hd]
      exact hb
    · rw [ht]
      exact hf
  | stored _ hf hS hsum hc hlen =>
    apply CellContent.stored _ _ hS _ _ hlen
    · rw [ht]
      exact hf
    · rw [hd]
      exact hsum
    · rw [hd]
      exact hfm hf hS hsum hc

/-- The cell that `sc_storage_set_link_content` leaves has the content. -/
theorem cellContent_set (a : ScAddr) (el : ScElement) (fm : FileMemory) (hS : bytes ∈ S) :
    CellContent checksum S (storeFm a (checksum bytes) bytes fm)
      (contentCell (checksum bytes) bytes el) bytes := by
  unfold contentCell storeFm scChecksumLen
  split_ifs with hlen
  · apply CellContent.stored _ _ hS rfl _ hlen
    · rw [BitVec.and_assoc]
      exact BitVec.and_zero
    · simp [scFmAddrRefAppend, scFmWriteStream]
  · have hlen' : bytes.length < 32 := by omega
    apply CellContent.inline _ (flagSelfContainer_or _) hS hlen'
    · rfl
    · intro env
      exact selfContainerBytes_inline env el.data hlen'

/-- A content that has been set is one of the strings. -/
theorem CellContent.mem (h : CellContent checksum S fm el bytes) (hset : ContentSet el) :
    bytes ∈ S := by
  cases h with
  | unset hf h0 =>
    rcases hset with hf' | hne
    · exact absurd hf hf'
    · have hempty : scElementIsChecksumEmpty el = true := decide_eq_true h0
      rw [hempty] at hne
      exact absurd hne (by decide)
  | inline _ _ hS _ _ _ => exact hS
  | stored _ _ hS _ _ _ => exact hS

/-- The checksum that is computed from the cell is that of the content. -/
theorem CellContent.checksum_eq (h : CellContent checksum S fm el bytes)
    (henv : env.checksum = checksum) (hne : scElementIsChecksumEmpty el = false) :
    contentChecksum env el = checksum bytes := by
  unfold contentChecksum
  cases h with
  | unset hf h0 =>
    have hempty : scElementIsChecksumEmpty el = true := decide_eq_true h0
    rw [hempty] at hne
    exact absurd hne (by decide)
  | inline _ hf _ _ _ hb =>
    rw [if_pos (bne_iff_ne.mpr hf), hb, henv]
  | stored _ hf _ hsum _ _ =>
    rw [hf, hsum]
    rfl

theorem CellContent.blind_nil (h : CellContent checksum S fm el bytes) (hb : BlindLink el) :
    bytes = [] := by
  obtain ⟨_, hf, he⟩ := hb
  have h0 : ∀ i, el.data i = 0 := of_decide_eq_true he
  cases h with
  | unset _ _ => rfl
  | inline _ _ _ hlen hlen0 _ =>
    rw [h0 0] at hlen0
    have hnat := congrArg BitVec.toNat hlen0
    simp only [BitVec.toNat_ofNat] at hnat
    have hzero : bytes.length = 0 := by
      simp at hnat
      omega
    exact List.eq_nil_of_length_eq_zero hzero
  | stored _ hf' _ _ _ _ => exact absurd hf' hf

/-- What `sc_storage_get_link_content` finds; a null stream counts as empty. -/
theorem CellContent.linkContent (h : CellContent checksum S fm el bytes) (hkeys : ContentKeysHex fm)
    (env : ScEnv) : ∃ r, linkContent env el fm = .ok r ∧ r.getD [] = bytes := by
  unfold Store.linkContent
  cases h with
  | unset hf h0 =>
    refine ⟨none, ?_, rfl⟩
    rw [hf]
    simp only [bne_self_eq_false, Bool.false_eq_true, if_false]
    rw [@ContentKeysHex.content_none _ hkeys el.data (by rw [h0 0]; decide)]
  | inline _ hf _ hlen h0 hb =>
    have hnat : (el.data 0).toNat = bytes.length := by
      rw [h0, BitVec.toNat_ofNat]
      omega
    rw [if_pos (bne_iff_ne.mpr hf)]
    by_cases hz : el.data 0 = 0
    · rw [if_pos hz]
      refine ⟨none, rfl, ?_⟩
      rw [hz] at hnat
      exact (List.eq_nil_of_length_eq_zero hnat.symm).symm
    · rw [if_neg hz, if_pos (by omega), hb env]
      exact ⟨some bytes, rfl, rfl⟩
  | stored _ hf _ _ hc _ =>
    rw [hf, hc]
    exact ⟨some bytes, rfl, rfl⟩

/-! The index under the operations. -/

variable {T : Set (Fin 32 → ScByte)} {R : ScAddr → (Fin 32 → ScByte) → Prop} {c : Cells}

/-- The entry of `a` goes, if its cell gives the key under which it stands. -/
theorem indexes_freeContent (h : Indexes T fm.addrs R)
    (hkey : ∀ k ∈ T, R a k → (c a).isLink = true ∧ scElementIsChecksumEmpty (c a) = false ∧
      contentChecksum env (c a) = k) :
    Indexes T (freeContent env c a fm).addrs (fun b k => R b k ∧ b ≠ a) := by
  unfold freeContent
  split_ifs with hcond
  · rw [addrs_remove]
    apply h.remove
    intro b k hk
    constructor
    · rintro ⟨hR, hne⟩
      exact ⟨hR, fun hh => hne hh.1⟩
    · rintro ⟨hR, hne⟩
      refine ⟨hR, ?_⟩
      rintro rfl
      exact hne ⟨rfl, (hkey k hk hR).2.2.symm⟩
  · apply h.congr
    intro b k hk
    constructor
    · exact fun hh => hh.1
    · intro hR
      refine ⟨hR, ?_⟩
      rintro rfl
      have hb := hkey k hk hR
      exact hcond ⟨hb.1, hb.2.1⟩

theorem indexes_erased (D : List ScAddr) (h : Indexes T fm.addrs R)
    (hkey : ∀ x ∈ D, ∀ k ∈ T, R x k → (c x).isLink = true ∧
      scElementIsChecksumEmpty (c x) = false ∧ contentChecksum env (c x) = k) :
    Indexes T (D.foldr (freeContent env c) fm).addrs (fun b k => R b k ∧ b ∉ D) := by
  induction D with
  | nil =>
    apply h.congr
    intro b k _
    simp
  | cons x D ih =>
    have hrest := ih fun z hz => hkey z (List.mem_cons_of_mem _ hz)
    rw [List.foldr_cons]
    apply (indexes_freeContent hrest fun k hk hR => hkey x List.mem_cons_self k hk hR.1).congr
    intro b k _
    rw [List.mem_cons, not_or, and_assoc]
    simp only [and_comm]

theorem addrs_freeContent (env : ScEnv) (c : Cells) (a : ScAddr) (fm : FileMemory) :
    (freeContent env c a fm).addrs = fm.addrs ∨
      (freeContent env c a fm).addrs = remove fm.addrs (contentChecksum env (c a)) a := by
  unfold freeContent
  split_ifs
  · exact Or.inr (addrs_remove _ _ _)
  · exact Or.inl rfl

/-- No list of the index is empty, and each stands under the checksum of a string. -/
structure IndexShape (checksum : List ScByte → Fin 32 → ScByte) (S : Set (List ScByte))
    (fm : FileMemory) : Prop where
  noEmpty : NoEmpty fm.addrs
  keys : ∀ k, fm.addrs k ≠ none → ∃ s ∈ S, k = checksum s

theorem IndexShape.freeContent (h : IndexShape checksum S fm) (env : ScEnv) (c : Cells)
    (a : ScAddr) : IndexShape checksum S (freeContent env c a fm) := by
  rcases addrs_freeContent env c a fm with he | he
  · exact ⟨by rw [he]; exact h.noEmpty, by rw [he]; exact h.keys⟩
  · constructor
    · rw [he]
      exact h.noEmpty.remove _ _
    · intro k hk
      rw [he] at hk
      exact h.keys k fun hnone => hk (remove_none hnone)

theorem IndexShape.erased (h : IndexShape checksum S fm) (env : ScEnv) (c : Cells)
    (D : List ScAddr) : IndexShape checksum S (D.foldr (Store.freeContent env c) fm) := by
  induction D with
  | nil => exact h
  | cons x D ih => exact ih.freeContent env c x

theorem IndexShape.storeFm (h : IndexShape checksum S fm) (a : ScAddr) (hS : bytes ∈ S) :
    IndexShape checksum S (storeFm a (checksum bytes) bytes fm) := by
  constructor
  · rw [addrs_storeFm]
    exact h.noEmpty.append _ _
  · intro k hk
    rw [addrs_storeFm] at hk
    by_cases hkey : k = checksum bytes
    · exact ⟨bytes, hS, hkey⟩
    · apply h.keys k
      unfold append at hk
      rwa [Function.update_of_ne hkey] at hk

end

end ScMachine.Store
