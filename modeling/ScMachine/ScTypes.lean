import Mathlib

/-! Element types, access levels, addresses and element cells of the sc-store
(`sc_types.h`, `sc_defines.h`, `sc_element.h`, `sc_element.c`). -/
namespace ScMachine.Store

/-- The cell of an arc has eight words, a checksum 32 bytes. -/
instance neZero_arcWords : NeZero 8 := ⟨by decide⟩

instance neZero_checksum : NeZero 32 := ⟨by decide⟩

abbrev ScType := BitVec 16
abbrev ScAccessLevels := BitVec 8
abbrev ScByte := BitVec 8

abbrev scSegmentElementsCount : ℕ := 65535
abbrev scAddrSegMax : ℕ := 65535
abbrev scConcurrencyLevel : ℕ := 32
abbrev scSegmentCacheSize : ℕ := 32
abbrev scChecksumLen : ℕ := 32

def scTypeNode : ScType := 0x1
def scTypeLink : ScType := 0x2
def scTypeEdgeCommon : ScType := 0x4
def scTypeArcCommon : ScType := 0x8
def scTypeArcAccess : ScType := 0x10
def scTypeConst : ScType := 0x20
def scTypeVar : ScType := 0x40

def scTypeArcMask : ScType := scTypeArcAccess ||| scTypeArcCommon ||| scTypeEdgeCommon
def scTypeElementMask : ScType :=
  scTypeNode ||| scTypeLink ||| scTypeEdgeCommon ||| scTypeArcCommon ||| scTypeArcAccess

/-- The two flags "just for internal usage" that share the word with the type. -/
def scFlagRequestDeletion : ScType := 0x4000
def scFlagLinkSelfContainer : ScType := 0x8000
def scFlagsRemove (x : ScType) : ScType :=
  x &&& ~~~(scFlagRequestDeletion ||| scFlagLinkSelfContainer)

def scAccessLvlRmask : ScAccessLevels := 0xf0
def scAccessLvlWmask : ScAccessLevels := 0x0f
def scAccessLvlGetRead (levels : ScAccessLevels) : ℕ := ((levels &&& scAccessLvlRmask) >>> 4).toNat
def scAccessLvlGetWrite (levels : ScAccessLevels) : ℕ := (levels &&& scAccessLvlWmask).toNat
def scMin (a b : ScAccessLevels) : ScAccessLevels := if a.toNat < b.toNat then a else b
def scAccessLvlMin (a b : ScAccessLevels) : ScAccessLevels :=
  scMin (a &&& scAccessLvlRmask) (b &&& scAccessLvlRmask) |||
    scMin (a &&& scAccessLvlWmask) (b &&& scAccessLvlWmask)
def scAccessLvlCheckRead (c e : ScAccessLevels) : Bool :=
  scAccessLvlGetRead e ≤ scAccessLvlGetRead c
def scAccessLvlCheckWrite (c e : ScAccessLevels) : Bool :=
  scAccessLvlGetWrite e ≤ scAccessLvlGetWrite c

inductive ScResult where
  | error
  | ok
  | errorInvalidParams
  | errorInvalidType
  | errorIo
  | errorInvalidState
  | errorNotFound
  | errorNoWriteRights
  | errorNoReadRights
  deriving DecidableEq, Repr

structure ScAddr where
  seg : BitVec 16
  offset : BitVec 16
  deriving DecidableEq, Repr

/-- `SC_ADDR_MAKE_EMPTY`. -/
def ScAddr.empty : ScAddr := ⟨0, 0⟩

/-- `SC_ADDR_LOCAL_TO_INT`, the key of an address in the hash tables of the store. -/
def ScAddr.localToInt (a : ScAddr) : ℕ := a.seg.toNat*65536+a.offset.toNat

theorem localToInt_injective : Function.Injective ScAddr.localToInt := by
  intro a b h
  have ha := a.offset.isLt
  have hb := b.offset.isLt
  have hs : a.seg.toNat = b.seg.toNat := by
    unfold ScAddr.localToInt at h
    omega
  have ho : a.offset.toNat = b.offset.toNat := by
    unfold ScAddr.localToInt at h
    omega
  cases a
  cases b
  simp only [ScAddr.mk.injEq]
  exact ⟨BitVec.eq_of_toNat_eq hs, BitVec.eq_of_toNat_eq ho⟩

/-- There are at most `2^32` addresses, so every walk over distinct ones is bounded by it. -/
theorem length_le_of_nodup_addrs (l : List ScAddr) (h : l.Nodup) : l.length ≤ 2^32 := by
  have hsub : (l.map ScAddr.localToInt).toFinset ⊆ Finset.range (2^32) := by
    intro n hn
    obtain ⟨a, _, rfl⟩ := List.mem_map.mp (List.mem_toFinset.mp hn)
    have hs := a.seg.isLt
    have ho := a.offset.isLt
    rw [Finset.mem_range]
    unfold ScAddr.localToInt
    omega
  have hcard := Finset.card_le_card hsub
  rwa [List.toFinset_card_of_nodup (h.map localToInt_injective), List.length_map,
    Finset.card_range] at hcard

/-- The words of `sc_arc_info`, in the order of the struct. -/
inductive ArcField where
  | arcBegin
  | arcEnd
  | nextOutArc
  | nextInArc
  | prevOutArc
  | prevInArc
  deriving DecidableEq, Repr

def ArcField.word : ArcField → Fin 8
  | .arcBegin => 0
  | .arcEnd => 1
  | .nextOutArc => 2
  | .nextInArc => 3
  | .prevOutArc => 4
  | .prevInArc => 5

/-- One cell. `data` is the union of `content` (all 32 bytes) and `arc` (the first six
four-byte words). -/
structure ScElement where
  type : ScType
  accessLevels : ScAccessLevels
  firstOutArc : ScAddr
  firstInArc : ScAddr
  data : Fin 32 → ScByte

/-- The cell after `memset(…, 0, sizeof(sc_element))`. -/
def ScElement.zero : ScElement := ⟨0, 0, ScAddr.empty, ScAddr.empty, fun _ => 0⟩

/-- The little-endian address stored in the `w`-th word of the union. -/
def readAddr (d : Fin 32 → ScByte) (w : Fin 8) : ScAddr :=
  ⟨d ⟨4*w.val+1, by omega⟩ ++ d ⟨4*w.val, by omega⟩,
    d ⟨4*w.val+3, by omega⟩ ++ d ⟨4*w.val+2, by omega⟩⟩

def addrByte (a : ScAddr) (i : ℕ) : ScByte :=
  match i with
  | 0 => a.seg.setWidth 8
  | 1 => (a.seg >>> 8).setWidth 8
  | 2 => a.offset.setWidth 8
  | _ => (a.offset >>> 8).setWidth 8

def writeAddr (d : Fin 32 → ScByte) (w : Fin 8) (a : ScAddr) : Fin 32 → ScByte :=
  fun i => if i.val/4 = w.val then addrByte a (i.val%4) else d i

def ScElement.arc (el : ScElement) (f : ArcField) : ScAddr := readAddr el.data f.word

def ScElement.setArc (el : ScElement) (f : ArcField) (a : ScAddr) : ScElement :=
  { el with data := writeAddr el.data f.word a }

theorem append_bytes (x : BitVec 16) : (x >>> 8).setWidth 8 ++ x.setWidth 8 = x := by
  apply BitVec.eq_of_getLsbD_eq
  intro i hi
  rw [BitVec.getLsbD_append]
  by_cases h : i < 8
  · simp [h]
  · have h8 : 8+(i-8) = i := by omega
    simp [h, h8]
    omega

theorem readAddr_writeAddr (d : Fin 32 → ScByte) (w v : Fin 8) (a : ScAddr) :
    readAddr (writeAddr d w a) v = if v = w then a else readAddr d v := by
  have hdiv (k : ℕ) (hk : k < 4) : (4*v.val+k)/4 = v.val := by omega
  have hmod (k : ℕ) (hk : k < 4) : (4*v.val+k)%4 = k := by omega
  have h0 := hdiv 0 (by omega)
  have m0 := hmod 0 (by omega)
  rw [Nat.add_zero] at h0 m0
  by_cases h : v = w
  · subst h
    simp only [readAddr, writeAddr, hdiv 1 (by omega), hdiv 2 (by omega), hdiv 3 (by omega),
      hmod 1 (by omega), hmod 2 (by omega), hmod 3 (by omega), h0, m0, if_true, addrByte,
      append_bytes]
  · have hv : ¬ v.val = w.val := fun hh => h (Fin.ext hh)
    simp only [readAddr, writeAddr, hdiv 1 (by omega), hdiv 2 (by omega), hdiv 3 (by omega),
      h0, hv, h, if_false]

theorem word_injective : Function.Injective ArcField.word := by
  intro f g h
  cases f <;> cases g <;> first | rfl | exact absurd h (by decide)

@[simp] theorem arc_setArc (el : ScElement) (f g : ArcField) (a : ScAddr) :
    (el.setArc f a).arc g = if g = f then a else el.arc g := by
  simp only [ScElement.arc, ScElement.setArc, readAddr_writeAddr, word_injective.eq_iff]

@[simp] theorem type_setArc (el : ScElement) (f : ArcField) (a : ScAddr) :
    (el.setArc f a).type = el.type := rfl

@[simp] theorem accessLevels_setArc (el : ScElement) (f : ArcField) (a : ScAddr) :
    (el.setArc f a).accessLevels = el.accessLevels := rfl

@[simp] theorem firstOutArc_setArc (el : ScElement) (f : ArcField) (a : ScAddr) :
    (el.setArc f a).firstOutArc = el.firstOutArc := rfl

@[simp] theorem firstInArc_setArc (el : ScElement) (f : ArcField) (a : ScAddr) :
    (el.setArc f a).firstInArc = el.firstInArc := rfl

/-- `el->flags.type & sc_type_arc_mask`, `el->flags.type & sc_type_link` as conditions. -/
def ScElement.isArc (el : ScElement) : Bool := el.type &&& scTypeArcMask != 0
def ScElement.isLink (el : ScElement) : Bool := el.type &&& scTypeLink != 0

def scElementIsRequestDeletion (el : ScElement) : Bool := el.type &&& scFlagRequestDeletion != 0

def scElementIsValid (el : ScElement) : Bool :=
  !(el.type == 0 || scElementIsRequestDeletion el)

def scElementIsChecksumEmpty (el : ScElement) : Bool := decide (∀ i, el.data i = 0)

end ScMachine.Store
