import ScMachine.ByteFormat

/-! Values of a fixed size as bytes: a type that is copied to memory and back, reading from a stream,
and writing into a buffer at an offset. -/
namespace ScMachine.WireFormat
open ScMachine.ByteFormat

abbrev Byte : Type := BitVec 8

/-- A type whose values have one size in memory and can be read back from their bytes. -/
class Raw (α : Type) where
  size : ℕ
  bytes : α → List Byte
  ofBytes : List Byte → α
  length_bytes : ∀ a, (bytes a).length = size
  ofBytes_bytes : ∀ a, ofBytes (bytes a) = a

export Raw (bytes ofBytes)
attribute [simp] Raw.length_bytes Raw.ofBytes_bytes

/-- Words, the lowest byte first. -/
abbrev rawWord (w n : ℕ) (h : 2^w = 256^n) : Raw (BitVec w) where
  size := n
  bytes v := leBytes n v.toNat
  ofBytes l := BitVec.ofNat w (ofLeBytes l)
  length_bytes v := length_leBytes n v.toNat
  ofBytes_bytes v := by
    rw [ofLeBytes_leBytes, ← h, Nat.mod_eq_of_lt v.isLt]
    exact BitVec.eq_of_toNat_eq (by rw [BitVec.toNat_ofNat, Nat.mod_eq_of_lt v.isLt])

instance : Raw (BitVec 8) := rawWord 8 1 (by decide)
instance : Raw (BitVec 16) := rawWord 16 2 (by decide)
instance : Raw (BitVec 32) := rawWord 32 4 (by decide)
instance : Raw (BitVec 64) := rawWord 64 8 (by decide)

section
variable {α β : Type} [Raw α] [Raw β]

/-- Two values without a gap. -/
instance : Raw (α × β) where
  size := Raw.size α+Raw.size β
  bytes p := bytes p.1 ++ bytes p.2
  ofBytes l := (ofBytes (l.take (Raw.size α)), ofBytes (l.drop (Raw.size α)))
  length_bytes p := by simp
  ofBytes_bytes p := by
    have hlen : (bytes p.1).length = Raw.size α := Raw.length_bytes p.1
    rw [← hlen, List.take_left, List.drop_left, Raw.ofBytes_bytes, Raw.ofBytes_bytes]

/-- A value from the front of a stream that has enough bytes, and the rest of the stream. -/
def read (α : Type) [Raw α] (s : List Byte) : Option (α × List Byte) :=
  if s.length < Raw.size α then none else some (ofBytes (s.take (Raw.size α)), s.drop (Raw.size α))

theorem read_append {s : List Byte} (h : s.length = Raw.size α) (r : List Byte) :
    read α (s ++ r) = some (ofBytes s, r) := by
  have hle : ¬ (s ++ r).length < Raw.size α := by
    rw [List.length_append]
    omega
  unfold read
  rw [if_neg hle, ← h, List.take_left, List.drop_left]

@[simp] theorem read_bytes (a : α) (r : List Byte) : read α (bytes a ++ r) = some (a, r) := by
  rw [read_append (Raw.length_bytes a), Raw.ofBytes_bytes]

/-- A value written over the bytes of a buffer at an offset. -/
def put (buf : List Byte) (off : ℕ) (a : α) : List Byte :=
  buf.take off ++ (bytes a ++ buf.drop (off+Raw.size α))

theorem length_put {buf : List Byte} {off : ℕ} (a : α) (h : off+Raw.size α ≤ buf.length) :
    (put buf off a).length = buf.length := by
  unfold put
  simp only [List.length_append, List.length_take, Raw.length_bytes, List.length_drop]
  omega

theorem take_put {buf : List Byte} {off : ℕ} (a : α) (h : off ≤ buf.length) :
    (put buf off a).take (off+Raw.size α) = buf.take off ++ bytes a := by
  have hlen : (buf.take off ++ bytes a).length = off+Raw.size α := by
    rw [List.length_append, List.length_take, Raw.length_bytes]
    omega
  unfold put
  rw [← List.append_assoc, ← hlen, List.take_left]

/-- What stands behind the value stays. -/
theorem drop_put_of_le {buf : List Byte} {off n : ℕ} (a : α) (h : off ≤ buf.length)
    (hn : off+Raw.size α ≤ n) : (put buf off a).drop n = buf.drop n := by
  have hlen : (buf.take off ++ bytes a).length = off+Raw.size α := by
    rw [List.length_append, List.length_take, Raw.length_bytes]
    omega
  obtain ⟨k, rfl⟩ := Nat.exists_eq_add_of_le hn
  unfold put
  rw [← List.append_assoc, ← hlen, ← List.drop_drop, List.drop_left, hlen, List.drop_drop]

/-- A buffer of `n` bytes that starts with `l`. -/
structure Filled (buf l : List Byte) (n : ℕ) : Prop where
  length_eq : buf.length = n
  take_eq : buf.take l.length = l

variable {buf l r : List Byte} {n : ℕ}

theorem Filled.nil (h : buf.length = n) : Filled buf [] n := ⟨h, rfl⟩

/-- A value written right behind what is there. -/
theorem Filled.put (h : Filled buf l n) (off : ℕ) (a : α) (hoff : l.length = off)
    (hn : off+Raw.size α ≤ n) : Filled (put buf off a) (l ++ bytes a) n := by
  have hle : off ≤ buf.length := by
    rw [h.length_eq]
    omega
  refine ⟨?_, ?_⟩
  · rw [length_put a (by rw [h.length_eq]; exact hn), h.length_eq]
  · rw [List.length_append, Raw.length_bytes, hoff, take_put a hle, ← hoff, h.take_eq]

/-- The value at the end may be written over. -/
theorem Filled.pre (h : Filled buf (l ++ r) n) : Filled buf l n := by
  have htake := congrArg (List.take l.length) h.take_eq
  rw [List.take_take, List.length_append, List.take_left, Nat.min_eq_left (by omega)] at htake
  exact ⟨h.length_eq, htake⟩

end

end ScMachine.WireFormat
