import Mathlib.Data.List.Basic
import Mathlib.Data.BitVec
import Mathlib.Tactic.Ring

/-! Fixed formats in a list of bytes: little-endian numbers, fields at an offset, and arrays of
records of one size. -/
namespace ScMachine.ByteFormat

/-- The `n` low bytes of a number, the lowest first. -/
def leBytes : ℕ → ℕ → List (BitVec 8)
  | 0, _ => []
  | n + 1, v => BitVec.ofNat 8 v :: leBytes n (v/256)

def ofLeBytes : List (BitVec 8) → ℕ
  | [] => 0
  | b :: bs => b.toNat+256*ofLeBytes bs

/-- The number in the `n` bytes from `off` on. -/
def field (off n : ℕ) (bs : List (BitVec 8)) : ℕ := ofLeBytes ((bs.drop off).take n)

@[simp] theorem length_leBytes (n v : ℕ) : (leBytes n v).length = n := by
  induction n generalizing v with
  | zero => rfl
  | succ n ih => simp [leBytes, ih]

theorem ofLeBytes_leBytes (n v : ℕ) : ofLeBytes (leBytes n v) = v%256^n := by
  induction n generalizing v with
  | zero => simp [leBytes, ofLeBytes, Nat.mod_one]
  | succ n ih =>
    have hmod : v%256^(n+1) = v%256+256*(v/256%256^n) := by
      rw [pow_succ', Nat.mod_mul]
    unfold leBytes ofLeBytes
    rw [ih, BitVec.toNat_ofNat, hmod]

theorem ofLeBytes_append (l r : List (BitVec 8)) :
    ofLeBytes (l ++ r) = ofLeBytes l+256^l.length*ofLeBytes r := by
  induction l with
  | nil => simp [ofLeBytes]
  | cons b l ih =>
    rw [List.cons_append, ofLeBytes, ih, ofLeBytes, List.length_cons, pow_succ]
    ring

theorem ofLeBytes_lt (l : List (BitVec 8)) : ofLeBytes l < 256^l.length := by
  induction l with
  | nil => exact Nat.one_pos
  | cons b l ih =>
    have hb := b.isLt
    rw [ofLeBytes, List.length_cons, pow_succ]
    omega

theorem leBytes_add (m n v : ℕ) : leBytes (m+n) v = leBytes m v ++ leBytes n (v/256^m) := by
  induction m generalizing v with
  | zero => simp [leBytes]
  | succ m ih =>
    rw [Nat.succ_add, leBytes, ih, leBytes, List.cons_append, Nat.div_div_eq_div_mul, ← pow_succ']

/-- A field that starts behind the first part of a list. -/
theorem field_append (l r : List (BitVec 8)) (off n : ℕ) :
    field (l.length+off) n (l ++ r) = field off n r := by
  unfold field
  rw [List.drop_append, List.drop_eq_nil_of_le (by omega)]
  simp

theorem field_leBytes (n v : ℕ) (r : List (BitVec 8)) (hv : v < 256^n) :
    field 0 n (leBytes n v ++ r) = v := by
  unfold field
  have htake : (leBytes n v ++ r).take n = leBytes n v := by
    rw [List.take_append_of_le_length (by simp), List.take_of_length_le (by simp)]
  rw [List.drop_zero, htake, ofLeBytes_leBytes, Nat.mod_eq_of_lt hv]

section
variable {α : Type*} {f : ℕ → List α} {k : ℕ}

/-- The records `f 0, …, f (n - 1)` one after the other. -/
def records (f : ℕ → List α) (n : ℕ) : List α := (List.range n).flatMap f

/-- The `i`-th record of size `k`. -/
def record (k i : ℕ) (l : List α) : List α := (l.drop (k*i)).take k

theorem records_zero (f : ℕ → List α) : records f 0 = [] := rfl

theorem records_succ (f : ℕ → List α) (n : ℕ) : records f (n+1) = records f n ++ f n := by
  unfold records
  rw [List.range_succ, List.flatMap_append]
  simp

theorem length_records (hf : ∀ i, (f i).length = k) (n : ℕ) : (records f n).length = k*n := by
  induction n with
  | zero => rfl
  | succ n ih =>
    rw [records_succ, List.length_append, ih, hf]
    ring

/-- Each record is where it was put. -/
theorem record_records (hf : ∀ i, (f i).length = k) (n i : ℕ) (hi : i < n) :
    record k i (records f n) = f i := by
  induction n with
  | zero => exact absurd hi (Nat.not_lt_zero i)
  | succ n ih =>
    have hlen := length_records hf n
    unfold record at ih ⊢
    rw [records_succ]
    by_cases hin : i < n
    · have hle : k*i+k ≤ k*n := by
        have hmul := Nat.mul_le_mul_left k hin
        rw [Nat.mul_succ] at hmul
        exact hmul
      rw [List.drop_append_of_le_length (by omega), List.take_append_of_le_length (by
        rw [List.length_drop]
        omega)]
      exact ih hin
    · have hin' : i = n := by omega
      subst hin'
      rw [List.drop_append, List.drop_eq_nil_of_le (by omega), hlen, Nat.sub_self]
      simp only [List.nil_append, List.drop_zero]
      exact List.take_of_length_le (le_of_eq (hf i))

end

end ScMachine.ByteFormat
