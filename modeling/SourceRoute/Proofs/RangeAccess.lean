import Mathlib.Algebra.Group.Nat.Defs
import SourceRoute.Proofs.BitLaws

/-!
# Bit ranges as lenses

The bits of a byte string write numbers, most significant bit first.  Reading a range gives the
number that its bits write, and writing a value puts the low bits of the value there.  So a range is
a lens on the string: what was written is read again, nothing outside the range changes, and ranges
without a common bit do not see each other, even where they share bytes.
-/

namespace SourceRoute

/-! ## Numbers in bits -/

namespace Bytes

/-- The number that `width` bits write from bit `start` on, the most significant bit first. -/
def number (b : Bytes) (start : Nat) : Nat → Nat
  | 0 => 0
  | width + 1 => 2 * b.number start width + (b.bit (start + width)).toNat

theorem number_succ_mod_two (b : Bytes) (start width : Nat) :
    b.number start (width + 1) % 2 = (b.bit (start + width)).toNat := by
  rw [number]
  cases b.bit (start + width) <;> simp

theorem number_succ_div_two (b : Bytes) (start width : Nat) :
    b.number start (width + 1) / 2 = b.number start width := by
  have hbit : (b.bit (start + width)).toNat < 2 := Bool.toNat_lt _
  rw [number]
  omega

theorem testBit_number (b : Bytes) (start width k : Nat) :
    (b.number start width).testBit k =
      (decide (k < width) && b.bit (start + width - 1 - k)) := by
  induction width generalizing k with
  | zero => simp [number]
  | succ width ih =>
    cases k with
    | zero =>
      rw [Nat.testBit_zero, number_succ_mod_two]
      cases h : b.bit (start + width) <;> simp [h]
    | succ k =>
      have hindex : start + (width + 1) - 1 - (k + 1) = start + width - 1 - k := by omega
      rw [Nat.testBit_succ, number_succ_div_two, ih, hindex]
      simp

theorem number_lt (b : Bytes) (start width : Nat) : b.number start width < 1 <<< width := by
  induction width with
  | zero => exact Nat.zero_lt_one
  | succ width ih =>
    have hbit : (b.bit (start + width)).toNat ≤ 1 := Bool.toNat_le _
    rw [number, Nat.shiftLeft_succ]
    omega

/-- As many bytes as a word has bits for write the number of the word. -/
theorem number_ofWord {w n : Nat} (hw : w = 8 * n) (x : BitVec w) :
    (ofWord n x).number 0 w = x.toNat := by
  apply Nat.eq_of_testBit_eq
  intro k
  rw [testBit_number, bit_ofWord, BitVec.testBit_toNat, Nat.zero_add]
  by_cases hk : k < w
  · have hindex : 8 * n - 1 - (w - 1 - k) = k := by omega
    have hlt : w - 1 - k < 8 * n := by omega
    simp [hk, hindex, hlt]
  · simp [hk, BitVec.getLsbD_of_ge x k (Nat.le_of_not_lt hk)]

theorem number_append_left {a b : Bytes} {start width : Nat}
    (hinside : start + width ≤ 8 * a.length) :
    (a ++ b).number start width = a.number start width := by
  induction width with
  | zero => rfl
  | succ width ih => rw [number, number, ih (by omega), bit_append_left (by omega)]

theorem number_append_right {a : Bytes} {n : Nat} (hlength : n = 8 * a.length) (b : Bytes)
    (start width : Nat) : (a ++ b).number (n + start) width = b.number start width := by
  induction width with
  | zero => rfl
  | succ width ih =>
    have hindex : n + start + width - 8 * a.length = start + width := by omega
    rw [number, number, ih, bit_append_right (by omega), hindex]

end Bytes

namespace BitRange

open Bytes

variable {r s : BitRange}

/-! ## Values of ranges -/

/-- A read of a bit range is the number that the bits of the range write. -/
theorem toNat_read (hsize : r.byteCount ≤ 8) (b : Bytes) :
    (r.read b).toNat = b.number r.start r.width := by
  apply Nat.eq_of_testBit_eq
  intro k
  rw [BitVec.testBit_toNat, getLsbD_read hsize, testBit_number]
  by_cases hk : k < r.width
  · have hwidth : r.width = r.stop - r.start := rfl
    have hindex : r.stop - 1 - k = r.start + r.width - 1 - k := by omega
    rw [hindex]
  · simp [hk]

/-- Reading a word that is wide enough for the range loses no bit of the number. -/
theorem toNat_get {start width w : Nat} (hsize : (ofWidth start width).byteCount ≤ 8)
    (hwidth : width ≤ w) (b : Bytes) :
    ((ofWidth start width).get w b).toNat = b.number start width := by
  have hread := toNat_read hsize b
  rw [start_ofWidth, width_ofWidth] at hread
  have hlt : b.number start width < 2 ^ w := by
    have hnumber := b.number_lt start width
    rw [Nat.one_shiftLeft] at hnumber
    exact Nat.lt_of_lt_of_le hnumber (Nat.pow_le_pow_right Nat.zero_lt_two hwidth)
  rw [get, BitVec.toNat_setWidth, hread, Nat.mod_eq_of_lt hlt]

/-! ## Whole lanes -/

/-- A range of at most eight bytes has at most 64 bits. -/
theorem width_le (hsize : r.byteCount ≤ 8) : r.width ≤ 64 := by
  have hcount : r.byteCount = (r.stop + 7) / 8 - r.start / 8 := rfl
  have hwidth : r.width = r.stop - r.start := rfl
  omega

theorem read_eq_get (r : BitRange) (b : Bytes) : r.read b = r.get 64 b :=
  (BitVec.setWidth_eq _).symm

theorem write_eq_set (r : BitRange) (v : BitVec 64) (b : Bytes) : r.write v b = r.set v b := by
  rw [set, BitVec.setWidth_eq]

/-! ## Writing and reading -/

/-- Inside the buffer, a write puts the bits of the value into the range, cut to the width of the
range and the most significant bit first. -/
theorem bit_write_inside (hsize : r.byteCount ≤ 8) (v : BitVec 64) {b : Bytes} {k : Nat}
    (hk : k < r.width) (hinside : r.start + k < 8 * b.length) :
    (r.write v b).bit (r.start + k) = (v.toNat % 2 ^ r.width).testBit (r.width - 1 - k) := by
  have hwidth : r.width = r.stop - r.start := rfl
  have hcontains : r.contains (r.start + k) := contains_iff.mpr (by omega)
  have hbyte : (r.start + k) / 8 < b.length := by omega
  have hindex : r.stop - 1 - (r.start + k) = r.width - 1 - k := by omega
  have hlt : r.width - 1 - k < r.width := by omega
  rw [bit_write hsize, if_pos ⟨hcontains, hbyte⟩, hindex, Nat.testBit_mod_two_pow,
    BitVec.testBit_toNat, decide_eq_true hlt, Bool.true_and]

/-- Reading gives back what was written, as far as the range is wide enough. -/
theorem toNat_read_write (hsize : r.byteCount ≤ 8) (v : BitVec 64) {b : Bytes}
    (hinside : r.Inside b) : (r.read (r.write v b)).toNat = v.toNat % 2 ^ r.width := by
  have hstop : r.stop ≤ 8 * b.length := hinside
  have hwidth : r.width = r.stop - r.start := rfl
  apply Nat.eq_of_testBit_eq
  intro k
  rw [BitVec.testBit_toNat, getLsbD_read hsize, Nat.testBit_mod_two_pow]
  -- bit `k` of the value lies `k` places before the end of the range
  by_cases hk : k < r.width
  · have hplace : r.stop - 1 - k = r.start + (r.width - 1 - k) := by omega
    have hback : r.width - 1 - (r.width - 1 - k) = k := by omega
    rw [hplace, bit_write_inside hsize v (by omega) (by omega), hback, Nat.testBit_mod_two_pow,
      decide_eq_true hk, Bool.true_and, Bool.true_and]
  · rw [decide_eq_false hk, Bool.false_and, Bool.false_and]

/-- Reading one range does not see what was written to another without a common bit. -/
theorem read_write_of_apart (hr : r.byteCount ≤ 8) (hs : s.byteCount ≤ 8)
    (hapart : ∀ i, ¬(r.contains i = true ∧ s.contains i = true)) (v : BitVec 64) (b : Bytes) :
    s.read (r.write v b) = s.read b := by
  rw [read_eq_get, read_eq_get]
  apply get_congr hs
  intro i hi
  rw [bit_write hr, if_neg fun hin => hapart i ⟨hin.1, hi⟩]

/-- Writes to ranges without a common bit may change places. -/
theorem write_write_comm (hr : r.byteCount ≤ 8) (hs : s.byteCount ≤ 8)
    (hapart : ∀ i, ¬(r.contains i = true ∧ s.contains i = true)) (u v : BitVec 64) (b : Bytes) :
    r.write v (s.write u b) = s.write u (r.write v b) := by
  apply ext_bit (by simp only [length_write])
  intro i _
  rw [bit_write hr, bit_write hs, bit_write hs, bit_write hr, length_write, length_write]
  -- at most one of the two ranges has the bit
  by_cases hin : r.contains i ∧ i / 8 < b.length
  · have hout : ¬(s.contains i ∧ i / 8 < b.length) := fun hother => hapart i ⟨hin.1, hother.1⟩
    rw [if_pos hin, if_neg hout, if_pos hin]
  · rw [if_neg hin, if_neg hin]

/-! ## Lenses -/

/-- What is read and written in a range is a part of the byte string of its own.  The laws hold for
every alignment of the range and wherever the string ends. -/
structure Lens (r : BitRange) : Prop where
  length_eq (v : BitVec 64) (b : Bytes) : (r.write v b).length = b.length
  /-- A write leaves the bits outside the range as they are. -/
  outside (v : BitVec 64) (b : Bytes) (i : Nat) (hout : r.contains i = false) :
    (r.write v b).bit i = b.bit i
  /-- The bits of the range that lie inside the string become those of the value, cut to the width
  of the range and the most significant one first. -/
  inside (v : BitVec 64) (b : Bytes) (k : Nat) (hk : k < r.width)
    (hin : r.start + k < 8 * b.length) :
    (r.write v b).bit (r.start + k) = (v.toNat % 2 ^ r.width).testBit (r.width - 1 - k)
  /-- A read is the number that the bits of the range write, where bits past the end are zero. -/
  read_eq (b : Bytes) : (r.read b).toNat = b.number r.start r.width
  read_write (v : BitVec 64) (b : Bytes) (hin : r.Inside b) :
    (r.read (r.write v b)).toNat = v.toNat % 2 ^ r.width
  write_read (b : Bytes) : r.write (r.read b) b = b
  write_write (u v : BitVec 64) (b : Bytes) : r.write v (r.write u b) = r.write v b
  /-- A range without a common bit is read as before. -/
  read_other (s : BitRange) (hs : s.byteCount ≤ 8)
    (hapart : ∀ i, ¬(r.contains i = true ∧ s.contains i = true)) (v : BitVec 64) (b : Bytes) :
    s.read (r.write v b) = s.read b
  /-- Writes to ranges without a common bit commute. -/
  write_other (s : BitRange) (hs : s.byteCount ≤ 8)
    (hapart : ∀ i, ¬(r.contains i = true ∧ s.contains i = true)) (u v : BitVec 64) (b : Bytes) :
    r.write v (s.write u b) = s.write u (r.write v b)

/-- Every range that touches at most eight bytes is a lens. -/
theorem lens_of_byteCount_le (hsize : r.byteCount ≤ 8) : r.Lens where
  length_eq := length_write r
  outside := by
    intro v b i hout
    rw [bit_write hsize, hout, if_neg fun hin => Bool.false_ne_true hin.1]
  inside := fun v _ _ hk hin => bit_write_inside hsize v hk hin
  read_eq := toNat_read hsize
  read_write := fun v _ hin => toNat_read_write hsize v hin
  write_read := by
    intro b
    rw [read_eq_get, write_eq_set, set_get hsize (width_le hsize)]
  write_write := by
    intro u v b
    rw [write_eq_set, write_eq_set, write_eq_set, set_set hsize]
  read_other := fun _ hs hapart => read_write_of_apart hsize hs hapart
  write_other := fun _ hs hapart => write_write_comm hsize hs hapart

/-- Two neighbouring ranges that share a byte, in a string that ends inside the second one.  The
value is too wide for its range. -/
theorem lens_of_shared_byte :
    let r : BitRange := .ofWidth 14 6
    let s : BitRange := .ofWidth 20 6
    let b : Bytes := [0xff, 0x0f, 0xa5]
    r.byteCount ≤ 8 ∧ s.byteCount ≤ 8 ∧ r.Inside b ∧ ¬s.Inside b ∧
      (r.read (r.write 0x1ab#64 b)).toNat = 0x2b ∧
      s.read (r.write 0x1ab#64 b) = s.read b ∧
      r.write 0x1ab#64 (s.write 7#64 b) = s.write 7#64 (r.write 0x1ab#64 b) := by
  intro r s b
  have hr : r.byteCount ≤ 8 := by decide
  have hs : s.byteCount ≤ 8 := by decide
  have hin : r.Inside b := by
    show 20 ≤ 24
    decide
  have hout : ¬s.Inside b := by
    show ¬26 ≤ 24
    decide
  have hapart (i : Nat) : ¬(r.contains i = true ∧ s.contains i = true) := by
    rintro ⟨hfirst, hsecond⟩
    have hbefore : i < 20 := (contains_iff.mp hfirst).2
    have hbehind : 20 ≤ i := (contains_iff.mp hsecond).1
    omega
  have hlens := lens_of_byteCount_le hr
  refine ⟨hr, hs, hin, hout, ?_, hlens.read_other s hs hapart _ b,
    hlens.write_other s hs hapart _ _ b⟩
  rw [hlens.read_write _ b hin]
  decide

end BitRange

end SourceRoute
