import Mathlib.Data.List.Induction
import SourceRoute.Bits.Access

/-!
# Laws of bit ranges

A byte string is also a string of bits, each byte giving its most significant bit first.  Reads and
writes of bit ranges are described bit by bit: a read returns the bits of the range, and a write
changes those bits and no others.  All laws of fields and records follow from these two statements.
-/

namespace SourceRoute

namespace Bytes

/-! ## Bits of byte strings -/

/-- The bit at a position, zero past the end of the string. -/
def bit (b : Bytes) (i : Nat) : Bool := (b.getD (i / 8) 0).toBitVec.getLsbD (7 - i % 8)

theorem bit_of_length_le {b : Bytes} {i : Nat} (h : b.length ≤ i / 8) : b.bit i = false := by
  rw [bit, List.getD_eq_getElem?_getD, List.getElem?_eq_none h]
  simp

/-- The bits of a byte, lowest first. -/
theorem bit_eq_getLsbD {b : Bytes} {n : Nat} (hn : n < b.length) {j : Nat} (hj : j < 8) :
    b.bit (8 * n + (7 - j)) = b[n].toBitVec.getLsbD j := by
  have hindex : (8 * n + (7 - j)) / 8 = n := by omega
  have hbit : 7 - (8 * n + (7 - j)) % 8 = j := by omega
  rw [bit, hindex, hbit, List.getD_eq_getElem?_getD, List.getElem?_eq_getElem hn]
  rfl

/-- Byte strings of one length with the same bits are equal. -/
theorem ext_bit {a b : Bytes} (hlength : a.length = b.length)
    (h : ∀ i, i < 8 * a.length → a.bit i = b.bit i) : a = b := by
  apply List.ext_getElem hlength
  intro n ha hb
  apply UInt8.toBitVec_inj.mp
  apply BitVec.eq_of_getLsbD_eq
  intro j hj
  rw [← bit_eq_getLsbD ha hj, ← bit_eq_getLsbD hb hj]
  exact h _ (by omega)

theorem bit_append_left {a b : Bytes} {i : Nat} (h : i < 8 * a.length) :
    (a ++ b).bit i = a.bit i := by
  have hlt : i / 8 < a.length := by omega
  simp only [bit, List.getD_eq_getElem?_getD, List.getElem?_append_left hlt]

theorem bit_append_right {a b : Bytes} {i : Nat} (h : 8 * a.length ≤ i) :
    (a ++ b).bit i = b.bit (i - 8 * a.length) := by
  have hle : a.length ≤ i / 8 := by omega
  have hindex : (i - 8 * a.length) / 8 = i / 8 - a.length := by omega
  have hbit : (i - 8 * a.length) % 8 = i % 8 := by omega
  simp only [bit, List.getD_eq_getElem?_getD, List.getElem?_append_right hle, hindex, hbit]

theorem bit_append_append (a b c : Bytes) (i : Nat) :
    (a ++ b ++ c).bit i = if i < 8 * a.length then a.bit i
      else if i < 8 * (a.length + b.length) then b.bit (i - 8 * a.length)
      else c.bit (i - 8 * (a.length + b.length)) := by
  rw [List.append_assoc]
  -- each part has its own positions, from the end of the part before on
  split
  next hi => rw [bit_append_left hi]
  next hi =>
    rw [bit_append_right (by omega)]
    split
    next hi' => rw [bit_append_left (by omega)]
    next hi' =>
      rw [bit_append_right (by omega)]
      congr 1
      omega

/-! ## Words -/

theorem toWord_append_singleton (w : Nat) (b : Bytes) (byte : UInt8) :
    toWord w (b ++ [byte]) = toWord w b <<< 8 ||| byte.toBitVec.setWidth w := by
  simp [toWord]

/-- A word keeps the last bits of the string that it reads, the very last one lowest. -/
theorem getLsbD_toWord (w : Nat) (b : Bytes) (k : Nat) :
    (toWord w b).getLsbD k =
      (decide (k < w) && decide (k < 8 * b.length) && b.bit (8 * b.length - 1 - k)) := by
  -- a word is read from the front, so its last byte is the one that was shifted in last
  induction b using List.reverseRecOn generalizing k with
  | nil => simp [toWord]
  | append_singleton b byte ih =>
    rw [toWord_append_singleton, BitVec.getLsbD_or, BitVec.getLsbD_shiftLeft,
      BitVec.getLsbD_setWidth, List.length_append, List.length_singleton]
    by_cases hk : k < 8
    -- the bit belongs to the last byte
    · have hindex : 8 * (b.length + 1) - 1 - k = 8 * b.length + (7 - k) := by omega
      have hlast : bit (b ++ [byte]) (8 * b.length + (7 - k)) = byte.toBitVec.getLsbD k := by
        rw [bit_eq_getLsbD (by simp) hk]
        simp
      rw [hindex, hlast]
      have hlt : k < 8 * (b.length + 1) := by omega
      simp [hk, hlt]
    -- the bit was there before the last byte came
    · have hindex : 8 * (b.length + 1) - 1 - k = 8 * b.length - 1 - (k - 8) := by omega
      have hbyte : byte.toBitVec.getLsbD k = false := BitVec.getLsbD_of_ge _ _ (by omega)
      rw [hindex, hbyte, ih]
      by_cases hlt : k < 8 * (b.length + 1)
      · have hearlier : bit (b ++ [byte]) (8 * b.length - 1 - (k - 8)) =
            bit b (8 * b.length - 1 - (k - 8)) := bit_append_left (by omega)
        have hlt' : k - 8 < 8 * b.length := by omega
        rw [hearlier]
        by_cases hw : k < w
        · have hw' : k - 8 < w := by omega
          simp [hk, hw, hw', hlt, hlt']
        · simp [hw]
      · have hlt' : ¬k - 8 < 8 * b.length := by omega
        simp [hlt, hlt']

/-- The bytes of a word hold its lowest bits, the very last one lowest. -/
theorem bit_ofWord {w : Nat} (n : Nat) (x : BitVec w) (i : Nat) :
    (ofWord n x).bit i = (decide (i < 8 * n) && x.getLsbD (8 * n - 1 - i)) := by
  -- the first byte holds the highest bits, and the others write the same word with fewer bytes
  induction n generalizing i with
  | zero => simp [ofWord, bit]
  | succ n ih =>
    have hcons : ofWord (n + 1) x = [⟨(x >>> (8 * n)).setWidth 8⟩] ++ ofWord n x := rfl
    rw [hcons]
    rcases Nat.lt_or_ge i 8 with hi | hi
    · have hindex : 8 * n + (7 - i) = 8 * (n + 1) - 1 - i := by omega
      have hbyte : 7 - i < 8 := by omega
      have hlt : i < 8 * (n + 1) := by omega
      have hplace : 7 - (7 - i) = i := by omega
      have hbit := bit_eq_getLsbD (b := [⟨(x >>> (8 * n)).setWidth 8⟩]) (n := 0) (by simp) hbyte
      rw [Nat.mul_zero, Nat.zero_add, hplace] at hbit
      rw [bit_append_left (by simpa using hi), hbit]
      simp [hindex, hbyte, hlt]
    · have hindex : 8 * n - 1 - (i - 8) = 8 * (n + 1) - 1 - i := by omega
      have hlt : i - 8 < 8 * n ↔ i < 8 * (n + 1) := by omega
      rw [bit_append_right (by simpa using hi), List.length_singleton, ih, Nat.mul_one, hindex]
      simp only [hlt]

/-- The bytes of a word give back all bits that they write. -/
theorem getLsbD_eq_of_ofWord_eq {w n : Nat} {x y : BitVec w} (h : ofWord n x = ofWord n y)
    {k : Nat} (hk : k < 8 * n) : x.getLsbD k = y.getLsbD k := by
  have hbit := congrArg (bit · (8 * n - 1 - k)) h
  have hindex : 8 * n - 1 - (8 * n - 1 - k) = k := by omega
  have hlt : 8 * n - 1 - k < 8 * n := by omega
  simpa only [bit_ofWord, hindex, hlt, decide_true, Bool.true_and] using hbit

/-- As many bytes as a word has bits for determine the word. -/
theorem ofWord_injective {w n : Nat} (hw : w ≤ 8 * n) :
    Function.Injective (ofWord n : BitVec w → Bytes) := by
  intro x y h
  apply BitVec.eq_of_getLsbD_eq
  intro k hk
  exact getLsbD_eq_of_ofWord_eq h (by omega)

end Bytes

namespace BitRange

open Bytes

/-! ## Reading -/

/-- Whether all bits of a range lie inside a byte string. -/
def Inside (r : BitRange) (b : Bytes) : Prop := r.stop ≤ 8 * b.length

/-- Whether two ranges have no bit in common. -/
def Disjoint (r s : BitRange) : Prop := r.stop ≤ s.start ∨ s.stop ≤ r.start

@[simp] theorem start_ofWidth (start width : Nat) : (ofWidth start width).start = start := rfl

@[simp] theorem stop_ofWidth (start width : Nat) :
    (ofWidth start width).stop = start + width := rfl

theorem inside_of_length {r : BitRange} {b : Bytes} {n : Nat} (hlength : b.length = n)
    (hstop : r.stop ≤ 8 * n) : r.Inside b := by
  unfold Inside
  rw [hlength]
  exact hstop

@[simp] theorem inside_set {w : Nat} {r s : BitRange} {x : BitVec w} {b : Bytes} :
    r.Inside (s.set x b) ↔ r.Inside b := by
  simp [Inside]

instance (r s : BitRange) : Decidable (r.Disjoint s) :=
  inferInstanceAs (Decidable (r.stop ≤ s.start ∨ s.stop ≤ r.start))

theorem contains_iff {r : BitRange} {i : Nat} :
    r.contains i = true ↔ r.start ≤ i ∧ i < r.stop := by
  simp [contains]

theorem getLsbD_mask (r : BitRange) (k : Nat) :
    r.mask.getLsbD k = (decide (k < 64) && decide (k < r.width)) := by
  by_cases hwide : 64 ≤ r.width
  · have hmask : r.mask = BitVec.allOnes 64 := if_pos hwide
    rw [hmask, BitVec.getLsbD_allOnes]
    by_cases hk : k < 64
    · simp [hk, Nat.lt_of_lt_of_le hk hwide]
    · simp [hk]
  -- the ones below a single bit, which is itself inside the word
  · have hmask : r.mask = (1#64 <<< r.width) - 1#64 := if_neg hwide
    have hlt : 2 ^ r.width < 2 ^ 64 := Nat.pow_lt_pow_right (by decide) (by omega)
    have hpos : 0 < 2 ^ r.width := Nat.two_pow_pos _
    have hvalue : ((1#64 <<< r.width) - 1#64).toNat = 2 ^ r.width - 1 := by
      rw [BitVec.toNat_sub, BitVec.toNat_shiftLeft, BitVec.toNat_ofNat, Nat.shiftLeft_eq]
      omega
    rw [hmask, ← BitVec.testBit_toNat, hvalue, Nat.testBit_two_pow_sub_one]
    have hk : k < r.width → k < 64 := by omega
    simpa using hk

/-- The lane holds the bits of the bytes that the range touches. -/
theorem getLsbD_lane (r : BitRange) (b : Bytes) (k : Nat) :
    (r.lane b).getLsbD k =
      (decide (k < 64) && decide (k < 8 * r.byteCount) && b.bit (8 * r.bytes.stop - 1 - k)) := by
  have hsize : r.byteCount = r.bytes.stop - r.bytes.start := rfl
  rw [lane, getLsbD_toWord, List.length_map, Span.length_toList]
  change (_ && decide (k < 8 * r.byteCount) && bit _ (8 * r.byteCount - 1 - k)) = _
  -- both sides name a bit of the same byte, counted from the range or from the whole string
  by_cases hk : k < 8 * r.byteCount
  · have hbyte : (8 * r.byteCount - 1 - k) / 8 < r.bytes.size := by
      change _ < r.byteCount
      omega
    have hindex : (8 * r.bytes.stop - 1 - k) / 8 =
        r.bytes.start + (8 * r.byteCount - 1 - k) / 8 := by omega
    have hplace : (8 * r.bytes.stop - 1 - k) % 8 = (8 * r.byteCount - 1 - k) % 8 := by omega
    have hget : (r.bytes.toList.map fun i => b.getD i 0)[(8 * r.byteCount - 1 - k) / 8]? =
        some (b.getD (r.bytes.start + (8 * r.byteCount - 1 - k) / 8) 0) := by
      rw [List.getElem?_map, Span.toList, List.getElem?_range' hbyte]
      simp
    rw [bit, List.getD_eq_getElem?_getD, hget, bit, hindex, hplace]
    rfl
  · simp [hk]

/-- A read returns the bits of the range, the last one lowest. -/
theorem getLsbD_read {r : BitRange} (hsize : r.byteCount ≤ 8) (b : Bytes) (k : Nat) :
    (r.read b).getLsbD k = (decide (k < r.width) && b.bit (r.stop - 1 - k)) := by
  rw [read, BitVec.getLsbD_and, BitVec.getLsbD_ushiftRight, getLsbD_lane, getLsbD_mask]
  by_cases hk : k < r.width
  -- the shift by the slack brings the last bit of the range to place zero
  · have hcount : r.byteCount = (r.stop + 7) / 8 - r.start / 8 := rfl
    have hslack : r.slack = (r.stop + 7) / 8 * 8 - r.stop := rfl
    have hend : r.bytes.stop = (r.stop + 7) / 8 := rfl
    have hwidth : r.width = r.stop - r.start := rfl
    have hindex : 8 * r.bytes.stop - 1 - (r.slack + k) = r.stop - 1 - k := by omega
    have hlane : r.slack + k < 8 * r.byteCount := by omega
    have hword : r.slack + k < 64 := by omega
    have hmask : k < 64 := by omega
    simp [hindex, hlane, hword, hmask, hk]
  · simp [hk]

theorem getLsbD_get {r : BitRange} (hsize : r.byteCount ≤ 8) (w : Nat) (b : Bytes) (k : Nat) :
    (r.get w b).getLsbD k =
      (decide (k < w) && decide (k < r.width) && b.bit (r.stop - 1 - k)) := by
  rw [get, BitVec.getLsbD_setWidth, getLsbD_read hsize, Bool.and_assoc]

/-- A read depends only on the bits of the range. -/
theorem get_congr {w : Nat} {r : BitRange} {a b : Bytes} (hsize : r.byteCount ≤ 8)
    (h : ∀ i, r.contains i → a.bit i = b.bit i) : r.get w a = r.get w b := by
  have hwidth : r.width = r.stop - r.start := rfl
  apply BitVec.eq_of_getLsbD_eq
  intro k hk
  rw [getLsbD_get hsize, getLsbD_get hsize]
  by_cases hlt : k < r.width
  · rw [h _ (contains_iff.mpr (by omega))]
  · simp [hlt]

/-! ## Writing -/

theorem getLsbD_patch (r : BitRange) (value lane : BitVec 64) (k : Nat) :
    (r.patch value lane).getLsbD k =
      if r.slack ≤ k ∧ k - r.slack < r.width ∧ k < 64 then value.getLsbD (k - r.slack)
      else lane.getLsbD k := by
  rw [patch, BitVec.getLsbD_or, BitVec.getLsbD_and, BitVec.getLsbD_not, BitVec.getLsbD_shiftLeft,
    BitVec.getLsbD_shiftLeft, BitVec.getLsbD_and, getLsbD_mask]
  -- inside the mask the value shows, outside it the old lane
  by_cases hword : k < 64
  · have hshift : k - r.slack < 64 := by omega
    by_cases hslack : r.slack ≤ k
    · by_cases hwidth : k - r.slack < r.width
      · simp [hword, hshift, hslack, hwidth, Nat.not_lt.mpr hslack]
      · simp [hword, hwidth]
    · simp [hword, hslack, Nat.lt_of_not_le hslack]
  · have hlane : lane.getLsbD k = false := BitVec.getLsbD_of_ge _ _ (by omega)
    simp [hword, hlane]

/-- A write changes the bits of the range that lie inside the buffer, and no others. -/
theorem bit_write {r : BitRange} (hsize : r.byteCount ≤ 8) (value : BitVec 64) (b : Bytes)
    (i : Nat) :
    (r.write value b).bit i =
      if r.contains i ∧ i / 8 < b.length then value.getLsbD (r.stop - 1 - i) else b.bit i := by
  by_cases hlength : i / 8 < b.length
  -- a byte of the buffer: it is patched or kept as a whole
  · have hcount : r.byteCount = (r.stop + 7) / 8 - r.start / 8 := rfl
    have hslack : r.slack = (r.stop + 7) / 8 * 8 - r.stop := rfl
    have hend : r.bytes.stop = (r.stop + 7) / 8 := rfl
    have hwidth : r.width = r.stop - r.start := rfl
    have hbyte : (r.write value b)[i / 8]? = some
        (if i / 8 ∈ r.bytes then
          ⟨(r.patch value (r.lane b) >>> (8 * (r.bytes.stop - 1 - i / 8))).setWidth 8⟩
        else b[i / 8]) := by
      rw [write, List.getElem?_mapIdx, List.getElem?_eq_getElem hlength]
      rfl
    rw [bit, List.getD_eq_getElem?_getD, hbyte, Option.getD_some]
    by_cases hmem : i / 8 ∈ r.bytes
    -- the byte was patched, so the bit comes from the lane
    · have hspan : r.start / 8 ≤ i / 8 ∧ i / 8 < (r.stop + 7) / 8 := hmem
      have hplace : 7 - i % 8 < 8 := by omega
      have hindex : 8 * (r.bytes.stop - 1 - i / 8) + (7 - i % 8) = 8 * r.bytes.stop - 1 - i := by
        omega
      have hback : 8 * r.bytes.stop - 1 - (8 * r.bytes.stop - 1 - i) = i := by omega
      have hword : 8 * r.bytes.stop - 1 - i < 64 := by omega
      have hlane : 8 * r.bytes.stop - 1 - i < 8 * r.byteCount := by omega
      rw [if_pos hmem, BitVec.getLsbD_setWidth, BitVec.getLsbD_ushiftRight, hindex, getLsbD_patch,
        getLsbD_lane, hback]
      -- a patched byte may also hold bits before or behind the range
      by_cases hcontains : r.contains i
      · have hbounds := contains_iff.mp hcontains
        have hvalue : 8 * r.bytes.stop - 1 - i - r.slack = r.stop - 1 - i := by omega
        have hlow : r.slack ≤ 8 * r.bytes.stop - 1 - i := by omega
        have hhigh : r.stop - 1 - i < r.width := by omega
        simp [hplace, hword, hvalue, hlow, hhigh, hcontains, hlength]
      · have hbounds := mt contains_iff.mpr hcontains
        have hout : ¬(r.slack ≤ 8 * r.bytes.stop - 1 - i ∧
            8 * r.bytes.stop - 1 - i - r.slack < r.width ∧ 8 * r.bytes.stop - 1 - i < 64) := by
          omega
        rw [if_neg hout]
        simp [hplace, hword, hlane, hcontains]
    -- a bit of the range would put its byte among those of the range
    · have hcontains : ¬r.contains i := by
        intro hin
        have hbounds := contains_iff.mp hin
        exact hmem ⟨by change r.start / 8 ≤ i / 8; omega, by change i / 8 < (r.stop + 7) / 8; omega⟩
      have hget : b[i / 8] = b.getD (i / 8) 0 := by
        rw [List.getD_eq_getElem?_getD, List.getElem?_eq_getElem hlength]
        rfl
      simp only [hmem, hcontains, if_false, Bool.false_eq_true, false_and, hget, bit]
  -- past the end there is nothing to write
  · have hpast : b.length ≤ i / 8 := by omega
    have hwritten : (r.write value b).length ≤ i / 8 := by
      rw [length_write]
      exact hpast
    rw [bit_of_length_le hwritten, bit_of_length_le hpast]
    simp [hlength]

theorem bit_set {w : Nat} {r : BitRange} (hsize : r.byteCount ≤ 8) (x : BitVec w) (b : Bytes)
    (i : Nat) :
    (r.set x b).bit i =
      if r.contains i ∧ i / 8 < b.length then x.getLsbD (r.stop - 1 - i) else b.bit i := by
  rw [set, bit_write hsize, BitVec.getLsbD_setWidth]
  -- widening the word to 64 bits adds no bit that the range could take
  by_cases hcontains : r.contains i
  · have hbounds := contains_iff.mp hcontains
    have hcount : r.byteCount = (r.stop + 7) / 8 - r.start / 8 := rfl
    have hword : r.stop - 1 - i < 64 := by omega
    simp [hword]
  · simp [hcontains]

/-- Writing zero clears the bits of the range. -/
theorem bit_set_zero {r : BitRange} (hsize : r.byteCount ≤ 8) (w : Nat) (b : Bytes) (i : Nat) :
    (r.set 0#w b).bit i = true ↔ b.bit i = true ∧ ¬ (r.start ≤ i ∧ i < r.stop) := by
  rw [bit_set hsize]
  split
  next hin =>
    have hbounds := contains_iff.mp hin.1
    simp [hbounds]
  next hout =>
    rw [contains_iff] at hout
    rcases Nat.lt_or_ge (i / 8) b.length with hlength | hlength
    · have hfree : ¬ (r.start ≤ i ∧ i < r.stop) := fun hbounds => hout ⟨hbounds, hlength⟩
      simp only [hfree, not_false_eq_true, and_true]
    · simp [Bytes.bit_of_length_le hlength]

/-- Copying a range from one byte string to another copies its bits. -/
theorem bit_set_get {w : Nat} {r : BitRange} (hsize : r.byteCount ≤ 8) (hwidth : r.width ≤ w)
    (b c : Bytes) (i : Nat) :
    (r.set (r.get w b) c).bit i =
      if r.contains i ∧ i / 8 < c.length then b.bit i else c.bit i := by
  rw [bit_set hsize, getLsbD_get hsize]
  by_cases hcontains : r.contains i
  · have hbounds := contains_iff.mp hcontains
    have hlow : r.stop - 1 - i < r.width := by
      change _ < r.stop - r.start
      omega
    have hword : r.stop - 1 - i < w := by omega
    have hindex : r.stop - 1 - (r.stop - 1 - i) = i := by omega
    simp [hlow, hword, hindex]
  · simp [hcontains]

/-! ## Reading after writing -/

/-- Reading the range that was written gives the word back, if the word fits the range. -/
theorem get_set {w : Nat} {r : BitRange} {x : BitVec w} {b : Bytes} (hsize : r.byteCount ≤ 8)
    (hinside : r.Inside b) (hfits : ∀ k, r.width ≤ k → x.getLsbD k = false) :
    r.get w (r.set x b) = x := by
  have hstop : r.stop ≤ 8 * b.length := hinside
  have hwidth : r.width = r.stop - r.start := rfl
  apply BitVec.eq_of_getLsbD_eq
  intro k hk
  -- bit `k` of the word lies `k` places before the end of the range
  rw [getLsbD_get hsize, bit_set hsize]
  by_cases hlt : k < r.width
  · have hcontains : r.contains (r.stop - 1 - k) := contains_iff.mpr (by omega)
    have hlength : (r.stop - 1 - k) / 8 < b.length := by omega
    have hindex : r.stop - 1 - (r.stop - 1 - k) = k := by omega
    simp [hk, hlt, hcontains, hlength, hindex]
  · simp [hlt, hfits k (by omega)]

/-- Reading gives back a word of the width of the range. -/
theorem get_set_word {w : Nat} {r : BitRange} {x : BitVec w} {b : Bytes} (hsize : r.byteCount ≤ 8)
    (hwidth : r.width = w) (hinside : r.Inside b) : r.get w (r.set x b) = x :=
  get_set hsize hinside fun k hk => BitVec.getLsbD_of_ge x k (hwidth ▸ hk)

/-- Reading one range does not see what was written to another. -/
theorem get_set_of_disjoint {w v : Nat} {r s : BitRange} (hr : r.byteCount ≤ 8)
    (hs : s.byteCount ≤ 8) (hdisjoint : r.Disjoint s) (x : BitVec v) (b : Bytes) :
    r.get w (s.set x b) = r.get w b := by
  have hapart : r.stop ≤ s.start ∨ s.stop ≤ r.start := hdisjoint
  apply get_congr hr
  intro i hi
  have hbounds := contains_iff.mp hi
  have hout : ¬s.contains i := by
    intro hin
    have hbounds' := contains_iff.mp hin
    omega
  rw [bit_set hs, if_neg fun hin => hout hin.1]

/-- A later write to the same range wins. -/
theorem set_set {w v : Nat} {r : BitRange} (hsize : r.byteCount ≤ 8) (x : BitVec w) (y : BitVec v)
    (b : Bytes) : r.set y (r.set x b) = r.set y b := by
  apply ext_bit (by simp)
  intro i _
  simp only [bit_set hsize, length_set]
  split <;> rfl

/-- Writing back what a range holds changes nothing. -/
theorem set_get {w : Nat} {r : BitRange} (hsize : r.byteCount ≤ 8) (hwidth : r.width ≤ w)
    (b : Bytes) : r.set (r.get w b) b = b := by
  apply ext_bit (by simp)
  intro i _
  rw [bit_set_get hsize hwidth, ite_self]

/-! ## Ranges at the front of a buffer -/

/-- A read of bits in the first part of a buffer does not see the second part. -/
theorem get_append {w : Nat} {r : BitRange} {a b : Bytes} (hsize : r.byteCount ≤ 8)
    (hinside : r.Inside a) : r.get w (a ++ b) = r.get w a := by
  apply get_congr hsize
  intro i hi
  have hbounds := contains_iff.mp hi
  exact bit_append_left (Nat.lt_of_lt_of_le hbounds.2 hinside)

/-- A write to bits in the first part of a buffer leaves the second part alone. -/
theorem set_append {w : Nat} {r : BitRange} {a b : Bytes} (hsize : r.byteCount ≤ 8)
    (hinside : r.Inside a) (x : BitVec w) : r.set x (a ++ b) = r.set x a ++ b := by
  have hstop : r.stop ≤ 8 * a.length := hinside
  have hlength : (r.set x a).length = a.length := length_set r x a
  apply ext_bit
  · simp
  · intro i _
    rw [bit_set hsize]
    -- no bit of the range lies in the second part
    by_cases hi : i < 8 * a.length
    · have hbyte : i / 8 < a.length := by omega
      have hbyte' : i / 8 < (a ++ b).length := by
        rw [List.length_append]
        omega
      rw [bit_append_left (a := a) hi, bit_append_left (a := r.set x a) (by omega), bit_set hsize]
      simp only [hbyte, hbyte', and_true]
    · have hout : ¬r.contains i := by
        intro hin
        have hbounds := contains_iff.mp hin
        omega
      rw [bit_append_right (a := a) (by omega), bit_append_right (a := r.set x a) (by omega),
        hlength]
      simp [hout]

/-- A write to bits of the first `n` bytes happens in those bytes. -/
theorem set_eq_append {w : Nat} {r : BitRange} {b : Bytes} {n : Nat} (hsize : r.byteCount ≤ 8)
    (hstop : r.stop ≤ 8 * n) (hlength : n ≤ b.length) (x : BitVec w) :
    r.set x b = r.set x (b.take n) ++ b.drop n := by
  have hfront : (b.take n).length = n := List.length_take_of_le hlength
  conv => lhs; rw [← List.take_append_drop n b]
  exact set_append hsize (inside_of_length hfront hstop) x

/-! ## Ranges of whole bytes -/

theorem byteCount_ofWidth_bytes (start n : Nat) : (ofWidth (8 * start) (8 * n)).byteCount = n := by
  change (8 * start + 8 * n + 7) / 8 - 8 * start / 8 = n
  omega

/-- A write to whole bytes puts the bytes of the word there. -/
theorem set_eq_splice {w n start : Nat} {b : Bytes} (hn : n ≤ 8) (hstop : start + n ≤ b.length)
    (x : BitVec w) : (ofWidth (8 * start) (8 * n)).set x b = b.splice start (ofWord n x) := by
  have hsize : (ofWidth (8 * start) (8 * n)).byteCount ≤ 8 := by
    rwa [byteCount_ofWidth_bytes]
  have hfront : (b.take start).length = start := List.length_take_of_le (by omega)
  apply ext_bit
  · rw [length_set, splice, length_ofWord]
    simp only [List.length_append, length_ofWord, List.length_drop, hfront]
    omega
  · intro i hi
    rw [length_set] at hi
    have hbyte : i / 8 < b.length := by omega
    -- both sides cut the string at the ends of the range
    have hmiddle : ((b.drop start).take n).length = n :=
      List.length_take_of_le (by rw [List.length_drop]; omega)
    have hold := bit_append_append (b.take start) ((b.drop start).take n) (b.drop (start + n)) i
    rw [List.append_assoc, ← List.drop_drop, List.take_append_drop, List.take_append_drop,
      List.drop_drop, hfront, hmiddle] at hold
    rw [bit_set hsize, splice, length_ofWord, bit_append_append, bit_ofWord, length_ofWord, hfront,
      hold]
    simp only [contains_iff, start_ofWidth, stop_ofWidth, hbyte, and_true]
    split
    next hin =>
      have hindex : 8 * n - 1 - (i - 8 * start) = 8 * start + 8 * n - 1 - i := by omega
      have hlt : i - 8 * start < 8 * n := by omega
      rw [if_neg (by omega), if_pos (by omega), hindex]
      simp only [hlt, decide_true, Bool.true_and]
    next hout =>
      by_cases hbefore : i < 8 * start
      · rw [if_pos hbefore, if_pos hbefore]
      · rw [if_neg hbefore, if_neg (by omega), if_neg hbefore, if_neg (by omega)]

end BitRange

end SourceRoute
