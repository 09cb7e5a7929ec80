import SourceRoute.Header.Wire
import SourceRoute.Proofs.BitLaws

/-!
# The wire forms of headers and fields

A header, an info field and a hop field each write bit ranges that cover their bytes.  So reading
gives back what was written, and writing what was read restores the bytes up to the reserved bits,
which become zero.  These two laws make a `RecordCodec`, and a codec has one form of bytes for each
value: what is written does not depend on what was there before.
-/

namespace SourceRoute

open Bytes BitRange

/-! ## Records of one size -/

/-- A record that is read from bytes of one size and written over them. -/
structure RecordCodec (α : Type) where
  size : Nat
  read : Bytes → α
  write : α → Bytes → Bytes
  /-- Whether the bits of the record can hold a value. -/
  Fits : α → Prop
  /-- The bytes of a record with the reserved bits zero. -/
  clear : Bytes → Bytes
  length_write (a : α) (b : Bytes) : (write a b).length = b.length
  read_write {b : Bytes} {a : α} (hlength : b.length = size) (hfits : Fits a) :
    read (write a b) = a
  write_read {b c : Bytes} (hb : b.length = size) (hc : c.length = size) :
    write (read b) c = clear b

namespace RecordCodec

variable {α : Type} (codec : RecordCodec α)

-- The bytes are unfolded by name only: a check of equality must not write them out bit by bit.
/-- The bytes of a value. -/
@[irreducible] def bytes (a : α) : Bytes := codec.write a (List.replicate codec.size 0)

theorem length_bytes (a : α) : (codec.bytes a).length = codec.size := by
  simp [bytes, codec.length_write]

theorem read_bytes {a : α} (hfits : codec.Fits a) : codec.read (codec.bytes a) = a := by
  rw [bytes]
  exact codec.read_write List.length_replicate hfits

theorem bytes_read {b : Bytes} (hlength : b.length = codec.size) :
    codec.bytes (codec.read b) = codec.clear b := by
  rw [bytes]
  exact codec.write_read hlength List.length_replicate

/-- What is written does not depend on the old bytes. -/
theorem write_eq_bytes {b : Bytes} {a : α} (hlength : b.length = codec.size)
    (hfits : codec.Fits a) : codec.write a b = codec.bytes a := by
  have hwritten : (codec.write a b).length = codec.size := by rw [codec.length_write, hlength]
  -- what was written reads as `a`, so writing it again over any bytes gives one result
  have hagain {c : Bytes} (hc : c.length = codec.size) :
      codec.write a c = codec.clear (codec.write a b) := by
    simpa [codec.read_write hlength hfits] using codec.write_read hwritten hc
  rw [bytes, hagain hlength, hagain List.length_replicate]

end RecordCodec

/-! ## Info fields -/

namespace InfoField

theorem read_write {b : Bytes} (hlength : b.length = size) (f : InfoField) :
    read (f.write b) = f := by
  -- what was written to the ranges behind is not seen
  have hflags : Bits.flags.get 8 (f.write b) = f.flags.bits.toBitVec := by
    simp (disch := decide) only [write, get_set_of_disjoint]
    exact get_set_word (by decide) rfl (inside_of_length hlength (by decide))
  have hid : Bits.segmentId.get 16 (f.write b) = f.segmentId.toBitVec := by
    simp (disch := decide) only [write, get_set_of_disjoint]
    exact get_set_word (by decide) rfl (inside_of_length (n := size) (by simp [hlength]) (by decide))
  have htimestamp : Bits.timestamp.get 32 (f.write b) = f.timestamp.toBitVec :=
    get_set_word (by decide) rfl (inside_of_length (n := size) (by simp [hlength]) (by decide))
  simp only [read, hflags, hid, htimestamp]

theorem write_read {b c : Bytes} (hb : b.length = size) (hc : c.length = size) :
    (read b).write c = Bits.reserved.set 0#8 b := by
  apply ext_bit
  · simp [hb, hc]
  · intro i hi
    have hi : i < 64 := by simpa [hc, size] using hi
    have hbyte : i / 8 < size := by
      show i / 8 < 8
      omega
    have hflags := bit_set_get (r := Bits.flags) (w := 8) (by decide) (by decide)
    have hreserved := bit_set (r := Bits.reserved) (w := 8) (by decide)
    have hid := bit_set_get (r := Bits.segmentId) (w := 16) (by decide) (by decide)
    have htimestamp := bit_set_get (r := Bits.timestamp) (w := 32) (by decide) (by decide)
    simp only [write, read, hflags, hreserved, hid, htimestamp, length_set, hb, hc, hbyte,
      and_true, contains_iff, BitVec.getLsbD_zero]
    simp only [Bits.flags, Bits.reserved, Bits.segmentId, Bits.timestamp, start_ofWidth,
      stop_ofWidth]
    -- every bit is either reserved or copied from `b`
    grind

/-- Info fields as records.  All of them fit, and the second byte is reserved. -/
def codec : RecordCodec InfoField where
  size := size
  read := read
  write := write
  Fits _ := True
  clear := Bits.reserved.set 0#8
  length_write := length_write
  read_write hlength _ := read_write hlength _
  write_read := write_read

/-- The eight bytes of an info field. -/
abbrev bytes (f : InfoField) : Bytes := codec.bytes f

@[simp] theorem length_bytes (f : InfoField) : f.bytes.length = size := codec.length_bytes f

@[simp] theorem read_bytes (f : InfoField) : read f.bytes = f := codec.read_bytes trivial

theorem write_eq_bytes {b : Bytes} (hlength : b.length = size) (f : InfoField) :
    f.write b = f.bytes :=
  codec.write_eq_bytes hlength trivial

theorem bytes_read {b : Bytes} (hlength : b.length = size) :
    (read b).bytes = Bits.reserved.set 0#8 b :=
  codec.bytes_read hlength

end InfoField

/-! ## Hop fields -/

namespace HopField

theorem read_write {b : Bytes} (hlength : b.length = size) (f : HopField) :
    read (f.write b) = f := by
  have hflags : Bits.flags.get 8 (f.write b) = f.flags.bits.toBitVec := by
    simp (disch := decide) only [write, get_set_of_disjoint]
    exact get_set_word (by decide) rfl (inside_of_length hlength (by decide))
  have hexpTime : Bits.expTime.get 8 (f.write b) = f.expTime.toBitVec := by
    simp (disch := decide) only [write, get_set_of_disjoint]
    exact get_set_word (by decide) rfl (inside_of_length (n := size) (by simp [hlength]) (by decide))
  have hingress : Bits.ingress.get 16 (f.write b) = f.ingress.toBitVec := by
    simp (disch := decide) only [write, get_set_of_disjoint]
    exact get_set_word (by decide) rfl (inside_of_length (n := size) (by simp [hlength]) (by decide))
  have hegress : Bits.egress.get 16 (f.write b) = f.egress.toBitVec := by
    simp (disch := decide) only [write, get_set_of_disjoint]
    exact get_set_word (by decide) rfl (inside_of_length (n := size) (by simp [hlength]) (by decide))
  have hmac : Bits.mac.get 48 (f.write b) = f.mac.value :=
    get_set_word (by decide) rfl (inside_of_length (n := size) (by simp [hlength]) (by decide))
  simp only [read, hflags, hexpTime, hingress, hegress, hmac]

theorem write_read {b c : Bytes} (hb : b.length = size) (hc : c.length = size) :
    (read b).write c = b := by
  apply ext_bit
  · simp [hb, hc]
  · intro i hi
    have hi : i < 96 := by simpa [hc, size] using hi
    have hbyte : i / 8 < size := by
      show i / 8 < 12
      omega
    have hflags := bit_set_get (r := Bits.flags) (w := 8) (by decide) (by decide)
    have hexpTime := bit_set_get (r := Bits.expTime) (w := 8) (by decide) (by decide)
    have hingress := bit_set_get (r := Bits.ingress) (w := 16) (by decide) (by decide)
    have hegress := bit_set_get (r := Bits.egress) (w := 16) (by decide) (by decide)
    have hmac := bit_set_get (r := Bits.mac) (w := 48) (by decide) (by decide)
    simp only [write, read, hflags, hexpTime, hingress, hegress, hmac, length_set, hc, hbyte,
      and_true, contains_iff]
    simp only [Bits.flags, Bits.expTime, Bits.ingress, Bits.egress, Bits.mac, start_ofWidth,
      stop_ofWidth]
    -- every bit is copied from `b`
    grind

/-- Hop fields as records.  All of them fit, and no bit is reserved. -/
def codec : RecordCodec HopField where
  size := size
  read := read
  write := write
  Fits _ := True
  clear := id
  length_write := length_write
  read_write hlength _ := read_write hlength _
  write_read := write_read

/-- The twelve bytes of a hop field. -/
abbrev bytes (f : HopField) : Bytes := codec.bytes f

@[simp] theorem length_bytes (f : HopField) : f.bytes.length = size := codec.length_bytes f

@[simp] theorem read_bytes (f : HopField) : read f.bytes = f := codec.read_bytes trivial

theorem write_eq_bytes {b : Bytes} (hlength : b.length = size) (f : HopField) :
    f.write b = f.bytes :=
  codec.write_eq_bytes hlength trivial

theorem bytes_read {b : Bytes} (hlength : b.length = size) : (read b).bytes = b :=
  codec.bytes_read hlength

end HopField

/-! ## Headers -/

namespace Header

/-- Whether the header fits the bits that its wire form has. -/
structure Fits (h : Header) : Prop where
  currentInfo_lt : h.currentInfo.toNat < 4
  currentHop_lt : h.currentHop.toNat < 64
  first_lt : h.lengths.first.toNat < 64
  second_lt : h.lengths.second.toNat < 64
  third_lt : h.lengths.third.toNat < 64

/-- A byte that fits `n` bits has no bit from place `n` on. -/
theorem getLsbD_of_toNat_lt {x : UInt8} {n : Nat} (hlt : x.toNat < 1 <<< n) (k : Nat)
    (hk : n ≤ k) : x.toBitVec.getLsbD k = false := by
  rw [Nat.one_shiftLeft] at hlt
  have hlt' : x.toNat < 2 ^ k := Nat.lt_of_lt_of_le hlt (Nat.pow_le_pow_right (by decide) hk)
  exact Nat.testBit_lt_two_pow hlt'

theorem read_write {b : Bytes} {h : Header} (hlength : b.length = size) (hfits : h.Fits) :
    read (h.write b) = h := by
  have hinfo : Bits.currentInfo.get 8 (h.write b) = h.currentInfo.toBitVec := by
    simp (disch := decide) only [write, get_set_of_disjoint]
    exact get_set (by decide) (inside_of_length hlength (by decide))
      (getLsbD_of_toNat_lt hfits.currentInfo_lt)
  have hhop : Bits.currentHop.get 8 (h.write b) = h.currentHop.toBitVec := by
    simp (disch := decide) only [write, get_set_of_disjoint]
    exact get_set (by decide) (inside_of_length (n := size) (by simp [hlength]) (by decide))
      (getLsbD_of_toNat_lt hfits.currentHop_lt)
  have hfirst : Bits.first.get 8 (h.write b) = h.lengths.first.toBitVec := by
    simp (disch := decide) only [write, get_set_of_disjoint]
    exact get_set (by decide) (inside_of_length (n := size) (by simp [hlength]) (by decide))
      (getLsbD_of_toNat_lt hfits.first_lt)
  have hsecond : Bits.second.get 8 (h.write b) = h.lengths.second.toBitVec := by
    simp (disch := decide) only [write, get_set_of_disjoint]
    exact get_set (by decide) (inside_of_length (n := size) (by simp [hlength]) (by decide))
      (getLsbD_of_toNat_lt hfits.second_lt)
  have hthird : Bits.third.get 8 (h.write b) = h.lengths.third.toBitVec :=
    get_set (by decide) (inside_of_length (n := size) (by simp [hlength]) (by decide))
      (getLsbD_of_toNat_lt hfits.third_lt)
  simp only [read, hinfo, hhop, hfirst, hsecond, hthird]

theorem write_read {b c : Bytes} (hb : b.length = size) (hc : c.length = size) :
    (read b).write c = Bits.reserved.set 0#8 b := by
  apply ext_bit
  · simp [hb, hc]
  · intro i hi
    have hi : i < 32 := by simpa [hc, size] using hi
    have hbyte : i / 8 < size := by
      show i / 8 < 4
      omega
    have hinfo := bit_set_get (r := Bits.currentInfo) (w := 8) (by decide) (by decide)
    have hhop := bit_set_get (r := Bits.currentHop) (w := 8) (by decide) (by decide)
    have hreserved := bit_set (r := Bits.reserved) (w := 8) (by decide)
    have hfirst := bit_set_get (r := Bits.first) (w := 8) (by decide) (by decide)
    have hsecond := bit_set_get (r := Bits.second) (w := 8) (by decide) (by decide)
    have hthird := bit_set_get (r := Bits.third) (w := 8) (by decide) (by decide)
    simp only [write, read, hinfo, hhop, hreserved, hfirst, hsecond, hthird, length_set, hb, hc,
      hbyte, and_true, contains_iff, BitVec.getLsbD_zero]
    simp only [Bits.currentInfo, Bits.currentHop, Bits.reserved, Bits.first, Bits.second,
      Bits.third, start_ofWidth, stop_ofWidth]
    -- every bit is either reserved or copied from `b`
    grind

/-- Only the first four bytes of a buffer are read. -/
theorem read_append {a : Bytes} (hlength : a.length = size) (b : Bytes) :
    read (a ++ b) = read a := by
  have hget {r : BitRange} (hr : r.byteCount ≤ 8 ∧ r.stop ≤ 8 * size) :
      r.get 8 (a ++ b) = r.get 8 a := get_append hr.1 (inside_of_length hlength hr.2)
  simp only [read, hget (r := Bits.currentInfo) (by decide), hget (r := Bits.currentHop) (by decide),
    hget (r := Bits.first) (by decide), hget (r := Bits.second) (by decide),
    hget (r := Bits.third) (by decide)]

theorem read_eq_read_take {b : Bytes} (hlength : size ≤ b.length) : read b = read (b.take size) := by
  have hfront : (b.take size).length = size := by
    rw [List.length_take]
    omega
  rw [← read_append hfront (b.drop size), List.take_append_drop]

/-- Only the first four bytes of a buffer are written. -/
theorem write_append {a : Bytes} (hlength : a.length = size) (h : Header) (b : Bytes) :
    h.write (a ++ b) = h.write a ++ b := by
  have hset {r : BitRange} (hr : r.byteCount ≤ 8 ∧ r.stop ≤ 8 * size) (x : BitVec 8) {c : Bytes}
      (hc : c.length = size) : r.set x (c ++ b) = r.set x c ++ b :=
    set_append hr.1 (inside_of_length hc hr.2) x
  -- each of the six writes stays inside the first four bytes
  simp only [write]
  rw [hset (by decide) _ hlength, hset (by decide) _ (by simpa using hlength),
    hset (by decide) _ (by simpa using hlength), hset (by decide) _ (by simpa using hlength),
    hset (by decide) _ (by simpa using hlength), hset (by decide) _ (by simpa using hlength)]

/-- Headers as records.  Six bits are reserved. -/
def codec : RecordCodec Header where
  size := size
  read := read
  write := write
  Fits := Fits
  clear := Bits.reserved.set 0#8
  length_write := length_write
  read_write := read_write
  write_read := write_read

/-- The four bytes of a header. -/
abbrev bytes (h : Header) : Bytes := codec.bytes h

@[simp] theorem length_bytes (h : Header) : h.bytes.length = size := codec.length_bytes h

theorem read_bytes {h : Header} (hfits : h.Fits) : read h.bytes = h := codec.read_bytes hfits

theorem write_eq_bytes {b : Bytes} (hlength : b.length = size) {h : Header} (hfits : h.Fits) :
    h.write b = h.bytes :=
  codec.write_eq_bytes hlength hfits

theorem bytes_read {b : Bytes} (hlength : b.length = size) :
    (read b).bytes = Bits.reserved.set 0#8 b :=
  codec.bytes_read hlength

/-- Writing a header replaces the first four bytes of a buffer. -/
theorem write_eq_bytes_append {b : Bytes} (hlength : size ≤ b.length) {h : Header}
    (hfits : h.Fits) : h.write b = h.bytes ++ b.drop size := by
  have hfront : (b.take size).length = size := List.length_take_of_le hlength
  conv => lhs; rw [← List.take_append_drop size b]
  rw [write_append hfront, write_eq_bytes hfront hfits]

end Header

end SourceRoute
