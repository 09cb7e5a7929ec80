import SourceRoute.Proofs.ReverseRuns
import SourceRoute.Proofs.WireFormat

/-!
# Encoding inside a buffer

An encoder gets a buffer with old bytes in it.  It checks the path and the length of the buffer, and
only then writes: the header bit by bit, and each record into its own slice of what is behind the
header, where a slice has to lie inside the buffer and a copy has to have the length of its slice.
`encodeInPlace?` does so and gives no result if one of these conditions fails.  None ever does, and
what is written does not depend on the old bytes, since each record covers all bits of its slice.
-/

namespace SourceRoute

/-! ## Writing into slices -/

namespace Bytes

/-- The string with other bytes in a span, if the span lies inside the string and has the length of
these bytes. -/
def copyInto? (b : Bytes) (s : Span) (part : Bytes) : Option Bytes :=
  if part.length = s.size then b.modifySlice? s fun _ => part else none

/-- The string with the bytes of a span rewritten by a function that may fail. -/
def rewriteSlice? (b : Bytes) (s : Span) (f : Bytes → Option Bytes) : Option Bytes :=
  (b.slice? s).bind fun part => (f part).map fun part' => b.splice s.start part'

theorem copyInto?_of_inside {b part : Bytes} {start : Nat} (hinside : start + part.length ≤ b.length) :
    b.copyInto? (Span.ofSize start part.length) part = some (b.splice start part) := by
  rw [copyInto?, Span.size_ofSize, if_pos rfl, modifySlice?, slice?]
  exact congrArg _ (if_pos ⟨Nat.le_add_right _ _, hinside⟩)

theorem slice?_rest {b : Bytes} {n : Nat} (hn : n ≤ b.length) :
    b.slice? ⟨n, b.length⟩ = some (b.drop n) := by
  rw [slice?, if_pos ⟨hn, Nat.le_refl _⟩, List.take_of_length_le]
  exact Nat.le_of_eq List.length_drop

theorem rewriteSlice?_append {part part' : Bytes} (hlength : part'.length = part.length)
    {f : Bytes → Option Bytes} (hf : f part = some part') (front back : Bytes) :
    (front ++ part ++ back).rewriteSlice? (Span.ofSize front.length part.length) f =
      some (front ++ part' ++ back) := by
  rw [rewriteSlice?, slice?_append, Option.bind_some, hf]
  exact congrArg some (splice_append hlength front back)

section

variable {α : Type} {write? : α → Bytes → Option Bytes} {bytes : α → Bytes} {size : Nat}

/-- Writing records one after the other into slices that follow each other puts their bytes there.
The bytes before the first slice and those behind the last one stay. -/
theorem foldlM_rewriteSlice? (hwrite : ∀ a part, part.length = size → write? a part = some (bytes a))
    (hsize : ∀ a, (bytes a).length = size) {span : Nat → Span} {base : Nat}
    (hspan : ∀ i, span i = Span.ofSize (base + i * size) size) (items : List α) {k : Nat}
    {front rest : Bytes} (hfront : front.length = base + k * size)
    (hrest : items.length * size ≤ rest.length) :
    (items.zipIdx k).foldlM (fun b x => b.rewriteSlice? (span x.2) (write? x.1)) (front ++ rest) =
      some (front ++ items.flatMap bytes ++ rest.drop (items.length * size)) := by
  -- each step moves the bytes of one record to the front
  induction items generalizing k front rest with
  | nil => simp
  | cons a items ih =>
    rw [List.length_cons, Nat.succ_mul] at hrest
    have hpart : (rest.take size).length = size := List.length_take_of_le (by omega)
    -- the slice of the first record is what `rest` begins with
    have hstep : (front ++ rest).rewriteSlice? (span k) (write? a) =
        some (front ++ bytes a ++ rest.drop size) := by
      have hslice := rewriteSlice?_append ((hsize a).trans hpart.symm) (hwrite a _ hpart) front
        (rest.drop size)
      rwa [List.append_assoc, List.take_append_drop, hfront, hpart, ← hspan] at hslice
    have hnext : (front ++ bytes a).length = base + (k + 1) * size := by
      rw [List.length_append, hfront, hsize, Nat.succ_mul, Nat.add_assoc]
    rw [List.zipIdx_cons, List.foldlM_cons, hstep]
    refine (ih hnext (by rw [List.length_drop]; omega)).trans ?_
    rw [List.flatMap_cons, List.drop_drop, List.length_cons, Nat.succ_mul, List.append_assoc,
      List.append_assoc, List.append_assoc, List.append_assoc, Nat.add_comm size]

end

end Bytes

/-! ## Records -/

namespace HopField

/-- The buffer with the hop field over its first twelve bytes.  The code is copied as a run of bytes,
for which there has to be room. -/
def writeInPlace? (h : HopField) (b : Bytes) : Option Bytes :=
  let b := Bits.flags.set h.flags.bits.toBitVec b
  let b := Bits.expTime.set h.expTime.toBitVec b
  let b := Bits.ingress.set h.ingress.toBitVec b
  let b := Bits.egress.set h.egress.toBitVec b
  Bits.mac.alignedBytes?.bind fun span => b.copyInto? span h.mac.toBytes

theorem writeInPlace?_eq {b : Bytes} (hlength : size ≤ b.length) (h : HopField) :
    h.writeInPlace? b = some (h.write b) := by
  have hspan : Bits.mac.alignedBytes? = some (Span.ofSize 6 h.mac.toBytes.length) := by
    rw [Mac.toBytes, Bytes.length_ofWord]
    rfl
  -- the four writes before the code leave the room that there is
  have hcopy (c : Bytes) (hc : c.length = b.length) :
      c.copyInto? (Span.ofSize 6 h.mac.toBytes.length) h.mac.toBytes =
        some (Bits.mac.set h.mac.value c) := by
    have hroom : 6 + 6 ≤ c.length := hc ▸ hlength
    rw [Bytes.copyInto?_of_inside (by rwa [Mac.toBytes, Bytes.length_ofWord])]
    exact congrArg some (BitRange.set_eq_splice (n := 6) (by decide) hroom _).symm
  rw [writeInPlace?, write, hspan]
  exact hcopy _ (by simp only [BitRange.length_set])

end HopField

/-! ## Paths -/

namespace Path

/-- The bytes behind the header with the info fields in their slices. -/
def writeInfos? (p : Path) (records : Bytes) : Option Bytes :=
  p.infos.zipIdx.foldlM (fun c x =>
    c.rewriteSlice? (p.lengths.infoSpan x.2) fun part => some (x.1.write part)) records

/-- The bytes behind the header with the hop fields in their slices. -/
def writeHops? (p : Path) (records : Bytes) : Option Bytes :=
  p.hops.zipIdx.foldlM (fun c x =>
    c.rewriteSlice? (p.lengths.hopSpan x.2) x.1.writeInPlace?) records

/-- The buffer with the path over its first bytes. -/
def writeInPlace? (p : Path) (b : Bytes) : Option Bytes := do
  let front := p.header.write b
  let records ← front.slice? ⟨Header.size, front.length⟩
  let records ← p.writeInfos? records
  let records ← p.writeHops? records
  return front.take Header.size ++ records

/-- Writes the path over the front of a buffer and tells how many bytes it took: the answer, and the
buffer afterwards. -/
def encodeInPlace? (p : Path) (b : Bytes) : Option (Except EncodeFault Nat × Bytes) :=
  match p.structureFault? with
  | some fault => some (.error (.noWireForm fault), b)
  | none =>
    if b.length < p.lengths.pathBytes then some (.error (.noRoom p.lengths.pathBytes), b)
    else (p.writeInPlace? b).map fun c => (.ok p.lengths.pathBytes, c)

variable {p : Path}

theorem WellFormed.pathBytes_eq (h : p.WellFormed) :
    p.lengths.pathBytes = 4 + 8 * p.infoCount + 12 * p.hopCount := by
  rw [SegmentLengths.pathBytes_eq, h.infoCount_lengths, h.hopCount_lengths]
  rfl

theorem writeInfos?_eq (p : Path) {records : Bytes}
    (hroom : p.infos.length * InfoField.size ≤ records.length) : p.writeInfos? records =
      some (p.infos.flatMap InfoField.bytes ++ records.drop (p.infos.length * InfoField.size)) := by
  have hwrite (f : InfoField) (part : Bytes) (hpart : part.length = InfoField.size) :
      some (f.write part) = some f.bytes := congrArg some (InfoField.write_eq_bytes hpart f)
  have hspan (i : Nat) : p.lengths.infoSpan i =
      Span.ofSize (0 + i * InfoField.size) InfoField.size := by
    rw [SegmentLengths.infoSpan, Nat.zero_add]
  have hstart : ([] : Bytes).length = 0 + 0 * InfoField.size := rfl
  exact Bytes.foldlM_rewriteSlice? hwrite InfoField.length_bytes hspan p.infos hstart hroom

/-- The hop fields come behind the info fields. -/
theorem WellFormed.writeHops?_eq (h : p.WellFormed) {records : Bytes}
    (hroom : p.hops.length * HopField.size ≤ records.length) :
    p.writeHops? (p.infos.flatMap InfoField.bytes ++ records) =
      some (p.infos.flatMap InfoField.bytes ++ p.hops.flatMap HopField.bytes ++
        records.drop (p.hops.length * HopField.size)) := by
  have hwrite (f : HopField) (part : Bytes) (hpart : part.length = HopField.size) :
      f.writeInPlace? part = some f.bytes := by
    rw [HopField.writeInPlace?_eq (Nat.le_of_eq hpart.symm), HopField.write_eq_bytes hpart]
  have hspan (i : Nat) : p.lengths.hopSpan i =
      Span.ofSize (p.lengths.infoBytes + i * HopField.size) HopField.size := rfl
  have hstart : (p.infos.flatMap InfoField.bytes).length =
      p.lengths.infoBytes + 0 * HopField.size := by
    rw [Bytes.length_flatMap_bytes fun f _ => InfoField.length_bytes f, length_infos,
      SegmentLengths.infoBytes, h.infoCount_lengths, Nat.zero_mul, Nat.add_zero]
  exact Bytes.foldlM_rewriteSlice? hwrite HopField.length_bytes hspan p.hops hstart hroom

/-- In a buffer that is long enough no slice is out of range, and the path is written as by
`write`. -/
theorem WellFormed.writeInPlace?_eq (h : p.WellFormed) {b : Bytes}
    (hlength : p.lengths.pathBytes ≤ b.length) : p.writeInPlace? b = some (p.write b) := by
  have hsize : p.lengths.pathBytes =
      Header.size + (p.infos.length * InfoField.size + p.hops.length * HopField.size) := by
    rw [SegmentLengths.pathBytes, SegmentLengths.recordBytes, SegmentLengths.infoBytes,
      h.infoCount_lengths, h.hopCount_lengths, length_infos, length_hops]
  -- the header takes its four bytes and leaves those behind it
  have hheader := Header.write_eq_bytes_append (b := b) (by omega) h.fits
  have hhead : (p.header.write b).take Header.size = p.header.bytes := by
    rw [hheader, List.take_left' p.header.length_bytes]
  have hrecords : (p.header.write b).slice? ⟨Header.size, (p.header.write b).length⟩ =
      some (b.drop Header.size) := by
    rw [Bytes.slice?_rest (by rw [Header.length_write]; omega), hheader,
      List.drop_left' p.header.length_bytes]
  -- there is room for both kinds of records behind the header
  have hinfoRoom : p.infos.length * InfoField.size ≤ (b.drop Header.size).length := by
    rw [List.length_drop]
    omega
  have hhopRoom : p.hops.length * HopField.size ≤
      ((b.drop Header.size).drop (p.infos.length * InfoField.size)).length := by
    rw [List.length_drop, List.length_drop]
    omega
  rw [writeInPlace?, write_eq_bytes_append h hlength, hrecords, hhead]
  simp only [Option.bind_eq_bind, Option.bind_some, p.writeInfos?_eq hinfoRoom,
    h.writeHops?_eq hhopRoom]
  rw [bytes, hsize, List.drop_drop, List.drop_drop]
  simp only [List.append_assoc]
  rfl

/-! ## All or nothing -/

theorem encodeInto_of_fault {fault : StructureFault} (hfault : p.structureFault? = some fault)
    (b : Bytes) : Wire.encodeInto p b = (.error (.noWireForm fault), b) := by
  have hwire : Wire.fault? p = some fault := hfault
  rw [Wire.encodeInto, hwire]

theorem encodeInto_of_short (hfault : p.structureFault? = none) {b : Bytes}
    (hshort : b.length < Wire.size p) :
    Wire.encodeInto p b = (.error (.noRoom (Wire.size p)), b) := by
  have hwire : Wire.fault? p = none := hfault
  rw [Wire.encodeInto, hwire]
  exact if_pos hshort

theorem encodeInto_of_long (hfault : p.structureFault? = none) {b : Bytes}
    (hlong : Wire.size p ≤ b.length) :
    Wire.encodeInto p b = (.ok (Wire.size p), p.bytes ++ b.drop (Wire.size p)) := by
  have hwire : Wire.fault? p = none := hfault
  have hwrite : Wire.write p b = p.bytes ++ b.drop (Wire.size p) :=
    write_eq_bytes_append (structureFault?_eq_none_iff.mp hfault) hlong
  rw [Wire.encodeInto, hwire, ← hwrite]
  exact if_neg (Nat.not_lt.mpr hlong)

theorem exists_encodeInto_iff (p : Path) (b : Bytes) :
    (∃ n, (Wire.encodeInto p b).1 = .ok n) ↔ p.structureFault? = none ∧ Wire.size p ≤ b.length := by
  cases hfault : p.structureFault? with
  | some fault => simp [encodeInto_of_fault hfault]
  | none =>
    rcases Nat.lt_or_ge b.length (Wire.size p) with hshort | hlong
    · simp [encodeInto_of_short hfault hshort, hshort]
    · simp [encodeInto_of_long hfault hlong, hlong]

/-- The checks before the first write make every access safe, so the encoder in place always has an
answer, the one of `Wire.encodeInto`. -/
theorem encodeInPlace?_eq (p : Path) (b : Bytes) :
    p.encodeInPlace? b = some (Wire.encodeInto p b) := by
  cases hfault : p.structureFault? with
  | some fault => rw [encodeInPlace?, hfault, encodeInto_of_fault hfault]
  | none =>
    rw [encodeInPlace?, hfault]
    dsimp only
    rcases Nat.lt_or_ge b.length (Wire.size p) with hshort | hlong
    · rw [encodeInto_of_short hfault hshort]
      exact if_pos hshort
    · have hp := structureFault?_eq_none_iff.mp hfault
      rw [encodeInto_of_long hfault hlong, hp.writeInPlace?_eq hlong,
        write_eq_bytes_append hp hlong]
      exact if_neg (Nat.not_lt.mpr hlong)

/-- Encoding is all or nothing, and what it writes does not depend on the old bytes.  It never
accesses a byte out of range.  It succeeds exactly for paths without structure faults in buffers that
are long enough, and a failure leaves the buffer as it is.  On success it takes as many bytes as the
records of the path call for, the same ones in every buffer, and leaves the rest as it is.  In a
buffer of its own it fails only if the path has no wire form. -/
theorem encode_all_or_nothing (p : Path) :
    (∀ b, p.encodeInPlace? b = some (Wire.encodeInto p b)) ∧
    (∀ b, (∃ n, (Wire.encodeInto p b).1 = .ok n) ↔
      p.structureFault? = none ∧ Wire.size p ≤ b.length) ∧
    (∀ b fault, (Wire.encodeInto p b).1 = .error fault → (Wire.encodeInto p b).2 = b) ∧
    (∀ b n, (Wire.encodeInto p b).1 = .ok n →
      n = Wire.size p ∧ n = 4 + 8 * p.infoCount + 12 * p.hopCount ∧
      ∃ w, w.length = n ∧ ∀ c, n ≤ c.length → Wire.encodeInto p c = (.ok n, w ++ c.drop n)) ∧
    ((∃ w, Wire.encode p = .ok w) ∨
      ∃ fault, p.structureFault? = some fault ∧ Wire.encode p = .error (.noWireForm fault)) := by
  refine ⟨encodeInPlace?_eq p, exists_encodeInto_iff p, ?_, ?_, ?_⟩
  · intro b fault herror
    cases hfault : p.structureFault? with
    | some cause => rw [encodeInto_of_fault hfault]
    | none =>
      rcases Nat.lt_or_ge b.length (Wire.size p) with hshort | hlong
      · rw [encodeInto_of_short hfault hshort]
      · rw [encodeInto_of_long hfault hlong] at herror
        simp at herror
  · intro b n hok
    obtain ⟨hfault, hlong⟩ := (exists_encodeInto_iff p b).mp ⟨n, hok⟩
    have hp := structureFault?_eq_none_iff.mp hfault
    rw [encodeInto_of_long hfault hlong, Except.ok.injEq] at hok
    obtain rfl := hok
    exact ⟨rfl, hp.pathBytes_eq, p.bytes, length_bytes hp, fun c hc => encodeInto_of_long hfault hc⟩
  · cases hfault : p.structureFault? with
    | some fault =>
      refine .inr ⟨fault, rfl, ?_⟩
      rw [Wire.encode, encodeInto_of_fault hfault]
    | none => exact .inl ⟨p.bytes, encode_eq (structureFault?_eq_none_iff.mp hfault)⟩

/-- A path of one hop in a buffer that was full of ones and has room for two more bytes. -/
example : Wire.encodeInto
    (⟨0, 0, [⟨⟨⟨1⟩, 7, 1000⟩, [⟨HopFlags.none, 63, 4, 5, Mac.zero⟩]⟩]⟩ : Path)
    (List.replicate 26 0xff) =
      (.ok 24, [0, 0, 0x10, 0] ++ [1, 0, 0, 7, 0, 0, 3, 0xe8] ++
        [0, 63, 0, 4, 0, 5, 0, 0, 0, 0, 0, 0] ++ [0xff, 0xff]) := by decide

end Path

end SourceRoute
