import SourceRoute.Proofs.ViewLaws

/-!
# Decoding and encoding are inverse

The wire form of a well-formed path is a sound view that stands for that path again.  In the other
direction, an accepted buffer differs from the encoding of what it decodes to in the reserved bits
only, which the encoding clears: six in the header, and the second byte of each info field.
-/

namespace SourceRoute

namespace Path

variable {p : Path}

/-! ## From paths to bytes and back -/

/-- The wire form is made of the header and the records of the path. -/
theorem WellFormed.madeOf (h : p.WellFormed) : (PathView.mk p.bytes).MadeOf p.header.bytes
    (p.infos.map fun f => ⟨f.bytes⟩) (p.hops.map fun f => ⟨f.bytes⟩) := by
  have hheader : (PathView.mk p.bytes).header = p.header := by
    rw [PathView.header, bytes, List.append_assoc, Header.read_append (Header.length_bytes _),
      Header.read_bytes h.fits]
  have hlengths : (PathView.mk p.bytes).lengths = p.lengths := congrArg Header.lengths hheader
  refine
    { bytes_eq := ?_
      length_head := Header.length_bytes _
      length_info := ?_
      length_hop := ?_
      infoCount_eq := ?_
      hopCount_eq := ?_ }
  · rw [List.flatMap_map, List.flatMap_map, bytes]
  · simp
  · simp
  · rw [PathView.infoCount, hlengths, h.infoCount_lengths, List.length_map, length_infos]
  · rw [PathView.hopCount, hlengths, h.hopCount_lengths, List.length_map, length_hops]

theorem WellFormed.header_view (h : p.WellFormed) : (PathView.mk p.bytes).header = p.header := by
  rw [h.madeOf.header_eq, Header.read_bytes h.fits]

theorem WellFormed.sound (h : p.WellFormed) : (PathView.mk p.bytes).Sound where
  lengths := by
    rw [PathView.lengths, h.header_view]
    exact (Header.fault?_eq_none_iff.mp h.fault?_header).1
  length_eq := by
    rw [PathView.lengths, h.header_view]
    exact length_bytes h

theorem WellFormed.toPath_view (h : p.WellFormed) : (PathView.mk p.bytes).toPath = p := by
  have hheader : (PathView.mk p.bytes).toPath.header = p.header := by
    rw [h.sound.header_toPath, h.header_view]
  -- a path is the same if its position, info fields, sizes and hop fields are
  apply ext_records
  · exact congrArg Header.currentInfo hheader
  · exact congrArg Header.currentHop hheader
  · have hread : (InfoView.field ∘ fun f : InfoField => ⟨f.bytes⟩) = id := by
      funext f
      simp only [Function.comp_apply, InfoView.field, InfoField.read_bytes, id]
    rw [h.sound.infos_toPath, h.madeOf.infos_eq, List.map_map, hread, List.map_id]
  · have hd : (PathView.mk p.bytes).lengths.Describes p.sizes := by
      rw [PathView.lengths, h.header_view]
      exact h.describes
    exact h.sound.sizes_toPath h.sizes hd
  · have hread : (HopView.field ∘ fun f : HopField => ⟨f.bytes⟩) = id := by
      funext f
      simp only [Function.comp_apply, HopView.field, HopField.read_bytes, id]
    rw [h.sound.hops_toPath, h.madeOf.hops_eq, List.map_map, hread, List.map_id]

/-- The wire form of a well-formed path is read as the path is. -/
theorem WellFormed.records_view (h : p.WellFormed) : (PathView.mk p.bytes).records = p.records := by
  rw [← h.sound.records_toPath, h.toPath_view]

/-- The wire form of a well-formed path is accepted, whatever follows it. -/
theorem WellFormed.ofBytes_eq (h : p.WellFormed) (rest : Bytes) :
    PathView.ofBytes (p.bytes ++ rest) = .ok (⟨p.bytes⟩, rest) := by
  refine PathView.ofBytes_eq_ok_iff.mpr ⟨rfl, h.sound, ?_⟩
  rw [h.header_view]
  exact h.fault?_header

/-- Decoding is the inverse of encoding. -/
theorem WellFormed.decode_bytes (h : p.WellFormed) (rest : Bytes) :
    decode (p.bytes ++ rest) = .ok (p, rest) := by
  rw [decode, h.ofBytes_eq]
  simp [h.toPath_view]

theorem decode_eq_ok_iff {b rest : Bytes} :
    decode b = .ok (p, rest) ↔ ∃ v, PathView.ofBytes b = .ok (v, rest) ∧ v.toPath = p := by
  rw [decode]
  split
  next => simp_all
  next v rest' hok => simp [hok, and_comm]

theorem decode_eq_error_iff {b : Bytes} {fault : Malformed} :
    decode b = .error fault ↔ PathView.ofBytes b = .error fault := by
  rw [decode]
  split <;> simp_all

/-- Whatever decodes is well formed. -/
theorem wellFormed_of_decode {b rest : Bytes} (h : decode b = .ok (p, rest)) : p.WellFormed := by
  obtain ⟨v, hok, rfl⟩ := decode_eq_ok_iff.mp h
  obtain ⟨-, hsound, hfault⟩ := PathView.ofBytes_eq_ok_iff.mp hok
  exact hsound.wellFormed_toPath hfault

end Path

/-! ## From bytes to paths and back -/

namespace PathView

/-- Encoding the owned path of a view clears the reserved bits of the header and of each info
field. -/
theorem Sound.bytes_toPath {v : PathView} (h : v.Sound) :
    v.toPath.bytes = Header.Bits.reserved.set 0#8 (v.bytes.take Header.size) ++
      v.infos.flatMap (fun f => InfoField.Bits.reserved.set 0#8 f.bytes) ++
      v.hops.flatMap HopView.bytes := by
  have hmade := h.madeOf
  have hheader : v.toPath.header.bytes =
      Header.Bits.reserved.set 0#8 (v.bytes.take Header.size) := by
    rw [h.header_toPath, hmade.header_eq, Header.bytes_read hmade.length_head]
  have hinfos : v.toPath.infos.flatMap InfoField.bytes =
      v.infos.flatMap fun f => InfoField.Bits.reserved.set 0#8 f.bytes := by
    rw [h.infos_toPath, List.flatMap_map, List.flatMap_def, List.flatMap_def]
    apply congrArg List.flatten
    exact List.map_congr_left fun f hf => InfoField.bytes_read (hmade.length_info f hf)
  have hhops : v.toPath.hops.flatMap HopField.bytes = v.hops.flatMap HopView.bytes := by
    rw [h.hops_toPath, List.flatMap_map, List.flatMap_def, List.flatMap_def]
    apply congrArg List.flatten
    exact List.map_congr_left fun f hf => HopField.bytes_read (hmade.length_hop f hf)
  rw [Path.bytes, hheader, hinfos, hhops]

theorem Sound.length_bytes_toPath {v : PathView} (h : v.Sound) :
    v.toPath.bytes.length = v.bytes.length := by
  have hcleared : (v.infos.flatMap fun f => InfoField.Bits.reserved.set 0#8 f.bytes).length =
      (v.infos.flatMap InfoView.bytes).length := by
    rw [List.length_flatMap, List.length_flatMap]
    simp only [BitRange.length_set]
  rw [h.bytes_toPath]
  conv => rhs; rw [h.madeOf.bytes_eq]
  simp only [List.length_append, BitRange.length_set, hcleared]

theorem Sound.infoCount_toPath {v : PathView} (h : v.Sound) : v.toPath.infoCount = v.infoCount := by
  rw [Path.infoCount, ← Path.length_infos, h.infos_toPath, List.length_map, h.madeOf.infoCount_eq]

end PathView

namespace Path

/-- The bits of a wire form with `infoCount` info fields that no reader looks at. -/
def ReservedBit (infoCount i : Nat) : Prop :=
  (8 ≤ i ∧ i < 14) ∨
    ∃ s < infoCount, i / 8 = 4 + 8 * s + 1

/-- Clearing the second byte of each info field clears these bits and no others. -/
private theorem bit_flatMap_cleared {infos : List InfoView}
    (hlength : ∀ f ∈ infos, f.bytes.length = InfoField.size) (i : Nat) :
    Bytes.bit (infos.flatMap fun f => InfoField.Bits.reserved.set 0#8 f.bytes) i = true ↔
      Bytes.bit (infos.flatMap InfoView.bytes) i = true ∧
        ¬ ∃ s < infos.length, i / 8 = 8 * s + 1 := by
  -- the reserved byte of a later field is counted from the end of the first one
  induction infos generalizing i with
  | nil => simp [Bytes.bit]
  | cons f infos ih =>
    have hf : f.bytes.length = 8 := hlength f List.mem_cons_self
    have hcleared : (InfoField.Bits.reserved.set 0#8 f.bytes).length = 8 := by simp [hf]
    rw [List.flatMap_cons, List.flatMap_cons]
    rcases Nat.lt_or_ge i 64 with hi | hi
    -- the bit lies in the first info field
    · have hreserved := BitRange.bit_set_zero (r := InfoField.Bits.reserved) (by decide) 8 f.bytes i
      have hfirst : (∃ s < (f :: infos).length, i / 8 = 8 * s + 1) ↔
          8 ≤ i ∧ i < 16 := by
        constructor
        · rintro ⟨s, -, hs⟩
          omega
        · rintro ⟨hstart, hstop⟩
          exact ⟨0, by simp, by omega⟩
      rw [Bytes.bit_append_left (by omega), Bytes.bit_append_left (by omega), hreserved, hfirst]
      rfl
    -- the bit lies in a later one
    · have hshift : (∃ s < (f :: infos).length, i / 8 = 8 * s + 1) ↔
          ∃ s < infos.length, (i - 8 * 8) / 8 = 8 * s + 1 := by
        constructor
        · rintro ⟨s, hs, hbyte⟩
          rw [List.length_cons] at hs
          exact ⟨s - 1, by omega, by omega⟩
        · rintro ⟨s, hs, hbyte⟩
          rw [List.length_cons]
          exact ⟨s + 1, by omega, by omega⟩
      rw [Bytes.bit_append_right (by omega), Bytes.bit_append_right (by omega), hcleared, hf,
        ih (fun g hg => hlength g (List.mem_cons_of_mem _ hg)), hshift]

/-- Encoding the owned path of a view clears the reserved bits and no others. -/
theorem bit_bytes_toPath {v : PathView} (h : v.Sound) (i : Nat) :
    Bytes.bit v.toPath.bytes i = true ↔
      Bytes.bit v.bytes i = true ∧ ¬ ReservedBit v.toPath.infoCount i := by
  have hmade := h.madeOf
  have hcount : v.toPath.infoCount = v.infos.length := by
    rw [h.infoCount_toPath, hmade.infoCount_eq]
  have hhead : (v.bytes.take Header.size).length = 4 := hmade.length_head
  have hcleared : (Header.Bits.reserved.set 0#8 (v.bytes.take Header.size)).length = 4 := by
    simp [hhead]
  have hinfos : (v.infos.flatMap InfoView.bytes).length = v.infos.length * 8 :=
    Bytes.length_flatMap_bytes hmade.length_info
  have hinfosCleared : (v.infos.flatMap fun f =>
      InfoField.Bits.reserved.set 0#8 f.bytes).length = v.infos.length * 8 := by
    apply Bytes.length_flatMap_bytes
    intro f hf
    rw [BitRange.length_set]
    exact hmade.length_info f hf
  rw [h.bytes_toPath, hcount, ReservedBit]
  conv => rhs; rw [hmade.bytes_eq]
  rw [Bytes.bit_append_append, Bytes.bit_append_append, hcleared, hhead, hinfos, hinfosCleared]
  -- the bit lies in the header, in an info field or in a hop field
  split
  next hi =>
    have hnone : ¬ ∃ s < v.infos.length, i / 8 = 4 + 8 * s + 1 := by
      rintro ⟨s, -, hs⟩
      omega
    simp only [hnone, or_false]
    exact BitRange.bit_set_zero (by decide) 8 _ i
  next hi =>
    have hheader : ¬ (8 ≤ i ∧ i < 14) := by omega
    simp only [hheader, false_or]
    split
    next hi' =>
      have hshift : (∃ s < v.infos.length, (i - 8 * 4) / 8 = 8 * s + 1) ↔
          ∃ s < v.infos.length, i / 8 = 4 + 8 * s + 1 := by
        constructor <;> rintro ⟨s, hs, hbyte⟩ <;> exact ⟨s, hs, by omega⟩
      rw [bit_flatMap_cleared hmade.length_info, hshift]
    next hi' =>
      have hnone : ¬ ∃ s < v.infos.length, i / 8 = 4 + 8 * s + 1 := by
        rintro ⟨s, hs, hbyte⟩
        omega
      simp only [hnone, not_false_eq_true, and_true]

/-! ## The codec -/

/-- Encoding and decoding are inverse up to the reserved bits.  A path without structure faults
decodes from its encoding, whatever follows; a path that decodes from a buffer has no structure
fault, and its encoding is the buffer with the reserved bits cleared. -/
theorem decode_encode_inverse (p : Path) :
    (p.structureFault? = none →
      ∃ w, Wire.encode p = .ok w ∧ ∀ rest, decode (w ++ rest) = .ok (p, rest)) ∧
    (∀ b rest, decode b = .ok (p, rest) →
      p.structureFault? = none ∧
      ∃ w, Wire.encode p = .ok w ∧ (w ++ rest).length = b.length ∧
        ∀ i, Bytes.bit (w ++ rest) i = true ↔
          Bytes.bit b i = true ∧ ¬ ReservedBit p.infoCount i) ∧
    (p.structureFault? = none ↔ ∃ b rest, decode b = .ok (p, rest)) := by
  have hdecode (h : p.structureFault? = none) :
      ∃ w, Wire.encode p = .ok w ∧ ∀ rest, decode (w ++ rest) = .ok (p, rest) := by
    have hp := structureFault?_eq_none_iff.mp h
    exact ⟨p.bytes, encode_eq hp, hp.decode_bytes⟩
  -- the first part also gives the buffer that the last part asks for
  refine ⟨hdecode, ?_, ?_⟩
  · intro b rest hb
    have hp := wellFormed_of_decode hb
    obtain ⟨v, hok, rfl⟩ := decode_eq_ok_iff.mp hb
    obtain ⟨rfl, hsound, -⟩ := PathView.ofBytes_eq_ok_iff.mp hok
    have hlength := hsound.length_bytes_toPath
    refine ⟨structureFault?_eq_none_iff.mpr hp, v.toPath.bytes, encode_eq hp, ?_, ?_⟩
    · rw [List.length_append, List.length_append, hlength]
    · intro i
      rcases Nat.lt_or_ge i (8 * v.bytes.length) with hi | hi
      · rw [Bytes.bit_append_left (by omega), Bytes.bit_append_left hi]
        exact bit_bytes_toPath hsound i
      -- no bit behind the path is reserved
      · have hfree : ¬ ReservedBit v.toPath.infoCount i := by
          have hsize : v.bytes.length =
              4 + (v.infoCount * 8 + v.hopCount * 12) := hsound.length_eq
          rw [hsound.infoCount_toPath]
          rintro (hheader | ⟨s, hs, hbyte⟩) <;> omega
        rw [Bytes.bit_append_right (by omega), Bytes.bit_append_right hi, hlength]
        simp [hfree]
  · constructor
    · intro h
      obtain ⟨w, -, hw⟩ := hdecode h
      exact ⟨w ++ [], [], hw []⟩
    · rintro ⟨b, rest, hb⟩
      exact structureFault?_eq_none_iff.mpr (wellFormed_of_decode hb)

end Path

end SourceRoute
