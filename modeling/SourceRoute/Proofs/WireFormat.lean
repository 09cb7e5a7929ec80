import SourceRoute.Proofs.PositionLaws
import SourceRoute.Proofs.RangeAccess

/-!
# The format that decoding accepts

A buffer holds a path if its header names one to three segments, all in front, with at most 64 hops
together and a position that the named segment owns, and if the buffer goes on for as many bytes as
the records take.  `decode_exact` says that decoding accepts just these buffers and takes just those
bytes.  Behind the header only the length of a buffer can still change the answer: paths and
inconsistent headers stay what they are when bytes are added, and a buffer that is too short for its
records holds a path as soon as the required number of bytes is there.
-/

namespace SourceRoute

/-! ## The format -/

namespace Bytes

/-- The three segment lengths that the front of a buffer writes. -/
def segmentLengths (b : Bytes) : List Nat := [b.number 14 6, b.number 20 6, b.number 26 6]

/-- The buffer begins with a path of `segments` segments with `hops` hops together. -/
structure HoldsPath (b : Bytes) (segments hops : Nat) : Prop where
  header : 4 ≤ b.length
  segments_pos : 0 < segments
  segments_le : segments ≤ 3
  /-- The segments that have hops are the first ones. -/
  front : ∀ s < 3, 0 < b.segmentLengths.getD s 0 ↔ s < segments
  total : Runs.total b.segmentLengths = hops
  total_le : hops ≤ 64
  current_lt : b.number 2 6 < hops
  /-- The current hop is a hop of the current segment. -/
  owner : b.number 2 6 ∈ Runs.span b.segmentLengths (b.number 0 2)
  records : 4 + 8 * segments + 12 * hops ≤ b.length

end Bytes

namespace SegmentLengths

theorem pathBytes_eq (l : SegmentLengths) : l.pathBytes = 4 + 8 * l.infoCount + 12 * l.hopCount := by
  rw [pathBytes, recordBytes, infoBytes, Header.size, InfoField.size, HopField.size]
  omega

theorem infoCount_le (l : SegmentLengths) : l.infoCount ≤ maxSegments :=
  List.length_filter_le ..

end SegmentLengths

namespace Header

variable {b : Bytes}

theorem toList_lengths_read (b : Bytes) : (read b).lengths.toList = b.segmentLengths := by
  have hfirst : (read b).lengths.first.toNat = b.number 14 6 :=
    BitRange.toNat_get (by decide) (by decide) b
  have hsecond : (read b).lengths.second.toNat = b.number 20 6 :=
    BitRange.toNat_get (by decide) (by decide) b
  have hthird : (read b).lengths.third.toNat = b.number 26 6 :=
    BitRange.toNat_get (by decide) (by decide) b
  rw [SegmentLengths.toList, hfirst, hsecond, hthird, Bytes.segmentLengths]

theorem currentHop_read (b : Bytes) : (read b).currentHop.toNat = b.number 2 6 :=
  BitRange.toNat_get (by decide) (by decide) b

theorem currentInfo_read (b : Bytes) : (read b).currentInfo.toNat = b.number 0 2 :=
  BitRange.toNat_get (by decide) (by decide) b

theorem hopCount_read (b : Bytes) : (read b).lengths.hopCount = Runs.total b.segmentLengths := by
  rw [SegmentLengths.hopCount, toList_lengths_read]

/-- Six bits write no length that is too large for a segment. -/
theorem segmentLengths_le (b : Bytes) : ∀ n ∈ b.segmentLengths, n ≤ maxSegmentLength := by
  intro n hn
  have hle (start : Nat) : b.number start 6 ≤ 63 := Nat.le_of_lt_succ (b.number_lt start 6)
  simp only [Bytes.segmentLengths, List.mem_cons, List.not_mem_nil, or_false] at hn
  rcases hn with rfl | rfl | rfl
  · exact hle 14
  · exact hle 20
  · exact hle 26

/-- A header is valid exactly if the bits write lengths in front, not too many hops, and a position
that its segment owns. -/
theorem fault?_read_eq_none_iff : (read b).fault? = none ↔
    (∃ k, 0 < k ∧ k ≤ 3 ∧ ∀ s < 3, 0 < b.segmentLengths.getD s 0 ↔ s < k) ∧
      Runs.total b.segmentLengths ≤ 64 ∧
      b.number 2 6 ∈ Runs.span b.segmentLengths (b.number 0 2) := by
  have hlengths : (read b).lengths.fault? = none ↔
      (∃ k, 0 < k ∧ k ≤ 3 ∧ ∀ s < 3, 0 < b.segmentLengths.getD s 0 ↔ s < k) ∧
        Runs.total b.segmentLengths ≤ 64 := by
    rw [SegmentLengths.fault?_eq_none_iff_front, toList_lengths_read, hopCount_read]
    exact and_congr_right fun _ => and_iff_right (segmentLengths_le b)
  rw [fault?_eq_none_iff, hlengths, SegmentLengths.segmentOf?_eq_some_iff, toList_lengths_read,
    currentHop_read, currentInfo_read, and_assoc]

/-- The segments with hops are as many as the lengths in front that are not zero. -/
theorem infoCount_read {k : Nat} (hk : k ≤ 3)
    (hfront : ∀ s < 3, 0 < b.segmentLengths.getD s 0 ↔ s < k)
    (hfault : (read b).lengths.fault? = none) : (read b).lengths.infoCount = k := by
  have hcount (s : Nat) (hs : s < 3) : s < (read b).lengths.infoCount ↔ s < k := by
    rw [SegmentLengths.lt_infoCount_iff hfault, toList_lengths_read]
    exact hfront s hs
  have hle : (read b).lengths.infoCount ≤ 3 := SegmentLengths.infoCount_le _
  -- two counts up to three that are above the same numbers are the same
  apply Nat.le_antisymm
  · exact Nat.le_of_not_lt fun h => Nat.lt_irrefl k ((hcount k (Nat.lt_of_lt_of_le h hle)).mp h)
  · exact Nat.le_of_not_lt fun h => Nat.lt_irrefl _ ((hcount _ (Nat.lt_of_lt_of_le h hk)).mpr h)

/-- A buffer holds a path exactly if it has a valid header and as many bytes as this header calls
for. -/
theorem holdsPath_iff {k n : Nat} :
    b.HoldsPath k n ↔ size ≤ b.length ∧ (read b).fault? = none ∧
      (read b).lengths.infoCount = k ∧ (read b).lengths.hopCount = n ∧
      (read b).lengths.pathBytes ≤ b.length := by
  rw [SegmentLengths.pathBytes_eq]
  constructor
  · intro h
    have hfault : (read b).fault? = none := fault?_read_eq_none_iff.mpr
      ⟨⟨k, h.segments_pos, h.segments_le, h.front⟩, h.total ▸ h.total_le, h.owner⟩
    -- the counts of the header are those that the format asks for
    have hcount := infoCount_read h.segments_le h.front (fault?_eq_none_iff.mp hfault).1
    have hhops : (read b).lengths.hopCount = n := (hopCount_read b).trans h.total
    refine ⟨h.header, hfault, hcount, hhops, ?_⟩
    rw [hcount, hhops]
    exact h.records
  · rintro ⟨hheader, hfault, rfl, rfl, hrecords⟩
    obtain ⟨⟨k, hpos, hk, hfront⟩, htotal, howner⟩ := fault?_read_eq_none_iff.mp hfault
    obtain ⟨i, hlocate⟩ := Runs.mem_span_iff.mp howner
    rw [infoCount_read hk hfront (fault?_eq_none_iff.mp hfault).1, hopCount_read] at hrecords ⊢
    exact
      { header := hheader
        segments_pos := hpos
        segments_le := hk
        front := hfront
        total := rfl
        total_le := htotal
        current_lt := Runs.lt_total_of_locate hlocate
        owner := howner
        records := hrecords }

/-! ## The answers of the parser -/

/-- A buffer that holds a path is parsed as its header, and no other buffer is. -/
theorem exists_parse_iff : (∃ h, parse b = .ok h) ↔ ∃ k n, b.HoldsPath k n := by
  constructor
  · rintro ⟨h, hparse⟩
    obtain ⟨hheader, rfl, hfault, hrecords⟩ := parse_eq_ok_iff.mp hparse
    rw [← read_eq_read_take hheader] at hfault hrecords
    exact ⟨_, _, holdsPath_iff.mpr ⟨hheader, hfault, rfl, rfl, hrecords⟩⟩
  · rintro ⟨k, n, h⟩
    obtain ⟨hheader, hfault, -, -, hrecords⟩ := holdsPath_iff.mp h
    have hread := read_eq_read_take hheader
    exact ⟨read b, parse_eq_ok_iff.mpr ⟨hheader, hread, hfault, hrecords⟩⟩

/-- No check of a header says that a buffer is too short. -/
theorem fault?_ne_tooShort (h : Header) (part : WirePart) (required actual : Nat) :
    h.fault? ≠ some (.tooShort part required actual) := by
  have hlengths : h.lengths.fault? ≠ some (.tooShort part required actual) := by
    rw [SegmentLengths.fault?]
    repeat' split
    all_goals simp
  have hposition : h.positionFault? ≠ some (.tooShort part required actual) := by
    rw [positionFault?]
    repeat' split
    all_goals simp
  rw [fault?, ne_eq, Option.or_eq_some_iff]
  rintro (hfault | ⟨-, hfault⟩)
  · exact hlengths hfault
  · exact hposition hfault

/-- A buffer is refused because it ends in the header, because the header is not valid, or because
it ends in the records. -/
theorem parse_eq_error_iff {fault : Malformed} :
    parse b = .error fault ↔
      (b.length < size ∧ fault = .tooShort .header size b.length) ∨
      (size ≤ b.length ∧ (read b).fault? = some fault) ∨
      (size ≤ b.length ∧ (read b).fault? = none ∧ b.length < (read b).lengths.pathBytes ∧
        fault = .tooShort .records (read b).lengths.pathBytes b.length) := by
  rw [parse]
  -- the cases are in the order in which the parser makes its checks
  rcases Nat.lt_or_ge b.length size with hshort | hheader
  · simp [hshort, Nat.not_le.mpr hshort, eq_comm]
  · rw [if_neg (Nat.not_lt.mpr hheader), ← read_eq_read_take hheader]
    dsimp only
    cases hfault : (read b).fault? with
    | some cause => simp [hheader, Nat.not_lt.mpr hheader]
    | none =>
      rcases Nat.lt_or_ge b.length (read b).lengths.pathBytes with hcut | hlong
      · simp [hheader, Nat.not_lt.mpr hheader, hcut, eq_comm]
      · simp [Nat.not_lt.mpr hheader, Nat.not_lt.mpr hlong]

/-- The bytes behind a header do not matter to it. -/
theorem read_append_of_le (hheader : size ≤ b.length) (x : Bytes) : read (b ++ x) = read b := by
  have hlong : size ≤ (b ++ x).length := List.length_append ▸ Nat.le_add_right_of_le hheader
  rw [read_eq_read_take hlong, List.take_append_of_le_length hheader, ← read_eq_read_take hheader]

/-- An invalid header stays invalid when bytes are added. -/
theorem parse_append_of_error {fault : Malformed} (hparse : parse b = .error fault)
    (hlong : ∀ part required actual, fault ≠ .tooShort part required actual) (x : Bytes) :
    parse (b ++ x) = .error fault := by
  rcases parse_eq_error_iff.mp hparse with ⟨-, rfl⟩ | ⟨hheader, hfault⟩ | ⟨-, -, -, rfl⟩
  · exact absurd rfl (hlong _ _ _)
  · -- the added bytes are behind the header, which is at fault
    refine parse_eq_error_iff.mpr (.inr (.inl ⟨?_, ?_⟩))
    · exact List.length_append ▸ Nat.le_add_right_of_le hheader
    · rw [read_append_of_le hheader]
      exact hfault
  · exact absurd rfl (hlong _ _ _)

/-- If only records are missing, the number of bytes that the fault names is all that a longer
buffer needs. -/
theorem exists_parse_append_iff {required actual : Nat}
    (hparse : parse b = .error (.tooShort .records required actual)) (x : Bytes) :
    (∃ h, parse (b ++ x) = .ok h) ↔ required ≤ (b ++ x).length := by
  rcases parse_eq_error_iff.mp hparse with ⟨-, hcause⟩ | ⟨-, hfault⟩ | ⟨hheader, hvalid, -, hcause⟩
  · simp at hcause
  · exact absurd hfault (fault?_ne_tooShort _ _ _ _)
  · obtain ⟨-, rfl, -⟩ := Malformed.tooShort.inj hcause
    have hread := read_append_of_le hheader x
    have hlong : size ≤ (b ++ x).length := List.length_append ▸ Nat.le_add_right_of_le hheader
    -- the longer buffer has the same valid header, and only its length is checked
    constructor
    · rintro ⟨h, hok⟩
      obtain ⟨-, rfl, -, hrecords⟩ := parse_eq_ok_iff.mp hok
      rw [← read_eq_read_take hlong, hread] at hrecords
      exact hrecords
    · intro hrecords
      refine ⟨_, parse_eq_ok_iff.mpr ⟨hlong, rfl, ?_, ?_⟩⟩
      · rw [← read_eq_read_take hlong, hread]
        exact hvalid
      · rw [← read_eq_read_take hlong, hread]
        exact hrecords

end Header

/-! ## Decoding -/

namespace Path

variable {b : Bytes}

theorem exists_decode_iff : (∃ p rest, decode b = .ok (p, rest)) ↔ ∃ h, Header.parse b = .ok h := by
  rw [decode, PathView.ofBytes]
  cases Header.parse b <;> simp

theorem decode_eq_error_iff_parse {fault : Malformed} :
    decode b = .error fault ↔ Header.parse b = .error fault := by
  rw [decode, PathView.ofBytes]
  cases Header.parse b <;> simp

/-- What decodes is the path that its bytes hold, and its bytes are all that it takes. -/
theorem holdsPath_of_decode {p : Path} {rest : Bytes} (h : decode b = .ok (p, rest)) :
    ∃ k n, b.HoldsPath k n ∧ rest = b.drop (4 + 8 * k + 12 * n) ∧
      decode (b.take (4 + 8 * k + 12 * n)) = .ok (p, []) := by
  obtain ⟨v, hok, rfl⟩ := decode_eq_ok_iff.mp h
  obtain ⟨rfl, hsound, hfault⟩ := PathView.ofBytes_eq_ok_iff.mp hok
  have hheader : Header.size ≤ v.bytes.length := hsound.size_le
  have hlength : v.bytes.length = 4 + 8 * v.infoCount + 12 * v.hopCount :=
    hsound.length_eq.trans (SegmentLengths.pathBytes_eq _)
  refine ⟨v.infoCount, v.hopCount, ?_, ?_, ?_⟩
  · -- the header is that of the view, as the view is long enough for one
    have hread : Header.read (v.bytes ++ rest) = v.header := Header.read_append_of_le hheader rest
    refine Header.holdsPath_iff.mpr ⟨?_, ?_, ?_, ?_, ?_⟩
    · exact List.length_append ▸ Nat.le_add_right_of_le hheader
    · exact hread ▸ hfault
    · exact hread ▸ rfl
    · exact hread ▸ rfl
    · rw [hread, List.length_append]
      exact Nat.le_add_right_of_le (Nat.le_of_eq hsound.length_eq.symm)
  · rw [← hlength, List.drop_left]
  · rw [← hlength, List.take_left]
    exact decode_eq_ok_iff.mpr
      ⟨v, PathView.ofBytes_eq_ok_iff.mpr ⟨(List.append_nil _).symm, hsound, hfault⟩, rfl⟩

theorem decode_append {p : Path} {rest : Bytes} (h : decode b = .ok (p, rest)) (x : Bytes) :
    decode (b ++ x) = .ok (p, rest ++ x) := by
  obtain ⟨v, hok, hpath⟩ := decode_eq_ok_iff.mp h
  obtain ⟨rfl, hsound, hfault⟩ := PathView.ofBytes_eq_ok_iff.mp hok
  exact decode_eq_ok_iff.mpr
    ⟨v, PathView.ofBytes_eq_ok_iff.mpr ⟨List.append_assoc .., hsound, hfault⟩, hpath⟩

/-- Decoding accepts the buffers that hold a path, and takes the bytes of the path.  More bytes
change neither a path nor an inconsistency, and they make a path of a buffer that is too short for
its records as soon as it has the required length. -/
theorem decode_exact (b : Bytes) :
    ((∃ p rest, decode b = .ok (p, rest)) ↔ ∃ k n, b.HoldsPath k n) ∧
    (∀ p rest, decode b = .ok (p, rest) →
      ∃ k n, b.HoldsPath k n ∧ rest = b.drop (4 + 8 * k + 12 * n) ∧
        decode (b.take (4 + 8 * k + 12 * n)) = .ok (p, [])) ∧
    ∀ x,
      (∀ p rest, decode b = .ok (p, rest) → decode (b ++ x) = .ok (p, rest ++ x)) ∧
      (∀ fault, decode b = .error fault →
        (∀ part required actual, fault ≠ .tooShort part required actual) →
        decode (b ++ x) = .error fault) ∧
      ∀ required actual, decode b = .error (.tooShort .records required actual) →
        ((∃ p rest, decode (b ++ x) = .ok (p, rest)) ↔ required ≤ (b ++ x).length) := by
  refine ⟨exists_decode_iff.trans Header.exists_parse_iff, fun _ _ => holdsPath_of_decode, ?_⟩
  intro x
  refine ⟨fun p rest h => decode_append h x, ?_, ?_⟩
  · intro fault herror hlong
    have hparse := decode_eq_error_iff_parse.mp herror
    exact decode_eq_error_iff_parse.mpr (Header.parse_append_of_error hparse hlong x)
  · intro required actual herror
    have hparse := decode_eq_error_iff_parse.mp herror
    exact exists_decode_iff.trans (Header.exists_parse_append_iff hparse x)

/-- The header of a path of one hop, without the info field and the hop field. -/
example : decode [0, 0, 0x10, 0] = .error (.tooShort .records 24 4) := by decide

end Path

end SourceRoute
