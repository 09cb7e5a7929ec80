/-!
# Half-open spans

Positions inside a sequence are handed around as half-open spans: the byte span of a record, the
hop positions of a segment.  A span whose end is not past its start holds no position.
-/

namespace SourceRoute

/-- The positions from `start` up to, but not including, `stop`. -/
structure Span where
  start : Nat
  stop : Nat
deriving DecidableEq

namespace Span

/-- The span of `size` positions that begins at `start`. -/
def ofSize (start size : Nat) : Span := ⟨start, start + size⟩

/-- How many positions the span holds. -/
def size (s : Span) : Nat := s.stop - s.start

instance : Membership Nat Span := ⟨fun s i => s.start ≤ i ∧ i < s.stop⟩

instance (i : Nat) (s : Span) : Decidable (i ∈ s) :=
  inferInstanceAs (Decidable (s.start ≤ i ∧ i < s.stop))

/-- The positions of the span, in increasing order. -/
def toList (s : Span) : List Nat := List.range' s.start s.size

/-- The same positions, `offset` further on. -/
def shift (s : Span) (offset : Nat) : Span := ⟨s.start + offset, s.stop + offset⟩

theorem mem_iff {i : Nat} {s : Span} : i ∈ s ↔ s.start ≤ i ∧ i < s.stop := Iff.rfl

@[simp] theorem size_ofSize (start size : Nat) : (ofSize start size).size = size := by
  simp [ofSize, Span.size]

@[simp] theorem length_toList (s : Span) : s.toList.length = s.size := by
  simp [toList]

theorem mem_toList {i : Nat} {s : Span} : i ∈ s.toList ↔ i ∈ s := by
  simp only [toList, List.mem_range'_1, mem_iff, size]
  omega

end Span

end SourceRoute
