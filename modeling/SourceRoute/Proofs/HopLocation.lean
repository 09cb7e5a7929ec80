import Mathlib.Algebra.Ring.Nat
import SourceRoute.Proofs.CheckedHeader

/-!
# Where hops lie

An owned path looks for a hop in its segments, however many there are, and a header in its three
lengths.  Both searches add up the lengths of the segments that they have passed.  They find the
segment whose hops begin at or before the index and end behind it, and pass over segments without
hops.  So the place of a hop can be told from the lengths of the segments before it, and the header
of a path names the same segment for every hop.
-/

namespace SourceRoute

namespace Runs

theorem total_eq_sum (ns : List Nat) : total ns = ns.sum := by
  induction ns with
  | nil => rfl
  | cons n ns ih => rw [total_cons, List.sum_cons, ih]

/-- The search for position `i` from run `r` on, where all runs before it end at `start`. -/
def searchFrom (i r start : Nat) : List Nat → Option (Nat × Nat)
  | [] => none
  | n :: ns =>
    if i < start + n then some (r, i - start) else searchFrom i (r + 1) (start + n) ns

/-- A search that adds up the runs that it has passed finds what `locate` finds in those ahead. -/
theorem searchFrom_eq {i start : Nat} (hstart : start ≤ i) (r : Nat) (ns : List Nat) :
    searchFrom i r start ns = (locate ns (i - start)).map fun found => (r + found.1, found.2) := by
  induction ns generalizing r start with
  | nil => rfl
  | cons n ns ih =>
    rw [searchFrom, locate]
    -- behind the first run the search goes on with what is left of the position
    by_cases hhere : i < start + n
    · rw [if_pos hhere, if_pos (by omega), Option.map_some, Nat.add_zero]
    · rw [if_neg hhere, if_neg (by omega), ih (Nat.le_of_not_lt hhere), Nat.sub_sub,
        Option.map_map]
      refine congrArg (Option.map · _) (funext fun found => ?_)
      rw [Function.comp_apply, Nat.add_assoc, Nat.add_comm 1]

theorem searchFrom_zero (i : Nat) (ns : List Nat) : searchFrom i 0 0 ns = locate ns i := by
  rw [searchFrom_eq (Nat.zero_le i), Nat.sub_zero]
  simp only [Nat.zero_add, Prod.eta, Option.map_id_fun', id]

end Runs

namespace SegmentLengths

/-- The spans of the segments follow each other without a gap, and together they name every hop once
and in order. -/
theorem segmentSpans_tile (l : SegmentLengths) :
    (l.segmentSpan 0).start = 0 ∧ (∀ s, (l.segmentSpan (s + 1)).start = (l.segmentSpan s).stop) ∧
      (l.segmentSpan 2).stop = l.hopCount ∧
      (List.range maxSegments).flatMap (fun s => (l.segmentSpan s).toList) =
        List.range l.hopCount := by
  have hall : l.toList.take maxSegments = l.toList := rfl
  refine ⟨rfl, Runs.start_span_succ l.toList, ?_, ?_⟩
  · -- the last span ends where a further one would start
    have hnext : (l.segmentSpan 3).start = l.hopCount := congrArg Runs.total hall
    rw [← hnext]
    exact (Runs.start_span_succ l.toList 2).symm
  · have htile := Runs.flatMap_toList_span l.toList maxSegments
    rw [hall] at htile
    exact htile

end SegmentLengths

namespace Path

variable {p : Path} {h : Header} {i s k : Nat}

/-- A hop is located where its segment begins and as many hops further on as it lies inside. -/
theorem locate?_eq_some_iff : p.locate? i = some (s, k) ↔
    ∃ segment, p.segments[s]? = some segment ∧ k < segment.size ∧
      i = ((p.segments.take s).map Segment.size).sum + k := by
  have hsize : p.sizes.getD s 0 = (p.segments[s]?.map Segment.size).getD 0 := by
    rw [sizes, List.getD_eq_getElem?_getD, List.getElem?_map]
  rw [locate?, Runs.locate_eq_some_iff, Runs.total_eq_sum, hsize, sizes, List.map_take]
  -- a segment that is not there counts as one without hops
  cases hsegment : p.segments[s]? with
  | none => simp
  | some segment => simp

/-- The header that is checked finds the segment of a hop, and the start of its span tells the place
inside. -/
theorem locate?_of_checkedHeader (hchecked : p.checkedHeader = .ok h) (i : Nat) :
    p.locate? i = (h.lengths.segmentOf? i).map fun s =>
      (s, i - (h.lengths.segmentSpan s).start) := by
  obtain ⟨hcount, hle, rfl, -⟩ := checkedHeader_eq_ok_iff.mp hchecked
  -- empty segments at the end are zeros in the header, which no search stops at
  have hd : p.header.lengths.Describes p.sizes := lengths_describes (by rwa [length_sizes]) hle
  rw [hd.segmentOf?_eq, Option.map_map, locate?]
  cases hlocate : Runs.locate p.sizes i with
  | none => rfl
  | some found =>
    obtain ⟨s, k⟩ := found
    have hi := (Runs.locate_eq_some_iff.mp hlocate).2
    have hplace : i - Runs.total (p.sizes.take s) = k := by omega
    simp only [Option.map_some, Function.comp_apply, hd.segmentSpan_eq, Runs.start_span, hplace]

end Path

/-- Hops are located alike everywhere.  In a path of any number of segments, empty ones included,
hop `i` is hop `k` of segment `s` exactly if that segment has more than `k` hops and those before it
have `i - k`; past the last hop nothing is found; and the hop field found is the one in the list of
all hop fields.  A search with a running sum finds the same, in a path as in a header.  For any
lengths of a header the spans of the segments tile the hops, and a hop belongs to the segment in
whose span it lies.  If the header of the path is checked, it names for every index the segment in
which the path locates the hop. -/
theorem hop_located_alike (p : Path) :
    (∀ i s k, p.locate? i = some (s, k) ↔
      ∃ segment, p.segments[s]? = some segment ∧ k < segment.size ∧
        i = ((p.segments.take s).map Segment.size).sum + k) ∧
    (∀ i, p.locate? i = none ↔ p.hopCount ≤ i) ∧
    (∀ i, p.locate? i = Runs.searchFrom i 0 0 p.sizes) ∧
    (∀ i, p.hop? i = p.hops[i]?) ∧
    (∀ l : SegmentLengths,
      (l.segmentSpan 0).start = 0 ∧ (∀ s, (l.segmentSpan (s + 1)).start = (l.segmentSpan s).stop) ∧
      (l.segmentSpan 2).stop = l.hopCount ∧
      (List.range maxSegments).flatMap (fun s => (l.segmentSpan s).toList) =
        List.range l.hopCount ∧
      (∀ i, l.segmentOf? i = (Runs.searchFrom i 0 0 l.toList).map Prod.fst) ∧
      ∀ i s, l.segmentOf? i = some s ↔ i ∈ l.segmentSpan s) ∧
    ∀ h, p.checkedHeader = .ok h → ∀ i,
      p.locate? i = (h.lengths.segmentOf? i).map fun s =>
        (s, i - (h.lengths.segmentSpan s).start) := by
  refine ⟨fun _ _ _ => Path.locate?_eq_some_iff, fun _ => Runs.locate_eq_none_iff,
    fun i => (Runs.searchFrom_zero i p.sizes).symm, Path.hop?_eq_getElem? p, ?_,
    fun _ => Path.locate?_of_checkedHeader⟩
  intro l
  obtain ⟨hfirst, hnext, hlast, hall⟩ := l.segmentSpans_tile
  refine ⟨hfirst, hnext, hlast, hall, ?_, fun _ _ => SegmentLengths.segmentOf?_eq_some_iff⟩
  intro i
  rw [Runs.searchFrom_zero, SegmentLengths.segmentOf?]

end SourceRoute
