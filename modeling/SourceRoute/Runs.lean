import SourceRoute.Span

/-!
# Consecutive runs

A sequence that is cut into runs is described by the list of its run lengths.  `locate` finds the
run that holds a position, and `span` names the positions of a run.  Runs may be empty; an empty
run holds no position.
-/

namespace SourceRoute.Runs

/-- The run that holds position `i`, with the place of `i` inside that run. -/
def locate : List Nat → Nat → Option (Nat × Nat)
  | [], _ => none
  | n :: ns, i =>
    if i < n then some (0, i) else (locate ns (i - n)).map fun found => (found.1 + 1, found.2)

/-- The number of positions of all runs. -/
def total : List Nat → Nat
  | [] => 0
  | n :: ns => n + total ns

/-- The positions of run `r`.  Past the last run this is the empty span at the end. -/
def span (lengths : List Nat) (r : Nat) : Span :=
  Span.ofSize (total (lengths.take r)) (lengths.getD r 0)

/-- A position is found exactly when it lies before the end of the last run. -/
theorem isSome_locate {lengths : List Nat} {i : Nat} :
    (locate lengths i).isSome ↔ i < total lengths := by
  induction lengths generalizing i with
  | nil => simp [locate, total]
  | cons n ns ih =>
    by_cases h : i < n
    · simp only [locate, h, if_true, Option.isSome_some, total, true_iff]
      omega
    · simp only [locate, h, if_false, Option.isSome_map, ih, total]
      omega

end SourceRoute.Runs
