import Mathlib.Data.List.GetD
import SourceRoute.Runs

/-!
# Laws of consecutive runs

Locating a position, naming the positions of a run and cutting a list into its runs are three views
of one thing.  The central statement is `locate_eq_some_iff`: a position lies in a run exactly if it
is the start of the run plus a place inside it.  Mirrored runs hold mirrored positions.
-/

namespace SourceRoute.Runs

variable {α β : Type}

/-! ## Totals -/

@[simp] theorem total_nil : total [] = 0 := rfl

@[simp] theorem total_cons (n : Nat) (ns : List Nat) : total (n :: ns) = n + total ns := rfl

@[simp] theorem total_append (ms ns : List Nat) : total (ms ++ ns) = total ms + total ns := by
  induction ms with
  | nil => simp
  | cons m ms ih =>
    rw [List.cons_append, total_cons, total_cons, ih]
    omega

@[simp] theorem total_reverse (ns : List Nat) : total ns.reverse = total ns := by
  induction ns with
  | nil => rfl
  | cons n ns ih =>
    rw [List.reverse_cons, total_append, ih, total_cons, total_cons, total_nil]
    omega

@[simp] theorem total_replicate_zero (n : Nat) : total (List.replicate n 0) = 0 := by
  induction n with
  | zero => rfl
  | succ n ih => rw [List.replicate_succ, total_cons, ih]

/-- The runs before a run, the run itself, and the runs behind it make up the whole. -/
theorem total_eq_add {ns : List Nat} {s : Nat} (hs : s < ns.length) :
    total ns = total (ns.take s) + ns[s] + total (ns.drop (s + 1)) := by
  have hsplit : ns = ns.take s ++ ns[s] :: ns.drop (s + 1) := by simp
  have htotal := congrArg total hsplit
  rw [total_append, total_cons] at htotal
  omega

theorem total_take_succ (ns : List Nat) (s : Nat) :
    total (ns.take (s + 1)) = total (ns.take s) + ns.getD s 0 := by
  induction ns generalizing s with
  | nil => simp
  | cons n ns ih =>
    cases s with
    | zero => simp
    | succ s =>
      show n + total (ns.take (s + 1)) = n + total (ns.take s) + ns.getD s 0
      rw [ih, Nat.add_assoc]

theorem total_take_le {ns : List Nat} {s t : Nat} (h : s ≤ t) : total (ns.take s) ≤ total (ns.take t) := by
  induction h with
  | refl => exact Nat.le_refl _
  | step _ ih =>
    apply Nat.le_trans ih
    rw [total_take_succ]
    exact Nat.le_add_right _ _

theorem total_pos {ns : List Nat} (hne : ns ≠ []) (hpos : ∀ n ∈ ns, 0 < n) : 0 < total ns := by
  cases ns with
  | nil => exact absurd rfl hne
  | cons n ns =>
    have hn := hpos n List.mem_cons_self
    rw [total_cons]
    omega

/-- A bound of the runs also holds for those that are not there. -/
theorem getD_le {ns : List Nat} {m : Nat} (hle : ∀ n ∈ ns, n ≤ m) (s : Nat) : ns.getD s 0 ≤ m := by
  rcases Nat.lt_or_ge s ns.length with hs | hs
  · rw [List.getD_eq_getElem _ _ hs]
    exact hle _ (List.getElem_mem hs)
  · rw [List.getD_eq_default _ _ hs]
    exact Nat.zero_le m

/-! ## Locating -/

/-- A position lies in a run if it is the start of the run plus a place inside the run. -/
theorem locate_eq_some_iff {ns : List Nat} {i s k : Nat} :
    locate ns i = some (s, k) ↔ k < ns.getD s 0 ∧ i = total (ns.take s) + k := by
  -- each run behind the first shifts the position by the run that was left behind
  induction ns generalizing i s with
  | nil => simp [locate]
  | cons n ns ih =>
    -- the position is in the first run, or in one that the recursion finds
    by_cases hi : i < n
    · cases s with
      | zero =>
        simp only [locate, hi, if_true, List.getD_cons_zero, List.take_zero, total_nil,
          Option.some.injEq, Prod.mk.injEq, true_and]
        omega
      | succ s =>
        simp only [locate, hi, if_true, List.take_succ_cons, total_cons, Option.some.injEq,
          Prod.mk.injEq]
        omega
    · cases s with
      | zero =>
        simp only [locate, hi, if_false, Option.map_eq_some_iff, Prod.mk.injEq,
          List.getD_cons_zero, List.take_zero, total_nil]
        constructor
        · rintro ⟨found, -, hfound, -⟩
          omega
        · rintro ⟨hk, hik⟩
          omega
      | succ s =>
        have hshift : locate (n :: ns) i = some (s + 1, k) ↔ locate ns (i - n) = some (s, k) := by
          simp only [locate, hi, if_false, Option.map_eq_some_iff, Prod.mk.injEq]
          constructor
          · rintro ⟨⟨s', k'⟩, hfound, hs, hk⟩
            simp only at hs hk
            obtain rfl : s' = s := by omega
            exact hk ▸ hfound
          · intro hfound
            exact ⟨(s, k), hfound, rfl, rfl⟩
        rw [hshift, ih, List.getD_cons_succ, List.take_succ_cons, total_cons]
        omega

theorem locate_eq_none_iff {ns : List Nat} {i : Nat} : locate ns i = none ↔ total ns ≤ i := by
  have hsome : (locate ns i).isSome ↔ i < total ns := isSome_locate
  rw [← Option.not_isSome_iff_eq_none, hsome]
  omega

theorem exists_locate {ns : List Nat} {i : Nat} (hi : i < total ns) :
    ∃ s k, locate ns i = some (s, k) := by
  obtain ⟨⟨s, k⟩, hfound⟩ := Option.isSome_iff_exists.mp (isSome_locate.mpr hi)
  exact ⟨s, k, hfound⟩

theorem lt_total_of_locate {ns : List Nat} {i s k : Nat} (h : locate ns i = some (s, k)) :
    i < total ns :=
  isSome_locate.mp (by simp [h])

theorem lt_length_of_locate {ns : List Nat} {i s k : Nat} (h : locate ns i = some (s, k)) :
    s < ns.length := by
  have hk := (locate_eq_some_iff.mp h).1
  rcases Nat.lt_or_ge s ns.length with hs | hs
  · exact hs
  · rw [List.getD_eq_default _ _ hs] at hk
    omega

theorem locate_zero {ns : List Nat} (hne : ns ≠ []) (hpos : ∀ n ∈ ns, 0 < n) :
    locate ns 0 = some (0, 0) := by
  cases ns with
  | nil => exact absurd rfl hne
  | cons n ns => simp [locate, hpos n List.mem_cons_self]

/-- Runs without positions at the end do not matter. -/
@[simp] theorem locate_append_replicate_zero (ns : List Nat) (m i : Nat) :
    locate (ns ++ List.replicate m 0) i = locate ns i := by
  induction ns generalizing i with
  | nil =>
    have hnone : locate (List.replicate m 0) i = none := locate_eq_none_iff.mpr (by simp)
    simpa [locate] using hnone
  | cons n ns ih => simp only [List.cons_append, locate, ih]

/-- In mirrored runs, mirrored positions lie in mirrored runs. -/
theorem locate_reverse {ns : List Nat} {i s k : Nat} (h : locate ns i = some (s, k)) :
    locate ns.reverse (total ns - 1 - i) = some (ns.length - 1 - s, ns.getD s 0 - 1 - k) := by
  have hs := lt_length_of_locate h
  obtain ⟨hk, hi⟩ := locate_eq_some_iff.mp h
  rw [List.getD_eq_getElem _ _ hs] at hk ⊢
  have hsplit := total_eq_add hs
  have hget : ns.reverse.getD (ns.length - 1 - s) 0 = ns[s] := by
    rw [List.getD_eq_getElem _ _ (by rw [List.length_reverse]; omega), List.getElem_reverse]
    congr 1
    omega
  -- the runs before the mirrored run are those behind the run itself
  have htake : total (ns.reverse.take (ns.length - 1 - s)) = total (ns.drop (s + 1)) := by
    have hdrop : ns.length - (ns.length - 1 - s) = s + 1 := by omega
    rw [List.take_reverse, total_reverse, hdrop]
  rw [locate_eq_some_iff, hget, htake]
  omega

/-! ## Spans -/

@[simp] theorem start_span (ns : List Nat) (s : Nat) : (span ns s).start = total (ns.take s) := rfl

@[simp] theorem stop_span (ns : List Nat) (s : Nat) :
    (span ns s).stop = total (ns.take s) + ns.getD s 0 := rfl

/-- Each run begins where the one before it ends. -/
theorem start_span_succ (ns : List Nat) (s : Nat) : (span ns (s + 1)).start = (span ns s).stop :=
  total_take_succ ns s

/-- The spans of the first runs, one behind the other, name every position up to their end once and
in order. -/
theorem flatMap_toList_span (ns : List Nat) (m : Nat) :
    (List.range m).flatMap (fun s => (span ns s).toList) = List.range (total (ns.take m)) := by
  induction m with
  | zero => rfl
  | succ m ih =>
    have hlast : (span ns m).toList = List.range' (total (ns.take m)) (ns.getD m 0) := by
      rw [Span.toList, span, Span.size_ofSize]
      rfl
    have happend : List.range' 0 (total (ns.take m)) ++
        List.range' (total (ns.take m)) (ns.getD m 0) =
          List.range' 0 (total (ns.take m) + ns.getD m 0) := by
      rw [← List.range'_append_1, Nat.zero_add]
    rw [List.range_succ, List.flatMap_append, ih, List.flatMap_singleton, hlast, total_take_succ,
      List.range_eq_range', List.range_eq_range', happend]

theorem mem_span_iff {ns : List Nat} {i s : Nat} : i ∈ span ns s ↔ ∃ k, locate ns i = some (s, k) := by
  simp only [locate_eq_some_iff, Span.mem_iff, start_span, stop_span]
  constructor
  · rintro ⟨hstart, hstop⟩
    exact ⟨i - total (ns.take s), by omega, by omega⟩
  · rintro ⟨k, hk, hi⟩
    omega

/-- A run among runs without positions at the end is as empty as one that is not there. -/
@[simp] theorem getD_append_replicate_zero (ns : List Nat) (m s : Nat) :
    (ns ++ List.replicate m 0).getD s 0 = ns.getD s 0 := by
  rcases Nat.lt_or_ge s ns.length with hs | hs
  · rw [List.getD_append _ _ _ _ hs]
  · rw [List.getD_append_right _ _ _ _ hs, List.getD_eq_default _ _ hs,
      List.getD_eq_getElem?_getD, List.getElem?_getD_replicate_default_eq]

/-- Runs without positions at the end do not move the others. -/
@[simp] theorem span_append_replicate_zero (ns : List Nat) (m s : Nat) :
    span (ns ++ List.replicate m 0) s = span ns s := by
  have htake : total ((ns ++ List.replicate m 0).take s) = total (ns.take s) := by
    rw [List.take_append, List.take_replicate, total_append, total_replicate_zero, Nat.add_zero]
  rw [span, span, htake, getD_append_replicate_zero]

/-! ## Cutting lists -/

/-- The pieces of a list that lie in the runs. -/
def cut : List Nat → List α → List (List α)
  | [], _ => []
  | n :: ns, l => l.take n :: cut ns (l.drop n)

@[simp] theorem length_cut (ns : List Nat) (l : List α) : (cut ns l).length = ns.length := by
  induction ns generalizing l with
  | nil => rfl
  | cons n ns ih => simp [cut, ih]

theorem map_length_cut {ns : List Nat} {l : List α} (h : total ns ≤ l.length) :
    (cut ns l).map List.length = ns := by
  induction ns generalizing l with
  | nil => rfl
  | cons n ns ih =>
    rw [total_cons] at h
    rw [cut, List.map_cons, List.length_take, ih (by rw [List.length_drop]; omega)]
    congr 1
    omega

theorem flatten_cut {ns : List Nat} {l : List α} (h : total ns = l.length) :
    (cut ns l).flatten = l := by
  induction ns generalizing l with
  | nil =>
    have hnil : l = [] := List.eq_nil_of_length_eq_zero h.symm
    simp [cut, hnil]
  | cons n ns ih =>
    rw [total_cons] at h
    rw [cut, List.flatten_cons, ih (by rw [List.length_drop]; omega), List.take_append_drop]

/-- Pieces that are put together are cut apart again. -/
theorem cut_flatten (pieces : List (List α)) :
    cut (pieces.map List.length) pieces.flatten = pieces := by
  induction pieces with
  | nil => rfl
  | cons piece pieces ih => simp [cut, ih]

theorem getElem?_cut {ns : List Nat} {s : Nat} (hs : s < ns.length) (l : List α) :
    (cut ns l)[s]? = some ((l.drop (span ns s).start).take (span ns s).size) := by
  induction ns generalizing s l with
  | nil => simp at hs
  | cons n ns ih =>
    cases s with
    | zero => simp [cut, span, Span.ofSize, Span.size]
    | succ s =>
      rw [cut, List.getElem?_cons_succ, ih (by simpa using hs), List.drop_drop]
      simp [span, Span.ofSize, Span.size, List.getD_eq_getElem?_getD]

/-- A position of the list that the pieces make up lies in the piece that it is located in. -/
theorem getElem?_flatMap (f : β → List α) (l : List β) (i : Nat) :
    (l.flatMap f)[i]? =
      (locate (l.map fun b => (f b).length) i).bind fun found =>
        l[found.1]?.bind fun b => (f b)[found.2]? := by
  induction l generalizing i with
  | nil => simp [locate]
  | cons b l ih =>
    rw [List.flatMap_cons, List.map_cons, locate]
    -- a position past the first piece is counted from the next one on
    by_cases hi : i < (f b).length
    · rw [List.getElem?_append_left hi, if_pos hi]
      simp
    · rw [List.getElem?_append_right (by omega), if_neg hi, ih, Option.bind_map]
      rfl

end SourceRoute.Runs
