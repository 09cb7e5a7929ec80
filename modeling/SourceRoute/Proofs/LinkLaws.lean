import SourceRoute.Link
import SourceRoute.Proofs.CurrentLaws

/-!
# Laws of links

The links of a path join consecutive hops.  `crossings` names the boundaries that they should cross:
all inside a segment, and those in front of a segment with the peering flag.  A walk finds them by
marks on the first hops of the other segments, but it reads two hops at a marked one and does not
look at the mark of the second.  So a mark counts only if the mark before it does not, and the walk
yields the crossings exactly if no two consecutive hops are marked.  Only a segment of a single hop
can bring this about.
-/

namespace SourceRoute

/-! ## Links between consecutive hops -/

namespace Link

/-- The link from hop `j` of a list to the next one. -/
def behind? (hops : List HopField) (j : Nat) : Option Link :=
  match hops[j]?, hops[j + 1]? with
  | some earlier, some later => some ⟨earlier.egress, later.ingress⟩
  | _, _ => none

/-- The links between consecutive hops of a list, behind those hops where a link is kept. -/
def ofHops (kept : Nat → Bool) (hops : List HopField) : List Link :=
  ((List.range (hops.length - 1)).filter kept).filterMap (behind? hops)

section

variable {kept kept' : Nat → Bool} {hops : List HopField} {j : Nat}

theorem isSome_behind? (hj : j + 1 < hops.length) : (behind? hops j).isSome = true := by
  unfold behind?
  rw [List.getElem?_eq_getElem (Nat.lt_of_succ_lt hj), List.getElem?_eq_getElem hj]
  rfl

theorem mem_range_iff : j ∈ List.range (hops.length - 1) ↔ j + 1 < hops.length := by
  rw [List.mem_range]
  omega

theorem ofHops_congr (h : ∀ j, j + 1 < hops.length → kept j = kept' j) :
    ofHops kept hops = ofHops kept' hops := by
  have hfilter : (List.range (hops.length - 1)).filter kept =
      (List.range (hops.length - 1)).filter kept' := by
    apply List.filter_congr
    intro j hj
    exact h j (mem_range_iff.mp hj)
  rw [ofHops, ofHops, hfilter]

@[simp] theorem ofHops_nil : ofHops kept [] = [] := rfl

@[simp] theorem ofHops_singleton (hop : HopField) : ofHops kept [hop] = [] := rfl

/-- The link behind the first hop comes first, and the others are those of the hops behind it. -/
theorem ofHops_cons_cons (first second : HopField) (rest : List HopField) :
    ofHops kept (first :: second :: rest) =
      (if kept 0 then [⟨first.egress, second.ingress⟩] else []) ++
        ofHops (fun j => kept (j + 1)) (second :: rest) := by
  -- behind the first hop, the places are those of the rest moved by one
  have hrest : (((List.range rest.length).map Nat.succ).filter kept).filterMap
      (behind? (first :: second :: rest)) = ofHops (fun j => kept (j + 1)) (second :: rest) := by
    rw [List.filter_map, List.filterMap_map]
    rfl
  have hcount : (first :: second :: rest).length - 1 = rest.length + 1 := rfl
  rw [ofHops, hcount, List.range_succ_eq_map, List.filter_cons]
  cases kept 0 with
  | true =>
    rw [if_pos rfl, List.filterMap_cons, hrest]
    rfl
  | false =>
    rw [if_neg Bool.false_ne_true, hrest]
    rfl

theorem length_ofHops (kept : Nat → Bool) (hops : List HopField) :
    (ofHops kept hops).length = (List.range (hops.length - 1)).countP kept := by
  rw [ofHops, List.length_filterMap_eq_countP, List.countP_filter]
  apply List.countP_congr
  intro j hj
  simp [isSome_behind? (mem_range_iff.mp hj)]

/-- Keeping more links gives another list. -/
theorem ofHops_eq_iff (hle : ∀ j, kept j = true → kept' j = true) :
    ofHops kept hops = ofHops kept' hops ↔ ∀ j, j + 1 < hops.length → kept j = kept' j := by
  constructor
  · intro heq j hj
    -- as many are kept, so every link that the second list keeps is kept by the first one
    have hcount := congrArg List.length heq
    rw [length_ofHops, length_ofHops] at hcount
    have hall : ((List.range (hops.length - 1)).filter kept').countP kept =
        ((List.range (hops.length - 1)).filter kept').length := by
      rw [List.countP_filter, ← List.countP_eq_length_filter, ← hcount]
      apply List.countP_congr
      intro i _
      simpa using hle i
    have hkept : kept' j = true → kept j = true := fun hj' =>
      List.countP_eq_length.mp hall j (List.mem_filter.mpr ⟨mem_range_iff.mpr hj, hj'⟩)
    exact Bool.eq_iff_iff.mpr ⟨hle j, hkept⟩
  · exact ofHops_congr

end

end Link

/-! ## Marks -/

namespace LinkWalk

private theorem getLsbD_one_shiftLeft (position i : Nat) :
    (1#64 <<< position).getLsbD i = (decide (i < 64) && decide (i = position)) := by
  rw [BitVec.getLsbD_shiftLeft, BitVec.getLsbD_one]
  grind

private theorem getLsbD_foldl_mark (positions : List Nat) (marks : BitVec 64) (i : Nat) :
    (positions.foldl (fun marks position => marks ||| (1#64 <<< position)) marks).getLsbD i =
      (marks.getLsbD i || (decide (i < 64) && decide (i ∈ positions))) := by
  induction positions generalizing marks with
  | nil => simp
  | cons position positions ih =>
    rw [List.foldl_cons, ih, BitVec.getLsbD_or, getLsbD_one_shiftLeft]
    grind

/-- A hop is marked exactly if its index is among the positions and fits the word. -/
theorem getLsbD_mark {positions : List Nat} {i : Nat} :
    (mark positions).getLsbD i = true ↔ i < 64 ∧ i ∈ positions := by
  rw [mark, getLsbD_foldl_mark]
  simp

/-! ## One step -/

section

variable {w after : LinkWalk} {link : Link}

theorem toList_of_next (h : w.next = (some link, after)) : w.toList = link :: after.toList := by
  rw [toList]
  split
  next link' after' h' =>
    obtain ⟨hlink, rfl⟩ := Prod.mk.inj (h'.symm.trans h)
    obtain rfl := Option.some.inj hlink
    rfl
  next after' h' => exact absurd (Prod.mk.inj (h'.symm.trans h)).1 (by simp)

theorem toList_of_next_none (h : w.next.1 = none) : w.toList = [] := by
  rw [toList]
  split
  next link' after' h' =>
    rw [h'] at h
    exact absurd h (by simp)
  next => rfl

end

section

variable {marks : BitVec 64} {index : Nat} (egress : UInt16) (first second : HopField)
  (rest : List HopField)

theorem toList_nil : (LinkWalk.mk marks index egress []).toList = [] := by
  apply toList_of_next_none
  unfold next
  cases marks.getLsbD index <;> rfl

/-- At a hop that is not marked the link joins the hop before to it. -/
theorem toList_of_unmarked (h : marks.getLsbD index = false) :
    (LinkWalk.mk marks index egress (first :: rest)).toList =
      ⟨egress, first.ingress⟩ :: (LinkWalk.mk marks (index + 1) first.egress rest).toList := by
  apply toList_of_next
  unfold next
  rw [h]

/-- At a marked hop the link joins it to the hop behind it. -/
theorem toList_of_marked (h : marks.getLsbD index = true) :
    (LinkWalk.mk marks index egress (first :: second :: rest)).toList =
      ⟨first.egress, second.ingress⟩ ::
        (LinkWalk.mk marks (index + 2) second.egress rest).toList := by
  apply toList_of_next
  unfold next
  rw [h]

theorem toList_of_marked_last (h : marks.getLsbD index = true) :
    (LinkWalk.mk marks index egress [first]).toList = [] := by
  apply toList_of_next_none
  unfold next
  rw [h]

end

/-! ## Marks that count -/

/-- Whether a mark counts.  The mark behind one that counts is not looked at, as the walk reads both
hops at once. -/
def counts (marked : Nat → Bool) : Nat → Bool
  | 0 => marked 0
  | i + 1 => marked (i + 1) && !counts marked i

section

variable {marked : Nat → Bool} {i : Nat}

theorem marked_of_counts (h : counts marked i = true) : marked i = true := by
  cases i with
  | zero => exact h
  | succ i => exact (Bool.and_eq_true_iff.mp h).1

/-- All marks up to a hop count exactly if no two of them are next to each other. -/
theorem counts_eq_iff {n : Nat} : (∀ i, i < n → counts marked i = marked i) ↔
    ∀ i, i + 1 < n → ¬(marked i = true ∧ marked (i + 1) = true) := by
  constructor
  · -- the mark behind one that counts would not count
    rintro h i hi ⟨hmark, hnext⟩
    have hcounts := h (i + 1) hi
    rw [counts, h i (Nat.lt_of_succ_lt hi), hmark, hnext] at hcounts
    exact absurd hcounts (by decide)
  · intro h i hi
    induction i with
    | zero => rfl
    | succ i ih =>
      have hbefore := ih (Nat.lt_of_succ_lt hi)
      rw [counts, hbefore]
      cases hmark : marked i with
      | false => simp
      | true =>
        have hnext : marked (i + 1) = false := by
          simpa [hmark] using h i hi
        rw [hnext]
        rfl

end

section

variable {marks : BitVec 64} {i : Nat}

/-- What a walk yields behind a hop whose mark does not count: every link but those in front of
hops whose marks count. -/
theorem toList_behind (hop : HopField) (rest : List HopField)
    (hhop : counts marks.getLsbD i = false) :
    (LinkWalk.mk marks (i + 1) hop.egress rest).toList =
      Link.ofHops (fun j => !counts marks.getLsbD (i + 1 + j)) (hop :: rest) := by
  -- at a marked hop the walk takes two hops, so the induction is on the number of hops left
  induction hn : rest.length using Nat.strongRecOn generalizing i hop rest with
  | ind n ih =>
    subst hn
    have hshift (k : Nat) : (fun j => !counts marks.getLsbD (k + (j + 1))) =
        fun j => !counts marks.getLsbD (k + 1 + j) := by
      funext j
      rw [Nat.add_right_comm, Nat.add_assoc]
    cases rest with
    | nil => rw [toList_nil, Link.ofHops_singleton]
    | cons first rest =>
      rw [Link.ofHops_cons_cons, Nat.add_zero, hshift]
      cases hmark : marks.getLsbD (i + 1) with
      | false =>
        have hfirst : counts marks.getLsbD (i + 1) = false := by rw [counts, hmark, Bool.false_and]
        -- the walk takes one hop, and its mark does not count
        rw [toList_of_unmarked _ _ _ hmark, ih _ (Nat.lt_succ_self _) first rest hfirst rfl, hfirst]
        rfl
      | true =>
        have hfirst : counts marks.getLsbD (i + 1) = true := by rw [counts, hmark, hhop]; rfl
        rw [hfirst]
        cases rest with
        | nil => rw [toList_of_marked_last _ _ hmark, Link.ofHops_singleton]; rfl
        | cons second rest =>
          have hsecond : counts marks.getLsbD (i + 2) = false := by
            rw [counts, hfirst, Bool.not_true, Bool.and_false]
          -- the walk takes two hops, so whether the second one is marked does not matter
          rw [toList_of_marked _ _ _ _ hmark,
            ih rest.length (by simp only [List.length_cons]; omega) second rest hsecond rfl,
            Link.ofHops_cons_cons, Nat.add_zero, hshift, hsecond]
          rfl

/-- What a walk from the first hop yields, if that hop is marked. -/
theorem toList_start (hops : List HopField) (hmark : marks.getLsbD 0 = true) (egress : UInt16) :
    (LinkWalk.mk marks 0 egress hops).toList =
      Link.ofHops (fun j => !counts marks.getLsbD (j + 1)) hops := by
  match hops with
  | [] => rw [toList_nil, Link.ofHops_nil]
  | [hop] => rw [toList_of_marked_last _ _ hmark, Link.ofHops_singleton]
  | first :: second :: rest =>
    have hsecond : counts marks.getLsbD 1 = false := by
      rw [counts, counts, hmark, Bool.not_true, Bool.and_false]
    have hshift : (fun j => !counts marks.getLsbD (j + 1 + 1)) =
        fun j => !counts marks.getLsbD (1 + 1 + j) := by
      funext j
      show (!counts marks.getLsbD (j + 2)) = !counts marks.getLsbD (2 + j)
      rw [Nat.add_comm]
    rw [toList_of_marked _ _ _ _ hmark, toList_behind second rest hsecond, Link.ofHops_cons_cons,
      hsecond, hshift]
    rfl

end

end LinkWalk

end SourceRoute
