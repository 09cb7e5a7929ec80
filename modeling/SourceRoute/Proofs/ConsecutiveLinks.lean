import Mathlib.Data.List.Forall2
import SourceRoute.Proofs.BuildExact
import SourceRoute.Proofs.LinkReversal

/-!
# Links between consecutive hops

If every segment behind the first one has the peering flag, the links of a path are all those between
consecutive hops.  If no segment has it, they are those inside each segment, one segment after the
other.  Both depend on the interfaces alone, so the links of a built path are those of its
descriptions.
-/

namespace SourceRoute

/-! ## Lists of hops -/

namespace Link

/-- The links from each hop of a list to the next one. -/
def consecutive : List HopField → List Link
  | first :: second :: rest => ⟨first.egress, second.ingress⟩ :: consecutive (second :: rest)
  | _ => []

theorem consecutive_cons_cons (first second : HopField) (rest : List HopField) :
    consecutive (first :: second :: rest) =
      ⟨first.egress, second.ingress⟩ :: consecutive (second :: rest) := rfl

theorem length_consecutive (hops : List HopField) :
    (consecutive hops).length = hops.length - 1 := by
  induction hops with
  | nil => rfl
  | cons first hops ih =>
    cases hops with
    | nil => rfl
    | cons second rest =>
      rw [consecutive_cons_cons, List.length_cons, ih]
      rfl

theorem consecutive_eq_nil {hops : List HopField} (h : hops.length ≤ 1) : consecutive hops = [] := by
  apply List.eq_nil_of_length_eq_zero
  rw [length_consecutive]
  exact Nat.sub_eq_zero_of_le h

theorem getElem?_consecutive (hops : List HopField) (j : Nat) :
    (consecutive hops)[j]? = behind? hops j := by
  induction hops generalizing j with
  | nil => rfl
  | cons first hops ih =>
    cases hops with
    | nil => cases j <;> rfl
    | cons second rest =>
      rw [consecutive_cons_cons]
      cases j with
      | zero => rfl
      | succ j => exact ih j

/-- If all links are kept, they are those between consecutive hops. -/
theorem ofHops_eq_consecutive {kept : Nat → Bool} {hops : List HopField}
    (h : ∀ j, j + 1 < hops.length → kept j = true) : ofHops kept hops = consecutive hops := by
  induction hops generalizing kept with
  | nil => rfl
  | cons first hops ih =>
    cases hops with
    | nil => rfl
    | cons second rest =>
      -- the first link is kept, and so are those of the rest, whose places are one lower
      have hfirst : kept 0 = true := h 0 (Nat.succ_lt_succ (Nat.zero_lt_succ _))
      have hrest : ofHops (fun j => kept (j + 1)) (second :: rest) = consecutive (second :: rest) :=
        ih fun j hj => h (j + 1) (Nat.succ_lt_succ hj)
      rw [ofHops_cons_cons, hrest, if_pos hfirst, consecutive_cons_cons]
      rfl

/-- The link between two lists lies behind the last hop of the first. -/
theorem getElem?_consecutive_append {front back : List HopField} {last first : HopField}
    (hlast : front.getLast? = some last) (hfirst : back.head? = some first) :
    (consecutive (front ++ back))[front.length - 1]? = some ⟨last.egress, first.ingress⟩ := by
  have hpos : 0 < front.length := by
    cases front with
    | nil => cases hlast
    | cons hop front => exact Nat.zero_lt_succ _
  -- the last hop in front and the first one behind are neighbours
  have hearlier : (front ++ back)[front.length - 1]? = some last := by
    rw [List.getElem?_append_left (Nat.sub_lt hpos Nat.zero_lt_one), ← List.getLast?_eq_getElem?]
    exact hlast
  have hlater : (front ++ back)[front.length - 1 + 1]? = some first := by
    rw [Nat.sub_add_cancel hpos, List.getElem?_append_right (Nat.le_refl _), Nat.sub_self,
      ← List.head?_eq_getElem?]
    exact hfirst
  rw [getElem?_consecutive]
  unfold behind?
  rw [hearlier, hlater]

/-- The links of the turned list are the turned links in the opposite order. -/
theorem consecutive_reversed (hops : List HopField) :
    consecutive (hops.reverse.map HopField.reversed) =
      ((consecutive hops).map Link.reversed).reverse := by
  have hall (l : List HopField) : ofHops (fun _ => true) l = consecutive l :=
    ofHops_eq_consecutive fun _ _ => rfl
  rw [← hall, ← hall]
  exact ofHops_reversed fun _ _ => rfl

/-- If the link between two lists is left out, the links are those of the first and then those of
the second. -/
theorem ofHops_append {kept : Nat → Bool} {front : List HopField}
    (h : ∀ j, j + 1 = front.length → kept j = false) (back : List HopField) :
    ofHops kept (front ++ back) =
      ofHops kept front ++ ofHops (fun j => kept (front.length + j)) back := by
  induction front generalizing kept with
  | nil =>
    show ofHops kept back = ofHops (fun j => kept (0 + j)) back
    simp only [Nat.zero_add]
  | cons first front ih =>
    -- places are counted from the start, so losing the first hop moves those behind by one
    have hshift : (fun j => kept ((first :: front).length + j)) =
        fun j => kept (front.length + j + 1) := by
      funext j
      rw [List.length_cons, Nat.add_right_comm]
    rw [hshift]
    cases front with
    | nil =>
      cases back with
      | nil => rfl
      | cons second back =>
        -- the first hop is the last one in front, and the link behind it is left out
        have hlast : kept 0 = false := h 0 rfl
        show ofHops kept (first :: second :: back) = _
        rw [ofHops_cons_cons, hlast]
        simp
    | cons second front =>
      -- both sides begin with the link between the first two hops
      have hend (j : Nat) (hj : j + 1 = (second :: front).length) : kept (j + 1) = false :=
        h (j + 1) (congrArg Nat.succ hj)
      show ofHops kept (first :: second :: (front ++ back)) = _
      rw [ofHops_cons_cons, ofHops_cons_cons, List.append_assoc]
      exact congrArg _ (ih hend)

end Link

namespace HopField

/-- Links only depend on the interfaces. -/
theorem Follows.consecutive_eq {fields : List HopField} {outlines : List HopOutline}
    (h : List.Forall₂ Follows fields outlines) :
    Link.consecutive fields = Link.consecutive (outlines.map HopOutline.toField) := by
  induction h with
  | nil => rfl
  | @cons first outline _ _ hfirst hrest ih =>
    cases hrest with
    | nil => rfl
    | @cons second outline' _ _ hsecond hrest =>
      -- the first link has one interface of each of the first two hops
      show Link.mk first.egress second.ingress :: _ = Link.mk outline.egress outline'.ingress :: _
      rw [hfirst.egress, hsecond.ingress]
      exact congrArg _ ih

end HopField

/-- The links inside segments are those inside the descriptions that the segments follow. -/
theorem Segment.Follows.flatMap_consecutive_eq {segments : List Segment}
    {outlines : List SegmentOutline} (h : List.Forall₂ Segment.Follows segments outlines) :
    segments.flatMap (fun s => Link.consecutive s.hops) =
      outlines.flatMap fun s => Link.consecutive (s.hops.map HopOutline.toField) := by
  induction h with
  | nil => rfl
  | cons hfirst _ ih =>
    rw [List.flatMap_cons, List.flatMap_cons, HopField.Follows.consecutive_eq hfirst.hops, ih]

/-! ## Neighbours in the same run -/

namespace Runs

/-- Whether a position and the next one lie in the same run. -/
def sameRun (lengths : List Nat) (j : Nat) : Bool :=
  match locate lengths j, locate lengths (j + 1) with
  | some (earlier, _), some (later, _) => earlier = later
  | _, _ => false

variable {n j : Nat} {ns : List Nat}

theorem sameRun_of_lt (h : j + 1 < n) : sameRun (n :: ns) j = true := by
  unfold sameRun
  simp only [locate, if_pos h, if_pos (Nat.lt_of_succ_lt h), decide_true]

/-- Behind the last position of a run comes one of a later run, or none. -/
theorem sameRun_of_eq (h : j + 1 = n) : sameRun (n :: ns) j = false := by
  subst h
  unfold sameRun
  simp only [locate, if_pos (Nat.lt_succ_self j), if_neg (Nat.lt_irrefl (j + 1))]
  -- the next position, if there is one, lies in a run with a positive number
  cases locate ns (j + 1 - (j + 1)) with
  | none => rfl
  | some found => exact decide_eq_false (Nat.zero_ne_add_one found.1)

theorem sameRun_add (n j : Nat) (ns : List Nat) : sameRun (n :: ns) (n + j) = sameRun ns j := by
  -- behind the first run, places are those of the other runs with numbers one higher
  have hskip (i : Nat) : locate (n :: ns) (n + i) =
      (locate ns i).map fun found => (found.1 + 1, found.2) := by
    rw [locate, if_neg (Nat.not_lt.mpr (Nat.le_add_right n i)), Nat.add_sub_cancel_left]
  unfold sameRun
  rw [Nat.add_assoc, hskip, hskip]
  cases locate ns j with
  | none => rfl
  | some earlier =>
    cases locate ns (j + 1) with
    | none => rfl
    | some later => exact decide_eq_decide.mpr Nat.succ_inj

end Runs

/-- If the links between pieces are left out, those of each piece are left. -/
theorem Link.ofHops_sameRun (pieces : List (List HopField)) :
    ofHops (Runs.sameRun (pieces.map List.length)) pieces.flatten =
      pieces.flatMap consecutive := by
  induction pieces with
  | nil => rfl
  | cons piece pieces ih =>
    -- the link behind the last hop of a piece leads to another piece
    have hend (j : Nat) (hj : j + 1 = piece.length) :
        Runs.sameRun ((piece :: pieces).map List.length) j = false := Runs.sameRun_of_eq hj
    have hinside : ofHops (Runs.sameRun ((piece :: pieces).map List.length)) piece =
        consecutive piece := ofHops_eq_consecutive fun j hj => Runs.sameRun_of_lt hj
    have hbehind : (fun j => Runs.sameRun ((piece :: pieces).map List.length) (piece.length + j)) =
        Runs.sameRun (pieces.map List.length) := funext fun j => Runs.sameRun_add piece.length j _
    rw [List.flatten_cons, ofHops_append hend, hinside, hbehind, ih, List.flatMap_cons]

/-! ## Paths -/

namespace Path

variable {p : Path}

/-- Behind segments with the peering flag no link is left out. -/
theorem links_eq_consecutive (hsizes : ValidSizes p.sizes)
    (hpeering : ∀ s, s + 1 < p.segments.length → hasPeering p.info? (s + 1) = true) :
    p.records.links = Link.consecutive p.hops := by
  have hfits := fitsHeader_of_validSizes hsizes
  -- a segment is overread only before one without the flag, and there is none
  have hcrossings : p.records.links = p.crossings := by
    apply (links_eq_crossings_iff hfits).mpr
    intro s hover
    have hs : s + 1 < p.segments.length := by
      by_contra hlast
      have hlater := hover.later
      rw [List.getD_eq_default _ _ (by rw [length_sizes]; exact Nat.le_of_not_lt hlast)] at hlater
      exact Nat.lt_irrefl 0 hlater
    exact Bool.false_ne_true (hover.later_unlinked.symm.trans (hpeering s hs))
  rw [hcrossings, crossings]
  apply Link.ofHops_eq_consecutive
  rw [length_hops]
  intro j hj
  obtain ⟨s, k, t, m, hlocate, hnext⟩ := exists_locate?_succ hj
  have ht := lt_length_of_locate? hnext
  rw [joined_of_locate hlocate hnext]
  -- neighbours are in one segment, or the later one begins a segment with the flag
  rcases hfits.locate?_succ hlocate hnext with ⟨rfl, -⟩ | ⟨rfl, -⟩
  · rw [decide_eq_true rfl, Bool.true_or]
  · rw [hpeering s ht, Bool.or_true]

/-- If all segments have the peering flag, the links of the way back are the turned ones. -/
theorem links_reversed_eq (hsizes : ValidSizes p.sizes)
    (hpeering : ∀ s, s < p.segments.length → hasPeering p.info? s = true) :
    p.reversed.records.links = (p.records.links.map Link.reversed).reverse := by
  have hback : p.reversed.records.links = Link.consecutive p.reversed.hops := by
    apply links_eq_consecutive (wellFormed_reversed hsizes).sizes
    intro s hs
    rw [length_segments_reversed] at hs
    -- on the way back the segments are counted from the other end
    have hindex : s + 1 = p.segments.length - 1 - (p.segments.length - 1 - (s + 1)) := by omega
    have hlt : p.segments.length - 1 - (s + 1) < p.segments.length := by omega
    rw [hindex, hasPeering_reversed hlt]
    exact hpeering _ hlt
  rw [hback, links_eq_consecutive hsizes fun s hs => hpeering (s + 1) hs, hops_reversed,
    Link.consecutive_reversed]

/-- Without peering flags, and if a segment of a single hop is the only segment, the links are those
of each segment. -/
theorem links_eq_flatMap (hsizes : ValidSizes p.sizes)
    (hpeering : ∀ s, hasPeering p.info? s = false)
    (hsize : p.segments.length = 1 ∨ ∀ n ∈ p.sizes, 2 ≤ n) :
    p.records.links = p.segments.flatMap fun s => Link.consecutive s.hops := by
  have hcrossings : p.records.links = p.crossings := by
    -- nothing is overread: there is one segment only, or none has a single hop
    rcases hsize with hone | hsize
    · apply (links_eq_crossings_iff (fitsHeader_of_validSizes hsizes)).mpr
      intro s hover
      have hlater := hover.later
      rw [List.getD_eq_default _ _ (by rw [length_sizes, hone]; exact Nat.le_add_left 1 s)] at hlater
      exact Nat.lt_irrefl 0 hlater
    · exact links_eq_crossings hsizes hsize
  -- without the flag neighbours are joined inside a segment only
  have hjoined : p.joined = Runs.sameRun p.sizes := by
    funext j
    unfold joined Runs.sameRun locate?
    cases Runs.locate p.sizes j with
    | none => rfl
    | some earlier =>
      cases Runs.locate p.sizes (j + 1) with
      | none => rfl
      | some later => simp only [hpeering, Bool.or_false]
  rw [hcrossings, crossings, hjoined, sizes_eq_map_length, hops_eq_flatten, Link.ofHops_sameRun,
    List.flatMap_map]

/-- The hop fields of a path that follows descriptions follow those of the descriptions. -/
theorem follows_hops {outlines : List SegmentOutline}
    (h : List.Forall₂ Segment.Follows p.segments outlines) :
    List.Forall₂ HopField.Follows p.hops (outlines.flatMap SegmentOutline.hops) :=
  List.rel_flatMap h fun _ _ hsegment => hsegment.hops

end Path

end SourceRoute
