import SourceRoute.Proofs.LinkLaws
import SourceRoute.Proofs.ViewLaws

/-!
# Links of a path

A path whose segments fit a header should have one link for each pair of consecutive hops, except
that there is none between two segments of which the later one lacks the peering flag.  The walk
marks the hops that begin a segment without a link before it.  `links_eq_ofHops` says which links it
yields for any path, and `links_eq_crossings_iff` when these are the ones that it should: a segment
of a single hop at which the walk takes two hops may not be followed by another change of segment.
-/

namespace SourceRoute

/-! ## Neighbouring positions -/

namespace Runs

variable {ns : List Nat} {i s t k m : Nat}

/-- Behind a position comes the next place of its run, or the first place of a later run. -/
theorem locate_succ (h : locate ns i = some (s, k)) (hnext : locate ns (i + 1) = some (t, m)) :
    (t = s ∧ m = k + 1) ∨ (s < t ∧ m = 0 ∧ k + 1 = ns.getD s 0) := by
  obtain ⟨hk, hi⟩ := locate_eq_some_iff.mp h
  rcases Nat.lt_or_ge (k + 1) (ns.getD s 0) with hinside | hend
  · have hplace : locate ns (i + 1) = some (s, k + 1) :=
      locate_eq_some_iff.mpr ⟨hinside, by omega⟩
    obtain ⟨rfl, rfl⟩ := Prod.mk.inj (Option.some.inj (hnext.symm.trans hplace))
    exact .inl ⟨rfl, rfl⟩
  · obtain ⟨hm, hj⟩ := locate_eq_some_iff.mp hnext
    have hstop := total_take_succ ns s
    -- a run up to this one has ended by the next position
    have hlater : s + 1 ≤ t := by
      by_contra hle
      have hended : total (ns.take (t + 1)) ≤ total (ns.take (s + 1)) :=
        total_take_le (Nat.lt_of_not_le hle)
      rw [total_take_succ] at hended
      omega
    have hstart : total (ns.take (s + 1)) ≤ total (ns.take t) := total_take_le hlater
    exact .inr ⟨hlater, by omega, by omega⟩

end Runs

/-! ## Lengths -/

namespace SegmentLengths

variable {l : SegmentLengths} {sizes : List Nat}

theorem Describes.locate_eq (h : l.Describes sizes) (i : Nat) :
    Runs.locate l.toList i = Runs.locate sizes i := by
  rw [h.toList_eq, Runs.locate_append_replicate_zero]

theorem locate_toList_zero (hfault : l.fault? = none) : Runs.locate l.toList 0 = some (0, 0) := by
  obtain ⟨sizes, hsizes, hd⟩ := fault?_eq_none_iff.mp hfault
  rw [hd.locate_eq]
  exact Runs.locate_zero hsizes.ne_nil hsizes.pos

theorem checked?_eq_some_iff {m : SegmentLengths} :
    l.checked? = some m ↔ l.fault? = none ∧ l = m := by
  unfold checked?
  split
  next hnone => simp [hnone]
  next hfault => simp [hfault]

end SegmentLengths

/-- The hops that a walk marks are the first ones of the segments without a link before them. -/
theorem LinkWalk.mem_starts_iff (source : RecordSource) {l : SegmentLengths}
    (hfault : l.fault? = none) {j : Nat} :
    j ∈ starts source l ↔ ∃ s, Runs.locate l.toList j = some (s, 0) ∧
      (s = 0 ∨ hasPeering source.info? s = false) := by
  simp only [starts, List.mem_map, List.mem_filter, List.mem_range,
    SegmentLengths.lt_infoCount_iff hfault, Bool.or_eq_true, decide_eq_true_eq, Bool.not_eq_true',
    Runs.locate_eq_some_iff, Nat.add_zero]
  constructor
  · rintro ⟨s, ⟨hpos, hunlinked⟩, rfl⟩
    exact ⟨s, ⟨hpos, rfl⟩, hunlinked⟩
  · rintro ⟨s, ⟨hpos, rfl⟩, hunlinked⟩
    exact ⟨s, ⟨hpos, hunlinked⟩, rfl⟩

/-- Every mark has its bit: with valid lengths there are no more hops than bits in a word. -/
theorem LinkWalk.lt_of_mem_starts {source : RecordSource} {l : SegmentLengths}
    (hfault : l.fault? = none) {j : Nat} (hj : j ∈ starts source l) : j < 64 := by
  obtain ⟨s, hlocate, -⟩ := (mem_starts_iff source hfault).mp hj
  exact Nat.lt_of_lt_of_le (Runs.lt_total_of_locate hlocate) (SegmentLengths.hopCount_le hfault)

namespace Path

/-! ## Paths that fit a header -/

/-- There are valid lengths that describe the segments. -/
def FitsHeader (p : Path) : Prop := ∃ l : SegmentLengths, l.fault? = none ∧ l.Describes p.sizes

variable {p : Path} {i j s t : Nat}

theorem fitsHeader_of_validSizes (h : ValidSizes p.sizes) : p.FitsHeader :=
  ⟨p.lengths, SegmentLengths.fault?_eq_none_iff.mpr ⟨_, h, describes_of_validSizes h⟩,
    describes_of_validSizes h⟩

private theorem le_of_saturate_le {n : Nat} (h : (saturate n).toNat ≤ maxSegmentLength) :
    n ≤ maxSegmentLength := by
  have hlt : min n 255 < 256 := Nat.lt_succ_of_le (Nat.min_le_right n 255)
  have hle : min n 255 ≤ 63 := by
    rw [saturate, UInt8.toNat_ofNat_of_lt' hlt] at h
    exact h
  show n ≤ 63
  omega

private theorem lengths_describes_of_getD (hcount : p.sizes.length ≤ maxSegments)
    (hle : ∀ s < maxSegments, p.sizes.getD s 0 ≤ maxSegmentLength) :
    p.lengths.Describes p.sizes := by
  apply lengths_describes hcount
  intro n hn
  obtain ⟨s, hs, rfl⟩ := List.getElem_of_mem hn
  rw [← List.getD_eq_getElem _ 0 hs]
  exact Nat.le_trans (hle s (Nat.lt_of_lt_of_le hs hcount)) (by decide)

/-- The lengths that are read of a path are valid ones that describe its segments. -/
theorem lengths?_records_eq_some_iff {l : SegmentLengths} :
    p.records.lengths? = some l ↔ l.fault? = none ∧ l.Describes p.sizes := by
  have hread : p.records.lengths? =
      if maxSegments < p.sizes.length then none else p.lengths.checked? := by
    rw [length_sizes]
    rfl
  rw [hread]
  constructor
  · intro hsome
    split at hsome
    next => exact absurd hsome (by simp)
    next hcount =>
      obtain ⟨hfault, rfl⟩ := SegmentLengths.checked?_eq_some_iff.mp hsome
      refine ⟨hfault, lengths_describes_of_getD (Nat.le_of_not_lt hcount) ?_⟩
      intro s hs
      -- a size that was cut down to a byte would be too large for a header
      apply le_of_saturate_le
      have hle := SegmentLengths.toList_le hfault s
      match s, hs with
      | 0, _ => exact hle
      | 1, _ => exact hle
      | 2, _ => exact hle
  · rintro ⟨hfault, hd⟩
    have hle (s : Nat) : p.sizes.getD s 0 ≤ maxSegmentLength := by
      rw [← hd.getD_eq]
      exact SegmentLengths.toList_le hfault s
    have hlengths := (lengths_describes_of_getD hd.count_le fun s _ => hle s).unique hd
    rw [if_neg (Nat.not_lt.mpr hd.count_le), SegmentLengths.checked?_eq_some_iff, hlengths]
    exact ⟨hfault, rfl⟩

theorem fitsHeader_iff : p.FitsHeader ↔ p.records.lengths?.isSome = true := by
  unfold FitsHeader
  simp only [Option.isSome_iff_exists, lengths?_records_eq_some_iff]

instance (p : Path) : Decidable p.FitsHeader := decidable_of_iff _ fitsHeader_iff.symm

theorem lengths?_of_not_fitsHeader (h : ¬p.FitsHeader) : p.records.lengths? = none := by
  rwa [fitsHeader_iff, Option.not_isSome_iff_eq_none] at h

theorem links_of_not_fitsHeader (h : ¬p.FitsHeader) : p.records.links = [] := by
  unfold RecordSource.links LinkWalk.ofSource
  rw [lengths?_of_not_fitsHeader h]
  exact LinkWalk.toList_nil 0

/-- In a path that fits a header no segment with hops comes behind one without, so behind the last
hop of a segment comes the first one of the next segment. -/
theorem FitsHeader.locate?_succ (h : p.FitsHeader) {k m : Nat}
    (hlocate : p.locate? j = some (s, k)) (hnext : p.locate? (j + 1) = some (t, m)) :
    (t = s ∧ m = k + 1) ∨ (t = s + 1 ∧ m = 0 ∧ k + 1 = p.sizes.getD s 0) := by
  rcases Runs.locate_succ hlocate hnext with hsame | ⟨hlater, rfl, hsize⟩
  · exact .inl hsame
  · obtain ⟨l, hfault, hd⟩ := h
    have hpos : 0 < p.sizes.getD t 0 := (Runs.locate_eq_some_iff.mp hnext).1
    -- there is no gap between segments with hops, so the next one has some
    have hbetween : 0 < p.sizes.getD (s + 1) 0 := by
      rw [← hd.getD_eq, ← SegmentLengths.lt_infoCount_iff hfault] at hpos ⊢
      exact Nat.lt_of_le_of_lt hlater hpos
    have hplace : p.locate? (j + 1) = some (s + 1, 0) := by
      apply Runs.locate_eq_some_iff.mpr
      rw [Runs.total_take_succ, ← hsize, (Runs.locate_eq_some_iff.mp hlocate).2]
      exact ⟨hbetween, rfl⟩
    obtain ⟨rfl, -⟩ := Prod.mk.inj (Option.some.inj (hnext.symm.trans hplace))
    exact .inr ⟨rfl, rfl, hsize⟩

/-! ## The links that a path should have -/

/-- Whether the link from hop `j` to the next one is kept: both lie in the same segment, or the
segment of the later one has the peering flag. -/
def joined (p : Path) (j : Nat) : Bool :=
  match p.locate? j, p.locate? (j + 1) with
  | some (earlier, _), some (later, _) => earlier = later || hasPeering p.info? later
  | _, _ => false

/-- The links from a hop to the next one, behind those hops where the link is kept. -/
def crossings (p : Path) : List Link := Link.ofHops p.joined p.hops

/-- Whether a hop is the first one of a segment without a link before it. -/
def startsUnlinked (p : Path) (j : Nat) : Bool :=
  match p.locate? j with
  | some (segment, 0) => segment = 0 || !hasPeering p.info? segment
  | _ => false

theorem startsUnlinked_iff : p.startsUnlinked j = true ↔
    ∃ s, p.locate? j = some (s, 0) ∧ (s = 0 ∨ hasPeering p.info? s = false) := by
  unfold startsUnlinked
  split
  next s hlocate => simp [hlocate]
  next hother =>
    simp only [Bool.false_eq_true, false_iff, not_exists, not_and]
    intro s hlocate
    exact absurd hlocate (hother s)

theorem lt_length_of_locate? {k : Nat} (h : p.locate? j = some (s, k)) : s < p.segments.length := by
  rw [← length_sizes]
  exact Runs.lt_length_of_locate h

theorem exists_locate?_succ (hj : j + 1 < p.hopCount) :
    ∃ s k t m, p.locate? j = some (s, k) ∧ p.locate? (j + 1) = some (t, m) := by
  obtain ⟨s, k, hlocate⟩ := Runs.exists_locate (Nat.lt_of_succ_lt hj)
  obtain ⟨t, m, hnext⟩ := Runs.exists_locate hj
  exact ⟨s, k, t, m, hlocate, hnext⟩

theorem joined_of_locate {k m : Nat} (hlocate : p.locate? j = some (s, k))
    (hnext : p.locate? (j + 1) = some (t, m)) :
    p.joined j = (decide (s = t) || hasPeering p.info? t) := by
  unfold joined
  simp only [hlocate, hnext]

/-- A link is left out exactly in front of a hop that starts a segment without a link before it. -/
theorem joined_eq (hj : j + 1 < p.hopCount) : p.joined j = !p.startsUnlinked (j + 1) := by
  obtain ⟨s, k, t, m, hlocate, hnext⟩ := exists_locate?_succ hj
  rw [joined_of_locate hlocate hnext]
  unfold startsUnlinked
  simp only [hnext]
  -- inside a segment there is no start, and a later segment is not the first one
  rcases Runs.locate_succ hlocate hnext with ⟨rfl, rfl⟩ | ⟨hlater, rfl, -⟩
  · simp
  · have hne : s ≠ t := Nat.ne_of_lt hlater
    have hpos : t ≠ 0 := Nat.ne_of_gt (Nat.zero_lt_of_lt hlater)
    simp [hne, hpos]

theorem lt_hopCount_of_joined (h : p.joined j = true) : j + 1 < p.hopCount := by
  unfold joined at h
  split at h
  next hnext => exact Runs.lt_total_of_locate hnext
  next => exact absurd h Bool.false_ne_true

/-! ## The links that a walk yields -/

/-- In a path with valid lengths the walk starts with all hops and a mark on each hop that starts a
segment without a link before it. -/
theorem ofSource_records {l : SegmentLengths} (hfault : l.fault? = none) (hd : l.Describes p.sizes) :
    LinkWalk.ofSource p.records =
      ⟨LinkWalk.mark (LinkWalk.starts p.records l), 0, 0, p.hops⟩ := by
  have hcount : l.hopCount = p.hops.length := by
    rw [hd.hopCount_eq, length_hops]
    rfl
  have hhops : (List.range l.hopCount).filterMap p.records.hop? = p.hops := by
    rw [hcount]
    exact filterMap_range fun i _ => hop?_eq_getElem? p i
  unfold LinkWalk.ofSource
  simp only [lengths?_records_eq_some_iff.mpr ⟨hfault, hd⟩, hhops]

/-- A walk yields every link but those in front of hops whose marks count. -/
theorem links_eq_ofHops (h : p.FitsHeader) : p.records.links =
    Link.ofHops (fun j => !LinkWalk.counts p.startsUnlinked (j + 1)) p.hops := by
  obtain ⟨l, hfault, hd⟩ := h
  -- the word has a bit for every hop that starts a segment without a link
  have hmarks : (LinkWalk.mark (LinkWalk.starts p.records l)).getLsbD = p.startsUnlinked := by
    funext j
    rw [Bool.eq_iff_iff, LinkWalk.getLsbD_mark,
      and_iff_right_of_imp (LinkWalk.lt_of_mem_starts hfault),
      LinkWalk.mem_starts_iff p.records hfault, startsUnlinked_iff]
    simp only [hd.locate_eq]
    rfl
  have hfirst : p.startsUnlinked 0 = true := by
    rw [startsUnlinked_iff]
    refine ⟨0, ?_, .inl rfl⟩
    rw [locate?, ← hd.locate_eq]
    exact SegmentLengths.locate_toList_zero hfault
  rw [← hmarks] at hfirst ⊢
  rw [RecordSource.links, ofSource_records hfault hd, LinkWalk.toList_start _ hfirst]

/-- A segment of a single hop at which the walk takes two hops, followed by a segment that has no
link before it.  The walk does not see that it changes segments twice. -/
structure Overreads (p : Path) (s : Nat) : Prop where
  single : p.sizes.getD s 0 = 1
  unlinked : s = 0 ∨ hasPeering p.info? s = false
  later : 0 < p.sizes.getD (s + 1) 0
  later_unlinked : hasPeering p.info? (s + 1) = false

/-- Two neighbouring hops are marked exactly if one of them is all of such a segment. -/
theorem exists_overreads_iff (h : p.FitsHeader) : (∃ s, p.Overreads s) ↔
    ∃ j, j + 1 < p.hopCount ∧ p.startsUnlinked j = true ∧ p.startsUnlinked (j + 1) = true := by
  simp only [startsUnlinked_iff]
  constructor
  · rintro ⟨s, hover⟩
    have hlocate : p.locate? (Runs.total (p.sizes.take s)) = some (s, 0) := by
      apply Runs.locate_eq_some_iff.mpr
      rw [hover.single]
      exact ⟨Nat.zero_lt_one, rfl⟩
    have hnext : p.locate? (Runs.total (p.sizes.take s) + 1) = some (s + 1, 0) := by
      apply Runs.locate_eq_some_iff.mpr
      rw [Runs.total_take_succ, hover.single]
      exact ⟨hover.later, rfl⟩
    exact ⟨_, Runs.lt_total_of_locate hnext, ⟨s, hlocate, hover.unlinked⟩,
      ⟨s + 1, hnext, .inr hover.later_unlinked⟩⟩
  · rintro ⟨j, -, ⟨s, hlocate, hunlinked⟩, ⟨t, hnext, hlater⟩⟩
    rcases h.locate?_succ hlocate hnext with ⟨-, hzero⟩ | ⟨rfl, -, hsize⟩
    · exact absurd hzero (Nat.zero_ne_add_one 0)
    · have hpos : 0 < p.sizes.getD (s + 1) 0 := (Runs.locate_eq_some_iff.mp hnext).1
      rcases hlater with hzero | hlater
      · exact absurd hzero (Nat.succ_ne_zero s)
      · exact ⟨s, hsize.symm, hunlinked, hpos, hlater⟩

/-- The links are the ones that the path should have exactly if no segment is overread. -/
theorem links_eq_crossings_iff (h : p.FitsHeader) :
    p.records.links = p.crossings ↔ ∀ s, ¬p.Overreads s := by
  have hle (j : Nat) (hj : p.joined j = true) :
      (!LinkWalk.counts p.startsUnlinked (j + 1)) = true := by
    rw [joined_eq (lt_hopCount_of_joined hj), Bool.not_eq_true'] at hj
    rw [Bool.not_eq_true', ← Bool.not_eq_true]
    intro hcounts
    exact Bool.eq_false_iff.mp hj (LinkWalk.marked_of_counts hcounts)
  have hkept : (∀ j, j + 1 < p.hopCount →
      p.joined j = !LinkWalk.counts p.startsUnlinked (j + 1)) ↔
      ∀ i, i < p.hopCount → LinkWalk.counts p.startsUnlinked i = p.startsUnlinked i := by
    constructor
    · intro hsame i hi
      cases i with
      | zero => rfl
      | succ i => exact Bool.not_inj ((hsame i hi).symm.trans (joined_eq hi))
    · intro hsame j hj
      rw [joined_eq hj, hsame (j + 1) hj]
  have hadjacent : (∀ s, ¬p.Overreads s) ↔ ∀ i, i + 1 < p.hopCount →
      ¬(p.startsUnlinked i = true ∧ p.startsUnlinked (i + 1) = true) := by
    rw [← not_exists, exists_overreads_iff h]
    simp only [not_exists, not_and]
  rw [links_eq_ofHops h, crossings, eq_comm, Link.ofHops_eq_iff hle, length_hops, hkept,
    LinkWalk.counts_eq_iff, hadjacent]

/-- The links of a path with a valid header, held either way, are the ones that it should have
exactly if no segment is overread.  A path that fits no header has no links. -/
theorem links_exact_unless_overread (p : Path) :
    (p.FitsHeader → (p.records.links = p.crossings ↔ ∀ s, ¬p.Overreads s)) ∧
    (¬p.FitsHeader → p.records.links = []) ∧
    ∀ b v rest, PathView.ofBytes b = .ok (v, rest) → v.toPath.FitsHeader ∧
      (v.records.links = v.toPath.crossings ↔ ∀ s, ¬v.toPath.Overreads s) := by
  refine ⟨links_eq_crossings_iff, links_of_not_fitsHeader, ?_⟩
  intro b v rest haccept
  obtain ⟨-, hsound, -⟩ := PathView.ofBytes_eq_ok_iff.mp haccept
  have hfits := fitsHeader_of_validSizes hsound.validSizes_toPath
  rw [← hsound.records_toPath]
  exact ⟨hfits, links_eq_crossings_iff hfits⟩

/-- A segment of one hop before a segment of two.  The walk reads the last hop of the first AS and
the first hop of the second segment as a link, which are two hops of the same AS. -/
theorem links_of_overread_segment :
    let hop (ingress egress : UInt16) : HopField := ⟨HopFlags.none, 63, ingress, egress, Mac.zero⟩
    let p : Path := ⟨0, 0, [⟨⟨⟨0⟩, 7, 1000⟩, [hop 0 1]⟩, ⟨⟨⟨1⟩, 7, 1000⟩, [hop 0 3, hop 4 0]⟩]⟩
    p.structureFault? = none ∧ p.crossings = [⟨3, 4⟩] ∧ p.records.links = [⟨1, 0⟩, ⟨3, 4⟩] := by
  intro hop p
  have hfits : p.FitsHeader := by decide
  refine ⟨by decide, by decide, ?_⟩
  rw [links_eq_ofHops hfits]
  decide

end Path

end SourceRoute
