import Mathlib.Data.List.Forall2
import SourceRoute.Proofs.PathLinks
import SourceRoute.Proofs.ViewRuns

/-!
# Iterating over links

A `LinkCursor` hands out the links of a path one by one and holds the one that comes next: it makes
its first step when it is built, and a step behind each link that it hands out.  A step reads one
hop, or two at a marked one, and may run out of hops between the two.  The cursor sets a mark by a
shift, which has no result if it is as wide as the word.

A cursor is one step ahead of a `LinkWalk`: before each step it has still to read what the walk has
left, so it hands out the links of the walk.
-/

namespace SourceRoute

/-- A cursor on the links of a path. -/
structure LinkCursor where
  /-- The number of hops of the path. -/
  hopCount : Nat
  /-- One bit for each hop that begins a segment without a link before it. -/
  marks : BitVec 64
  /-- The index of the next hop to read. -/
  index : Nat
  /-- Both interfaces of the hop that was read before the last one. -/
  earlier : UInt16 × UInt16
  /-- Both interfaces of the hop that was read last. -/
  later : UInt16 × UInt16
  /-- Whether there is no further link. -/
  done : Bool

namespace LinkCursor

/-! ## Reading hops -/

/-- The next hop, if the path has one. -/
def hop? (source : RecordSource) (c : LinkCursor) : Option HopField :=
  if c.index < c.hopCount then source.hop? c.index else none

/-- The cursor behind the next hop. -/
def skip (c : LinkCursor) (hop : HopField) : LinkCursor :=
  { c with index := c.index + 1, earlier := c.later, later := (hop.ingress, hop.egress) }

/-- Reads some hops.  The cursor is done if there are not as many. -/
def read (source : RecordSource) : Nat → LinkCursor → LinkCursor
  | 0, c => c
  | n + 1, c =>
    match c.hop? source with
    | some hop => read source n (c.skip hop)
    | none => { c with done := true }

/-- Goes on to the next link. -/
def step (source : RecordSource) (c : LinkCursor) : LinkCursor :=
  c.read source (if c.marks.getLsbD c.index then 2 else 1)

/-- The link that the cursor holds, and the cursor behind it. -/
def next (source : RecordSource) (c : LinkCursor) : Option Link × LinkCursor :=
  if c.done then (none, c) else (some ⟨c.earlier.2, c.later.1⟩, c.step source)

/-- The answer to the call with the given number, counted from zero. -/
def answer (source : RecordSource) (c : LinkCursor) : Nat → Option Link
  | 0 => (c.next source).1
  | k + 1 => (c.next source).2.answer source k

/-! ## Building -/

/-- The cursor before any hop is read. -/
def idle : LinkCursor := ⟨0, 0#64, 0, (0, 0), (0, 0), true⟩

/-- The word with a single bit.  There is no result if the shift is as wide as the word. -/
def bit? (position : Nat) : Option (BitVec 64) :=
  if position < 64 then some (1#64 <<< position) else none

/-- Marks the first hops of the given segments, the first of which begins at hop `start`.  Stops at a
segment without an info field, and says whether there was none. -/
def markAll? (source : RecordSource) (lengths : SegmentLengths) :
    Nat → BitVec 64 → List Nat → Option (Bool × BitVec 64)
  | _, marks, [] => some (true, marks)
  | start, marks, segment :: segments =>
    match source.info? segment with
    | none => some (false, marks)
    | some info =>
      let stop := start + lengths.toList.getD segment 0
      if segment = 0 || !info.flags.peering then
        (bit? start).bind fun bit => markAll? source lengths stop (marks ||| bit) segments
      else markAll? source lengths stop marks segments

/-- The cursor in front of the first link.  There is no result if a mark does not fit the word. -/
def ofSource? (source : RecordSource) : Option LinkCursor :=
  match source.lengths? with
  | none => some idle
  | some lengths =>
    (markAll? source lengths 0 0#64 (List.range lengths.infoCount)).map fun (complete, marks) =>
      if complete then
        step source { idle with marks, hopCount := lengths.hopCount, done := false }
      else { idle with marks }

/-! ## Exhausted cursors -/

section

variable {source : RecordSource} {c : LinkCursor} {k m : Nat}

theorem answer_of_done (hdone : c.done = true) (k : Nat) : c.answer source k = none := by
  have hnext : c.next source = (none, c) := if_pos hdone
  induction k with
  | zero => rw [answer, hnext]
  | succ k ih => rw [answer, hnext, ih]

/-- A cursor that had no link to hand out has none at the next call. -/
theorem answer_succ_of_none (h : c.answer source k = none) : c.answer source (k + 1) = none := by
  induction k generalizing c with
  | zero =>
    -- only a cursor that is done hands out nothing
    have hdone : c.done = true := by
      by_contra hgoes
      rw [answer, next, if_neg hgoes] at h
      exact Option.some_ne_none _ h
    exact answer_of_done hdone 1
  | succ k ih => exact ih h

theorem answer_none_mono (h : c.answer source k = none) (hle : k ≤ m) :
    c.answer source m = none := by
  induction hle with
  | refl => exact h
  | step _ ih => exact answer_succ_of_none ih

end

/-! ## Keeping up with a walk -/

/-- A cursor that makes its next step where a walk is now: it has still to read the hops that the
walk has left. -/
structure Ahead (source : RecordSource) (c : LinkCursor) (w : LinkWalk) : Prop where
  goes_on : c.done = false
  marks_eq : c.marks = w.marks
  index_eq : c.index = w.index
  egress_eq : c.later.2 = w.egress
  rest_eq : ∀ i, w.rest[i]? =
    if c.index + i < c.hopCount then source.hop? (c.index + i) else none

section

variable {source : RecordSource} {c : LinkCursor} {w : LinkWalk} {marks : BitVec 64} {index : Nat}
  {egress : UInt16} {hop : HopField} {rest : List HopField}

theorem Ahead.hop?_eq (h : Ahead source c w) : c.hop? source = w.rest.head? := by
  rw [List.head?_eq_getElem?, h.rest_eq 0]
  rfl

theorem Ahead.skip (h : Ahead source c ⟨marks, index, egress, hop :: rest⟩) :
    Ahead source (c.skip hop) ⟨marks, index + 1, hop.egress, rest⟩ where
  goes_on := h.goes_on
  marks_eq := h.marks_eq
  index_eq := congrArg Nat.succ h.index_eq
  egress_eq := rfl
  rest_eq := by
    intro i
    have hi := h.rest_eq (i + 1)
    rw [List.getElem?_cons_succ] at hi
    rw [hi, LinkCursor.skip, Nat.add_assoc, Nat.add_comm 1]

theorem Ahead.read_cons (h : Ahead source c ⟨marks, index, egress, hop :: rest⟩) (n : Nat) :
    c.read source (n + 1) = (c.skip hop).read source n := by
  rw [read, h.hop?_eq]
  rfl

theorem Ahead.done_read_nil (h : Ahead source c ⟨marks, index, egress, []⟩) (n : Nat) :
    (c.read source (n + 1)).done = true := by
  rw [read, h.hop?_eq]
  rfl

/-- With one step the cursor takes up the next link of the walk, or is done if there is none. -/
theorem Ahead.step (h : Ahead source c w) :
    match w.next with
    | (some link, after) =>
      link = ⟨(c.step source).earlier.2, (c.step source).later.1⟩ ∧
        Ahead source (c.step source) after
    | (none, _) => (c.step source).done = true := by
  obtain ⟨marks, index, egress, rest⟩ := w
  have hmark : c.marks.getLsbD c.index = marks.getLsbD index := by rw [h.marks_eq, h.index_eq]
  rw [LinkCursor.step, hmark, LinkWalk.next]
  cases marks.getLsbD index with
  | false =>
    rw [if_neg Bool.false_ne_true]
    cases rest with
    | nil => exact h.done_read_nil 0
    | cons hop rest =>
      rw [h.read_cons]
      exact ⟨congrArg (Link.mk · hop.ingress) h.egress_eq.symm, h.skip⟩
  | true =>
    rw [if_pos rfl]
    cases rest with
    | nil => exact h.done_read_nil 1
    | cons first rest =>
      rw [h.read_cons]
      cases rest with
      -- the path ends between the two hops of the step
      | nil => exact h.skip.done_read_nil 0
      | cons second rest =>
        rw [h.skip.read_cons]
        exact ⟨rfl, h.skip.skip⟩

/-- Either the walk has ended and the cursor is done, or the cursor holds the next link of the walk
and is ahead of what comes behind it. -/
theorem Ahead.step_cases (h : Ahead source c w) :
    (w.toList = [] ∧ (c.step source).done = true) ∨
    ∃ link after, w.toList = link :: after.toList ∧
      (c.step source).next source = (some link, (c.step source).step source) ∧
      Ahead source (c.step source) after := by
  have hstep := h.step
  cases hnext : w.next with
  | mk link? after =>
    rw [hnext] at hstep
    cases link? with
    | none => exact .inl ⟨LinkWalk.toList_of_next_none (by rw [hnext]), hstep⟩
    | some link =>
      obtain ⟨rfl, hafter⟩ := hstep
      refine .inr ⟨_, after, LinkWalk.toList_of_next hnext, ?_, hafter⟩
      exact if_neg (by rw [hafter.goes_on]; exact Bool.false_ne_true)

/-- From there on the cursor hands out the links of the walk. -/
theorem Ahead.answer_step (h : Ahead source c w) (k : Nat) :
    (c.step source).answer source k = w.toList[k]? := by
  -- each call takes one link off the walk, so the cursor and the walk change together
  induction k generalizing c w with
  | zero =>
    rcases h.step_cases with ⟨hended, hdone⟩ | ⟨link, after, hlinks, hnext, -⟩
    · rw [answer_of_done hdone, hended, List.getElem?_nil]
    · rw [answer, hnext, hlinks, List.getElem?_cons_zero]
  | succ k ih =>
    rcases h.step_cases with ⟨hended, hdone⟩ | ⟨link, after, hlinks, hnext, hafter⟩
    · rw [answer_of_done hdone, hended, List.getElem?_nil]
    · rw [answer, hnext, hlinks, List.getElem?_cons_succ, ih hafter]

end

/-! ## Marks -/

/-- Whether there is no link in front of a segment. -/
def unlinked (source : RecordSource) (segment : Nat) : Bool :=
  segment = 0 || !(source.info? segment).any fun info => info.flags.peering

/-- If the segments have info fields and the marks fit the word, the loop sets the marks of a walk. -/
theorem markAll?_eq {source : RecordSource} {lengths : SegmentLengths} (n : Nat) {s : Nat}
    (hinfo : ∀ segment ∈ List.range' s n, (source.info? segment).isSome = true)
    (hbit : ∀ segment ∈ (List.range' s n).filter (unlinked source),
      (lengths.segmentSpan segment).start < 64) (marks : BitVec 64) :
    markAll? source lengths (lengths.segmentSpan s).start marks (List.range' s n) =
      some (true, (((List.range' s n).filter (unlinked source)).map fun segment =>
        (lengths.segmentSpan segment).start).foldl
          (fun marks position => marks ||| (1#64 <<< position)) marks) := by
  induction n generalizing s marks with
  | zero => rfl
  | succ n ih =>
    rw [List.range'_succ] at hinfo hbit ⊢
    obtain ⟨info, hsome⟩ := Option.isSome_iff_exists.mp (hinfo s List.mem_cons_self)
    have hrest := ih (s := s + 1) (fun segment hmem => hinfo segment (List.mem_cons_of_mem _ hmem))
    -- a segment starts where the one before it ends
    have hnext : (lengths.segmentSpan s).start + lengths.toList.getD s 0 =
        (lengths.segmentSpan (s + 1)).start := (Runs.start_span_succ lengths.toList s).symm
    have hunlinked : unlinked source s = (decide (s = 0) || !info.flags.peering) := by
      rw [unlinked, hsome, Option.any_some]
    rw [markAll?, hsome]
    simp only [hnext, ← hunlinked]
    cases hs : unlinked source s with
    | false =>
      rw [List.filter_cons_of_neg (by rw [hs]; exact Bool.false_ne_true)] at hbit ⊢
      rw [if_neg Bool.false_ne_true, hrest hbit]
    | true =>
      rw [List.filter_cons_of_pos hs] at hbit ⊢
      rw [if_pos rfl, bit?, if_pos (hbit s List.mem_cons_self), Option.bind_some,
        hrest fun segment hmem => hbit segment (List.mem_cons_of_mem _ hmem)]
      rfl

end LinkCursor

/-! ## Links of hop pairs -/

/-- Whether a link leads from hop `j` to the next one. -/
def RecordSource.Joins (source : RecordSource) (j : Nat) (link : Link) : Prop :=
  ∃ earlier later, source.hop? j = some earlier ∧ source.hop? (j + 1) = some later ∧
    link = ⟨earlier.egress, later.ingress⟩

theorem Link.joins_of_behind? {source : RecordSource} {hops : List HopField}
    (hread : ∀ i, source.hop? i = hops[i]?) {j : Nat} {link : Link}
    (h : behind? hops j = some link) : source.Joins j link := by
  unfold behind? at h
  split at h
  next earlier later hearlier hlater =>
    refine ⟨earlier, later, ?_, ?_, (Option.some.inj h).symm⟩
    · rw [hread, hearlier]
    · rw [hread, hlater]
  next => exact absurd h (by simp)

theorem Link.forall₂_joins {source : RecordSource} {hops : List HopField}
    (hread : ∀ i, source.hop? i = hops[i]?) {js : List Nat}
    (hlt : ∀ j ∈ js, j + 1 < hops.length) :
    List.Forall₂ source.Joins js (js.filterMap (behind? hops)) := by
  induction js with
  | nil => exact .nil
  | cons j js ih =>
    obtain ⟨link, hlink⟩ := Option.isSome_iff_exists.mp (isSome_behind? (hlt j List.mem_cons_self))
    rw [List.filterMap_cons_some hlink]
    exact .cons (joins_of_behind? hread hlink) (ih fun i hi => hlt i (List.mem_cons_of_mem _ hi))

/-- A cursor hands out the links of a source of `n` hops in order, no more than one for each two
neighbouring hops, and has nothing to hand out any more once it had nothing. -/
structure LinkCursor.Orderly (source : RecordSource) (n : Nat) (c : LinkCursor) : Prop where
  answer_eq : ∀ k, c.answer source k = source.links[k]?
  ends : ∀ k, n - 1 ≤ k → c.answer source k = none
  fused : ∀ k, c.answer source k = none → ∀ m, k ≤ m → c.answer source m = none
  pairs : ∃ js : List Nat, js.Pairwise (· < ·) ∧ (∀ j ∈ js, j + 1 < n) ∧
    List.Forall₂ source.Joins js source.links

namespace Path

variable {p : Path}

/-- The links of any path lead from some of its hops to the next ones. -/
theorem exists_joins_links (p : Path) : ∃ js : List Nat, js.Sublist (List.range (p.hopCount - 1)) ∧
    List.Forall₂ p.records.Joins js p.records.links := by
  by_cases hfits : p.FitsHeader
  · rw [links_eq_ofHops hfits, Link.ofHops, ← length_hops]
    refine ⟨_, List.filter_sublist, Link.forall₂_joins (hop?_eq_getElem? p) fun j hj => ?_⟩
    exact Link.mem_range_iff.mp (List.mem_of_mem_filter hj)
  · rw [links_of_not_fitsHeader hfits]
    exact ⟨[], List.nil_sublist _, .nil⟩

/-- In a path with valid lengths every segment that counts has an info field. -/
theorem isSome_info? {l : SegmentLengths} (hfault : l.fault? = none) (hd : l.Describes p.sizes)
    {s : Nat} (hs : s < l.infoCount) : (p.info? s).isSome = true := by
  rw [SegmentLengths.lt_infoCount_iff hfault, hd.getD_eq] at hs
  have hlt : s < p.segments.length := by
    by_contra hge
    rw [List.getD_eq_default _ _ (by rw [length_sizes]; exact Nat.le_of_not_lt hge)] at hs
    exact Nat.lt_irrefl 0 hs
  rw [info?, List.getElem?_eq_getElem hlt]
  rfl

/-- No mark is shifted out of the word, and the marks are those of the walk. -/
theorem markAll?_records {l : SegmentLengths} (hfault : l.fault? = none)
    (hd : l.Describes p.sizes) :
    LinkCursor.markAll? p.records l 0 0#64 (List.range l.infoCount) =
      some (true, LinkWalk.mark (LinkWalk.starts p.records l)) := by
  rw [LinkWalk.mark, LinkWalk.starts, List.range_eq_range']
  refine LinkCursor.markAll?_eq (s := 0) l.infoCount ?_ ?_ 0#64
  · intro segment hmem
    rw [← List.range_eq_range'] at hmem
    exact isSome_info? hfault hd (List.mem_range.mp hmem)
  · intro segment hmem
    rw [← List.range_eq_range'] at hmem
    have hstart : (l.segmentSpan segment).start ∈ LinkWalk.starts p.records l :=
      List.mem_map_of_mem hmem
    exact LinkWalk.lt_of_mem_starts hfault hstart

/-- The cursor on any path is built, and it hands out the links of the path. -/
theorem exists_cursor (p : Path) : ∃ c, LinkCursor.ofSource? p.records = some c ∧
    ∀ k, c.answer p.records k = p.records.links[k]? := by
  by_cases hfits : p.FitsHeader
  · obtain ⟨l, hfault, hd⟩ := hfits
    have hahead : LinkCursor.Ahead p.records
        { LinkCursor.idle with
          marks := LinkWalk.mark (LinkWalk.starts p.records l)
          hopCount := l.hopCount
          done := false }
        (LinkWalk.ofSource p.records) := by
      rw [ofSource_records hfault hd]
      refine ⟨rfl, rfl, rfl, rfl, fun i => ?_⟩
      simp only [LinkCursor.idle, Nat.zero_add, hd.hopCount_eq]
      split
      next => exact (hop?_eq_getElem? p i).symm
      next hi => exact List.getElem?_eq_none (by rw [length_hops]; exact Nat.le_of_not_lt hi)
    refine ⟨_, ?_, hahead.answer_step⟩
    rw [LinkCursor.ofSource?, lengths?_records_eq_some_iff.mpr ⟨hfault, hd⟩]
    simp only [markAll?_records hfault hd, Option.map_some, if_true]
  · refine ⟨LinkCursor.idle, ?_, fun k => ?_⟩
    · rw [LinkCursor.ofSource?, lengths?_of_not_fitsHeader hfits]
    · rw [LinkCursor.answer_of_done rfl, links_of_not_fitsHeader hfits, List.getElem?_nil]

theorem exists_orderly (p : Path) : ∃ c, LinkCursor.ofSource? p.records = some c ∧
    c.Orderly p.records p.hopCount := by
  obtain ⟨c, hbuilt, hanswer⟩ := p.exists_cursor
  obtain ⟨js, hsub, hjoins⟩ := p.exists_joins_links
  have hcount : p.records.links.length ≤ p.hopCount - 1 := by
    rw [← hjoins.length_eq, ← List.length_range (n := p.hopCount - 1)]
    exact hsub.length_le
  refine ⟨c, hbuilt, hanswer, ?_, ?_, js, ?_, ?_, hjoins⟩
  · intro k hk
    rw [hanswer, List.getElem?_eq_none (Nat.le_trans hcount hk)]
  · exact fun _ hnone _ hle => LinkCursor.answer_none_mono hnone hle
  · exact List.pairwise_lt_range.sublist hsub
  · intro j hj
    have hlt := List.mem_range.mp (hsub.subset hj)
    omega

end Path

/-- The links of every path can be iterated over, whether the path is valid or not, and likewise
those of an accepted view, whatever has been done to it, even to its position.  Building the cursor
shifts no mark out of the word.  The cursor hands out the links of hop pairs in increasing order,
ends after at most one link less than there are hops, and stays at its end. -/
theorem links_iterated_in_order :
    (∀ p : Path, ∃ c, LinkCursor.ofSource? p.records = some c ∧
      c.Orderly p.records p.hopCount) ∧
    ∀ b accepted rest, PathView.ofBytes b = .ok (accepted, rest) → ∀ edits,
      ∃ c, LinkCursor.ofSource? (accepted.after edits).records = some c ∧
        c.Orderly (accepted.after edits).records (accepted.after edits).hopCount := by
  refine ⟨Path.exists_orderly, fun b accepted rest haccept edits => ?_⟩
  obtain ⟨-, hsound, -⟩ := PathView.ofBytes_eq_ok_iff.mp haccept
  obtain ⟨hafter, -⟩ := hsound.after edits
  -- the view is read like the path that it stands for
  have hpath := (accepted.after edits).toPath.exists_orderly
  rwa [hafter.records_toPath, hafter.hopCount_toPath] at hpath

/-- Two segments of two hops and one hop.  The step to the last hop, which is marked, finds no hop
behind it. -/
example :
    let hop (ingress egress : UInt16) : HopField := ⟨HopFlags.none, 63, ingress, egress, Mac.zero⟩
    let p : Path := ⟨0, 0, [⟨⟨⟨1⟩, 7, 1000⟩, [hop 0 1, hop 2 0]⟩, ⟨⟨⟨1⟩, 7, 1000⟩, [hop 0 3]⟩]⟩
    (LinkCursor.ofSource? p.records).map (fun c => (List.range 3).map (c.answer p.records)) =
      some [some ⟨1, 2⟩, none, none] := by
  decide

end SourceRoute
