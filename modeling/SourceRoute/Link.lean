import SourceRoute.Records

/-!
# Links between ASes

A packet leaves one AS through the second interface of its hop field and enters the next through the
first interface of the next one.  At an ordinary change of segment the AS appears twice, as the last
hop of one segment and the first of the next, and there is no link between the two.  A segment with
the peering flag begins behind a peering link, which is kept.

A `LinkWalk` yields the links one by one.  It marks, in a word of 64 bits, the hops that begin a
segment without a link before it, and reads two hops at once where a hop is marked.
-/

namespace SourceRoute

/-- A link from one AS to the next, in the direction of the visit. -/
structure Link where
  /-- Where the packet leaves the earlier AS. -/
  egress : UInt16
  /-- Where the packet enters the later AS. -/
  ingress : UInt16
deriving DecidableEq

/-- A walk along the links of a path. -/
structure LinkWalk where
  /-- One bit for each hop that begins a segment without a link before it. -/
  marks : BitVec 64
  /-- The index of the next hop. -/
  index : Nat
  /-- The second interface of the hop before. -/
  egress : UInt16
  /-- The hops from the next one on. -/
  rest : List HopField

namespace LinkWalk

/-! ## Marks -/

/-- The first hops of the segments without a link before them: the first segment, and those without
the peering flag. -/
def starts (source : RecordSource) (lengths : SegmentLengths) : List Nat :=
  let unlinked := (List.range lengths.infoCount).filter fun segment =>
    segment = 0 || !(source.info? segment).any fun info => info.flags.peering
  unlinked.map fun segment => (lengths.segmentSpan segment).start

/-- The word with the given bits set. -/
def mark (positions : List Nat) : BitVec 64 :=
  positions.foldl (fun marks position => marks ||| (1#64 <<< position)) 0#64

/-! ## Walking -/

/-- The walk that yields nothing. -/
def ended : LinkWalk := ⟨0#64, 0, 0, []⟩

/-- The walk from the first hop on.  A path whose lengths are not valid has no links. -/
def ofSource (source : RecordSource) : LinkWalk :=
  match source.lengths? with
  | none => ended
  | some lengths =>
    { marks := mark (starts source lengths)
      index := 0
      egress := 0
      rest := (List.range lengths.hopCount).filterMap source.hop? }

/-- The next link, if there is one, and the walk behind it.  At a marked hop the link joins that hop
to the one behind it; elsewhere it joins the hop before to the next one. -/
def next (w : LinkWalk) : Option Link × LinkWalk :=
  match w.marks.getLsbD w.index, w.rest with
  -- two hops are taken at once, and the mark of the second one is not looked at
  | true, first :: second :: rest =>
    (some ⟨first.egress, second.ingress⟩, ⟨w.marks, w.index + 2, second.egress, rest⟩)
  | false, hop :: rest =>
    (some ⟨w.egress, hop.ingress⟩, ⟨w.marks, w.index + 1, hop.egress, rest⟩)
  | _, _ => (none, { w with rest := [] })

/-- A walk gets shorter with each link. -/
theorem length_rest_next {w : LinkWalk} {link : Link} {after : LinkWalk}
    (h : w.next = (some link, after)) : after.rest.length < w.rest.length := by
  unfold next at h
  split at h
  next hrest =>
    obtain ⟨-, rfl⟩ := Prod.mk.inj h
    simp only [hrest, List.length_cons]
    omega
  next hrest =>
    obtain ⟨-, rfl⟩ := Prod.mk.inj h
    simp only [hrest, List.length_cons]
    omega
  next => simp at h

/-- All links that a walk yields. -/
def toList (w : LinkWalk) : List Link :=
  match _h : w.next with
  | (some link, after) => link :: after.toList
  | (none, _) => []
termination_by w.rest.length
decreasing_by exact length_rest_next ‹w.next = _›

end LinkWalk

/-- The links of a path, in the order of the visit. -/
def RecordSource.links (source : RecordSource) : List Link := (LinkWalk.ofSource source).toList

end SourceRoute
