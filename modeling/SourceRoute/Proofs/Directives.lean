import Mathlib.Data.List.Induction
import Mathlib.Data.List.ModifyLast
import Mathlib.Data.List.TakeWhile
import SourceRoute.Build.Draft
import SourceRoute.Build.Shortcut

/-!
# What directives describe

What a row of directives describes can be said without a draft that is worked out from front to
back.  Every value that a segment or a hop gets is the one that was last set before it, every hop
belongs to the segment that was last added before it, and a directive that needs a segment is
misplaced where none was added before it.
-/

namespace SourceRoute

theorem InfoFlags.withPeering_withPeering (f : InfoFlags) :
    f.withPeering.withPeering = f.withPeering := by
  rw [withPeering, withPeering, UInt8.or_assoc, UInt8.or_self]

/-! ## Single directives -/

namespace Directive

/-- The timestamp that a directive sets. -/
def timestamp? : Directive → Option UInt32
  | timestamp t => some t
  | _ => none

/-- The lifetime that a directive sets. -/
def lifetime? : Directive → Option UInt8
  | lifetime t => some t
  | _ => none

/-- The key that a directive sets. -/
def key? : Directive → Option ForwardingKey
  | key k => some k
  | _ => none

/-- The position that a directive sets. -/
def position? : Directive → Option (UInt8 × UInt8)
  | position currentInfo currentHop => some (currentInfo, currentHop)
  | _ => none

/-- The seeds that a directive sets. -/
def seeds? : Directive → Option PeeringSeeds
  | seeds s => some s
  | _ => none

/-- Whether a directive adds a segment. -/
def addsSegment : Directive → Bool
  | segment _ _ => true
  | _ => false

/-- Whether a directive sets the peering flag. -/
def setsPeering : Directive → Bool
  | peering => true
  | _ => false

/-- The mistake that a directive makes where there is no segment yet. -/
def mistake? : Directive → Option BuildFault
  | peering => some .noSegments
  | hop _ _ _ _ => some .hopBeforeSegments
  | hopOutline _ _ => some .hopBeforeSegments
  | _ => none

/-! ## Rows of directives -/

/-- The value that some directives set last. -/
def lastSet? {α : Type} (setting : Directive → Option α) (ds : List Directive) : Option α :=
  (ds.filterMap setting).getLast?

/-- The number of segments that some directives add. -/
def segmentCount (ds : List Directive) : Nat := ds.countP addsSegment

/-- Each directive with those before it. -/
def withHistory (ds : List Directive) : List (List Directive × Directive) :=
  ds.mapIdx fun i d => (ds.take i, d)

/-- The directives that stand before the first segment. -/
def beforeSegments (ds : List Directive) : List Directive := ds.takeWhile fun d => !d.addsSegment

/-- The mistake of the earliest directive that needs a segment and stands before the first one. -/
def firstMisplaced? (ds : List Directive) : Option BuildFault :=
  (beforeSegments ds).findSome? mistake?

/-! ## What is described -/

/-- The segment that a directive adds behind some others, without hops. -/
def addedSegment? (before : List Directive) : Directive → Option SegmentOutline
  | segment flags segmentId =>
    some ⟨flags, segmentId, (lastSet? timestamp? before).getD 0, []⟩
  | _ => none

/-- The hop that a directive adds behind some others, with its key. -/
def addedHop? (before : List Directive) : Directive → Option (HopOutline × ForwardingKey)
  | hop ingress egress ownKey owner =>
    let expTime := (lastSet? lifetime? before).getD HopOutline.maxExpTime
    let latestKey := (lastSet? key? before).getD ForwardingKey.zero
    some ({ HopOutline.between ingress egress with expTime, owner }, ownKey.getD latestKey)
  | hopOutline outline ownKey => some (outline, ownKey)
  | _ => none

/-- The segments that directives add, without hops. -/
def addedSegments (ds : List Directive) : List SegmentOutline :=
  (withHistory ds).filterMap fun (before, d) => addedSegment? before d

/-- The hops that directives add to the segment with a number, counted from one.  That many segments
were added before each of them. -/
def hopsOf (ds : List Directive) (number : Nat) : List (HopOutline × ForwardingKey) :=
  (withHistory ds).filterMap fun (before, d) =>
    if segmentCount before = number then addedHop? before d else none

/-- Whether directives set the peering flag of the segment with a number. -/
def peersIn (ds : List Directive) (number : Nat) : Bool :=
  (withHistory ds).any fun (before, d) => segmentCount before = number && d.setsPeering

/-- The segment with a number, as directives describe it. -/
def describe (ds : List Directive) (number : Nat) (s : SegmentOutline) : KeyedSegment where
  outline :=
    { s with
      flags := if peersIn ds number then s.flags.withPeering else s.flags
      hops := (hopsOf ds number).map Prod.fst }
  keys := (hopsOf ds number).map Prod.snd

/-- The segments that directives describe. -/
def described (ds : List Directive) : List KeyedSegment :=
  (addedSegments ds).mapIdx fun index s => describe ds (index + 1) s

/-- The plan that directives describe. -/
def describedPlan (ds : List Directive) : PathPlan where
  segments := (described ds).map KeyedSegment.outline
  keys := (described ds).map KeyedSegment.keys
  seeds := lastSet? seeds? ds
  currentInfo := ((lastSet? position? ds).getD (0, 0)).1
  currentHop := ((lastSet? position? ds).getD (0, 0)).2

/-! ## One more directive -/

section

variable {ds before : List Directive} {d : Directive} {number : Nat} {s : SegmentOutline}

theorem lastSet?_append {α : Type} (setting : Directive → Option α) (ds : List Directive)
    (d : Directive) : lastSet? setting (ds ++ [d]) = (setting d).or (lastSet? setting ds) := by
  rw [lastSet?, List.filterMap_append, List.getLast?_append]
  cases h : setting d <;> simp [h, lastSet?]

theorem segmentCount_append (ds : List Directive) (d : Directive) :
    segmentCount (ds ++ [d]) = segmentCount ds + if d.addsSegment then 1 else 0 := by
  rw [segmentCount, List.countP_append, List.countP_singleton]
  rfl

theorem withHistory_append (ds : List Directive) (d : Directive) :
    withHistory (ds ++ [d]) = withHistory ds ++ [(ds, d)] := by
  rw [withHistory, List.mapIdx_concat, List.take_left, withHistory]
  congr 1
  -- the new directive does not stand before any of the others
  apply List.mapIdx_eq_mapIdx_iff.mpr
  intro i hi
  rw [List.take_append_of_le_length (Nat.le_of_lt hi)]

theorem segmentCount_le_of_mem (h : (before, d) ∈ withHistory ds) :
    segmentCount before ≤ segmentCount ds := by
  obtain ⟨i, _, hi⟩ := List.mem_mapIdx.mp h
  obtain ⟨rfl, -⟩ := Prod.mk.inj hi
  exact (List.take_sublist i ds).countP_le

theorem beforeSegments_eq_self_iff : beforeSegments ds = ds ↔ segmentCount ds = 0 := by
  rw [beforeSegments, List.takeWhile_eq_self_iff, segmentCount, List.countP_eq_zero]
  simp

theorem beforeSegments_append (ds : List Directive) (d : Directive) :
    beforeSegments (ds ++ [d]) =
      beforeSegments ds ++ if segmentCount ds = 0 then beforeSegments [d] else [] := by
  have happend : beforeSegments (ds ++ [d]) =
      if (beforeSegments ds).length = ds.length then ds ++ beforeSegments [d]
      else beforeSegments ds := List.takeWhile_append
  -- a row is all before the first segment exactly if it adds none
  have hlength : (beforeSegments ds).length = ds.length ↔ segmentCount ds = 0 := by
    rw [← beforeSegments_eq_self_iff]
    exact ⟨(List.takeWhile_prefix _).eq_of_length, congrArg List.length⟩
  rw [happend]
  by_cases hcount : segmentCount ds = 0
  · rw [if_pos (hlength.mpr hcount), if_pos hcount, beforeSegments_eq_self_iff.mpr hcount]
  · rw [if_neg (mt hlength.mp hcount), if_neg hcount, List.append_nil]

theorem findSome?_beforeSegments_singleton (d : Directive) :
    (beforeSegments [d]).findSome? mistake? = d.mistake? := by
  cases d <;> rfl

theorem firstMisplaced?_append (ds : List Directive) (d : Directive) :
    firstMisplaced? (ds ++ [d]) =
      (firstMisplaced? ds).or (if segmentCount ds = 0 then d.mistake? else none) := by
  rw [firstMisplaced?, beforeSegments_append, List.findSome?_append]
  split
  next => rw [findSome?_beforeSegments_singleton, firstMisplaced?]
  next => rfl

theorem addedSegments_append (ds : List Directive) (d : Directive) :
    addedSegments (ds ++ [d]) = addedSegments ds ++ (addedSegment? ds d).toList := by
  rw [addedSegments, withHistory_append, List.filterMap_append]
  cases h : addedSegment? ds d <;> simp [h, addedSegments]

theorem hopsOf_append (ds : List Directive) (d : Directive) (number : Nat) :
    hopsOf (ds ++ [d]) number = hopsOf ds number ++
      if segmentCount ds = number then (addedHop? ds d).toList else [] := by
  rw [hopsOf, withHistory_append, List.filterMap_append]
  -- the new directive belongs to the segment that was added last
  by_cases hnumber : segmentCount ds = number
  · cases h : addedHop? ds d <;> simp [h, hnumber, hopsOf]
  · simp [hnumber, hopsOf]

theorem peersIn_append (ds : List Directive) (d : Directive) (number : Nat) :
    peersIn (ds ++ [d]) number =
      (peersIn ds number || (decide (segmentCount ds = number) && d.setsPeering)) := by
  rw [peersIn, withHistory_append, List.any_append, peersIn]
  simp

theorem length_addedSegments (ds : List Directive) :
    (addedSegments ds).length = segmentCount ds := by
  induction ds using List.reverseRecOn with
  | nil => rfl
  | append_singleton ds d ih =>
    rw [addedSegments_append, segmentCount_append, List.length_append, ih]
    cases d <;> rfl

theorem length_described (ds : List Directive) : (described ds).length = segmentCount ds := by
  rw [described, List.length_mapIdx, length_addedSegments]

/-- Nothing is described of a segment that is not there yet. -/
theorem describe_of_lt (h : segmentCount ds < number) :
    describe ds number s = ⟨{ s with hops := [] }, []⟩ := by
  -- fewer segments were added so far, so no directive belongs to this one
  have hne {before : List Directive} {d : Directive} (hmem : (before, d) ∈ withHistory ds) :
      segmentCount before ≠ number := by
    have hle := segmentCount_le_of_mem hmem
    omega
  have hhops : hopsOf ds number = [] := by
    rw [hopsOf, List.filterMap_eq_nil_iff]
    rintro ⟨before, d⟩ hmem
    exact if_neg (hne hmem)
  have hpeers : peersIn ds number = false := by
    rw [peersIn, List.any_eq_false]
    rintro ⟨before, d⟩ hmem
    simp [hne hmem]
  rw [describe, hhops, hpeers]
  rfl

/-- What a directive behind some others changes in the last segment. -/
def touch (before : List Directive) (d : Directive) (part : KeyedSegment) : KeyedSegment where
  outline :=
    { part.outline with
      flags := if d.setsPeering then part.outline.flags.withPeering else part.outline.flags
      hops := part.outline.hops ++ ((addedHop? before d).map Prod.fst).toList }
  keys := part.keys ++ ((addedHop? before d).map Prod.snd).toList

theorem touch_of_none {part : KeyedSegment} (hpeering : d.setsPeering = false)
    (hhop : addedHop? before d = none) : touch before d part = part := by
  simp [touch, hpeering, hhop]

theorem touch_peering (before : List Directive) (part : KeyedSegment) :
    touch before peering part = { part with outline := part.outline.withPeering } := by
  simp [touch, setsPeering, addedHop?, SegmentOutline.withPeering]

theorem describe_append (ds : List Directive) (d : Directive) (number : Nat) (s : SegmentOutline) :
    describe (ds ++ [d]) number s =
      if segmentCount ds = number then touch ds d (describe ds number s)
      else describe ds number s := by
  rw [describe, hopsOf_append, peersIn_append]
  by_cases hnumber : segmentCount ds = number
  · simp only [hnumber, if_true, decide_true, Bool.true_and, touch, describe, List.map_append,
      KeyedSegment.mk.injEq, SegmentOutline.mk.injEq, true_and]
    refine ⟨⟨?_, ?_⟩, ?_⟩
    · -- setting the flag twice is setting it once
      cases peersIn ds number <;> cases d.setsPeering <;>
        simp [InfoFlags.withPeering_withPeering]
    · cases addedHop? ds d <;> rfl
    · cases addedHop? ds d <;> rfl
  · simp [hnumber, describe]

theorem described_append_of_segment {flags : InfoFlags} {segmentId : UInt16}
    (hd : d = segment flags segmentId) :
    described (ds ++ [d]) = described ds ++
      [⟨⟨flags, segmentId, (lastSet? timestamp? ds).getD 0, []⟩, []⟩] := by
  subst hd
  -- adding a segment touches none of those before
  have hsame (number : Nat) (s : SegmentOutline) :
      describe (ds ++ [segment flags segmentId]) number s = describe ds number s := by
    rw [describe_append, touch_of_none rfl rfl, ite_self]
  rw [described, addedSegments_append, addedSegment?, Option.toList_some, List.mapIdx_concat,
    length_addedSegments]
  simp only [hsame]
  -- the new segment has no hops, keys or flag of its own yet
  rw [describe_of_lt (Nat.lt_succ_self _), described]

/-- A directive that adds no segment changes the last one alone. -/
theorem described_append_of_not_segment (hd : d.addsSegment = false) :
    described (ds ++ [d]) = (described ds).modifyLast (touch ds d) := by
  -- there are as many segments as before
  have hsegments : addedSegments (ds ++ [d]) = addedSegments ds := by
    rw [addedSegments_append]
    cases d with
    | segment => exact absurd hd (by simp [addsSegment])
    | _ => exact List.append_nil _
  have hcount := length_addedSegments ds
  rw [described, described, hsegments]
  rcases List.eq_nil_or_concat (addedSegments ds) with hnil | ⟨front, last, hlast⟩
  · rw [hnil]
    rfl
  · -- the last segment is the one whose number is the count, all others have smaller numbers
    rw [List.concat_eq_append] at hlast
    rw [hlast, List.length_append, List.length_singleton] at hcount
    rw [hlast, List.mapIdx_concat, List.mapIdx_concat, List.modifyLast_concat, describe_append,
      if_pos hcount.symm]
    congr 1
    apply List.mapIdx_eq_mapIdx_iff.mpr
    intro index hindex
    rw [describe_append, if_neg (by omega)]

end

end Directive

end SourceRoute
