import SourceRoute.Build.Shortcut
import SourceRoute.Proofs.BuildLaws

/-!
# Segments with their keys

Shortcuts and paths over a peering link are built from segments that come with their keys, and start
at the first hop.  Such a plan is given by its parts and its seeds, and a part stays a part when it
is cut at a hop, hops and keys alike.
-/

namespace SourceRoute

namespace KeyedSegment

/-! ## Keys and hops -/

variable {part : KeyedSegment} {k : Nat}

/-- The number of hops. -/
def size (part : KeyedSegment) : Nat := part.outline.size

/-- There are as many keys as hops. -/
def Matched (part : KeyedSegment) : Prop := part.keys.length = part.size

theorem forall_matched_iff (parts : List KeyedSegment) :
    (∀ (s : Nat) outline keys, (parts.map KeyedSegment.outline)[s]? = some outline →
      (parts.map KeyedSegment.keys)[s]? = some keys → keys.length = outline.size) ↔
      ∀ part ∈ parts, part.Matched := by
  constructor
  · -- a part stands at some index, with its outline and its keys
    intro h part hpart
    obtain ⟨s, hs⟩ := List.getElem?_of_mem hpart
    apply h s part.outline part.keys
    · rw [List.getElem?_map, hs]
      rfl
    · rw [List.getElem?_map, hs]
      rfl
  · -- the outline and the keys at an index are those of one part
    intro h s outline keys houtline hkeys
    rw [List.getElem?_map, Option.map_eq_some_iff] at houtline hkeys
    obtain ⟨part, hpart, rfl⟩ := houtline
    obtain ⟨part', hpart', rfl⟩ := hkeys
    obtain rfl := Option.some.inj (hpart.symm.trans hpart')
    exact h part (List.mem_of_getElem? hpart)

/-! ## Parts of a segment -/

/-- The hops up to and including one, with their keys. -/
def upTo (part : KeyedSegment) (k : Nat) : KeyedSegment where
  outline := { part.outline with hops := part.outline.hops.take (k + 1) }
  keys := part.keys.take (k + 1)

/-- The hops from one on, with their keys. -/
def startingAt (part : KeyedSegment) (k : Nat) : KeyedSegment where
  outline := { part.outline with hops := part.outline.hops.drop k }
  keys := part.keys.drop k

theorem size_upTo (hk : k < part.size) : (part.upTo k).size = k + 1 :=
  List.length_take_of_le hk

theorem size_startingAt (part : KeyedSegment) (k : Nat) :
    (part.startingAt k).size = part.size - k := List.length_drop

theorem Matched.upTo (h : part.Matched) (k : Nat) : (part.upTo k).Matched := by
  show (part.keys.take (k + 1)).length = (part.outline.hops.take (k + 1)).length
  rw [List.length_take, List.length_take, h, size, SegmentOutline.size]

theorem Matched.startingAt (h : part.Matched) (k : Nat) : (part.startingAt k).Matched := by
  show (part.keys.drop k).length = (part.outline.hops.drop k).length
  rw [List.length_drop, List.length_drop, h, size, SegmentOutline.size]

end KeyedSegment

namespace PathPlan

/-! ## Plans -/

/-- The plan of a path at its first hop. -/
def ofKeyed (parts : List KeyedSegment) (seeds : Option PeeringSeeds) : PathPlan where
  segments := parts.map KeyedSegment.outline
  keys := parts.map KeyedSegment.keys
  seeds := seeds
  currentInfo := 0
  currentHop := 0

variable {parts : List KeyedSegment} {seeds : Option PeeringSeeds}

theorem sizes_ofKeyed (parts : List KeyedSegment) (seeds : Option PeeringSeeds) :
    (ofKeyed parts seeds).sizes = parts.map KeyedSegment.size := List.map_map

/-- A plan at its first hop has no mistake if its sizes fit a header, its keys match, and its seeds
are there exactly if they are needed. -/
theorem valid_ofKeyed_iff : (ofKeyed parts seeds).Valid ↔
    ValidSizes (parts.map KeyedSegment.size) ∧ (∀ part ∈ parts, part.Matched) ∧
      (seeds.isSome = true ↔ ∃ s, (ofKeyed parts seeds).PeersAfter s) := by
  rw [← sizes_ofKeyed parts seeds, ← KeyedSegment.forall_matched_iff]
  constructor
  · exact fun h => ⟨h.sizes, h.keyCount, h.seeds⟩
  · -- each part brings its keys, and the first hop is in the first segment
    rintro ⟨hvalid, hmatched, hseeds⟩
    exact
      { sizes := hvalid
        groupCount := by rw [ofKeyed, List.length_map, List.length_map]
        keyCount := hmatched
        seeds := hseeds
        position := ⟨0, Runs.locate_zero hvalid.ne_nil hvalid.pos⟩ }

theorem Valid.sizes_path_ofKeyed (h : (ofKeyed parts seeds).Valid) :
    (ofKeyed parts seeds).path.sizes = parts.map KeyedSegment.size :=
  h.sizes_path.trans (sizes_ofKeyed parts seeds)

theorem not_peersAfter_singleton {part : KeyedSegment} {s : Nat} :
    ¬(ofKeyed [part] seeds).PeersAfter s := by
  -- a single segment has none behind it
  rintro ⟨_, _, -, hafter, -, -⟩
  exact absurd hafter (by simp [ofKeyed])

theorem peersAfter_pair_iff (before after : KeyedSegment) {s : Nat} :
    (ofKeyed [before, after] seeds).PeersAfter s ↔
      s = 0 ∧ before.outline.flags.peering = true ∧ after.outline.flags.peering = true := by
  constructor
  · rintro ⟨_, _, hbefore, hafter, hpeering⟩
    cases s with
    | zero =>
      obtain rfl := Option.some.inj hbefore
      obtain rfl := Option.some.inj hafter
      exact ⟨rfl, hpeering⟩
    | succ s => exact absurd hafter (by simp [ofKeyed])
  · rintro ⟨rfl, hpeering⟩
    exact ⟨_, _, rfl, rfl, hpeering⟩

end PathPlan

end SourceRoute
