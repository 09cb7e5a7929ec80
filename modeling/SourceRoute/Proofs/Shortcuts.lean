import SourceRoute.Proofs.ConsecutiveLinks
import SourceRoute.Proofs.KeyedSegments

/-!
# Laws of shortcuts

Two segments are joined at the first hop of the up segment whose AS is on the down segment, and at
the first place of that AS there.  `Shortcut.MeetsAt` says that of an AS and two indices, which it
determines.  The path that is built has the hops of `Shortcut.route`, cut at these indices together
with their keys, and its links are those of the two parts, whichever of them was left out.
-/

namespace SourceRoute

/-! ## The common hop -/

/-- The AS of a hop, if there is such a hop and its AS is known. -/
def SegmentOutline.ownerAt? (s : SegmentOutline) (k : Nat) : Option IsdAs :=
  s.hops[k]?.bind HopOutline.owner

private theorem map_owner_eq {hops : List HopOutline} (h : ∀ hop ∈ hops, hop.owner ≠ none) :
    hops.map HopOutline.owner = (hops.filterMap HopOutline.owner).map some := by
  induction hops with
  | nil => rfl
  | cons hop hops ih =>
    obtain ⟨owner, howner⟩ := Option.ne_none_iff_exists'.mp (h hop List.mem_cons_self)
    have hrest := ih fun hop hmem => h hop (List.mem_cons_of_mem _ hmem)
    rw [List.map_cons, List.filterMap_cons_some howner, List.map_cons, howner, hrest]

/-- All ASes are known, and these are they. -/
theorem SegmentOutline.owners_eq_ok_iff {s : SegmentOutline} {segment : Nat} {owners : List IsdAs} :
    s.owners segment = .ok owners ↔ s.hops.map HopOutline.owner = owners.map some := by
  rw [SegmentOutline.owners]
  split
  next hop hunknown =>
    simp only [reduceCtorEq, false_iff]
    intro hknown
    obtain ⟨hlt, hnone, -⟩ := List.findIdx?_eq_some_iff_getElem.mp hunknown
    have hmem : s.hops[hop].owner ∈ owners.map some :=
      hknown ▸ List.mem_map_of_mem (List.getElem_mem hlt)
    rw [of_decide_eq_true hnone] at hmem
    simp at hmem
  next hknown =>
    have hall : ∀ hop ∈ s.hops, hop.owner ≠ none := fun hop hmem =>
      of_decide_eq_false (List.findIdx?_eq_none_iff.mp hknown hop hmem)
    rw [Except.ok.injEq, map_owner_eq hall]
    exact ⟨congrArg _, fun h => List.map_injective_iff.mpr (fun _ _ => Option.some.inj) h⟩

theorem SegmentOutline.exists_owners_iff {s : SegmentOutline} {segment : Nat} :
    (∃ owners, s.owners segment = .ok owners) ↔ ∀ hop ∈ s.hops, hop.owner.isSome = true := by
  simp only [owners_eq_ok_iff]
  constructor
  · rintro ⟨owners, h⟩ hop hmem
    obtain ⟨owner, -, howner⟩ := List.mem_map.mp (h ▸ List.mem_map_of_mem hmem)
    exact howner ▸ rfl
  · intro h
    exact ⟨_, map_owner_eq fun hop hmem => Option.isSome_iff_ne_none.mp (h hop hmem)⟩

theorem SegmentOutline.ownerAt?_eq {s : SegmentOutline} {owners : List IsdAs}
    (h : s.hops.map HopOutline.owner = owners.map some) (k : Nat) : s.ownerAt? k = owners[k]? := by
  have hget : (s.hops.map HopOutline.owner)[k]? = (owners.map some)[k]? := congrArg (·[k]?) h
  rw [List.getElem?_map, List.getElem?_map] at hget
  calc s.ownerAt? k = (s.hops[k]?.map HopOutline.owner).bind id := by rw [Option.bind_map]; rfl
    _ = (owners[k]?.map some).bind id := by rw [hget]
    _ = owners[k]? := by cases owners[k]? <;> rfl

theorem SegmentOutline.getElem?_map_owner_iff {outline : SegmentOutline} {k : Nat} {owner : IsdAs} :
    (outline.hops.map HopOutline.owner)[k]? = some (some owner) ↔
      outline.ownerAt? k = some owner := by
  rw [List.getElem?_map, ownerAt?]
  cases outline.hops[k]? <;> simp

/-- In a segment that lists no AS twice, an AS has one place. -/
theorem SegmentOutline.index_unique {outline : SegmentOutline} {k k' : Nat} {owner : IsdAs}
    (hnodup : (outline.hops.map HopOutline.owner).Nodup) (hk : outline.ownerAt? k = some owner)
    (hk' : outline.ownerAt? k' = some owner) : k = k' := by
  rw [← getElem?_map_owner_iff] at hk hk'
  exact (List.getElem?_inj (List.getElem?_eq_some_iff.mp hk).1 hnodup).mp (hk.trans hk'.symm)

theorem KeyedSegment.ownerAt?_upTo {part : KeyedSegment} {i k : Nat} {owner : IsdAs}
    (h : (part.upTo i).outline.ownerAt? k = some owner) :
    k ≤ i ∧ part.outline.ownerAt? k = some owner := by
  change (part.outline.hops.take (i + 1))[k]?.bind HopOutline.owner = some owner at h
  rw [List.getElem?_take] at h
  split at h
  next hk => exact ⟨Nat.le_of_lt_succ hk, h⟩
  next => exact absurd h (Option.some_ne_none owner).symm

theorem KeyedSegment.ownerAt?_startingAt (part : KeyedSegment) (j k : Nat) :
    (part.startingAt j).outline.ownerAt? k = part.outline.ownerAt? (j + k) := by
  show (part.outline.hops.drop j)[k]?.bind HopOutline.owner = _
  rw [List.getElem?_drop]
  rfl

namespace CommonHop

variable {up down : List IsdAs}

/-- The first place of an AS. -/
theorem findIdx?_eq_some_iff {owner : IsdAs} {j : Nat} :
    down.findIdx? (· = owner) = some j ↔ down[j]? = some owner ∧ ∀ j' < j, down[j']? ≠ some owner := by
  rw [List.findIdx?_eq_some_iff_getElem]
  constructor
  · rintro ⟨hj, howner, hfirst⟩
    refine ⟨?_, ?_⟩
    · rw [List.getElem?_eq_getElem hj, of_decide_eq_true howner]
    · intro j' hj' hget
      obtain ⟨hlt, hget⟩ := List.getElem?_eq_some_iff.mp hget
      exact hfirst j' hj' (decide_eq_true hget)
  · rintro ⟨hget, hfirst⟩
    obtain ⟨hj, howner⟩ := List.getElem?_eq_some_iff.mp hget
    refine ⟨hj, decide_eq_true howner, ?_⟩
    intro j' hj' hsame
    refine hfirst j' hj' ?_
    rw [List.getElem?_eq_getElem (Nat.lt_trans hj' hj), of_decide_eq_true hsame]

theorem findIdx?_eq_none_iff {owner : IsdAs} :
    down.findIdx? (· = owner) = none ↔ ∀ j : Nat, down[j]? ≠ some owner := by
  rw [List.findIdx?_eq_none_iff]
  constructor
  · intro h j hget
    exact of_decide_eq_false (h owner (List.mem_of_getElem? hget)) rfl
  · intro h owner' hmem
    obtain ⟨j, hget⟩ := List.getElem?_of_mem hmem
    exact decide_eq_false fun hsame => h j (hsame ▸ hget)

/-- The search from a hop of the up segment on. -/
def findFrom? (up down : List IsdAs) (start : Nat) : Option CommonHop :=
  (up.zipIdx start).findSome? fun (owner, i) =>
    (down.findIdx? (· = owner)).map fun j => ⟨owner, i, j⟩

theorem findFrom?_cons_of_some {first : IsdAs} {j : Nat}
    (h : down.findIdx? (· = first) = some j) (start : Nat) :
    findFrom? (first :: up) down start = some ⟨first, start, j⟩ := by
  simp only [findFrom?, List.zipIdx_cons, List.findSome?_cons, h, Option.map_some]

theorem findFrom?_cons_of_none {first : IsdAs} (h : down.findIdx? (· = first) = none)
    (start : Nat) : findFrom? (first :: up) down start = findFrom? up down (start + 1) := by
  simp only [findFrom?, List.zipIdx_cons, List.findSome?_cons, h, Option.map_none]

/-- The search finds the first hop whose AS is on the down segment. -/
theorem findFrom?_eq_some_iff {start : Nat} {common : CommonHop} :
    findFrom? up down start = some common ↔
      ∃ i, common.up = start + i ∧ up[i]? = some common.owner ∧
        down.findIdx? (· = common.owner) = some common.down ∧
        ∀ i' < i, ∀ owner, up[i']? = some owner → down.findIdx? (· = owner) = none := by
  induction up generalizing start with
  | nil => simp [findFrom?]
  | cons first up ih =>
    cases hfirst : down.findIdx? (· = first) with
    | some j =>
      rw [findFrom?_cons_of_some hfirst, Option.some.injEq]
      constructor
      · rintro rfl
        exact ⟨0, rfl, rfl, hfirst, fun i' hi' => absurd hi' (Nat.not_lt_zero i')⟩
      · rintro ⟨i, hup, howner, hdown, hbefore⟩
        cases i with
        | zero =>
          cases common
          obtain rfl := Option.some.inj howner
          obtain rfl := Option.some.inj (hfirst.symm.trans hdown)
          exact congrArg (CommonHop.mk first · j) hup.symm
        | succ i =>
          have hnone := hbefore 0 (Nat.zero_lt_succ i) first rfl
          exact absurd (hfirst.symm.trans hnone) (Option.some_ne_none j)
    | none =>
      rw [findFrom?_cons_of_none hfirst, ih]
      -- the indices behind the first hop are counted from the next one on
      constructor
      · rintro ⟨i, hup, howner, hdown, hbefore⟩
        refine ⟨i + 1, hup.trans (Nat.add_right_comm ..), howner, hdown, ?_⟩
        intro i' hi' owner hget
        cases i' with
        | zero => exact Option.some.inj hget ▸ hfirst
        | succ i' => exact hbefore i' (Nat.lt_of_succ_lt_succ hi') owner hget
      · rintro ⟨i, hup, howner, hdown, hbefore⟩
        cases i with
        | zero =>
          obtain rfl := Option.some.inj howner
          exact absurd (hfirst.symm.trans hdown) (Option.some_ne_none _).symm
        | succ i =>
          exact ⟨i, hup.trans (Nat.add_right_comm start 1 i).symm, howner, hdown,
            fun i' hi' => hbefore (i' + 1) (Nat.succ_lt_succ hi')⟩

end CommonHop

namespace Shortcut

variable {s : Shortcut} {owner owner' : IsdAs} {i i' j j' : Nat}

/-- The segments are joined at an AS: it is the AS of the first hop of the up segment whose AS is on
the down segment, and it is first found there at the second index. -/
structure MeetsAt (s : Shortcut) (owner : IsdAs) (i j : Nat) : Prop where
  up : s.up.outline.ownerAt? i = some owner
  down : s.down.outline.ownerAt? j = some owner
  first_up : ∀ i' < i, ∀ a, s.up.outline.ownerAt? i' = some a →
    ∀ j', s.down.outline.ownerAt? j' ≠ some a
  first_down : ∀ j' < j, s.down.outline.ownerAt? j' ≠ some owner

theorem MeetsAt.not_lt (h : s.MeetsAt owner i j) (h' : s.MeetsAt owner' i' j') : ¬ i < i' :=
  fun hlt => h'.first_up i hlt owner h.up j h.down

/-- There is at most one AS at which the segments are joined, and one place of it on each. -/
theorem MeetsAt.unique (h : s.MeetsAt owner i j) (h' : s.MeetsAt owner' i' j') :
    owner = owner' ∧ i = i' ∧ j = j' := by
  obtain rfl : i = i' := Nat.le_antisymm (Nat.le_of_not_lt (h'.not_lt h))
    (Nat.le_of_not_lt (h.not_lt h'))
  obtain rfl := Option.some.inj (h.up.symm.trans h'.up)
  refine ⟨rfl, rfl, Nat.le_antisymm (Nat.le_of_not_lt ?_) (Nat.le_of_not_lt ?_)⟩
  · exact fun hlt => h.first_down j' hlt h'.down
  · exact fun hlt => h'.first_down j hlt h.down

theorem lt_size_of_ownerAt? {outline : SegmentOutline} {k : Nat}
    (h : outline.ownerAt? k = some owner) : k < outline.size := by
  obtain ⟨hop, hhop, -⟩ := Option.bind_eq_some_iff.mp h
  exact (List.getElem?_eq_some_iff.mp hhop).1

/-- What the segments of a shortcut have to fulfil, apart from the ASes of their hops. -/
structure Fits (s : Shortcut) : Prop where
  sizes : ValidSizes [s.up.size, s.down.size]
  up : s.up.Matched
  down : s.down.Matched

theorem fault?_eq_none_iff : s.fault? = none ↔ s.Fits := by
  have hkeys := KeyedSegment.forall_matched_iff [s.up, s.down]
  rw [fault?, Option.or_eq_none_iff, BuildFault.ofSegments?_eq_none_iff,
    BuildFault.ofKeyCounts?_eq_none_iff]
  constructor
  · rintro ⟨hsizes, hcounts⟩
    have hmatched := hkeys.mp hcounts
    exact ⟨hsizes, hmatched s.up (by simp), hmatched s.down (by simp)⟩
  · intro h
    refine ⟨h.sizes, hkeys.mpr ?_⟩
    simpa using ⟨h.up, h.down⟩

/-- The ASes of all hops are known. -/
def OwnersKnown (s : Shortcut) : Prop :=
  ∀ hop ∈ s.up.outline.hops ++ s.down.outline.hops, hop.owner.isSome = true

/-- The common hop of segments whose ASes are known. -/
theorem find?_eq_some_iff (common : CommonHop) {up down : List IsdAs}
    (hup : s.up.outline.hops.map HopOutline.owner = up.map some)
    (hdown : s.down.outline.hops.map HopOutline.owner = down.map some) :
    CommonHop.find? up down = some common ↔ s.MeetsAt common.owner common.up common.down := by
  have hsearch : CommonHop.find? up down = CommonHop.findFrom? up down 0 := rfl
  simp only [hsearch, CommonHop.findFrom?_eq_some_iff, Nat.zero_add,
    CommonHop.findIdx?_eq_some_iff, CommonHop.findIdx?_eq_none_iff,
    ← SegmentOutline.ownerAt?_eq hup, ← SegmentOutline.ownerAt?_eq hdown]
  constructor
  · rintro ⟨_, rfl, howner, ⟨hat, hfirst⟩, hbefore⟩
    exact ⟨howner, hat, hbefore, hfirst⟩
  · exact fun h => ⟨_, rfl, h.up, ⟨h.down, h.first_down⟩, h.first_up⟩

theorem commonHop_eq_ok_iff {common : CommonHop} :
    s.commonHop = .ok common ↔
      s.Fits ∧ s.OwnersKnown ∧ s.MeetsAt common.owner common.up common.down := by
  have hknown : s.OwnersKnown ↔ (∃ owners, s.up.outline.owners 0 = .ok owners) ∧
      ∃ owners, s.down.outline.owners 1 = .ok owners := by
    rw [OwnersKnown, List.forall_mem_append, SegmentOutline.exists_owners_iff,
      SegmentOutline.exists_owners_iff]
  rw [commonHop, ← fault?_eq_none_iff, hknown]
  cases s.fault? with
  | some fault => simp
  | none =>
    cases hup : s.up.outline.owners 0 with
    | error fault => simp
    | ok up =>
      cases hdown : s.down.outline.owners 1 with
      | error fault => simp
      | ok down =>
        have hfind := find?_eq_some_iff common
          (SegmentOutline.owners_eq_ok_iff.mp hup) (SegmentOutline.owners_eq_ok_iff.mp hdown)
        rw [← hfind]
        cases hcommon : CommonHop.find? up down <;> simp [hcommon]

/-! ## The parts -/

/-- The up segment up to index `i` and the down segment from index `j` on.  A segment of which only
the common hop is left is dropped; of two such segments the up segment stays. -/
def route (s : Shortcut) (i j : Nat) : List KeyedSegment :=
  if j + 1 = s.down.outline.hops.length then [s.up.upTo i]
  else if i = 0 then [s.down.startingAt j]
  else [s.up.upTo i, s.down.startingAt j]

/-- Either segment is dropped or both stay. -/
theorem route_cases (s : Shortcut) (i j : Nat) :
    (j + 1 = s.down.outline.hops.length ∧ s.route i j = [s.up.upTo i]) ∨
    (i = 0 ∧ j + 1 ≠ s.down.outline.hops.length ∧ s.route i j = [s.down.startingAt j]) ∨
    (0 < i ∧ j + 1 ≠ s.down.outline.hops.length ∧
      s.route i j = [s.up.upTo i, s.down.startingAt j]) := by
  unfold route
  by_cases hlast : j + 1 = s.down.outline.hops.length
  · exact .inl ⟨hlast, if_pos hlast⟩
  · rw [if_neg hlast]
    cases i with
    | zero => exact .inr (.inl ⟨rfl, hlast, if_pos rfl⟩)
    | succ i => exact .inr (.inr ⟨Nat.zero_lt_succ i, hlast, if_neg (Nat.succ_ne_zero i)⟩)

theorem plan_eq_ofKeyed (hi : i < s.up.size) (hj : j < s.down.size) :
    s.plan ⟨owner, i, j⟩ = .ofKeyed (s.route i j) none := by
  have hparts : s.parts ⟨owner, i, j⟩ = s.route i j := by
    have hup : (s.upPart ⟨owner, i, j⟩).outline.size = i + 1 := KeyedSegment.size_upTo hi
    have hdown : (s.downPart ⟨owner, i, j⟩).outline.size = s.down.size - j :=
      s.down.size_startingAt j
    have hlast : s.down.size - j = 1 ↔ j + 1 = s.down.size := by omega
    have hfirst : i + 1 = 1 ↔ i = 0 := Nat.succ_inj
    simp only [parts, hup, hdown, hlast, hfirst]
    rfl
  rw [← hparts]
  rfl

/-- Cutting keeps the sizes within their bounds. -/
theorem Fits.validSizes_route (h : s.Fits) (hi : i < s.up.size) (hj : j < s.down.size) :
    ValidSizes ((s.route i j).map KeyedSegment.size) := by
  obtain ⟨⟨-, hup⟩, ⟨-, hdown⟩, htotal⟩ := validSizes_pair_iff.mp h.sizes
  rcases s.route_cases i j with ⟨-, hroute⟩ | ⟨-, -, hroute⟩ | ⟨-, -, hroute⟩
  · rw [hroute, List.map_singleton, KeyedSegment.size_upTo hi, validSizes_singleton_iff]
    exact ⟨Nat.zero_lt_succ i, Nat.le_trans hi hup⟩
  · rw [hroute, List.map_singleton, KeyedSegment.size_startingAt, validSizes_singleton_iff]
    exact ⟨Nat.sub_pos_of_lt hj, Nat.le_trans (Nat.sub_le ..) hdown⟩
  · rw [hroute, List.map_cons, List.map_singleton, KeyedSegment.size_upTo hi,
      KeyedSegment.size_startingAt, validSizes_pair_iff]
    exact ⟨⟨Nat.zero_lt_succ i, Nat.le_trans hi hup⟩,
      ⟨Nat.sub_pos_of_lt hj, Nat.le_trans (Nat.sub_le ..) hdown⟩,
      Nat.le_trans (Nat.add_le_add hi (Nat.sub_le ..)) htotal⟩

theorem eq_of_mem_route {part : KeyedSegment} (h : part ∈ s.route i j) :
    part = s.up.upTo i ∨ part = s.down.startingAt j := by
  rcases s.route_cases i j with ⟨-, hroute⟩ | ⟨-, -, hroute⟩ | ⟨-, -, hroute⟩
  · exact .inl (List.mem_singleton.mp (hroute ▸ h))
  · exact .inr (List.mem_singleton.mp (hroute ▸ h))
  · exact List.mem_pair.mp (hroute ▸ h)

theorem Fits.matched_route (h : s.Fits) (i j : Nat) : ∀ part ∈ s.route i j, part.Matched := by
  intro part hpart
  rcases eq_of_mem_route hpart with rfl | rfl
  · exact h.up.upTo i
  · exact h.down.startingAt j

/-- The plan of the cut segments has no mistake, unless both of them stay and have the peering
flag. -/
theorem Fits.valid_route_iff (h : s.Fits) (hi : i < s.up.size) (hj : j < s.down.size) :
    (PathPlan.ofKeyed (s.route i j) none).Valid ↔
      ¬(s.up.outline.flags.peering = true ∧ s.down.outline.flags.peering = true ∧
        0 < i ∧ j + 1 < s.down.outline.hops.length) := by
  have hseeds : (PathPlan.ofKeyed (s.route i j) none).Valid ↔
      ¬∃ t, (PathPlan.ofKeyed (s.route i j) none).PeersAfter t := by
    rw [PathPlan.valid_ofKeyed_iff, and_iff_right (h.validSizes_route hi hj),
      and_iff_right (h.matched_route i j), Option.isSome_none]
    simp only [Bool.false_eq_true, false_iff]
  rw [hseeds]
  apply not_congr
  rcases s.route_cases i j with ⟨hlast, hroute⟩ | ⟨hfirst, -, hroute⟩ | ⟨hfirst, hlast, hroute⟩
  · refine iff_of_false ?_ ?_
    · rintro ⟨t, hpeers⟩
      exact PathPlan.not_peersAfter_singleton (hroute ▸ hpeers)
    · rintro ⟨-, -, -, hlt⟩
      exact Nat.ne_of_lt hlt hlast
  · refine iff_of_false ?_ ?_
    · rintro ⟨t, hpeers⟩
      exact PathPlan.not_peersAfter_singleton (hroute ▸ hpeers)
    · rintro ⟨-, -, hlt, -⟩
      exact Nat.ne_of_gt hlt hfirst
  · have hlt : j + 1 < s.down.outline.hops.length := Nat.lt_of_le_of_ne hj hlast
    rw [hroute]
    simp only [PathPlan.peersAfter_pair_iff, exists_eq_left, hfirst, hlt, and_true]
    rfl

theorem MeetsAt.lt_up (h : s.MeetsAt owner i j) : i < s.up.size := lt_size_of_ownerAt? h.up

theorem MeetsAt.lt_down (h : s.MeetsAt owner i j) : j < s.down.size :=
  lt_size_of_ownerAt? h.down

/-- What is built is the path of the segments cut at the common hop. -/
theorem build_eq_ok_iff {p : Path} : s.build = .ok p ↔
    s.Fits ∧ s.OwnersKnown ∧ ∃ owner i j, s.MeetsAt owner i j ∧
      (PathPlan.ofKeyed (s.route i j) none).Valid ∧
      (PathPlan.ofKeyed (s.route i j) none).path = p := by
  have hbuild : s.build = .ok p ↔
      ∃ common, s.commonHop = .ok common ∧ (s.plan common).build = .ok p := by
    rw [build]
    cases s.commonHop <;> simp
  rw [hbuild]
  constructor
  · rintro ⟨⟨owner, i, j⟩, hcommon, hplan⟩
    obtain ⟨hfits, hknown, hmeets⟩ := commonHop_eq_ok_iff.mp hcommon
    rw [plan_eq_ofKeyed hmeets.lt_up hmeets.lt_down, PathPlan.build_eq_ok_iff] at hplan
    exact ⟨hfits, hknown, owner, i, j, hmeets, hplan⟩
  · rintro ⟨hfits, hknown, owner, i, j, hmeets, hplan⟩
    refine ⟨⟨owner, i, j⟩, commonHop_eq_ok_iff.mpr ⟨hfits, hknown, hmeets⟩, ?_⟩
    rw [plan_eq_ofKeyed hmeets.lt_up hmeets.lt_down, PathPlan.build_eq_ok_iff]
    exact hplan

/-! ## The ASes on the way -/

/-- The ASes of the hops of the joined segments, in the order of the visit. -/
def owners (s : Shortcut) (i j : Nat) : List (Option IsdAs) :=
  (s.route i j).flatMap fun part => part.outline.hops.map HopOutline.owner

/-- If neither segment lists an AS twice, only the AS of the common hop is met twice on the way: at
the end of the first segment and at the start of the second. -/
theorem MeetsAt.of_repeated (h : s.MeetsAt owner i j)
    (hup : (s.up.outline.hops.map HopOutline.owner).Nodup)
    (hdown : (s.down.outline.hops.map HopOutline.owner).Nodup) {a b : Nat} {x : IsdAs}
    (hab : a < b) (ha : (s.owners i j)[a]? = some (some x))
    (hb : (s.owners i j)[b]? = some (some x)) :
    x = owner ∧ a + 1 = b ∧
      Runs.locate ((s.route i j).map KeyedSegment.size) b = some (1, 0) := by
  have hupTo {k : Nat} (hk : ((s.up.upTo i).outline.hops.map HopOutline.owner)[k]? =
      some (some x)) : k ≤ i ∧ s.up.outline.ownerAt? k = some x :=
    KeyedSegment.ownerAt?_upTo (SegmentOutline.getElem?_map_owner_iff.mp hk)
  have hstarting {k : Nat} (hk : ((s.down.startingAt j).outline.hops.map HopOutline.owner)[k]? =
      some (some x)) : s.down.outline.ownerAt? (j + k) = some x := by
    rw [← KeyedSegment.ownerAt?_startingAt]
    exact SegmentOutline.getElem?_map_owner_iff.mp hk
  unfold owners at ha hb
  rcases s.route_cases i j with ⟨-, hroute⟩ | ⟨-, -, hroute⟩ | ⟨-, -, hroute⟩
  -- a single segment lists no AS twice
  · rw [hroute, List.flatMap_singleton] at ha hb
    have hsame := SegmentOutline.index_unique hup (hupTo ha).2 (hupTo hb).2
    exact absurd hsame (Nat.ne_of_lt hab)
  · rw [hroute, List.flatMap_singleton] at ha hb
    have hsame := SegmentOutline.index_unique hdown (hstarting ha) (hstarting hb)
    exact absurd (Nat.add_left_cancel hsame) (Nat.ne_of_lt hab)
  · have hsize := KeyedSegment.size_upTo h.lt_up
    have hlength : ((s.up.upTo i).outline.hops.map HopOutline.owner).length = i + 1 := by
      rw [List.length_map]
      exact hsize
    rw [hroute, List.flatMap_cons, List.flatMap_singleton] at ha hb
    rcases Nat.lt_or_ge b (i + 1) with hb' | hb'
    -- both hops lie on the up segment
    · rw [List.getElem?_append_left (by rw [hlength]; exact hb')] at hb
      rw [List.getElem?_append_left (by rw [hlength]; exact Nat.lt_trans hab hb')] at ha
      have hsame := SegmentOutline.index_unique hup (hupTo ha).2 (hupTo hb).2
      exact absurd hsame (Nat.ne_of_lt hab)
    · rw [List.getElem?_append_right (by rw [hlength]; exact hb'), hlength] at hb
      rcases Nat.lt_or_ge a (i + 1) with ha' | ha'
      -- the earlier hop lies on the up segment and the later one on the down segment
      · rw [List.getElem?_append_left (by rw [hlength]; exact ha')] at ha
        obtain ⟨hle, haup⟩ := hupTo ha
        obtain rfl : a = i := Nat.le_antisymm hle
          (Nat.le_of_not_lt fun hlt => h.first_up a hlt x haup _ (hstarting hb))
        obtain rfl := Option.some.inj (haup.symm.trans h.up)
        have hzero := SegmentOutline.index_unique hdown h.down (hstarting hb)
        have hnext : b = a + 1 := by omega
        refine ⟨rfl, hnext.symm, ?_⟩
        rw [hroute, hnext, List.map_cons, List.map_singleton, hsize, KeyedSegment.size_startingAt]
        exact Runs.locate_eq_some_iff.mpr ⟨Nat.sub_pos_of_lt h.lt_down, rfl⟩
      -- both hops lie on the down segment
      · rw [List.getElem?_append_right (by rw [hlength]; exact ha'), hlength] at ha
        have hsame := SegmentOutline.index_unique hdown (hstarting ha) (hstarting hb)
        omega

/-! ## Building -/

/-- Segments are joined exactly if they fit a header, the keys match, all ASes are known, and there
is a common hop that does not lie between two segments with the peering flag.  The path then begins
with the up hops to the common hop and goes on with the down hops from it, and every hop passes its
check with the key that was given for it. -/
theorem build_joins_at_common_hop (s : Shortcut) :
    ((∃ p, s.build = .ok p) ↔
      (1 ≤ s.up.outline.hops.length ∧ s.up.outline.hops.length ≤ 63) ∧
      (1 ≤ s.down.outline.hops.length ∧ s.down.outline.hops.length ≤ 63) ∧
      s.up.outline.hops.length + s.down.outline.hops.length ≤ 64 ∧
      s.up.keys.length = s.up.outline.hops.length ∧
      s.down.keys.length = s.down.outline.hops.length ∧
      (∀ hop ∈ s.up.outline.hops ++ s.down.outline.hops, hop.owner.isSome = true) ∧
      ∃ owner i j, s.MeetsAt owner i j ∧
        ¬(s.up.outline.flags.peering = true ∧ s.down.outline.flags.peering = true ∧
          0 < i ∧ j + 1 < s.down.outline.hops.length)) ∧
    ∀ p owner i j, s.build = .ok p → s.MeetsAt owner i j →
      p.currentInfo = 0 ∧ p.currentHop = 0 ∧ p.structureFault? = none ∧
      List.Forall₂ Segment.Follows p.segments ((s.route i j).map KeyedSegment.outline) ∧
      (∀ t < p.hopCount, ∃ key, ((s.route i j).flatMap KeyedSegment.keys)[t]? = some key ∧
        (p.placedAt t).records.verify key none = true) ∧
      ((s.up.outline.hops.map HopOutline.owner).Nodup →
        (s.down.outline.hops.map HopOutline.owner).Nodup →
        ∀ a b x, a < b → (s.owners i j)[a]? = some (some x) → (s.owners i j)[b]? = some (some x) →
          x = owner ∧ a + 1 = b ∧ p.locate? b = some (1, 0)) := by
  refine ⟨⟨?_, ?_⟩, ?_⟩
  · rintro ⟨p, hbuild⟩
    obtain ⟨hfits, hknown, owner, i, j, hmeets, hvalid, -⟩ := build_eq_ok_iff.mp hbuild
    obtain ⟨hup, hdown, htotal⟩ := validSizes_pair_iff.mp hfits.sizes
    exact ⟨hup, hdown, htotal, hfits.up, hfits.down, hknown, owner, i, j, hmeets,
      (hfits.valid_route_iff hmeets.lt_up hmeets.lt_down).mp hvalid⟩
  · rintro ⟨hup, hdown, htotal, hupKeys, hdownKeys, hknown, owner, i, j, hmeets, hpeering⟩
    have hfits : s.Fits := ⟨validSizes_pair_iff.mpr ⟨hup, hdown, htotal⟩, hupKeys, hdownKeys⟩
    have hvalid := (hfits.valid_route_iff hmeets.lt_up hmeets.lt_down).mpr hpeering
    exact ⟨_, build_eq_ok_iff.mpr ⟨hfits, hknown, owner, i, j, hmeets, hvalid, rfl⟩⟩
  · intro p owner i j hbuild hmeets
    obtain ⟨hfits, -, owner', i', j', hmeets', hvalid, rfl⟩ := build_eq_ok_iff.mp hbuild
    obtain ⟨rfl, rfl, rfl⟩ := hmeets'.unique hmeets
    refine ⟨rfl, rfl, Path.structureFault?_eq_none_iff.mpr hvalid.wellFormed_path,
      hvalid.follows_path, ?_, ?_⟩
    · intro t ht
      obtain ⟨t', k, keys, key, hlocate, hkeys, hkey, hflat⟩ := hvalid.exists_key ht
      refine ⟨key, hflat, hvalid.verify_path hlocate hkeys hkey ?_⟩
      -- there is no junction, so a missing seed fits everywhere
      exact ⟨fun _ _ => rfl, fun _ _ _ _ => rfl⟩
    · intro hup hdown a b x hab ha hb
      obtain ⟨howner, hnext, hlocate⟩ := hmeets.of_repeated hup hdown hab ha hb
      exact ⟨howner, hnext, (congrArg (Runs.locate · b) hvalid.sizes_path_ofKeyed).trans hlocate⟩

/-! ## Links -/

/-- A segment that was left out has no links. -/
theorem links_route (s : Shortcut) (i j : Nat) :
    ((s.route i j).map KeyedSegment.outline).flatMap
      (fun outline => Link.consecutive (outline.hops.map HopOutline.toField)) =
    Link.consecutive ((s.up.outline.hops.take (i + 1)).map HopOutline.toField) ++
      Link.consecutive ((s.down.outline.hops.drop j).map HopOutline.toField) := by
  rcases s.route_cases i j with ⟨hlast, hroute⟩ | ⟨hfirst, -, hroute⟩ | ⟨-, -, hroute⟩
  · have hdown : Link.consecutive ((s.down.outline.hops.drop j).map HopOutline.toField) = [] := by
      apply Link.consecutive_eq_nil
      rw [List.length_map, List.length_drop, ← hlast, Nat.add_sub_cancel_left]
    rw [hroute, hdown, List.append_nil]
    exact List.flatMap_singleton ..
  · have hup : Link.consecutive ((s.up.outline.hops.take (i + 1)).map HopOutline.toField) = [] := by
      apply Link.consecutive_eq_nil
      rw [List.length_map, hfirst]
      exact List.length_take_le ..
    rw [hroute, hup, List.nil_append]
    exact List.flatMap_singleton ..
  · rw [hroute]
    show _ ++ (_ ++ []) = _
    rw [List.append_nil]
    rfl

/-- A segment of a single hop is the only segment. -/
theorem MeetsAt.length_route (h : s.MeetsAt owner i j) : (s.route i j).length = 1 ∨
    ∀ n ∈ (s.route i j).map KeyedSegment.size, 2 ≤ n := by
  rcases s.route_cases i j with ⟨-, hroute⟩ | ⟨-, -, hroute⟩ | ⟨hfirst, hlast, hroute⟩
  · exact .inl (congrArg List.length hroute)
  · exact .inl (congrArg List.length hroute)
  · right
    intro n hn
    rw [hroute] at hn
    rcases List.mem_pair.mp hn with rfl | rfl
    · rw [KeyedSegment.size_upTo h.lt_up]
      exact Nat.succ_le_succ hfirst
    · have hlt : j + 1 < s.down.size := Nat.lt_of_le_of_ne h.lt_down hlast
      rw [KeyedSegment.size_startingAt]
      exact Nat.le_sub_of_add_le (by omega)

theorem hasPeering_path (hvalid : (PathPlan.ofKeyed (s.route i j) none).Valid)
    (hup : s.up.outline.flags.peering = false) (hdown : s.down.outline.flags.peering = false)
    (t : Nat) : hasPeering (PathPlan.ofKeyed (s.route i j) none).path.info? t = false := by
  rw [hasPeering, hvalid.info?_path]
  cases houtline : (PathPlan.ofKeyed (s.route i j) none).segments[t]? with
  | none => rfl
  | some outline =>
    obtain ⟨part, hpart, rfl⟩ := List.mem_map.mp (List.mem_of_getElem? houtline)
    rcases eq_of_mem_route hpart with rfl | rfl
    · exact hup
    · exact hdown

/-- If neither segment has the peering flag, the links of the path, and of its wire form, are those
of the up hops to the common hop and those of the down hops from it. -/
theorem links_of_parts {p : Path} (hbuild : s.build = .ok p) (hmeets : s.MeetsAt owner i j)
    (hup : s.up.outline.flags.peering = false) (hdown : s.down.outline.flags.peering = false) :
    let links := Link.consecutive ((s.up.outline.hops.take (i + 1)).map HopOutline.toField) ++
      Link.consecutive ((s.down.outline.hops.drop j).map HopOutline.toField)
    p.records.links = links ∧
      ∃ w, Wire.encode p = .ok w ∧ ∀ rest, ∃ v, PathView.ofBytes (w ++ rest) = .ok (v, rest) ∧
        v.records.links = links := by
  intro links
  obtain ⟨hfits, -, owner', i', j', hmeets', hvalid, rfl⟩ := build_eq_ok_iff.mp hbuild
  obtain ⟨rfl, rfl, rfl⟩ := hmeets'.unique hmeets
  have hp := hvalid.wellFormed_path
  have hcount : (PathPlan.ofKeyed (s.route i' j') none).path.segments.length =
      (s.route i' j').length := hvalid.length_segments_path.trans (List.length_map ..)
  have hlinks : (PathPlan.ofKeyed (s.route i' j') none).path.records.links = links := by
    have hlength := hmeets.length_route
    rw [← hcount, ← hvalid.sizes_path_ofKeyed] at hlength
    rw [Path.links_eq_flatMap hp.sizes (hasPeering_path hvalid hup hdown) hlength,
      Segment.Follows.flatMap_consecutive_eq hvalid.follows_path]
    exact s.links_route i' j'
  refine ⟨hlinks, _, Path.encode_eq hp, ?_⟩
  intro rest
  refine ⟨_, hp.ofBytes_eq rest, ?_⟩
  rw [hp.records_view]
  exact hlinks

/-- Two segments of three hops that cross the second AS of both, and are joined there. -/
theorem links_of_parts_of_three_hops :
    let hop (ingress egress : UInt16) (owner : UInt64) : HopOutline :=
      { HopOutline.between ingress egress with owner := some ⟨owner⟩ }
    let keys := List.replicate 3 ForwardingKey.zero
    let s : Shortcut :=
      { up := ⟨⟨⟨0⟩, 7, 1000, [hop 0 1 11, hop 2 3 12, hop 4 0 13]⟩, keys⟩
        down := ⟨⟨⟨1⟩, 8, 1000, [hop 0 5 13, hop 6 7 12, hop 8 0 14]⟩, keys⟩ }
    ∃ p, s.build = .ok p ∧ s.MeetsAt ⟨12⟩ 1 1 ∧ p.records.links = [⟨1, 2⟩, ⟨7, 8⟩] ∧
      ∃ w, Wire.encode p = .ok w ∧ ∀ rest, ∃ v, PathView.ofBytes (w ++ rest) = .ok (v, rest) ∧
        v.records.links = [⟨1, 2⟩, ⟨7, 8⟩] := by
  intro hop keys s
  have hfits : s.Fits := ⟨validSizes_pair_iff.mpr (by decide), rfl, rfl⟩
  have hknown : s.OwnersKnown := by
    unfold OwnersKnown
    decide
  have hup : s.up.outline.hops.map HopOutline.owner = [⟨11⟩, ⟨12⟩, ⟨13⟩].map some := rfl
  have hdown : s.down.outline.hops.map HopOutline.owner = [⟨13⟩, ⟨12⟩, ⟨14⟩].map some := rfl
  have hmeets : s.MeetsAt ⟨12⟩ 1 1 :=
    (find?_eq_some_iff ⟨⟨12⟩, 1, 1⟩ hup hdown).mp (by decide)
  have hvalid := (hfits.valid_route_iff hmeets.lt_up hmeets.lt_down).mpr (by decide)
  have hbuild := build_eq_ok_iff.mpr ⟨hfits, hknown, _, _, _, hmeets, hvalid, rfl⟩
  exact ⟨_, hbuild, hmeets, links_of_parts hbuild hmeets (by decide) (by decide)⟩

end Shortcut

end SourceRoute
