import SourceRoute.Proofs.Directives
import SourceRoute.Proofs.KeyedSegments

/-!
# Drafts and what their directives describe

A draft stands for the plan that its directives describe, and it remembers the mistake of the
earliest misplaced one.  A draft may as well keep the hops in one list and their keys in another:
the two stay aligned through every directive, and the same path is built.
-/

namespace SourceRoute

/-! ## Mistakes about keys -/

/-- Whether a mistake is a wrong number of keys or of key lists. -/
def BuildFault.aboutKeys : BuildFault → Bool
  | keyCount _ _ _ => true
  | keyGroupCount _ _ => true
  | _ => false

theorem SegmentOutline.aboutKeys_of_fault? {s : SegmentOutline} {index : Nat} {fault : BuildFault}
    (h : s.fault? index = some fault) : fault.aboutKeys = false := by
  unfold fault? at h
  split at h
  next => exact Option.some.inj h ▸ rfl
  next =>
    obtain ⟨-, hfault⟩ := Option.ite_none_right_eq_some.mp h
    exact Option.some.inj hfault ▸ rfl

theorem BuildFault.aboutKeys_of_ofSegments? {segments : List SegmentOutline} {fault : BuildFault}
    (h : ofSegments? segments = some fault) : fault.aboutKeys = false := by
  unfold ofSegments? at h
  split at h
  next => exact Option.some.inj h ▸ rfl
  split at h
  next => exact Option.some.inj h ▸ rfl
  split at h
  next first hfirst =>
    obtain ⟨⟨s, index⟩, -, hs⟩ := List.exists_of_findSome?_eq_some hfirst
    rw [← Option.some.inj h]
    exact SegmentOutline.aboutKeys_of_fault? hs
  next =>
    obtain ⟨-, hfault⟩ := Option.ite_none_right_eq_some.mp h
    exact Option.some.inj hfault ▸ rfl

theorem PathPlan.aboutKeys_of_seedFault? {P : PathPlan} {fault : BuildFault}
    (h : P.seedFault? = some fault) : fault.aboutKeys = false := by
  unfold seedFault? at h
  split at h
  next => exact Option.some.inj h ▸ rfl
  next => exact Option.some.inj h ▸ rfl
  next => cases h

theorem PathPlan.aboutKeys_of_build {P : PathPlan} {fault : BuildFault} (hkeys : P.keyFault? = none)
    (hbuild : P.build = .error fault) : fault.aboutKeys = false := by
  unfold build at hbuild
  split at hbuild
  next found hfound =>
    rw [fault?, hkeys, Option.none_or, Option.or_eq_some_iff, Option.or_eq_some_iff] at hfound
    rw [← Except.error.inj hbuild]
    -- the other mistakes are those of segments, seeds and the position
    rcases hfound with hsegments | ⟨-, hseeds | ⟨-, hposition⟩⟩
    · exact BuildFault.aboutKeys_of_ofSegments? hsegments
    · exact aboutKeys_of_seedFault? hseeds
    · obtain ⟨cause, -, rfl⟩ := Option.map_eq_some_iff.mp hposition
      rfl
  next => cases hbuild

namespace Directive

theorem matched_of_mem_described {ds : List Directive} {part : KeyedSegment}
    (hpart : part ∈ described ds) : part.Matched := by
  obtain ⟨index, _, rfl⟩ := List.mem_mapIdx.mp hpart
  show ((hopsOf ds (index + 1)).map Prod.snd).length = ((hopsOf ds (index + 1)).map Prod.fst).length
  rw [List.length_map, List.length_map]

theorem keyFault?_describedPlan (ds : List Directive) : (describedPlan ds).keyFault? = none := by
  have hcount : (describedPlan ds).keys.length = (describedPlan ds).segments.length := by
    rw [describedPlan, List.length_map, List.length_map]
  rw [PathPlan.keyFault?, if_pos hcount, BuildFault.ofKeyCounts?_eq_none_iff]
  exact (KeyedSegment.forall_matched_iff (described ds)).mpr fun _ => matched_of_mem_described

theorem aboutKeys_of_firstMisplaced? {ds : List Directive} {fault : BuildFault}
    (h : firstMisplaced? ds = some fault) : fault.aboutKeys = false := by
  obtain ⟨d, -, hd⟩ := List.exists_of_findSome?_eq_some h
  cases d <;> cases hd <;> rfl

end Directive

/-! ## Drafted segments -/

namespace DraftSegment

variable (s : DraftSegment) (hop : HopOutline) (key : ForwardingKey)

theorem outline_withPeering : s.withPeering.outline = s.outline.withPeering := rfl

theorem keys_withPeering : s.withPeering.keys = s.keys := rfl

theorem outline_addHop :
    (s.addHop hop key).outline = { s.outline with hops := s.outline.hops ++ [hop] } := by
  simp [addHop, outline]

theorem keys_addHop : (s.addHop hop key).keys = s.keys ++ [key] := by
  simp [addHop, keys]

theorem length_keys : s.keys.length = s.outline.size := by
  rw [keys, outline, SegmentOutline.size, List.length_map, List.length_map]

/-- A segment that is being drafted, as a description with keys. -/
def keyed : KeyedSegment := ⟨s.outline, s.keys⟩

theorem keyed_addHop : (s.addHop hop key).keyed =
    ⟨{ s.outline with hops := s.outline.hops ++ [hop] }, s.keys ++ [key]⟩ := by
  rw [keyed, outline_addHop, keys_addHop]

end DraftSegment

/-! ## Drafts of two lists -/

/-- A path that is being drafted with its hops in one list and their keys in another, both grouped
by segment and in the order of the path. -/
structure ListedDraft where
  segments : List SegmentOutline
  keys : List (List ForwardingKey)
  seeds : Option PeeringSeeds
  currentInfo : UInt8
  currentHop : UInt8
  timestamp : UInt32
  expTime : UInt8
  key : ForwardingKey
  mistake : Option BuildFault

namespace ListedDraft

/-- The draft before any directive. -/
def empty : ListedDraft where
  segments := []
  keys := []
  seeds := none
  currentInfo := 0
  currentHop := 0
  timestamp := 0
  expTime := HopOutline.maxExpTime
  key := ForwardingKey.zero
  mistake := none

/-- The draft with a mistake, which is kept if it is the first. -/
def record (L : ListedDraft) (fault : BuildFault) : ListedDraft :=
  { L with mistake := L.mistake.or (some fault) }

/-- The draft with one more segment, which has no hops and no keys. -/
def addSegment (L : ListedDraft) (flags : InfoFlags) (segmentId : UInt16) : ListedDraft :=
  { L with
    segments := L.segments ++ [⟨flags, segmentId, L.timestamp, []⟩]
    keys := L.keys ++ [[]] }

/-- The draft with the peering flag of the last segment set. -/
def addPeering (L : ListedDraft) : ListedDraft :=
  if L.segments = [] then L.record .noSegments
  else { L with segments := L.segments.modifyLast SegmentOutline.withPeering }

/-- The draft with one more hop in the last segment and its key in the last list. -/
def addHop (L : ListedDraft) (outline : HopOutline) (key : ForwardingKey) : ListedDraft :=
  if L.segments = [] ∨ L.keys = [] then L.record .hopBeforeSegments
  else
    { L with
      segments := L.segments.modifyLast fun s => { s with hops := s.hops ++ [outline] }
      keys := L.keys.modifyLast fun keys => keys ++ [key] }

/-- The draft after a directive. -/
def apply (L : ListedDraft) : Directive → ListedDraft
  | .timestamp timestamp => { L with timestamp }
  | .lifetime expTime => { L with expTime }
  | .key key => { L with key }
  | .position currentInfo currentHop => { L with currentInfo, currentHop }
  | .seeds seeds => { L with seeds := some seeds }
  | .segment flags segmentId => L.addSegment flags segmentId
  | .peering => L.addPeering
  | .hop ingress egress key owner =>
    L.addHop { HopOutline.between ingress egress with expTime := L.expTime, owner } (key.getD L.key)
  | .hopOutline outline key => L.addHop outline key

/-- The draft after directives in order. -/
def ofDirectives (ds : List Directive) : ListedDraft := ds.foldl apply empty

/-- The path that is built from the draft. -/
def build (L : ListedDraft) : Except BuildFault Path :=
  match L.mistake with
  | some fault => .error fault
  | none => PathPlan.build ⟨L.segments, L.keys, L.seeds, L.currentInfo, L.currentHop⟩

end ListedDraft

namespace Draft

open Directive (lastSet? timestamp? lifetime? key? position? seeds? segmentCount addedHop? touch
  described firstMisplaced? describedPlan)

variable {ds : List Directive} {d : Directive} {fault : BuildFault}

/-- The segments of a draft in the order of the path. -/
def parts (D : Draft) : List KeyedSegment := D.segments.reverse.map DraftSegment.keyed

/-! ## One directive -/

theorem ofDirectives_append (ds : List Directive) (d : Directive) :
    ofDirectives (ds ++ [d]) = (ofDirectives ds).apply d := by
  rw [ofDirectives, List.foldl_append]
  rfl

/-- A change of the last segment is all that a draft with segments gets. -/
theorem parts_changeLast {change : DraftSegment → DraftSegment}
    {changeKeyed : KeyedSegment → KeyedSegment} (D : Draft) (fault : BuildFault)
    (hchange : ∀ s, (change s).keyed = changeKeyed s.keyed) :
    (D.changeLast change fault).parts = D.parts.modifyLast changeKeyed := by
  unfold changeLast
  split
  next last earlier hsegments =>
    simp only [parts, hsegments, List.reverse_cons, List.map_append, List.map_cons, List.map_nil,
      List.modifyLast_concat, hchange]
  next hsegments =>
    rw [parts, parts, hsegments]
    rfl

/-- A missing segment is all that a draft remembers. -/
theorem mistake_changeLast (D : Draft) (change : DraftSegment → DraftSegment)
    (fault : BuildFault) : (D.changeLast change fault).mistake =
      D.mistake.or (if D.segments = [] then some fault else none) := by
  unfold changeLast
  split
  next last earlier hsegments => rw [hsegments, if_neg (List.cons_ne_nil _ _), Option.or_none]
  next hsegments => rw [hsegments, if_pos rfl]

theorem settings_changeLast (D : Draft) (change : DraftSegment → DraftSegment)
    (fault : BuildFault) :
    (D.changeLast change fault).timestamp = D.timestamp ∧
      (D.changeLast change fault).expTime = D.expTime ∧
      (D.changeLast change fault).key = D.key ∧
      (D.changeLast change fault).seeds = D.seeds ∧
      (D.changeLast change fault).currentInfo = D.currentInfo ∧
      (D.changeLast change fault).currentHop = D.currentHop := by
  unfold changeLast
  split <;> simp

theorem mistake_apply (D : Draft) (d : Directive) :
    (D.apply d).mistake = D.mistake.or (if D.segments = [] then d.mistake? else none) := by
  cases d <;> simp [apply, Directive.mistake?, mistake_changeLast]

/-! ## Settings -/

/-- What only directives of one kind change is what they set last. -/
theorem setting_ofDirectives {α : Type} (current : Draft → α) {setting : Directive → Option α}
    (hstep : ∀ D d, current (apply D d) = (setting d).getD (current D)) (ds : List Directive) :
    current (ofDirectives ds) = (lastSet? setting ds).getD (current empty) := by
  -- what was set last is at the end of the row, so the induction is from there
  induction ds using List.reverseRecOn with
  | nil => rfl
  | append_singleton ds d ih =>
    rw [ofDirectives_append, hstep, ih, Directive.lastSet?_append]
    cases setting d <;> rfl

theorem timestamp_ofDirectives (ds : List Directive) :
    (ofDirectives ds).timestamp = (lastSet? timestamp? ds).getD 0 := by
  apply setting_ofDirectives Draft.timestamp
  intro D d
  cases d <;> simp [apply, timestamp?, settings_changeLast]

theorem expTime_ofDirectives (ds : List Directive) :
    (ofDirectives ds).expTime = (lastSet? lifetime? ds).getD HopOutline.maxExpTime := by
  apply setting_ofDirectives Draft.expTime
  intro D d
  cases d <;> simp [apply, lifetime?, settings_changeLast]

theorem key_ofDirectives (ds : List Directive) :
    (ofDirectives ds).key = (lastSet? key? ds).getD ForwardingKey.zero := by
  apply setting_ofDirectives Draft.key
  intro D d
  cases d <;> simp [apply, key?, settings_changeLast]

theorem position_ofDirectives (ds : List Directive) :
    ((ofDirectives ds).currentInfo, (ofDirectives ds).currentHop) =
      (lastSet? position? ds).getD (0, 0) := by
  apply setting_ofDirectives fun D => (D.currentInfo, D.currentHop)
  intro D d
  cases d <;> simp [apply, position?, settings_changeLast]

theorem seeds_ofDirectives (ds : List Directive) :
    (ofDirectives ds).seeds = lastSet? seeds? ds := by
  induction ds using List.reverseRecOn with
  | nil => rfl
  | append_singleton ds d ih =>
    rw [ofDirectives_append, Directive.lastSet?_append, ← ih]
    cases d <;> simp [apply, seeds?, settings_changeLast]

/-! ## Segments and mistakes -/

private theorem modifyLast_id {α : Type} (l : List α) : l.modifyLast id = l := by
  rcases List.eq_nil_or_concat l with rfl | ⟨front, last, rfl⟩
  · rfl
  · rw [List.concat_eq_append, List.modifyLast_concat, id]

/-- A directive that adds no segment changes the last one, and only as it says. -/
theorem parts_apply (hd : d.addsSegment = false) :
    ((ofDirectives ds).apply d).parts = (ofDirectives ds).parts.modifyLast (touch ds d) := by
  -- a setting keeps all segments, and so does a change of the last one into itself
  have hkept (hpeering : d.setsPeering = false) (hhop : addedHop? ds d = none) :
      (ofDirectives ds).parts = (ofDirectives ds).parts.modifyLast (touch ds d) := by
    rw [show touch ds d = id from funext fun _ => Directive.touch_of_none hpeering hhop,
      modifyLast_id]
  cases d with
  | segment => exact absurd hd (by simp [Directive.addsSegment])
  | peering =>
    refine parts_changeLast _ _ fun s => ?_
    rw [Directive.touch_peering]
    rfl
  | hop ingress egress ownKey owner =>
    refine parts_changeLast _ _ fun s => ?_
    rw [DraftSegment.keyed_addHop, expTime_ofDirectives, key_ofDirectives]
    rfl
  | hopOutline outline ownKey =>
    exact parts_changeLast _ _ fun s => DraftSegment.keyed_addHop s outline ownKey
  | _ => exact hkept rfl rfl

theorem parts_ofDirectives (ds : List Directive) : (ofDirectives ds).parts = described ds := by
  -- what a directive adds depends on the settings before it, so the last one is taken off
  induction ds using List.reverseRecOn with
  | nil => rfl
  | append_singleton ds d ih =>
    rw [ofDirectives_append]
    cases hd : d.addsSegment with
    | false => rw [parts_apply hd, ih, Directive.described_append_of_not_segment hd]
    | true =>
      cases d with
      | segment flags segmentId =>
        rw [Directive.described_append_of_segment rfl, ← ih, ← timestamp_ofDirectives, parts, apply,
          List.reverse_cons, List.map_append]
        rfl
      | _ => exact absurd hd (by simp [Directive.addsSegment])

theorem segments_eq_nil_iff : (ofDirectives ds).segments = [] ↔ segmentCount ds = 0 := by
  have hlength : (ofDirectives ds).segments.length = segmentCount ds := by
    rw [← Directive.length_described, ← parts_ofDirectives, parts, List.length_map,
      List.length_reverse]
  rw [← hlength, List.length_eq_zero_iff]

theorem mistake_ofDirectives (ds : List Directive) :
    (ofDirectives ds).mistake = firstMisplaced? ds := by
  induction ds using List.reverseRecOn with
  | nil => rfl
  | append_singleton ds d ih =>
    rw [ofDirectives_append, mistake_apply, ih, Directive.firstMisplaced?_append]
    simp only [segments_eq_nil_iff]

example : (ofDirectives [.lifetime 9, .hop 0 1 none none, .peering, .core 7]).mistake =
    some .hopBeforeSegments := rfl

theorem plan_ofDirectives (ds : List Directive) : (ofDirectives ds).plan = describedPlan ds := by
  rw [describedPlan, ← parts_ofDirectives, ← seeds_ofDirectives, ← position_ofDirectives, parts,
    List.map_map, List.map_map]
  rfl

theorem build_eq_elim (ds : List Directive) :
    (ofDirectives ds).build = (firstMisplaced? ds).elim (describedPlan ds).build .error := by
  rw [build, mistake_ofDirectives, plan_ofDirectives]
  cases firstMisplaced? ds <;> rfl

/-- What is drafted has as many keys as hops, whatever the directives. -/
theorem aboutKeys_of_build {fault : BuildFault} (h : (ofDirectives ds).build = .error fault) :
    fault.aboutKeys = false := by
  rw [build_eq_elim] at h
  cases hfirst : firstMisplaced? ds with
  | some found =>
    rw [hfirst] at h
    obtain rfl := Except.error.inj h
    exact Directive.aboutKeys_of_firstMisplaced? hfirst
  | none =>
    rw [hfirst] at h
    exact PathPlan.aboutKeys_of_build (Directive.keyFault?_describedPlan ds) h

/-! ## The same with two lists -/

/-- The draft with its hops and keys in two lists. -/
def listed (D : Draft) : ListedDraft where
  segments := D.plan.segments
  keys := D.plan.keys
  seeds := D.seeds
  currentInfo := D.currentInfo
  currentHop := D.currentHop
  timestamp := D.timestamp
  expTime := D.expTime
  key := D.key
  mistake := D.mistake

theorem build_listed (D : Draft) : D.listed.build = D.build := rfl

theorem listed_changeLast_withPeering (D : Draft) :
    (D.changeLast DraftSegment.withPeering .noSegments).listed = D.listed.addPeering := by
  unfold changeLast
  split
  next last earlier hsegments =>
    simp [listed, plan, hsegments, ListedDraft.addPeering, List.modifyLast_concat,
      DraftSegment.outline_withPeering, DraftSegment.keys_withPeering]
  next hsegments => simp [listed, plan, hsegments, ListedDraft.addPeering, ListedDraft.record]

theorem listed_changeLast_addHop (D : Draft) (outline : HopOutline) (key : ForwardingKey) :
    (D.changeLast (·.addHop outline key) .hopBeforeSegments).listed =
      D.listed.addHop outline key := by
  unfold changeLast
  split
  next last earlier hsegments =>
    simp [listed, plan, hsegments, ListedDraft.addHop, List.modifyLast_concat,
      DraftSegment.outline_addHop, DraftSegment.keys_addHop]
  next hsegments => simp [listed, plan, hsegments, ListedDraft.addHop, ListedDraft.record]

/-- Both drafts take a directive alike. -/
theorem listed_apply (D : Draft) (d : Directive) : (D.apply d).listed = D.listed.apply d := by
  cases d with
  | segment =>
    simp only [listed, apply, plan, List.reverse_cons, List.map_append]
    rfl
  | peering => exact listed_changeLast_withPeering D
  | hop => exact listed_changeLast_addHop ..
  | hopOutline => exact listed_changeLast_addHop ..
  | _ => rfl

theorem listed_ofDirectives (ds : List Directive) :
    (ofDirectives ds).listed = ListedDraft.ofDirectives ds := by
  induction ds using List.reverseRecOn with
  | nil => rfl
  | append_singleton ds d ih =>
    rw [ofDirectives_append, listed_apply, ih, ListedDraft.ofDirectives, ListedDraft.ofDirectives,
      List.foldl_append]
    rfl

/-- Two lists of hops and keys stay aligned. -/
theorem aligned_ofDirectives (ds : List Directive) :
    (ListedDraft.ofDirectives ds).keys.map List.length =
      (ListedDraft.ofDirectives ds).segments.map SegmentOutline.size := by
  rw [← listed_ofDirectives]
  show ((ofDirectives ds).segments.reverse.map DraftSegment.keys).map List.length =
    ((ofDirectives ds).segments.reverse.map DraftSegment.outline).map SegmentOutline.size
  rw [List.map_map, List.map_map]
  exact List.map_congr_left fun s _ => s.length_keys

/-- What is built from directives.  If one that needs a segment stands before the first segment,
this is the mistake of the earliest such directive, and else it is what the described plan gives.
It is never a wrong number of keys.  Hops and keys in two lists stay aligned and build the same. -/
theorem build_ofDirectives (ds : List Directive) :
    (ofDirectives ds).build = (firstMisplaced? ds).elim (describedPlan ds).build .error ∧
      (∀ segment expected actual,
        (ofDirectives ds).build ≠ .error (.keyCount segment expected actual)) ∧
      (∀ expected actual, (ofDirectives ds).build ≠ .error (.keyGroupCount expected actual)) ∧
      (ListedDraft.ofDirectives ds).keys.map List.length =
        (ListedDraft.ofDirectives ds).segments.map SegmentOutline.size ∧
      (ListedDraft.ofDirectives ds).build = (ofDirectives ds).build := by
  refine ⟨build_eq_elim ds, ?_, ?_, aligned_ofDirectives ds, ?_⟩
  · intro segment expected actual hbuild
    exact absurd (aboutKeys_of_build hbuild) (by simp [BuildFault.aboutKeys])
  · intro expected actual hbuild
    exact absurd (aboutKeys_of_build hbuild) (by simp [BuildFault.aboutKeys])
  · rw [← listed_ofDirectives, build_listed]

end Draft

end SourceRoute
