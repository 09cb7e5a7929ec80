import SourceRoute.Fingerprint
import SourceRoute.Proofs.PathLinks
import SourceRoute.Proofs.RangeAccess
import SourceRoute.Proofs.ViewRuns

/-!
# Fingerprints and routes

The links of a path depend on its course alone: how it is cut into segments, which of them have the
peering flag, and the two interfaces of each hop as stored.  So two paths of one course have one
fingerprint, held either way and at any position, be it valid or not.  The fingerprint is the hash of
bytes that write the first AS and the links, and these bytes can be read back.
-/

namespace SourceRoute

/-! ## Courses -/

/-- The two interfaces of a hop, as stored. -/
def HopField.interfaces (hop : HopField) : UInt16 × UInt16 := (hop.ingress, hop.egress)

/-- What of a segment the route depends on: the peering flag and the interfaces of the hops. -/
def Segment.course (s : Segment) : Bool × List (UInt16 × UInt16) :=
  (s.info.flags.peering, s.hops.map HopField.interfaces)

/-- What of a path the route depends on.  The position, the codes, segment identifiers, timestamps,
lifetimes, the flags of the hops, and all flags of the segments but the peering flag are not in
it. -/
def Path.course (p : Path) : List (Bool × List (UInt16 × UInt16)) := p.segments.map Segment.course

theorem Link.behind?_congr {hops hops' : List HopField}
    (h : hops'.map HopField.interfaces = hops.map HopField.interfaces) (j : Nat) :
    behind? hops' j = behind? hops j := by
  have hread (i : Nat) : hops'[i]?.map HopField.interfaces = hops[i]?.map HopField.interfaces := by
    rw [← List.getElem?_map, h, List.getElem?_map]
  -- a link is made of the interfaces at two places
  have hlink (l : List HopField) : behind? l j =
      (l[j]?.map HopField.interfaces).bind fun earlier =>
        (l[j + 1]?.map HopField.interfaces).map fun later => ⟨earlier.2, later.1⟩ := by
    rw [behind?]
    cases l[j]? <;> cases l[j + 1]? <;> rfl
  rw [hlink, hlink, hread, hread]

/-- Links are made of interfaces alone. -/
theorem Link.ofHops_congr_interfaces {hops hops' : List HopField} (kept : Nat → Bool)
    (h : hops'.map HopField.interfaces = hops.map HopField.interfaces) :
    ofHops kept hops' = ofHops kept hops := by
  have hlength : hops'.length = hops.length := by
    simpa only [List.length_map] using congrArg List.length h
  rw [ofHops, ofHops, hlength, funext (behind?_congr h)]

namespace Path

variable {p q : Path}

theorem sizes_eq_map_course (p : Path) : p.sizes = p.course.map fun c => c.2.length := by
  rw [sizes, course, List.map_map]
  apply List.map_congr_left
  intro s _
  exact (List.length_map HopField.interfaces).symm

theorem interfaces_hops_eq (p : Path) :
    p.hops.map HopField.interfaces = p.course.flatMap Prod.snd := by
  rw [hops, course, List.map_flatMap, List.flatMap_map]
  rfl

theorem hasPeering_eq_course (p : Path) (s : Nat) :
    hasPeering p.info? s = (p.course[s]?).any Prod.fst := by
  rw [hasPeering, info?, course, List.getElem?_map, Option.any_map, Option.any_map]
  rfl

theorem startsUnlinked_congr (h : q.course = p.course) : q.startsUnlinked = p.startsUnlinked := by
  funext j
  have hlocate : q.locate? j = p.locate? j := by
    rw [locate?, locate?, sizes_eq_map_course, h, ← sizes_eq_map_course]
  have hpeering (s : Nat) : hasPeering q.info? s = hasPeering p.info? s := by
    rw [hasPeering_eq_course, h, ← hasPeering_eq_course]
  rw [startsUnlinked, startsUnlinked, hlocate]
  simp only [hpeering]

/-- Paths of one course have the same links. -/
theorem links_congr (h : q.course = p.course) : q.records.links = p.records.links := by
  have hfits : q.FitsHeader ↔ p.FitsHeader := by
    rw [FitsHeader, FitsHeader, sizes_eq_map_course, h, ← sizes_eq_map_course]
  by_cases hp : p.FitsHeader
  · have hinterfaces : q.hops.map HopField.interfaces = p.hops.map HopField.interfaces := by
      rw [interfaces_hops_eq, h, ← interfaces_hops_eq]
    rw [links_eq_ofHops hp, links_eq_ofHops (hfits.mpr hp), startsUnlinked_congr h,
      Link.ofHops_congr_interfaces _ hinterfaces]
  · rw [links_of_not_fitsHeader hp, links_of_not_fitsHeader (hfits.not.mpr hp)]

end Path

/-! ## Paths in place -/

namespace PathView

/-- Whether a change sets the position, checked or not, and nothing else. -/
def Edit.setsPosition : Edit → Bool
  | .setPosition _ _ | .setCurrentInfo _ | .setCurrentHop _ | .advance => true
  | .reverse | .info _ _ | .hop _ _ => false

variable {v : PathView}

theorem SameRecords.refl (v : PathView) : v.SameRecords v := ⟨rfl, rfl, rfl⟩

theorem Sound.sameRecords_edit (h : v.Sound) {e : Edit} (he : e.setsPosition = true) :
    v.SameRecords (v.edit e).2 := by
  cases e with
  | setPosition currentInfo currentHop =>
    cases hposition : v.header.withPosition currentInfo currentHop with
    | error fault =>
      rw [edit_setPosition_of_error hposition]
      exact .refl v
    | ok next =>
      rw [edit_setPosition_of_ok hposition]
      exact h.sameRecords_moveTo next
  | setCurrentInfo index => exact h.sameRecords_setCurrentInfo index
  | setCurrentHop index => exact h.sameRecords_setCurrentHop index
  | advance =>
    cases hadvance : v.header.advance with
    | error fault =>
      rw [edit_advance_of_error hadvance]
      exact .refl v
    | ok next =>
      rw [edit_advance_of_ok hadvance]
      exact h.sameRecords_moveTo next
  | reverse => exact absurd he Bool.false_ne_true
  | info index change => exact absurd he Bool.false_ne_true
  | hop index change => exact absurd he Bool.false_ne_true

theorem Sound.sameRecords_after (h : v.Sound) {edits : List Edit}
    (hedits : ∀ e ∈ edits, e.setsPosition = true) : v.SameRecords (v.after edits) := by
  induction edits generalizing v with
  | nil => exact .refl v
  | cons e edits ih =>
    obtain ⟨he, hedits⟩ := List.forall_mem_cons.mp hedits
    have hstep := h.sameRecords_edit he
    exact hstep.trans (ih (hstep.sound h) hedits)

/-- Setting the position of a path in place, in whatever way, leaves its links as they are. -/
theorem Sound.links_after (h : v.Sound) {edits : List Edit}
    (hedits : ∀ e ∈ edits, e.setsPosition = true) :
    (v.after edits).records.links = v.toPath.records.links := by
  have hsame := h.sameRecords_after hedits
  have hcourse : (v.after edits).toPath.course = v.toPath.course :=
    congrArg (List.map Segment.course) (hsame.segments_toPath h)
  rw [← (hsame.sound h).records_toPath]
  exact Path.links_congr hcourse

end PathView

/-! ## What is hashed -/

namespace Fingerprint

/-- The bytes write a route: eight bytes for the first AS, then for each link two bytes for the
interface where it is entered and two for the one where it is left. -/
structure Writes (b : Bytes) (first : IsdAs) (links : List Link) : Prop where
  length_eq : b.length = 8 + 4 * links.length
  first_eq : b.number 0 64 = first.raw.toNat
  egress_eq : ∀ i link, links[i]? = some link → b.number (64 + 32 * i) 16 = link.egress.toNat
  ingress_eq : ∀ i link, links[i]? = some link → b.number (80 + 32 * i) 16 = link.ingress.toNat

@[simp] theorem length_linkBytes (link : Link) : (linkBytes link).length = 4 := by
  simp [linkBytes]

theorem number_linkBytes (link : Link) :
    (linkBytes link).number 0 16 = link.egress.toNat ∧
      (linkBytes link).number 16 16 = link.ingress.toNat := by
  constructor
  · rw [linkBytes, Bytes.number_append_left (by simp), Bytes.number_ofWord (by decide)]
    rfl
  · -- the second interface is behind the two bytes of the first
    have hlength : 16 = 8 * (Bytes.ofWord 2 link.egress.toBitVec).length := by simp
    have hbehind :=
      Bytes.number_append_right hlength (Bytes.ofWord 2 link.ingress.toBitVec) 0 16
    rw [Nat.add_zero, Bytes.number_ofWord (by decide)] at hbehind
    exact hbehind

@[simp] theorem length_flatMap_linkBytes (links : List Link) :
    (links.flatMap linkBytes).length = 4 * links.length := by
  induction links with
  | nil => rfl
  | cons link links ih => simp [ih]; omega

/-- Each link is written behind the links before it. -/
theorem number_flatMap_linkBytes {links : List Link} {i : Nat} {link : Link}
    (h : links[i]? = some link) {start width : Nat} (hinside : start + width ≤ 32) :
    Bytes.number (links.flatMap linkBytes) (32 * i + start) width =
      (linkBytes link).number start width := by
  induction links generalizing i with
  | nil => simp at h
  | cons first links ih =>
    rw [List.flatMap_cons]
    cases i with
    | zero =>
      obtain rfl : first = link := by simpa using h
      rw [Nat.mul_zero, Nat.zero_add]
      exact Bytes.number_append_left (by simpa using hinside)
    | succ i =>
      have hstart : 32 * (i + 1) + start = 32 + (32 * i + start) := by omega
      rw [hstart, Bytes.number_append_right (by simp)]
      exact ih (by simpa using h)

/-- The links are written behind the eight bytes of the first AS. -/
theorem number_message (first : IsdAs) {links : List Link} {i : Nat} {link : Link}
    (h : links[i]? = some link) (start width : Nat) (hinside : start + width ≤ 32) :
    (message first links).number (64 + (32 * i + start)) width =
      (linkBytes link).number start width := by
  rw [message, Bytes.number_append_right (by simp)]
  exact number_flatMap_linkBytes h hinside

theorem writes_message (first : IsdAs) (links : List Link) :
    Writes (message first links) first links where
  length_eq := by
    rw [message, List.length_append, Bytes.length_ofWord, length_flatMap_linkBytes]
  first_eq := by
    rw [message, Bytes.number_append_left (by simp), Bytes.number_ofWord (by decide)]
    rfl
  egress_eq := by
    intro i link h
    have hwritten := number_message first h 0 16 (by decide)
    rw [(number_linkBytes link).1] at hwritten
    exact hwritten
  ingress_eq := by
    intro i link h
    have hwritten := number_message first h 16 16 (by decide)
    have hindex : 64 + (32 * i + 16) = 80 + 32 * i := by omega
    rw [hindex, (number_linkBytes link).2] at hwritten
    exact hwritten

/-- The route can be read back from the bytes that write it. -/
theorem Writes.unique {b : Bytes} {first second : IsdAs} {links links' : List Link}
    (h : Writes b first links) (h' : Writes b second links') : first = second ∧ links = links' := by
  constructor
  · have hraw : first.raw = second.raw := UInt64.toNat_inj.mp (h.first_eq.symm.trans h'.first_eq)
    cases first
    cases second
    exact congrArg IsdAs.mk hraw
  · have hlength : links.length = links'.length := by
      have hsame := h.length_eq.symm.trans h'.length_eq
      omega
    apply List.ext_getElem hlength
    intro i hi hi'
    have hlink := List.getElem?_eq_getElem hi
    have hlink' := List.getElem?_eq_getElem hi'
    -- both interfaces are numbers in the same bytes
    have hegress := (h.egress_eq i _ hlink).symm.trans (h'.egress_eq i _ hlink')
    have hingress := (h.ingress_eq i _ hlink).symm.trans (h'.ingress_eq i _ hlink')
    rw [Link.mk.injEq]
    exact ⟨UInt16.toNat_inj.mp hegress, UInt16.toNat_inj.mp hingress⟩

/-- A route has one form of bytes for the hash. -/
theorem message_injective {first second : IsdAs} {links links' : List Link}
    (h : message first links = message second links') : first = second ∧ links = links' :=
  (writes_message first links).unique (h ▸ writes_message second links')

end Fingerprint

/-- A path with a wire form has one fingerprint.  It is the hash of the bytes that write the first AS
and the links of the path; the wire form in place has the same links and fingerprint, whatever the
position is set to, and so has every path of the same course.  The bytes that are hashed determine
the first AS and the links. -/
theorem fingerprint_identifies_route {p : Path} (hvalid : p.structureFault? = none)
    (origin : IsdAs) :
    (∀ first links,
      Fingerprint.ofLinks first links =
          ⟨Crypto.Sha256.hash (Fingerprint.message first links)⟩ ∧
        Fingerprint.Writes (Fingerprint.message first links) first links) ∧
    p.records.fingerprint origin =
      ⟨Crypto.Sha256.hash (Fingerprint.message origin p.records.links)⟩ ∧
    (∃ b v, Wire.encode p = .ok b ∧ PathView.ofBytes b = .ok (v, []) ∧
      ∀ edits : List PathView.Edit, (∀ e ∈ edits, e.setsPosition = true) →
        (v.after edits).records.links = p.records.links ∧
        (v.after edits).records.fingerprint origin =
          ⟨Crypto.Sha256.hash (Fingerprint.message origin (v.after edits).records.links)⟩ ∧
        (v.after edits).records.fingerprint origin = p.records.fingerprint origin) ∧
    (∀ q : Path, q.course = p.course →
      q.records.links = p.records.links ∧
      q.records.fingerprint origin = p.records.fingerprint origin) ∧
    ∀ first second links links',
      Fingerprint.message first links = Fingerprint.message second links' →
        first = second ∧ links = links' := by
  have hwell := Path.structureFault?_eq_none_iff.mp hvalid
  refine ⟨?_, rfl, ⟨p.bytes, ⟨p.bytes⟩, Path.encode_eq hwell, ?_, ?_⟩, ?_, ?_⟩
  · intro first links
    exact ⟨rfl, Fingerprint.writes_message first links⟩
  · simpa using hwell.ofBytes_eq []
  · intro edits hedits
    -- the view of the wire form reads as the path itself
    have hlinks := hwell.sound.links_after hedits
    rw [hwell.toPath_view] at hlinks
    exact ⟨hlinks, rfl, congrArg (Fingerprint.ofLinks origin) hlinks⟩
  · intro q hcourse
    have hlinks := Path.links_congr hcourse
    exact ⟨hlinks, congrArg (Fingerprint.ofLinks origin) hlinks⟩
  · intro first second links links'
    exact Fingerprint.message_injective

/-- The case of two segments that peer, after both indices were set out of range in place, and of a
path that differs in its position, its codes, its timestamps and all flags but those for peering.
The hash is taken of the 20 bytes of an AS and three links. -/
theorem fingerprint_identifies_route_of_peering :
    let hop (flags expTime : UInt8) (ingress egress : UInt16) (mac : BitVec 48) : HopField :=
      ⟨⟨flags⟩, expTime, ingress, egress, ⟨mac⟩⟩
    let p : Path := ⟨0, 1, [⟨⟨⟨2⟩, 7, 1000⟩, [hop 0 63 0 1 1, hop 0 63 2 5 2]⟩,
      ⟨⟨⟨3⟩, 7, 1000⟩, [hop 0 63 6 3 3, hop 0 63 4 0 4]⟩]⟩
    let q : Path := ⟨3, 9, [⟨⟨⟨0xfb⟩, 8, 50⟩, [hop 1 0 0 1 0, hop 3 1 2 5 0]⟩,
      ⟨⟨⟨2⟩, 9, 60⟩, [hop 2 2 6 3 0, hop 0 3 4 0 0]⟩]⟩
    let origin : IsdAs := .ofParts 1 0xff0000000110
    let digest : Fingerprint := ⟨Crypto.Sha256.hash
      [0, 1, 0xff, 0, 0, 0, 1, 0x10, 0, 1, 0, 2, 0, 5, 0, 6, 0, 3, 0, 4]⟩
    p.structureFault? = none ∧ q.course = p.course ∧
      p.records.fingerprint origin = digest ∧ q.records.fingerprint origin = digest ∧
      ∃ b v, Wire.encode p = .ok b ∧ PathView.ofBytes b = .ok (v, []) ∧
        (v.after [.setCurrentInfo 3, .setCurrentHop 63]).records.fingerprint origin = digest := by
  intro hop p q origin digest
  have hvalid : p.structureFault? = none := by decide
  have hcourse : q.course = p.course := by decide
  obtain ⟨-, hhash, ⟨b, v, hencode, haccept, hafter⟩, hsame, -⟩ :=
    fingerprint_identifies_route hvalid origin
  have hlinks : p.records.links = [⟨1, 2⟩, ⟨5, 6⟩, ⟨3, 4⟩] := by
    rw [Path.links_eq_ofHops (by decide)]
    decide
  have hmessage : Fingerprint.message origin [⟨1, 2⟩, ⟨5, 6⟩, ⟨3, 4⟩] =
      [0, 1, 0xff, 0, 0, 0, 1, 0x10, 0, 1, 0, 2, 0, 5, 0, 6, 0, 3, 0, 4] := by decide
  have hdigest : p.records.fingerprint origin = digest := by rw [hhash, hlinks, hmessage]
  exact ⟨hvalid, hcourse, hdigest, (hsame q hcourse).2.trans hdigest, b, v, hencode, haccept,
    (hafter _ (by decide)).2.2.trans hdigest⟩

end SourceRoute
