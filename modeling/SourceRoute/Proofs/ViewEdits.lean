import SourceRoute.Proofs.ReverseRuns
import SourceRoute.Proofs.ViewLayout

/-!
# Changes in place

A view keeps nothing but its bytes, so every change finds its record anew from the lengths that the
bytes hold.  This works as long as the view is sound, and every change keeps it so: the position is
written over bits that hold no length, a record is written over its own bytes, and turning round
calls for as many records as before.  `Confined` says what one change may do to the bytes.
-/

namespace SourceRoute

/-! ## Replacing a slice -/

namespace Bytes

section

variable {b part part' : Bytes} {span : Span}

theorem bounds_of_slice? (hslice : b.slice? span = some part) :
    span.stop = span.start + part.length ∧ span.stop ≤ b.length := by
  rw [slice?] at hslice
  obtain ⟨⟨hle, hstop⟩, hpart⟩ := Option.ite_none_right_eq_some.mp hslice
  rw [← Option.some.inj hpart, List.length_take, List.length_drop, Span.size]
  omega

theorem length_splice (hslice : b.slice? span = some part) (hlength : part'.length = part.length) :
    (b.splice span.start part').length = b.length := by
  obtain ⟨hstop, hinside⟩ := bounds_of_slice? hslice
  rw [splice, List.length_append, List.length_append, List.length_take, List.length_drop]
  omega

/-- Replacing a slice by as many bytes changes nothing outside its span. -/
theorem getElem?_splice (hslice : b.slice? span = some part)
    (hlength : part'.length = part.length) {i : Nat} (hi : i ∉ span) :
    (b.splice span.start part')[i]? = b[i]? := by
  obtain ⟨hstop, hinside⟩ := bounds_of_slice? hslice
  have hfront : (b.take span.start).length = span.start := by
    rw [List.length_take]
    omega
  rw [Span.mem_iff] at hi
  rw [splice]
  by_cases hbefore : i < span.start
  · rw [List.append_assoc, List.getElem?_append_left (by omega), List.getElem?_take_of_lt hbefore]
  · have hbehind : (b.take span.start ++ part').length ≤ i := by
      rw [List.length_append]
      omega
    rw [List.getElem?_append_right hbehind, List.getElem?_drop, List.length_append]
    congr 1
    omega

/-- The span of a slice that was replaced holds the new bytes. -/
theorem slice?_splice (hslice : b.slice? span = some part) (hlength : part'.length = part.length) :
    (b.splice span.start part').slice? span = some part' := by
  obtain ⟨hstop, hinside⟩ := bounds_of_slice? hslice
  have hfront : (b.take span.start).length = span.start := by
    rw [List.length_take]
    omega
  have hspan : Span.ofSize (b.take span.start).length part'.length = span := by
    rw [hfront, hlength, Span.ofSize, ← hstop]
  have hfound := slice?_append (b.take span.start) part' (b.drop (span.start + part'.length))
  rwa [hspan] at hfound

end

end Bytes

/-! ## Records -/

theorem InfoView.length_edit (v : InfoView) (change : InfoView.Edit) :
    (v.edit change).bytes.length = v.bytes.length := by
  cases change <;> exact BitRange.length_set ..

theorem HopView.length_edit (v : HopView) (change : HopView.Edit) :
    (v.edit change).bytes.length = v.bytes.length := by
  cases change <;> exact BitRange.length_set ..

namespace PathView

/-! ## Changes -/

/-- A change to a path in place. -/
inductive Edit where
  /-- Sets both indices of the position, if the lengths allow it. -/
  | setPosition (currentInfo currentHop : UInt8)
  /-- Sets the index of the segment, unchecked. -/
  | setCurrentInfo (index : UInt8)
  /-- Sets the index of the hop, unchecked. -/
  | setCurrentHop (index : UInt8)
  /-- Moves to the next hop, if there is one. -/
  | advance
  /-- Turns the path round. -/
  | reverse
  /-- Sets one part of an info field, if there is such a field. -/
  | info (index : Nat) (edit : InfoView.Edit)
  /-- Sets one part of a hop field, if there is such a field. -/
  | hop (index : Nat) (edit : HopView.Edit)

/-- Whether a change is carried out, and the path after it. -/
def edit (v : PathView) : Edit → Bool × PathView
  | .setPosition currentInfo currentHop =>
    ((v.setPosition currentInfo currentHop).1.isOk, (v.setPosition currentInfo currentHop).2)
  | .setCurrentInfo index => (true, v.setCurrentInfo index)
  | .setCurrentHop index => (true, v.setCurrentHop index)
  | .advance => (v.advance.1.isOk, v.advance.2)
  | .reverse => (true, v.reverse)
  | .info index edit => ((v.editInfo? index edit).isSome, (v.editInfo? index edit).getD v)
  | .hop index edit => ((v.editHop? index edit).isSome, (v.editHop? index edit).getD v)

/-- Whether a change leaves a valid position when it is carried out. -/
def Edit.settles : Edit → Bool
  | .setPosition _ _ | .advance | .reverse => true
  | .setCurrentInfo _ | .setCurrentHop _ | .info _ _ | .hop _ _ => false

/-- The spans behind the header that a change reads or writes. -/
def Edit.recordsTouched (v : PathView) : Edit → List Span
  | .setPosition _ _ | .setCurrentInfo _ | .setCurrentHop _ | .advance => []
  | .reverse => [v.infoRun, v.hopRun]
  | .info index _ => (v.infoSpan? index).toList
  | .hop index _ => (v.hopSpan? index).toList

/-- All spans that a change reads or writes.  The header is one of them: the lengths in it say where
the records are. -/
def Edit.touched (v : PathView) (e : Edit) : List Span := ⟨0, Header.size⟩ :: e.recordsTouched v

/-! ## What one change may do -/

/-- All spans of a change lie inside the view.  The change leaves a sound view of the same length
and writes no byte outside its spans; if it is refused, it writes none, and if it settles the
position, the header is valid afterwards. -/
structure Confined (v : PathView) (e : Edit) : Prop where
  sound : (v.edit e).2.Sound
  inside : ∀ span ∈ e.touched v, (v.bytes.slice? span).isSome = true
  length_eq : (v.edit e).2.bytes.length = v.bytes.length
  frame : ∀ i, (∀ span ∈ e.touched v, i ∉ span) → (v.edit e).2.bytes[i]? = v.bytes[i]?
  refused : (v.edit e).1 = false → (v.edit e).2 = v
  settled : e.settles = true → (v.edit e).1 = true →
    (v.edit e).2.header.validate = .ok (v.edit e).2.header

section

variable {v next : PathView}

/-- No span that a change touches reaches out of a sound view. -/
theorem Sound.inside_touched (h : v.Sound) (e : Edit) :
    ∀ span ∈ e.touched v, (v.bytes.slice? span).isSome = true := by
  have hmade := h.madeOf
  have hlaid := h.laid
  intro span hspan
  rcases List.mem_cons.mp hspan with rfl | hspan
  · exact Bytes.isSome_slice? (Nat.zero_le _) h.size_le
  -- behind the header, the span is that of a record or of all records of one kind
  cases e with
  | setPosition => cases hspan
  | setCurrentInfo => cases hspan
  | setCurrentHop => cases hspan
  | advance => cases hspan
  | reverse =>
    have hrun : span = v.infoRun ∨ span = v.hopRun := by
      simpa only [Edit.recordsTouched, List.mem_cons, List.not_mem_nil, or_false] using hspan
    rcases hrun with rfl | rfl
    · rw [hmade.slice?_infoRun]
      rfl
    · rw [hmade.slice?_hopRun]
      rfl
  | info index => exact hlaid.inside span (mem_recordSpans_of_info (Option.mem_toList.mp hspan))
  | hop index => exact hlaid.inside span (mem_recordSpans_of_hop (Option.mem_toList.mp hspan))

theorem Sound.confined_of_refused (h : v.Sound) {e : Edit} (hedit : v.edit e = (false, v)) :
    v.Confined e where
  sound := by rwa [hedit]
  inside := h.inside_touched e
  length_eq := by rw [hedit]
  frame := fun i _ => by rw [hedit]
  refused := fun _ => by rw [hedit]
  settled := fun _ hcarried => by simp [hedit] at hcarried

/-- A change of the position writes in the header only. -/
theorem Sound.confined_of_sameRecords (h : v.Sound) {e : Edit} (hedit : v.edit e = (true, next))
    (hsame : v.SameRecords next) (hsettled : e.settles = true → next.header.fault? = none) :
    v.Confined e where
  sound := by
    rw [hedit]
    exact hsame.sound h
  inside := h.inside_touched e
  length_eq := by rw [hedit, hsame.length_eq]
  frame := by
    intro i hi
    -- a byte outside the spans is one behind the header
    have hheader : ¬i < Header.size := fun hlt => hi _ List.mem_cons_self ⟨Nat.zero_le i, hlt⟩
    rw [hedit, hsame.getElem?_eq (Nat.le_of_not_lt hheader)]
  refused := fun hrefused => by simp [hedit] at hrefused
  settled := fun hsettles _ => by rw [hedit, Header.validate_eq_ok (hsettled hsettles)]

/-- Views of one length with the same bytes in the header read the same header. -/
theorem Sound.header_eq_of_take (h : v.Sound) (hlength : next.bytes.length = v.bytes.length)
    (htake : next.bytes.take Header.size = v.bytes.take Header.size) : next.header = v.header := by
  have hsize : Header.size ≤ next.bytes.length := by
    rw [hlength]
    exact h.size_le
  rw [header, header, Header.read_eq_read_take hsize, htake, ← Header.read_eq_read_take h.size_le]

theorem Sound.of_take (h : v.Sound) (hlength : next.bytes.length = v.bytes.length)
    (htake : next.bytes.take Header.size = v.bytes.take Header.size) : next.Sound := by
  have hlengths : next.lengths = v.lengths :=
    congrArg Header.lengths (h.header_eq_of_take hlength htake)
  refine ⟨?_, ?_⟩
  · rw [hlengths]
    exact h.lengths
  · rw [hlengths, hlength]
    exact h.length_eq

section Splice

variable {span : Span} {part part' : Bytes}

/-- A record lies behind the header, so replacing it keeps the header. -/
theorem Sound.take_splice (h : v.Sound) (hspan : span ∈ v.recordSpans)
    (hslice : v.bytes.slice? span = some part) (hlength : part'.length = part.length) :
    (v.bytes.splice span.start part').take Header.size = v.bytes.take Header.size := by
  apply List.ext_getElem?
  intro i
  rw [List.getElem?_take, List.getElem?_take]
  split
  next hi =>
    -- no byte of the header belongs to a record
    refine Bytes.getElem?_splice hslice hlength fun hmem => ?_
    exact Nat.not_le_of_lt hi ((h.laid.covered i).mp ⟨span, hspan, hmem⟩).1
  next => rfl

/-- A change of one record writes over that record only. -/
theorem Sound.confined_of_splice (h : v.Sound) {e : Edit} (hspan : span ∈ v.recordSpans)
    (hslice : v.bytes.slice? span = some part) (hlength : part'.length = part.length)
    (hedit : v.edit e = (true, ⟨v.bytes.splice span.start part'⟩))
    (htouched : e.recordsTouched v = [span]) (hsettles : e.settles = false) : v.Confined e where
  sound := by
    rw [hedit]
    exact h.of_take (Bytes.length_splice hslice hlength) (h.take_splice hspan hslice hlength)
  inside := h.inside_touched e
  length_eq := by
    rw [hedit]
    exact Bytes.length_splice hslice hlength
  frame := by
    intro i hi
    rw [hedit]
    exact Bytes.getElem?_splice hslice hlength (hi span (by simp [Edit.touched, htouched]))
  refused := fun hrefused => by simp [hedit] at hrefused
  settled := fun hsettled => by simp [hsettles] at hsettled

end Splice

section Position

variable {fault : Malformed} {currentInfo currentHop : UInt8} {moved : Header}

theorem edit_setPosition_of_error
    (hposition : v.header.withPosition currentInfo currentHop = .error fault) :
    v.edit (.setPosition currentInfo currentHop) = (false, v) := by
  rw [edit, setPosition, hposition]
  rfl

theorem edit_setPosition_of_ok
    (hposition : v.header.withPosition currentInfo currentHop = .ok moved) :
    v.edit (.setPosition currentInfo currentHop) = (true, v.moveTo moved) := by
  rw [edit, setPosition, hposition]
  rfl

theorem edit_advance_of_error {fault : PathFault} (hadvance : v.header.advance = .error fault) :
    v.edit .advance = (false, v) := by
  rw [edit, advance, hadvance]
  rfl

theorem edit_advance_of_ok (hadvance : v.header.advance = .ok moved) :
    v.edit .advance = (true, v.moveTo moved) := by
  rw [edit, advance, hadvance]
  rfl

end Position

theorem Sound.confined_setPosition (h : v.Sound) (currentInfo currentHop : UInt8) :
    v.Confined (.setPosition currentInfo currentHop) := by
  cases hposition : v.header.withPosition currentInfo currentHop with
  | error fault => exact h.confined_of_refused (edit_setPosition_of_error hposition)
  | ok moved =>
    obtain ⟨hmoved, hvalid⟩ := Header.validate_eq_ok_iff.mp hposition
    have hfault : moved.fault? = none := by rwa [hmoved] at hvalid
    have hlengths : moved.lengths = v.lengths := (congrArg Header.lengths hmoved).symm
    refine h.confined_of_sameRecords (edit_setPosition_of_ok hposition)
      (h.sameRecords_moveTo moved) fun _ => ?_
    rwa [h.header_moveTo hlengths (Header.fits_of_fault? hfault)]

/-- Advancing from any position ends at a valid one. -/
theorem Sound.confined_advance (h : v.Sound) : v.Confined .advance := by
  cases hadvance : v.header.advance with
  | error fault => exact h.confined_of_refused (edit_advance_of_error hadvance)
  | ok moved =>
    obtain ⟨hlengths, hfault⟩ := Header.fault?_of_advance h.lengths hadvance
    refine h.confined_of_sameRecords (edit_advance_of_ok hadvance)
      (h.sameRecords_moveTo moved) fun _ => ?_
    rwa [h.header_moveTo hlengths (Header.fits_of_fault? hfault)]

theorem Sound.confined_reverse (h : v.Sound) : v.Confined .reverse where
  sound := h.sound_reverse
  inside := h.inside_touched .reverse
  length_eq := h.length_reverse
  frame := by
    intro i hi
    -- the header and the two runs leave no byte of the view out
    have hheader : i ∉ Span.mk 0 Header.size := hi _ List.mem_cons_self
    have hinfos : i ∉ v.infoRun := hi _ (by simp [Edit.touched, Edit.recordsTouched])
    have hhops : i ∉ v.hopRun := hi _ (by simp [Edit.touched, Edit.recordsTouched])
    have hlength : v.bytes.length =
        Header.size + (v.lengths.infoBytes + v.hopCount * HopField.size) := h.length_eq
    simp only [Span.mem_iff, infoRun, hopRun, Span.ofSize] at hheader hinfos hhops
    have hpast : v.bytes.length ≤ i := by omega
    have hpast' : v.reverse.bytes.length ≤ i := by rwa [h.length_reverse]
    change v.reverse.bytes[i]? = _
    rw [List.getElem?_eq_none hpast, List.getElem?_eq_none hpast']
  refused := fun hrefused => by cases hrefused
  settled := fun _ _ => Header.validate_eq_ok h.fault?_reverse

theorem edit_info_of_none {index : Nat} (hspan : v.infoSpan? index = none)
    (change : InfoView.Edit) : v.edit (.info index change) = (false, v) := by
  rw [edit, editInfo?, hspan]
  rfl

theorem edit_info_of_slice {index : Nat} {span : Span} {part : Bytes}
    (hspan : v.infoSpan? index = some span) (hpart : v.bytes.slice? span = some part)
    (change : InfoView.Edit) : v.edit (.info index change) =
      (true, ⟨v.bytes.splice span.start ((InfoView.mk part).edit change).bytes⟩) := by
  rw [edit, editInfo?, hspan, Option.bind_some, hpart]
  rfl

theorem Sound.confined_info (h : v.Sound) (index : Nat) (change : InfoView.Edit) :
    v.Confined (.info index change) := by
  cases hspan : v.infoSpan? index with
  | none => exact h.confined_of_refused (edit_info_of_none hspan change)
  | some span =>
    obtain ⟨part, hpart⟩ := h.exists_slice (mem_recordSpans_of_info hspan)
    refine h.confined_of_splice (mem_recordSpans_of_info hspan) hpart
      (InfoView.length_edit ⟨part⟩ change) (edit_info_of_slice hspan hpart change) ?_ rfl
    rw [Edit.recordsTouched, hspan]
    rfl

theorem edit_hop_of_none {index : Nat} (hspan : v.hopSpan? index = none)
    (change : HopView.Edit) : v.edit (.hop index change) = (false, v) := by
  rw [edit, editHop?, hspan]
  rfl

theorem edit_hop_of_slice {index : Nat} {span : Span} {part : Bytes}
    (hspan : v.hopSpan? index = some span) (hpart : v.bytes.slice? span = some part)
    (change : HopView.Edit) : v.edit (.hop index change) =
      (true, ⟨v.bytes.splice span.start ((HopView.mk part).edit change).bytes⟩) := by
  rw [edit, editHop?, hspan, Option.bind_some, hpart]
  rfl

theorem Sound.confined_hop (h : v.Sound) (index : Nat) (change : HopView.Edit) :
    v.Confined (.hop index change) := by
  cases hspan : v.hopSpan? index with
  | none => exact h.confined_of_refused (edit_hop_of_none hspan change)
  | some span =>
    obtain ⟨part, hpart⟩ := h.exists_slice (mem_recordSpans_of_hop hspan)
    refine h.confined_of_splice (mem_recordSpans_of_hop hspan) hpart
      (HopView.length_edit ⟨part⟩ change) (edit_hop_of_slice hspan hpart change) ?_ rfl
    rw [Edit.recordsTouched, hspan]
    rfl

/-- Every change to a sound view keeps to its bytes, and the view stays sound. -/
theorem Sound.confined (h : v.Sound) (e : Edit) : v.Confined e := by
  cases e with
  | setPosition currentInfo currentHop => exact h.confined_setPosition currentInfo currentHop
  | setCurrentInfo index =>
    exact h.confined_of_sameRecords rfl (h.sameRecords_setCurrentInfo index) fun hsettles => by
      cases hsettles
  | setCurrentHop index =>
    exact h.confined_of_sameRecords rfl (h.sameRecords_setCurrentHop index) fun hsettles => by
      cases hsettles
  | advance => exact h.confined_advance
  | reverse => exact h.confined_reverse
  | info index change => exact h.confined_info index change
  | hop index change => exact h.confined_hop index change

end

end PathView

end SourceRoute
