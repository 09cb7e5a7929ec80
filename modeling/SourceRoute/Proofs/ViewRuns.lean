import SourceRoute.Proofs.ViewEdits

/-!
# Runs of changes in place

One change looks at no byte outside the spans that it touches, so nothing that it does depends on
bytes outside the view.  As each change keeps a view sound, the records of an accepted view lie as
they should after any number of changes, whatever position these have left behind.
-/

namespace SourceRoute.PathView

/-! ## What one change looks at -/

/-- Whether two views have as many bytes and the same bytes in each of some spans. -/
structure Agree (spans : List Span) (v w : PathView) : Prop where
  length_eq : w.bytes.length = v.bytes.length
  slice?_eq : ∀ span ∈ spans, w.bytes.slice? span = v.bytes.slice? span

/-- A change looks at no byte but those in its spans.  On every view with the same bytes there, it
is carried out or refused alike, and it leaves the same bytes there. -/
def Determined (v : PathView) (e : Edit) : Prop :=
  ∀ w, Agree (e.touched v) v w →
    (w.edit e).1 = (v.edit e).1 ∧ Agree (e.touched v) (v.edit e).2 (w.edit e).2

private theorem slice?_header {b : Bytes} (hsize : Header.size ≤ b.length) :
    b.slice? ⟨0, Header.size⟩ = some (b.take Header.size) := by
  rw [Bytes.slice?, if_pos ⟨Nat.zero_le _, hsize⟩]
  rfl

private theorem take_set {r : BitRange} (hcount : r.byteCount ≤ 8) (hstop : r.stop ≤ 32) {b : Bytes}
    (hsize : Header.size ≤ b.length) (x : BitVec 8) :
    (r.set x b).take Header.size = r.set x (b.take Header.size) := by
  -- the range lies in the header, so only bytes in front of the cut are written
  rw [BitRange.set_eq_append hcount hstop hsize]
  exact List.take_left' (by rw [BitRange.length_set, List.length_take_of_le hsize])

section

variable {v w : PathView}

theorem Agree.of_take (hsize : Header.size ≤ v.bytes.length)
    (hlength : w.bytes.length = v.bytes.length)
    (htake : w.bytes.take Header.size = v.bytes.take Header.size) :
    Agree [⟨0, Header.size⟩] v w where
  length_eq := hlength
  slice?_eq := by
    intro span hspan
    obtain rfl := List.mem_singleton.mp hspan
    rw [slice?_header hsize, slice?_header (by rwa [hlength]), htake]

theorem Agree.take_eq {spans : List Span} (hsize : Header.size ≤ v.bytes.length)
    (hagree : Agree (⟨0, Header.size⟩ :: spans) v w) :
    w.bytes.take Header.size = v.bytes.take Header.size := by
  have hslice := hagree.slice?_eq ⟨0, Header.size⟩ List.mem_cons_self
  rw [slice?_header hsize, slice?_header (by rw [hagree.length_eq]; exact hsize)] at hslice
  exact Option.some.inj hslice

/-- Views that agree on the header still do after both got the same bits in it. -/
theorem Agree.set {r : BitRange} (hcount : r.byteCount ≤ 8) (hstop : r.stop ≤ 32)
    (hsize : Header.size ≤ v.bytes.length) (hagree : Agree [⟨0, Header.size⟩] v w) (x : BitVec 8) :
    Agree [⟨0, Header.size⟩] ⟨r.set x v.bytes⟩ ⟨r.set x w.bytes⟩ := by
  refine .of_take ?_ ?_ ?_
  · rwa [BitRange.length_set]
  · rw [BitRange.length_set, BitRange.length_set, hagree.length_eq]
  · rw [take_set hcount hstop hsize, take_set hcount hstop (by rwa [hagree.length_eq]),
      hagree.take_eq hsize]

theorem Agree.setCurrentInfo (hsize : Header.size ≤ v.bytes.length)
    (hagree : Agree [⟨0, Header.size⟩] v w) (index : UInt8) :
    Agree [⟨0, Header.size⟩] (v.setCurrentInfo index) (w.setCurrentInfo index) :=
  hagree.set (by decide) (by decide) hsize _

theorem Agree.setCurrentHop (hsize : Header.size ≤ v.bytes.length)
    (hagree : Agree [⟨0, Header.size⟩] v w) (index : UInt8) :
    Agree [⟨0, Header.size⟩] (v.setCurrentHop index) (w.setCurrentHop index) :=
  hagree.set (by decide) (by decide) hsize _

theorem Agree.moveTo (hsize : Header.size ≤ v.bytes.length)
    (hagree : Agree [⟨0, Header.size⟩] v w) (next : Header) :
    Agree [⟨0, Header.size⟩] (v.moveTo next) (w.moveTo next) := by
  refine (hagree.setCurrentInfo hsize next.currentInfo).setCurrentHop ?_ next.currentHop
  rwa [PathView.setCurrentInfo, BitRange.length_set]

/-- Where the records lie depends on the header alone. -/
theorem recordSpans_eq_of_header (hheader : w.header = v.header) :
    w.infoSpan? = v.infoSpan? ∧ w.hopSpan? = v.hopSpan? ∧ w.recordSpans = v.recordSpans := by
  have hinfo : w.infoSpan? = v.infoSpan? := by
    funext index
    rw [infoSpan?, infoSpan?, infoCount, infoCount, lengths, lengths, hheader]
  have hhop : w.hopSpan? = v.hopSpan? := by
    funext index
    rw [hopSpan?, hopSpan?, hopCount, hopCount, lengths, lengths, hheader]
  refine ⟨hinfo, hhop, ?_⟩
  simp only [recordSpans, hinfo, hhop, infoCount, hopCount, lengths, hheader]

/-- Views that agree on a record still do after both got the same bytes for it. -/
theorem Agree.splice (hv : v.Sound) (hw : w.Sound) {span : Span} {part part' : Bytes}
    (hspan : span ∈ v.recordSpans) (hspan' : span ∈ w.recordSpans)
    (hslice : v.bytes.slice? span = some part) (hlength : part'.length = part.length)
    (hagree : Agree [⟨0, Header.size⟩, span] v w) :
    Agree [⟨0, Header.size⟩, span]
      ⟨v.bytes.splice span.start part'⟩ ⟨w.bytes.splice span.start part'⟩ := by
  have hslice' : w.bytes.slice? span = some part := by
    rw [hagree.slice?_eq span (by simp), hslice]
  -- a record lies behind the header, so both views keep theirs and stay sound
  have hv' : (PathView.mk (v.bytes.splice span.start part')).Sound :=
    hv.of_take (Bytes.length_splice hslice hlength) (hv.take_splice hspan hslice hlength)
  have hw' : (PathView.mk (w.bytes.splice span.start part')).Sound :=
    hw.of_take (Bytes.length_splice hslice' hlength) (hw.take_splice hspan' hslice' hlength)
  refine ⟨?_, ?_⟩
  · rw [Bytes.length_splice hslice' hlength, Bytes.length_splice hslice hlength, hagree.length_eq]
  · intro touched htouched
    rcases List.mem_cons.mp htouched with rfl | htouched
    · -- the header was not written to
      rw [slice?_header hw'.size_le, slice?_header hv'.size_le,
        hw.take_splice hspan' hslice' hlength, hv.take_splice hspan hslice hlength,
        hagree.take_eq hv.size_le]
    · -- the record is what was written, in both views
      obtain rfl := List.mem_singleton.mp htouched
      rw [Bytes.slice?_splice hslice' hlength, Bytes.slice?_splice hslice hlength]

/-- A change of one record gives the same result on views that agree on the record. -/
theorem Agree.edit_of_splice (hv : v.Sound) (hw : w.Sound) {e : Edit}
    (hagree : Agree (e.touched v) v w) {span : Span} {part part' : Bytes}
    (hspan : span ∈ v.recordSpans) (hspan' : span ∈ w.recordSpans)
    (hslice : v.bytes.slice? span = some part) (hlength : part'.length = part.length)
    (htouched : e.recordsTouched v = [span])
    (hedit : v.edit e = (true, ⟨v.bytes.splice span.start part'⟩))
    (hedit' : w.bytes.slice? span = some part →
      w.edit e = (true, ⟨w.bytes.splice span.start part'⟩)) :
    (w.edit e).1 = (v.edit e).1 ∧ Agree (e.touched v) (v.edit e).2 (w.edit e).2 := by
  rw [Edit.touched, htouched] at hagree ⊢
  have hslice' : w.bytes.slice? span = some part := by
    rw [hagree.slice?_eq span (by simp), hslice]
  rw [hedit, hedit' hslice']
  exact ⟨rfl, hagree.splice hv hw hspan hspan' hslice hlength⟩

/-- Views that agree on the header and on both runs of records are the same. -/
theorem Agree.eq (hv : v.Sound) (hw : w.Sound) (hheader : w.header = v.header)
    (hagree : Agree [⟨0, Header.size⟩, v.infoRun, v.hopRun] v w) : w = v := by
  -- the header says where the two runs lie
  have hinfoRun : w.infoRun = v.infoRun := by simp only [infoRun, lengths, hheader]
  have hhopRun : w.hopRun = v.hopRun := by simp only [hopRun, hopCount, lengths, hheader]
  have hinfos : w.infos.flatMap InfoView.bytes = v.infos.flatMap InfoView.bytes := by
    have hslice := hagree.slice?_eq v.infoRun (by simp)
    rw [hv.madeOf.slice?_infoRun, ← hinfoRun, hw.madeOf.slice?_infoRun] at hslice
    exact Option.some.inj hslice
  have hhops : w.hops.flatMap HopView.bytes = v.hops.flatMap HopView.bytes := by
    have hslice := hagree.slice?_eq v.hopRun (by simp)
    rw [hv.madeOf.slice?_hopRun, ← hhopRun, hw.madeOf.slice?_hopRun] at hslice
    exact Option.some.inj hslice
  -- a sound view has no bytes but those of its header and of the two runs
  have hbytes : w.bytes = v.bytes := by
    rw [hw.madeOf.bytes_eq, hinfos, hhops, hagree.take_eq hv.size_le, ← hv.madeOf.bytes_eq]
  calc w = ⟨w.bytes⟩ := rfl
    _ = ⟨v.bytes⟩ := by rw [hbytes]
    _ = v := rfl

theorem Sound.determined (h : v.Sound) (e : Edit) : v.Determined e := by
  intro w hagree
  have hlength := hagree.length_eq
  have htake := hagree.take_eq h.size_le
  -- every change looks at the header, so the views have the same one, and with it their records
  -- lie in the same places
  have hheader := h.header_eq_of_take hlength htake
  have hw := h.of_take hlength htake
  obtain ⟨hinfoSpan, hhopSpan, hspans⟩ := recordSpans_eq_of_header hheader
  cases e with
  | setPosition currentInfo currentHop =>
    -- whether the position is allowed is up to the header
    cases hposition : v.header.withPosition currentInfo currentHop with
    | error fault =>
      rw [edit_setPosition_of_error hposition,
        edit_setPosition_of_error (v := w) (by rwa [hheader])]
      exact ⟨rfl, hagree⟩
    | ok moved =>
      rw [edit_setPosition_of_ok hposition, edit_setPosition_of_ok (v := w) (by rwa [hheader])]
      exact ⟨rfl, Agree.moveTo h.size_le hagree moved⟩
  | setCurrentInfo index => exact ⟨rfl, Agree.setCurrentInfo h.size_le hagree index⟩
  | setCurrentHop index => exact ⟨rfl, Agree.setCurrentHop h.size_le hagree index⟩
  | advance =>
    cases hadvance : v.header.advance with
    | error fault =>
      rw [edit_advance_of_error hadvance, edit_advance_of_error (v := w) (by rwa [hheader])]
      exact ⟨rfl, hagree⟩
    | ok moved =>
      rw [edit_advance_of_ok hadvance, edit_advance_of_ok (v := w) (by rwa [hheader])]
      exact ⟨rfl, Agree.moveTo h.size_le hagree moved⟩
  | reverse =>
    -- turning looks at all bytes, so there is one view only
    obtain rfl := Agree.eq h hw hheader hagree
    exact ⟨rfl, rfl, fun _ _ => rfl⟩
  | info index change =>
    cases hspan : v.infoSpan? index with
    | none =>
      rw [edit_info_of_none hspan, edit_info_of_none (v := w) (by rwa [hinfoSpan])]
      exact ⟨rfl, hagree⟩
    | some span =>
      have hmem := mem_recordSpans_of_info hspan
      obtain ⟨part, hpart⟩ := h.exists_slice hmem
      -- the record is read alike, changed and written back to where it was
      refine hagree.edit_of_splice h hw hmem (by rwa [hspans]) hpart
        (InfoView.length_edit ⟨part⟩ change) ?_ (edit_info_of_slice hspan hpart change)
        fun hpart' => edit_info_of_slice (by rwa [hinfoSpan]) hpart' change
      rw [Edit.recordsTouched, hspan]
      rfl
  | hop index change =>
    cases hspan : v.hopSpan? index with
    | none =>
      rw [edit_hop_of_none hspan, edit_hop_of_none (v := w) (by rwa [hhopSpan])]
      exact ⟨rfl, hagree⟩
    | some span =>
      have hmem := mem_recordSpans_of_hop hspan
      obtain ⟨part, hpart⟩ := h.exists_slice hmem
      refine hagree.edit_of_splice h hw hmem (by rwa [hspans]) hpart
        (HopView.length_edit ⟨part⟩ change) ?_ (edit_hop_of_slice hspan hpart change)
        fun hpart' => edit_hop_of_slice (by rwa [hhopSpan]) hpart' change
      rw [Edit.recordsTouched, hspan]
      rfl

end

/-! ## Any number of changes -/

/-- The path after some changes, one after the other. -/
def after (v : PathView) (edits : List Edit) : PathView := edits.foldl (fun w e => (w.edit e).2) v

theorem Sound.after {v : PathView} (h : v.Sound) (edits : List Edit) :
    (v.after edits).Sound ∧ (v.after edits).bytes.length = v.bytes.length := by
  induction edits generalizing v with
  | nil => exact ⟨h, rfl⟩
  | cons e edits ih =>
    have hstep := h.confined e
    obtain ⟨hsound, hlength⟩ := ih hstep.sound
    exact ⟨hsound, hlength.trans hstep.length_eq⟩

/-- Whatever is done to an accepted view, and in whatever order, its records lie as they should, and
whatever is done next keeps to the bytes that it touches, all of which lie inside the view.  Turning
round by runs of bytes, too, slices the view only where it has bytes. -/
theorem laid_and_confined_after {b rest : Bytes} {accepted : PathView}
    (haccept : ofBytes b = .ok (accepted, rest)) (edits : List Edit) :
    (accepted.after edits).Laid ∧
      (accepted.after edits).bytes.length = accepted.bytes.length ∧
      (∀ e, (accepted.after edits).Confined e ∧ (accepted.after edits).Determined e) ∧
      (accepted.after edits).reverseByRuns? = some (accepted.after edits).reverse := by
  obtain ⟨-, hsound, -⟩ := ofBytes_eq_ok_iff.mp haccept
  obtain ⟨hafter, hlength⟩ := hsound.after edits
  exact ⟨hafter.laid, hlength, fun e => ⟨hafter.confined e, hafter.determined e⟩,
    hafter.reverseByRuns?_eq⟩

/-- The case of two segments of one and two hops, with two bytes behind the path, after both indices
were set out of range and the path was turned round and moved. -/
theorem laid_and_confined_after_turning :
    let hop : Bytes := [0, 63, 0, 4, 0, 5, 1, 2, 3, 4, 5, 6]
    let path : Bytes := [0, 0xfc, 0x10, 0x80] ++ [1, 0xab, 0, 7, 0, 0, 3, 0xe8] ++
      [0, 0xcd, 0, 9, 0, 0, 3, 0xe8] ++ hop ++ hop ++ hop
    let v := (PathView.mk path).after [.setCurrentInfo 3, .setCurrentHop 63, .reverse, .advance]
    ofBytes (path ++ [9, 9]) = .ok (⟨path⟩, [9, 9]) ∧
      v.Laid ∧ v.bytes.length = 56 ∧ ∀ e, v.Confined e ∧ v.Determined e := by
  intro hop path v
  have haccept : ofBytes (path ++ [9, 9]) = .ok (⟨path⟩, [9, 9]) := by decide
  obtain ⟨hlaid, hlength, hchanges, -⟩ := laid_and_confined_after haccept
    [.setCurrentInfo 3, .setCurrentHop 63, .reverse, .advance]
  exact ⟨haccept, hlaid, hlength, hchanges⟩

end SourceRoute.PathView
