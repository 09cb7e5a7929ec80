import SourceRoute.Fingerprint
import SourceRoute.Proofs.CurrentLaws
import SourceRoute.Proofs.ViewRuns

/-!
# Views simulate owned paths

A view and the owned path that it stands for are two ways to hold the same path.  Every reading of
the view is a reading of the path, and every change of the view changes the path in the same way:
moving is refused or carried out alike, and setting one part of one record sets that part of that
record and nothing else.  None of this but advancing depends on a valid position.
-/

namespace SourceRoute

/-! ## Changing one item of a flattened list -/

namespace Runs

variable {α : Type}

private theorem modify_append_left {i : Nat} {l : List α} (hi : i < l.length) (f : α → α)
    (m : List α) : (l ++ m).modify i f = l.modify i f ++ m := by
  induction l generalizing i with
  | nil => simp at hi
  | cons a l ih =>
    cases i with
    | zero => rfl
    | succ i =>
      rw [List.cons_append, List.modify_succ_cons, List.modify_succ_cons,
        ih (Nat.lt_of_succ_lt_succ hi), List.cons_append]

private theorem modify_append_right {i : Nat} {l : List α} (hi : l.length ≤ i) (f : α → α)
    (m : List α) : (l ++ m).modify i f = l ++ m.modify (i - l.length) f := by
  induction l generalizing i with
  | nil => rfl
  | cons a l ih =>
    cases i with
    | zero => simp at hi
    | succ i =>
      rw [List.cons_append, List.modify_succ_cons, ih (Nat.le_of_succ_le_succ hi)]
      simp

/-- Changing an item inside its piece changes it in the list that the pieces make up. -/
theorem flatten_modify {pieces : List (List α)} {i s k : Nat}
    (h : locate (pieces.map List.length) i = some (s, k)) (f : α → α) :
    (pieces.modify s fun piece => piece.modify k f).flatten = pieces.flatten.modify i f := by
  induction pieces generalizing i s with
  | nil => simp [locate] at h
  | cons piece pieces ih =>
    rw [List.map_cons, locate] at h
    split at h
    next hi =>
      obtain ⟨rfl, rfl⟩ := Prod.mk.inj (Option.some.inj h)
      rw [List.modify_zero_cons, List.flatten_cons, List.flatten_cons, modify_append_left hi]
    next hi =>
      obtain ⟨⟨s, k⟩, hfound, hsk⟩ := Option.map_eq_some_iff.mp h
      obtain ⟨rfl, rfl⟩ := Prod.mk.inj hsk
      rw [List.modify_succ_cons, List.flatten_cons, List.flatten_cons, ih hfound,
        modify_append_right (Nat.le_of_not_lt hi)]

end Runs

/-! ## Changing one part of a record -/

/-- The info field with one part replaced. -/
def InfoField.edit (f : InfoField) : InfoView.Edit → InfoField
  | .flags flags => { f with flags }
  | .segmentId segmentId => { f with segmentId }
  | .timestamp timestamp => { f with timestamp }

/-- The hop field with one part replaced. -/
def HopField.edit (f : HopField) : HopView.Edit → HopField
  | .flags flags => { f with flags }
  | .expTime expTime => { f with expTime }
  | .ingress ingress => { f with ingress }
  | .egress egress => { f with egress }
  | .mac mac => { f with mac }

/-- Setting a part in place is replacing that part of the info field. -/
theorem InfoView.field_edit {v : InfoView} (hlength : v.bytes.length = InfoField.size)
    (change : InfoView.Edit) : (v.edit change).field = v.field.edit change := by
  have hset {w : Nat} {r : BitRange} (hcount : r.byteCount ≤ 8) (hwidth : r.width = w)
      (hstop : r.stop ≤ 8 * InfoField.size) (x : BitVec w) : r.get w (r.set x v.bytes) = x :=
    BitRange.get_set_word hcount hwidth (BitRange.inside_of_length hlength hstop)
  -- the range that is set reads as the new value, and the others share no bit with it
  cases change <;>
    simp (disch := decide) only [field, edit, InfoField.edit, InfoField.read, hset,
      BitRange.get_set_of_disjoint]

/-- Setting a part in place is replacing that part of the hop field. -/
theorem HopView.field_edit {v : HopView} (hlength : v.bytes.length = HopField.size)
    (change : HopView.Edit) : (v.edit change).field = v.field.edit change := by
  have hset {w : Nat} {r : BitRange} (hcount : r.byteCount ≤ 8) (hwidth : r.width = w)
      (hstop : r.stop ≤ 8 * HopField.size) (x : BitVec w) : r.get w (r.set x v.bytes) = x :=
    BitRange.get_set_word hcount hwidth (BitRange.inside_of_length hlength hstop)
  cases change <;>
    simp (disch := decide) only [field, edit, HopField.edit, HopField.read, hset,
      BitRange.get_set_of_disjoint]

/-! ## Changing one record of an owned path -/

/-- Changing an item of a list changes what a function makes of that item. -/
private theorem map_modify {α β : Type} {f : α → α} {g : β → β} {h : α → β}
    (hcomm : ∀ a, h (f a) = g (h a)) (l : List α) (i : Nat) :
    (l.modify i f).map h = (l.map h).modify i g := by
  induction l generalizing i with
  | nil => cases i <;> rfl
  | cons a l ih =>
    cases i with
    | zero => rw [List.modify_zero_cons, List.map_cons, List.map_cons, List.modify_zero_cons, hcomm]
    | succ i =>
      rw [List.modify_succ_cons, List.map_cons, List.map_cons, List.modify_succ_cons, ih]

/-- What a change of the item keeps is kept in the whole list. -/
private theorem map_modify_of_keeps {α β : Type} {f : α → α} {h : α → β}
    (hkeeps : ∀ a, h (f a) = h a) (l : List α) (i : Nat) : (l.modify i f).map h = l.map h := by
  rw [map_modify (g := id) hkeeps, List.modify_id]

/-- Replacing an item changes the list of what a function makes of the items at that index. -/
private theorem map_set_eq_modify {α β : Type} {g : β → β} {h : α → β} {l : List α} {i : Nat}
    {a b : α} (ha : l[i]? = some a) (hb : h b = g (h a)) :
    (l.set i b).map h = (l.map h).modify i g := by
  induction l generalizing i with
  | nil => simp at ha
  | cons c l ih =>
    cases i with
    | zero =>
      obtain rfl : c = a := by simpa using ha
      rw [List.set_cons_zero, List.map_cons, List.map_cons, List.modify_zero_cons, hb]
    | succ i =>
      rw [List.getElem?_cons_succ] at ha
      rw [List.set_cons_succ, List.map_cons, List.map_cons, List.modify_succ_cons, ih ha]

namespace Path

/-- The path with the info field of a segment replaced by what a function makes of it. -/
def modifyInfo (p : Path) (s : Nat) (f : InfoField → InfoField) : Path :=
  { p with segments := p.segments.modify s fun segment => { segment with info := f segment.info } }

/-- The path with the hop field at an index on the whole path replaced by what a function makes of
it. -/
def modifyHop (p : Path) (i : Nat) (f : HopField → HopField) : Path :=
  match p.locate? i with
  | none => p
  | some (s, k) =>
    { p with segments := p.segments.modify s fun segment =>
        { segment with hops := segment.hops.modify k f } }

section

variable (p : Path) (s i : Nat) (f : InfoField → InfoField) (g : HopField → HopField)

theorem infos_modifyInfo : (p.modifyInfo s f).infos = p.infos.modify s f := by
  apply map_modify
  intro segment
  rfl

theorem hops_modifyInfo : (p.modifyInfo s f).hops = p.hops := by
  have hpieces : (p.modifyInfo s f).segments.map Segment.hops = p.segments.map Segment.hops := by
    apply map_modify_of_keeps
    intro segment
    rfl
  rw [hops_eq_flatten, hpieces, ← hops_eq_flatten]

theorem sizes_modifyInfo : (p.modifyInfo s f).sizes = p.sizes := by
  apply map_modify_of_keeps
  intro segment
  rfl

theorem position_modifyHop : (p.modifyHop i g).currentInfo = p.currentInfo ∧
    (p.modifyHop i g).currentHop = p.currentHop := by
  unfold modifyHop
  split <;> exact ⟨rfl, rfl⟩

theorem infos_modifyHop : (p.modifyHop i g).infos = p.infos := by
  unfold modifyHop
  split
  next => rfl
  next s k hlocate =>
    apply map_modify_of_keeps
    intro segment
    rfl

theorem sizes_modifyHop : (p.modifyHop i g).sizes = p.sizes := by
  unfold modifyHop
  split
  next => rfl
  next s k hlocate =>
    apply map_modify_of_keeps
    intro segment
    exact List.length_modify ..

/-- The list of all hop fields changes at that index. -/
theorem hops_modifyHop : (p.modifyHop i g).hops = p.hops.modify i g := by
  unfold modifyHop
  split
  next hlocate =>
    have hpast : p.hops.length ≤ i := by
      rw [length_hops]
      exact Runs.locate_eq_none_iff.mp hlocate
    rw [List.modify_eq_self hpast]
  next s k hlocate =>
    have hpieces : (p.segments.modify s fun segment =>
        { segment with hops := segment.hops.modify k g }).map Segment.hops =
        (p.segments.map Segment.hops).modify s fun piece => piece.modify k g := by
      apply map_modify
      intro segment
      rfl
    rw [locate?, sizes_eq_map_length] at hlocate
    rw [hops_eq_flatten, hpieces, Runs.flatten_modify hlocate, ← hops_eq_flatten]

end

end Path

namespace PathView

section

variable {v next : PathView} {infos : List InfoView} {hops : List HopView}

/-- The owned path of a view whose records have changed behind the same header. -/
theorem Sound.toPath_of_madeOf (h : v.Sound)
    (hmade : next.MadeOf (v.bytes.take Header.size) infos hops) {p : Path}
    (hinfo : p.currentInfo = v.toPath.currentInfo) (hhop : p.currentHop = v.toPath.currentHop)
    (hsizes : p.sizes = v.toPath.sizes) (hinfos : p.infos = infos.map InfoView.field)
    (hhops : p.hops = hops.map HopView.field) : next.toPath = p := by
  have hheader : next.header = v.header := by
    rw [hmade.header_eq, h.madeOf.header_eq]
  have hlengths : next.lengths = v.lengths := congrArg Header.lengths hheader
  -- the header is the same, so the lengths describe the same segments
  have hsound : next.Sound := hmade.sound (hlengths ▸ h.lengths)
  obtain ⟨sizes, hvalid, hd⟩ := h.exists_sizes
  apply Path.ext_records
  · rw [hinfo]
    exact congrArg Header.currentInfo hheader
  · rw [hhop]
    exact congrArg Header.currentHop hheader
  · rw [hsound.infos_toPath, hmade.infos_eq, hinfos]
  · rw [hsizes, hsound.sizes_toPath hvalid (hlengths ▸ hd), h.sizes_toPath hvalid hd]
  · rw [hsound.hops_toPath, hmade.hops_eq, hhops]

end

section

variable {v : PathView}

/-- Setting a part of an info field in place changes that part of that info field, and nothing is
set past the last one. -/
theorem Sound.toPath_editInfo? (h : v.Sound) (i : Nat) (change : InfoView.Edit) :
    (v.editInfo? i change).map toPath =
      if i < v.toPath.infoCount then some (v.toPath.modifyInfo i fun f => f.edit change)
      else none := by
  have hmodify : v.editInfo? i change = v.modifyInfo? i fun f => f.edit change := by
    simp only [editInfo?, modifyInfo?, Bytes.modifySlice?, Option.map_map]
    rfl
  rw [hmodify, h.infoCount_toPath]
  split
  next hi =>
    rw [h.madeOf.infoCount_eq] at hi
    have hg := List.getElem?_eq_getElem hi
    obtain ⟨next, hnext, hmade⟩ :=
      h.madeOf.modifyInfo? (fun g => InfoView.length_edit g change) hg
    have hlength := h.madeOf.length_info _ (List.getElem_mem hi)
    rw [hnext, Option.map_some, Option.some.injEq]
    refine h.toPath_of_madeOf hmade rfl rfl (Path.sizes_modifyInfo ..) ?_ ?_
    · rw [Path.infos_modifyInfo, h.infos_toPath]
      exact (map_set_eq_modify hg (InfoView.field_edit hlength change)).symm
    · rw [Path.hops_modifyInfo, h.hops_toPath]
  next hi =>
    rw [modifyInfo?, infoSpan?, if_neg hi]
    rfl

/-- Setting a part of a hop field in place changes that part of that hop field, and nothing is set
past the last one. -/
theorem Sound.toPath_editHop? (h : v.Sound) (i : Nat) (change : HopView.Edit) :
    (v.editHop? i change).map toPath =
      if i < v.toPath.hopCount then some (v.toPath.modifyHop i fun f => f.edit change)
      else none := by
  have hmodify : v.editHop? i change = v.modifyHop? i fun f => f.edit change := by
    simp only [editHop?, modifyHop?, Bytes.modifySlice?, Option.map_map]
    rfl
  rw [hmodify, h.hopCount_toPath]
  split
  next hi =>
    rw [h.madeOf.hopCount_eq] at hi
    have hg := List.getElem?_eq_getElem hi
    obtain ⟨next, hnext, hmade⟩ :=
      h.madeOf.modifyHop? (fun g => HopView.length_edit g change) hg
    have hlength := h.madeOf.length_hop _ (List.getElem_mem hi)
    rw [hnext, Option.map_some, Option.some.injEq]
    obtain ⟨hinfo, hhop⟩ := Path.position_modifyHop v.toPath i fun f => f.edit change
    refine h.toPath_of_madeOf hmade hinfo hhop (Path.sizes_modifyHop ..) ?_ ?_
    · rw [Path.infos_modifyHop, h.infos_toPath]
    · rw [Path.hops_modifyHop, h.hops_toPath]
      exact (map_set_eq_modify hg (HopView.field_edit hlength change)).symm
  next hi =>
    rw [modifyHop?, hopSpan?, if_neg hi]
    rfl

/-! ## Moving -/

/-- Setting the position in place is refused exactly if the header of the path at that position is,
and with the same fault. -/
theorem Sound.setPosition_eq (h : v.Sound) (currentInfo currentHop : UInt8) :
    match Path.checkedHeader { v.toPath with currentInfo, currentHop } with
    | .ok moved => (v.setPosition currentInfo currentHop).1 = .ok moved ∧
        (v.setPosition currentInfo currentHop).2.toPath =
          { v.toPath with currentInfo, currentHop }
    | .error fault => v.setPosition currentInfo currentHop = (.error fault, v) := by
  -- the path at the new position has the header of the view at that position
  have hheader : Path.header { v.toPath with currentInfo, currentHop } =
      { v.header with currentInfo, currentHop } := by
    rw [← h.header_toPath]
    rfl
  have hcheck : Path.checkedHeader { v.toPath with currentInfo, currentHop } =
      v.header.withPosition currentInfo currentHop := by
    rw [Path.checkedHeader_eq_validate, hheader]
    · rfl
    · exact h.validSizes_toPath
  rw [hcheck]
  cases hposition : v.header.withPosition currentInfo currentHop with
  | error fault =>
    show v.setPosition currentInfo currentHop = (.error fault, v)
    rw [setPosition, hposition]
  | ok moved =>
    obtain ⟨rfl, hvalid⟩ := Header.validate_eq_ok_iff.mp hposition
    show (v.setPosition currentInfo currentHop).1 = _ ∧
      (v.setPosition currentInfo currentHop).2.toPath = _
    rw [setPosition, hposition]
    exact ⟨rfl, h.toPath_moveTo _ (Header.fits_of_fault? hvalid)⟩

/-- From a valid position, moving on in place moves the path on, or is refused with the same
fault. -/
theorem Sound.advance_eq (h : v.Sound) (hfault : v.header.fault? = none) :
    match v.toPath.advance with
    | .ok next => v.advance.1 = .ok next.header ∧ v.advance.2.toPath = next
    | .error fault => v.advance = (.error fault, v) := by
  have hcheck : v.toPath.checkedHeader = .ok v.header := by
    rw [(h.wellFormed_toPath hfault).checkedHeader_eq, h.header_toPath]
  cases hadvance : v.header.advance with
  | error fault =>
    have hpath : v.toPath.advance = .error fault := by
      unfold Path.advance
      simp only [hcheck, hadvance]
    rw [hpath, advance, hadvance]
  | ok moved =>
    have hpath : v.toPath.advance = .ok { v.toPath with
        currentInfo := moved.currentInfo, currentHop := moved.currentHop } := by
      unfold Path.advance
      simp only [hcheck, hadvance]
    obtain ⟨hlengths, hvalid⟩ := Header.fault?_of_advance h.lengths hadvance
    have hsame : v.toPath.lengths = moved.lengths :=
      (congrArg Header.lengths h.header_toPath).trans hlengths.symm
    -- the path at the new position has the header that was moved on
    have hmoved : Path.header { v.toPath with
        currentInfo := moved.currentInfo, currentHop := moved.currentHop } = moved := by
      show Header.mk moved.currentInfo moved.currentHop v.toPath.lengths = moved
      rw [hsame]
    rw [hpath, advance, hadvance]
    show Except.ok moved = .ok (Path.header _) ∧ (v.moveTo moved).toPath = _
    rw [hmoved]
    exact ⟨rfl, h.toPath_moveTo moved (Header.fits_of_fault? hvalid)⟩

end

/-! ## The simulation -/

/-- The view and its owned path read the same, errors included, and the changes that do not move on
do the same to both. -/
structure Simulates (v : PathView) : Prop where
  /-- The info fields, by their index. -/
  info : ∀ i, (v.info? i).map InfoView.field = v.toPath.infos[i]?
  /-- The hop fields, by their index on the whole path. -/
  hop : ∀ i, (v.hop? i).map HopView.field = v.toPath.hops[i]?
  /-- What a node authenticates. -/
  current : CurrentHop.locate v.records = CurrentHop.locate v.toPath.records
  /-- The links between the ASes on the way. -/
  links : v.records.links = v.toPath.records.links
  /-- The fingerprint of the route from any first AS. -/
  fingerprint : ∀ origin, v.records.fingerprint origin = v.toPath.records.fingerprint origin
  /-- Setting both indices of the position. -/
  setPosition : ∀ currentInfo currentHop,
    match Path.checkedHeader { v.toPath with currentInfo, currentHop } with
    | .ok moved => (v.setPosition currentInfo currentHop).1 = .ok moved ∧
        (v.setPosition currentInfo currentHop).2.toPath =
          { v.toPath with currentInfo, currentHop }
    | .error fault => v.setPosition currentInfo currentHop = (.error fault, v)
  /-- Setting one part of an info field. -/
  editInfo : ∀ i change, (v.editInfo? i change).map toPath =
    if i < v.toPath.infoCount then some (v.toPath.modifyInfo i fun f => f.edit change) else none
  /-- Setting one part of a hop field. -/
  editHop : ∀ i change, (v.editHop? i change).map toPath =
    if i < v.toPath.hopCount then some (v.toPath.modifyHop i fun f => f.edit change) else none

theorem Sound.simulates {v : PathView} (h : v.Sound) : v.Simulates where
  info i := by rw [h.infos_toPath, List.getElem?_map, h.madeOf.info?_eq]
  hop i := by rw [h.hops_toPath, List.getElem?_map, h.madeOf.hop?_eq]
  current := by rw [h.records_toPath]
  links := by rw [h.records_toPath]
  fingerprint origin := by rw [h.records_toPath]
  setPosition := h.setPosition_eq
  editInfo := h.toPath_editInfo?
  editHop := h.toPath_editHop?

/-- An accepted view simulates the owned path that it stands for, and its header is the one of that
path.  Moving on, too, is the same for both.  Whatever is done to the view, it then simulates the
path that it stands for by then, even if its position is no longer valid. -/
theorem simulates_of_accepted {b rest : Bytes} {v : PathView}
    (haccept : ofBytes b = .ok (v, rest)) :
    v.toPath.checkedHeader = .ok v.header ∧
      v.Simulates ∧
      (match v.toPath.advance with
        | .ok next => v.advance.1 = .ok next.header ∧ v.advance.2.toPath = next
        | .error fault => v.advance = (.error fault, v)) ∧
      ∀ edits, (v.after edits).Simulates := by
  obtain ⟨-, hsound, hfault⟩ := ofBytes_eq_ok_iff.mp haccept
  refine ⟨?_, hsound.simulates, hsound.advance_eq hfault, ?_⟩
  · rw [(hsound.wellFormed_toPath hfault).checkedHeader_eq, hsound.header_toPath]
  · intro edits
    obtain ⟨hafter, -⟩ := hsound.after edits
    exact hafter.simulates

/-- The case of two segments of one and two hops, with a byte behind the path, at the last hop of
the first segment.  There is a next hop, and the position past the last hop is refused. -/
theorem simulates_of_accepted_two_segments :
    let hop : Bytes := [0, 63, 0, 4, 0, 5, 1, 2, 3, 4, 5, 6]
    let path : Bytes := [0, 0xfc, 0x10, 0x80] ++ [1, 0xab, 0, 7, 0, 0, 3, 0xe8] ++
      [0, 0xcd, 0, 9, 0, 0, 3, 0xe8] ++ hop ++ hop ++ hop
    let v := PathView.mk path
    ofBytes (path ++ [9]) = .ok (v, [9]) ∧
      v.toPath.checkedHeader = .ok v.header ∧ v.Simulates ∧
      v.advance.2.toPath = { v.toPath with currentInfo := 1, currentHop := 1 } ∧
      (v.after [.setCurrentInfo 3, .setCurrentHop 63]).Simulates := by
  intro hop path v
  have haccept : ofBytes (path ++ [9]) = .ok (v, [9]) := by decide
  have hnext : v.toPath.advance = .ok { v.toPath with currentInfo := 1, currentHop := 1 } := by
    decide
  obtain ⟨hheader, hsame, hadvance, hafter⟩ := simulates_of_accepted haccept
  rw [hnext] at hadvance
  exact ⟨haccept, hheader, hsame, hadvance.2, hafter _⟩

end PathView

end SourceRoute
