import SourceRoute.Proofs.ViewReversal

/-!
# Turning round by runs of bytes

A router without room for a copy turns a path round inside its buffer: it turns the bytes of all
records of one kind round at once, turns the bytes of each record back, and then goes through the
records and turns each by itself.  `reverseByRuns?` does so and gives no result if one of its slices
does not lie inside the view.  For a sound view every slice does, and the result is `reverse`.
-/

namespace SourceRoute

/-! ## Records of one size in a run of bytes -/

namespace Bytes

/-- The string with the bytes of a span replaced by what a function makes of them, if the span lies
inside the string. -/
def modifySlice? (b : Bytes) (s : Span) (f : Bytes → Bytes) : Option Bytes :=
  (b.slice? s).map fun part => b.splice s.start (f part)

/-- The records of a run in the opposite order: all bytes are turned round, and then those of each
record are turned back. -/
def turnRun (size count : Nat) (run : Bytes) : Bytes :=
  (Runs.cut (List.replicate count size) run.reverse).flatMap List.reverse

section

variable {α : Type} {bytes : α → Bytes} {size : Nat} {items : List α}

theorem turnRun_flatMap (hsize : ∀ a ∈ items, (bytes a).length = size) :
    turnRun size items.length (items.flatMap bytes) = items.reverse.flatMap bytes := by
  -- turned round, the run consists of the records, each turned round
  have hpieces : (items.flatMap bytes).reverse =
      (items.reverse.map fun a => (bytes a).reverse).flatten := by
    rw [List.reverse_flatMap, List.flatMap_def]
    rfl
  have hlengths : List.replicate items.length size =
      (items.reverse.map fun a => (bytes a).reverse).map List.length := by
    symm
    rw [List.eq_replicate_iff]
    refine ⟨by simp, ?_⟩
    simp only [List.map_map, List.mem_map, List.mem_reverse, Function.comp_apply,
      List.length_reverse]
    rintro _ ⟨a, ha, rfl⟩
    exact hsize a ha
  rw [turnRun, hpieces, hlengths, Runs.cut_flatten, List.flatMap_map]
  simp only [List.reverse_reverse]

/-- Turning a run of records between other bytes puts the records in the opposite order. -/
theorem modifySlice?_turnRun (hsize : ∀ a ∈ items, (bytes a).length = size) (front back : Bytes) :
    modifySlice? (front ++ items.flatMap bytes ++ back)
      (Span.ofSize front.length (items.flatMap bytes).length) (turnRun size items.length) =
      some (front ++ items.reverse.flatMap bytes ++ back) := by
  have hlength : (items.reverse.flatMap bytes).length = (items.flatMap bytes).length := by
    rw [length_flatMap_bytes hsize,
      length_flatMap_bytes fun a ha => hsize a (List.mem_reverse.mp ha), List.length_reverse]
  rw [modifySlice?, slice?_append, Option.map_some, turnRun_flatMap hsize]
  exact congrArg some (splice_append hlength front back)

/-- Changing the bytes of a record between other bytes changes the record. -/
theorem modifySlice?_record (hsize : ∀ a ∈ items, (bytes a).length = size) {i : Nat}
    (hi : i < items.length) {f : Bytes → Bytes} {a : α} (ha : (bytes a).length = size)
    (hf : f (bytes items[i]) = bytes a) (front back : Bytes) :
    modifySlice? (front ++ items.flatMap bytes ++ back)
      (Span.ofSize (front.length + i * size) size) f =
      some (front ++ (items.set i a).flatMap bytes ++ back) := by
  rw [modifySlice?, slice?_flatMap hsize hi, Option.map_some, hf]
  exact congrArg some (splice_flatMap hsize hi ha front back)

end

end Bytes

namespace PathView

/-! ## Changing one record -/

/-- The path with one info field replaced by what a function makes of it, if there is such a
field. -/
def modifyInfo? (v : PathView) (index : Nat) (f : InfoView → InfoView) : Option PathView :=
  (v.infoSpan? index).bind fun span =>
    (v.bytes.modifySlice? span fun part => (f ⟨part⟩).bytes).map PathView.mk

/-- The path with one hop field replaced by what a function makes of it, if there is such a
field. -/
def modifyHop? (v : PathView) (index : Nat) (f : HopView → HopView) : Option PathView :=
  (v.hopSpan? index).bind fun span =>
    (v.bytes.modifySlice? span fun part => (f ⟨part⟩).bytes).map PathView.mk

section

variable {v : PathView} {head : Bytes} {infos : List InfoView} {hops : List HopView}

theorem MadeOf.modifyInfo? (h : v.MadeOf head infos hops) {f : InfoView → InfoView}
    (hf : ∀ g, (f g).bytes.length = g.bytes.length) {i : Nat} {g : InfoView}
    (hg : infos[i]? = some g) :
    ∃ next, v.modifyInfo? i f = some next ∧ next.MadeOf head (infos.set i (f g)) hops := by
  obtain ⟨hi, rfl⟩ := List.getElem?_eq_some_iff.mp hg
  have hsize : (f infos[i]).bytes.length = InfoField.size :=
    (hf _).trans (h.length_info _ (List.getElem_mem hi))
  have hmodify := Bytes.modifySlice?_record h.length_info hi (f := fun part => (f ⟨part⟩).bytes)
    hsize rfl head (hops.flatMap HopView.bytes)
  rw [← h.bytes_eq] at hmodify
  refine ⟨_, ?_, h.withRecords ?_ h.length_hop (List.length_set ..) rfl⟩
  · rw [PathView.modifyInfo?, h.infoSpan?_eq hi, Option.bind_some, hmodify]
    rfl
  · intro g hg
    rcases List.mem_or_eq_of_mem_set hg with hg | rfl
    · exact h.length_info g hg
    · exact hsize

theorem MadeOf.modifyHop? (h : v.MadeOf head infos hops) {f : HopView → HopView}
    (hf : ∀ g, (f g).bytes.length = g.bytes.length) {i : Nat} {g : HopView}
    (hg : hops[i]? = some g) :
    ∃ next, v.modifyHop? i f = some next ∧ next.MadeOf head infos (hops.set i (f g)) := by
  obtain ⟨hi, rfl⟩ := List.getElem?_eq_some_iff.mp hg
  have hsize : (f hops[i]).bytes.length = HopField.size :=
    (hf _).trans (h.length_hop _ (List.getElem_mem hi))
  -- nothing stands behind the hop fields
  have hmodify := Bytes.modifySlice?_record h.length_hop hi (f := fun part => (f ⟨part⟩).bytes)
    hsize rfl (head ++ infos.flatMap InfoView.bytes) []
  rw [List.append_nil, List.append_nil, ← h.bytes_eq] at hmodify
  refine ⟨_, ?_, h.withRecords h.length_info ?_ rfl (List.length_set ..)⟩
  · rw [PathView.modifyHop?, h.hopSpan?_eq hi, Option.bind_some, hmodify]
    rfl
  · intro g hg
    rcases List.mem_or_eq_of_mem_set hg with hg | rfl
    · exact h.length_hop g hg
    · exact hsize

end

/-! ## Changing every record -/

/-- Changing the records one after the other changes them all.  `P` says which records a view is
made of. -/
private theorem foldlM_modify {α : Type} {P : PathView → List α → Prop}
    {modify? : PathView → Nat → Option PathView} {f : α → α}
    (hstep : ∀ {w : PathView} {records : List α} {i : Nat} {a : α}, P w records →
      records[i]? = some a → ∃ next, modify? w i = some next ∧ P next (records.set i (f a)))
    {v : PathView} (changed left : List α) (h : P v (changed ++ left)) :
    ∃ next, (List.range' changed.length left.length).foldlM modify? v = some next ∧
      P next (changed ++ left.map f) := by
  -- each step moves one record from those that are left to those that are changed
  induction left generalizing v changed with
  | nil => exact ⟨v, rfl, h⟩
  | cons a left ih =>
    obtain ⟨w, hw, hrecords⟩ := hstep (i := changed.length) (a := a) h (by simp)
    have hset : (changed ++ a :: left).set changed.length (f a) = (changed ++ [f a]) ++ left := by
      rw [List.set_append_right _ _ (Nat.le_refl _)]
      simp
    rw [hset] at hrecords
    obtain ⟨next, hnext, hdone⟩ := ih (changed ++ [f a]) hrecords
    refine ⟨next, ?_, ?_⟩
    · rw [List.length_append, List.length_singleton] at hnext
      rw [List.length_cons, List.range'_succ, List.foldlM_cons, hw]
      exact hnext
    · rwa [List.append_assoc] at hdone

section

variable {v : PathView} {head : Bytes} {infos : List InfoView} {hops : List HopView}

theorem MadeOf.foldlM_modifyInfo? (h : v.MadeOf head infos hops) {f : InfoView → InfoView}
    (hf : ∀ g, (f g).bytes.length = g.bytes.length) :
    ∃ next, (List.range v.infoCount).foldlM (fun w i => w.modifyInfo? i f) v = some next ∧
      next.MadeOf head (infos.map f) hops := by
  rw [h.infoCount_eq, List.range_eq_range']
  exact foldlM_modify (P := fun w records => w.MadeOf head records hops)
    (fun hw hi => hw.modifyInfo? hf hi) [] infos h

theorem MadeOf.foldlM_modifyHop? (h : v.MadeOf head infos hops) {f : HopView → HopView}
    (hf : ∀ g, (f g).bytes.length = g.bytes.length) :
    ∃ next, (List.range v.hopCount).foldlM (fun w i => w.modifyHop? i f) v = some next ∧
      next.MadeOf head infos (hops.map f) := by
  rw [h.hopCount_eq, List.range_eq_range']
  exact foldlM_modify (P := fun w records => w.MadeOf head infos records)
    (fun hw hi => hw.modifyHop? hf hi) [] hops h

end

/-! ## Turning round -/

/-- Where the info fields lie. -/
def infoRun (v : PathView) : Span := Span.ofSize Header.size v.lengths.infoBytes

/-- Where the hop fields lie. -/
def hopRun (v : PathView) : Span :=
  Span.ofSize (Header.size + v.lengths.infoBytes) (v.hopCount * HopField.size)

/-- The path with its info fields in the opposite order. -/
def turnInfos? (v : PathView) : Option PathView :=
  (v.bytes.modifySlice? v.infoRun (Bytes.turnRun InfoField.size v.infoCount)).map PathView.mk

/-- The path with its hop fields in the opposite order. -/
def turnHops? (v : PathView) : Option PathView :=
  (v.bytes.modifySlice? v.hopRun (Bytes.turnRun HopField.size v.hopCount)).map PathView.mk

/-- The path the other way round, made inside its own bytes.  The two runs of records are turned
round, then each record is turned, and the header is written last. -/
def reverseByRuns? (v : PathView) : Option PathView := do
  let w ← v.turnInfos?
  let w ← w.turnHops?
  let w ← (List.range w.infoCount).foldlM
    (fun (w : PathView) i => w.modifyInfo? i InfoView.reversed) w
  let w ← (List.range w.hopCount).foldlM
    (fun (w : PathView) i => w.modifyHop? i HopView.reversed) w
  return ⟨v.header.reversed.write w.bytes⟩

section

variable {v : PathView} {head : Bytes} {infos : List InfoView} {hops : List HopView}

theorem MadeOf.infoRun_eq (h : v.MadeOf head infos hops) :
    v.infoRun = Span.ofSize head.length (infos.flatMap InfoView.bytes).length := by
  rw [infoRun, h.length_head, Bytes.length_flatMap_bytes h.length_info, ← h.infoCount_eq]
  rfl

theorem MadeOf.hopRun_eq (h : v.MadeOf head infos hops) :
    v.hopRun = Span.ofSize (head ++ infos.flatMap InfoView.bytes).length
      (hops.flatMap HopView.bytes).length := by
  rw [hopRun, h.length_front, Bytes.length_flatMap_bytes h.length_hop, ← h.hopCount_eq]

theorem MadeOf.slice?_infoRun (h : v.MadeOf head infos hops) :
    v.bytes.slice? v.infoRun = some (infos.flatMap InfoView.bytes) := by
  rw [h.bytes_eq, h.infoRun_eq]
  exact Bytes.slice?_append head _ _

theorem MadeOf.slice?_hopRun (h : v.MadeOf head infos hops) :
    v.bytes.slice? v.hopRun = some (hops.flatMap HopView.bytes) := by
  have hslice := Bytes.slice?_append (head ++ infos.flatMap InfoView.bytes)
    (hops.flatMap HopView.bytes) []
  rwa [List.append_nil, ← h.bytes_eq, ← h.hopRun_eq] at hslice

theorem MadeOf.turnInfos? (h : v.MadeOf head infos hops) :
    ∃ next, v.turnInfos? = some next ∧ next.MadeOf head infos.reverse hops := by
  have hturn := Bytes.modifySlice?_turnRun h.length_info head (hops.flatMap HopView.bytes)
  rw [← h.bytes_eq, ← h.infoRun_eq, ← h.infoCount_eq] at hturn
  refine ⟨_, ?_, h.withRecords ?_ h.length_hop (List.length_reverse ..) rfl⟩
  · rw [PathView.turnInfos?, hturn]
    rfl
  · exact fun f hf => h.length_info f (List.mem_reverse.mp hf)

theorem MadeOf.turnHops? (h : v.MadeOf head infos hops) :
    ∃ next, v.turnHops? = some next ∧ next.MadeOf head infos hops.reverse := by
  have hturn := Bytes.modifySlice?_turnRun h.length_hop (head ++ infos.flatMap InfoView.bytes) []
  rw [List.append_nil, List.append_nil, ← h.bytes_eq, ← h.hopRun_eq, ← h.hopCount_eq] at hturn
  refine ⟨_, ?_, h.withRecords h.length_info ?_ rfl (List.length_reverse ..)⟩
  · rw [PathView.turnHops?, hturn]
    rfl
  · exact fun f hf => h.length_hop f (List.mem_reverse.mp hf)

/-- For a sound view no slice is out of range, and the bytes are those of the turned records in the
opposite order. -/
theorem Sound.reverseByRuns?_eq (h : v.Sound) : v.reverseByRuns? = some v.reverse := by
  -- after each step the view is made of the records that are changed so far
  obtain ⟨w, hw, hmade⟩ := h.madeOf.turnInfos?
  obtain ⟨x, hx, hmade⟩ := hmade.turnHops?
  obtain ⟨y, hy, hmade⟩ := hmade.foldlM_modifyInfo? InfoView.length_reversed
  obtain ⟨z, hz, hmade⟩ := hmade.foldlM_modifyHop? HopView.length_reversed
  have hdone : v.reverse = ⟨v.header.reversed.write z.bytes⟩ := by
    rw [hmade.bytes_eq]
    rfl
  rw [reverseByRuns?, hw, hdone]
  simp only [Option.bind_eq_bind, Option.bind_some, hx, hy, hz]
  rfl

end

end PathView

end SourceRoute
