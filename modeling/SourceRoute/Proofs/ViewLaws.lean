import SourceRoute.Proofs.PathLaws
import SourceRoute.View.Basic

/-!
# Laws of paths in place

The bytes of a path are a header, the bytes of its info fields and the bytes of its hop fields, side
by side.  `MadeOf` says so of a view, and every accepted view is made of the records that it reads.
From this follows that the owned path which a view stands for has the records of the view: reading
the bytes and reading the owned path are the same.
-/

namespace SourceRoute

/-! ## Lists read by index -/

/-- Reading a list at all its indices gives the list. -/
theorem filterMap_range {α : Type} {f : Nat → Option α} {l : List α}
    (h : ∀ i, i < l.length → f i = l[i]?) : (List.range l.length).filterMap f = l := by
  -- by induction from the back, as the indices of a list are those of its front and one more
  induction l using List.reverseRecOn with
  | nil => rfl
  | append_singleton l a ih =>
    have hinit (i : Nat) (hi : i < l.length) : f i = l[i]? := by
      rw [h i (by simp; omega), List.getElem?_append_left hi]
    have hlast : f l.length = some a := by
      rw [h l.length (by simp)]
      simp
    rw [List.length_append, List.length_singleton, List.range_succ, List.filterMap_append,
      ih hinit]
    simp [hlast]

/-- Reading a list at the positions of a span gives the part of the list that lies in the span. -/
theorem filterMap_span {α : Type} {l : List α} {s : Span} (hstop : s.stop ≤ l.length) :
    (s.toList.filterMap fun i => l[i]?) = (l.drop s.start).take s.size := by
  have hlength : ((l.drop s.start).take s.size).length = s.size := by
    rw [List.length_take, List.length_drop, Span.size]
    omega
  have hread := filterMap_range (f := fun i => l[s.start + i]?) (l := (l.drop s.start).take s.size)
    (fun i hi => by
      rw [hlength] at hi
      rw [List.getElem?_take_of_lt hi, List.getElem?_drop])
  rw [hlength] at hread
  rw [Span.toList, List.range'_eq_map_range, List.filterMap_map]
  exact hread

namespace Bytes

variable {α : Type}

/-- A part between other bytes is found by its place. -/
theorem slice?_append (front part back : Bytes) :
    slice? (front ++ part ++ back) (Span.ofSize front.length part.length) = some part := by
  have hinside : front.length + part.length ≤ (front ++ part ++ back).length := by
    rw [List.length_append, List.length_append]
    exact Nat.le_add_right _ _
  rw [slice?, Span.size_ofSize, if_pos ⟨Nat.le_add_right _ _, hinside⟩]
  change some (List.take part.length (List.drop front.length _)) = _
  rw [List.append_assoc, List.drop_left, List.take_left]

theorem getElem?_of_slice? {b part : Bytes} {s : Span} (h : b.slice? s = some part) {j : Nat}
    (hj : j < s.size) : part[j]? = b[s.start + j]? := by
  rw [slice?] at h
  split at h
  next =>
    obtain rfl := Option.some.inj h
    rw [List.getElem?_take_of_lt hj, List.getElem?_drop]
  next => exact absurd h (by simp)

/-- Replacing a part by one of the same length leaves what is before and behind it. -/
theorem splice_append {part part' : Bytes} (hlength : part'.length = part.length)
    (front back : Bytes) :
    splice (front ++ part ++ back) front.length part' = front ++ part' ++ back := by
  rw [splice, hlength, List.append_assoc front, List.take_left, ← List.append_assoc,
    List.drop_left' (by simp)]

section Records

variable {bytes : α → Bytes} {size : Nat} {items : List α} {i : Nat}

/-- A record among others of its size lies behind as many bytes as the records before it have. -/
private theorem flatMap_eq_around (hsize : ∀ a ∈ items, (bytes a).length = size)
    (hi : i < items.length) (front back : Bytes) :
    front ++ items.flatMap bytes ++ back =
        (front ++ (items.take i).flatMap bytes) ++ bytes items[i] ++
          ((items.drop (i + 1)).flatMap bytes ++ back) ∧
      (front ++ (items.take i).flatMap bytes).length = front.length + i * size := by
  have hbefore : ((items.take i).flatMap bytes).length = i * size := by
    rw [length_flatMap_bytes fun c hc => hsize c (List.mem_of_mem_take hc), List.length_take,
      Nat.min_eq_left (Nat.le_of_lt hi)]
  refine ⟨?_, by rw [List.length_append, hbefore]⟩
  conv => lhs; rw [← List.take_append_drop i items, List.drop_eq_getElem_cons hi]
  simp only [List.flatMap_append, List.flatMap_cons, List.append_assoc]

/-- A record among others of its size is found by its index. -/
theorem slice?_flatMap (hsize : ∀ a ∈ items, (bytes a).length = size) (hi : i < items.length)
    (front back : Bytes) :
    slice? (front ++ items.flatMap bytes ++ back) (Span.ofSize (front.length + i * size) size) =
      some (bytes items[i]) := by
  obtain ⟨haround, hstart⟩ := flatMap_eq_around hsize hi front back
  have hlength : (bytes items[i]).length = size := hsize _ (List.getElem_mem hi)
  have hfound := slice?_append (front ++ (items.take i).flatMap bytes) (bytes items[i])
    ((items.drop (i + 1)).flatMap bytes ++ back)
  rwa [← haround, hstart, hlength] at hfound

/-- Replacing the bytes of a record replaces the record. -/
theorem splice_flatMap (hsize : ∀ a ∈ items, (bytes a).length = size) (hi : i < items.length)
    {a : α} (ha : (bytes a).length = size) (front back : Bytes) :
    splice (front ++ items.flatMap bytes ++ back) (front.length + i * size) (bytes a) =
      front ++ (items.set i a).flatMap bytes ++ back := by
  obtain ⟨haround, hstart⟩ := flatMap_eq_around hsize hi front back
  have hlength : (bytes a).length = (bytes items[i]).length := by
    rw [ha, hsize _ (List.getElem_mem hi)]
  have hsplice := splice_append hlength (front ++ (items.take i).flatMap bytes)
    ((items.drop (i + 1)).flatMap bytes ++ back)
  rw [← haround, hstart] at hsplice
  rw [hsplice, List.set_eq_take_append_cons_drop, if_pos hi]
  simp only [List.flatMap_append, List.flatMap_cons, List.append_assoc]

end Records

end Bytes

namespace PathView

/-! ## Views as records side by side -/

/-- The bytes of the view are a header and the given records, as many as the header calls for. -/
structure MadeOf (v : PathView) (head : Bytes) (infos : List InfoView) (hops : List HopView) :
    Prop where
  bytes_eq : v.bytes = head ++ infos.flatMap InfoView.bytes ++ hops.flatMap HopView.bytes
  length_head : head.length = Header.size
  length_info : ∀ f ∈ infos, f.bytes.length = InfoField.size
  length_hop : ∀ f ∈ hops, f.bytes.length = HopField.size
  infoCount_eq : v.infoCount = infos.length
  hopCount_eq : v.hopCount = hops.length

namespace MadeOf

variable {v : PathView} {head : Bytes} {infos : List InfoView} {hops : List HopView}

theorem header_eq (h : v.MadeOf head infos hops) : v.header = Header.read head := by
  rw [header, h.bytes_eq, List.append_assoc, Header.read_append h.length_head]

theorem infoSpan?_eq (h : v.MadeOf head infos hops) {i : Nat} (hi : i < infos.length) :
    v.infoSpan? i = some (Span.ofSize (head.length + i * InfoField.size) InfoField.size) := by
  rw [infoSpan?, h.infoCount_eq, if_pos hi]
  simp only [SegmentLengths.infoSpan, Span.shift, Span.ofSize, h.length_head, Option.some.injEq,
    Span.mk.injEq]
  omega

theorem slice?_info (h : v.MadeOf head infos hops) {i : Nat} (hi : i < infos.length) :
    v.bytes.slice? (Span.ofSize (head.length + i * InfoField.size) InfoField.size) =
      some infos[i].bytes := by
  rw [h.bytes_eq]
  exact Bytes.slice?_flatMap h.length_info hi head _

theorem info?_eq (h : v.MadeOf head infos hops) (i : Nat) : v.info? i = infos[i]? := by
  -- past the last record there is no slice and no record
  by_cases hi : i < infos.length
  · rw [info?, h.infoSpan?_eq hi, Option.bind_some, h.slice?_info hi, List.getElem?_eq_getElem hi]
    rfl
  · rw [info?, infoSpan?, h.infoCount_eq, if_neg hi, List.getElem?_eq_none (by omega)]
    rfl

theorem length_front (h : v.MadeOf head infos hops) :
    (head ++ infos.flatMap InfoView.bytes).length = Header.size + v.lengths.infoBytes := by
  rw [List.length_append, h.length_head, SegmentLengths.infoBytes,
    Bytes.length_flatMap_bytes h.length_info, ← h.infoCount_eq]
  rfl

theorem hopSpan?_eq (h : v.MadeOf head infos hops) {i : Nat} (hi : i < hops.length) :
    v.hopSpan? i = some (Span.ofSize
      ((head ++ infos.flatMap InfoView.bytes).length + i * HopField.size) HopField.size) := by
  rw [hopSpan?, h.hopCount_eq, if_pos hi, h.length_front]
  simp only [SegmentLengths.hopSpan, Span.shift, Span.ofSize, Option.some.injEq, Span.mk.injEq]
  omega

theorem slice?_hop (h : v.MadeOf head infos hops) {i : Nat} (hi : i < hops.length) :
    v.bytes.slice? (Span.ofSize
      ((head ++ infos.flatMap InfoView.bytes).length + i * HopField.size) HopField.size) =
      some hops[i].bytes := by
  have hfound := Bytes.slice?_flatMap h.length_hop hi (head ++ infos.flatMap InfoView.bytes) []
  rw [List.append_nil] at hfound
  rw [h.bytes_eq]
  exact hfound

theorem hop?_eq (h : v.MadeOf head infos hops) (i : Nat) : v.hop? i = hops[i]? := by
  by_cases hi : i < hops.length
  · rw [hop?, h.hopSpan?_eq hi, Option.bind_some, h.slice?_hop hi, List.getElem?_eq_getElem hi]
    rfl
  · rw [hop?, hopSpan?, h.hopCount_eq, if_neg hi, List.getElem?_eq_none (by omega)]
    rfl

/-- The view reads the records that it is made of. -/
theorem infos_eq (h : v.MadeOf head infos hops) : v.infos = infos := by
  rw [PathView.infos, h.infoCount_eq]
  exact filterMap_range fun i _ => h.info?_eq i

theorem hops_eq (h : v.MadeOf head infos hops) : v.hops = hops := by
  rw [PathView.hops, h.hopCount_eq]
  exact filterMap_range fun i _ => h.hop?_eq i

end MadeOf

/-! ## Sound views -/

/-- The segment lengths are valid and the bytes are as many as they call for.  The position may be
anything. -/
structure Sound (v : PathView) : Prop where
  lengths : v.lengths.fault? = none
  length_eq : v.bytes.length = v.lengths.pathBytes

theorem Sound.exists_sizes {v : PathView} (h : v.Sound) :
    ∃ sizes, ValidSizes sizes ∧ v.lengths.Describes sizes :=
  SegmentLengths.fault?_eq_none_iff.mp h.lengths

section

variable {v : PathView} {head : Bytes} {infos : List InfoView} {hops : List HopView}

theorem MadeOf.length_eq (h : v.MadeOf head infos hops) :
    v.bytes.length =
      (head ++ infos.flatMap InfoView.bytes).length + hops.length * HopField.size := by
  rw [h.bytes_eq, List.length_append, Bytes.length_flatMap_bytes h.length_hop]

/-- Bytes that are made of records have the length that their header calls for. -/
theorem MadeOf.sound (h : v.MadeOf head infos hops) (hlengths : v.lengths.fault? = none) :
    v.Sound where
  lengths := hlengths
  length_eq := by
    rw [h.length_eq, h.length_front, ← h.hopCount_eq, Nat.add_assoc]
    rfl

/-- Other records of the same number may stand behind the header. -/
theorem MadeOf.withRecords (h : v.MadeOf head infos hops) {infos' : List InfoView}
    {hops' : List HopView}
    (hinfos : ∀ f ∈ infos', f.bytes.length = InfoField.size)
    (hhops : ∀ f ∈ hops', f.bytes.length = HopField.size)
    (hinfoCount : infos'.length = infos.length) (hhopCount : hops'.length = hops.length) :
    (PathView.mk (head ++ infos'.flatMap InfoView.bytes ++ hops'.flatMap HopView.bytes)).MadeOf
      head infos' hops' := by
  have hheader : (PathView.mk (head ++ infos'.flatMap InfoView.bytes ++
      hops'.flatMap HopView.bytes)).header = v.header := by
    rw [h.header_eq, header, List.append_assoc, Header.read_append h.length_head]
  refine ⟨rfl, h.length_head, hinfos, hhops, ?_, ?_⟩
  · rw [infoCount, lengths, hheader, hinfoCount]
    exact h.infoCount_eq
  · rw [hopCount, lengths, hheader, hhopCount]
    exact h.hopCount_eq

end

/-- The front of a buffer is accepted if it is a sound view at a valid position. -/
theorem ofBytes_eq_ok_iff {b rest : Bytes} {v : PathView} :
    ofBytes b = .ok (v, rest) ↔ b = v.bytes ++ rest ∧ v.Sound ∧ v.header.fault? = none := by
  constructor
  · intro hok
    rw [ofBytes] at hok
    split at hok
    next => exact absurd hok (by simp)
    next h hparse =>
      obtain ⟨rfl, rfl⟩ := Prod.mk.inj (Except.ok.inj hok)
      obtain ⟨hfront, hread, hfault, hrest⟩ := Header.parse_eq_ok_iff.mp hparse
      have hsize : Header.size ≤ h.lengths.pathBytes := Nat.le_add_right _ _
      -- the header only depends on the bytes that the view keeps
      have hheader : Header.read (b.take h.lengths.pathBytes) = h := by
        have hlong : Header.size ≤ (b.take h.lengths.pathBytes).length := by
          rw [List.length_take]
          omega
        rw [Header.read_eq_read_take hlong, List.take_take, Nat.min_eq_left hsize, hread]
      refine ⟨(List.take_append_drop _ b).symm, ⟨?_, ?_⟩, ?_⟩
      · rw [lengths, header, hheader]
        exact (Header.fault?_eq_none_iff.mp hfault).1
      · rw [lengths, header, hheader, List.length_take, Nat.min_eq_left hrest]
      · rw [header, hheader]
        exact hfault
  · rintro ⟨rfl, hsound, hfault⟩
    have hsize : Header.size ≤ v.bytes.length := by
      rw [hsound.length_eq]
      exact Nat.le_add_right _ _
    have hparse : Header.parse (v.bytes ++ rest) = .ok v.header := by
      refine Header.parse_eq_ok_iff.mpr ⟨?_, ?_, hfault, ?_⟩
      · rw [List.length_append]
        omega
      · rw [List.take_append_of_le_length hsize, header, Header.read_eq_read_take hsize]
      · rw [List.length_append, hsound.length_eq]
        exact Nat.le_add_right _ _
    have hlength : v.header.lengths.pathBytes = v.bytes.length := hsound.length_eq.symm
    rw [ofBytes, hparse]
    simp [hlength]

private theorem exists_records (size count : Nat) (b : Bytes) (hlength : b.length = count * size) :
    ∃ records : List Bytes, records.length = count ∧ (∀ r ∈ records, r.length = size) ∧
      records.flatten = b := by
  -- the records are cut as runs that all have the same size
  have htotal : Runs.total (List.replicate count size) = b.length := by
    rw [hlength]
    clear hlength
    induction count with
    | zero => simp
    | succ count ih => rw [List.replicate_succ, Runs.total_cons, ih, Nat.succ_mul, Nat.add_comm]
  refine ⟨Runs.cut (List.replicate count size) b, by simp, ?_, Runs.flatten_cut htotal⟩
  intro r hr
  have hmem := List.mem_map_of_mem (f := List.length) hr
  rw [Runs.map_length_cut (Nat.le_of_eq htotal)] at hmem
  exact List.eq_of_mem_replicate hmem

/-- Every sound view is made of the records that it reads. -/
theorem Sound.madeOf {v : PathView} (h : v.Sound) :
    v.MadeOf (v.bytes.take Header.size) v.infos v.hops := by
  have hlength : v.bytes.length =
      Header.size + (v.infoCount * InfoField.size + v.hopCount * HopField.size) := h.length_eq
  -- some records make up the bytes; by the laws above they are the ones that the view reads
  obtain ⟨infos, hinfoCount, hinfoLength, hinfoBytes⟩ := exists_records InfoField.size v.infoCount
    ((v.bytes.drop Header.size).take (v.infoCount * InfoField.size))
    (by rw [List.length_take, List.length_drop]; omega)
  obtain ⟨hops, hhopCount, hhopLength, hhopBytes⟩ := exists_records HopField.size v.hopCount
    ((v.bytes.drop Header.size).drop (v.infoCount * InfoField.size))
    (by rw [List.length_drop, List.length_drop]; omega)
  have hmade : v.MadeOf (v.bytes.take Header.size) (infos.map InfoView.mk) (hops.map HopView.mk) :=
    { bytes_eq := by
        rw [List.flatMap_map, List.flatMap_map]
        change v.bytes = _ ++ infos.flatMap id ++ hops.flatMap id
        rw [List.flatMap_id, List.flatMap_id, hinfoBytes, hhopBytes, List.append_assoc,
          List.take_append_drop, List.take_append_drop]
      length_head := by
        rw [List.length_take]
        omega
      length_info := by simpa using hinfoLength
      length_hop := by simpa using hhopLength
      infoCount_eq := by rw [List.length_map, hinfoCount]
      hopCount_eq := by rw [List.length_map, hhopCount] }
  rw [hmade.infos_eq, hmade.hops_eq]
  exact hmade

/-! ## The owned path of a view -/

private theorem map_info_zipWith {infos : List InfoField} {pieces : List (List HopField)}
    (hlength : infos.length = pieces.length) :
    (List.zipWith Segment.mk infos pieces).map Segment.info = infos := by
  induction infos generalizing pieces with
  | nil => rfl
  | cons info infos ih =>
    cases pieces with
    | nil => simp at hlength
    | cons piece pieces => simp [ih (by simpa using hlength)]

private theorem map_hops_zipWith {infos : List InfoField} {pieces : List (List HopField)}
    (hlength : infos.length = pieces.length) :
    (List.zipWith Segment.mk infos pieces).map Segment.hops = pieces := by
  induction infos generalizing pieces with
  | nil => simpa using hlength.symm
  | cons info infos ih =>
    cases pieces with
    | nil => simp at hlength
    | cons piece pieces => simp [ih (by simpa using hlength)]

section ToPath

variable {v : PathView} {sizes : List Nat}

/-- The segments of the owned path are the info fields with the pieces of the hop fields. -/
theorem Sound.segments_toPath (h : v.Sound) (hsizes : ValidSizes sizes)
    (hd : v.lengths.Describes sizes) :
    v.toPath.segments = List.zipWith Segment.mk (v.infos.map InfoView.field)
      (Runs.cut sizes (v.hops.map HopView.field)) := by
  have hmade := h.madeOf
  have hinfoCount : v.infos.length = sizes.length := by
    rw [← hmade.infoCount_eq]
    exact hd.infoCount_eq hsizes.pos
  have hhopCount : v.hops.length = Runs.total sizes := by
    rw [← hmade.hopCount_eq]
    exact hd.hopCount_eq
  have hlength : (List.zipWith Segment.mk (v.infos.map InfoView.field)
      (Runs.cut sizes (v.hops.map HopView.field))).length = v.infoCount := by
    rw [List.length_zipWith, List.length_map, Runs.length_cut, hinfoCount, Nat.min_self,
      ← hinfoCount, ← hmade.infoCount_eq]
  -- segment by segment: its info field with the hop fields of its span
  have hread : ∀ s, s < v.infoCount → v.segment? s =
      (List.zipWith Segment.mk (v.infos.map InfoView.field)
        (Runs.cut sizes (v.hops.map HopView.field)))[s]? := by
    intro s hs
    have hs' : s < v.infos.length := by rwa [← hmade.infoCount_eq]
    have hstop : (Runs.span sizes s).stop ≤ (v.hops.map HopView.field).length := by
      have hsizesLength : s < sizes.length := by omega
      have hsplit := Runs.total_eq_add hsizesLength
      rw [List.length_map, hhopCount, Runs.stop_span, List.getD_eq_getElem _ _ (by omega)]
      omega
    have hhops : ((v.lengths.segmentSpan s).toList.filterMap fun i =>
        (v.hop? i).map HopView.field) =
        ((v.hops.map HopView.field).drop (Runs.span sizes s).start).take
          (Runs.span sizes s).size := by
      rw [hd.segmentSpan_eq, ← filterMap_span hstop]
      simp only [hmade.hop?_eq, List.getElem?_map]
    rw [segment?, hmade.info?_eq, hhops, List.getElem?_zipWith,
      Runs.getElem?_cut (by omega), List.getElem?_map, List.getElem?_eq_getElem hs']
    rfl
  change (List.range v.infoCount).filterMap v.segment? = _
  rw [← hlength] at hread ⊢
  exact filterMap_range hread

private theorem length_pieces (h : v.Sound) (hsizes : ValidSizes sizes)
    (hd : v.lengths.Describes sizes) : (v.infos.map InfoView.field).length =
      (Runs.cut sizes (v.hops.map HopView.field)).length := by
  rw [List.length_map, Runs.length_cut, ← h.madeOf.infoCount_eq]
  exact hd.infoCount_eq hsizes.pos

theorem Sound.infos_toPath (h : v.Sound) : v.toPath.infos = v.infos.map InfoView.field := by
  obtain ⟨sizes, hsizes, hd⟩ := h.exists_sizes
  rw [Path.infos, h.segments_toPath hsizes hd]
  exact map_info_zipWith (length_pieces h hsizes hd)

theorem Sound.sizes_toPath (h : v.Sound) (hsizes : ValidSizes sizes)
    (hd : v.lengths.Describes sizes) : v.toPath.sizes = sizes := by
  have hhopCount : Runs.total sizes = v.hops.length := by
    rw [← h.madeOf.hopCount_eq]
    exact hd.hopCount_eq.symm
  rw [Path.sizes_eq_map_length, h.segments_toPath hsizes hd,
    map_hops_zipWith (length_pieces h hsizes hd)]
  exact Runs.map_length_cut (by rw [List.length_map]; omega)

theorem Sound.hops_toPath (h : v.Sound) : v.toPath.hops = v.hops.map HopView.field := by
  obtain ⟨sizes, hsizes, hd⟩ := h.exists_sizes
  have hhopCount : Runs.total sizes = v.hops.length := by
    rw [← h.madeOf.hopCount_eq]
    exact hd.hopCount_eq.symm
  rw [Path.hops_eq_flatten, h.segments_toPath hsizes hd,
    map_hops_zipWith (length_pieces h hsizes hd)]
  exact Runs.flatten_cut (by rw [List.length_map]; omega)

theorem Sound.hopCount_toPath (h : v.Sound) : v.toPath.hopCount = v.hopCount := by
  rw [← Path.length_hops, h.hops_toPath, List.length_map, h.madeOf.hopCount_eq]

theorem Sound.validSizes_toPath (h : v.Sound) : ValidSizes v.toPath.sizes := by
  obtain ⟨sizes, hsizes, hd⟩ := h.exists_sizes
  rwa [h.sizes_toPath hsizes hd]

/-- The owned path has the header of the view. -/
theorem Sound.header_toPath (h : v.Sound) : v.toPath.header = v.header := by
  obtain ⟨sizes, hsizes, hd⟩ := h.exists_sizes
  -- the lengths of both describe the same sizes
  have hlengths : v.toPath.lengths = v.lengths := by
    apply (Path.describes_of_validSizes h.validSizes_toPath).unique
    rwa [h.sizes_toPath hsizes hd]
  rw [Path.header, hlengths]
  rfl

/-- The owned path is well formed if the position of the view is valid. -/
theorem Sound.wellFormed_toPath (h : v.Sound) (hfault : v.header.fault? = none) :
    v.toPath.WellFormed := by
  have hsizes := h.validSizes_toPath
  have hposition := Header.fault?_eq_none_iff_locate (h := v.toPath.header) hsizes
    (Path.describes_of_validSizes hsizes)
  rw [h.header_toPath] at hposition
  exact ⟨hsizes, hposition.mp hfault⟩

/-- Reading the bytes and reading the owned path are the same. -/
theorem Sound.records_toPath (h : v.Sound) : v.toPath.records = v.records := by
  have hmade := h.madeOf
  have hheader : v.toPath.checkedHeader = v.header.validate := by
    rw [Path.checkedHeader_eq_validate h.validSizes_toPath, h.header_toPath]
  have hlengths : (if maxSegments < v.toPath.segments.length then none
      else v.toPath.lengths.checked?) = v.lengths.checked? := by
    have hcount := h.validSizes_toPath.count_le
    rw [Path.length_sizes] at hcount
    have hsame : v.toPath.lengths = v.lengths := congrArg Header.lengths h.header_toPath
    rw [if_neg (Nat.not_lt.mpr hcount), hsame]
  have hinfo : v.toPath.info? = fun s => (v.info? s).map InfoView.field := by
    funext s
    rw [Path.info?_eq_getElem?, h.infos_toPath, List.getElem?_map, hmade.info?_eq]
  have hhop : v.toPath.hop? = fun i => (v.hop? i).map HopView.field := by
    funext i
    rw [Path.hop?_eq_getElem?, h.hops_toPath, List.getElem?_map, hmade.hop?_eq]
  rw [Path.records, hheader, hlengths, hinfo, hhop]
  rfl

end ToPath

end PathView

end SourceRoute
