import Mathlib.Data.List.Nodup
import SourceRoute.Proofs.ChainChecks

/-!
# Signing and checking a segment

A segment is signed inside its own list of hops: in construction order, each hop gets the code that
is chained to the code written just before.  `signInPlace?` does so and gives no result if an index
names no hop or no key; it always gives one, the segment that `signWith` describes.  Checking walks
along the same chain over the codes that are there.  As long as these are right, both walks carry the
same code on, so the check stops at the first hop whose code signing would change.
-/

namespace SourceRoute

/-- The hop field with another code. -/
def HopField.withMac (hop : HopField) (mac : Mac) : HopField := { hop with mac }

theorem HopField.eq_of_withMac_eq {a b : HopField} {mac : Mac} (hrest : a.withMac mac = b.withMac mac)
    (hmac : a.mac = b.mac) : a = b := by
  cases a
  cases b
  simp_all [withMac]

/-! ## Chains -/

namespace ChainSlot

/-- Checking a chain is looking for the first hop whose code signing changes. -/
theorem firstBad?_eq_find?_sign (info : InfoField) (chain : Mac) (slots : List ChainSlot) :
    firstBad? info chain slots = ((slots.zip (sign info chain slots)).find? fun x =>
      !decide (x.1.hop.mac = x.2.mac)).map fun x => x.1.index := by
  induction slots generalizing chain with
  | nil => rfl
  | cons slot slots ih =>
    rw [firstBad?, sign, List.zip_cons_cons, List.find?_cons]
    -- the code that is carried on is the written one here and the stored one there
    by_cases hmac : slot.expected info chain = slot.hop.mac
    · rw [if_pos hmac, ih, hmac]
      simp only [decide_true, Bool.not_true]
    · rw [if_neg hmac]
      simp only [Ne.symm hmac, decide_false, Bool.not_false, Option.map_some]

/-- What a slot holds is what the segment has at its index. -/
structure IsOf (slot : ChainSlot) (s : Segment) (keys : List ForwardingKey) (seeds : OuterSeeds) :
    Prop where
  hop_eq : s.hops[slot.index]? = some slot.hop
  key_eq : keys[slot.index]? = some slot.key
  seed_eq : slot.seed = seeds.seedAt slot.index s.size

end ChainSlot

namespace Segment

/-! ## Codes of a segment -/

/-- The code that hop `k` carries. -/
def macAt? (s : Segment) (k : Nat) : Option Mac := s.hops[k]?.map HopField.mac

/-- The segment without its codes. -/
def withoutMacs (s : Segment) : Segment :=
  { s with hops := s.hops.map fun hop => hop.withMac Mac.zero }

/-- The segment with another code in hop `k`. -/
def setMac (s : Segment) (k : Nat) (mac : Mac) : Segment :=
  { s with hops := s.hops.modify k fun hop => hop.withMac mac }

@[simp] theorem info_setMac (s : Segment) (k : Nat) (mac : Mac) : (s.setMac k mac).info = s.info :=
  rfl

@[simp] theorem size_setMac (s : Segment) (k : Nat) (mac : Mac) : (s.setMac k mac).size = s.size :=
  List.length_modify ..

theorem getElem?_hops_setMac_self (s : Segment) (k : Nat) (mac : Mac) :
    (s.setMac k mac).hops[k]? = s.hops[k]?.map fun hop => hop.withMac mac :=
  List.getElem?_modify_eq ..

theorem getElem?_hops_setMac_of_ne {k j : Nat} (hne : k ≠ j) (s : Segment) (mac : Mac) :
    (s.setMac k mac).hops[j]? = s.hops[j]? :=
  List.getElem?_modify_ne _ _ hne

theorem getElem?_hops_eq_none {s : Segment} {k : Nat} (hk : s.size ≤ k) : s.hops[k]? = none :=
  List.getElem?_eq_none hk

/-- Segments that differ in their codes at most are equal if they carry the same codes. -/
theorem eq_of_withoutMacs_eq {s t : Segment} (hrest : s.withoutMacs = t.withoutMacs)
    (hmacs : ∀ k, s.macAt? k = t.macAt? k) : s = t := by
  have hinfo : s.withoutMacs.info = t.withoutMacs.info := by rw [hrest]
  have hhops : s.hops = t.hops := by
    apply List.ext_getElem?
    intro k
    have hk : s.withoutMacs.hops[k]? = t.withoutMacs.hops[k]? := by rw [hrest]
    have hmac := hmacs k
    rw [withoutMacs, withoutMacs, List.getElem?_map, List.getElem?_map] at hk
    rw [macAt?, macAt?] at hmac
    cases hs : s.hops[k]? with
    | none =>
      rw [hs] at hk
      exact (Option.map_eq_none_iff.mp hk.symm).symm
    | some a =>
      rw [hs, Option.map_some] at hk hmac
      obtain ⟨b, ht, hb⟩ := Option.map_eq_some_iff.mp hk.symm
      rw [ht, Option.map_some, Option.some.injEq] at hmac
      rw [ht, HopField.eq_of_withMac_eq hb hmac.symm]
  cases s
  cases t
  exact Segment.mk.injEq .. ▸ ⟨hinfo, hhops⟩

variable {s : Segment} {keys : List ForwardingKey} {seeds : OuterSeeds} {k : Nat}

/-! ## Signing changes codes only -/

theorem withoutMacs_signed (hkeys : keys.length = s.size) (seeds : OuterSeeds) :
    (s.signed keys seeds).withoutMacs = s.withoutMacs := by
  have hhops : (s.signed keys seeds).hops.map (fun hop => hop.withMac Mac.zero) =
      s.hops.map fun hop => hop.withMac Mac.zero := by
    apply List.ext_getElem?
    intro k
    rw [List.getElem?_map, List.getElem?_map]
    rcases Nat.lt_or_ge k s.size with hk | hk
    · have hhop := List.getElem?_eq_getElem (l := s.hops) hk
      have hkey := List.getElem?_eq_getElem (l := keys) (i := k) (by rwa [hkeys])
      rw [getElem?_hops_signed hkeys hhop hkey, hhop]
      rfl
    · rw [getElem?_hops_eq_none hk, getElem?_hops_eq_none (by rwa [size_signed hkeys])]
  rw [withoutMacs, withoutMacs, hhops]
  rfl

/-- The hop of a slot in a signed segment, found at the place of the slot in the chain. -/
theorem getElem?_hops_signed_of_slot (hkeys : keys.length = s.size) {slot : ChainSlot} {j : Nat}
    (hslot : (orient s.info.flags.consDir (s.slots keys seeds))[j]? = some slot) :
    (s.signed keys seeds).hops[slot.index]? = (ChainSlot.sign s.info Mac.zero
      (orient s.info.flags.consDir (s.slots keys seeds)))[j]? := by
  obtain ⟨hj, hindex, -⟩ := of_getElem?_orient_slots hkeys hslot
  have hlength : (s.signed keys seeds).hops.length = s.size := size_signed hkeys seeds
  have hread := getElem?_of_orient s.info.flags.consDir (l := (s.signed keys seeds).hops) (j := j)
    (by rwa [hlength])
  rw [hlength] at hread
  rw [hindex, hread, signed, orient_orient]

/-- Checking a segment is looking, in construction order, for a hop whose code signing changes. -/
theorem firstBadMac?_eq_find?_signed (hkeys : keys.length = s.size) (seeds : OuterSeeds) :
    s.firstBadMac? keys seeds = s.constructionIndices.find? fun k =>
      !decide (s.macAt? k = (s.signed keys seeds).macAt? k) := by
  -- each slot of the chain beside the hop that signing makes of it
  have hmem (x : ChainSlot × HopField)
      (hx : x ∈ (orient s.info.flags.consDir (s.slots keys seeds)).zip
        (ChainSlot.sign s.info Mac.zero (orient s.info.flags.consDir (s.slots keys seeds)))) :
      s.macAt? x.1.index = some x.1.hop.mac ∧
        (s.signed keys seeds).macAt? x.1.index = some x.2.mac := by
    obtain ⟨j, hj⟩ := List.getElem?_of_mem hx
    obtain ⟨hslot, hhop⟩ := List.getElem?_zip_eq_some.mp hj
    obtain ⟨-, -, hread⟩ := of_getElem?_orient_slots hkeys hslot
    rw [macAt?, macAt?, (of_getElem?_slots hread).1, getElem?_hops_signed_of_slot hkeys hslot, hhop]
    exact ⟨rfl, rfl⟩
  have horder : ((orient s.info.flags.consDir (s.slots keys seeds)).zip (ChainSlot.sign s.info
      Mac.zero (orient s.info.flags.consDir (s.slots keys seeds)))).map (fun x => x.1.index) =
      s.constructionIndices := by
    rw [show (fun x : ChainSlot × HopField => x.1.index) = ChainSlot.index ∘ Prod.fst from rfl,
      ← List.map_map, List.map_fst_zip (by rw [ChainSlot.length_sign]),
      map_index_orient_slots hkeys]
  rw [firstBadMac?, if_pos hkeys, ChainSlot.firstBad?_eq_find?_sign, ← horder, List.find?_map]
  congr 1
  refine List.find?_congr fun x hx => ?_
  obtain ⟨hstored, hsigned⟩ := hmem x hx
  simp only [Function.comp_apply, hstored, hsigned, Option.some.injEq]

/-- A segment passes the check exactly if signing leaves it as it is. -/
theorem firstBadMac?_eq_none_iff_signed (hkeys : keys.length = s.size) (seeds : OuterSeeds) :
    s.firstBadMac? keys seeds = none ↔ s.signed keys seeds = s := by
  rw [firstBadMac?_eq_find?_signed hkeys, List.find?_eq_none]
  simp only [mem_constructionIndices, Bool.not_eq_true', decide_eq_false_iff_not, not_not]
  constructor
  · intro hsame
    refine eq_of_withoutMacs_eq (withoutMacs_signed hkeys seeds) fun k => ?_
    rcases Nat.lt_or_ge k s.size with hk | hk
    · exact (hsame k hk).symm
    -- past the last hop there is no code in either
    · rw [macAt?, macAt?, getElem?_hops_eq_none hk,
        getElem?_hops_eq_none (by rwa [size_signed hkeys])]
  · intro hsigned k _
    rw [hsigned]

/-! ## Signing in place -/

/-- Signs the hops at the given indices one after the other, each chained to the one before and the
first one to the given code. -/
def signAll? (keys : List ForwardingKey) (seeds : OuterSeeds) :
    Mac → List Nat → Segment → Option Segment
  | _, [], s => some s
  | chain, k :: ks, s =>
    match s.hops[k]?, keys[k]? with
    | some hop, some key =>
      let mac := key.hopMac s.info hop chain (seeds.seedAt k s.size)
      signAll? keys seeds mac ks (s.setMac k mac)
    | _, _ => none

/-- Signs a segment in place, in construction order: the answer, and the segment afterwards.  If the
numbers of keys and hops differ, nothing is signed. -/
def signInPlace? (s : Segment) (keys : List ForwardingKey) (seeds : OuterSeeds) :
    Option (Except BuildFault Unit × Segment) :=
  if keys.length = s.size then
    (signAll? keys seeds Mac.zero s.constructionIndices s).map fun t => (.ok (), t)
  else some (.error (.keyCount 0 s.size keys.length), s)

theorem nodup_constructionIndices (s : Segment) : s.constructionIndices.Nodup := by
  rw [constructionIndices, orient]
  split
  · exact List.nodup_range
  · exact List.nodup_reverse.mpr List.nodup_range

theorem isOf_of_mem_orient_slots (hkeys : keys.length = s.size) {slot : ChainSlot}
    (hmem : slot ∈ orient s.info.flags.consDir (s.slots keys seeds)) :
    slot.IsOf s keys seeds := by
  obtain ⟨j, hj⟩ := List.getElem?_of_mem hmem
  obtain ⟨hhop, hkey, -, hseed⟩ := of_getElem?_slots (of_getElem?_orient_slots hkeys hj).2.2
  exact ⟨hhop, hkey, hseed⟩

/-- One step writes the code of one slot. -/
theorem signAll?_cons {slot : ChainSlot} (h : slot.IsOf s keys seeds) (chain : Mac)
    (ks : List Nat) : signAll? keys seeds chain (slot.index :: ks) s =
      signAll? keys seeds (slot.expected s.info chain) ks
        (s.setMac slot.index (slot.expected s.info chain)) := by
  rw [signAll?, h.hop_eq, h.key_eq, ← h.seed_eq]
  rfl

/-- Writing a code leaves the slots of the other hops as they are. -/
theorem isOf_setMac {slot : ChainSlot} (h : slot.IsOf s keys seeds) (hne : k ≠ slot.index)
    (mac : Mac) : slot.IsOf (s.setMac k mac) keys seeds where
  hop_eq := by rw [getElem?_hops_setMac_of_ne hne, h.hop_eq]
  key_eq := h.key_eq
  seed_eq := by rw [size_setMac, h.seed_eq]

/-- Working through slots with different indices writes the codes of their chain into their hops,
and leaves everything else as it is. -/
theorem signAll?_of_slots (slots : List ChainSlot) (hnodup : (slots.map ChainSlot.index).Nodup)
    (hslots : ∀ slot ∈ slots, slot.IsOf s keys seeds) (chain : Mac) :
    ∃ t, signAll? keys seeds chain (slots.map ChainSlot.index) s = some t ∧ t.info = s.info ∧
      t.size = s.size ∧
      (∀ (j : Nat) slot, slots[j]? = some slot →
        t.hops[slot.index]? = (ChainSlot.sign s.info chain slots)[j]?) ∧
      ∀ k ∉ slots.map ChainSlot.index, t.hops[k]? = s.hops[k]? := by
  induction slots generalizing s chain with
  | nil => exact ⟨s, rfl, rfl, rfl, by simp, fun _ _ => rfl⟩
  | cons first slots ih =>
    obtain ⟨hfresh, hrest⟩ := List.nodup_cons.mp hnodup
    have hfirst := hslots first List.mem_cons_self
    have hother (slot : ChainSlot) (hmem : slot ∈ slots) : slot.IsOf
        (s.setMac first.index (first.expected s.info chain)) keys seeds := by
      refine isOf_setMac (hslots slot (List.mem_cons_of_mem _ hmem)) (fun heq => hfresh ?_) _
      rw [heq]
      exact List.mem_map_of_mem hmem
    obtain ⟨t, ht, hinfo, hsize, hread, hframe⟩ := ih hrest hother (first.expected s.info chain)
    refine ⟨t, ?_, hinfo.trans (info_setMac ..), hsize.trans (size_setMac ..), ?_, ?_⟩
    · rw [List.map_cons, signAll?_cons hfirst, ht]
    · intro j slot hj
      cases j with
      -- the first hop is not written again
      | zero =>
        obtain rfl : first = slot := by simpa using hj
        rw [hframe _ hfresh, getElem?_hops_setMac_self, hfirst.hop_eq]
        rfl
      | succ j => exact hread j slot hj
    · intro k hk
      rw [List.map_cons, List.mem_cons, not_or] at hk
      rw [hframe k hk.2, getElem?_hops_setMac_of_ne (Ne.symm hk.1)]

/-- The loop never looks for a hop or a key that is not there, and it ends in the signed segment. -/
theorem signAll?_constructionIndices (hkeys : keys.length = s.size) (seeds : OuterSeeds) :
    signAll? keys seeds Mac.zero s.constructionIndices s = some (s.signed keys seeds) := by
  have horder := map_index_orient_slots hkeys seeds
  have hnodup : ((orient s.info.flags.consDir (s.slots keys seeds)).map ChainSlot.index).Nodup := by
    rw [horder]
    exact nodup_constructionIndices s
  obtain ⟨t, ht, hinfo, hsize, hread, -⟩ :=
    signAll?_of_slots _ hnodup (fun _ => isOf_of_mem_orient_slots hkeys) Mac.zero
  have hhops : t.hops = (s.signed keys seeds).hops := by
    apply List.ext_getElem?
    intro k
    rcases Nat.lt_or_ge k s.size with hk | hk
    · have hslot := getElem?_slots (List.getElem?_eq_getElem (l := s.hops) hk)
        (List.getElem?_eq_getElem (l := keys) (i := k) (by rwa [hkeys])) seeds
      rw [← getElem?_orient s.info.flags.consDir (by rwa [length_slots hkeys])] at hslot
      exact (hread _ _ hslot).trans (getElem?_hops_signed_of_slot hkeys hslot).symm
    · rw [getElem?_hops_eq_none (by rwa [hsize]),
        getElem?_hops_eq_none (by rwa [size_signed hkeys])]
  rw [← horder, ht]
  cases t
  obtain rfl := hinfo
  obtain rfl := hhops
  rfl

theorem signInPlace?_of_length_eq (hkeys : keys.length = s.size) (seeds : OuterSeeds) :
    s.signInPlace? keys seeds = some (.ok (), s.signed keys seeds) := by
  rw [signInPlace?, if_pos hkeys, signAll?_constructionIndices hkeys]
  rfl

/-- Signing and checking are inverse.  If the numbers of keys and hops differ, signing answers with
both numbers and leaves the segment as it is, and no check passes.  Otherwise signing in place gives
the segment of `signWith`: only codes have changed, it passes the check with the same keys and seeds,
and signing it again changes nothing.  The check passes exactly the segments that signing leaves as
they are, and if it fails, it names the first hop in construction order whose code is another one
than signing gives it. -/
theorem sign_check_inverse (s : Segment) (keys : List ForwardingKey) (seeds : OuterSeeds) :
    (keys.length ≠ s.size →
      s.signInPlace? keys seeds = some (.error (.keyCount 0 s.size keys.length), s) ∧
      s.signWith keys seeds = .error (.keyCount 0 s.size keys.length) ∧
      s.firstBadMac? keys seeds ≠ none) ∧
    (keys.length = s.size → ∃ t : Segment,
      s.signInPlace? keys seeds = some (.ok (), t) ∧ s.signWith keys seeds = .ok t ∧
      t.withoutMacs = s.withoutMacs ∧ t.firstBadMac? keys seeds = none ∧
      t.signInPlace? keys seeds = some (.ok (), t) ∧
      (s.firstBadMac? keys seeds = none ↔ t = s) ∧
      ∀ k, s.firstBadMac? keys seeds = some k ↔ s.macAt? k ≠ t.macAt? k ∧
        ∃ before after, s.constructionIndices = before ++ k :: after ∧
          ∀ j ∈ before, s.macAt? j = t.macAt? j) := by
  constructor
  · intro hne
    refine ⟨?_, ?_, ?_⟩
    · rw [signInPlace?, if_neg hne]
    · rw [signWith, if_neg hne]
    · rw [firstBadMac?, if_neg hne]
      exact Option.some_ne_none _
  · intro hkeys
    have hsize : keys.length = (s.signed keys seeds).size := by rw [size_signed hkeys, hkeys]
    have hpasses := firstBadMac?_signed hkeys seeds
    have hagain : (s.signed keys seeds).signed keys seeds = s.signed keys seeds :=
      (firstBadMac?_eq_none_iff_signed hsize seeds).mp hpasses
    refine ⟨s.signed keys seeds, signInPlace?_of_length_eq hkeys seeds, ?_,
      withoutMacs_signed hkeys seeds, hpasses, ?_, firstBadMac?_eq_none_iff_signed hkeys seeds, ?_⟩
    · rw [signWith, if_pos hkeys]
    · rw [signInPlace?_of_length_eq hsize, hagain]
    · intro k
      rw [firstBadMac?_eq_find?_signed hkeys, List.find?_eq_some_iff_append]
      simp only [Bool.not_eq_true', decide_eq_false_iff_not, Bool.not_not, decide_eq_true_eq,
        ne_eq]

end Segment

end SourceRoute
