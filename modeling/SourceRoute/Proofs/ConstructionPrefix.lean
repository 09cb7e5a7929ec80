import SourceRoute.Proofs.ChainChecks

/-!
# The part of a segment that is built first

A segment is built hop by hop in construction order, and each code is chained to the one before it.
So the codes of the first `k` hops of the construction depend on these hops, their keys and the info
field alone: cutting off what was built later, or putting something else in its place, leaves them
as they are.  In the order of the visit these hops stand at the front of a segment that is visited
along its construction, and at the back of one that is visited against it.
-/

namespace SourceRoute

theorem OuterSeeds.seedAt_none (index size : Nat) : none.seedAt index size = Option.none := by
  simp [seedAt, none]

namespace ChainSlot

/-- The slot of a hop and its key, without a seed. -/
def unseeded (x : HopField × ForwardingKey) : ChainSlot := ⟨0, x.1, x.2, none⟩

/-- The codes do not depend on where the hops are stored. -/
theorem sign_map_index (info : InfoField) (chain : Mac) (f : ChainSlot → Nat)
    (slots : List ChainSlot) :
    sign info chain (slots.map fun slot => { slot with index := f slot }) =
      sign info chain slots := by
  induction slots generalizing chain with
  | nil => rfl
  | cons slot slots ih =>
    rw [List.map_cons, sign, sign, ih]
    rfl

/-- A chain that stops early carries the codes that it carries up to there. -/
theorem sign_take (info : InfoField) (chain : Mac) (k : Nat) (slots : List ChainSlot) :
    sign info chain (slots.take k) = (sign info chain slots).take k := by
  induction slots generalizing chain k with
  | nil => rw [List.take_nil, sign, List.take_nil]
  | cons slot slots ih =>
    cases k with
    | zero => rfl
    | succ k => rw [List.take_succ_cons, sign, sign, List.take_succ_cons, ih]

end ChainSlot

namespace Segment

/-! ## The first places in construction order -/

section

variable {α β : Type}

/-- What stands at the first `k` places in construction order, in the order of the visit. -/
def firstBuilt (consDir : Bool) (k : Nat) (l : List α) : List α :=
  if consDir then l.take k else l.drop (l.length - k)

theorem orient_firstBuilt (consDir : Bool) (k : Nat) (l : List α) :
    orient consDir (firstBuilt consDir k l) = (orient consDir l).take k := by
  cases consDir
  · exact List.take_reverse.symm
  · rfl

theorem firstBuilt_orient (consDir : Bool) (k : Nat) (l : List α) :
    firstBuilt consDir k (orient consDir l) = orient consDir (l.take k) := by
  have horient := congrArg (orient consDir) (orient_firstBuilt consDir k (orient consDir l))
  rwa [orient_orient, orient_orient] at horient

theorem map_firstBuilt (f : α → β) (consDir : Bool) (k : Nat) (l : List α) :
    (firstBuilt consDir k l).map f = firstBuilt consDir k (l.map f) := by
  cases consDir
  · simp only [firstBuilt, Bool.false_eq_true, if_false, List.map_drop, List.length_map]
  · exact List.map_take

theorem zip_firstBuilt (consDir : Bool) (k : Nat) {l : List α} {m : List β}
    (hlength : m.length = l.length) :
    (firstBuilt consDir k l).zip (firstBuilt consDir k m) = firstBuilt consDir k (l.zip m) := by
  cases consDir
  · simp only [firstBuilt, Bool.false_eq_true, if_false, List.zip, List.drop_zipWith,
      List.length_zipWith, hlength, Nat.min_self]
  · simp only [firstBuilt, if_true, List.zip, List.take_zipWith]

theorem length_firstBuilt (consDir : Bool) (k : Nat) (l : List α) :
    (firstBuilt consDir k l).length = min k l.length := by
  rw [← length_orient consDir, orient_firstBuilt, List.length_take, length_orient]

end

/-- The segment with its first `k` hops in construction order only. -/
def builtPrefix (s : Segment) (k : Nat) : Segment :=
  { s with hops := firstBuilt s.info.flags.consDir k s.hops }

@[simp] theorem info_builtPrefix (s : Segment) (k : Nat) : (s.builtPrefix k).info = s.info := rfl

theorem size_builtPrefix (s : Segment) (k : Nat) : (s.builtPrefix k).size = min k s.size :=
  length_firstBuilt ..

/-! ## Signing without seeds -/

variable {s : Segment} {keys : List ForwardingKey}

theorem hops_signed_none (s : Segment) (keys : List ForwardingKey) :
    (s.signed keys OuterSeeds.none).hops = orient s.info.flags.consDir (ChainSlot.sign s.info
      Mac.zero (orient s.info.flags.consDir ((s.hops.zip keys).map ChainSlot.unseeded))) := by
  -- without seeds the slots are hops and keys, up to indices that signing does not look at
  have hslots : (s.slots keys OuterSeeds.none).map (fun slot => { slot with index := 0 }) =
      (s.hops.zip keys).map ChainSlot.unseeded := by
    apply List.ext_getElem?
    intro i
    rw [slots, List.getElem?_map, List.getElem?_mapIdx, Option.map_map, List.getElem?_map]
    refine congrArg (Option.map · _) (funext fun x => ?_)
    rw [Function.comp_apply, OuterSeeds.seedAt_none, ChainSlot.unseeded]
  rw [← hslots, ← map_orient, ChainSlot.sign_map_index, signed]

/-- Signing the part that is built first gives the first part of the signed segment. -/
theorem signed_builtPrefix (hkeys : keys.length = s.size) (k : Nat) :
    (s.builtPrefix k).signed (firstBuilt s.info.flags.consDir k keys) OuterSeeds.none =
      (s.signed keys OuterSeeds.none).builtPrefix k := by
  -- the cut moves past the zip, the order of the chain, the chain itself and back
  have hhops : ((s.builtPrefix k).signed (firstBuilt s.info.flags.consDir k keys)
      OuterSeeds.none).hops =
      firstBuilt s.info.flags.consDir k (s.signed keys OuterSeeds.none).hops := by
    rw [hops_signed_none, hops_signed_none, info_builtPrefix, builtPrefix,
      zip_firstBuilt _ _ hkeys, map_firstBuilt, orient_firstBuilt, ChainSlot.sign_take,
      firstBuilt_orient]
  exact congrArg (Segment.mk s.info) hhops

/-- Codes depend only on what is built before them.  Without seeds and with a key for every hop, the
first `k` hops in construction order get the same codes if the segment is cut off behind them, and
they get the same codes in every segment that begins its construction with them and their keys, for
any number of other hops behind them with any keys. -/
theorem signWith_builtPrefix (hkeys : keys.length = s.size) (k : Nat) :
    ∃ t, s.signWith keys OuterSeeds.none = .ok t ∧
      (s.builtPrefix k).signWith (firstBuilt s.info.flags.consDir k keys) OuterSeeds.none =
        .ok (t.builtPrefix k) ∧
      ∀ (s' : Segment) keys', keys'.length = s'.size → s'.builtPrefix k = s.builtPrefix k →
        firstBuilt s.info.flags.consDir k keys' = firstBuilt s.info.flags.consDir k keys →
        ∃ t', s'.signWith keys' OuterSeeds.none = .ok t' ∧ t'.builtPrefix k = t.builtPrefix k := by
  have hfirst : (firstBuilt s.info.flags.consDir k keys).length = (s.builtPrefix k).size := by
    rw [length_firstBuilt, size_builtPrefix, hkeys]
  refine ⟨s.signed keys OuterSeeds.none, if_pos hkeys, ?_, ?_⟩
  · rw [signWith, if_pos hfirst, signed_builtPrefix hkeys]
  · intro s' keys' hkeys' hprefix hfirst'
    have hinfo : s'.info = s.info := by
      rw [← info_builtPrefix s' k, hprefix, info_builtPrefix]
    refine ⟨s'.signed keys' OuterSeeds.none, if_pos hkeys', ?_⟩
    -- both are what signing makes of the common part
    rw [← signed_builtPrefix hkeys', hinfo, hprefix, hfirst', signed_builtPrefix hkeys]

/-- The case of a segment that is visited against its construction and gets another hop in front. -/
theorem signWith_builtPrefix_of_hop_in_front :
    let hop : HopField := ⟨HopFlags.none, 63, 4, 5, Mac.zero⟩
    let s : Segment := ⟨⟨⟨0⟩, 7, 1000⟩, [hop, { hop with egress := 0 }]⟩
    let longer : Segment := { s with hops := { hop with ingress := 9 } :: s.hops }
    let keys : List ForwardingKey := [ForwardingKey.zero, ⟨Vector.replicate 16 1⟩]
    let other : ForwardingKey := ⟨Vector.replicate 16 2⟩
    keys.length = s.size ∧ ∃ t t', s.signWith keys OuterSeeds.none = .ok t ∧
      longer.signWith (other :: keys) OuterSeeds.none = .ok t' ∧
      t'.builtPrefix 2 = t.builtPrefix 2 := by
  intro hop s longer keys other
  have hkeys : keys.length = s.size := rfl
  obtain ⟨t, ht, -, hbegins⟩ := signWith_builtPrefix hkeys 2
  obtain ⟨t', ht', hsame⟩ := hbegins longer (other :: keys) rfl (by decide) (by decide)
  exact ⟨hkeys, t, t', ht, ht', hsame⟩

end Segment

end SourceRoute
