import SourceRoute.Proofs.BitLaws
import SourceRoute.Proofs.ChainChecks
import SourceRoute.Proofs.PlanReversal

/-!
# A code binds the chain before it

The block of 32 bytes below a code gives back all the values that it was written from, the code of
the hop before among them.  So a code that is right in two segments leads, place by place towards
the start of both chains, to equal blocks, until the start is reached or two different blocks with
one code are found.  `agreesUpTo_or_collides` says this of any two segments that pass the check, in
whichever directions they are visited.
-/

namespace SourceRoute

/-! ## Blocks and their bytes -/

/-- The bytes of a block determine the block. -/
theorem AuthBlock.bytes_injective : Function.Injective AuthBlock.bytes := by
  intro a b h
  -- every part has as many bytes in both blocks, so they are taken apart from the back
  obtain ⟨h, -⟩ := List.append_inj' h rfl
  obtain ⟨h, hseed⟩ := List.append_inj' h (by simp [PeeringSeed.toBytes])
  obtain ⟨h, hchain⟩ := List.append_inj' h (by simp [Mac.toBytes])
  obtain ⟨h, -⟩ := List.append_inj' h rfl
  obtain ⟨h, hegress⟩ := List.append_inj' h (by simp)
  obtain ⟨h, hingress⟩ := List.append_inj' h (by simp)
  obtain ⟨h, hexpTime⟩ := List.append_inj' h rfl
  obtain ⟨hsegmentId, htimestamp⟩ := List.append_inj' h (by simp)
  cases a
  cases b
  simp only [mk.injEq]
  refine ⟨?_, ?_, ?_, ?_, ?_, ?_, ?_⟩
  · exact UInt16.toBitVec_inj.mp (Bytes.ofWord_injective (by decide) hsegmentId)
  · exact UInt32.toBitVec_inj.mp (Bytes.ofWord_injective (by decide) htimestamp)
  · simpa using hexpTime
  · exact UInt16.toBitVec_inj.mp (Bytes.ofWord_injective (by decide) hingress)
  · exact UInt16.toBitVec_inj.mp (Bytes.ofWord_injective (by decide) hegress)
  · exact congrArg Mac.mk (Bytes.ofWord_injective (by decide) hchain)
  · exact congrArg PeeringSeed.mk (Bytes.ofWord_injective (by decide) hseed)

/-- The interfaces of a hop of a segment, in construction direction. -/
def InfoField.constructionPair (info : InfoField) (hop : HopField) : UInt16 × UInt16 :=
  if info.flags.consDir then (hop.ingress, hop.egress) else (hop.egress, hop.ingress)

/-- The block of a hop has the interfaces in construction direction. -/
theorem AuthBlock.interfaces_ofHop (info : InfoField) (hop : HopField) (chain : Mac)
    (seed : Option PeeringSeed) :
    ((ofHop info hop chain seed).ingress, (ofHop info hop chain seed).egress) =
      info.constructionPair hop := by
  rw [InfoField.constructionPair, ofHop]
  split <;> rfl

namespace ChainSlot

/-- In a chain without a bad slot, every slot carries the code that follows from the slot before
it. -/
theorem expected_of_firstBad?_eq_none {info : InfoField} {chain : Mac} {slots : List ChainSlot}
    (h : firstBad? info chain slots = none) {j : Nat} {slot : ChainSlot}
    (hslot : slots[j]? = some slot) :
    slot.expected info (codeBefore chain (slots.map ChainSlot.hop) j) = slot.hop.mac := by
  induction slots generalizing chain j with
  | nil => simp at hslot
  | cons first slots ih =>
    rw [firstBad?, ite_eq_iff] at h
    obtain ⟨hfirst, hrest⟩ | ⟨-, hbad⟩ := h
    · cases j with
      | zero =>
        obtain rfl : first = slot := by simpa using hslot
        exact hfirst
      | succ j =>
        rw [List.getElem?_cons_succ] at hslot
        rw [List.map_cons, codeBefore_succ]
        exact ih hrest hslot
    · simp at hbad

end ChainSlot

/-! ## Chains of two segments -/

/-- A segment with the keys of its hops and the seeds of its outer hops, both in stored order. -/
structure CheckedSegment where
  segment : Segment
  keys : List ForwardingKey
  seeds : OuterSeeds

/-- What the code of a hop vouches for besides the values of the info field: the hop as it is seen
in construction direction, its code, and the seed that counts. -/
structure Vouched where
  expTime : UInt8
  interfaces : UInt16 × UInt16
  mac : Mac
  seed : PeeringSeed

namespace CheckedSegment

/-- The hops of the segment with their keys and seeds, in construction order. -/
def chain (c : CheckedSegment) : List ChainSlot :=
  Segment.orient c.segment.info.flags.consDir (c.segment.slots c.keys c.seeds)

/-- The segment passes the check of its codes. -/
def Accepted (c : CheckedSegment) : Prop := c.segment.firstBadMac? c.keys c.seeds = none

/-- The key at a place of the chain. -/
def key? (c : CheckedSegment) (j : Nat) : Option ForwardingKey := c.chain[j]?.map ChainSlot.key

/-- The code at a place of the chain. -/
def code? (c : CheckedSegment) (j : Nat) : Option Mac := c.chain[j]?.map fun slot => slot.hop.mac

/-- The block of the hop at a place of the chain, with the code that the hop before it carries. -/
def block? (c : CheckedSegment) (j : Nat) : Option AuthBlock :=
  c.chain[j]?.map fun slot => AuthBlock.ofHop c.segment.info slot.hop
    (ChainSlot.codeBefore Mac.zero (c.chain.map ChainSlot.hop) j) slot.seed

/-- What the code at a place of the chain vouches for.  A seed that is absent counts as zero. -/
def vouched? (c : CheckedSegment) (j : Nat) : Option Vouched :=
  c.chain[j]?.map fun slot =>
    { expTime := slot.hop.expTime
      interfaces := c.segment.info.constructionPair slot.hop
      mac := slot.hop.mac
      seed := slot.seed.getD PeeringSeed.zero }

/-- Both segments have the same identifier and timestamp, and the same at every place of their
chains up to and including `k`. -/
structure AgreesUpTo (c d : CheckedSegment) (k : Nat) : Prop where
  segmentId : c.segment.info.segmentId = d.segment.info.segmentId
  timestamp : c.segment.info.timestamp = d.segment.info.timestamp
  vouched : ∀ j ≤ k, c.vouched? j = d.vouched? j

/-- The blocks at a place of both chains differ, and their codes under the key at that place are
equal. -/
def Collides (c d : CheckedSegment) (j : Nat) : Prop :=
  ∃ key a b, c.key? j = some key ∧ d.key? j = some key ∧ c.block? j = some a ∧
    d.block? j = some b ∧ a.bytes ≠ b.bytes ∧ key.authenticate a.bytes = key.authenticate b.bytes

section

variable {c d : CheckedSegment} {j k : Nat} {x y : ChainSlot}

/-- The code at a place of an accepted chain is the one of the block there. -/
theorem Accepted.exists_block (h : c.Accepted) (hx : c.chain[j]? = some x) :
    ∃ a, c.block? j = some a ∧ x.key.authenticate a.bytes = x.hop.mac := by
  have hcheck : ChainSlot.firstBad? c.segment.info Mac.zero c.chain = none := by
    unfold Accepted Segment.firstBadMac? at h
    split at h
    · exact h
    · simp at h
  refine ⟨_, ?_, ChainSlot.expected_of_firstBad?_eq_none hcheck hx⟩
  rw [block?, hx]
  rfl

/-- Equal codes under one key have equal blocks below them, or the blocks collide. -/
theorem block?_eq_or_collides (hc : c.Accepted) (hd : d.Accepted) (hx : c.chain[j]? = some x)
    (hy : d.chain[j]? = some y) (hkey : x.key = y.key) (hmac : x.hop.mac = y.hop.mac) :
    c.block? j = d.block? j ∨ c.Collides d j := by
  obtain ⟨a, ha, hacode⟩ := hc.exists_block hx
  obtain ⟨b, hb, hbcode⟩ := hd.exists_block hy
  by_cases hbytes : a.bytes = b.bytes
  · left
    rw [ha, hb, AuthBlock.bytes_injective hbytes]
  · right
    refine ⟨x.key, a, b, ?_, ?_, ha, hb, hbytes, ?_⟩
    · rw [key?, hx]
      rfl
    · rw [key?, hy, hkey]
      rfl
    · rw [hacode, hmac, ← hbcode, hkey]

/-- Equal blocks are made of equal values. -/
theorem eq_of_block?_eq (hx : c.chain[j]? = some x) (hy : d.chain[j]? = some y)
    (hmac : x.hop.mac = y.hop.mac) (h : c.block? j = d.block? j) :
    c.segment.info.segmentId = d.segment.info.segmentId ∧
      c.segment.info.timestamp = d.segment.info.timestamp ∧
      c.vouched? j = d.vouched? j ∧
      ChainSlot.codeBefore Mac.zero (c.chain.map ChainSlot.hop) j =
        ChainSlot.codeBefore Mac.zero (d.chain.map ChainSlot.hop) j := by
  rw [block?, block?, hx, hy, Option.map_some, Option.map_some, Option.some.injEq] at h
  have hinterfaces :
      c.segment.info.constructionPair x.hop = d.segment.info.constructionPair y.hop := by
    rw [← AuthBlock.interfaces_ofHop, h, AuthBlock.interfaces_ofHop]
  have hexpTime : x.hop.expTime = y.hop.expTime := congrArg AuthBlock.expTime h
  have hseed : x.seed.getD PeeringSeed.zero = y.seed.getD PeeringSeed.zero :=
    congrArg AuthBlock.seed h
  refine ⟨congrArg AuthBlock.segmentId h, congrArg AuthBlock.timestamp h, ?_,
    congrArg AuthBlock.chain h⟩
  rw [vouched?, vouched?, hx, hy, Option.map_some, Option.map_some, hexpTime, hinterfaces, hmac,
    hseed]

theorem AgreesUpTo.succ (h : c.AgreesUpTo d k) (hnext : c.vouched? (k + 1) = d.vouched? (k + 1)) :
    c.AgreesUpTo d (k + 1) where
  segmentId := h.segmentId
  timestamp := h.timestamp
  vouched := by
    intro j hj
    rcases Nat.le_succ_iff.mp hj with hle | rfl
    · exact h.vouched j hle
    · exact hnext

/-- The slots at a place where both chains have the same key and the same code. -/
theorem exists_slots {mac : Mac} (hkey : c.key? k = d.key? k) (hc : c.code? k = some mac)
    (hd : d.code? k = some mac) :
    ∃ x y, c.chain[k]? = some x ∧ d.chain[k]? = some y ∧ x.key = y.key ∧
      x.hop.mac = y.hop.mac := by
  obtain ⟨x, hx, hxmac⟩ := Option.map_eq_some_iff.mp hc
  obtain ⟨y, hy, hymac⟩ := Option.map_eq_some_iff.mp hd
  rw [key?, key?, hx, hy, Option.map_some, Option.map_some, Option.some.injEq] at hkey
  exact ⟨x, y, hx, hy, hkey, hxmac.trans hymac.symm⟩

/-- One place of both chains: the same code under the same key vouches for the same values, and the
code before is the same, or the blocks collide. -/
theorem agreesAt_or_collides {mac : Mac} (hc : c.Accepted) (hd : d.Accepted)
    (hkey : c.key? k = d.key? k) (hmac : c.code? k = some mac) (hmac' : d.code? k = some mac) :
    (c.segment.info.segmentId = d.segment.info.segmentId ∧
      c.segment.info.timestamp = d.segment.info.timestamp ∧
      c.vouched? k = d.vouched? k ∧
      ChainSlot.codeBefore Mac.zero (c.chain.map ChainSlot.hop) k =
        ChainSlot.codeBefore Mac.zero (d.chain.map ChainSlot.hop) k) ∨ c.Collides d k := by
  obtain ⟨x, y, hx, hy, hkey, hcode⟩ := exists_slots hkey hmac hmac'
  rcases block?_eq_or_collides hc hd hx hy hkey hcode with hblock | hcollides
  · exact .inl (eq_of_block?_eq hx hy hcode hblock)
  · exact .inr hcollides

/-- A place that is not the first one has a place before it. -/
theorem code?_before {mac : Mac} (hmac : c.code? (k + 1) = some mac) :
    c.code? k = some (ChainSlot.codeBefore Mac.zero (c.chain.map ChainSlot.hop) (k + 1)) := by
  obtain ⟨x, hx, -⟩ := Option.map_eq_some_iff.mp hmac
  have hk : k < c.chain.length := Nat.lt_of_succ_lt (List.getElem?_eq_some_iff.mp hx).1
  rw [code?, ChainSlot.codeBefore, List.getElem?_map, List.getElem?_eq_getElem hk]
  rfl

end

/-- A code binds the whole chain before it.  Let two segments pass the check, with the same keys at
the places of their chains up to `k`.  If the same code is at place `k` of both, the segments agree
in all that the codes up to there vouch for, or two different blocks at one of these places have the
same code under the key there. -/
theorem agreesUpTo_or_collides {c d : CheckedSegment} (hc : c.Accepted) (hd : d.Accepted) {k : Nat}
    {mac : Mac} (hkeys : ∀ j ≤ k, c.key? j = d.key? j) (hmac : c.code? k = some mac)
    (hmac' : d.code? k = some mac) :
    c.AgreesUpTo d k ∨ ∃ j ≤ k, c.Collides d j := by
  -- the induction goes back along the chains: equal blocks hold the code of the place before
  induction k generalizing mac with
  | zero =>
    rcases agreesAt_or_collides hc hd (hkeys 0 le_rfl) hmac hmac' with
      ⟨hid, htime, hvouched, -⟩ | hcollides
    · refine .inl ⟨hid, htime, fun j hj => ?_⟩
      obtain rfl := Nat.le_zero.mp hj
      exact hvouched
    · exact .inr ⟨0, le_rfl, hcollides⟩
  | succ k ih =>
    rcases agreesAt_or_collides hc hd (hkeys (k + 1) le_rfl) hmac hmac' with
      ⟨-, -, hvouched, hbefore⟩ | hcollides
    · have hbelow := ih (fun j hj => hkeys j (Nat.le_succ_of_le hj)) (code?_before hmac)
        (hbefore ▸ code?_before hmac')
      rcases hbelow with hagrees | ⟨j, hj, hcollides⟩
      · exact .inl (hagrees.succ hvouched)
      · exact .inr ⟨j, Nat.le_succ_of_le hj, hcollides⟩
    · exact .inr ⟨k + 1, le_rfl, hcollides⟩

/-- The case of a segment of two hops in construction order and one of three hops against it, which
begins with the same two hops. -/
theorem agreesUpTo_or_collides_of_common_start :
    let hop (ingress egress : UInt16) : HopField := ⟨HopFlags.none, 63, ingress, egress, Mac.zero⟩
    let key : ForwardingKey := ForwardingKey.zero
    let info : InfoField := ⟨InfoFlags.alongConstruction, 7, 1000⟩
    let short : Segment := ⟨info, [hop 0 1, hop 2 3]⟩
    let long : Segment := ⟨info, [hop 0 1, hop 2 3, hop 4 0]⟩
    let c : CheckedSegment := ⟨short.signed [key, key] .none, [key, key], .none⟩
    let d : CheckedSegment := ⟨(long.signed [key, key, key] .none).reversed, [key, key, key], .none⟩
    c.Accepted ∧ d.Accepted ∧ (∀ j ≤ 1, c.key? j = d.key? j) ∧
      (∃ mac, c.code? 1 = some mac ∧ d.code? 1 = some mac) ∧
      (c.AgreesUpTo d 1 ∨ ∃ j ≤ 1, c.Collides d j) := by
  intro hop key info short long c d
  have hc : c.Accepted := Segment.firstBadMac?_signed (s := short) rfl .none
  have hd : d.Accepted := by
    have hcount : [key, key, key].length = long.size := rfl
    have hturned : (long.signed [key, key, key] .none).reversed =
        long.reversed.signed [key, key, key] .none :=
      (Segment.signed_reversed hcount fun k _ => by
        simp [OuterSeeds.seedAt, OuterSeeds.none]).symm
    change Segment.firstBadMac? _ _ _ = none
    simp only [d, hturned]
    exact Segment.firstBadMac?_signed rfl .none
  have hkeys : ∀ j ≤ 1, c.key? j = d.key? j := by
    dsimp only [c, d, short, long, info, key, hop]
    intro j hj
    obtain rfl | rfl : j = 0 ∨ j = 1 := by omega
    · rfl
    · rfl
  -- both chains begin with the same two hops, so their codes are the same terms
  obtain ⟨mac, hmac, hmac'⟩ : ∃ mac, c.code? 1 = some mac ∧ d.code? 1 = some mac := by
    dsimp only [c, d, short, long, info, key, hop]
    exact ⟨_, rfl, rfl⟩
  exact ⟨hc, hd, hkeys, ⟨mac, hmac, hmac'⟩, agreesUpTo_or_collides hc hd hkeys hmac hmac'⟩

end CheckedSegment

end SourceRoute
