import SourceRoute.Auth.Chain
import SourceRoute.Proofs.CurrentLaws

/-!
# Laws of chains of codes

Signing works through the hops of a segment in construction order, each code computed over the one
before it.  Put back into the order of the visit, every hop carries the code of its own block, chained
to the hop that `chainBefore` names, which is the hop that a node looks at.
-/

namespace SourceRoute

namespace Segment

/-! ## Construction order -/

/-- The place in construction order of hop `k` of `n`. -/
def constructionIndex (consDir : Bool) (n k : Nat) : Nat := if consDir then k else n - 1 - k

section

variable {α β : Type}

@[simp] theorem length_orient (consDir : Bool) (l : List α) :
    (orient consDir l).length = l.length := by
  cases consDir <;> simp [orient]

@[simp] theorem orient_orient (consDir : Bool) (l : List α) :
    orient consDir (orient consDir l) = l := by
  cases consDir <;> simp [orient]

theorem getElem?_orient (consDir : Bool) {l : List α} {k : Nat} (hk : k < l.length) :
    (orient consDir l)[constructionIndex consDir l.length k]? = l[k]? := by
  cases consDir with
  | true => rfl
  | false =>
    -- against the construction order, counting from the back twice gives the index again
    have hindex : l.length - 1 - (l.length - 1 - k) = k := by omega
    simp only [orient, constructionIndex, Bool.false_eq_true, if_false]
    rw [List.getElem?_reverse (by omega), hindex]

end

end Segment

/-! ## Signing slots -/

namespace ChainSlot

/-- The code that hop `j` of a chain is chained to, for hops in construction order. -/
def codeBefore (chain : Mac) (hops : List HopField) : Nat → Mac
  | 0 => chain
  | j + 1 => (hops[j]?.map HopField.mac).getD Mac.zero

@[simp] theorem length_sign (info : InfoField) (chain : Mac) (slots : List ChainSlot) :
    (sign info chain slots).length = slots.length := by
  induction slots generalizing chain with
  | nil => rfl
  | cons slot slots ih => simp [sign, ih]

/-- A chain that goes on behind its first hop is chained to the code of that hop. -/
theorem codeBefore_succ (chain : Mac) (hop : HopField) (hops : List HopField) (j : Nat) :
    codeBefore chain (hop :: hops) (j + 1) = codeBefore hop.mac hops j := by
  cases j <;> rfl

theorem getElem?_sign (info : InfoField) (chain : Mac) {slots : List ChainSlot} {slot : ChainSlot}
    {j : Nat} (hslot : slots[j]? = some slot) :
    (sign info chain slots)[j]? = some { slot.hop with
      mac := slot.expected info (codeBefore chain (sign info chain slots) j) } := by
  -- the code of the first hop is what the rest of the chain starts from
  induction slots generalizing chain j with
  | nil => simp at hslot
  | cons first slots ih =>
    cases j with
    | zero =>
      obtain rfl : first = slot := by simpa using hslot
      rfl
    | succ j =>
      rw [List.getElem?_cons_succ] at hslot
      rw [sign, List.getElem?_cons_succ, ih _ hslot, codeBefore_succ]

end ChainSlot

/-! ## Signed segments -/

namespace Segment

variable {s : Segment} {keys : List ForwardingKey} {k : Nat}

/-- The hop before in construction order is the one before in the oriented list of hops. -/
theorem chainBefore_eq_codeBefore (hk : k < s.size) :
    s.chainBefore k = ChainSlot.codeBefore Mac.zero (orient s.info.flags.consDir s.hops)
      (constructionIndex s.info.flags.consDir s.size k) := by
  rw [chainBefore]
  cases s.info.flags.consDir with
  | true =>
    cases k with
    | zero => rfl
    | succ k => rfl
  | false =>
    simp only [orient, constructionIndex, Bool.false_eq_true, if_false, size]
    -- the hop behind in the visit is the one before in construction order
    by_cases hlast : k + 1 < s.hops.length
    · have hindex : s.hops.length - 1 - k = s.hops.length - 1 - (k + 1) + 1 := by omega
      have hback : s.hops.length - 1 - (s.hops.length - 1 - (k + 1)) = k + 1 := by omega
      rw [hindex, ChainSlot.codeBefore, List.getElem?_reverse (by omega), hback]
    · have hfirst : s.hops.length - 1 - k = 0 := by omega
      rw [hfirst, ChainSlot.codeBefore, List.getElem?_eq_none (Nat.le_of_not_lt hlast)]
      rfl

theorem length_slots (hkeys : keys.length = s.size) (seeds : OuterSeeds) :
    (s.slots keys seeds).length = s.size := by
  have hlength : keys.length = s.hops.length := hkeys
  rw [slots, List.length_mapIdx, List.length_zip, hlength, Nat.min_self]
  rfl

theorem getElem?_slots {hop : HopField} {key : ForwardingKey} (hhop : s.hops[k]? = some hop)
    (hkey : keys[k]? = some key) (seeds : OuterSeeds) :
    (s.slots keys seeds)[k]? = some ⟨k, hop, key, seeds.seedAt k s.size⟩ := by
  have hzip : (s.hops.zip keys)[k]? = some (hop, key) := by
    rw [List.getElem?_zip_eq_some]
    exact ⟨hhop, hkey⟩
  rw [slots, List.getElem?_mapIdx, hzip]
  rfl

theorem size_signed (hkeys : keys.length = s.size) (seeds : OuterSeeds) :
    (s.signed keys seeds).size = s.size := by
  simp only [size, signed, length_orient, ChainSlot.length_sign]
  exact length_slots hkeys seeds

/-- Every hop of a signed segment carries the code of its block. -/
theorem getElem?_hops_signed (hkeys : keys.length = s.size) {hop : HopField} {key : ForwardingKey}
    (hhop : s.hops[k]? = some hop) (hkey : keys[k]? = some key) (seeds : OuterSeeds) :
    (s.signed keys seeds).hops[k]? = some { hop with
      mac := key.hopMac s.info hop ((s.signed keys seeds).chainBefore k)
        (seeds.seedAt k s.size) } := by
  have hk : k < s.size := (List.getElem?_eq_some_iff.mp hhop).1
  have hsize := size_signed hkeys seeds
  have hslots := length_slots hkeys seeds
  have hslot := getElem?_slots hhop hkey seeds
  -- the slot in construction order, signed there, and read back in the order of the visit
  rw [← getElem?_orient s.info.flags.consDir (by rwa [hslots]), hslots] at hslot
  have hsigned := ChainSlot.getElem?_sign s.info Mac.zero hslot
  have horiented : orient s.info.flags.consDir (s.signed keys seeds).hops =
      ChainSlot.sign s.info Mac.zero (orient s.info.flags.consDir (s.slots keys seeds)) :=
    orient_orient _ _
  have hchain := chainBefore_eq_codeBefore (s := s.signed keys seeds) (k := k) (by rwa [hsize])
  have hinfo : (s.signed keys seeds).info = s.info := rfl
  rw [hinfo, horiented, hsize] at hchain
  have hread := getElem?_orient s.info.flags.consDir (l := (s.signed keys seeds).hops) (k := k)
    (by change k < (s.signed keys seeds).size; rwa [hsize])
  have hlength : (s.signed keys seeds).hops.length = s.size := hsize
  rw [horiented, hlength] at hread
  rw [← hread, hsigned, hchain]
  rfl

end Segment

end SourceRoute
