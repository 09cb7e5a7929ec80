import SourceRoute.Proofs.IdentifierGrammar

/-!
# The text of AS identifiers

Printing an identifier gives one text of the grammar: rows of digits without padding, decimal for a
small AS number and three hexadecimal groups for a large one.  A text of the grammar is read back,
so no two identifiers have the same text.
-/

namespace SourceRoute.IsdAs

open Text.Numeral (Canonical Denotes canonical_toDigits)

/-! ## Printing -/

/-- The text of an AS number: decimal if it has 32 bits, else three groups of 16 bits each.  No
number in it is padded. -/
inductive PrintsAsn : List Char → Nat → Prop
  | decimal {text : List Char} {n : Nat} (hnumber : Canonical 10 text n) (hle : n < 2 ^ 32) :
      PrintsAsn text n
  | groups {high middle low : List Char} {h m l : Nat} (hhigh : Canonical 16 high h)
      (hmiddle : Canonical 16 middle m) (hlow : Canonical 16 low l)
      (hlt : h < 2 ^ 16 ∧ m < 2 ^ 16 ∧ l < 2 ^ 16)
      (hlarge : 2 ^ 32 ≤ h * 2 ^ 32 + m * 2 ^ 16 + l) :
      PrintsAsn (high ++ ':' :: (middle ++ ':' :: low)) (h * 2 ^ 32 + m * 2 ^ 16 + l)

/-- The text of an identifier: its domain in decimal, a dash and its AS number. -/
def Prints (text : List Char) (a : IsdAs) : Prop :=
  ∃ domain number, text = domain ++ '-' :: number ∧ Canonical 10 domain a.isd.toNat ∧
    PrintsAsn number a.asn.toNat

theorem group_lt (n shift : Nat) : group n shift < 2 ^ 16 := Nat.mod_lt _ (by decide)

/-- A number of 48 bits is put together from its groups. -/
theorem groups_eq {n : Nat} (h : n < 2 ^ 48) :
    group n 32 * 2 ^ 32 + group n 16 * 2 ^ 16 + group n 0 = n := by
  simp only [group, Nat.shiftRight_eq_div_pow]
  omega

theorem printsAsn_asnText {n : Nat} (h : n < 2 ^ 48) : PrintsAsn (asnText n) n := by
  rw [asnText]
  split
  next hsmall =>
    exact .decimal (canonical_toDigits (by decide) (by decide) n) (Nat.lt_succ_of_le hsmall)
  next hlarge =>
    -- a number of more than 32 bits is the sum of its groups
    have hgroups := groups_eq h
    have hprints : PrintsAsn _ (group n 32 * 2 ^ 32 + group n 16 * 2 ^ 16 + group n 0) :=
      .groups (canonical_toDigits (by decide) (by decide) _)
        (canonical_toDigits (by decide) (by decide) _)
        (canonical_toDigits (by decide) (by decide) _)
        ⟨group_lt n 32, group_lt n 16, group_lt n 0⟩ (by
          rw [hgroups]
          exact Nat.lt_of_not_le hlarge)
    rw [hgroups] at hprints
    simpa [Text.Numeral.hex] using hprints

theorem prints_text (a : IsdAs) : Prints a.text a :=
  ⟨Text.Numeral.decimal a.isd.toNat, asnText a.asn.toNat, by simp [text],
    canonical_toDigits (by decide) (by decide) _, printsAsn_asnText a.asn_lt⟩

/-! ## Reading back -/

section

variable {text : List Char} {n : Nat}

/-- A group of 16 bits has at most four digits. -/
theorem writesGroup_of_canonical (h : Canonical 16 text n) (hlt : n < 2 ^ 16) :
    WritesGroup Denotes text n :=
  ⟨h.denotes, h.length_le (by decide) (by decide) hlt⟩

theorem PrintsAsn.writes (h : PrintsAsn text n) : WritesAsn Denotes text n := by
  cases h with
  | decimal hnumber hlt => exact .decimal hnumber.denotes (Nat.le_of_lt_succ hlt)
  | groups hhigh hmiddle hlow hlt _ =>
    exact .groups (writesGroup_of_canonical hhigh hlt.1)
      (writesGroup_of_canonical hmiddle hlt.2.1) (writesGroup_of_canonical hlow hlt.2.2)

theorem read_of_prints {a : IsdAs} (h : Prints text a) : read text = .ok a := by
  obtain ⟨domain, number, rfl, hdomain, hnumber⟩ := h
  have hdash : '-' ∉ domain := hdomain.denotes.notMem (by decide)
  have hisd : WritesIsd Denotes domain a.isd.toNat := ⟨hdomain.denotes, a.isd_le⟩
  -- digits without a sign are read in either grammar
  exact read_eq_iff.mpr (.ok ⟨hdash, rfl⟩ (writesIsd_denotes_iff.mp hisd).1
    (writesAsn_denotes_iff.mp hnumber.writes).1)

end

/-! ## Strings -/

/-- The text of an identifier has the notation that its AS number calls for and is read back as the
identifier, so different identifiers have different texts. -/
theorem ofString_toString (a : IsdAs) :
    ofString (toString a) = .ok a ∧ Prints (toString a).toList a ∧
      ∀ b : IsdAs, toString b = toString a → b = a := by
  have hprints (c : IsdAs) : Prints (toString c).toList c := by
    show Prints (String.ofList c.text).toList c
    rw [String.toList_ofList]
    exact prints_text c
  have hread (c : IsdAs) : ofString (toString c) = .ok c := read_of_prints (hprints c)
  refine ⟨hread a, hprints a, ?_⟩
  -- a text is read as one identifier
  intro b hsame
  have hb := hread b
  rw [hsame, hread a] at hb
  exact (Except.ok.inj hb).symm

example : toString (ofParts 1 0xff0000000110) = "1-ff00:0:110" := by decide

end SourceRoute.IsdAs
