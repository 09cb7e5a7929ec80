import SourceRoute.IsdAs
import SourceRoute.Proofs.TextLaws

/-!
# The grammar of AS identifiers

An identifier is written as a domain, a dash and an AS number.  `Answers` says for every text what
reading should give, whichever way numbers are written.  Reading follows it where a number may carry
a plus sign.  Where a number is a row of digits only, reading follows it up to the texts in which a
plus sign counts, and these are named exactly.
-/

namespace SourceRoute.IsdAs

open Text.Numeral (Denotes DenotesSigned)

/-! ## Parts -/

section Parts

variable {a b : IsdAs}

theorem toNat_isd (a : IsdAs) : a.isd.toNat = a.raw.toNat / 2 ^ 48 := by
  have hlt : a.raw.toNat / 2 ^ 48 < 2 ^ 16 := by
    have hraw := a.raw.toNat_lt
    omega
  rw [isd, UInt64.toNat_toUInt16, UInt64.toNat_shiftRight, Nat.shiftRight_eq_div_pow]
  exact Nat.mod_eq_of_lt hlt

theorem toNat_asn (a : IsdAs) : a.asn.toNat = a.raw.toNat % 2 ^ 48 := by
  rw [asn, UInt64.toNat_and]
  exact Nat.and_two_pow_sub_one_eq_mod a.raw.toNat 48

theorem isd_le (a : IsdAs) : a.isd.toNat ≤ maxIsd := Nat.le_of_lt_succ a.isd.toNat_lt

theorem asn_lt (a : IsdAs) : a.asn.toNat < 2 ^ 48 := by
  rw [toNat_asn]
  exact Nat.mod_lt _ (by decide)

/-- An identifier is its two parts. -/
theorem eq_of_parts (hisd : a.isd.toNat = b.isd.toNat) (hasn : a.asn.toNat = b.asn.toNat) :
    a = b := by
  rw [toNat_isd, toNat_isd] at hisd
  rw [toNat_asn, toNat_asn] at hasn
  have hraw : a.raw.toNat = b.raw.toNat := by omega
  calc a = ⟨a.raw⟩ := rfl
    _ = ⟨b.raw⟩ := by rw [UInt64.toNat_inj.mp hraw]
    _ = b := rfl

theorem toNat_raw_ofParts (isd : UInt16) (asn : UInt64) :
    (ofParts isd asn).raw.toNat = isd.toNat * 2 ^ 48 + asn.toNat % 2 ^ 48 := by
  have hmask : (asn &&& asnMask).toNat = asn.toNat % 2 ^ 48 := toNat_asn ⟨asn⟩
  have hisd := isd.toNat_lt
  have hshift : (isd.toUInt64 <<< 48).toNat = isd.toNat <<< 48 := by
    rw [UInt64.toNat_shiftLeft, UInt16.toNat_toUInt64]
    apply Nat.mod_eq_of_lt
    show isd.toNat <<< 48 < _
    rw [Nat.shiftLeft_eq]
    omega
  -- the parts have no bit in common, so putting them together adds them
  rw [ofParts, UInt64.toNat_or, hshift, hmask,
    ← Nat.shiftLeft_add_eq_or_of_lt (Nat.mod_lt _ (by decide)), Nat.shiftLeft_eq]

theorem isd_ofParts {isd : Nat} (hisd : isd ≤ maxIsd) (asn : UInt64) :
    (ofParts (UInt16.ofNat isd) asn).isd.toNat = isd := by
  have hmax : isd < 2 ^ 16 := Nat.lt_succ_of_le hisd
  rw [toNat_isd, toNat_raw_ofParts, UInt16.toNat_ofNat_of_lt' hmax]
  omega

theorem asn_ofParts (isd : UInt16) {asn : Nat} (hasn : asn < 2 ^ 48) :
    (ofParts isd (UInt64.ofNat asn)).asn.toNat = asn := by
  have hlt : asn < 2 ^ 64 := by omega
  rw [toNat_asn, toNat_raw_ofParts, UInt64.toNat_ofNat_of_lt' hlt]
  omega

end Parts

/-! ## How identifiers are written -/

section

variable (numeral : Nat → List Char → Nat → Prop)

/-- A domain is a decimal number of 16 bits. -/
def WritesIsd (text : List Char) (n : Nat) : Prop := numeral 10 text n ∧ n ≤ maxIsd

/-- A group is a hexadecimal number of at most four characters. -/
def WritesGroup (text : List Char) (n : Nat) : Prop := numeral 16 text n ∧ text.length ≤ 4

/-- An AS number is a decimal number of 32 bits or three groups between colons. -/
inductive WritesAsn : List Char → Nat → Prop
  | decimal {text : List Char} {n : Nat} (hnumber : numeral 10 text n) (hle : n ≤ maxDecimalAsn) :
      WritesAsn text n
  | groups {high middle low : List Char} {h m l : Nat} (hhigh : WritesGroup numeral high h)
      (hmiddle : WritesGroup numeral middle m) (hlow : WritesGroup numeral low l) :
      WritesAsn (high ++ ':' :: (middle ++ ':' :: low)) (h * 2 ^ 32 + m * 2 ^ 16 + l)

/-- A text is cut at its first dash. -/
def CutAtDash (text domain number : List Char) : Prop :=
  '-' ∉ domain ∧ text = domain ++ '-' :: number

/-- What reading a text should give.  The domain is looked at before the AS number. -/
inductive Answers (text : List Char) : Except AddressFault IsdAs → Prop
  | noDash (h : '-' ∉ text) : Answers text (.error (.noDash (String.ofList text)))
  | badDomain {domain number : List Char} (hcut : CutAtDash text domain number)
      (hisd : ¬∃ isd, WritesIsd numeral domain isd) :
      Answers text (.error (.badDomain (String.ofList domain)))
  | badNumber {domain number : List Char} (hcut : CutAtDash text domain number)
      (hisd : ∃ isd, WritesIsd numeral domain isd)
      (hasn : ¬∃ asn, WritesAsn numeral number asn) :
      Answers text (.error (.badNumber (String.ofList number)))
  | ok {domain number : List Char} {a : IsdAs} (hcut : CutAtDash text domain number)
      (hisd : WritesIsd numeral domain a.isd.toNat)
      (hasn : WritesAsn numeral number a.asn.toNat) : Answers text (.ok a)

end

section

variable {text domain number : List Char} {n : Nat}

theorem cut?_eq_some_iff_cutAtDash :
    Text.cut? '-' text = some (domain, number) ↔ CutAtDash text domain number :=
  Text.cut?_eq_some_iff

/-! ## Reading -/

theorem readGroup?_eq_some_iff :
    readGroup? text = some n ↔ WritesGroup DenotesSigned text n := by
  rw [readGroup?, WritesGroup, Option.ite_none_right_eq_some, Text.Numeral.read?_eq_some_iff,
    and_comm]

theorem WritesGroup.lt (h : WritesGroup DenotesSigned text n) : n < 2 ^ 16 := by
  have hdigits {digits : List Char} (hlength : digits.length ≤ 4) (hn : Denotes 16 digits n) :
      n < 2 ^ 16 :=
    calc n < 16 ^ digits.length := hn.lt_pow (by decide)
      _ ≤ 16 ^ 4 := Nat.pow_le_pow_right (by decide) hlength
  -- a plus sign takes the place of one of the four characters
  obtain ⟨hn | ⟨digits, rfl, hn⟩, hlength⟩ := h
  · exact hdigits hlength hn
  · exact hdigits (Nat.le_of_succ_le hlength) hn

theorem WritesAsn.lt (h : WritesAsn DenotesSigned text n) : n < 2 ^ 48 := by
  cases h with
  | decimal _ hle =>
    have hmax : maxDecimalAsn < 2 ^ 48 := by decide
    omega
  | groups hhigh hmiddle hlow =>
    have hh := hhigh.lt
    have hm := hmiddle.lt
    have hl := hlow.lt
    omega

theorem readAsn?_eq_some_iff : readAsn? text = some n ↔ WritesAsn DenotesSigned text n := by
  -- no number has a colon in it, so colons tell the two notations apart
  have hcolon {radix m : Nat} {numeral : List Char} (h : DenotesSigned radix numeral m) :
      ':' ∉ numeral := h.notMem (by decide) (by decide)
  constructor
  · intro hread
    rw [readAsn?] at hread
    split at hread
    next =>
      split at hread
      next high middle low hfields =>
        obtain ⟨-, rfl⟩ := Text.fields_eq_triple_iff.mp hfields
        split at hread
        next h m l hhigh hmiddle hlow =>
          rw [readGroup?_eq_some_iff] at hhigh hmiddle hlow
          obtain rfl := Option.some.inj hread
          -- the groups are shifted in one after the other
          have hvalue : (h * 0x10000 + m) * 0x10000 + l = h * 2 ^ 32 + m * 2 ^ 16 + l := by omega
          rw [hvalue]
          exact .groups hhigh hmiddle hlow
        next => exact absurd hread (by simp)
      next => exact absurd hread (by simp)
    next =>
      obtain ⟨hnumber, hle⟩ := Text.Numeral.readUpTo?_eq_some_iff.mp hread
      exact .decimal hnumber hle
  · intro hwrites
    cases hwrites with
    | decimal hnumber hle =>
      rw [readAsn?, if_neg (hcolon hnumber)]
      exact Text.Numeral.readUpTo?_eq_some_iff.mpr ⟨hnumber, hle⟩
    | @groups high middle low h m l hhigh hmiddle hlow =>
      have hfields : Text.fields ':' (high ++ ':' :: (middle ++ ':' :: low)) =
          [high, middle, low] :=
        Text.fields_eq_triple_iff.mpr ⟨⟨hcolon hhigh.1, hcolon hmiddle.1, hcolon hlow.1⟩, rfl⟩
      rw [readAsn?, if_pos (by simp), hfields]
      simp only [readGroup?_eq_some_iff.mpr hhigh, readGroup?_eq_some_iff.mpr hmiddle,
        readGroup?_eq_some_iff.mpr hlow, Option.some.injEq]
      omega

theorem readIsd?_eq_some_iff :
    Text.Numeral.readUpTo? 10 maxIsd text = some n ↔ WritesIsd DenotesSigned text n :=
  Text.Numeral.readUpTo?_eq_some_iff

private theorem not_exists_of_eq_none {f : Option Nat} {writes : Nat → Prop}
    (hiff : ∀ n, f = some n ↔ writes n) : f = none ↔ ¬∃ n, writes n := by
  simp only [← hiff, Option.eq_none_iff_forall_ne_some, not_exists, ne_eq]

/-- Reading a text gives the one answer of the grammar in which a number may carry a plus sign. -/
theorem read_eq_iff {answer : Except AddressFault IsdAs} :
    read text = answer ↔ Answers DenotesSigned text answer := by
  constructor
  · -- the reader makes its checks in the order of the answers
    rintro rfl
    rw [read]
    split
    next hcut => exact .noDash (Text.cut?_eq_none_iff.mp hcut)
    next domain number hcut =>
      rw [cut?_eq_some_iff_cutAtDash] at hcut
      split
      next hisd =>
        exact .badDomain hcut ((not_exists_of_eq_none fun _ => readIsd?_eq_some_iff).mp hisd)
      next isd hisd =>
        rw [readIsd?_eq_some_iff] at hisd
        split
        next hasn =>
          exact .badNumber hcut ⟨isd, hisd⟩
            ((not_exists_of_eq_none fun _ => readAsn?_eq_some_iff).mp hasn)
        next asn hasn =>
          rw [readAsn?_eq_some_iff] at hasn
          refine .ok hcut ?_ ?_
          · rwa [isd_ofParts hisd.2]
          · rwa [asn_ofParts _ hasn.lt]
  · -- an answer says how all checks before it came out
    intro hanswer
    cases hanswer with
    | noDash h => rw [read, Text.cut?_eq_none_iff.mpr h]
    | badDomain hcut hisd =>
      have hnone := (not_exists_of_eq_none fun _ => readIsd?_eq_some_iff).mpr hisd
      rw [read, cut?_eq_some_iff_cutAtDash.mpr hcut]
      simp only [hnone]
    | badNumber hcut hisd hasn =>
      obtain ⟨isd, hisd⟩ := hisd
      have hnone := (not_exists_of_eq_none fun _ => readAsn?_eq_some_iff).mpr hasn
      rw [read, cut?_eq_some_iff_cutAtDash.mpr hcut]
      simp only [readIsd?_eq_some_iff.mpr hisd, hnone]
    | @ok _ _ a hcut hisd hasn =>
      rw [read, cut?_eq_some_iff_cutAtDash.mpr hcut]
      simp only [readIsd?_eq_some_iff.mpr hisd, readAsn?_eq_some_iff.mpr hasn, Except.ok.injEq]
      exact eq_of_parts (isd_ofParts a.isd_le _) (asn_ofParts _ a.asn_lt)

/-! ## Plus signs -/

theorem WritesAsn.imp {numeral numeral' : Nat → List Char → Nat → Prop}
    (himp : ∀ radix part m, (∀ c ∈ part, c ∈ text) → numeral radix part m → numeral' radix part m)
    (h : WritesAsn numeral text n) : WritesAsn numeral' text n := by
  cases h with
  | decimal hnumber hle => exact .decimal (himp _ _ _ (fun _ hc => hc) hnumber) hle
  | groups hhigh hmiddle hlow =>
    refine .groups ⟨himp _ _ _ ?_ hhigh.1, hhigh.2⟩ ⟨himp _ _ _ ?_ hmiddle.1, hmiddle.2⟩
      ⟨himp _ _ _ ?_ hlow.1, hlow.2⟩
    -- the characters of a group are characters of the text
    all_goals
      intro c hc
      simp [hc]

theorem writesAsn_denotes_iff :
    WritesAsn Denotes text n ↔ WritesAsn DenotesSigned text n ∧ '+' ∉ text := by
  constructor
  · intro h
    refine ⟨h.imp fun _ _ _ _ hn => .inl hn, ?_⟩
    -- neither a digit nor a colon is a plus sign
    have hdigits {radix m : Nat} {part : List Char} (hm : Denotes radix part m) : '+' ∉ part :=
      hm.notMem (by decide)
    cases h with
    | decimal hnumber _ => exact hdigits hnumber
    | groups hhigh hmiddle hlow =>
      simp [hdigits hhigh.1, hdigits hmiddle.1, hdigits hlow.1]
  · rintro ⟨h, hsign⟩
    apply h.imp
    intro radix part m hpart hm
    exact (Text.Numeral.denotesSigned_iff_of_notMem fun hc => hsign (hpart _ hc)).mp hm

theorem writesIsd_denotes_iff :
    WritesIsd Denotes text n ↔ WritesIsd DenotesSigned text n ∧ '+' ∉ text := by
  constructor
  · rintro ⟨hn, hle⟩
    exact ⟨⟨.inl hn, hle⟩, hn.notMem (by decide)⟩
  · rintro ⟨⟨hn, hle⟩, hsign⟩
    exact ⟨(Text.Numeral.denotesSigned_iff_of_notMem hsign).mp hn, hle⟩

/-- The plus sign of a number decides what the text gives: the domain carries one, or the domain
is fine and the AS number carries one. -/
def CountsSign (text : List Char) : Prop :=
  ∃ domain number, CutAtDash text domain number ∧ (∃ isd, WritesIsd DenotesSigned domain isd) ∧
    ('+' ∈ domain ∨ '+' ∈ number ∧ ∃ asn, WritesAsn DenotesSigned number asn)

/-- Texts whose parts are written in both ways or in neither have the same answers. -/
private theorem Answers.congr {numeral numeral' : Nat → List Char → Nat → Prop}
    {answer : Except AddressFault IsdAs} (h : Answers numeral text answer)
    (hisds : ∀ domain number, CutAtDash text domain number →
      ∀ n, WritesIsd numeral domain n ↔ WritesIsd numeral' domain n)
    (hasns : ∀ domain number, CutAtDash text domain number →
      (∃ n, WritesIsd numeral domain n) →
        ∀ n, WritesAsn numeral number n ↔ WritesAsn numeral' number n) :
    Answers numeral' text answer := by
  cases h with
  | noDash h => exact .noDash h
  | badDomain hcut hisd =>
    refine .badDomain hcut ?_
    simpa only [hisds _ _ hcut] using hisd
  | badNumber hcut hisd hasn =>
    refine .badNumber hcut ?_ ?_
    · simpa only [hisds _ _ hcut] using hisd
    · simpa only [hasns _ _ hcut hisd] using hasn
  | ok hcut hisd hasn =>
    exact .ok hcut ((hisds _ _ hcut _).mp hisd) ((hasns _ _ hcut ⟨_, hisd⟩ _).mp hasn)

theorem answers_denotes_iff {answer : Except AddressFault IsdAs} (h : ¬CountsSign text) :
    Answers Denotes text answer ↔ Answers DenotesSigned text answer := by
  -- a plus sign in a domain that is read would count
  have hisds (domain number : List Char) (hcut : CutAtDash text domain number) (n : Nat) :
      WritesIsd Denotes domain n ↔ WritesIsd DenotesSigned domain n := by
    rw [writesIsd_denotes_iff, and_iff_left_iff_imp]
    intro hisd hsign
    exact h ⟨domain, number, hcut, ⟨n, hisd⟩, .inl hsign⟩
  -- behind such a domain, so would one in an AS number that is read
  have hasns (domain number : List Char) (hcut : CutAtDash text domain number)
      (hisd : ∃ isd, WritesIsd DenotesSigned domain isd) (n : Nat) :
      WritesAsn Denotes number n ↔ WritesAsn DenotesSigned number n := by
    rw [writesAsn_denotes_iff, and_iff_left_iff_imp]
    intro hasn hsign
    exact h ⟨domain, number, hcut, hisd, .inr ⟨hsign, n, hasn⟩⟩
  constructor
  · intro hanswer
    refine hanswer.congr hisds fun domain number hcut hisd => hasns domain number hcut ?_
    simpa only [hisds _ _ hcut] using hisd
  · intro hanswer
    exact hanswer.congr (fun domain number hcut n => (hisds domain number hcut n).symm)
      fun domain number hcut hisd n => (hasns domain number hcut hisd n).symm

theorem exists_read_eq_ok {isd asn : Nat} (hcut : CutAtDash text domain number)
    (hisd : WritesIsd DenotesSigned domain isd) (hasn : WritesAsn DenotesSigned number asn) :
    ∃ a, read text = .ok a := by
  refine ⟨ofParts (UInt16.ofNat isd) (UInt64.ofNat asn), read_eq_iff.mpr (.ok hcut ?_ ?_)⟩
  · rwa [isd_ofParts hisd.2]
  · rwa [asn_ofParts _ hasn.lt]

/-- Where a plus sign counts, the grammar without signs has an answer that reading does not give. -/
theorem exists_answer_ne_of_countsSign (h : CountsSign text) :
    ∃ answer, Answers Denotes text answer ∧ read text ≠ answer := by
  obtain ⟨domain, number, hcut, ⟨isd, hisd⟩, hsign⟩ := h
  by_cases hdomain : '+' ∈ domain
  · refine ⟨_, .badDomain hcut ?_, ?_⟩
    · rintro ⟨n, hn⟩
      exact (writesIsd_denotes_iff.mp hn).2 hdomain
    · -- behind a domain that is read only the AS number can be refused
      by_cases hasn : ∃ asn, WritesAsn DenotesSigned number asn
      · obtain ⟨asn, hasn⟩ := hasn
        obtain ⟨a, hok⟩ := exists_read_eq_ok hcut hisd hasn
        simp [hok]
      · simp [read_eq_iff.mpr (.badNumber hcut ⟨isd, hisd⟩ hasn)]
  · -- the domain is fine either way, the AS number only with its sign
    obtain ⟨hnumber, asn, hasn⟩ := hsign.resolve_left hdomain
    obtain ⟨a, hok⟩ := exists_read_eq_ok hcut hisd hasn
    refine ⟨_, .badNumber hcut ⟨isd, writesIsd_denotes_iff.mpr ⟨hisd, hdomain⟩⟩ ?_, ?_⟩
    · rintro ⟨n, hn⟩
      exact (writesAsn_denotes_iff.mp hn).2 hnumber
    · simp [hok]

end

/-! ## Strings -/

/-- Reading a string gives the one answer of the grammar in which a number may carry a plus sign.
It is also the one answer of the grammar of bare digits, for exactly those strings in which no plus
sign counts. -/
theorem ofString_exact (s : String) :
    (∀ answer, ofString s = answer ↔ Answers DenotesSigned s.toList answer) ∧
      ((∀ answer, ofString s = answer ↔ Answers Denotes s.toList answer) ↔
        ¬CountsSign s.toList) := by
  refine ⟨fun answer => read_eq_iff, ?_⟩
  constructor
  · intro hexact hcounts
    obtain ⟨answer, hanswer, hne⟩ := exists_answer_ne_of_countsSign hcounts
    exact hne ((hexact answer).mpr hanswer)
  · intro hcounts answer
    rw [answers_denotes_iff hcounts]
    exact read_eq_iff

/-- A domain with a plus sign is read, although its text is no row of digits. -/
theorem ofString_of_plus_sign :
    ofString "+1-1" = .ok (ofParts 1 1) ∧
      Answers Denotes "+1-1".toList (.error (.badDomain "+1")) := by
  have hcut : CutAtDash "+1-1".toList ['+', '1'] ['1'] := ⟨by decide, by decide⟩
  refine ⟨by decide, .badDomain hcut ?_⟩
  rintro ⟨n, hn, -⟩
  exact hn.notMem (c := '+') (by decide) List.mem_cons_self

end SourceRoute.IsdAs
