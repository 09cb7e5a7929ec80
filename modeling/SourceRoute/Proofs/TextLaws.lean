import Mathlib.Data.List.Forall2
import Mathlib.Data.Nat.Digits.Defs
import SourceRoute.Text.Fields
import SourceRoute.Text.Numeral

/-!
# Laws of text

Which number a row of digits stands for is said apart from reading it: `Denotes` goes by the places
of the digits, and `Canonical` picks the one row without padding.  Reading gives the number that the
digits stand for behind at most one plus sign, and printing gives the row without padding.
-/

namespace SourceRoute.Text

/-! ## Splitting -/

section

variable {sep : Char} {cs field rest : List Char}

theorem cut?_eq_none_iff : cut? sep cs = none ↔ sep ∉ cs := by
  induction cs with
  | nil => simp [cut?]
  | cons c cs ih =>
    by_cases h : c = sep
    · simp [cut?, h]
    · simp [cut?, h, ih, Ne.symm h]

theorem fields_of_notMem (h : sep ∉ cs) : fields sep cs = [cs] := by
  induction cs with
  | nil => rfl
  | cons c cs ih =>
    obtain ⟨hc, hcs⟩ := not_or.mp (List.mem_cons.not.mp h)
    simp only [fields, Ne.symm hc, if_false, ih hcs]

/-- Splitting peels off the first field. -/
theorem fields_append (h : sep ∉ field) :
    fields sep (field ++ sep :: rest) = field :: fields sep rest := by
  induction field with
  | nil => simp [fields]
  | cons c field ih =>
    obtain ⟨hc, hfield⟩ := not_or.mp (List.mem_cons.not.mp h)
    simp only [List.cons_append, fields, Ne.symm hc, if_false, ih hfield]

theorem fields_eq_singleton_iff : fields sep cs = [field] ↔ sep ∉ field ∧ cs = field := by
  constructor
  · intro h
    cases hcut : cut? sep cs with
    | none =>
      have hmem := cut?_eq_none_iff.mp hcut
      rw [fields_of_notMem hmem] at h
      obtain rfl := List.singleton_inj.mp h
      exact ⟨hmem, rfl⟩
    | some parts =>
      obtain ⟨left, right⟩ := parts
      obtain ⟨hleft, rfl⟩ := cut?_eq_some_iff.mp hcut
      rw [fields_append hleft] at h
      exact absurd (List.cons.inj h).2 (fields_ne_nil sep right)
  · rintro ⟨hmem, rfl⟩
    exact fields_of_notMem hmem

theorem fields_eq_cons_cons_iff {next : List Char} {others : List (List Char)} :
    fields sep cs = field :: next :: others ↔
      ∃ rest, sep ∉ field ∧ cs = field ++ sep :: rest ∧ fields sep rest = next :: others := by
  constructor
  · intro h
    cases hcut : cut? sep cs with
    | none =>
      rw [fields_of_notMem (cut?_eq_none_iff.mp hcut)] at h
      exact absurd (List.cons.inj h).2.symm (List.cons_ne_nil _ _)
    | some parts =>
      obtain ⟨left, right⟩ := parts
      obtain ⟨hleft, rfl⟩ := cut?_eq_some_iff.mp hcut
      rw [fields_append hleft] at h
      obtain ⟨rfl, hright⟩ := List.cons.inj h
      exact ⟨right, hleft, rfl, hright⟩
  · rintro ⟨rest, hmem, rfl, hrest⟩
    rw [fields_append hmem, hrest]

/-- A text has three fields if two separators stand between three texts without any. -/
theorem fields_eq_triple_iff {high middle low : List Char} :
    fields sep cs = [high, middle, low] ↔
      (sep ∉ high ∧ sep ∉ middle ∧ sep ∉ low) ∧
        cs = high ++ sep :: (middle ++ sep :: low) := by
  simp only [fields_eq_cons_cons_iff, fields_eq_singleton_iff]
  constructor
  · rintro ⟨_, hhigh, rfl, _, hmiddle, rfl, hlow, rfl⟩
    exact ⟨⟨hhigh, hmiddle, hlow⟩, rfl⟩
  · rintro ⟨⟨hhigh, hmiddle, hlow⟩, rfl⟩
    exact ⟨_, hhigh, rfl, _, hmiddle, rfl, hlow, rfl⟩

end

namespace Numeral

/-! ## Digits -/

/-- The character is a digit of the radix, a letter in either case, and has the given value. -/
def IsDigit (radix : Nat) (c : Char) (d : Nat) : Prop :=
  d < radix ∧ d < 16 ∧ (c = Nat.digitChar d ∨ c = (Nat.digitChar d).toUpper)

private theorem digitValue?_digitChar :
    ∀ d < 16, Hex.digitValue? (Nat.digitChar d) = some d ∧
      Hex.digitValue? (Nat.digitChar d).toUpper = some d := by
  decide

private theorem isAlphanum_digitChar :
    ∀ d < 16, (Nat.digitChar d).isAlphanum = true ∧ (Nat.digitChar d).toUpper.isAlphanum = true ∧
      (Nat.digitChar d).isUpper = false := by
  decide

/-- The letters that are digits, by their distance from the first of them. -/
private theorem digitChar_of_letter :
    ∀ k < 6, Nat.digitChar (k + 10) = Char.ofNat (k + 97) ∧
      (Nat.digitChar (k + 10)).toUpper = Char.ofNat (k + 65) := by
  decide

private theorem eq_digitChar_of_digitValue? {c : Char} {d : Nat}
    (h : Hex.digitValue? c = some d) :
    d < 16 ∧ (c = Nat.digitChar d ∨ c = (Nat.digitChar d).toUpper) := by
  -- three ranges of characters, each with its first character as zero or ten
  rw [Hex.digitValue?] at h
  split at h
  next hdecimal =>
    obtain rfl := Option.some.inj h
    have hlow : 48 ≤ c.toNat := hdecimal.1
    have hhigh : c.toNat ≤ 57 := hdecimal.2
    refine ⟨by omega, .inl (Char.toNat_inj.mp ?_)⟩
    rw [Nat.toNat_digitChar_of_lt_ten (by omega)]
    omega
  next =>
    split at h
    next hlower =>
      obtain rfl := Option.some.inj h
      have hlow : 97 ≤ c.toNat := hlower.1
      have hhigh : c.toNat ≤ 102 := hlower.2
      have hdigit := (digitChar_of_letter (c.toNat - 97) (by omega)).1
      rw [Nat.sub_add_cancel hlow, Char.ofNat_toNat] at hdigit
      have hvalue : c.toNat - 87 = c.toNat - 97 + 10 := by omega
      exact ⟨by omega, .inl (by rw [hvalue, hdigit])⟩
    next =>
      split at h
      next hupper =>
        obtain rfl := Option.some.inj h
        have hlow : 65 ≤ c.toNat := hupper.1
        have hhigh : c.toNat ≤ 70 := hupper.2
        have hdigit := (digitChar_of_letter (c.toNat - 65) (by omega)).2
        rw [Nat.sub_add_cancel hlow, Char.ofNat_toNat] at hdigit
        have hvalue : c.toNat - 55 = c.toNat - 65 + 10 := by omega
        exact ⟨by omega, .inr (by rw [hvalue, hdigit])⟩
      next => exact absurd h (by simp)

section

variable {radix d n : Nat} {c : Char} {text : List Char}

theorem digit?_eq_some_iff : digit? radix c = some d ↔ IsDigit radix c d := by
  rw [digit?, Option.filter_eq_some_iff, decide_eq_true_eq, IsDigit, and_comm]
  apply and_congr_right
  intro _
  constructor
  · exact eq_digitChar_of_digitValue?
  · rintro ⟨hd, rfl | rfl⟩
    · exact (digitValue?_digitChar d hd).1
    · exact (digitValue?_digitChar d hd).2

theorem IsDigit.isAlphanum (h : IsDigit radix c d) : c.isAlphanum = true := by
  obtain ⟨-, hd, rfl | rfl⟩ := h
  · exact (isAlphanum_digitChar d hd).1
  · exact (isAlphanum_digitChar d hd).2.1

/-! ## Rows of digits -/

/-- A row of one or more digits, most significant first, and the number that it stands for. -/
def Denotes (radix : Nat) (text : List Char) (n : Nat) : Prop :=
  text ≠ [] ∧ ∃ ds, List.Forall₂ (IsDigit radix) text ds ∧ Nat.ofDigits radix ds.reverse = n

/-- A row of digits behind at most one plus sign. -/
def DenotesSigned (radix : Nat) (text : List Char) (n : Nat) : Prop :=
  Denotes radix text n ∨ ∃ digits, text = '+' :: digits ∧ Denotes radix digits n

/-- Reading goes on where the digits read so far are worth `acc`. -/
theorem value?_eq_some_iff {acc : Nat} : value? radix text acc = some n ↔
    ∃ ds, List.Forall₂ (IsDigit radix) text ds ∧
      n = Nat.ofDigits radix ds.reverse + radix ^ ds.length * acc := by
  induction text generalizing acc with
  | nil =>
    simp [value?, eq_comm]
  | cons c text ih =>
    -- what was read before is shifted by one place for each digit that follows
    simp only [value?, Option.bind_eq_some_iff, digit?_eq_some_iff, ih,
      List.forall₂_cons_left_iff]
    constructor
    · rintro ⟨d, hd, ds, hds, rfl⟩
      refine ⟨d :: ds, ⟨d, ds, hd, hds, rfl⟩, ?_⟩
      rw [Nat.ofDigits_reverse_cons, List.length_cons]
      ring
    · rintro ⟨_, ⟨d, ds, hd, hds, rfl⟩, rfl⟩
      refine ⟨d, hd, ds, hds, ?_⟩
      rw [Nat.ofDigits_reverse_cons, List.length_cons]
      ring

theorem denotes_iff : Denotes radix text n ↔ text ≠ [] ∧ value? radix text 0 = some n := by
  simp only [Denotes, value?_eq_some_iff, Nat.mul_zero, Nat.add_zero, eq_comm (a := n)]

theorem Denotes.unique {m : Nat} (h : Denotes radix text n) (hm : Denotes radix text m) : n = m :=
  Option.some.inj ((denotes_iff.mp h).2.symm.trans (denotes_iff.mp hm).2)

private theorem forall_isDigit {ds : List Nat} (h : List.Forall₂ (IsDigit radix) text ds) :
    (∀ c ∈ text, c.isAlphanum = true) ∧ ∀ d ∈ ds, d < radix := by
  induction h with
  | nil => simp
  | cons hd _ ih =>
    exact ⟨List.forall_mem_cons.mpr ⟨hd.isAlphanum, ih.1⟩, List.forall_mem_cons.mpr ⟨hd.1, ih.2⟩⟩

theorem Denotes.notMem (h : Denotes radix text n) (hc : c.isAlphanum = false) : c ∉ text := by
  obtain ⟨-, ds, hds, -⟩ := h
  intro hmem
  exact absurd ((forall_isDigit hds).1 c hmem) (Bool.eq_false_iff.mp hc)

theorem Denotes.lt_pow (h : Denotes radix text n) (hradix : 1 < radix) :
    n < radix ^ text.length := by
  obtain ⟨-, ds, hds, rfl⟩ := h
  rw [hds.length_eq, ← List.length_reverse]
  apply Nat.ofDigits_lt_base_pow_length hradix
  intro d hd
  exact (forall_isDigit hds).2 d (List.mem_reverse.mp hd)

theorem DenotesSigned.notMem (h : DenotesSigned radix text n) (hc : c.isAlphanum = false)
    (hsign : c ≠ '+') : c ∉ text := by
  obtain hdigits | ⟨digits, rfl, hdigits⟩ := h
  · exact hdigits.notMem hc
  · exact List.not_mem_cons_of_ne_of_not_mem hsign (hdigits.notMem hc)

/-- Without a plus sign the two ways to write a number are the same. -/
theorem denotesSigned_iff_of_notMem (h : '+' ∉ text) :
    DenotesSigned radix text n ↔ Denotes radix text n := by
  constructor
  · rintro (hdigits | ⟨digits, rfl, -⟩)
    · exact hdigits
    · exact absurd List.mem_cons_self h
  · exact .inl

/-! ## Reading -/

theorem read?_eq_some_iff : read? radix text = some n ↔ DenotesSigned radix text n := by
  have hunsigned : read? radix text = some n ↔ Denotes radix (unsigned text) n := by
    rw [read?, denotes_iff, ← List.isEmpty_eq_false_iff]
    cases (unsigned text).isEmpty <;> simp
  rw [hunsigned]
  -- a plus sign is no digit, so a text is read behind its sign or as it is
  by_cases hsign : ∃ digits, text = '+' :: digits
  · obtain ⟨digits, rfl⟩ := hsign
    constructor
    · intro h
      exact .inr ⟨digits, rfl, h⟩
    · rintro (h | ⟨_, hcons, h⟩)
      · exact absurd List.mem_cons_self (h.notMem (c := '+') (by decide))
      · obtain rfl := (List.cons.inj hcons).2
        exact h
  · have hsame : unsigned text = text := by
      unfold unsigned
      split
      next digits => exact absurd ⟨digits, rfl⟩ hsign
      next => rfl
    rw [hsame]
    constructor
    · exact .inl
    · rintro (h | ⟨digits, rfl, -⟩)
      · exact h
      · exact absurd ⟨digits, rfl⟩ hsign

theorem readUpTo?_eq_some_iff {bound : Nat} :
    readUpTo? radix bound text = some n ↔ DenotesSigned radix text n ∧ n ≤ bound := by
  rw [readUpTo?, Option.filter_eq_some_iff, read?_eq_some_iff, decide_eq_true_eq]

/-! ## Printing -/

/-- The row of digits without padding, letters in lower case. -/
structure Canonical (radix : Nat) (text : List Char) (n : Nat) : Prop where
  denotes : Denotes radix text n
  unpadded : text.head? = some '0' → text = ['0']
  lower : ∀ c ∈ text, c.isUpper = false

theorem isDigit_digitChar (hd : d < radix) (hradix : radix ≤ 16) :
    IsDigit radix (Nat.digitChar d) d :=
  ⟨hd, Nat.lt_of_lt_of_le hd hradix, .inl rfl⟩

theorem denotes_singleton (h : IsDigit radix c d) : Denotes radix [c] d :=
  ⟨List.cons_ne_nil _ _, [d], .cons h .nil, by simp⟩

theorem Denotes.append (h : Denotes radix text n) (hd : IsDigit radix c d) :
    Denotes radix (text ++ [c]) (radix * n + d) := by
  obtain ⟨-, ds, hds, rfl⟩ := h
  refine ⟨by simp, ds ++ [d], List.rel_append hds (.cons hd .nil), ?_⟩
  rw [List.reverse_append, List.reverse_singleton, List.singleton_append, Nat.ofDigits_cons,
    Nat.add_comm]

/-- Without padding the first digit counts, so the row is as short as the number allows. -/
theorem Canonical.length_le {k : Nat} (h : Canonical radix text n) (hradix : 1 < radix) (hk : 0 < k)
    (hlt : n < radix ^ k) : text.length ≤ k := by
  obtain ⟨⟨hne, ds, hds, hvalue⟩, hunpadded, -⟩ := h
  cases hds with
  | nil => exact absurd rfl hne
  | @cons c d rest ds hd hds =>
    by_cases hzero : d = 0
    · -- a zero in front is the only digit
      have hc : c = '0' := by
        obtain ⟨-, -, hc⟩ := hd
        rw [hzero] at hc
        exact hc.elim id id
      rw [hunpadded (by rw [hc]; rfl)]
      exact hk
    · rw [Nat.ofDigits_reverse_cons] at hvalue
      have hfirst : radix ^ ds.length ≤ n := by
        rw [← hvalue]
        exact Nat.le_trans (Nat.le_mul_of_pos_right _ (Nat.pos_of_ne_zero hzero))
          (Nat.le_add_left _ _)
      have hlength : ds.length < k :=
        (Nat.pow_lt_pow_iff_right hradix).mp (Nat.lt_of_le_of_lt hfirst hlt)
      rw [List.length_cons, hds.length_eq]
      exact hlength

/-- Printing gives the row of digits without padding. -/
theorem canonical_toDigits (hbase : 1 < radix) (hradix : radix ≤ 16) (n : Nat) :
    Canonical radix (Nat.toDigits radix n) n := by
  induction n using Nat.strong_induction_on with
  | _ n ih =>
    rw [Nat.toDigits_eq_if hbase]
    split
    next hlt =>
      have hdigit := isDigit_digitChar hlt hradix
      refine ⟨denotes_singleton hdigit, ?_, ?_⟩
      · intro hzero
        rw [List.head?_cons, Option.some.injEq] at hzero
        rw [hzero]
      · simpa using (isAlphanum_digitChar n hdigit.2.1).2.2
    next hge =>
      -- the digits in front of the last one are those of the quotient
      have hdiv : n / radix < n := Nat.div_lt_self (by omega) hbase
      have hfront := ih (n / radix) hdiv
      have hdigit := isDigit_digitChar (Nat.mod_lt n (Nat.zero_lt_of_lt hbase)) hradix
      refine ⟨?_, ?_, ?_⟩
      · conv => rhs; rw [← Nat.div_add_mod n radix]
        exact hfront.denotes.append hdigit
      · intro hzero
        rw [List.head?_append_of_ne_nil _ Nat.toDigits_ne_nil] at hzero
        -- a front that begins with a zero stands for zero, and then one digit is enough
        have hnone : n / radix = 0 := by
          have hdenotes := hfront.denotes
          rw [hfront.unpadded hzero] at hdenotes
          exact hdenotes.unique (denotes_singleton (isDigit_digitChar (by omega) hradix))
        exact absurd (Nat.div_pos (Nat.le_of_not_lt hge) (by omega)) (by omega)
      · intro c hc
        rcases List.mem_append.mp hc with hc | hc
        · exact hfront.lower c hc
        · obtain rfl := List.mem_singleton.mp hc
          exact (isAlphanum_digitChar _ hdigit.2.1).2.2

end

end Numeral

end SourceRoute.Text
