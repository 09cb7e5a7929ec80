/-!
# Splitting text at a separator

`cut?` splits at the first separator, `fields` at every one.  Joining the fields again with the
separator gives the text back, so nothing is lost.
-/

namespace SourceRoute.Text

/-- The text before and after the first separator, if there is one. -/
def cut? (sep : Char) : List Char → Option (List Char × List Char)
  | [] => none
  | c :: cs => if c = sep then some ([], cs) else (cut? sep cs).map fun (l, r) => (c :: l, r)

/-- The stretches of text between separators.  There is always one more than separators. -/
def fields (sep : Char) : List Char → List (List Char)
  | [] => [[]]
  | c :: cs =>
    if c = sep then [] :: fields sep cs
    else
      match fields sep cs with
      | [] => [[c]]
      | f :: fs => (c :: f) :: fs

theorem fields_ne_nil (sep : Char) (cs : List Char) : fields sep cs ≠ [] := by
  cases cs with
  | nil => simp [fields]
  | cons c cs =>
    by_cases h : c = sep
    · simp [fields, h]
    · simp only [fields, h, if_false]
      split <;> simp

/-- Text is cut exactly where its first separator stands. -/
theorem cut?_eq_some_iff {sep : Char} {cs left right : List Char} :
    cut? sep cs = some (left, right) ↔ sep ∉ left ∧ cs = left ++ sep :: right := by
  induction cs generalizing left with
  | nil => simp [cut?]
  | cons c cs ih =>
    by_cases h : c = sep
    · subst h
      simp only [cut?, if_true, Option.some.injEq, Prod.mk.injEq]
      constructor
      · rintro ⟨rfl, rfl⟩
        simp
      · rintro ⟨hleft, hcs⟩
        cases left with
        | nil => simpa using hcs
        | cons d left => simp_all
    · simp only [cut?, h, if_false, Option.map_eq_some_iff, Prod.mk.injEq, Prod.exists]
      constructor
      · rintro ⟨l, r, hcut, rfl, rfl⟩
        obtain ⟨hl, rfl⟩ := ih.mp hcut
        exact ⟨by simp [hl, Ne.symm h], rfl⟩
      · rintro ⟨hleft, hcs⟩
        cases left with
        | nil => simp_all
        | cons d left =>
          simp only [List.cons_append, List.cons.injEq] at hcs
          obtain ⟨rfl, rfl⟩ := hcs
          exact ⟨left, right, ih.mpr ⟨by simp_all, rfl⟩, rfl, rfl⟩

end SourceRoute.Text
