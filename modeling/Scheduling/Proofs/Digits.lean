/-!
# Decimal digits in texts

The decimal digits of a number, in front of something that begins with no digit, are found again by
taking digits as long as there are any, and their value is the number.
-/

namespace Scheduling

section Runs

variable {p : Char → Bool} {xs rest : List Char}

/-- No character of a class stands at the front of a text. -/
def Clear (p : Char → Bool) (s : List Char) : Prop := ∀ c ∈ s.head?, p c = false

theorem clear_nil (p : Char → Bool) : Clear p [] := fun c hc => by cases hc

theorem clear_cons {c : Char} : Clear p (c :: rest) ↔ p c = false := by
  simp [Clear]

theorem takeWhile_of_clear (h : Clear p rest) : rest.takeWhile p = [] := by
  cases rest with
  | nil => rfl
  | cons c rest => rw [List.takeWhile_cons, clear_cons.1 h]; rfl

theorem dropWhile_of_clear (h : Clear p rest) : rest.dropWhile p = rest := by
  cases rest with
  | nil => rfl
  | cons c rest => rw [List.dropWhile_cons, clear_cons.1 h]; rfl

theorem clear_dropWhile (p : Char → Bool) (s : List Char) : Clear p (s.dropWhile p) := by
  intro c hc
  have hnot := List.head?_dropWhile_not p s
  rw [Option.mem_def.1 hc] at hnot
  exact hnot

theorem takeWhile_append_of_clear (hxs : ∀ c ∈ xs, p c = true) (h : Clear p rest) :
    (xs ++ rest).takeWhile p = xs := by
  rw [List.takeWhile_append_of_pos hxs, takeWhile_of_clear h, List.append_nil]

theorem dropWhile_append_of_clear (hxs : ∀ c ∈ xs, p c = true) (h : Clear p rest) :
    (xs ++ rest).dropWhile p = rest := by
  rw [List.dropWhile_append_of_pos hxs, dropWhile_of_clear h]

end Runs

/-! ## Numbers -/

variable {n : Nat} {c : Char} {rest : List Char}

theorem toList_toString (n : Nat) : (toString n).toList = Nat.toDigits 10 n := by
  rw [Nat.toString_eq_repr, Nat.toList_repr]

theorem isDigit_of_mem_toDigits (h : c ∈ Nat.toDigits 10 n) : c.isDigit = true :=
  Nat.isDigit_of_mem_toDigits (by decide) (by decide) h

/-- The digits of a number are at least one. -/
theorem exists_toDigits_eq_cons (n : Nat) :
    ∃ c cs, Nat.toDigits 10 n = c :: cs ∧ c.isDigit = true := by
  obtain ⟨c, cs, hdigits⟩ := List.exists_cons_of_ne_nil (Nat.toDigits_ne_nil (n := n) (b := 10))
  exact ⟨c, cs, hdigits, isDigit_of_mem_toDigits (hdigits ▸ List.mem_cons_self)⟩

theorem takeWhile_toDigits (n : Nat) (h : Clear Char.isDigit rest) :
    (Nat.toDigits 10 n ++ rest).takeWhile Char.isDigit = Nat.toDigits 10 n :=
  takeWhile_append_of_clear (fun _ => isDigit_of_mem_toDigits) h

theorem dropWhile_toDigits (n : Nat) (h : Clear Char.isDigit rest) :
    (Nat.toDigits 10 n ++ rest).dropWhile Char.isDigit = rest :=
  dropWhile_append_of_clear (fun _ => isDigit_of_mem_toDigits) h

/-- A class of characters without digits does not hold the first digit of a number. -/
theorem clear_toDigits {p : Char → Bool} (hp : ∀ c, c.isDigit = true → p c = false) (n : Nat)
    (rest : List Char) : Clear p (Nat.toDigits 10 n ++ rest) := by
  obtain ⟨c, cs, hdigits, hdigit⟩ := exists_toDigits_eq_cons n
  rw [hdigits, List.cons_append, clear_cons]
  exact hp c hdigit

theorem ofDigitChars_toDigits (n : Nat) : Nat.ofDigitChars 10 (Nat.toDigits 10 n) 0 = n :=
  Nat.ofDigitChars_toDigits (by decide) (by decide)

end Scheduling
