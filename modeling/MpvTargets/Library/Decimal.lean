import Mathlib.Data.List.Basic

/-! Unsigned numbers as they are read from decimal texts: digits, perhaps after a plus sign, up to a bound. -/

namespace Decimal

def parseUnsigned (bound : Nat) (text : List Char) : Option Nat :=
  let digits := if text.head? = some '+' then text.tail else text
  if digits.isEmpty || !digits.all Char.isDigit then none
  else
    let value := Nat.ofDigitChars 10 digits 0
    if value ≤ bound then some value else none

/-- A text with a character that no number has. -/
theorem parseUnsigned_eq_none {bound : Nat} {text : List Char} {char : Char} (hmem : char ∈ text)
    (hdigit : char.isDigit = false) (hplus : char ≠ '+') : parseUnsigned bound text = none := by
  have hdigits : char ∈ (if text.head? = some '+' then text.tail else text) := by
    split_ifs with hhead
    · cases text with
      | nil => cases hmem
      | cons first rest =>
          rcases List.mem_cons.mp hmem with rfl | hrest
          · exact absurd (Option.some.inj hhead) hplus
          · exact hrest
    · exact hmem
  refine if_pos ?_
  rw [Bool.or_eq_true, Bool.not_eq_true', List.all_eq_false]
  exact Or.inr ⟨char, hdigits, by rw [hdigit]; exact Bool.false_ne_true⟩

theorem isDigit_of_mem {value : Nat} {char : Char} (h : char ∈ Nat.toDigits 10 value) :
    char.isDigit = true :=
  Nat.isDigit_of_mem_toDigits (by decide) (by decide) h

/-- Digits are read back. -/
theorem parseUnsigned_toDigits {bound value : Nat} (h : value ≤ bound) :
    parseUnsigned bound (Nat.toDigits 10 value) = some value := by
  have hplus : (Nat.toDigits 10 value).head? ≠ some '+' := by
    intro hhead
    exact absurd (isDigit_of_mem (List.mem_of_mem_head? hhead)) (by decide)
  have hdigits : (Nat.toDigits 10 value).all Char.isDigit = true :=
    List.all_eq_true.mpr fun char hchar => isDigit_of_mem hchar
  have hempty : (Nat.toDigits 10 value).isEmpty = false := by
    rw [List.isEmpty_eq_false_iff]
    exact Nat.toDigits_ne_nil
  unfold parseUnsigned
  rw [if_neg hplus]
  dsimp only
  rw [hempty, hdigits, Nat.ofDigitChars_ten_toDigits]
  exact if_pos h

end Decimal
