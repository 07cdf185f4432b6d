import Mathlib.Data.List.DropRight
import Mathlib.Data.List.TakeWhile

/-! Texts cut at the last occurrence of a separator, and trimmed of one character at both ends. -/

namespace TextCut

variable {α : Type*} [DecidableEq α]

/-- The parts before and after the last separator. -/
def rsplitOnce (separator : α) (text : List α) : Option (List α × List α) :=
  match text.reverse.dropWhile fun char => char ≠ separator with
  | [] => none
  | _ :: before => some (before.reverse, (text.reverse.takeWhile fun char => char ≠ separator).reverse)

theorem rsplitOnce_append {separator : α} {after : List α} (hafter : separator ∉ after) (before : List α) :
    rsplitOnce separator (before ++ separator :: after) = some (before, after) := by
  have hall : ∀ char ∈ after.reverse, decide (char ≠ separator) = true := by
    intro char hchar
    rw [decide_eq_true_eq]
    rintro rfl
    exact hafter (List.mem_reverse.mp hchar)
  have hreverse : (before ++ separator :: after).reverse = after.reverse ++ separator :: before.reverse := by
    simp
  have hdrop : ((before ++ separator :: after).reverse.dropWhile fun char => char ≠ separator) =
      separator :: before.reverse := by
    rw [hreverse, List.dropWhile_append_of_pos hall, List.dropWhile_cons_of_neg (by simp)]
  have htake : ((before ++ separator :: after).reverse.takeWhile fun char => char ≠ separator) =
      after.reverse := by
    rw [hreverse, List.takeWhile_append_of_pos hall, List.takeWhile_cons_of_neg (by simp), List.append_nil]
  unfold rsplitOnce
  rw [hdrop, htake]
  simp

/-- Without the character at either end. -/
def trimMatches (char : α) (text : List α) : List α :=
  (text.dropWhile fun other => other = char).rdropWhile fun other => other = char

/-- A text without the character is not trimmed. -/
theorem trimMatches_of_not_mem {char : α} {text : List α} (h : char ∉ text) : trimMatches char text = text := by
  have hne : ∀ other ∈ text, ¬decide (other = char) = true := by
    intro other hother
    rw [decide_eq_true_eq]
    rintro rfl
    exact h hother
  unfold trimMatches
  rw [List.dropWhile_eq_self_iff.mpr fun hlength => hne _ (List.get_mem text ⟨0, hlength⟩),
    List.rdropWhile_eq_self_iff.mpr fun hnil => hne _ (List.getLast_mem hnil)]

/-- One character in front is trimmed. -/
theorem trimMatches_cons {char : α} {text : List α} (h : char ∉ text) :
    trimMatches char (char :: text) = text := by
  calc trimMatches char (char :: text) = trimMatches char text := by
        unfold trimMatches
        rw [List.dropWhile_cons_of_pos (by simp)]
    _ = text := trimMatches_of_not_mem h

/-- One character at the end is trimmed. -/
theorem trimMatches_concat {char : α} {text : List α} (h : char ∉ text) :
    trimMatches char (text ++ [char]) = text := by
  cases text with
  | nil => simp [trimMatches]
  | cons first rest =>
      have hfirst : first ≠ char := fun heq => h (heq ▸ List.mem_cons_self)
      have hfront : ∀ later, ((first :: later).dropWhile fun other => other = char) = first :: later :=
        fun later => List.dropWhile_cons_of_neg (by simpa using hfirst)
      calc trimMatches char (first :: rest ++ [char]) = trimMatches char (first :: rest) := by
            unfold trimMatches
            rw [List.cons_append, hfront, hfront, ← List.cons_append,
              List.rdropWhile_concat_pos _ _ _ (by simp)]
        _ = first :: rest := trimMatches_of_not_mem h

end TextCut
