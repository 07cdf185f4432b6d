import Mathlib.Data.List.Basic

/-! Lists of lines as one text: every line is written with a terminator behind it, and read back by
splitting at the breaks and skipping the lines that do not count. -/

section

variable {α : Type*}

/-- The lines one after another, each with its terminator. -/
def writeLines (terminator : α) (lines : List (List α)) : List α :=
  lines.flatMap fun line => line ++ [terminator]

/-- The lines between the breaks, without those to be skipped. -/
def readLines (isBreak : α → Bool) (skip : List α → Bool) (text : List α) : List (List α) :=
  (text.splitOnP isBreak).filter fun line => !skip line

variable {isBreak : α → Bool} {skip : List α → Bool} {terminator : α} {lines : List (List α)}

/-- Written lines are the pieces between the breaks, with an empty one at the end. -/
theorem splitOnP_writeLines (hterminator : isBreak terminator = true)
    (hlines : ∀ line ∈ lines, ∀ item ∈ line, isBreak item = false) :
    (writeLines terminator lines).splitOnP isBreak = lines ++ [[]] := by
  induction lines with
  | nil => exact List.splitOnP_nil
  | cons line rest ih =>
      have hrest := ih fun other hother => hlines other (List.mem_cons_of_mem _ hother)
      have hline := hlines line List.mem_cons_self
      calc (writeLines terminator (line :: rest)).splitOnP isBreak
          = (line ++ terminator :: writeLines terminator rest).splitOnP isBreak := by
            rw [writeLines, List.flatMap_cons, List.append_assoc]
            rfl
        _ = line :: (writeLines terminator rest).splitOnP isBreak :=
            List.splitOnP_append_cons_of_forall_mem hline terminator hterminator _
        _ = (line :: rest) ++ [[]] := by rw [hrest, List.cons_append]

/-- What is read back are the lines that are not skipped. -/
theorem readLines_writeLines (hterminator : isBreak terminator = true)
    (hlines : ∀ line ∈ lines, ∀ item ∈ line, isBreak item = false) (hempty : skip [] = true) :
    readLines isBreak skip (writeLines terminator lines) = lines.filter fun line => !skip line := by
  rw [readLines, splitOnP_writeLines hterminator hlines, List.filter_append]
  simp [hempty]

end
