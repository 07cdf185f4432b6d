import Mathlib.Data.List.Basic

/-! Registers fed by a log of writes. A register shows what it read in the last write it could read; a
write it cannot read leaves it as it is. What the registers show is a function of the last write to
each of them exactly when each can read its last write. -/

/-- Registers `κ` in a state `σ`, each with its own way to read the values `ν` written to it. -/
structure Registers (σ κ ν α : Type*) [DecidableEq κ] where
  write : σ → κ → ν → σ
  shown : σ → κ → α
  read : κ → ν → Option α
  shown_write : ∀ s key value other, shown (write s key value) other =
    if other = key then (read key value).getD (shown s key) else shown s other

/-- The last value written to a register. -/
def latestWrite {κ ν : Type*} [DecidableEq κ] (key : κ) : List (κ × ν) → Option ν
  | [] => none
  | entry :: rest =>
      match latestWrite key rest with
      | some value => some value
      | none => if entry.1 = key then some entry.2 else none

section

variable {κ ν : Type*} [DecidableEq κ] {key other : κ} {value : ν} {log later : List (κ × ν)}

@[simp] theorem latestWrite_append : latestWrite key (log ++ later) =
    (latestWrite key later).orElse fun _ => latestWrite key log := by
  induction log with
  | nil => cases h : latestWrite key later <;> simp [latestWrite, h]
  | cons entry log ih =>
      rw [List.cons_append, latestWrite, ih]
      cases h : latestWrite key later <;> simp [latestWrite]

@[simp] theorem latestWrite_single :
    latestWrite key [(other, value)] = if other = key then some value else none := rfl

/-- The log without the writes to one register. -/
def withoutKey (key : κ) (log : List (κ × ν)) : List (κ × ν) :=
  log.filter fun entry => entry.1 ≠ key

theorem latestWrite_withoutKey_self : latestWrite key (withoutKey key log) = none := by
  induction log with
  | nil => rfl
  | cons entry log ih =>
      by_cases h : entry.1 = key
      · rw [withoutKey, List.filter_cons_of_neg (by simpa using h)]
        exact ih
      · rw [withoutKey, List.filter_cons_of_pos (by simpa using h), latestWrite]
        simp only [withoutKey] at ih
        simp only [ih, if_neg h]

theorem latestWrite_withoutKey (hne : other ≠ key) :
    latestWrite other (withoutKey key log) = latestWrite other log := by
  induction log with
  | nil => rfl
  | cons entry log ih =>
      simp only [withoutKey] at ih
      by_cases h : entry.1 = key
      · have hother : entry.1 ≠ other := fun heq => hne (heq.symm.trans h)
        rw [withoutKey, List.filter_cons_of_neg (by simpa using h), ih, latestWrite]
        cases latestWrite other log <;> simp [hother]
      · rw [withoutKey, List.filter_cons_of_pos (by simpa using h), latestWrite, ih, latestWrite]

end

namespace Registers

variable {σ κ ν α : Type*} [DecidableEq κ] (registers : Registers σ κ ν α)

def run (s : σ) (log : List (κ × ν)) : σ :=
  log.foldl (fun s entry => registers.write s entry.1 entry.2) s

variable {registers} {s : σ} {key : κ} {value : ν} {log : List (κ × ν)}

@[simp] theorem run_nil : registers.run s [] = s := rfl

@[simp] theorem run_cons {entry : κ × ν} :
    registers.run s (entry :: log) = registers.run (registers.write s entry.1 entry.2) log := rfl

/-- A register nothing was written to shows what it showed. -/
theorem shown_run_of_unwritten (h : latestWrite key log = none) :
    registers.shown (registers.run s log) key = registers.shown s key := by
  induction log generalizing s with
  | nil => rfl
  | cons entry log ih =>
      rw [latestWrite] at h
      cases hrest : latestWrite key log with
      | some later => simp [hrest] at h
      | none =>
          have hother : ¬key = entry.1 := by
            rintro rfl
            simp [hrest] at h
          rw [run_cons, ih hrest, registers.shown_write, if_neg hother]

/-- What cannot be read changes nothing. -/
theorem shown_write_unread (h : registers.read key value = none) (other : κ) :
    registers.shown (registers.write s key value) other = registers.shown s other := by
  rw [registers.shown_write, h]
  split
  · rename_i heq
    rw [heq, Option.getD_none]
  · rfl

/-- A register that can read the last write to it shows that. -/
theorem shown_run_of_read {a : α} (h : latestWrite key log = some value)
    (hread : registers.read key value = some a) :
    registers.shown (registers.run s log) key = a := by
  induction log generalizing s with
  | nil => cases h
  | cons entry log ih =>
      rw [latestWrite] at h
      rw [run_cons]
      cases hrest : latestWrite key log with
      | some later =>
          rw [hrest] at h
          exact ih (hrest.trans h)
      | none =>
          rw [hrest] at h
          simp only [Option.ite_none_right_eq_some, Option.some.injEq] at h
          obtain ⟨rfl, rfl⟩ := h
          rw [shown_run_of_unwritten hrest, registers.shown_write, if_pos rfl, hread,
            Option.getD_some]

theorem run_append {later : List (κ × ν)} :
    registers.run s (log ++ later) = registers.run (registers.run s log) later :=
  List.foldl_append

/-- A register that cannot read the last write to it shows something else after another log with the
same last writes: one without its earlier writes, or with one more write in front. -/
theorem exists_other_run {first : ν} {a : α} (hlast : latestWrite key log = some value)
    (hunread : registers.read key value = none) (hfirst : registers.read key first = some a)
    (hne : a ≠ registers.shown s key) :
    ∃ later, (∀ other, latestWrite other later = latestWrite other log) ∧
      registers.shown (registers.run s later) key ≠ registers.shown (registers.run s log) key := by
  let bare := withoutKey key log ++ [(key, value)]
  have hlatest : ∀ other, latestWrite other bare = latestWrite other log := by
    intro other
    by_cases hother : other = key
    · simp [bare, hother, hlast]
    · simp [bare, Ne.symm hother, latestWrite_withoutKey hother]
  have hbare : ∀ t, registers.shown (registers.run t bare) key = registers.shown t key := by
    intro t
    rw [run_append, run_cons, run_nil, shown_write_unread hunread,
      shown_run_of_unwritten latestWrite_withoutKey_self]
  by_cases hsame : registers.shown (registers.run s log) key = registers.shown s key
  · refine ⟨(key, first) :: bare, fun other => ?_, ?_⟩
    · rw [latestWrite, hlatest]
      cases hwritten : latestWrite other log with
      | some _ => rfl
      | none =>
          have hother : ¬key = other := by
            rintro rfl
            rw [hlast] at hwritten
            cases hwritten
          simp only [if_neg hother]
    · rw [run_cons, hbare, registers.shown_write, if_pos rfl, hfirst, Option.getD_some, hsame]
      exact hne
  · refine ⟨bare, hlatest, ?_⟩
    rw [hbare]
    exact Ne.symm hsame

/-- What the registers show depends on the last writes only exactly when all last writes can be read. -/
theorem shown_of_latest_iff
    (hreads : ∀ key, ∃ value a, registers.read key value = some a ∧ a ≠ registers.shown s key) :
    (∀ later, (∀ key, latestWrite key later = latestWrite key log) →
        registers.shown (registers.run s later) = registers.shown (registers.run s log)) ↔
      ∀ key value, latestWrite key log = some value → (registers.read key value).isSome := by
  constructor
  · intro hlatest key value hlast
    by_contra hunread
    obtain ⟨first, a, hfirst, hne⟩ := hreads key
    obtain ⟨later, hsame, hother⟩ := exists_other_run hlast (by simpa using hunread) hfirst hne
    exact hother (congrFun (hlatest later hsame) key)
  · intro hread later hsame
    funext key
    cases hlast : latestWrite key log with
    | none => rw [shown_run_of_unwritten hlast, shown_run_of_unwritten ((hsame key).trans hlast)]
    | some value =>
        obtain ⟨a, ha⟩ := Option.isSome_iff_exists.mp (hread key value hlast)
        rw [shown_run_of_read hlast ha, shown_run_of_read ((hsame key).trans hlast) ha]

end Registers
