import Mathlib.Data.List.Basic

/-! Pools of concurrent tasks. A task is named by its position; tasks are only ever replaced by
their own successor or appended, so positions stay valid. The rules below say how universal,
existential and uniqueness statements over a pool pass one step of one task. -/

namespace TaskPool

variable {τ : Type*}

/-- The task at `index` becomes `task` and the spawned tasks join the pool. -/
def advance (tasks : List τ) (index : Nat) (task : τ) (spawned : List τ) : List τ :=
  tasks.set index task ++ spawned

variable {tasks spawned : List τ} {index : Nat} {old task : τ}

/-- Whatever is at a position after the step is the stepped task, an untouched one or a new one. -/
theorem getElem?_advance {position : Nat} {other : τ}
    (h : (advance tasks index task spawned)[position]? = some other) :
    (position = index ∧ other = task) ∨ (position ≠ index ∧ tasks[position]? = some other) ∨
      (tasks.length ≤ position ∧ other ∈ spawned) := by
  rw [advance] at h
  rcases Nat.lt_or_ge position tasks.length with hlt | hge
  · rw [List.getElem?_append_left (by simpa using hlt)] at h
    by_cases hindex : position = index
    · subst hindex
      rw [List.getElem?_set_self hlt] at h
      exact Or.inl ⟨rfl, (Option.some.inj h).symm⟩
    · rw [List.getElem?_set_ne (Ne.symm hindex)] at h
      exact Or.inr (Or.inl ⟨hindex, h⟩)
  · rw [List.getElem?_append_right (by simpa using hge)] at h
    exact Or.inr (Or.inr ⟨hge, List.mem_of_getElem? h⟩)

theorem getElem?_advance_of_ne {position : Nat} {other : τ} (hne : position ≠ index)
    (h : tasks[position]? = some other) :
    (advance tasks index task spawned)[position]? = some other := by
  have hlt : position < tasks.length := (List.getElem?_eq_some_iff.mp h).1
  rw [advance, List.getElem?_append_left (by simpa using hlt), List.getElem?_set_ne (Ne.symm hne), h]

theorem getElem?_advance_self (h : tasks[index]? = some old) :
    (advance tasks index task spawned)[index]? = some task := by
  have hlt : index < tasks.length := (List.getElem?_eq_some_iff.mp h).1
  rw [advance, List.getElem?_append_left (by simpa using hlt), List.getElem?_set_self hlt]

theorem mem_advance_self (h : tasks[index]? = some old) :
    task ∈ advance tasks index task spawned :=
  List.mem_of_getElem? (getElem?_advance_self h)

theorem mem_advance_of_spawned {other : τ} (h : other ∈ spawned) :
    other ∈ advance tasks index task spawned :=
  List.mem_append_right _ h

theorem mem_advance {other : τ} (h : other ∈ advance tasks index task spawned) :
    other = task ∨ other ∈ tasks ∨ other ∈ spawned := by
  obtain ⟨position, hposition⟩ := List.mem_iff_getElem?.mp h
  rcases getElem?_advance hposition with ⟨_, heq⟩ | ⟨_, hold⟩ | ⟨_, hnew⟩
  · exact Or.inl heq
  · exact Or.inr (Or.inl (List.mem_of_getElem? hold))
  · exact Or.inr (Or.inr hnew)

/-- A statement about all tasks is checked on the stepped task, the untouched ones and the new ones. -/
theorem forall_advance {P : τ → Prop} (hself : P task)
    (hothers : ∀ (position : Nat) (other : τ), position ≠ index → tasks[position]? = some other →
      P other)
    (hspawned : ∀ other ∈ spawned, P other) : ∀ other ∈ advance tasks index task spawned, P other := by
  intro other hother
  obtain ⟨position, hposition⟩ := List.mem_iff_getElem?.mp hother
  rcases getElem?_advance hposition with ⟨_, rfl⟩ | ⟨hne, hold⟩ | ⟨_, hnew⟩
  · exact hself
  · exact hothers position other hne hold
  · exact hspawned other hnew

/-- A witness survives the step unless it is the stepped task itself. -/
theorem exists_advance {P : τ → Prop} (h : ∃ other ∈ tasks, P other) (hindex : tasks[index]? = some old)
    (hself : P old → ∃ other ∈ advance tasks index task spawned, P other) :
    ∃ other ∈ advance tasks index task spawned, P other := by
  obtain ⟨other, hother, hP⟩ := h
  obtain ⟨position, hposition⟩ := List.mem_iff_getElem?.mp hother
  by_cases hne : position = index
  · subst hne
    rw [hindex] at hposition
    cases hposition
    exact hself hP
  · exact ⟨other, List.mem_of_getElem? (getElem?_advance_of_ne hne hposition), hP⟩

/-- A step that leaves a task as countable as it was adds the spawned tasks to the count. -/
theorem countP_advance {p : τ → Bool} (hindex : tasks[index]? = some old) (hp : p task = p old) :
    (advance tasks index task spawned).countP p = tasks.countP p + spawned.countP p := by
  obtain ⟨hlt, rfl⟩ := List.getElem?_eq_some_iff.mp hindex
  rw [advance, List.countP_append, List.countP_set hlt, hp]
  split_ifs with hold
  · have hpos : 0 < tasks.countP p := List.countP_pos_iff.mpr ⟨_, List.getElem_mem hlt, hold⟩
    omega
  · omega

/-- At most one task of the pool satisfies `P`. -/
def AtMostOne (P : τ → Prop) (tasks : List τ) : Prop :=
  ∀ (left right : Nat) (first second : τ), tasks[left]? = some first → tasks[right]? = some second →
    P first → P second → left = right

theorem AtMostOne.nil (P : τ → Prop) : AtMostOne P [] := by
  intro left right first second h
  simp at h

theorem AtMostOne.singleton (P : τ → Prop) (task : τ) : AtMostOne P [task] := by
  intro left right first second hleft hright _ _
  have h0 := (List.getElem?_eq_some_iff.mp hleft).1
  have h1 := (List.getElem?_eq_some_iff.mp hright).1
  simp only [List.length_singleton] at h0 h1
  omega

/-- The count stays at most one when new tasks do not satisfy `P` and the stepped task satisfies it
only if it did before or nobody else does. -/
theorem AtMostOne.advance {P : τ → Prop} (h : AtMostOne P tasks) (hindex : tasks[index]? = some old)
    (hspawned : ∀ other ∈ spawned, ¬P other)
    (hself : P task → P old ∨ ∀ (position : Nat) (other : τ), position ≠ index →
      tasks[position]? = some other → ¬P other) :
    AtMostOne P (TaskPool.advance tasks index task spawned) := by
  have hothers : P task → ∀ (position : Nat) (other : τ), position ≠ index →
      tasks[position]? = some other → ¬P other := by
    intro htask position other hne hother hP
    rcases hself htask with hold | hnone
    · exact hne (h position index other old hother hindex hP hold)
    · exact hnone position other hne hother hP
  intro left right first second hleft hright hfirst hsecond
  rcases getElem?_advance hleft with ⟨rfl, rfl⟩ | ⟨hne, hold⟩ | ⟨_, hnew⟩
  · rcases getElem?_advance hright with ⟨rfl, _⟩ | ⟨hne', hold'⟩ | ⟨_, hnew⟩
    · rfl
    · exact absurd hsecond (hothers hfirst right second hne' hold')
    · exact absurd hsecond (hspawned second hnew)
  · rcases getElem?_advance hright with ⟨rfl, rfl⟩ | ⟨_, hold'⟩ | ⟨_, hnew⟩
    · exact absurd hfirst (hothers hsecond left first hne hold)
    · exact h left right first second hold hold' hfirst hsecond
    · exact absurd hsecond (hspawned second hnew)
  · exact absurd hfirst (hspawned first hnew)

/-- Adding tasks that do not satisfy `P` changes nothing. -/
theorem AtMostOne.append {P : τ → Prop} (h : AtMostOne P tasks)
    (hspawned : ∀ other ∈ spawned, ¬P other) : AtMostOne P (tasks ++ spawned) := by
  have hold : ∀ (position : Nat) (other : τ), (tasks ++ spawned)[position]? = some other → P other →
      tasks[position]? = some other := by
    intro position other hother hP
    rcases Nat.lt_or_ge position tasks.length with hlt | hge
    · rwa [List.getElem?_append_left hlt] at hother
    · rw [List.getElem?_append_right hge] at hother
      exact absurd hP (hspawned other (List.mem_of_getElem? hother))
  intro left right first second hleft hright hfirst hsecond
  exact h left right first second (hold _ _ hleft hfirst) (hold _ _ hright hsecond) hfirst hsecond

end TaskPool
