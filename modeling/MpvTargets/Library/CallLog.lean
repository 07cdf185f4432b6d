import Mathlib.Control.Monad.Basic

/-! Programs that make calls one after the other and stop at the first failure. The state keeps a log of
the calls; a program `Logs` the calls it may add. -/

namespace CallLog

/-- A program over states `σ` that may fail. -/
abbrev Program (ε σ α : Type) := ExceptT ε (StateM σ) α

variable {ε σ κ ι α β : Type}

def Program.on (program : Program ε σ α) (s : σ) : Except ε α × σ := Id.run (StateT.run program.run s)

theorem on_pure (a : α) (s : σ) : (pure a : Program ε σ α).on s = (.ok a, s) := rfl

theorem on_throw (error : ε) (s : σ) : (throw error : Program ε σ α).on s = (.error error, s) := rfl

theorem on_bind (program : Program ε σ α) (next : α → Program ε σ β) (s : σ) :
    (program >>= next).on s = match program.on s with
      | (.ok a, t) => (next a).on t
      | (.error error, t) => (.error error, t) := by
  show Id.run (StateT.run (ExceptT.run (program >>= next)) s) = _
  unfold Program.on
  rw [ExceptT.run_bind, StateT.run_bind]
  cases h : Id.run (StateT.run program.run s) with
  | mk result t =>
      have hrun : StateT.run program.run s = (result, t) := h
      rw [hrun]
      cases result <;> rfl

theorem on_forM_cons (body : ι → Program ε σ PUnit) (item : ι) (items : List ι) (s : σ) :
    (List.forM (item :: items) body).on s = match (body item).on s with
      | (.ok _, t) => (List.forM items body).on t
      | (.error error, t) => (.error error, t) := by
  rw [show List.forM (item :: items) body = body item >>= fun _ => List.forM items body from
    List.forM_cons]
  rw [on_bind]
  rcases (body item).on s with ⟨result, t⟩
  cases result <;> rfl

variable {log : σ → List κ} {allowed : κ → Prop}

/-- From every state, the calls that the program adds to the log are allowed. -/
def Logs (log : σ → List κ) (allowed : κ → Prop) (program : Program ε σ α) : Prop :=
  ∀ s, ∃ added, log (program.on s).2 = log s ++ added ∧ ∀ call ∈ added, allowed call

namespace Logs

theorem pure (a : α) : Logs log allowed (pure a : Program ε σ α) := fun s =>
  ⟨[], by rw [on_pure, List.append_nil], by simp⟩

theorem throw (error : ε) : Logs log allowed (throw error : Program ε σ α) := fun s =>
  ⟨[], by rw [on_throw, List.append_nil], by simp⟩

theorem bind {program : Program ε σ α} {next : α → Program ε σ β} (h : Logs log allowed program)
    (hnext : ∀ a, Logs log allowed (next a)) : Logs log allowed (program >>= next) := by
  intro s
  obtain ⟨added, hadded, hallowed⟩ := h s
  rw [on_bind]
  cases hon : program.on s with
  | mk result t =>
      rw [hon] at hadded
      cases result with
      | error error => exact ⟨added, hadded, hallowed⟩
      | ok a =>
          obtain ⟨more, hmore, hallowed'⟩ := hnext a t
          refine ⟨added ++ more, ?_, ?_⟩
          · calc log ((next a).on t).2 = log t ++ more := hmore
              _ = log s ++ (added ++ more) := by rw [hadded, List.append_assoc]
          · intro call hcall
            rcases List.mem_append.mp hcall with hcall | hcall
            · exact hallowed call hcall
            · exact hallowed' call hcall

theorem mono {program : Program ε σ α} {more : κ → Prop} (h : Logs log allowed program)
    (hmore : ∀ call, allowed call → more call) : Logs log more program := by
  intro s
  obtain ⟨added, hadded, hallowed⟩ := h s
  exact ⟨added, hadded, fun call hcall => hmore call (hallowed call hcall)⟩

theorem keeps {program : Program ε σ α} (h : Logs log allowed program) {s : σ} {call : κ}
    (hcall : call ∈ log s) : call ∈ log (program.on s).2 := by
  obtain ⟨added, hadded, -⟩ := h s
  rw [hadded]
  exact List.mem_append_left added hcall

/-- A loop makes the calls of the items before the first one whose turn fails without a call. -/
theorem forM {items : List ι} {body : ι → Program ε σ PUnit} {good : ι → Bool} {own : ι → κ → Prop}
    (hbody : ∀ item ∈ items, Logs log (own item) (body item))
    (hstop : ∀ item ∈ items, good item = false → ∀ s,
      ∃ error t, (body item).on s = (.error error, t) ∧ log t = log s) :
    Logs log (fun call => ∃ item ∈ items.takeWhile good, own item call) (List.forM items body) := by
  induction items with
  | nil => exact pure PUnit.unit
  | cons item items ih =>
      intro s
      rw [on_forM_cons]
      by_cases hgood : good item = true
      · have hhere := hbody item List.mem_cons_self s
        have hrest := ih (fun other hother => hbody other (List.mem_cons_of_mem _ hother))
          (fun other hother => hstop other (List.mem_cons_of_mem _ hother))
        obtain ⟨added, hadded, hallowed⟩ := hhere
        have htaken : (item :: items).takeWhile good = item :: items.takeWhile good :=
          List.takeWhile_cons_of_pos hgood
        rw [htaken]
        cases hon : (body item).on s with
        | mk result t =>
            rw [hon] at hadded
            cases result with
            | error error =>
                exact ⟨added, hadded, fun call hcall => ⟨item, List.mem_cons_self, hallowed call hcall⟩⟩
            | ok _ =>
                obtain ⟨more, hmore, hallowed'⟩ := hrest t
                refine ⟨added ++ more, ?_, ?_⟩
                · calc log ((List.forM items body).on t).2 = log t ++ more := hmore
                    _ = log s ++ (added ++ more) := by rw [hadded, List.append_assoc]
                · intro call hcall
                  rcases List.mem_append.mp hcall with hcall | hcall
                  · exact ⟨item, List.mem_cons_self, hallowed call hcall⟩
                  · obtain ⟨other, hother, hown⟩ := hallowed' call hcall
                    exact ⟨other, List.mem_cons_of_mem _ hother, hown⟩
      · rw [Bool.not_eq_true] at hgood
        obtain ⟨error, t, hon, hlog⟩ := hstop item List.mem_cons_self hgood s
        rw [hon]
        exact ⟨[], by rw [hlog, List.append_nil], by simp⟩

theorem forM_of_mem {items : List ι} {body : ι → Program ε σ PUnit}
    (hbody : ∀ item ∈ items, Logs log allowed (body item)) : Logs log allowed (List.forM items body) := by
  have hstops : ∀ item ∈ items, (fun _ : ι => true) item = false → ∀ s, ∃ error t,
      (body item).on s = (.error error, t) ∧ log t = log s := by simp
  refine (forM hbody hstops).mono fun call hcall => ?_
  obtain ⟨item, -, hallowed⟩ := hcall
  exact hallowed

end Logs

/-- A loop whose good turns succeed, as long as there is room for another, makes the call of every item
before the first bad one. -/
theorem forM_complete {items : List ι} {body : ι → Program ε σ PUnit} {good : ι → Bool} {call : ι → κ}
    {room : Nat → σ → Prop} (hlogs : ∀ item ∈ items, Logs log (fun _ => True) (body item))
    (hbody : ∀ item ∈ items, good item = true → ∀ n s, room (n + 1) s →
      ∃ t, (body item).on s = (.ok PUnit.unit, t) ∧ log t = log s ++ [call item] ∧ room n t)
    {s : σ} (hroom : room items.length s) :
    ∀ item ∈ items.takeWhile good, call item ∈ log ((List.forM items body).on s).2 := by
  induction items generalizing s with
  | nil => simp
  | cons item items ih =>
      have hlater : ∀ other ∈ items, Logs log (fun _ => True) (body other) := fun other hother =>
        hlogs other (List.mem_cons_of_mem _ hother)
      by_cases hgood : good item = true
      · obtain ⟨t, hon, hlog, hleft⟩ := hbody item List.mem_cons_self hgood items.length s hroom
        have hrest := ih hlater (fun other hother => hbody other (List.mem_cons_of_mem _ hother)) hleft
        rw [on_forM_cons, hon, List.takeWhile_cons_of_pos hgood]
        intro other hother
        rcases List.mem_cons.mp hother with rfl | hother
        · apply (Logs.forM_of_mem hlater).keeps
          rw [hlog]
          exact List.mem_append_right _ List.mem_cons_self
        · exact hrest other hother
      · rw [List.takeWhile_cons_of_neg hgood]
        simp

end CallLog
