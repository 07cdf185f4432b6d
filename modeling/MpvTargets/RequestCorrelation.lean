import MpvTargets.RemoteClient
import Std.Data.String.ToNat

/-! Requests and responses of one client connection belong together: a call is answered only with
the response that carries its own id. -/

namespace MpvTargets.RemoteClient

open Protocol

theorem clientId_injective {left right : UInt64} (h : clientId left = clientId right) :
    left = right := by
  rw [clientId, clientId, String.append_right_inj] at h
  exact UInt64.toNat_inj.mp (Nat.repr_injective h)

/-- The call is between the insertion of its id and the removal that comes before it returns. -/
def CallPc.registered : CallPc → Bool
  | .sending _ | .unsending _ | .waiting _ | .timingOut _ => true
  | _ => false

/-- The call has not made its oneshot channel yet. -/
def CallPc.early : CallPc → Bool
  | .checking | .fetching | .inserting _ => true
  | _ => false

@[simp] theorem Call.receive_pc (result : Outcome) (call : Call) :
    (call.receive result).pc = call.pc := by
  rw [Call.receive]
  split_ifs <;> rfl

theorem Call.receive_slot (result : Outcome) (call : Call) :
    (call.receive result).slot = call.slot ∨ (call.receive result).slot = some result := by
  rw [Call.receive]
  split_ifs
  · exact Or.inr rfl
  · exact Or.inl rfl

theorem Call.receive_slot_of_early (result : Outcome) {call : Call} (h : call.pc.early = true) :
    (call.receive result).slot = call.slot := by
  rw [Call.receive]
  split_ifs with hlistening
  · cases hpc : call.pc <;> simp [hpc, CallPc.early, CallPc.listening] at h hlistening
  · rfl

theorem getElem?_deliver (calls : List Call) (index position : Nat) (result : Outcome) :
    (deliver calls index result)[position]? =
      calls[position]?.map fun call => if position = index then call.receive result else call := by
  rw [deliver, List.getElem?_modify]
  cases calls[position]? with
  | none => rfl
  | some call => simp [eq_comm]

/-- The drain hands its error to every call it finds a sender for. -/
theorem getElem?_drain (entries : List (String × Nat)) (calls : List Call) (result : Outcome)
    (position : Nat) :
    (entries.foldl (fun calls entry => deliver calls entry.2 result) calls)[position]? =
      calls[position]?.map fun call =>
        if position ∈ entries.map Prod.snd then call.receive result else call := by
  induction entries generalizing calls with
  | nil => simp
  | cons entry rest ih =>
      have hidem : ∀ call : Call, (call.receive result).receive result = call.receive result := by
        intro call
        by_cases hlistening : call.pc.listening = true <;> simp [Call.receive, hlistening]
      rw [List.foldl_cons, ih, getElem?_deliver]
      cases calls[position]? with
      | none => rfl
      | some call =>
          by_cases hhead : position = entry.2 <;>
            by_cases htail : position ∈ rest.map Prod.snd <;> simp_all

/-- How many calls have taken an id. -/
def issued (calls : List Call) : Nat := calls.countP fun call => call.pc.id.isSome

/-- The ids come from the counter in turn, no two calls share one, and the pending map points from
an id to the one unanswered call that is registered under it. -/
structure Correlated (nextId : UInt64) (calls : List Call) (pending : OrderedMap String Nat) :
    Prop where
  counter : nextId = UInt64.ofNat (1 + issued calls)
  ids : ∀ call ∈ calls, ∀ id, call.pc.id = some id →
    ∃ number < issued calls, id = clientId (UInt64.ofNat (1 + number))
  unique : ∀ (left right : Nat) (first second : Call) (id : String),
    calls[left]? = some first → calls[right]? = some second →
    first.pc.id = some id → second.pc.id = some id → left = right
  pending : ∀ id index, pending.get? id = some index → ∃ call, calls[index]? = some call ∧
    call.pc.id = some id ∧ call.pc.registered = true ∧ call.slot = none
  early : ∀ call ∈ calls, call.pc.early = true → call.slot = none

theorem Correlated.connected : Correlated 1 [] OrderedMap.empty where
  counter := rfl
  ids := by simp
  unique := by simp
  pending := by simp
  early := by simp

section

variable {nextId : UInt64} {calls : List Call} {pending pending' : OrderedMap String Nat}
  {index : Nat} {call : Call} {pc : CallPc}

theorem set_getElem? (hcall : calls[index]? = some call) (after : Call) (position : Nat) :
    (calls.set index after)[position]? = if position = index then some after else calls[position]? := by
  have hlt := (List.getElem?_eq_some_iff.mp hcall).1
  by_cases hposition : position = index
  · rw [if_pos hposition, hposition, List.getElem?_set_self hlt]
  · rw [if_neg hposition, List.getElem?_set_ne (Ne.symm hposition)]

/-- A new call has no id. -/
theorem Correlated.begun (h : Correlated nextId calls pending) (target : Option String)
    (operation : Operation) :
    Correlated nextId (calls ++ [{ target, operation, slot := none, pc := .checking }]) pending := by
  have hissued : issued (calls ++ [{ target, operation, slot := none, pc := .checking }]) =
      issued calls := by
    simp [issued, CallPc.id]
  have hold : ∀ (position : Nat) (other : Call) (id : String),
      (calls ++ [({ target, operation, slot := none, pc := .checking } : Call)])[position]? =
        some other → other.pc.id = some id → calls[position]? = some other := by
    intro position other id hother hid
    rcases Nat.lt_or_ge position calls.length with hlt | hge
    · rwa [List.getElem?_append_left hlt] at hother
    · rw [List.getElem?_append_right hge] at hother
      obtain rfl := List.mem_singleton.mp (List.mem_of_getElem? hother)
      cases hid
  refine ⟨by rw [hissued]; exact h.counter, fun other hother id hid => ?_,
    fun left right first second id hleft hright hfirst hsecond => ?_, fun id position hpending => ?_,
    fun other hother hearly => ?_⟩
  · rw [hissued]
    obtain ⟨position, hposition⟩ := List.mem_iff_getElem?.mp hother
    exact h.ids other (List.mem_of_getElem? (hold position other id hposition hid)) id hid
  · exact h.unique left right first second id (hold left first id hleft hfirst)
      (hold right second id hright hsecond) hfirst hsecond
  · obtain ⟨other, hother, hid, hregistered, hslot⟩ := h.pending id position hpending
    have hlt := (List.getElem?_eq_some_iff.mp hother).1
    exact ⟨other, by rwa [List.getElem?_append_left hlt], hid, hregistered, hslot⟩
  · rcases List.mem_append.mp hother with hother | hother
    · exact h.early other hother hearly
    · obtain rfl := List.mem_singleton.mp hother
      rfl

/-- A call that goes on under the id it has, if any. An entry of the new map is an old one, and then
a call it points to stays registered, or it is the call's own. -/
theorem Correlated.moved (h : Correlated nextId calls pending) (hcall : calls[index]? = some call)
    (hid : pc.id = call.pc.id) (hearly : pc.early = true → call.pc.early = true)
    (hpending : ∀ id holder, pending'.get? id = some holder →
      (pending.get? id = some holder ∧ (holder = index → pc.registered = true)) ∨
      (holder = index ∧ pc.id = some id ∧ pc.registered = true ∧ call.slot = none)) :
    Correlated nextId (calls.set index { call with pc }) pending' := by
  obtain ⟨hlt, rfl⟩ := List.getElem?_eq_some_iff.mp hcall
  have hissued : issued (calls.set index { calls[index] with pc }) = issued calls := by
    have hpos : calls[index].pc.id.isSome = true → 0 < issued calls := fun hsome =>
      List.countP_pos_iff.mpr ⟨_, List.getElem_mem hlt, hsome⟩
    rw [issued, List.countP_set hlt, hid]
    split_ifs with hsome
    · exact Nat.sub_add_cancel (hpos hsome)
    · rfl
  have hold : ∀ (position : Nat) (other : Call),
      (calls.set index { calls[index] with pc })[position]? = some other →
      ∃ before, calls[position]? = some before ∧ other.pc.id = before.pc.id ∧
        other.slot = before.slot ∧ (other.pc.early = true → before.pc.early = true) := by
    intro position other hother
    rw [set_getElem? hcall] at hother
    split_ifs at hother with hposition
    · cases hother
      exact ⟨_, hposition ▸ hcall, hid, rfl, hearly⟩
    · exact ⟨other, hother, rfl, rfl, id⟩
  refine ⟨by rw [hissued]; exact h.counter, fun other hother id hotherId => ?_,
    fun left right first second id hleft hright hfirst hsecond => ?_, fun id holder hentry => ?_,
    fun other hother hotherEarly => ?_⟩
  · obtain ⟨position, hposition⟩ := List.mem_iff_getElem?.mp hother
    obtain ⟨before, hbefore, hsame, _⟩ := hold position other hposition
    rw [hissued]
    exact h.ids before (List.mem_of_getElem? hbefore) id (hsame ▸ hotherId)
  · obtain ⟨_, hfirstOld, hfirstId, _⟩ := hold left first hleft
    obtain ⟨_, hsecondOld, hsecondId, _⟩ := hold right second hright
    exact h.unique left right _ _ id hfirstOld hsecondOld (hfirstId ▸ hfirst) (hsecondId ▸ hsecond)
  · rcases hpending id holder hentry with ⟨hentry, hholder⟩ | ⟨rfl, hself, hregistered, hslot⟩
    · obtain ⟨other, hother, hotherId, hregistered, hslot⟩ := h.pending id holder hentry
      by_cases hsame : holder = index
      · subst hsame
        rw [hcall] at hother
        cases hother
        exact ⟨{ calls[holder] with pc }, by rw [set_getElem? hcall, if_pos rfl],
          hid.trans hotherId, hholder rfl, hslot⟩
      · exact ⟨other, by rw [set_getElem? hcall, if_neg hsame, hother], hotherId, hregistered, hslot⟩
    · exact ⟨{ calls[holder] with pc }, by rw [set_getElem? hcall, if_pos rfl], hself, hregistered,
        hslot⟩
  · obtain ⟨position, hposition⟩ := List.mem_iff_getElem?.mp hother
    obtain ⟨before, hbefore, _, hslot, hbeforeEarly⟩ := hold position other hposition
    rw [hslot]
    exact h.early before (List.mem_of_getElem? hbefore) (hbeforeEarly hotherEarly)

/-- A call that takes the next id. -/
theorem Correlated.fetched (h : Correlated nextId calls pending) (hcall : calls[index]? = some call)
    (hcalls : calls.length < 2 ^ 64) (hbefore : call.pc.id = none)
    (hid : pc.id = some (clientId nextId)) (hearly : call.pc.early = true) :
    Correlated (nextId + 1) (calls.set index { call with pc }) pending := by
  obtain ⟨hlt, rfl⟩ := List.getElem?_eq_some_iff.mp hcall
  have hissued : issued (calls.set index { calls[index] with pc }) = issued calls + 1 := by
    rw [issued, List.countP_set hlt, hid, hbefore]
    rfl
  have hbound : issued calls < 2 ^ 64 := lt_of_le_of_lt List.countP_le_length hcalls
  -- The new id differs from the ids taken before.
  have hnew : ∀ other ∈ calls, other.pc.id ≠ some (clientId nextId) := by
    intro other hother hsame
    obtain ⟨number, hnumber, heq⟩ := h.ids other hother _ hsame
    have hcounter := clientId_injective heq
    rw [h.counter] at hcounter
    have hmod : (1 + issued calls) % 2 ^ 64 = (1 + number) % 2 ^ 64 := by
      have := congrArg UInt64.toNat hcounter
      rwa [UInt64.toNat_ofNat', UInt64.toNat_ofNat'] at this
    omega
  have hold : ∀ (position : Nat) (other : Call) (id : String),
      (calls.set index { calls[index] with pc })[position]? = some other → other.pc.id = some id →
      (position = index ∧ id = clientId nextId) ∨ calls[position]? = some other := by
    intro position other id hother hotherId
    rw [set_getElem? hcall] at hother
    split_ifs at hother with hposition
    · cases hother
      exact Or.inl ⟨hposition, Option.some.inj (hotherId.symm.trans hid)⟩
    · exact Or.inr hother
  refine ⟨?_, fun other hother id hotherId => ?_,
    fun left right first second id hleft hright hfirst hsecond => ?_, fun id holder hentry => ?_,
    fun other hother hotherEarly => ?_⟩
  · rw [hissued, h.counter]
    exact (UInt64.ofNat_add (1 + issued calls) 1).symm
  · obtain ⟨position, hposition⟩ := List.mem_iff_getElem?.mp hother
    rw [hissued]
    rcases hold position other id hposition hotherId with ⟨_, rfl⟩ | hother
    · exact ⟨issued calls, Nat.lt_succ_self _, by rw [h.counter]⟩
    · obtain ⟨number, hnumber, heq⟩ := h.ids other (List.mem_of_getElem? hother) id hotherId
      exact ⟨number, Nat.lt_succ_of_lt hnumber, heq⟩
  · rcases hold left first id hleft hfirst with ⟨rfl, rfl⟩ | hleft
    · rcases hold right second _ hright hsecond with ⟨rfl, _⟩ | hright
      · rfl
      · exact absurd hsecond (hnew second (List.mem_of_getElem? hright))
    · rcases hold right second id hright hsecond with ⟨_, rfl⟩ | hright
      · exact absurd hfirst (hnew first (List.mem_of_getElem? hleft))
      · exact h.unique left right first second id hleft hright hfirst hsecond
  · obtain ⟨other, hother, hotherId, hregistered, hslot⟩ := h.pending id holder hentry
    have hne : holder ≠ index := by
      rintro rfl
      rw [hcall] at hother
      cases hother
      rw [hbefore] at hotherId
      cases hotherId
    exact ⟨other, by rw [set_getElem? hcall, if_neg hne, hother], hotherId, hregistered, hslot⟩
  · rcases List.mem_or_eq_of_mem_set hother with hother | rfl
    · exact h.early other hother hotherEarly
    · exact h.early calls[index] (List.getElem_mem hlt) hearly

/-- Results are handed out to calls whose entries leave the map. -/
theorem Correlated.received {after : List Call} (chosen : Nat → Prop) [DecidablePred chosen]
    {result : Outcome} (h : Correlated nextId calls pending)
    (hafter : ∀ position, after[position]? = calls[position]?.map fun call =>
      if chosen position then call.receive result else call)
    (hpending : ∀ id index, pending'.get? id = some index →
      pending.get? id = some index ∧ ¬chosen index) :
    Correlated nextId after pending' := by
  have hold : ∀ (position : Nat) (other : Call), after[position]? = some other →
      ∃ before, calls[position]? = some before ∧ other.pc = before.pc ∧
        (other.pc.early = true → other.slot = before.slot) := by
    intro position other hother
    rw [hafter, Option.map_eq_some_iff] at hother
    obtain ⟨before, hbefore, rfl⟩ := hother
    refine ⟨before, hbefore, ?_, ?_⟩
    · split_ifs <;> simp
    · split_ifs
      · rw [Call.receive_pc]
        exact Call.receive_slot_of_early result
      · exact fun _ => rfl
  have hissued : issued after = issued calls := by
    have hpcs : after.map Call.pc = calls.map Call.pc := by
      apply List.ext_getElem?
      intro position
      rw [List.getElem?_map, List.getElem?_map, hafter, Option.map_map]
      congr 1
      funext call
      simp only [Function.comp_apply]
      split_ifs <;> simp
    have hcount : ∀ list : List Call,
        issued list = (list.map Call.pc).countP fun pc => pc.id.isSome := by
      intro list
      rw [List.countP_map]
      rfl
    rw [hcount, hcount, hpcs]
  refine ⟨by rw [hissued]; exact h.counter, fun other hother id hid => ?_,
    fun left right first second id hleft hright hfirst hsecond => ?_, fun id index hentry => ?_,
    fun other hother hearly => ?_⟩
  · obtain ⟨position, hposition⟩ := List.mem_iff_getElem?.mp hother
    obtain ⟨before, hbefore, hpc, _⟩ := hold position other hposition
    rw [hissued]
    exact h.ids before (List.mem_of_getElem? hbefore) id (hpc ▸ hid)
  · obtain ⟨_, hfirstOld, hfirstPc, _⟩ := hold left first hleft
    obtain ⟨_, hsecondOld, hsecondPc, _⟩ := hold right second hright
    exact h.unique left right _ _ id hfirstOld hsecondOld (hfirstPc ▸ hfirst) (hsecondPc ▸ hsecond)
  · obtain ⟨hentry, hchosen⟩ := hpending id index hentry
    obtain ⟨call, hcall, hid, hregistered, hslot⟩ := h.pending id index hentry
    exact ⟨call, by rw [hafter, hcall, Option.map_some, if_neg hchosen], hid, hregistered, hslot⟩
  · obtain ⟨position, hposition⟩ := List.mem_iff_getElem?.mp hother
    obtain ⟨before, hbefore, hpc, hslot⟩ := hold position other hposition
    rw [hslot hearly]
    exact h.early before (List.mem_of_getElem? hbefore) (hpc ▸ hearly)

end

/-- The calls after the drain of `pending`. -/
def State.drained (s : State) (error : Option ClientError) : List Call :=
  s.pending.entries.foldl
    (fun calls entry => deliver calls entry.2 (.error (error.getD .disconnected))) s.calls

theorem State.send_sent {s t : State} {command : ClientCommand} (h : s.send command = .sent t) :
    t = { s with queue := s.queue ++ [command] } := by
  rw [State.send] at h
  split_ifs at h
  exact (SendResult.sent.inj h).symm

/-- One step begins a call, moves one call on, hands out one response, drains the pending map, or
leaves the counter, the calls and the pending map as they are. -/
theorem State.step_cases {s t : State} {label : Label} (h : s.step label = some t) :
    (∃ target operation, label = .call target operation ∧
      t = { s with calls := s.calls ++ [{ target, operation, slot := none, pc := .checking }] }) ∨
    (∃ index call shared pc, s.calls[index]? = some call ∧
      (s.callTurn index call = some (shared, pc) ∨
        (∃ id, call.pc = .waiting id ∧ pc = .timingOut id) ∧ shared = s) ∧
      t = shared.moveCall index call pc) ∨
    (∃ value unreadable response, label = .read (.text value unreadable) ∧
      readText value = .response response ∧ t = s.handleResponse response) ∨
    (∃ error, s.connection = .announced error ∧ t.nextId = s.nextId ∧ t.calls = s.drained error ∧
      t.pending = OrderedMap.empty) ∨
    (t.nextId = s.nextId ∧ t.calls = s.calls ∧ t.pending = s.pending) := by
  cases label with
  | call target operation =>
      exact Or.inl ⟨target, operation, rfl, (Option.some.inj h).symm⟩
  | turn index =>
      obtain ⟨call, hcall, h⟩ := Option.bind_eq_some_iff.mp h
      obtain ⟨⟨shared, pc⟩, hturn, h⟩ := Option.bind_eq_some_iff.mp h
      exact Or.inr (Or.inl ⟨index, call, shared, pc, hcall, Or.inl hturn, (Option.some.inj h).symm⟩)
  | timeout index =>
      obtain ⟨call, hcall, h⟩ := Option.bind_eq_some_iff.mp h
      split at h
      · rename_i id hpc
        exact Or.inr (Or.inl ⟨index, call, s, _, hcall, Or.inr ⟨⟨id, hpc, rfl⟩, rfl⟩,
          (Option.some.inj h).symm⟩)
      · cases h
  | close =>
      cases h
      exact Or.inr (Or.inr (Or.inr (Or.inr ⟨rfl, rfl, rfl⟩)))
  | closeTurn index =>
      refine Or.inr (Or.inr (Or.inr (Or.inr ?_)))
      obtain ⟨pc, hpc, h⟩ := Option.bind_eq_some_iff.mp h
      cases pc with
      | swapping => cases h; exact ⟨rfl, rfl, rfl⟩
      | sending =>
          dsimp only at h
          split at h
          · rename_i hsent
            obtain rfl := State.send_sent hsent
            cases h
            exact ⟨rfl, rfl, rfl⟩
          · cases h; exact ⟨rfl, rfl, rfl⟩
          · cases h
      | waiting =>
          dsimp only at h
          split_ifs at h
          cases h
          exact ⟨rfl, rfl, rfl⟩
      | returned => cases h
  | command written =>
      refine Or.inr (Or.inr (Or.inr (Or.inr ?_)))
      simp only [State.step] at h
      split_ifs at h
      unfold State.command at h
      split at h
      · cases h
      · cases h
        split_ifs <;> exact ⟨rfl, rfl, rfl⟩
      · cases h; exact ⟨rfl, rfl, rfl⟩
  | handlesDropped =>
      refine Or.inr (Or.inr (Or.inr (Or.inr ?_)))
      simp only [State.step] at h
      split_ifs at h
      cases h
      exact ⟨rfl, rfl, rfl⟩
  | read item =>
      simp only [State.step] at h
      split_ifs at h
      obtain rfl := Option.some.inj h
      cases item with
      | text value unreadable =>
          cases hmessage : readText value with
          | response response =>
              refine Or.inr (Or.inr (Or.inl ⟨value, unreadable, response, rfl, hmessage, ?_⟩))
              rw [State.read, hmessage]
              rfl
          | event event =>
              refine Or.inr (Or.inr (Or.inr (Or.inr ?_)))
              simp only [State.read, hmessage, State.handleMessage]
              cases handleEvent s.snapshot event <;> exact ⟨rfl, rfl, rfl⟩
          | malformed =>
              refine Or.inr (Or.inr (Or.inr (Or.inr ?_)))
              simp only [State.read, hmessage, State.handleMessage]
              exact ⟨rfl, rfl, rfl⟩
      | _ => exact Or.inr (Or.inr (Or.inr (Or.inr ⟨rfl, rfl, rfl⟩)))
  | terminate =>
      simp only [State.step, State.terminate] at h
      split at h
      case h_6 error hannounced =>
        cases h
        exact Or.inr (Or.inr (Or.inr (Or.inl ⟨error, hannounced, rfl, rfl, rfl⟩)))
      all_goals
        cases h
        try exact Or.inr (Or.inr (Or.inr (Or.inr ⟨rfl, rfl, rfl⟩)))

/-- A section of a call leaves the list of calls to `moveCall` and the connection to its task. -/
theorem State.callTurn_rest {s shared : State} {index : Nat} {call : Call} {pc : CallPc}
    (h : s.callTurn index call = some (shared, pc)) :
    shared.calls = s.calls ∧ shared.disconnectError = s.disconnectError ∧
      shared.connection = s.connection := by
  unfold State.callTurn at h
  split at h
  case h_4 request _ =>
    split at h
    · rename_i hsent
      obtain rfl := State.send_sent hsent
      cases h
      exact ⟨rfl, rfl, rfl⟩
    · cases h; exact ⟨rfl, rfl, rfl⟩
    · cases h
  case h_6 =>
    split at h
    · cases h; exact ⟨rfl, rfl, rfl⟩
    · split_ifs at h
      cases h
      exact ⟨rfl, rfl, rfl⟩
  all_goals
    cases h
    try exact ⟨rfl, rfl, rfl⟩

/-! ### Runs -/

def State.Correlated (s : State) : Prop := RemoteClient.Correlated s.nextId s.calls s.pending

theorem holdsSender_iff (s : State) (index : Nat) :
    s.holdsSender index = true ↔ ∃ id, s.pending.get? id = some index := by
  rw [State.holdsSender, List.any_eq_true]
  constructor
  · rintro ⟨⟨id, holder⟩, hmem, hholder⟩
    obtain rfl : holder = index := by simpa using hholder
    exact ⟨id, (s.pending.mem_entries_iff).mp hmem⟩
  · rintro ⟨id, hid⟩
    exact ⟨(id, index), (s.pending.mem_entries_iff).mpr hid, by simp⟩

/-- An unanswered call is the only one its id points to. -/
theorem State.Correlated.holder {s : State} (h : s.Correlated) {index holder : Nat} {call : Call}
    {id : String} (hcall : s.calls[index]? = some call) (hid : call.pc.id = some id)
    (hentry : s.pending.get? id = some holder) :
    holder = index ∧ call.pc.registered = true ∧ call.slot = none := by
  obtain ⟨other, hother, hotherId, hregistered, hslot⟩ := h.pending id holder hentry
  obtain rfl := h.unique holder index other call id hother hcall hotherId hid
  rw [hcall] at hother
  cases hother
  exact ⟨rfl, hregistered, hslot⟩

/-- The entries that point to a call are under its id. -/
theorem State.Correlated.held {s : State} (h : s.Correlated) {index : Nat} {call : Call} {id : String}
    (hcall : s.calls[index]? = some call) (hentry : s.pending.get? id = some index) :
    call.pc.id = some id ∧ call.pc.registered = true ∧ call.slot = none := by
  obtain ⟨other, hother, hid, hregistered, hslot⟩ := h.pending id index hentry
  rw [hcall] at hother
  cases hother
  exact ⟨hid, hregistered, hslot⟩

theorem State.Correlated.turn {s shared : State} {index : Nat} {call : Call} {pc : CallPc}
    (h : s.Correlated) (hcalls : s.calls.length < 2 ^ 64) (hcall : s.calls[index]? = some call)
    (hturn : s.callTurn index call = some (shared, pc)) : (shared.moveCall index call pc).Correlated := by
  -- What a section that takes no id and adds no entry has to show.
  have hmoved : ∀ {pending : OrderedMap String Nat} {pc : CallPc}, pc.id = call.pc.id →
      (pc.early = true → call.pc.early = true) →
      (∀ id holder, pending.get? id = some holder →
        s.pending.get? id = some holder ∧ (holder = index → pc.registered = true)) →
      RemoteClient.Correlated s.nextId (s.calls.set index { call with pc }) pending :=
    fun hid hearly hpending => h.moved hcall hid hearly fun id holder hentry =>
      Or.inl (hpending id holder hentry)
  have herased : ∀ id, call.pc.id = some id → ∀ other holder,
      (s.pending.erase id).get? other = some holder →
      s.pending.get? other = some holder ∧ holder ≠ index := by
    intro id hid other holder hentry
    rw [OrderedMap.get?_erase] at hentry
    split_ifs at hentry with hother
    refine ⟨hentry, ?_⟩
    rintro rfl
    exact hother (Option.some.inj ((h.held hcall hentry).1.symm.trans hid))
  unfold State.callTurn at hturn
  split at hturn
  case h_1 hpc =>
    cases hturn
    refine hmoved ?_ (fun _ => by rw [hpc]; rfl) fun id holder hentry => ⟨hentry, ?_⟩
    · rw [hpc]; split_ifs <;> rfl
    · rintro rfl
      have := (h.held hcall hentry).1
      rw [hpc] at this
      cases this
  case h_2 hpc =>
    cases hturn
    refine h.fetched hcall hcalls (by rw [hpc]; rfl) ?_ (by rw [hpc]; rfl)
    dsimp only
    split <;> rfl
  case h_3 request hpc =>
    cases hturn
    refine h.moved hcall (by rw [hpc]; rfl) (fun hearly => (by cases hearly)) ?_
    intro id holder hentry
    replace hentry : (s.pending.insert request.id index).get? id = some holder := hentry
    rw [OrderedMap.get?_insert] at hentry
    split_ifs at hentry with hid
    · cases hentry
      exact Or.inr ⟨rfl, by rw [hid]; rfl, rfl,
        h.early call (List.mem_of_getElem? hcall) (by rw [hpc]; rfl)⟩
    · exact Or.inl ⟨hentry, fun _ => rfl⟩
  case h_4 request hpc =>
    split at hturn
    · rename_i hsent
      obtain rfl := State.send_sent hsent
      cases hturn
      exact hmoved (by rw [hpc]; rfl) (fun hearly => (by cases hearly)) fun _ _ hentry =>
        ⟨hentry, fun _ => rfl⟩
    · cases hturn
      exact hmoved (by rw [hpc]; rfl) (fun hearly => (by cases hearly)) fun _ _ hentry =>
        ⟨hentry, fun _ => rfl⟩
    · cases hturn
  case h_5 id hpc =>
    cases hturn
    refine hmoved (by rw [hpc]; rfl) (fun hearly => (by cases hearly)) fun other holder hentry => ?_
    obtain ⟨hentry, hne⟩ := herased id (by rw [hpc]; rfl) other holder hentry
    exact ⟨hentry, fun heq => absurd heq hne⟩
  case h_6 id hpc =>
    split at hturn
    · rename_i result hslot
      cases hturn
      refine hmoved (by rw [hpc]; rfl) (fun hearly => (by cases hearly)) fun other holder hentry =>
        ⟨hentry, ?_⟩
      rintro rfl
      rw [(h.held hcall hentry).2.2] at hslot
      cases hslot
    · split_ifs at hturn with hholds
      cases hturn
      refine hmoved (by rw [hpc]; rfl) (fun hearly => (by cases hearly)) fun other holder hentry =>
        ⟨hentry, ?_⟩
      rintro rfl
      exact absurd ((holdsSender_iff s holder).mpr ⟨other, hentry⟩) hholds
  case h_7 id hpc =>
    cases hturn
    refine hmoved (by rw [hpc]; rfl) (fun hearly => (by cases hearly)) fun other holder hentry => ?_
    obtain ⟨hentry, hne⟩ := herased id (by rw [hpc]; rfl) other holder hentry
    exact ⟨hentry, fun heq => absurd heq hne⟩
  case h_8 id hpc =>
    cases hturn
    refine hmoved (by rw [hpc]; rfl) (fun hearly => (by cases hearly)) fun other holder hentry =>
      ⟨hentry, ?_⟩
    rintro rfl
    have := (h.held hcall hentry).2.1
    rw [hpc] at this
    cases this
  case h_9 => cases hturn

theorem State.Correlated.step {s t : State} {label : Label} (h : s.Correlated)
    (hcalls : s.calls.length < 2 ^ 64) (hstep : s.step label = some t) : t.Correlated := by
  rcases State.step_cases hstep with ⟨target, operation, _, rfl⟩ |
    ⟨index, call, shared, pc, hcall, hturn | ⟨⟨id, hpc, rfl⟩, rfl⟩, rfl⟩ |
    ⟨_, _, response, _, _, rfl⟩ | ⟨error, _, hnext, hdrained, hempty⟩ | ⟨hnext, hsame, hpending⟩
  · exact h.begun target operation
  · exact h.turn hcalls hcall hturn
  · refine RemoteClient.Correlated.moved h hcall (by rw [hpc]; rfl) (fun hearly => (by cases hearly))
      fun other holder hentry => Or.inl ⟨hentry, fun _ => rfl⟩
  · rw [State.handleResponse]
    split
    · exact h
    · rename_i index hentry
      refine RemoteClient.Correlated.received (· = index) h
        (fun position => getElem?_deliver _ _ _ _) fun id holder hid => ?_
      rw [OrderedMap.get?_erase] at hid
      split_ifs at hid with hne
      refine ⟨hid, ?_⟩
      rintro rfl
      obtain ⟨call, hcall, hcallId, _⟩ := h.pending _ _ hentry
      exact hne (Option.some.inj ((h.held hcall hid).1.symm.trans hcallId))
  · rw [State.Correlated, hnext, hdrained, hempty]
    exact RemoteClient.Correlated.received (· ∈ s.pending.entries.map Prod.snd) h (getElem?_drain _ _ _)
      (by simp)
  · rw [State.Correlated, hnext, hsame, hpending]
    exact h

theorem length_drain (entries : List (String × Nat)) (calls : List Call) (result : Outcome) :
    (entries.foldl (fun calls entry => deliver calls entry.2 result) calls).length = calls.length := by
  induction entries generalizing calls with
  | nil => rfl
  | cons entry rest ih => rw [List.foldl_cons, ih, deliver, List.length_modify]

/-- A step keeps the number of calls or begins one. -/
theorem State.calls_step {s t : State} {label : Label} (hstep : s.step label = some t) :
    t.calls.length = s.calls.length ∨ ∃ target operation,
      t.calls = s.calls ++ [{ target, operation, slot := none, pc := .checking }] := by
  rcases State.step_cases hstep with ⟨target, operation, _, rfl⟩ |
    ⟨index, call, shared, pc, hcall, hturn | ⟨_, rfl⟩, rfl⟩ |
    ⟨_, _, response, _, _, rfl⟩ | ⟨error, _, _, hdrained, _⟩ | ⟨_, hsame, _⟩
  · exact Or.inr ⟨target, operation, rfl⟩
  · exact Or.inl (by simp [State.moveCall, (State.callTurn_rest hturn).1])
  · exact Or.inl (by simp [State.moveCall])
  · rw [State.handleResponse]
    split
    · exact Or.inl rfl
    · exact Or.inl (List.length_modify _ _ _)
  · exact Or.inl (hdrained ▸ length_drain _ _ _)
  · exact Or.inl (by rw [hsame])

theorem State.length_calls_step {s t : State} {label : Label} (hstep : s.step label = some t) :
    s.calls.length ≤ t.calls.length := by
  rcases State.calls_step hstep with heq | ⟨_, _, heq⟩
  · exact heq.ge
  · simp [heq]

/-- In a run with fewer than `2 ^ 64` calls every state is correlated. -/
theorem Run.correlated {history : List (State × Label)} {s : State} (hrun : Run history s)
    (hcalls : s.calls.length < 2 ^ 64) : s.Correlated := by
  induction hrun with
  | refl => exact RemoteClient.Correlated.connected
  | tail _ hstep ih =>
      have hlength := lt_of_le_of_lt (State.length_calls_step hstep) hcalls
      exact (ih hlength).step hlength hstep

/-- The label handles this response. -/
def Label.Reads (label : Label) (response : Response) : Prop :=
  ∃ value unreadable, label = .read (.text value unreadable) ∧ readText value = .response response

inductive Call.Step (s : State) (label : Label) (index : Nat) (call : Call) : Call → Prop where
  | kept : Call.Step s label index call call
  | turn (shared : State) (pc : CallPc) (h : s.callTurn index call = some (shared, pc)) :
      Call.Step s label index call { call with pc }
  | timeout (id : String) (h : call.pc = .waiting id) :
      Call.Step s label index call { call with pc := .timingOut id }
  | answered (response : Response) (hreads : label.Reads response)
      (hentry : s.pending.get? response.id = some index) :
      Call.Step s label index call (call.receive (outcomeOf response))
  | drained (error : Option ClientError) (h : s.connection = .announced error)
      (hentry : ∃ id, s.pending.get? id = some index) :
      Call.Step s label index call (call.receive (.error (error.getD .disconnected)))

theorem State.step_call {s t : State} {label : Label} (hstep : s.step label = some t) {index : Nat}
    {call : Call} (hcall : s.calls[index]? = some call) :
    ∃ later, t.calls[index]? = some later ∧ Call.Step s label index call later := by
  have hmoved : ∀ {position : Nat} {other : Call} {shared : State} {pc : CallPc},
      s.calls[position]? = some other → shared.calls = s.calls →
      Call.Step s label position other { other with pc } →
      ∃ later, (shared.moveCall position other pc).calls[index]? = some later ∧
        Call.Step s label index call later := by
    intro position other shared pc hother hshared hnext
    rw [State.moveCall, hshared, set_getElem? hother]
    split_ifs with hposition
    · subst hposition
      rw [hcall] at hother
      cases hother
      exact ⟨_, rfl, hnext⟩
    · exact ⟨call, hcall, .kept⟩
  rcases State.step_cases hstep with ⟨target, operation, _, rfl⟩ |
    ⟨position, other, shared, pc, hother, hturn | ⟨⟨id, hpc, rfl⟩, rfl⟩, rfl⟩ |
    ⟨value, unreadable, response, hlabel, hread, rfl⟩ | ⟨error, hannounced, _, hdrained, _⟩ |
    ⟨_, hsame, _⟩
  · have hlt := (List.getElem?_eq_some_iff.mp hcall).1
    exact ⟨call, (List.getElem?_append_left hlt).trans hcall, .kept⟩
  · exact hmoved hother (State.callTurn_rest hturn).1 (.turn shared pc hturn)
  · exact hmoved hother rfl (.timeout id hpc)
  · rw [State.handleResponse]
    split
    · exact ⟨call, hcall, .kept⟩
    · rename_i holder hentry
      refine ⟨_, (getElem?_deliver _ _ _ _).trans (by rw [hcall]; rfl), ?_⟩
      split_ifs with hholder
      · subst hholder
        exact .answered response ⟨value, unreadable, hlabel, hread⟩ hentry
      · exact .kept
  · rw [hdrained]
    refine ⟨_, (getElem?_drain _ _ _ _).trans (by rw [hcall]; rfl), ?_⟩
    split_ifs with hmem
    · obtain ⟨⟨id, holder⟩, hentry, rfl⟩ := List.mem_map.mp hmem
      exact .drained error hannounced ⟨id, s.pending.mem_entries_iff.mp hentry⟩
    · exact .kept
  · exact ⟨call, hsame ▸ hcall, .kept⟩

/-- A call keeps its id. -/
theorem Call.Step.id {s : State} {label : Label} {index : Nat} {call later : Call} {id : String}
    (h : Call.Step s label index call later) (hid : call.pc.id = some id) :
    later.pc.id = some id := by
  cases h with
  | kept => exact hid
  | turn shared pc hturn =>
      unfold State.callTurn at hturn
      split at hturn
      all_goals
        rename_i hpc
        rw [hpc] at hid
      case h_4 =>
        split at hturn <;> cases hturn <;> exact hid
      case h_6 =>
        split at hturn
        · cases hturn; exact hid
        · split_ifs at hturn
          cases hturn
          exact hid
      all_goals cases hturn <;> first | exact hid | cases hid
  | timeout id' hpc =>
      rw [hpc] at hid
      exact hid
  | answered response _ _ => rwa [Call.receive_pc]
  | drained error _ _ => rwa [Call.receive_pc]

/-- A call that has returned keeps its outcome. -/
theorem Call.Step.returned {s : State} {label : Label} {index : Nat} {call later : Call}
    {id : Option String} {outcome : Outcome} (h : Call.Step s label index call later)
    (hreturned : call.pc = .returned id outcome) : later.pc = .returned id outcome := by
  cases h with
  | kept => exact hreturned
  | turn shared pc hturn =>
      rw [State.callTurn, hreturned] at hturn
      cases hturn
  | timeout id' hpc =>
      rw [hreturned] at hpc
      cases hpc
  | answered response _ _ => rwa [Call.receive_pc]
  | drained error _ _ => rwa [Call.receive_pc]

/-- The outcome is what a server response said. -/
def IsAnswer : Outcome → Prop
  | .ok _ => True
  | .error (.remote _ _) => True
  | .error _ => False

/-- The error the connection task carries from its loop. -/
def ConnectionPc.error : ConnectionPc → Option ClientError
  | ended error | recorded error | flagged error | announced error => error
  | selecting | returned | finished => none

/-- No connection error is an answer of the server. -/
structure State.Quiet (s : State) : Prop where
  stored : ∀ error, s.disconnectError = some error → ¬IsAnswer (.error error)
  carried : ∀ error, s.connection.error = some error → ¬IsAnswer (.error error)

theorem State.Quiet.connected : State.connected.Quiet :=
  ⟨fun _ h => (by cases h), fun _ h => (by cases h)⟩

theorem not_isAnswer_getD {error : Option ClientError}
    (h : ∀ e, error = some e → ¬IsAnswer (.error e)) :
    ¬IsAnswer (.error (error.getD .disconnected)) := by
  cases error with
  | none => exact not_false
  | some e => exact h e rfl

theorem State.Quiet.step {s t : State} {label : Label} (h : s.Quiet) (hstep : s.step label = some t) :
    t.Quiet := by
  have hsame : ∀ {t : State}, t.disconnectError = s.disconnectError → t.connection = s.connection →
      t.Quiet := fun hstored hconnection =>
    ⟨fun e he => h.stored e (hstored ▸ he), fun e he => h.carried e (hconnection ▸ he)⟩
  have hfinish : ∀ {t : State} {error : Option ClientError}, t.disconnectError = s.disconnectError →
      (∀ e, error = some e → ¬IsAnswer (.error e)) → (t.finish error).Quiet := fun hstored herror =>
    ⟨fun e he => h.stored e (hstored ▸ he), herror⟩
  cases label with
  | call target operation => cases hstep; exact hsame rfl rfl
  | turn index =>
      obtain ⟨call, _, hstep⟩ := Option.bind_eq_some_iff.mp hstep
      obtain ⟨⟨shared, pc⟩, hturn, hstep⟩ := Option.bind_eq_some_iff.mp hstep
      cases hstep
      exact hsame (State.callTurn_rest hturn).2.1 (State.callTurn_rest hturn).2.2
  | timeout index =>
      obtain ⟨call, _, hstep⟩ := Option.bind_eq_some_iff.mp hstep
      split at hstep
      · cases hstep; exact hsame rfl rfl
      · cases hstep
  | close => cases hstep; exact hsame rfl rfl
  | closeTurn index =>
      obtain ⟨pc, _, hstep⟩ := Option.bind_eq_some_iff.mp hstep
      cases pc with
      | swapping => cases hstep; exact hsame rfl rfl
      | sending =>
          dsimp only at hstep
          split at hstep
          · rename_i hsent
            obtain rfl := State.send_sent hsent
            cases hstep
            exact hsame rfl rfl
          · cases hstep; exact hsame rfl rfl
          · cases hstep
      | waiting =>
          dsimp only at hstep
          split_ifs at hstep
          cases hstep
          exact hsame rfl rfl
      | returned => cases hstep
  | command written =>
      simp only [State.step] at hstep
      split_ifs at hstep
      unfold State.command at hstep
      split at hstep
      · cases hstep
      · cases hstep
        split_ifs
        · exact hsame rfl rfl
        · exact hfinish rfl fun e he => (by cases he; exact not_false)
      · cases hstep
        exact hfinish rfl fun e he => (by cases he)
  | handlesDropped =>
      simp only [State.step] at hstep
      split_ifs at hstep
      cases hstep
      exact hfinish rfl fun e he => (by cases he)
  | read item =>
      simp only [State.step] at hstep
      split_ifs at hstep
      obtain rfl := Option.some.inj hstep
      cases item with
      | text value unreadable =>
          unfold State.read State.handleMessage
          dsimp only
          cases readText value with
          | event event =>
              dsimp only
              cases handleEvent s.snapshot event with
              | ok next => exact hsame rfl rfl
              | error error => exact hfinish rfl fun e he => (by cases he; exact not_false)
          | response response =>
              dsimp only
              unfold State.handleResponse
              split <;> exact hsame rfl rfl
          | malformed => exact hfinish rfl fun e he => (by cases he; exact not_false)
      | close => exact hfinish rfl fun e he => (by cases he; exact not_false)
      | other => exact hsame rfl rfl
      | failed message => exact hfinish rfl fun e he => (by cases he; exact not_false)
  | terminate =>
      simp only [State.step, State.terminate] at hstep
      split at hstep
      case h_1 | h_2 => cases hstep
      all_goals
        rename_i hconnection
        cases hstep
        have hcarried := h.carried
        rw [hconnection] at hcarried
      · exact ⟨hcarried, hcarried⟩
      · exact ⟨h.stored, hcarried⟩
      · exact ⟨h.stored, hcarried⟩
      · exact ⟨h.stored, fun _ he => (by cases he)⟩
      · exact ⟨h.stored, fun _ he => (by cases he)⟩

/-- The `position`-th step of the run handles this response. -/
def ReadsAt (history : List (State × Label)) (position : Nat) (response : Response) : Prop :=
  ∃ before label, history[position]? = some (before, label) ∧ label.Reads response

/-- Every answer a call holds or has returned came in a response with the id of the call. -/
structure Answered (history : List (State × Label)) (call : Call) : Prop where
  slot : ∀ result, call.slot = some result → IsAnswer result → ∃ position response,
    ReadsAt history position response ∧ call.pc.id = some response.id ∧ result = outcomeOf response
  returned : ∀ id outcome, call.pc = .returned id outcome → IsAnswer outcome →
    call.slot = some outcome

theorem ReadsAt.tail {history : List (State × Label)} {position : Nat} {response : Response}
    (h : ReadsAt history position response) (entry : State × Label) :
    ReadsAt (history ++ [entry]) position response := by
  obtain ⟨before, label, hget, hreads⟩ := h
  have hlt := (List.getElem?_eq_some_iff.mp hget).1
  exact ⟨before, label, (List.getElem?_append_left hlt).trans hget, hreads⟩

/-- A call that returns an answer takes it from its channel. -/
theorem State.callTurn_answer {s shared : State} {index : Nat} {call : Call} {id : Option String}
    {outcome : Outcome} (hquiet : s.Quiet)
    (h : s.callTurn index call = some (shared, .returned id outcome)) (hanswer : IsAnswer outcome) :
    call.slot = some outcome := by
  unfold State.callTurn at h
  split at h
  case h_1 =>
    split_ifs at h <;> cases h
  case h_2 =>
    simp only [Option.some.injEq, Prod.mk.injEq] at h
    obtain ⟨_, h⟩ := h
    split at h
    · cases h
      exact absurd hanswer not_false
    · cases h
  case h_4 =>
    split at h <;> cases h
  case h_6 =>
    split at h
    · rename_i hslot
      cases h
      exact hslot
    · split_ifs at h
      cases h
  case h_7 =>
    cases h
    exact absurd hanswer not_false
  case h_8 =>
    cases h
    exact absurd hanswer (not_isAnswer_getD hquiet.stored)
  all_goals cases h

theorem Answered.step {history : List (State × Label)} {s : State} {label : Label} {index : Nat}
    {call later : Call} (h : Answered history call) (hquiet : s.Quiet) (hcorrelated : s.Correlated)
    (hcall : s.calls[index]? = some call) (hnext : Call.Step s label index call later) :
    Answered (history ++ [(s, label)]) later := by
  have hslot : ∀ {pc : CallPc}, (∀ id, call.pc.id = some id → pc.id = some id) →
      ∀ result, call.slot = some result → IsAnswer result → ∃ position response,
        ReadsAt (history ++ [(s, label)]) position response ∧ pc.id = some response.id ∧
          result = outcomeOf response := by
    intro pc hid result hresult hanswer
    obtain ⟨position, response, hreads, hcallId, heq⟩ := h.slot result hresult hanswer
    exact ⟨position, response, hreads.tail _, hid _ hcallId, heq⟩
  have hreceived : ∀ {result : Outcome}, call.slot = none → ∀ id outcome,
      (call.receive result).pc = .returned id outcome → IsAnswer outcome →
      (call.receive result).slot = some outcome := by
    intro result hnone id outcome hpc hanswer
    rw [Call.receive_pc] at hpc
    have := h.returned id outcome hpc hanswer
    rw [hnone] at this
    cases this
  cases hnext with
  | kept => exact ⟨hslot fun _ hid => hid, h.returned⟩
  | turn shared pc hturn =>
      refine ⟨hslot fun id hid => (Call.Step.turn shared pc hturn : Call.Step s label index _ _).id hid,
        fun id outcome hpc hanswer => ?_⟩
      dsimp only at hpc
      subst hpc
      show call.slot = some outcome
      exact State.callTurn_answer hquiet hturn hanswer
  | timeout id hpc =>
      refine ⟨hslot fun other hid => ?_, fun _ _ hreturned => (by cases hreturned)⟩
      rw [hpc] at hid
      exact hid
  | answered response hreads hentry =>
      obtain ⟨hid, _, hnone⟩ := hcorrelated.held hcall hentry
      refine ⟨fun result hresult _ => ?_, hreceived hnone⟩
      rw [Call.receive_pc]
      refine ⟨history.length, response, ⟨s, label, by simp, hreads⟩, hid, ?_⟩
      rcases Call.receive_slot (outcomeOf response) call with hsame | hsome
      · rw [hsame, hnone] at hresult
        cases hresult
      · rw [hsome] at hresult
        exact (Option.some.inj hresult).symm
  | drained error hannounced hentry =>
      obtain ⟨id, hentry⟩ := hentry
      obtain ⟨_, _, hnone⟩ := hcorrelated.held hcall hentry
      refine ⟨fun result hresult hanswer => ?_, hreceived hnone⟩
      have herror : ¬IsAnswer (.error (error.getD .disconnected)) := by
        refine not_isAnswer_getD ?_
        have hcarried := hquiet.carried
        rwa [hannounced] at hcarried
      rcases Call.receive_slot (.error (error.getD .disconnected)) call with hsame | hsome
      · rw [hsame, hnone] at hresult
        cases hresult
      · rw [hsome] at hresult
        exact absurd (Option.some.inj hresult ▸ hanswer) herror

/-- The calls of a later state are those of the one before and new ones. -/
theorem State.step_call_before {s t : State} {label : Label} (hstep : s.step label = some t)
    {index : Nat} {later : Call} (hlater : t.calls[index]? = some later) :
    (∃ call, s.calls[index]? = some call ∧ Call.Step s label index call later) ∨
      s.calls[index]? = none ∧ later.slot = none ∧ later.pc = .checking := by
  cases hcall : s.calls[index]? with
  | some call =>
      obtain ⟨after, hafter, hnext⟩ := State.step_call hstep hcall
      rw [hlater] at hafter
      cases hafter
      exact Or.inl ⟨call, rfl, hnext⟩
  | none =>
      have hge : s.calls.length ≤ index := List.getElem?_eq_none_iff.mp hcall
      rcases State.calls_step hstep with hlength | ⟨target, operation, hcalls⟩
      · rw [← hlength] at hge
        rw [List.getElem?_eq_none_iff.mpr hge] at hlater
        cases hlater
      · rw [hcalls, List.getElem?_append_right hge] at hlater
        obtain rfl := List.mem_singleton.mp (List.mem_of_getElem? hlater)
        exact Or.inr ⟨rfl, rfl, rfl⟩

theorem Run.quiet {history : List (State × Label)} {s : State} (hrun : Run history s) : s.Quiet := by
  induction hrun with
  | refl => exact State.Quiet.connected
  | tail _ hstep ih => exact ih.step hstep

theorem Run.answered {history : List (State × Label)} {s : State} (hrun : Run history s)
    (hcalls : s.calls.length < 2 ^ 64) : ∀ call ∈ s.calls, Answered history call := by
  induction hrun with
  | refl => simp [State.connected]
  | @tail t u history label hrun hstep ih =>
      have hlength := lt_of_le_of_lt (State.length_calls_step hstep) hcalls
      intro later hlater
      obtain ⟨index, hindex⟩ := List.mem_iff_getElem?.mp hlater
      rcases State.step_call_before hstep hindex with ⟨call, hcall, hnext⟩ | ⟨_, hslot, hpc⟩
      · exact (ih hlength call (List.mem_of_getElem? hcall)).step (Run.quiet hrun)
          (Run.correlated hrun hlength) hcall hnext
      · exact ⟨fun result hresult => (by rw [hslot] at hresult; cases hresult),
          fun id outcome hreturned => (by rw [hpc] at hreturned; cases hreturned)⟩

theorem Label.Reads.unique {label : Label} {left right : Response} (hleft : label.Reads left)
    (hright : label.Reads right) : left = right := by
  obtain ⟨value, unreadable, rfl, hleft⟩ := hleft
  obtain ⟨_, _, heq, hright⟩ := hright
  cases heq
  rw [hleft] at hright
  cases hright
  rfl

/-- The step puts something into the channel of this call. -/
def Delivers (before after : State) (index : Nat) : Prop :=
  (after.calls[index]?.bind Call.slot) ≠ before.calls[index]?.bind Call.slot

/-- A response goes to the call its id points to, if to any. -/
theorem State.step_delivers {s t : State} {label : Label} {response : Response} {index : Nat}
    (hstep : s.step label = some t) (hreads : label.Reads response) (hdelivers : Delivers s t index) :
    s.pending.get? response.id = some index := by
  cases hlater : t.calls[index]? with
  | none =>
      have hge := List.getElem?_eq_none_iff.mp hlater
      have hnone := List.getElem?_eq_none_iff.mpr ((State.length_calls_step hstep).trans hge)
      exact absurd (by rw [hlater, hnone]) hdelivers
  | some later =>
      rcases State.step_call_before hstep hlater with ⟨call, hcall, hnext⟩ | ⟨hnone, hslot, _⟩
      · have hslot : later.slot ≠ call.slot := by
          rwa [Delivers, hlater, hcall] at hdelivers
        cases hnext with
        | kept => exact absurd rfl hslot
        | turn shared pc hturn => exact absurd rfl hslot
        | timeout id hpc => exact absurd rfl hslot
        | answered other hother hentry => rwa [hreads.unique hother]
        | drained error hannounced hentry =>
            obtain ⟨value, unreadable, rfl, _⟩ := hreads
            rw [State.step, if_neg (by rw [hannounced]; exact fun h => (by cases h))] at hstep
            cases hstep
      · exact absurd (by rw [hlater, hnone, Option.bind_some, hslot]; rfl) hdelivers

/-- Every call of the earlier state is there later, with the id it had and, if it had returned, with
the outcome it had. -/
def KeepsCalls (earlier later : State) : Prop :=
  ∀ (index : Nat) (call : Call), earlier.calls[index]? = some call →
    ∃ next, later.calls[index]? = some next ∧ (∀ id, call.pc.id = some id → next.pc.id = some id) ∧
      ∀ id outcome, call.pc = .returned id outcome → next.pc = .returned id outcome

theorem Run.keepsCalls {history : List (State × Label)} {s : State} (hrun : Run history s) :
    ∀ entry ∈ history, KeepsCalls entry.1 s := by
  induction hrun with
  | refl => simp
  | @tail t u history label hrun hstep ih =>
      intro entry hentry index call hcall
      rcases List.mem_append.mp hentry with hentry | hentry
      · obtain ⟨middle, hmiddle, hid, hreturned⟩ := ih entry hentry index call hcall
        obtain ⟨later, hlater, hnext⟩ := State.step_call hstep hmiddle
        exact ⟨later, hlater, fun id h => hnext.id (hid id h),
          fun id outcome h => hnext.returned (hreturned id outcome h)⟩
      · obtain rfl := List.mem_singleton.mp hentry
        obtain ⟨later, hlater, hnext⟩ := State.step_call hstep hcall
        exact ⟨later, hlater, fun _ => hnext.id, fun _ _ => hnext.returned⟩

/-- What ties the calls of a connection to the responses of the server, after a run. -/
structure ResponsesCorrelated (history : List (State × Label)) (s : State) : Prop where
  /-- A call returns at most one outcome, under one id. -/
  one_outcome : ∀ entry ∈ history, KeepsCalls entry.1 s
  /-- An answer is the content of a response that was received under the id of the call. -/
  own_response : ∀ (index : Nat) (call : Call) (id : Option String) (outcome : Outcome),
    s.calls[index]? = some call → call.pc = .returned id outcome → IsAnswer outcome →
    ∃ position response, ReadsAt history position response ∧ id = some response.id ∧
      outcome = outcomeOf response
  /-- No other call has this id. -/
  own_id : ∀ (left right : Nat) (first second : Call) (id : String), s.calls[left]? = some first →
    s.calls[right]? = some second → first.pc.id = some id → second.pc.id = some id → left = right
  /-- The next response goes to at most one call. -/
  one_receiver : ∀ (label : Label) (response : Response) (t : State) (left right : Nat),
    label.Reads response → s.step label = some t → Delivers s t left → Delivers s t right →
    left = right
  /-- The next response changes nothing if its id is not pending. -/
  unknown_ignored : ∀ (label : Label) (response : Response) (t : State), label.Reads response →
    s.step label = some t → s.pending.get? response.id = none → t = s
  /-- The id of a call that has returned is not pending. -/
  not_pending : ∀ (index : Nat) (call : Call) (id : String) (outcome : Outcome),
    s.calls[index]? = some call → call.pc = .returned (some id) outcome → s.pending.get? id = none

/-- Requests and responses are correlated in every run: however the calls, the server's messages,
timeouts, `close` and the end of the connection interleave. -/
theorem requests_correlated {history : List (State × Label)} {s : State} (hrun : Run history s)
    (hcalls : s.calls.length < 2 ^ 64) : ResponsesCorrelated history s := by
  have hcorrelated := Run.correlated hrun hcalls
  refine ⟨Run.keepsCalls hrun, ?_, hcorrelated.unique, ?_, ?_, ?_⟩
  · intro index call id outcome hcall hpc hanswer
    have hanswered := Run.answered hrun hcalls call (List.mem_of_getElem? hcall)
    obtain ⟨position, response, hreads, hid, heq⟩ :=
      hanswered.slot outcome (hanswered.returned id outcome hpc hanswer) hanswer
    rw [hpc] at hid
    exact ⟨position, response, hreads, hid, heq⟩
  · intro label response t left right hreads hstep hleft hright
    have hholder := State.step_delivers hstep hreads hleft
    rw [State.step_delivers hstep hreads hright] at hholder
    exact (Option.some.inj hholder).symm
  · rintro label response t ⟨value, unreadable, rfl, hread⟩ hstep hpending
    rw [State.step] at hstep
    split_ifs at hstep
    cases hstep
    rw [State.read, hread, State.handleMessage]
    dsimp only
    rw [State.handleResponse, hpending]
  · intro index call id outcome hcall hpc
    cases hentry : s.pending.get? id with
    | none => rfl
    | some holder =>
        obtain ⟨_, hregistered, _⟩ := hcorrelated.holder hcall (by rw [hpc]; rfl) hentry
        rw [hpc] at hregistered
        cases hregistered

/-- The id a call has returned under, and the id of its answer. -/
def CallPc.answer? : CallPc → Option (Option String × String)
  | .returned id (.ok response) => some (id, response.id)
  | _ => none

/-- Two calls at once: the second is answered first, and the server repeats that response. -/
def answeredOutOfOrder : List Label :=
  let response (id : String) := .read (.text (some (Response.success id .null).encode) "")
  [.call none .nodeListChannels, .turn 0, .call (some "tv") .targetStart, .turn 1, .turn 0, .turn 1, .turn 1,
    .turn 0, .turn 0, .turn 1, .command true, .command true, response "client-2", response "client-1",
    .turn 0, .turn 1, response "client-2"]

theorem requests_correlated_answeredOutOfOrder : ∃ history s, Run history s ∧
    history.map Prod.snd = answeredOutOfOrder ∧ s.calls.length < 2 ^ 64 ∧
    s.calls.map (fun call => call.pc.answer?) =
      [some (some "client-1", "client-1"), some (some "client-2", "client-2")] ∧
    ResponsesCorrelated history s := by
  have hchecks : ((runChecked State.step (fun _ _ => true) State.connected answeredOutOfOrder).any
      fun s => s.calls.length == 2 && s.calls.map (fun call => call.pc.answer?) ==
        [some (some "client-1", "client-1"), some (some "client-2", "client-2")]) = true := by
    decide +kernel
  rw [Option.any_eq_true] at hchecks
  obtain ⟨s, hs, hcheck⟩ := hchecks
  obtain ⟨history, hrun, hlabels, _⟩ := exists_trace_of_runChecked hs
  rw [Bool.and_eq_true, beq_iff_eq, beq_iff_eq] at hcheck
  have hcalls : s.calls.length < 2 ^ 64 := by
    rw [hcheck.1]
    decide
  exact ⟨history, s, hrun, hlabels, hcalls, hcheck.2, requests_correlated hrun hcalls⟩

end MpvTargets.RemoteClient
