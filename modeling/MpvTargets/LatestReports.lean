import MpvTargets.Library.Registers
import MpvTargets.SupervisorSteps

/-! The observed state after a sequence of property reports. Every observed property is a register that
shows its state field; a report the field's rule cannot read is skipped, so the field keeps what an
earlier report left there. -/

namespace MpvTargets

/-- A property the daemon observes, with the state field it feeds. -/
abbrev ObservedProperty := { entry : String × String // entry ∈ observedProperties }

namespace ObservedProperty

def name (property : ObservedProperty) : String := property.1.1

def field (property : ObservedProperty) : String := property.1.2

/-- One property for each field. -/
theorem eq_of_field_eq {property other : ObservedProperty} (h : other.field = property.field) :
    other = property := by
  have hnodup : (observedProperties.map Prod.snd).Nodup := by decide
  exact Subtype.ext (List.inj_on_of_nodup_map hnodup other.2 property.2 h)

end ObservedProperty

/-- A message of mpv that reports an observed property. -/
structure PropertyReport where
  property : ObservedProperty
  message : Value
  event_eq : (message.get "event").bind Value.asStr = some "property-change"
  name_eq : (message.get "name").bind Value.asStr = some property.name

namespace PropertyReport

/-- The reported value; mpv leaves it out when the property has none. -/
def data (report : PropertyReport) : Value := (report.message.get "data").getD .null

def of (property : ObservedProperty) (data : Value) : PropertyReport where
  property := property
  message := .object [
    ("data", data), ("event", .string "property-change"), ("name", .string property.name)]
  event_eq := by simp [Value.asStr]
  name_eq := by simp [Value.asStr]

@[simp] theorem data_of (property : ObservedProperty) (data : Value) :
    (of property data).data = data := rfl

def written (report : PropertyReport) : ObservedProperty × Value := (report.property, report.data)

@[simp] theorem written_of (property : ObservedProperty) (data : Value) :
    (of property data).written = (property, data) := rfl

end PropertyReport

/-- The last value reported for a property. -/
def latestReport (property : ObservedProperty) (reports : List PropertyReport) : Option Value :=
  latestWrite property (reports.map PropertyReport.written)

/-- `update_observed` on a target, one report after another. -/
def RuntimeTarget.observe (target : RuntimeTarget) (reports : List PropertyReport) : RuntimeTarget :=
  reports.foldl
    (fun target report =>
      ((TargetOp.updateObserved report.property.field report.data).run target).1) target

/-- `==` of `TargetState`. -/
def TargetState.same (state other : TargetState) : Bool :=
  state.paused == other.paused && state.muted == other.muted &&
    sameFloat state.volume other.volume && state.title == other.title &&
    state.playlistPosition == other.playlistPosition &&
    state.playlistCount == other.playlistCount && state.idleActive == other.idleActive &&
    sameFloat state.duration other.duration && sameFloat state.position other.position &&
    state.loopFile == other.loopFile && state.loopPlaylist == other.loopPlaylist &&
    state.audioTrack == other.audioTrack && state.subtitleTrack == other.subtitleTrack &&
    state.subtitlesVisible == other.subtitlesVisible &&
    state.lastEndReason == other.lastEndReason && state.lastEndError == other.lastEndError

/-- The reports the rule of a field can read: no value, or one of the field's kind. -/
def ObservedProperty.reads (property : ObservedProperty) (data : Value) : Bool :=
  data.isNull ||
    match property.field with
    | "paused" | "muted" | "idle_active" | "subtitles_visible" => data.asBool.isSome
    | "volume" | "duration" | "position" => data.asF64.isSome
    | "title" => data.asStr.isSome
    | "playlist_position" => data.asI64.any fun position => decide (position < 2 ^ 32)
    | "playlist_count" => data.asI64.any fun count => decide (0 ≤ count ∧ count < 2 ^ 32)
    | "loop_file" | "loop_playlist" =>
        data.asBool.isSome || data.asI64.isSome || data.asStr.isSome
    | "audio_track" | "subtitle_track" => data.asI64.isSome || data.asStr.isSome
    | _ => false

theorem observedProperties_find (property : ObservedProperty) :
    (observedProperties.find? fun entry => entry.1 = property.name) = some property.1 := by
  have hnodup : (observedProperties.map Prod.fst).Nodup := by decide
  cases hfound : observedProperties.find? fun entry => entry.1 = property.name with
  | none =>
      have hname : property.1.1 ≠ property.name := by
        simpa using List.find?_eq_none.mp hfound property.1 property.2
      exact absurd rfl hname
  | some entry =>
      have hname : entry.1 = property.name := by simpa using List.find?_some hfound
      rw [List.inj_on_of_nodup_map hnodup (List.mem_of_find?_eq_some hfound) property.2 hname]

/-- The observer takes the report to its section. -/
theorem observeLine_report (name : String) (report : PropertyReport) :
    observeLine name (some report.message) =
      .updateObserved name report.property.field report.data := by
  simp only [observeLine, report.event_eq, report.name_eq, observedProperties_find]
  rfl

/-- The sections that an observer of `name` enters for these lines. -/
def Inner.observing (toml : Toml) (name : String) (inner : Inner) (lines : List Value) : Inner :=
  lines.foldl (fun inner line => inner.after toml ((observeLine name (some line)).critical .ok)) inner

/-- The observer's lines make these updates of the target. -/
theorem Inner.get?_observing (toml : Toml) {name : String} {inner : Inner} {target : RuntimeTarget}
    (h : inner.targets.get? name = some target) (reports : List PropertyReport) :
    (inner.observing toml name (reports.map PropertyReport.message)).targets.get? name =
      some (target.observe reports) := by
  induction reports generalizing inner target with
  | nil => exact h
  | cons report reports ih =>
      refine ih ?_
      dsimp only
      rw [observeLine_report]
      change (inner.onTarget name _).inner.targets.get? name = _
      rw [Inner.get?_onTarget, if_pos rfl, h, Option.map_some]

/-- The zero without a sign stands for both. -/
def F64.canonical (x : F64) : F64 := if x.IsZero then .zero false else x

theorem F64.eq_iff (x y : F64) : x.eq y = true ↔ x.canonical = y.canonical := by
  rw [F64.eq, decide_eq_true_eq, F64.canonical, F64.canonical]
  constructor
  · rintro (rfl | ⟨hx, hy⟩)
    · rfl
    · rw [if_pos hx, if_pos hy]
  · intro h
    by_cases hx : x.IsZero <;> by_cases hy : y.IsZero
    · exact Or.inr ⟨hx, hy⟩
    · rw [if_pos hx, if_neg hy] at h
      exact absurd (h ▸ (by decide : (F64.zero false).IsZero)) hy
    · rw [if_neg hx, if_pos hy] at h
      exact absurd (h ▸ (by decide : (F64.zero false).IsZero)) hx
    · rw [if_neg hx, if_neg hy] at h
      exact Or.inl h

def Value.ofF64 (x : F64) : Value := .float x.canonical

theorem sameFloat_iff (x y : Option F64) :
    sameFloat x y = true ↔ Value.optional .ofF64 x = .optional .ofF64 y := by
  cases x <;> cases y <;> simp [sameFloat, Value.optional, Value.ofF64, Value.float, F64.eq_iff]

/-- What a state shows in a field, up to the sign of a zero. -/
def TargetState.shown (state : TargetState) (field : String) : Value :=
  match field with
  | "paused" => .optional .bool state.paused
  | "muted" => .optional .bool state.muted
  | "volume" => .optional .ofF64 state.volume
  | "title" => .optional .string state.title
  | "playlist_position" => .optional .ofU32 state.playlistPosition
  | "playlist_count" => .optional .ofU32 state.playlistCount
  | "idle_active" => .optional .bool state.idleActive
  | "duration" => .optional .ofF64 state.duration
  | "position" => .optional .ofF64 state.position
  | "loop_file" => .optional .string state.loopFile
  | "loop_playlist" => .optional .string state.loopPlaylist
  | "audio_track" => .optional .string state.audioTrack
  | "subtitle_track" => .optional .string state.subtitleTrack
  | "subtitles_visible" => .optional .bool state.subtitlesVisible
  | _ => .null

/-- What a report makes a field show; nothing when the field's rule cannot read it. -/
def readReport (field : String) (data : Value) : Option Value :=
  let value := normalizeObservedValue field data
  match field with
  | "paused" | "muted" | "idle_active" | "subtitles_visible" =>
      (optionalValue Value.asBool value).map (.optional .bool)
  | "volume" | "duration" | "position" => (optionalValue Value.asF64 value).map (.optional .ofF64)
  | "title" => (optionalValue Value.asStr value).map (.optional .string)
  | "playlist_position" | "playlist_count" =>
      (optionalValue (fun value => value.asI64.bind u32OfI64) value).map (.optional .ofU32)
  | "loop_file" | "loop_playlist" => (optionalValue loopState value).map (.optional .string)
  | "audio_track" | "subtitle_track" => (optionalValue trackValue value).map (.optional .string)
  | _ => none

/-- The state `update_observed` leaves. -/
def TargetState.reported (state : TargetState) (field : String) (data : Value) : TargetState :=
  (applyObservedUpdate state field (normalizeObservedValue field data)).getD state

section

variable {α : Type} {same : α → α → Bool} {slot : α} {set : α → TargetState}
  {state : TargetState} {field : String} {encode : α → Value}

/-- The field itself shows what the report was read as. -/
theorem setObserved_shown (hslot : state.shown field = encode slot)
    (hset : ∀ next, (set next).shown field = encode next)
    (hsame : ∀ next, same slot next = true → encode slot = encode next) (parsed : Option α) :
    ((setObserved same slot set parsed).getD state).shown field =
      (parsed.map encode).getD (state.shown field) := by
  cases parsed with
  | none => rfl
  | some next =>
      rw [setObserved, Option.map_some, Option.getD_some]
      split
      · rename_i heq
        rw [Option.getD_none, hslot, hsame next heq]
      · rw [Option.getD_some, hset]

/-- What `set` leaves of the state stays. -/
theorem setObserved_keeps {β : Type} (part : TargetState → β)
    (hset : ∀ next, part (set next) = part state) (parsed : Option α) :
    part ((setObserved same slot set parsed).getD state) = part state := by
  cases parsed with
  | none => rfl
  | some next =>
      rw [setObserved]
      split
      · rfl
      · rw [Option.getD_some, hset]

end

/-- A report makes its field show what it was read as. -/
theorem shown_reported_self (property : ObservedProperty) (state : TargetState) (data : Value) :
    (state.reported property.field data).shown property.field =
      (readReport property.field data).getD (state.shown property.field) := by
  obtain ⟨⟨name, field⟩, hmem⟩ := property
  simp only [observedProperties, List.mem_cons, Prod.mk.injEq, List.not_mem_nil, or_false] at hmem
  rcases hmem with ⟨rfl, rfl⟩ | ⟨rfl, rfl⟩ | ⟨rfl, rfl⟩ | ⟨rfl, rfl⟩ | ⟨rfl, rfl⟩ | ⟨rfl, rfl⟩ |
    ⟨rfl, rfl⟩ | ⟨rfl, rfl⟩ | ⟨rfl, rfl⟩ | ⟨rfl, rfl⟩ | ⟨rfl, rfl⟩ | ⟨rfl, rfl⟩ | ⟨rfl, rfl⟩ |
    ⟨rfl, rfl⟩
  all_goals
    simp only [ObservedProperty.field, TargetState.reported, applyObservedUpdate, readReport]
    refine setObserved_shown ?_ (fun _ => ?_) (fun next h => ?_) _
    · rfl
    · rfl
    · first | rw [eq_of_beq h] | exact (sameFloat_iff _ _).mp h

/-- A report leaves what the other fields show. -/
theorem shown_reported_other {property other : ObservedProperty} (hne : other ≠ property)
    (state : TargetState) (data : Value) :
    (state.reported property.field data).shown other.field = state.shown other.field := by
  have hfield : other.field ≠ property.field := fun h => hne (ObservedProperty.eq_of_field_eq h)
  generalize other.field = field at hfield
  obtain ⟨⟨name, own⟩, hmem⟩ := property
  simp only [observedProperties, List.mem_cons, Prod.mk.injEq, List.not_mem_nil, or_false] at hmem
  rcases hmem with ⟨rfl, rfl⟩ | ⟨rfl, rfl⟩ | ⟨rfl, rfl⟩ | ⟨rfl, rfl⟩ | ⟨rfl, rfl⟩ | ⟨rfl, rfl⟩ |
    ⟨rfl, rfl⟩ | ⟨rfl, rfl⟩ | ⟨rfl, rfl⟩ | ⟨rfl, rfl⟩ | ⟨rfl, rfl⟩ | ⟨rfl, rfl⟩ | ⟨rfl, rfl⟩ |
    ⟨rfl, rfl⟩
  all_goals
    simp only [ObservedProperty.field, TargetState.reported, applyObservedUpdate] at hfield ⊢
    refine setObserved_keeps (fun state => state.shown field) (fun next => ?_) _
    simp only [TargetState.shown]
    split
    all_goals first | rfl | exact absurd rfl hfield

/-- The ends of media files are no property. -/
theorem reported_lastEnd (state : TargetState) (field : String) (data : Value) :
    (state.reported field data).lastEndReason = state.lastEndReason ∧
      (state.reported field data).lastEndError = state.lastEndError := by
  rw [TargetState.reported]
  unfold applyObservedUpdate
  split
  all_goals
    first
    | exact ⟨rfl, rfl⟩
    | constructor
      · refine setObserved_keeps TargetState.lastEndReason (fun _ => ?_) _
        rfl
      · refine setObserved_keeps TargetState.lastEndError (fun _ => ?_) _
        rfl

theorem optionalValue_isSome {α : Type} (parse : Value → Option α) (encode : Option α → Value)
    (value : Value) : ((optionalValue parse value).map encode).isSome =
      (value.isNull || (parse value).isSome) := by
  rw [optionalValue, Option.isSome_map]
  cases value.isNull
  · rw [if_neg Bool.false_ne_true, Option.isSome_map, Bool.false_or]
  · rw [if_pos rfl, Option.isSome_some, Bool.true_or]

theorem u32OfI64_isSome (value : Int) :
    (u32OfI64 value).isSome = decide (0 ≤ value ∧ value < 2 ^ 32) := by
  rw [u32OfI64]
  by_cases h : 0 ≤ value ∧ value < 2 ^ 32
  · rw [if_pos h, Option.isSome_some, decide_eq_true h]
  · rw [if_neg h, Option.isSome_none, decide_eq_false h]

theorem normalizeObservedValue_plain {field : String}
    (h : field ∉ ["loop_file", "loop_playlist", "position", "playlist_position"]) (data : Value) :
    normalizeObservedValue field data = data := by
  simp only [List.mem_cons, List.not_mem_nil, or_false, not_or] at h
  obtain ⟨hfile, hplaylist, hposition, hentry⟩ := h
  simp only [normalizeObservedValue, hfile, hplaylist, hposition, hentry, or_self, if_false,
    false_and]

theorem trackValue_isSome (data : Value) :
    (trackValue data).isSome = (data.asI64.isSome || data.asStr.isSome) := by
  cases data with
  | number number =>
      have htrack : trackValue (.number number) =
          (Value.number number).asI64.map fun track => toString track := rfl
      rw [htrack, Option.isSome_map]
      exact (Bool.or_false _).symm
  | _ => rfl

theorem bind_u32OfI64_isSome (integer : Option Int) : (integer.bind u32OfI64).isSome =
    integer.any fun count => decide (0 ≤ count ∧ count < 2 ^ 32) := by
  cases integer with
  | none => rfl
  | some count => exact u32OfI64_isSome count

/-- A position is rounded down to a number. -/
theorem position_reads (data : Value) :
    ((normalizeObservedValue "position" data).isNull ||
      (normalizeObservedValue "position" data).asF64.isSome) =
        (data.isNull || data.asF64.isSome) := by
  cases data <;> rfl

/-- A negative position of the playlist is no position. -/
theorem playlistPosition_reads (data : Value) :
    ((normalizeObservedValue "playlist_position" data).isNull ||
      ((normalizeObservedValue "playlist_position" data).asI64.bind u32OfI64).isSome) =
        (data.isNull || data.asI64.any fun position => decide (position < 2 ^ 32)) := by
  cases hinteger : data.asI64 with
  | none =>
      have hnormal : normalizeObservedValue "playlist_position" data = data := by
        simp [normalizeObservedValue, hinteger]
      rw [hnormal, hinteger]
      rfl
  | some position =>
      by_cases hneg : position < 0
      · have hnormal : normalizeObservedValue "playlist_position" data = .null := by
          simp [normalizeObservedValue, hinteger, hneg]
        have hsmall : position < 2 ^ 32 := by omega
        rw [hnormal, Option.any_some, decide_eq_true hsmall, Bool.or_true]
        rfl
      · have hnormal : normalizeObservedValue "playlist_position" data = data := by
          simp [normalizeObservedValue, hinteger, hneg]
        have hbounds : (0 ≤ position ∧ position < 2 ^ 32) ↔ position < 2 ^ 32 := by omega
        rw [hnormal, hinteger, Option.bind_some, Option.any_some, u32OfI64_isSome]
        simp only [hbounds]

theorem loopState_isSome (data : Value) : (loopState data).isSome =
    (data.asBool.isSome || data.asI64.isSome || data.asStr.isSome) := by
  cases data with
  | number number =>
      rw [loopState, Option.isSome_map, Option.isSome_map]
      exact (Bool.or_false _).symm
  | _ => rfl

/-- A loop state is rewritten to `on` or `off`. -/
theorem loop_reads (field : String) (hfield : field = "loop_file" ∨ field = "loop_playlist")
    (data : Value) :
    ((normalizeObservedValue field data).isNull ||
      (loopState (normalizeObservedValue field data)).isSome) =
        (data.isNull || (data.asBool.isSome || data.asI64.isSome || data.asStr.isSome)) := by
  rw [← loopState_isSome]
  cases hstate : loopState data with
  | some state =>
      have hnormal : normalizeObservedValue field data = .string state := by
        rw [normalizeObservedValue, if_pos hfield, hstate]
      rw [hnormal, Option.isSome_some, Bool.or_true]
      rfl
  | none =>
      have hnormal : normalizeObservedValue field data = data := by
        rcases hfield with rfl | rfl <;> simp [normalizeObservedValue, hstate]
      rw [hnormal, hstate]

/-- A report is read exactly when it is of the field's kind. -/
theorem readReport_isSome (property : ObservedProperty) (data : Value) :
    (readReport property.field data).isSome = property.reads data := by
  obtain ⟨⟨name, field⟩, hmem⟩ := property
  simp only [observedProperties, List.mem_cons, Prod.mk.injEq, List.not_mem_nil, or_false] at hmem
  rcases hmem with ⟨rfl, rfl⟩ | ⟨rfl, rfl⟩ | ⟨rfl, rfl⟩ | ⟨rfl, rfl⟩ | ⟨rfl, rfl⟩ | ⟨rfl, rfl⟩ |
    ⟨rfl, rfl⟩ | ⟨rfl, rfl⟩ | ⟨rfl, rfl⟩ | ⟨rfl, rfl⟩ | ⟨rfl, rfl⟩ | ⟨rfl, rfl⟩ | ⟨rfl, rfl⟩ |
    ⟨rfl, rfl⟩
  all_goals
    simp only [ObservedProperty.field, ObservedProperty.reads, readReport, optionalValue_isSome]
  · rw [normalizeObservedValue_plain (by decide)]
  · rw [normalizeObservedValue_plain (by decide)]
  · rw [normalizeObservedValue_plain (by decide)]
  · rw [normalizeObservedValue_plain (by decide)]
  · exact playlistPosition_reads data
  · rw [normalizeObservedValue_plain (by decide), bind_u32OfI64_isSome]
  · rw [normalizeObservedValue_plain (by decide)]
  · rw [normalizeObservedValue_plain (by decide)]
  · exact position_reads data
  · exact loop_reads _ (by decide) data
  · exact loop_reads _ (by decide) data
  · rw [normalizeObservedValue_plain (by decide), trackValue_isSome]
  · rw [normalizeObservedValue_plain (by decide), trackValue_isSome]
  · rw [normalizeObservedValue_plain (by decide)]

/-- The observed properties as registers of the observed state. -/
def observedRegisters : Registers TargetState ObservedProperty Value Value where
  write state property data := state.reported property.field data
  shown state property := state.shown property.field
  read property data := readReport property.field data
  shown_write state property data other := by
    split
    · rename_i heq
      rw [heq, shown_reported_self]
    · rename_i hne
      exact shown_reported_other hne state data

/-- Every field can be reported as something. -/
theorem exists_read (property : ObservedProperty) :
    ∃ data shown, readReport property.field data = some shown ∧
      shown ≠ TargetState.default.shown property.field := by
  obtain ⟨⟨name, field⟩, hmem⟩ := property
  simp only [observedProperties, List.mem_cons, Prod.mk.injEq, List.not_mem_nil, or_false] at hmem
  rcases hmem with ⟨rfl, rfl⟩ | ⟨rfl, rfl⟩ | ⟨rfl, rfl⟩ | ⟨rfl, rfl⟩ | ⟨rfl, rfl⟩ | ⟨rfl, rfl⟩ |
    ⟨rfl, rfl⟩ | ⟨rfl, rfl⟩ | ⟨rfl, rfl⟩ | ⟨rfl, rfl⟩ | ⟨rfl, rfl⟩ | ⟨rfl, rfl⟩ | ⟨rfl, rfl⟩ |
    ⟨rfl, rfl⟩
  all_goals
    first
    | exact ⟨.bool true, _, rfl, fun h => (by cases h)⟩
    | exact ⟨.string "a", _, rfl, fun h => (by cases h)⟩
    | exact ⟨.unsigned 1, _, rfl, fun h => (by cases h)⟩

theorem updateObserved_observed (target : RuntimeTarget) (field : String) (data : Value) :
    ((TargetOp.updateObserved field data).run target).1.observed =
      target.observed.reported field data := by
  simp only [TargetOp.run, updateObservedSection, TargetSection.effect, TargetState.reported]
  cases applyObservedUpdate target.observed field (normalizeObservedValue field data) <;> rfl

theorem observe_observed (target : RuntimeTarget) (reports : List PropertyReport) :
    (target.observe reports).observed =
      observedRegisters.run target.observed (reports.map PropertyReport.written) := by
  induction reports generalizing target with
  | nil => rfl
  | cons report reports ih =>
      rw [RuntimeTarget.observe, List.foldl_cons, ← RuntimeTarget.observe, ih, List.map_cons,
        Registers.run_cons]
      exact congrArg (fun state => observedRegisters.run state _) (updateObserved_observed target _ _)

/-- A decoder reads an optional value back, so different values are written differently. -/
theorem optional_inj {α : Type} {encode : α → Value} {decode : Value → Option α}
    (hround : ∀ field, (Value.optional encode field).asOptional decode = some field)
    (field other : Option α) :
    Value.optional encode field = .optional encode other ↔ field = other := by
  refine ⟨fun h => ?_, fun h => by rw [h]⟩
  have hread := congrArg (fun value => value.asOptional decode) h
  simpa only [hround, Option.some.injEq] using hread

/-- Two states that agree on the last media file are the same exactly when every field shows the same. -/
theorem same_iff {state other : TargetState} (hreason : state.lastEndReason = other.lastEndReason)
    (herror : state.lastEndError = other.lastEndError) :
    state.same other = true ↔
      ∀ property : ObservedProperty, state.shown property.field = other.shown property.field := by
  have hentries : (∀ property : ObservedProperty,
      state.shown property.field = other.shown property.field) ↔
        ∀ entry ∈ observedProperties, state.shown entry.2 = other.shown entry.2 := Subtype.forall
  rw [hentries]
  simp only [observedProperties, List.forall_mem_cons, List.not_mem_nil, TargetState.shown,
    optional_inj asOptional_bool, optional_inj asOptional_string, optional_inj asOptional_u32,
    ← sameFloat_iff, TargetState.same, Bool.and_eq_true, beq_iff_eq, hreason, herror, and_true,
    and_assoc, false_imp_iff, implies_true]

theorem observe_lastEnd (target : RuntimeTarget) (reports : List PropertyReport) :
    (target.observe reports).observed.lastEndReason = target.observed.lastEndReason ∧
      (target.observe reports).observed.lastEndError = target.observed.lastEndError := by
  induction reports generalizing target with
  | nil => exact ⟨rfl, rfl⟩
  | cons report reports ih =>
      obtain ⟨hreason, herror⟩ :=
        reported_lastEnd target.observed report.property.field report.data
      rw [← updateObserved_observed] at hreason herror
      obtain ⟨hrest, hrestError⟩ :=
        ih ((TargetOp.updateObserved report.property.field report.data).run target).1
      exact ⟨hrest.trans hreason, hrestError.trans herror⟩

/-- Every log of values is reported by some messages. -/
theorem exists_reports (log : List (ObservedProperty × Value)) :
    ∃ reports : List PropertyReport, reports.map PropertyReport.written = log :=
  ⟨log.map fun entry => .of entry.1 entry.2, by simp [Function.comp_def]⟩

/-- The lines an observer reads lead to the state that these updates lead to; and this is a function of the
latest report of each property exactly when every latest report is of a kind its field's rule reads. -/
theorem observed_latest_iff (config : TargetConfig) (reports : List PropertyReport) :
    (∀ (toml : Toml) (name : String) (inner : Inner),
      inner.targets.get? name = some (.initial config) →
        (inner.observing toml name (reports.map PropertyReport.message)).targets.get? name =
          some ((RuntimeTarget.initial config).observe reports)) ∧
    ((∀ later : List PropertyReport,
        (∀ property, latestReport property later = latestReport property reports) →
          ((RuntimeTarget.initial config).observe later).observed.same
            ((RuntimeTarget.initial config).observe reports).observed = true) ↔
      ∀ property data, latestReport property reports = some data → property.reads data = true) := by
  refine ⟨fun toml name inner h => inner.get?_observing toml h reports, ?_⟩
  have hshown : ∀ later : List PropertyReport,
      ((RuntimeTarget.initial config).observe later).observed.same
          ((RuntimeTarget.initial config).observe reports).observed = true ↔
        observedRegisters.shown
            (observedRegisters.run .default (later.map PropertyReport.written)) =
          observedRegisters.shown
            (observedRegisters.run .default (reports.map PropertyReport.written)) := by
    intro later
    obtain ⟨hreason, herror⟩ := observe_lastEnd (.initial config) later
    obtain ⟨hreason', herror'⟩ := observe_lastEnd (.initial config) reports
    rw [same_iff (hreason.trans hreason'.symm) (herror.trans herror'.symm), observe_observed,
      observe_observed, funext_iff]
    rfl
  have hreads : ∀ property, ∃ data shown, observedRegisters.read property data = some shown ∧
      shown ≠ observedRegisters.shown .default property := exists_read
  calc
    _ ↔ ∀ later : List (ObservedProperty × Value), (∀ property, latestWrite property later =
          latestWrite property (reports.map PropertyReport.written)) →
        observedRegisters.shown (observedRegisters.run .default later) =
          observedRegisters.shown
            (observedRegisters.run .default (reports.map PropertyReport.written)) := by
      constructor
      · intro h log hlog
        obtain ⟨later, rfl⟩ := exists_reports log
        exact (hshown later).mp (h later hlog)
      · intro h later hlater
        exact (hshown later).mpr (h _ hlater)
    _ ↔ ∀ property data, latestReport property reports = some data →
        (readReport property.field data).isSome = true := Registers.shown_of_latest_iff hreads
    _ ↔ _ := by simp only [readReport_isSome]

/-- The audio track's property. -/
def aid : ObservedProperty := ⟨("aid", "audio_track"), by decide⟩

/-- mpv selects the second audio track and then none, which it reports as `false`: the state keeps the
track, although the same last report alone leaves none. -/
theorem deselected_track_kept :
    (∀ property, latestReport property [.of aid (.bool false)] =
      latestReport property [.of aid (.unsigned 2), .of aid (.bool false)]) ∧
    ((RuntimeTarget.initial ⟨"tv", false, none⟩).observe [.of aid (.bool false)]).observed.same
      ((RuntimeTarget.initial ⟨"tv", false, none⟩).observe
        [.of aid (.unsigned 2), .of aid (.bool false)]).observed = false := by
  refine ⟨fun property => ?_, by decide +kernel⟩
  by_cases h : aid = property <;> simp [latestReport, latestWrite, h]

end MpvTargets
