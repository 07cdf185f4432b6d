import MpvTargets.Wire

/-! What the daemon does with mpv's property reports: the normalization of the reported value and
its entry into the observed state. -/

namespace MpvTargets

/-- The observed mpv properties and the state field each one feeds. -/
def observedProperties : List (String × String) := [
  ("pause", "paused"),
  ("mute", "muted"),
  ("volume", "volume"),
  ("media-title", "title"),
  ("playlist-pos", "playlist_position"),
  ("playlist-count", "playlist_count"),
  ("idle-active", "idle_active"),
  ("duration", "duration"),
  ("time-pos", "position"),
  ("loop-file", "loop_file"),
  ("loop-playlist", "loop_playlist"),
  ("aid", "audio_track"),
  ("sid", "subtitle_track"),
  ("sub-visibility", "subtitles_visible")]

def loopState (value : Value) : Option String :=
  let enabled : Option Bool :=
    match value with
    | .bool enabled => some enabled
    | .number number => number.asI64.map fun value => decide (value ≠ 0)
    | .string value => some !(value = "no" || value = "off" || value = "false" || value = "0")
    | _ => none
  enabled.map fun enabled => if enabled then "on" else "off"

def normalizeObservedValue (field : String) (value : Value) : Value :=
  match if field = "loop_file" ∨ field = "loop_playlist" then loopState value else none with
  | some state => .string state
  | none =>
      match if field = "position" then value.asF64 else none with
      | some position => .float position.floor
      | none =>
          if field = "playlist_position" ∧ value.asI64.any (fun position => position < 0) then .null
          else value

/-- `optional!`: `null` clears the field, anything else must parse. -/
def optionalValue {α : Type} (parse : Value → Option α) (value : Value) : Option (Option α) :=
  if value.isNull then some none else (parse value).map some

/-- The audio and subtitle tracks: a string, or an integer in decimal. -/
def trackValue (value : Value) : Option String :=
  match value.asStr with
  | some track => some track
  | none => value.asI64.map fun track => toString track

/-- `set_observed!` behind its parsed value: nothing when the value did not parse or equals the slot,
the new state otherwise. -/
def setObserved {α : Type} (same : α → α → Bool) (slot : α) (set : α → TargetState) :
    Option α → Option TargetState
  | none => none
  | some next => if same slot next then none else some (set next)

/-- `==` of `Option<f64>`. -/
def sameFloat : Option F64 → Option F64 → Bool
  | none, none => true
  | some x, some y => x.eq y
  | _, _ => false

/-- `apply_observed_update`: the new state if the field changed; the value reported is then the value
given. -/
def applyObservedUpdate (state : TargetState) (field : String) (value : Value) :
    Option TargetState :=
  match field with
  | "paused" =>
      setObserved (· == ·) state.paused (fun next => { state with paused := next })
        (optionalValue Value.asBool value)
  | "muted" =>
      setObserved (· == ·) state.muted (fun next => { state with muted := next })
        (optionalValue Value.asBool value)
  | "volume" =>
      setObserved sameFloat state.volume (fun next => { state with volume := next })
        (optionalValue Value.asF64 value)
  | "title" =>
      setObserved (· == ·) state.title (fun next => { state with title := next })
        (optionalValue Value.asStr value)
  | "playlist_position" =>
      setObserved (· == ·) state.playlistPosition
        (fun next => { state with playlistPosition := next })
        (optionalValue (fun value => value.asI64.bind u32OfI64) value)
  | "playlist_count" =>
      setObserved (· == ·) state.playlistCount (fun next => { state with playlistCount := next })
        (optionalValue (fun value => value.asI64.bind u32OfI64) value)
  | "idle_active" =>
      setObserved (· == ·) state.idleActive (fun next => { state with idleActive := next })
        (optionalValue Value.asBool value)
  | "duration" =>
      setObserved sameFloat state.duration (fun next => { state with duration := next })
        (optionalValue Value.asF64 value)
  | "position" =>
      setObserved sameFloat state.position (fun next => { state with position := next })
        (optionalValue Value.asF64 value)
  | "loop_file" =>
      setObserved (· == ·) state.loopFile (fun next => { state with loopFile := next })
        (optionalValue loopState value)
  | "loop_playlist" =>
      setObserved (· == ·) state.loopPlaylist (fun next => { state with loopPlaylist := next })
        (optionalValue loopState value)
  | "audio_track" =>
      setObserved (· == ·) state.audioTrack (fun next => { state with audioTrack := next })
        (optionalValue trackValue value)
  | "subtitle_track" =>
      setObserved (· == ·) state.subtitleTrack (fun next => { state with subtitleTrack := next })
        (optionalValue trackValue value)
  | "subtitles_visible" =>
      setObserved (· == ·) state.subtitlesVisible
        (fun next => { state with subtitlesVisible := next })
        (optionalValue Value.asBool value)
  | _ => none

def mediaEndReason (value : Option String) : MediaEndReason :=
  match value with
  | some "eof" => .eof
  | some "stop" => .stop
  | some "quit" => .quit
  | some "error" => .error
  | some "redirect" => .redirect
  | _ => .unknown

end MpvTargets
