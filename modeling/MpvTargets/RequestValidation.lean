import MpvTargets.Config
import MpvTargets.Messages

/-! The checks a request passes before it is dispatched, and the target names they accept. -/

namespace MpvTargets

namespace Protocol

inductive RequestValidationError where
  | emptyId
  | invalidTarget (source : TargetNameError)
  | missingTarget
  | unexpectedTarget
  | invalidChannel (channel : String)
  | invalidChannelName (channel : String)
  | invalidReplacement (source : TargetNameError)
  | baseOptionsWithSource
  | nativeCommandNotAllowed (command : String)
  deriving DecidableEq, Repr

def RequestValidationError.message : RequestValidationError → String
  | emptyId => "request id must not be empty"
  | invalidTarget source => "invalid target: " ++ source.message
  | missingTarget => "target is required for this operation"
  | unexpectedTarget => "node_list_channels must not specify a target"
  | invalidChannel channel => "channel must be an absolute .m3u/.m3u8 path or URL: " ++ channel
  | invalidChannelName channel =>
      "channel name must be a single .m3u/.m3u8 filename: " ++ channel
  | invalidReplacement source => "invalid replacement target name: " ++ source.message
  | baseOptionsWithSource => "base target startup options cannot be used with a source target"
  | nativeCommandNotAllowed command => "native mpv command is not allowed: " ++ command

def validChannelName (value : String) : Bool :=
  !value.toList.isEmpty && UnixPath.fileName value.toList == some value.toList &&
    hasChannelExtension value.toList

def allowedMpvCommands : List String := [
  "get_property", "set_property", "cycle", "add", "stop", "seek", "revert-seek", "playlist-next",
  "playlist-prev", "playlist-play-index", "playlist-remove", "playlist-move", "playlist-shuffle",
  "playlist-unshuffle", "playlist-clear", "loadfile", "loadlist", "keypress", "keydown", "keyup",
  "show-text"]

def isAllowedMpvCommand (command : String) : Bool := allowedMpvCommands.contains command

def Operation.validate : Operation → Except RequestValidationError Unit
  | targetAdd (some source) _ startPaused startMuted =>
      match validateTargetName source with
      | .error error => .error (.invalidTarget error)
      | .ok () => if !startPaused || !startMuted then .error .baseOptionsWithSource else .ok ()
  | targetRename name =>
      match validateTargetName name with
      | .error error => .error (.invalidReplacement error)
      | .ok () => .ok ()
  | targetSetChannel (some channel) _ =>
      if validChannel channel then .ok () else .error (.invalidChannel channel)
  | targetSaveChannel channel _ =>
      if validChannelName channel then .ok () else .error (.invalidChannelName channel)
  | mpv command _ =>
      if isAllowedMpvCommand command then .ok () else .error (.nativeCommandNotAllowed command)
  | _ => .ok ()

def Request.validate (request : Request) : Except RequestValidationError Unit :=
  if request.id.toList.isEmpty then .error .emptyId
  else
    match request.target, request.operation with
    | none, .nodeListChannels => request.operation.validate
    | some _, .nodeListChannels => .error .unexpectedTarget
    | some target, _ =>
        match validateTargetName target with
        | .error error => .error (.invalidTarget error)
        | .ok () => request.operation.validate
    | none, _ => .error .missingTarget

end Protocol

/-- A character a target name may begin with. -/
def isNameStart (char : Char) : Bool := isAsciiLowercase char || isAsciiDigit char

/-- A character a target name may go on with. -/
def isNameChar (char : Char) : Bool := isNameStart char || char == '-' || char == '_'

/-- The words `[a-z0-9][a-z0-9_-]{0,63}` other than `all`. -/
def IsTargetName (name : String) : Prop :=
  name ≠ "all" ∧ ∃ first rest, name.toList = first :: rest ∧ isNameStart first = true ∧
    (∀ char ∈ rest, isNameChar char = true) ∧ rest.length ≤ 63

theorem isNameChar_of_isNameStart {char : Char} (h : isNameStart char = true) :
    isNameChar char = true := by
  rw [isNameChar, h, Bool.true_or, Bool.true_or]

/-- The characters of a target name take one byte each. -/
theorem utf8Size_of_isNameChar {char : Char} (h : isNameChar char = true) : char.utf8Size = 1 := by
  have hle : char.val ≤ 127 := by
    simp only [isNameChar, isNameStart, isAsciiLowercase, isAsciiDigit, Bool.or_eq_true,
      decide_eq_true_eq, beq_iff_eq] at h
    rcases h with ((⟨_, hz⟩ | ⟨_, hnine⟩) | rfl) | rfl
    · exact UInt32.le_trans hz (by decide)
    · exact UInt32.le_trans hnine (by decide)
    · decide
    · decide
  exact Char.utf8Size_eq_one_iff.mpr hle

theorem byteLength_of_isNameChar {name : String} (h : ∀ char ∈ name.toList, isNameChar char = true) :
    byteLength name = name.toList.length := by
  have hones : ∀ chars : List Char, (∀ char ∈ chars, isNameChar char = true) →
      (chars.map Char.utf8Size).sum = chars.length := by
    intro chars hchars
    induction chars with
    | nil => rfl
    | cons char chars ih =>
        rw [List.map_cons, List.sum_cons, List.length_cons,
          utf8Size_of_isNameChar (hchars char List.mem_cons_self),
          ih fun other hother => hchars other (List.mem_cons_of_mem _ hother)]
        omega
  exact hones name.toList h

/-- `validate_target_name` accepts exactly the target names. -/
theorem validateTargetName_ok_iff (name : String) :
    validateTargetName name = .ok () ↔ IsTargetName name := by
  unfold validateTargetName IsTargetName
  cases hname : name.toList with
  | nil => simp
  | cons first rest =>
      have hchars : ((first :: rest).all fun char =>
          isAsciiLowercase char || isAsciiDigit char || char == '-' || char == '_') = true ↔
            ∀ char ∈ name.toList, isNameChar char = true := by
        rw [List.all_eq_true, hname]
        rfl
      have hbegins : (!isAsciiLowercase first && !isAsciiDigit first) = true ↔
          ¬isNameStart first = true := by
        rw [← Bool.not_or, Bool.not_eq_true', Bool.not_eq_true]
        rfl
      constructor
      · intro h
        dsimp only at h
        split_ifs at h with hall hlength hstart hall_chars
        have hallowed := hchars.mp hall_chars
        have hfits : name.toList.length ≤ 64 := by
          rw [← byteLength_of_isNameChar hallowed]
          omega
        rw [hname, List.length_cons] at hfits
        refine ⟨hall, first, rest, rfl, ?_, fun char hchar => ?_, by omega⟩
        · exact not_not.mp (mt hbegins.mpr hstart)
        · exact hallowed char (by rw [hname]; exact List.mem_cons_of_mem _ hchar)
      · rintro ⟨hall, first', rest', heq, hstart, hrest, hlength⟩
        obtain ⟨rfl, rfl⟩ := List.cons.inj heq
        have hallowed : ∀ char ∈ name.toList, isNameChar char = true := by
          rw [hname]
          intro char hchar
          rcases List.mem_cons.mp hchar with rfl | hchar
          · exact isNameChar_of_isNameStart hstart
          · exact hrest char hchar
        have hfits : ¬64 < byteLength name := by
          rw [byteLength_of_isNameChar hallowed, hname, List.length_cons]
          omega
        dsimp only
        rw [if_neg hall, if_neg hfits, if_neg (fun h => hbegins.mp h hstart),
          if_pos (hchars.mpr hallowed)]

end MpvTargets
