import Mathlib.Data.List.Basic

/-! The words of the `targets` command and the argument vectors it accepts for each. -/

namespace MpvTargets.Cli

/-- The commands that `run` hands to `lifecycle`. -/
inductive LifecycleCommand where
  | start
  | stop
  | restart
  | enable
  | disable
  deriving DecidableEq, Repr

/-- The commands that `run` hands to `mpv_action`. -/
inductive MpvCommand where
  | play
  | pause
  | togglePlay
  | loadfile
  | append
  | next
  | previous
  | mute
  | unmute
  | toggleMute
  | fullscreen
  | loop
  | repeat
  | shuffle
  | unshuffle
  | cycleAudio
  | cycleSubtitle
  | toggleSubtitle
  deriving DecidableEq, Repr

inductive Command where
  | status
  | add
  | remove
  | rename
  | identify
  | mpv
  | lifecycle (command : LifecycleCommand)
  | playlist
  | showChannels
  | setChannel
  | clearChannel
  | action (command : MpvCommand)
  deriving DecidableEq, Repr

/-- The arms of the two matches on the command word. -/
def Command.ofWord : String → Option Command
  | "status" => some .status
  | "add" => some .add
  | "remove" => some .remove
  | "rename" => some .rename
  | "identify" => some .identify
  | "mpv" => some .mpv
  | "start" => some (.lifecycle .start)
  | "stop" => some (.lifecycle .stop)
  | "restart" => some (.lifecycle .restart)
  | "enable" => some (.lifecycle .enable)
  | "disable" => some (.lifecycle .disable)
  | "playlist" => some .playlist
  | "show-channels" => some .showChannels
  | "set-channel" => some .setChannel
  | "clear-channel" => some .clearChannel
  | "play" => some (.action .play)
  | "pause" => some (.action .pause)
  | "toggle-play" => some (.action .togglePlay)
  | "loadfile" => some (.action .loadfile)
  | "append" => some (.action .append)
  | "next" => some (.action .next)
  | "previous" => some (.action .previous)
  | "mute" => some (.action .mute)
  | "unmute" => some (.action .unmute)
  | "toggle-mute" => some (.action .toggleMute)
  | "fullscreen" => some (.action .fullscreen)
  | "loop" => some (.action .loop)
  | "repeat" => some (.action .repeat)
  | "shuffle" => some (.action .shuffle)
  | "unshuffle" => some (.action .unshuffle)
  | "cycle-audio" => some (.action .cycleAudio)
  | "cycle-subtitle" => some (.action .cycleSubtitle)
  | "toggle-subtitle" => some (.action .toggleSubtitle)
  | _ => none

def LifecycleCommand.word : LifecycleCommand → String
  | .start => "start"
  | .stop => "stop"
  | .restart => "restart"
  | .enable => "enable"
  | .disable => "disable"

def MpvCommand.word : MpvCommand → String
  | .play => "play"
  | .pause => "pause"
  | .togglePlay => "toggle-play"
  | .loadfile => "loadfile"
  | .append => "append"
  | .next => "next"
  | .previous => "previous"
  | .mute => "mute"
  | .unmute => "unmute"
  | .toggleMute => "toggle-mute"
  | .fullscreen => "fullscreen"
  | .loop => "loop"
  | .repeat => "repeat"
  | .shuffle => "shuffle"
  | .unshuffle => "unshuffle"
  | .cycleAudio => "cycle-audio"
  | .cycleSubtitle => "cycle-subtitle"
  | .toggleSubtitle => "toggle-subtitle"

theorem ofWord_lifecycle_iff {word : String} {command : LifecycleCommand} :
    Command.ofWord word = some (.lifecycle command) ↔ word = command.word := by
  constructor
  · intro h
    unfold Command.ofWord at h
    split at h <;> cases h <;> rfl
  · rintro rfl
    cases command <;> rfl

theorem ofWord_action_iff {word : String} {command : MpvCommand} :
    Command.ofWord word = some (.action command) ↔ word = command.word := by
  constructor
  · intro h
    unfold Command.ofWord at h
    split at h <;> cases h <;> rfl
  · rintro rfl
    cases command <;> rfl

/-- `arg.starts_with("--")`. -/
def isFlag (arg : String) : Bool := ['-', '-'].isPrefixOf arg.toList

/-- One place of a form: a placeholder such as `<target>`, or a word that must stand there. -/
def matchesPlace (expected actual : String) : Bool :=
  if expected.toList.head? = some '<' then !isFlag actual else expected == actual

def exact (args : List String) (forms : List (List String)) : Bool :=
  forms.any fun form =>
    form.length == args.length && (form.zip args).all fun place => matchesPlace place.1 place.2

def validTargetList (args : List String) (allowAll : Bool) (trailingFlag : Option String) : Bool :=
  let (targets, flagValid) :=
    match trailingFlag with
    | some flag => if args.getLast? = some flag then (args.dropLast, true) else (args, !args.any isFlag)
    | none => (args, !args.any isFlag)
  flagValid && !targets.isEmpty && targets.all (fun target => !isFlag target) &&
    if targets.contains "all" then allowAll && targets.length == 1 else true

/-- The loop of `validate_add_args`, with the options seen so far. -/
def validateAddOptions (seen : List String) : List String → Except String Unit
  | [] => .ok ()
  | option :: rest =>
      if option ∉ ["--from", "--channel", "--enable", "--start"] then
        .error ("unknown add option `" ++ option ++ "`")
      else if option ∈ seen then .error ("duplicate add option `" ++ option ++ "`")
      else if option ∈ ["--from", "--channel"] then
        match rest with
        | [] => .error (option ++ " requires a value")
        | value :: rest =>
            if isFlag value then .error (option ++ " requires a value")
            else validateAddOptions (option :: seen) rest
      else validateAddOptions (option :: seen) rest

def validateAddArgs : List String → Except String Unit
  | [] => .error "target is required"
  | _ :: options => validateAddOptions [] options

def validLifecycleArgs (args : List String) : LifecycleCommand → Bool
  | .start | .stop | .restart => validTargetList args true none
  | .enable => validTargetList args false (some "--start")
  | .disable => validTargetList args false none

def validMpvArgs (args : List String) : MpvCommand → Bool
  | .loadfile | .append => exact args [["<target>", "<source>"]]
  | .play | .pause | .togglePlay | .mute => validTargetList args true none
  | .next | .previous | .unmute | .toggleMute | .loop | .repeat | .shuffle | .unshuffle =>
      validTargetList args false none
  | .fullscreen | .cycleAudio | .cycleSubtitle | .toggleSubtitle => exact args [["<target>"]]

def validArgs (args : List String) : Command → Bool
  | .status => exact args [[], ["<target>"], ["--json"], ["<target>", "--json"]]
  | .add => (validateAddArgs args).isOk -- `validate_command_args` returns its error
  | .remove => exact args [["<target>"], ["<target>", "--yes"]]
  | .rename => exact args [["<target>", "<new-target>"], ["<target>", "<new-target>", "--yes"]]
  | .lifecycle command => validLifecycleArgs args command
  | .showChannels => exact args [[]]
  | .setChannel => exact args [["<target>", "<channel>"], ["<target>", "<channel>", "--restart"]]
  | .clearChannel => exact args [["<target>"], ["<target>", "--restart"]]
  | .playlist => exact args [["<target>"], ["<target>", "<item>"]]
  | .action command => validMpvArgs args command
  | .identify => args.isEmpty
  | .mpv => decide (2 ≤ args.length)

def validateCommandArgs (word : String) (args : List String) : Except String Unit :=
  match Command.ofWord word with
  | none => .error ("unknown command `" ++ word ++ "`; use `targets help`")
  | some .add => validateAddArgs args
  | some command =>
      if validArgs args command then .ok ()
      else .error ("invalid arguments for `" ++ word ++ "`; use `targets help`")

variable {args : List String}

theorem validArgs_of_accepted {word : String} {command : Command}
    (haccepted : validateCommandArgs word args = .ok ()) (hword : Command.ofWord word = some command) :
    validArgs args command = true := by
  unfold validateCommandArgs at haccepted
  rw [hword] at haccepted
  by_cases hadd : command = .add
  · subst hadd
    rw [validArgs, show validateAddArgs args = .ok () from haccepted]
    rfl
  · by_cases hvalid : validArgs args command = true
    · exact hvalid
    · exfalso
      cases command <;> simp_all

/-- `all` stands in an accepted target list alone, where the list may have it. -/
theorem all_of_validTargetList {allowAll : Bool} (h : validTargetList args allowAll none = true)
    (hall : "all" ∈ args) : allowAll = true ∧ args = ["all"] := by
  unfold validTargetList at h
  have hcontains : args.contains "all" = true := List.contains_iff_mem.mpr hall
  simp only [hcontains, if_true, Bool.and_eq_true, beq_iff_eq] at h
  obtain ⟨-, hallow, hlength⟩ := h
  obtain ⟨arg, rfl⟩ := List.length_eq_one_iff.mp hlength
  exact ⟨hallow, by rw [List.mem_singleton.mp hall]⟩

/-- `enable` takes no `all`, with or without `--start`. -/
theorem all_not_mem_of_validTargetList {flag : String} (hflag : isFlag flag = true)
    (h : validTargetList args false (some flag) = true) : "all" ∉ args := by
  have hall : isFlag "all" = false := by decide
  intro hmem
  unfold validTargetList at h
  by_cases hlast : args.getLast? = some flag
  · obtain ⟨before, rfl⟩ := List.getLast?_eq_some_iff.mp hlast
    have hbefore : "all" ∈ before := by
      rcases List.mem_append.mp hmem with hmem | hmem
      · exact hmem
      · rw [List.mem_singleton.mp hmem, hflag] at hall
        cases hall
    simp [hbefore] at h
  · simp [hlast, hmem] at h

end MpvTargets.Cli
