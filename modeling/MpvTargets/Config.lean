import MpvTargets.SocketAddr

/-! Target names, channels and the daemon's configuration with its validation. -/

namespace MpvTargets

/-- The components of a Unix path as `Path::components` yields them: empty segments and `.` are
skipped, except a `.` that begins a relative path. -/
inductive PathComponent where
  | rootDir
  | curDir
  | parentDir
  | normal (name : List Char)
  deriving DecidableEq, Repr

namespace UnixPath

def isAbsolute (path : List Char) : Bool := path.head? == some '/'

def segments (path : List Char) : List (List Char) :=
  (path.splitOn '/').filter fun segment => segment ≠ [] ∧ segment ≠ ['.']

def components (path : List Char) : List PathComponent :=
  let begins : List PathComponent :=
    if isAbsolute path then [.rootDir]
    else if (path.splitOn '/').head? = some ['.'] then [.curDir] else []
  begins ++ (segments path).map fun segment =>
    if segment = ['.', '.'] then .parentDir else .normal segment

/-- `Path::file_name`. -/
def fileName (path : List Char) : Option (List Char) :=
  match (components path).getLast? with
  | some (.normal name) => some name
  | _ => none

/-- `Path::extension`: what follows the last dot of the file name, unless nothing precedes that dot. -/
def extension (path : List Char) : Option (List Char) :=
  (fileName path).bind fun name =>
    match name.reverse.dropWhile fun char => char ≠ '.' with
    | [] => none
    | _ :: before =>
        if before.isEmpty then none
        else some (name.reverse.takeWhile fun char => char ≠ '.').reverse

end UnixPath

inductive TargetNameError where
  | empty
  | reserved
  | invalidLength
  | invalidStart
  | invalidCharacters
  deriving DecidableEq, Repr

def TargetNameError.message : TargetNameError → String
  | empty => "target name must not be empty"
  | reserved => "`all` is reserved for the operator bulk selector"
  | invalidLength => "target name must be 1–64 characters"
  | invalidStart => "target name must begin with a lowercase ASCII letter or digit"
  | invalidCharacters =>
      "target name may use only lowercase ASCII letters, digits, `-`, and `_`"

def isAsciiLowercase (char : Char) : Bool := 'a' ≤ char ∧ char ≤ 'z'

def isAsciiDigit (char : Char) : Bool := '0' ≤ char ∧ char ≤ '9'

/-- `str::len`. -/
def byteLength (text : String) : Nat := (text.toList.map Char.utf8Size).sum

def validateTargetName (name : String) : Except TargetNameError Unit :=
  match name.toList with
  | [] => .error .empty
  | first :: rest =>
      if name = "all" then .error .reserved
      else if 64 < byteLength name then .error .invalidLength
      else if !isAsciiLowercase first && !isAsciiDigit first then .error .invalidStart
      else if (first :: rest).all fun char =>
          isAsciiLowercase char || isAsciiDigit char || char == '-' || char == '_' then .ok ()
      else .error .invalidCharacters

/-- The text contains `://`. -/
def containsScheme : List Char → Bool
  | [] => false
  | char :: rest => [':', '/', '/'].isPrefixOf (char :: rest) || containsScheme rest

def hasChannelExtension (path : List Char) : Bool :=
  match UnixPath.extension path with
  | none => false
  | some extension =>
      let lower := extension.map Char.toLower
      lower == "m3u".toList || lower == "m3u8".toList

def validChannel (value : String) : Bool :=
  if value.toList.isEmpty then false
  else if containsScheme value.toList then true
  else UnixPath.isAbsolute value.toList && hasChannelExtension value.toList

structure NodeConfig where
  id : String
  listen : String
  deriving DecidableEq, Repr

structure TlsConfig where
  certificate : String
  privateKey : String
  deriving DecidableEq, Repr

structure TargetConfig where
  name : String
  disabled : Bool
  channel : Option String
  deriving DecidableEq, Repr

structure DaemonConfig where
  node : NodeConfig
  tls : TlsConfig
  targets : List TargetConfig
  deriving DecidableEq, Repr

inductive ConfigError where
  | toml
  | emptyNodeId
  | invalidListenAddress (listen : String)
  | invalidPath (label path : String)
  | invalidTargetName (name : String) (source : TargetNameError)
  | duplicateTarget (name : String)
  | invalidChannel (channel : String)
  deriving DecidableEq, Repr

/-- The text of an error; that of a TOML error is the `toml` crate's own and is not modelled. -/
def ConfigError.message : ConfigError → String
  | toml => "invalid TOML"
  | emptyNodeId => "node id must not be empty"
  | invalidListenAddress listen => "invalid listener address: " ++ listen
  | invalidPath label path => "invalid " ++ label ++ " path: " ++ path
  | invalidTargetName name source =>
      "invalid target name `" ++ name ++ "`: " ++ source.message
  | duplicateTarget name => "duplicate target name: " ++ name
  | invalidChannel channel => "channel must be an absolute .m3u/.m3u8 path or URL: " ++ channel

def validateConfigPath (value label : String) : Except ConfigError Unit :=
  if value.toList.isEmpty || UnixPath.isAbsolute value.toList ||
      (UnixPath.components value.toList).contains .parentDir then
    .error (.invalidPath label value)
  else .ok ()

def validateChannel (value : String) : Except ConfigError Unit :=
  if validChannel value then .ok () else .error (.invalidChannel value)

/-- The loop of `validate` over the targets; `names` are those seen so far. -/
def validateTargets (names : List String) : List TargetConfig → Except ConfigError Unit
  | [] => .ok ()
  | target :: rest =>
      match validateTargetName target.name with
      | .error source => .error (.invalidTargetName target.name source)
      | .ok () =>
          if names.contains target.name then .error (.duplicateTarget target.name)
          else
            match target.channel.elim (.ok ()) validateChannel with
            | .error error => .error error
            | .ok () => validateTargets (target.name :: names) rest

def DaemonConfig.validate (config : DaemonConfig) : Except ConfigError Unit := do
  if config.node.id.toList.isEmpty then throw .emptyNodeId
  if (SocketAddr.parse config.node.listen).isNone then
    throw (.invalidListenAddress config.node.listen)
  validateConfigPath config.tls.certificate "TLS certificate"
  validateConfigPath config.tls.privateKey "TLS private key"
  validateTargets [] config.targets

/-- The `toml` crate: printing may fail, parsing fails on other texts. -/
structure Toml where
  toStringPretty : DaemonConfig → Option String
  fromStr : String → Option DaemonConfig

/-- The crate reads back what it prints. -/
def Toml.ParsesBack (toml : Toml) : Prop :=
  ∀ config text, toml.toStringPretty config = some text → toml.fromStr text = some config

/-- The crate prints every configuration. -/
def Toml.Prints (toml : Toml) : Prop := ∀ config, (toml.toStringPretty config).isSome = true

def DaemonConfig.parse (toml : Toml) (source : String) : Except ConfigError DaemonConfig := do
  match toml.fromStr source with
  | none => throw .toml
  | some config =>
      config.validate
      return config

def DaemonConfig.names (config : DaemonConfig) : List String :=
  config.targets.map TargetConfig.name

theorem validateTargets_nodup {names : List String} {targets : List TargetConfig}
    (h : validateTargets names targets = .ok ()) :
    (targets.map TargetConfig.name).Nodup ∧ ∀ target ∈ targets, target.name ∉ names := by
  induction targets generalizing names with
  | nil => simp
  | cons target rest ih =>
      rw [validateTargets] at h
      split at h
      · cases h
      · split at h
        · cases h
        · rename_i hnew
          split at h
          · cases h
          · obtain ⟨hnodup, hfresh⟩ := ih h
            have hnew : target.name ∉ names := by simpa using hnew
            refine ⟨List.nodup_cons.mpr ⟨?_, hnodup⟩, ?_⟩
            · rw [List.mem_map]
              rintro ⟨other, hother, hname⟩
              exact hfresh other hother (hname ▸ List.mem_cons_self)
            · intro other hother
              rcases List.mem_cons.mp hother with rfl | hother
              · exact hnew
              · exact fun hmem => hfresh other hother (List.mem_cons_of_mem _ hmem)

theorem validateTargets_of_validate {config : DaemonConfig} (h : config.validate = .ok ()) :
    validateTargets [] config.targets = .ok () := by
  simp only [DaemonConfig.validate, bind, Except.bind, throw, throwThe, MonadExceptOf.throw] at h
  split_ifs at h
  split at h
  · cases h
  · split at h
    · cases h
    · exact h

/-- A configuration that validates has distinct target names. -/
theorem names_nodup_of_validate {config : DaemonConfig} (h : config.validate = .ok ()) :
    config.names.Nodup :=
  (validateTargets_nodup (validateTargets_of_validate h)).1

end MpvTargets
