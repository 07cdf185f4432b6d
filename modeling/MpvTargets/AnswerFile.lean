import MpvTargets.Config
import MpvTargets.Json

/-! The answer file of a deployment, with its validation, and the configuration of mpv a target starts
with. -/

namespace MpvTargets

namespace F64

/-- A positive number as the printer of the standard library takes it apart: `mantissa * 2 ^ exponent`,
rounded to from every number between `below` less and `above` more units of the mantissa. -/
structure Decoded where
  mantissa : Nat
  below : Nat
  above : Nat
  exponent : Int
  inclusive : Bool

def decode (x : F64) : Decoded :=
  let scale := (x.exponent.val : Int)
  if x.exponent.val = 0 then ⟨2 * x.mantissa.val, 1, 1, -1075, true⟩
  else if x.mantissa.val = 0 then ⟨2 ^ 54, 1, 2, scale - 1077, true⟩
  else ⟨2 * (2 ^ 52 + x.mantissa.val), 1, 1, scale - 1076, x.mantissa.val % 2 = 0⟩

/-- The closest multiple of `10 ^ power` that is still read back as the number. -/
def Decoded.multiple (decoded : Decoded) (power : Int) : Option Nat :=
  let scaled (mantissa : Nat) := mantissa * 2 ^ decoded.exponent.toNat * 10 ^ (-power).toNat
  let unit := 2 ^ (-decoded.exponent).toNat * 10 ^ power.toNat
  let low := scaled (decoded.mantissa - decoded.below)
  let high := scaled (decoded.mantissa + decoded.above)
  let value := scaled decoded.mantissa
  let fits (digits : Nat) : Bool :=
    if decoded.inclusive then low ≤ digits * unit ∧ digits * unit ≤ high
    else low < digits * unit ∧ digits * unit < high
  let floor := value / unit
  if fits floor && (!fits (floor + 1) || 2 * (value % unit) < unit) then some floor
  else if fits (floor + 1) then some (floor + 1) else none

/-- The shortest digits that are read back as the number, and the power of ten of the last one. -/
def Decoded.shortest (decoded : Decoded) : Option (Nat × Int) :=
  (List.range 653).findSome? fun step =>
    (decoded.multiple (309 - step)).map fun digits => (digits, 309 - (step : Int))

/-- Digits with the decimal point where the power of ten says. -/
def decimalText (digits : Nat) (power : Int) : List Char :=
  let text := Nat.toDigits 10 digits
  if 0 ≤ power then text ++ List.replicate power.toNat '0'
  else
    let places := (-power).toNat
    if places < text.length then text.take (text.length - places) ++ '.' :: text.drop (text.length - places)
    else "0.".toList ++ List.replicate (places - text.length) '0' ++ text

/-- `f64::to_string` of a finite number. -/
def text (x : F64) : List Char :=
  (if x.negative then ['-'] else []) ++
    if x.IsZero then ['0']
    else (x.decode.shortest.elim [] fun shortest => decimalText shortest.1 shortest.2)

example : (F64.ofMagnitude false 80).text = "80".toList := by decide +kernel

example : (F64.ofSignificand true 3 (51 * 2 ^ 47)).text = "-12.75".toList := by decide +kernel

end F64

/-- An `f64` as TOML may give it. -/
inductive TomlFloat where
  | finite (value : F64)
  | infinite (negative : Bool)
  | nan
  deriving DecidableEq, Repr

namespace TomlFloat

def isFinite : TomlFloat → Bool
  | finite _ => true
  | _ => false

/-- `< 0.0`. -/
def isNegative : TomlFloat → Bool
  | finite value => value.negative && !value.IsZero
  | infinite negative => negative
  | nan => false

def text : TomlFloat → List Char
  | finite value => value.text
  | infinite negative => (if negative then ['-'] else []) ++ "inf".toList
  | nan => "NaN".toList

end TomlFloat

structure AnswerTls where
  generateSelfSigned : Bool
  certificate : Option String
  privateKey : Option String
  deriving DecidableEq, Repr

structure ServiceAnswer where
  install : Bool
  deriving DecidableEq, Repr

structure AnswerTarget where
  name : String
  disabled : Bool
  startPaused : Bool
  startMuted : Bool
  volume : TomlFloat
  deriving DecidableEq, Repr

structure AnswerFile where
  hostProfile : String
  node : NodeConfig
  tls : AnswerTls
  service : ServiceAnswer
  targets : List AnswerTarget
  deriving DecidableEq, Repr

/-- `default_volume`. -/
def defaultVolume : TomlFloat := .finite (F64.ofMagnitude false 100)

inductive AnswerError where
  | emptyHostProfile
  | emptyNodeId
  | invalidListenAddress (listen : String)
  | invalidTlsChoice
  | incompleteTlsPair
  | invalidTargetName (name : String) (error : TargetNameError)
  | duplicateTarget (name : String)
  | invalidVolume (name : String) (volume : TomlFloat)
  deriving DecidableEq, Repr

def AnswerError.message : AnswerError → String
  | emptyHostProfile => "host_profile must not be empty"
  | emptyNodeId => "node id must not be empty"
  | invalidListenAddress listen => "invalid listener address: " ++ listen
  | invalidTlsChoice =>
      "choose either generate_self_signed = true or a complete certificate/private_key pair"
  | incompleteTlsPair => "certificate and private_key must be supplied together"
  | invalidTargetName name error => "invalid target name `" ++ name ++ "`: " ++ error.message
  | duplicateTarget name => "duplicate target name: " ++ name
  | invalidVolume name volume =>
      "target `" ++ name ++ "` has invalid startup volume: " ++ String.ofList volume.text

namespace AnswerFile

/-- The supplied pair of sources, once it is known to be complete; none when the answer chose generation. -/
def certificatePair (answer : AnswerFile) : Except AnswerError (Option (String × String)) :=
  match answer.tls.certificate, answer.tls.privateKey with
  | none, none => .ok none
  | some certificate, some privateKey =>
      if !certificate.toList.isEmpty && !privateKey.toList.isEmpty then .ok (some (certificate, privateKey))
      else .error .incompleteTlsPair
  | _, _ => .error .incompleteTlsPair

/-- The loop of `validate` over the targets; `names` are those seen so far. -/
def validateTargets (names : List String) : List AnswerTarget → Except AnswerError Unit
  | [] => .ok ()
  | target :: rest =>
      match validateTargetName target.name with
      | .error error => .error (.invalidTargetName target.name error)
      | .ok () =>
          if names.contains target.name then .error (.duplicateTarget target.name)
          else if !target.volume.isFinite || target.volume.isNegative then
            .error (.invalidVolume target.name target.volume)
          else validateTargets (target.name :: names) rest

def validate (answer : AnswerFile) : Except AnswerError Unit := do
  if answer.hostProfile.toList.isEmpty then throw .emptyHostProfile
  if answer.node.id.toList.isEmpty then throw .emptyNodeId
  if (SocketAddr.parse answer.node.listen).isNone then throw (.invalidListenAddress answer.node.listen)
  let suppliedPair ← answer.certificatePair
  if answer.tls.generateSelfSigned = suppliedPair.isSome then throw .invalidTlsChoice
  validateTargets [] answer.targets

end AnswerFile

/-- `base_mpv_conf`. -/
def mpvConfAtVolume (startPaused startMuted : Bool) (volume : TomlFloat) : String :=
  "# Generated by mpv-targets. Edit this target-local file for advanced mpv settings.\n" ++
    "force-window=yes\nidle=yes\nreally-quiet=yes\npause=" ++ (if startPaused then "yes" else "no") ++
    "\nvolume=" ++ String.ofList volume.text ++ "\nmute=" ++ (if startMuted then "yes" else "no") ++
    "\ndirectory-mode=recursive\n"

end MpvTargets
