import Mathlib.Data.String.Basic

/-! UTF-8 texts as lists of bytes: the encoding of characters, and the lossy decoding, which puts U+FFFD
for every longest run of bytes that begins a character and does not go on as one. -/

namespace Utf8

def encode (chars : List Char) : List UInt8 := chars.flatMap String.utf8EncodeChar

theorem encode_append (left right : List Char) : encode (left ++ right) = encode left ++ encode right :=
  List.flatMap_append

theorem encode_cons (char : Char) (chars : List Char) :
    encode (char :: chars) = String.utf8EncodeChar char ++ encode chars :=
  List.flatMap_cons

def replacement : Char := Char.ofNat 0xFFFD

/-- A character that is not complete: the next byte has to lie between `low` and `high`, and `left` more
follow it. Whatever they are, the character is none that has an encoding of one byte. -/
structure Pending where
  value : Nat
  low : Nat
  high : Nat
  left : Nat
  le_low : 128 ≤ low
  wide : 128 ≤ (value * 64 + (low - 128)) * 64 ^ left

/-- After a first byte of two, three and four: the first bytes at the ends of a range leave less for the
next one. -/
def Pending.two (byte : Nat) (h : 0xC2 ≤ byte) : Pending where
  value := byte - 0xC0
  low := 0x80
  high := 0xBF
  left := 0
  le_low := by omega
  wide := by omega

def Pending.three (byte : Nat) (h : 0xE0 ≤ byte) : Pending where
  value := byte - 0xE0
  low := if byte = 0xE0 then 0xA0 else 0x80
  high := if byte = 0xED then 0x9F else 0xBF
  left := 1
  le_low := by split <;> omega
  wide := by split <;> omega

def Pending.four (byte : Nat) (h : 0xF0 ≤ byte) : Pending where
  value := byte - 0xF0
  low := if byte = 0xF0 then 0x90 else 0x80
  high := if byte = 0xF4 then 0x8F else 0xBF
  left := 2
  le_low := by split <;> omega
  wide := by split <;> omega

theorem Pending.low_three (byte : Nat) (h : 0xE0 ≤ byte) :
    (three byte h).low = if byte = 0xE0 then 0xA0 else 0x80 := rfl

theorem Pending.high_three (byte : Nat) (h : 0xE0 ≤ byte) :
    (three byte h).high = if byte = 0xED then 0x9F else 0xBF := rfl

theorem Pending.low_four (byte : Nat) (h : 0xF0 ≤ byte) :
    (four byte h).low = if byte = 0xF0 then 0x90 else 0x80 := rfl

theorem Pending.high_four (byte : Nat) (h : 0xF0 ≤ byte) :
    (four byte h).high = if byte = 0xF4 then 0x8F else 0xBF := rfl

/-- What the first byte of a character says. -/
def first (byte : Nat) : Option (Char ⊕ Pending) :=
  if byte ≤ 0x7F then some (.inl (Char.ofNat byte))
  else if h : 0xC2 ≤ byte ∧ byte ≤ 0xDF then some (.inr (.two byte h.1))
  else if h : 0xE0 ≤ byte ∧ byte ≤ 0xEF then some (.inr (.three byte h.1))
  else if h : 0xF0 ≤ byte ∧ byte ≤ 0xF4 then some (.inr (.four byte h.1))
  else none

theorem Pending.wide_next (pending : Pending) {byte left : Nat} (h : pending.low ≤ byte)
    (hleft : pending.left = left + 1) :
    128 ≤ ((pending.value * 64 + (byte - 128)) * 64 + (128 - 128)) * 64 ^ left := by
  have hwide := pending.wide
  rw [hleft, Nat.pow_succ', ← Nat.mul_assoc] at hwide
  have hmono : (pending.value * 64 + (pending.low - 128)) * 64 ≤
      (pending.value * 64 + (byte - 128)) * 64 + (128 - 128) := by omega
  exact le_trans hwide (Nat.mul_le_mul_right _ hmono)

/-- After one more byte. -/
def Pending.further (pending : Pending) (byte : Nat) {left : Nat} (h : pending.low ≤ byte)
    (hleft : pending.left = left + 1) : Pending where
  value := pending.value * 64 + (byte - 128)
  low := 0x80
  high := 0xBF
  left := left
  le_low := by omega
  wide := pending.wide_next h hleft

/-- What a further byte says. -/
def Pending.next (pending : Pending) (byte : Nat) : Option (Char ⊕ Pending) :=
  if h : pending.low ≤ byte ∧ byte ≤ pending.high then
    match hleft : pending.left with
    | 0 => some (.inl (Char.ofNat (pending.value * 64 + (byte - 128))))
    | _ + 1 => some (.inr (pending.further byte h.1 hleft))
  else none

/-- What is put for a character that does not go on. -/
def flush (state : Option Pending) : List Char := if state.isSome then [replacement] else []

/-- The characters that come before the state after a byte. -/
def emitted : Option (Char ⊕ Pending) → List Char × Option Pending
  | some (.inl char) => ([char], none)
  | some (.inr pending) => ([], some pending)
  | none => ([replacement], none)

def step (state : Option Pending) (byte : UInt8) : List Char × Option Pending :=
  match state.bind fun pending => pending.next byte.toNat with
  | some result => emitted (some result)
  | none =>
      let begun := emitted (first byte.toNat)
      (flush state ++ begun.1, begun.2)

def decodeFrom (state : Option Pending) : List UInt8 → List Char
  | [] => flush state
  | byte :: rest => (step state byte).1 ++ decodeFrom (step state byte).2 rest

/-- `String::from_utf8_lossy`. -/
def decodeLossy (bytes : List UInt8) : List Char := decodeFrom none bytes

/-- `str::from_utf8`: the bytes that are the encoding of some text. -/
def decode? (bytes : List UInt8) : Option (List Char) :=
  if encode (decodeLossy bytes) = bytes then some (decodeLossy bytes) else none

section

variable {state : Option Pending} {byte : UInt8}

theorem Pending.next_eq_none (pending : Pending) {byte : Nat} (h : byte ≤ 0x7F) :
    pending.next byte = none := by
  have hlow := pending.le_low
  exact dif_neg (by omega)

/-- A byte of ASCII is a character wherever it comes. -/
theorem step_ascii (state : Option Pending) (h : byte.toNat ≤ 0x7F) :
    step state byte = (flush state ++ [Char.ofNat byte.toNat], none) := by
  have hfirst : first byte.toNat = some (.inl (Char.ofNat byte.toNat)) := if_pos h
  have hnext : (state.bind fun pending => pending.next byte.toNat) = none := by
    cases state with
    | none => rfl
    | some pending => exact pending.next_eq_none h
  rw [step, hnext, hfirst]
  rfl

theorem decodeFrom_append_ascii (state : Option Pending) (bytes rest : List UInt8)
    (h : byte.toNat ≤ 0x7F) :
    decodeFrom state (bytes ++ byte :: rest) =
      decodeFrom state bytes ++ Char.ofNat byte.toNat :: decodeLossy rest := by
  induction bytes generalizing state with
  | nil =>
      rw [List.nil_append]
      unfold decodeFrom
      rw [step_ascii state h, List.append_assoc]
      rfl
  | cons first bytes ih => rw [List.cons_append, decodeFrom, decodeFrom, ih, List.append_assoc]

/-- The lossy decoding does not go across a byte of ASCII. -/
theorem decodeLossy_append_ascii (bytes rest : List UInt8) (h : byte.toNat ≤ 0x7F) :
    decodeLossy (bytes ++ byte :: rest) =
      decodeLossy bytes ++ Char.ofNat byte.toNat :: decodeLossy rest :=
  decodeFrom_append_ascii none bytes rest h

theorem emitted_ne {result : Option (Char ⊕ Pending)} : emitted result ≠ ([], none) := by
  match result with
  | some (.inl char) => exact nofun
  | some (.inr pending) => exact nofun
  | none => exact nofun

/-- Nothing is decoded to nothing. -/
theorem decodeFrom_eq_nil {bytes : List UInt8} (h : decodeFrom state bytes = []) :
    state = none ∧ bytes = [] := by
  induction bytes generalizing state with
  | nil =>
      cases state with
      | none => exact ⟨rfl, rfl⟩
      | some pending => cases h
  | cons byte bytes ih =>
      unfold decodeFrom at h
      obtain ⟨hstep, hrest⟩ := List.append_eq_nil_iff.mp h
      have hstate := (ih hrest).1
      unfold step at hstep hstate
      split at hstep
      · rename_i result hresult
        rw [hresult] at hstate
        exact absurd (Prod.ext hstep hstate) emitted_ne
      · rename_i hresult
        rw [hresult] at hstate
        exact absurd (Prod.ext (List.append_eq_nil_iff.mp hstep).2 hstate) emitted_ne

theorem toNat_ofNat_ascii {value : Nat} (h : value ≤ 0x7F) : (Char.ofNat value).toNat = value := by
  have hvalid : value.isValidChar := Or.inl (by omega)
  rw [Char.ofNat, dif_pos hvalid]
  rfl

/-- A number above ASCII gives no character of ASCII but the null character. -/
theorem ofNat_ne_ascii {value : Nat} {char : Char} (hvalue : 128 ≤ value) (hchar : char.toNat ≤ 0x7F)
    (hnull : char.toNat ≠ 0) : Char.ofNat value ≠ char := by
  rintro rfl
  by_cases hvalid : value.isValidChar
  · rw [Char.ofNat, dif_pos hvalid] at hchar
    exact absurd (show value ≤ 0x7F from hchar) (by omega)
  · rw [Char.ofNat, dif_neg hvalid] at hnull
    exact hnull rfl

theorem mem_emitted {result : Option (Char ⊕ Pending)} {char : Char} (hchar : char.toNat ≤ 0x7F)
    (h : char ∈ (emitted result).1) : result = some (.inl char) := by
  match result with
  | some (.inl other) => rw [List.mem_singleton.mp h]
  | some (.inr pending) => cases h
  | none =>
      rw [List.mem_singleton.mp h] at hchar
      exact absurd hchar (by decide)

theorem Pending.next_ne_ascii (pending : Pending) {byte : Nat} {char : Char} (hchar : char.toNat ≤ 0x7F)
    (hnull : char.toNat ≠ 0) : pending.next byte ≠ some (.inl char) := by
  unfold Pending.next
  split
  · rename_i hbyte
    split
    · rename_i hleft
      intro heq
      have hwide := pending.wide
      rw [hleft, Nat.pow_zero, Nat.mul_one] at hwide
      exact ofNat_ne_ascii (by omega) hchar hnull (Sum.inl.inj (Option.some.inj heq))
    · exact nofun
  · exact nofun

theorem first_eq_ascii {byte : Nat} {char : Char} (h : first byte = some (.inl char)) :
    char = Char.ofNat byte ∧ byte ≤ 0x7F := by
  unfold first at h
  split_ifs at h with hbyte <;> cases h
  exact ⟨rfl, hbyte⟩

theorem not_mem_flush {char : Char} (hchar : char.toNat ≤ 0x7F) : char ∉ flush state := by
  unfold flush
  split
  · rw [List.mem_singleton]
    rintro rfl
    exact absurd hchar (by decide)
  · exact List.not_mem_nil

theorem mem_step {char : Char} (hchar : char.toNat ≤ 0x7F) (hnull : char.toNat ≠ 0)
    (h : char ∈ (step state byte).1) : byte.toNat = char.toNat := by
  unfold step at h
  split at h
  · rename_i result hresult
    obtain ⟨pending, _, hnext⟩ := Option.bind_eq_some_iff.mp hresult
    have hinl := Option.some.inj (mem_emitted hchar h)
    rw [hinl] at hnext
    exact absurd hnext (pending.next_ne_ascii hchar hnull)
  · rcases List.mem_append.mp h with h | h
    · exact absurd h (not_mem_flush hchar)
    · obtain ⟨rfl, hbyte⟩ := first_eq_ascii (mem_emitted hchar h)
      exact (toNat_ofNat_ascii hbyte).symm

/-- A character of ASCII in the lossy decoding is one of the bytes. -/
theorem exists_of_mem_decodeFrom {bytes : List UInt8} {char : Char} (hchar : char.toNat ≤ 0x7F)
    (hnull : char.toNat ≠ 0) (h : char ∈ decodeFrom state bytes) :
    ∃ byte ∈ bytes, byte.toNat = char.toNat := by
  induction bytes generalizing state with
  | nil => exact absurd h (not_mem_flush hchar)
  | cons byte bytes ih =>
      unfold decodeFrom at h
      rcases List.mem_append.mp h with h | h
      · exact ⟨byte, List.mem_cons_self, mem_step hchar hnull h⟩
      · obtain ⟨other, hother, heq⟩ := ih h
        exact ⟨other, List.mem_cons_of_mem _ hother, heq⟩

end

theorem first_two {byte : Nat} (h : 0xC2 ≤ byte ∧ byte ≤ 0xDF) :
    first byte = some (.inr (.two byte h.1)) := by
  rw [first, if_neg (by omega), dif_pos h]

theorem first_three {byte : Nat} (h : 0xE0 ≤ byte ∧ byte ≤ 0xEF) :
    first byte = some (.inr (.three byte h.1)) := by
  rw [first, if_neg (by omega), dif_neg (by omega), dif_pos h]

theorem first_four {byte : Nat} (h : 0xF0 ≤ byte ∧ byte ≤ 0xF4) :
    first byte = some (.inr (.four byte h.1)) := by
  rw [first, if_neg (by omega), dif_neg (by omega), dif_neg (by omega), dif_pos h]

theorem toNat_byte {byte : Nat} (h : byte < 256) : (UInt8.ofNat byte).toNat = byte := by
  rw [UInt8.toNat_ofNat']
  exact Nat.mod_eq_of_lt h

theorem decodeFrom_first {byte : Nat} {pending : Pending} (rest : List UInt8) (hbyte : byte < 256)
    (h : first byte = some (.inr pending)) :
    decodeFrom none (UInt8.ofNat byte :: rest) = decodeFrom (some pending) rest := by
  have htoNat : (UInt8.ofNat byte).toNat = byte := toNat_byte hbyte
  rw [decodeFrom]
  unfold step
  rw [htoNat, h]
  rfl

section

variable (pending : Pending) {tail : Nat} (rest : List UInt8) (htail : tail < 64)
  (hlow : pending.low ≤ tail + 128) (hhigh : tail + 128 ≤ pending.high)

include htail hlow hhigh

theorem decodeFrom_last (hleft : pending.left = 0) :
    decodeFrom (some pending) (UInt8.ofNat (tail + 128) :: rest) =
      Char.ofNat (pending.value * 64 + tail) :: decodeLossy rest := by
  have htoNat : (UInt8.ofNat (tail + 128)).toNat = tail + 128 := toNat_byte (by omega)
  have hnext : pending.next (tail + 128) = some (.inl (Char.ofNat (pending.value * 64 + tail))) := by
    unfold Pending.next
    rw [dif_pos ⟨hlow, hhigh⟩]
    split
    · rw [Nat.add_sub_cancel]
    · rename_i left hsucc
      rw [hleft] at hsucc
      cases hsucc
  rw [decodeFrom]
  unfold step
  rw [htoNat, Option.bind_some, hnext]
  rfl

theorem decodeFrom_more {left : Nat} (hleft : pending.left = left + 1) :
    decodeFrom (some pending) (UInt8.ofNat (tail + 128) :: rest) =
      decodeFrom (some (pending.further (tail + 128) hlow hleft)) rest := by
  have htoNat : (UInt8.ofNat (tail + 128)).toNat = tail + 128 := toNat_byte (by omega)
  have hnext : pending.next (tail + 128) = some (.inr (pending.further (tail + 128) hlow hleft)) := by
    unfold Pending.next
    rw [dif_pos ⟨hlow, hhigh⟩]
    split
    · rename_i hzero
      rw [hleft] at hzero
      cases hzero
    · rename_i left' hsucc
      cases Nat.succ.inj (hleft.symm.trans hsucc)
      rfl
  rw [decodeFrom]
  unfold step
  rw [htoNat, Option.bind_some, hnext]
  rfl

end

theorem decodeFrom_encodeChar (char : Char) (rest : List UInt8) :
    decodeLossy (String.utf8EncodeChar char ++ rest) = char :: decodeLossy rest := by
  have hvalid : char.toNat.isValidChar := char.valid
  have hchar : Char.ofNat char.toNat = char := Char.ofNat_toNat char
  have hval : char.val.toNat = char.toNat := rfl
  unfold String.utf8EncodeChar
  rw [hval]
  generalize char.toNat = value at hvalid hchar
  subst hchar
  dsimp only
  unfold decodeLossy
  split_ifs with hone htwo hthree
  · have htoNat : (UInt8.ofNat value).toNat = value := toNat_byte (by omega)
    rw [List.singleton_append, decodeFrom, step_ascii none (by omega), htoNat]
    rfl
  · have hvalue : (value / 64 % 0x20 + 0xc0 - 0xC0) * 64 + value % 0x40 = value := by omega
    have hbyte : 0xC2 ≤ value / 64 % 0x20 + 0xc0 ∧ value / 64 % 0x20 + 0xc0 ≤ 0xDF := by omega
    have hlast := decodeFrom_last (.two _ hbyte.1) rest
      (Nat.mod_lt value (by decide)) (Nat.le_add_left _ _) (show value % 0x40 + 128 ≤ 0xBF by omega) rfl
    rw [List.cons_append, List.singleton_append, decodeFrom_first _ (by omega) (first_two hbyte), hlast]
    exact congrArg (Char.ofNat · :: decodeLossy rest) hvalue
  · have hvalue : ((value / 4096 % 0x10 + 0xe0 - 0xE0) * 64 + (value / 64 % 0x40 + 128 - 128)) * 64 +
        value % 0x40 = value := by omega
    have hbyte : 0xE0 ≤ value / 4096 % 0x10 + 0xe0 ∧ value / 4096 % 0x10 + 0xe0 ≤ 0xEF := by omega
    have hlow : (Pending.three _ hbyte.1).low ≤ value / 64 % 0x40 + 128 := by
      rw [Pending.low_three]
      split <;> omega
    have hhigh : value / 64 % 0x40 + 128 ≤ (Pending.three _ hbyte.1).high := by
      have hrange : value < 0xD800 ∨ 0xDFFF < value := by
        rcases hvalid with h | h <;> omega
      rw [Pending.high_three]
      split <;> omega
    have hmore := decodeFrom_more (Pending.three _ hbyte.1) (UInt8.ofNat (value % 0x40 + 0x80) :: rest)
      (Nat.mod_lt (value / 64) (by decide)) hlow hhigh rfl
    have hlast := decodeFrom_last ((Pending.three _ hbyte.1).further _ hlow rfl) rest
      (Nat.mod_lt value (by decide)) (Nat.le_add_left _ _) (show value % 0x40 + 128 ≤ 0xBF by omega) rfl
    rw [List.cons_append, List.cons_append, List.singleton_append,
      decodeFrom_first _ (by omega) (first_three hbyte), hmore, hlast]
    exact congrArg (Char.ofNat · :: decodeLossy rest) hvalue
  · have hmax : value < 0x110000 := by
      rcases hvalid with h | h <;> omega
    have hvalue : (((value / 262144 % 0x08 + 0xf0 - 0xF0) * 64 + (value / 4096 % 0x40 + 128 - 128)) * 64 +
        (value / 64 % 0x40 + 128 - 128)) * 64 + value % 0x40 = value := by omega
    have hbyte : 0xF0 ≤ value / 262144 % 0x08 + 0xf0 ∧ value / 262144 % 0x08 + 0xf0 ≤ 0xF4 := by omega
    have hlow : (Pending.four _ hbyte.1).low ≤ value / 4096 % 0x40 + 128 := by
      rw [Pending.low_four]
      split <;> omega
    have hhigh : value / 4096 % 0x40 + 128 ≤ (Pending.four _ hbyte.1).high := by
      rw [Pending.high_four]
      split <;> omega
    have hmore := decodeFrom_more (Pending.four _ hbyte.1)
      (UInt8.ofNat (value / 64 % 0x40 + 0x80) :: UInt8.ofNat (value % 0x40 + 0x80) :: rest)
      (Nat.mod_lt (value / 4096) (by decide)) hlow hhigh rfl
    have hmore' := decodeFrom_more ((Pending.four _ hbyte.1).further _ hlow rfl)
      (UInt8.ofNat (value % 0x40 + 0x80) :: rest) (Nat.mod_lt (value / 64) (by decide))
      (Nat.le_add_left _ _) (show value / 64 % 0x40 + 128 ≤ 0xBF by omega) rfl
    have hlast := decodeFrom_last
      (((Pending.four _ hbyte.1).further _ hlow rfl).further (value / 64 % 0x40 + 128)
        (Nat.le_add_left _ _) rfl) rest
      (Nat.mod_lt value (by decide)) (Nat.le_add_left _ _) (show value % 0x40 + 128 ≤ 0xBF by omega) rfl
    rw [List.cons_append, List.cons_append, List.cons_append, List.singleton_append,
      decodeFrom_first _ (by omega) (first_four hbyte), hmore, hmore', hlast]
    exact congrArg (Char.ofNat · :: decodeLossy rest) hvalue

/-- Text survives its encoding. -/
theorem decodeLossy_encode_append (chars : List Char) (rest : List UInt8) :
    decodeLossy (encode chars ++ rest) = chars ++ decodeLossy rest := by
  induction chars with
  | nil => rfl
  | cons char chars ih =>
      rw [encode_cons, List.append_assoc, decodeFrom_encodeChar, ih, List.cons_append]

theorem decodeLossy_encode (chars : List Char) : decodeLossy (encode chars) = chars := by
  have happend := decodeLossy_encode_append chars []
  rw [List.append_nil] at happend
  rw [happend]
  exact List.append_nil chars

theorem encode_injective : Function.Injective encode := fun left right h => by
  rw [← decodeLossy_encode left, h, decodeLossy_encode]

theorem decode?_eq_some_iff {bytes : List UInt8} {chars : List Char} :
    decode? bytes = some chars ↔ encode chars = bytes := by
  constructor
  · intro h
    obtain ⟨hvalid, heq⟩ := Option.ite_none_right_eq_some.mp h
    rw [← Option.some.inj heq, hvalid]
  · rintro rfl
    rw [decode?, decodeLossy_encode, if_pos rfl]

/-- The lossy decoding loses nothing exactly for the encoding of a text. -/
theorem encode_decodeLossy_iff {bytes : List UInt8} :
    encode (decodeLossy bytes) = bytes ↔ ∃ chars, encode chars = bytes := by
  constructor
  · exact fun h => ⟨_, h⟩
  · rintro ⟨chars, rfl⟩
    rw [decodeLossy_encode]

/-- A byte of ASCII in an encoding is one of the characters. -/
theorem exists_of_mem_encode {chars : List Char} {byte : UInt8} (hbyte : byte.toNat ≤ 0x7F)
    (h : byte ∈ encode chars) : ∃ char ∈ chars, char.toNat = byte.toNat := by
  obtain ⟨char, hchar, hmem⟩ := List.mem_flatMap.mp h
  refine ⟨char, hchar, ?_⟩
  have hhigh : ∀ value : Nat, 128 ≤ value → value < 256 → byte ≠ UInt8.ofNat value := by
    rintro value hlow hlt rfl
    rw [toNat_byte hlt] at hbyte
    omega
  have hval : char.val.toNat = char.toNat := rfl
  unfold String.utf8EncodeChar at hmem
  rw [hval] at hmem
  dsimp only at hmem
  split_ifs at hmem with hone
  · rw [List.mem_singleton.mp hmem, toNat_byte (by omega)]
  all_goals
    simp only [List.mem_cons, List.not_mem_nil, or_false] at hmem
    exfalso
  · rcases hmem with h | h <;> exact hhigh _ (by omega) (by omega) h
  · rcases hmem with h | h | h <;> exact hhigh _ (by omega) (by omega) h
  · rcases hmem with h | h | h | h <;> exact hhigh _ (by omega) (by omega) h

end Utf8
