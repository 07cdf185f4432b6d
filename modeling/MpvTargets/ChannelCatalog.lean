import MpvTargets.ChannelSaving
import MpvTargets.Library.Decimal
import Mathlib.Data.List.Sort

/-! The channels of a node: their listing by the daemon, where file names are bytes, and the choice of one
of them by its number or its name on the client's side. -/

namespace MpvTargets

/-- The name of an entry of a directory. -/
structure EntryName where
  bytes : Bytes
  ne_nil : bytes ≠ []
  no_slash : 0x2F ∉ bytes
  ne_dot : bytes ≠ [0x2E]
  ne_dots : bytes ≠ [0x2E, 0x2E]

inductive EntryKind where
  | file
  | directory
  | link
  | other
  deriving DecidableEq, Repr

structure DirectoryEntry where
  name : EntryName
  fileType : Except String EntryKind

/-- What `read_dir` finds. A `usize` counts the entries. -/
inductive ReadDir where
  | notFound
  | failed (error : String)
  | found (entries : List (Except String DirectoryEntry)) (countable : entries.length < 2 ^ 64)

namespace EntryName

variable (name : EntryName)

/-- `Path::extension`. -/
def extension : Option Bytes :=
  match name.bytes.reverse.dropWhile fun byte => byte ≠ 0x2E with
  | [] => none
  | _ :: before =>
      if before.isEmpty then none
      else some (name.bytes.reverse.takeWhile fun byte => byte ≠ 0x2E).reverse

/-- `is_channel_path`, of a path that ends in the name. -/
def isChannelPath : Bool :=
  match name.extension.bind Utf8.decode? with
  | none => false
  | some extension =>
      let lower := extension.map Char.toLower
      lower == "m3u".toList || lower == "m3u8".toList

end EntryName

/-- `DirEntry::path`. -/
def entryPath (directory : List Char) (name : EntryName) : Bytes :=
  Utf8.encode (UnixPath.withSlash directory) ++ name.bytes

def toStringLossy (path : Bytes) : String := String.ofList (Utf8.decodeLossy path)

/-- The `config_root` of `Supervisor::new`. -/
def configRootOf (configPath : List Char) : List Char := (UnixPath.parent configPath).getD ['.']

def channelsDirectory (configRoot : List Char) : List Char := UnixPath.join configRoot "channels".toList

/-- The loop of `list_channels`: the paths it pushes. -/
def channelPaths (directory : List Char) :
    List (Except String DirectoryEntry) → Except SupervisorError (List Bytes)
  | [] => .ok []
  | .error error :: _ => .error (.config error)
  | .ok entry :: rest =>
      match entry.fileType with
      | .error error => .error (.config error)
      | .ok kind => do
          let channels ← channelPaths directory rest
          if kind = .file ∧ entry.name.isChannelPath then return entryPath directory entry.name :: channels
          else return channels

/-- The paths that `list_channels` pushes. -/
def pushedPaths (configRoot : List Char) : ReadDir → Except SupervisorError (List Bytes)
  | .notFound => .ok []
  | .failed error => .error (.config error)
  | .found entries _ => channelPaths (channelsDirectory configRoot) entries

/-- `Supervisor::list_channels`. -/
def listChannels (configRoot : List Char) (readDir : ReadDir) : Except SupervisorError (List String) :=
  (pushedPaths configRoot readDir).map fun paths => (paths.map toStringLossy).insertionSort (· ≤ ·)

/-- `channel_display_name`. -/
def channelDisplayName (channel : String) : String :=
  (channel.toList.splitOn '/').getLast?.elim channel String.ofList

/-- `resolve_channel`, with what `channel_entries` gives. -/
def resolveChannel (entries : Except String (List String)) (value : String) : Except String String :=
  if containsScheme value.toList || UnixPath.isAbsolute value.toList then .ok value
  else do
    let entries ← entries
    match Decimal.parseUnsigned (2 ^ 64 - 1) value.toList with
    | some 0 => throw "channel numbering starts at 1"
    | some (number + 1) =>
        match entries[number]? with
        | none => throw ("channel number " ++ (number + 1).repr ++ " is not in the list")
        | some channel => return channel
    | none =>
        match entries.find? fun path => UnixPath.fileName path.toList = some value.toList with
        | none => throw ("channel `" ++ value ++ "` is not in the node channel directory")
        | some channel => return channel

/-- The name of an entry that is listed. -/
def Listed (entry : DirectoryEntry) : Prop :=
  entry.fileType = .ok .file ∧ entry.name.isChannelPath = true

/-- The paths are those of the listed entries, in their order. -/
theorem channelPaths_eq_ok {directory : List Char} {entries : List (Except String DirectoryEntry)}
    {paths : List Bytes} (h : channelPaths directory entries = .ok paths) :
    ∃ names : List EntryName, paths = names.map (entryPath directory) ∧ names.length ≤ entries.length ∧
      ∀ name, name ∈ names ↔ ∃ entry, .ok entry ∈ entries ∧ Listed entry ∧ entry.name = name := by
  induction entries generalizing paths with
  | nil =>
      cases h
      exact ⟨[], rfl, Nat.le_refl 0, by simp⟩
  | cons first rest ih =>
      cases first with
      | error error => cases h
      | ok entry =>
          cases hkind : entry.fileType with
          | error error =>
              rw [channelPaths, hkind] at h
              cases h
          | ok kind =>
              cases hrest : channelPaths directory rest with
              | error error =>
                  simp only [channelPaths, hkind, hrest, bind, Except.bind] at h
                  cases h
              | ok channels =>
                  obtain ⟨names, hnames, hlength, hmem⟩ := ih hrest
                  simp only [channelPaths, hkind, hrest, bind, Except.bind, pure, Except.pure] at h
                  by_cases hlisted : kind = .file ∧ entry.name.isChannelPath = true
                  · rw [if_pos hlisted] at h
                    cases h
                    refine ⟨entry.name :: names, by rw [hnames, List.map_cons], Nat.succ_le_succ hlength, ?_⟩
                    intro name
                    have hentry : Listed entry := ⟨by rw [hkind, hlisted.1], hlisted.2⟩
                    simp only [List.mem_cons, hmem, Except.ok.injEq]
                    constructor
                    · rintro (rfl | ⟨other, hother, hfound⟩)
                      · exact ⟨entry, Or.inl rfl, hentry, rfl⟩
                      · exact ⟨other, Or.inr hother, hfound⟩
                    · rintro ⟨other, rfl | hother, hfound⟩
                      · exact Or.inl hfound.2.symm
                      · exact Or.inr ⟨other, hother, hfound⟩
                  · rw [if_neg hlisted] at h
                    cases h
                    refine ⟨names, hnames, Nat.le_succ_of_le hlength, fun name => ?_⟩
                    simp only [List.mem_cons, hmem, Except.ok.injEq]
                    constructor
                    · rintro ⟨other, hother, hfound⟩
                      exact ⟨other, Or.inr hother, hfound⟩
                    · rintro ⟨other, rfl | hother, hfound⟩
                      · refine absurd ⟨?_, hfound.1.2⟩ hlisted
                        exact Except.ok.inj (hkind.symm.trans hfound.1.1)
                      · exact ⟨other, hother, hfound⟩

namespace EntryName

variable {name : EntryName}

/-- The text of a name as it is shown. -/
def shown (name : EntryName) : List Char := Utf8.decodeLossy name.bytes

theorem extension_eq_some {ending : Bytes} (h : name.extension = some ending) :
    ∃ stem, stem ≠ [] ∧ name.bytes = stem ++ 0x2E :: ending := by
  unfold extension at h
  split at h
  · cases h
  · rename_i dot before hdrop
    split_ifs at h with hbefore
    refine ⟨before.reverse, ?_, ?_⟩
    · rw [ne_eq, List.reverse_eq_nil_iff]
      exact fun hnil => hbefore (by rw [hnil]; rfl)
    · rw [← Option.some.inj h]
      exact (UnixPath.eq_of_dropWhile hdrop).1

/-- What a listed name looks like when it is shown. -/
theorem shown_eq (h : name.isChannelPath = true) :
    ∃ stem ending : List Char, stem ≠ [] ∧ name.shown = stem ++ '.' :: ending ∧
      (ending.map Char.toLower = "m3u".toList ∨ ending.map Char.toLower = "m3u8".toList) := by
  unfold isChannelPath at h
  split at h
  · cases h
  · rename_i ending hending
    obtain ⟨bytes, hextension, hdecode⟩ := Option.bind_eq_some_iff.mp hending
    obtain ⟨stem, hstem, hbytes⟩ := extension_eq_some hextension
    refine ⟨Utf8.decodeLossy stem, ending, ?_, ?_, ?_⟩
    · exact fun hnil => hstem (Utf8.decodeFrom_eq_nil hnil).2
    · rw [shown, hbytes, Utf8.decodeLossy_append_ascii stem bytes (by decide),
        ← Utf8.decode?_eq_some_iff.mp hdecode, Utf8.decodeLossy_encode]
      rfl
    · simpa only [Bool.or_eq_true, beq_iff_eq] using h

theorem shown_no_slash (name : EntryName) : '/' ∉ name.shown := by
  intro hmem
  obtain ⟨byte, hbyte, hslash⟩ := Utf8.exists_of_mem_decodeFrom (by decide) (by decide) hmem
  rw [UInt8.toNat_inj.mp (show byte.toNat = (0x2F : UInt8).toNat from hslash)] at hbyte
  exact name.no_slash hbyte

theorem shown_ordinary (h : name.isChannelPath = true) : UnixPath.Ordinary name.shown := by
  obtain ⟨stem, ending, _, hshown, hending⟩ := shown_eq h
  have hfirst : ∃ char ∈ ending, char ≠ '.' := by
    cases ending with
    | nil => rcases hending with h | h <;> exact absurd h (by decide +kernel)
    | cons char rest =>
        refine ⟨char, List.mem_cons_self, ?_⟩
        rintro rfl
        rcases hending with h | h <;> exact absurd (List.cons.inj h).1 (by decide)
  obtain ⟨char, hmem, hdot⟩ := hfirst
  refine ordinary_of_mem name.shown_no_slash ?_ hdot
  rw [hshown]
  exact List.mem_append_right _ (List.mem_cons_of_mem _ hmem)

theorem shown_hasChannelExtension (h : name.isChannelPath = true) (directory : List Char) :
    hasChannelExtension (UnixPath.join directory name.shown) = true := by
  have hordinary := shown_ordinary h
  obtain ⟨stem, ending, hstem, hshown, hending⟩ := shown_eq h
  have hdot : '.' ∉ ending := by
    intro hmem
    have hlower : '.' ∈ ending.map Char.toLower := List.mem_map.mpr ⟨'.', hmem, rfl⟩
    rcases hending with h | h <;> rw [h] at hlower <;> exact absurd hlower (by decide +kernel)
  rw [hshown] at hordinary ⊢
  rw [hasChannelExtension, UnixPath.extension_join directory hordinary hdot, if_neg hstem]
  simpa only [Bool.or_eq_true, beq_iff_eq] using hending

/-- A dot is in every listed name. -/
theorem dot_mem_shown (h : name.isChannelPath = true) : '.' ∈ name.shown := by
  obtain ⟨stem, ending, _, hshown, _⟩ := shown_eq h
  rw [hshown]
  exact List.mem_append_right _ List.mem_cons_self

end EntryName

section

variable {configRoot directory : List Char} {name : EntryName}

theorem channelsDirectory_getLast? (configRoot : List Char) :
    (channelsDirectory configRoot).getLast? = some 's' := by
  rw [channelsDirectory, UnixPath.getLast?_join (by decide +kernel)]
  decide +kernel

theorem withSlash_channelsDirectory (configRoot : List Char) :
    UnixPath.withSlash (channelsDirectory configRoot) = channelsDirectory configRoot ++ ['/'] := by
  rw [UnixPath.withSlash, channelsDirectory_getLast?]
  rfl

theorem toStringLossy_entryPath (configRoot : List Char) (name : EntryName) :
    toStringLossy (entryPath (channelsDirectory configRoot) name) =
      String.ofList (channelsDirectory configRoot ++ '/' :: name.shown) := by
  rw [toStringLossy, entryPath, Utf8.decodeLossy_encode_append, withSlash_channelsDirectory,
    List.append_assoc, List.singleton_append]
  rfl

theorem append_eq_join (configRoot : List Char) (h : name.isChannelPath = true) :
    channelsDirectory configRoot ++ '/' :: name.shown =
      UnixPath.join (channelsDirectory configRoot) name.shown := by
  calc channelsDirectory configRoot ++ '/' :: name.shown
      = UnixPath.withSlash (channelsDirectory configRoot) ++ name.shown := by
        rw [withSlash_channelsDirectory, List.append_assoc, List.singleton_append]
    _ = UnixPath.join (channelsDirectory configRoot) name.shown :=
        FilePath.text_ofJoin (channelsDirectory configRoot) (EntryName.shown_ordinary h)

/-- Without a slash there is no scheme, and a name after a directory adds none. -/
theorem containsScheme_eq_false {text : List Char} (h : '/' ∉ text) : containsScheme text = false := by
  induction text with
  | nil => rfl
  | cons char rest ih =>
      rw [List.mem_cons, not_or] at h
      rw [containsScheme, ih h.2, Bool.or_false, ← Bool.not_eq_true, List.isPrefixOf_iff_prefix]
      rintro ⟨later, hlater⟩
      exact h.2 (by rw [← (List.cons.inj hlater).2]; exact List.mem_cons_self)

theorem containsScheme_append {later : List Char} (hlast : directory.getLast? ≠ some '/')
    (hlater : '/' ∉ later) : containsScheme (directory ++ '/' :: later) = containsScheme directory := by
  have hslash : containsScheme ('/' :: later) = false := by
    rw [containsScheme, containsScheme_eq_false hlater]
    rfl
  induction directory with
  | nil => exact hslash
  | cons char rest ih =>
      rw [List.cons_append, containsScheme, containsScheme]
      cases rest with
      | nil =>
          rw [List.nil_append, hslash]
          cases later with
          | nil => simp [List.isPrefixOf, containsScheme]
          | cons second later =>
              have hne : ('/' == second) = false := by
                rw [beq_eq_false_iff_ne]
                rintro rfl
                exact hlater List.mem_cons_self
              simp [List.isPrefixOf, containsScheme, hne]
      | cons second rest =>
          rw [ih (by rwa [List.getLast?_cons_cons] at hlast)]
          cases rest with
          | nil =>
              have hne : ('/' == second) = false := by
                rw [beq_eq_false_iff_ne]
                rintro rfl
                exact hlast rfl
              simp [List.isPrefixOf, hne]
          | cons third rest => rfl

theorem entry_isAbsolute (configRoot : List Char) (name : EntryName) :
    UnixPath.isAbsolute (channelsDirectory configRoot ++ '/' :: name.shown) =
      UnixPath.isAbsolute (channelsDirectory configRoot) := by
  refine UnixPath.isAbsolute_append ?_
  intro hnil
  have hlast := channelsDirectory_getLast? configRoot
  rw [hnil] at hlast
  cases hlast

theorem entry_containsScheme (configRoot : List Char) (name : EntryName) :
    containsScheme (channelsDirectory configRoot ++ '/' :: name.shown) =
      containsScheme (channelsDirectory configRoot) := by
  refine containsScheme_append ?_ name.shown_no_slash
  rw [channelsDirectory_getLast?]
  decide

theorem entry_fileName (configRoot : List Char) (h : name.isChannelPath = true) :
    UnixPath.fileName (channelsDirectory configRoot ++ '/' :: name.shown) = some name.shown := by
  rw [append_eq_join configRoot h, UnixPath.fileName_join _ (EntryName.shown_ordinary h)]

/-- The last piece of a path is the name it is shown by. -/
theorem channelDisplayName_entry (configRoot : List Char) (name : EntryName) :
    channelDisplayName (String.ofList (channelsDirectory configRoot ++ '/' :: name.shown)) =
      String.ofList name.shown := by
  rw [channelDisplayName, String.toList_ofList, List.splitOn_append_cons_self,
    List.splitOn_eq_singleton name.shown_no_slash, List.getLast?_append, List.getLast?_singleton]
  rfl

/-- Of the entries of the directory exactly the listed names are accepted as channels where the directory
is absolute or has a scheme. -/
theorem validChannel_entry (configRoot : List Char) (h : name.isChannelPath = true) :
    validChannel (String.ofList (channelsDirectory configRoot ++ '/' :: name.shown)) =
      (containsScheme (channelsDirectory configRoot) ||
        UnixPath.isAbsolute (channelsDirectory configRoot)) := by
  have hempty : (channelsDirectory configRoot ++ '/' :: name.shown).isEmpty = false := by
    simp
  have hextension : hasChannelExtension (channelsDirectory configRoot ++ '/' :: name.shown) = true := by
    rw [append_eq_join configRoot h]
    exact EntryName.shown_hasChannelExtension h _
  rw [validChannel, String.toList_ofList, hempty, entry_containsScheme, entry_isAbsolute, hextension]
  cases containsScheme (channelsDirectory configRoot) <;> simp

end

/-! ### The list -/

/-- The name is of an entry that is listed. -/
def ReadDir.Lists (name : EntryName) : ReadDir → Prop
  | .found entries _ => ∃ entry, .ok entry ∈ entries ∧ Listed entry ∧ entry.name = name
  | .notFound | .failed _ => False

/-- The files of the list, in its order. -/
def catalogPaths (configRoot : List Char) (readDir : ReadDir) : Except SupervisorError (List Bytes) :=
  (pushedPaths configRoot readDir).map
    (List.insertionSort fun left right => toStringLossy left ≤ toStringLossy right)

section

variable {configRoot : List Char} {readDir : ReadDir} {catalog : List Bytes} {channels : List String}

theorem listChannels_eq (configRoot : List Char) (readDir : ReadDir) :
    listChannels configRoot readDir = (catalogPaths configRoot readDir).map (List.map toStringLossy) := by
  rw [listChannels, catalogPaths]
  cases pushedPaths configRoot readDir with
  | error error => rfl
  | ok paths =>
      refine congrArg Except.ok ?_
      exact (List.map_insertionSort (fun left right => toStringLossy left ≤ toStringLossy right) (· ≤ ·)
        toStringLossy paths fun _ _ _ _ => Iff.rfl).symm

/-- The files of the list are those of the listed names, and a `usize` counts them. -/
theorem catalogPaths_eq_ok (h : catalogPaths configRoot readDir = .ok catalog) :
    catalog.length < 2 ^ 64 ∧ ∀ path, path ∈ catalog ↔
      ∃ name, readDir.Lists name ∧ path = entryPath (channelsDirectory configRoot) name := by
  rw [catalogPaths] at h
  cases hpushed : pushedPaths configRoot readDir with
  | error error =>
      rw [hpushed] at h
      cases h
  | ok paths =>
      rw [hpushed] at h
      cases h
      rw [List.length_insertionSort]
      simp only [List.mem_insertionSort]
      cases readDir with
      | notFound =>
          cases hpushed
          exact ⟨by decide, by simp [ReadDir.Lists]⟩
      | failed error => cases hpushed
      | found entries hcountable =>
          obtain ⟨names, rfl, hlength, hnames⟩ := channelPaths_eq_ok hpushed
          refine ⟨by rw [List.length_map]; omega, fun path => ?_⟩
          rw [List.mem_map]
          constructor
          · rintro ⟨name, hname, rfl⟩
            exact ⟨name, (hnames name).mp hname, rfl⟩
          · rintro ⟨name, hname, rfl⟩
            exact ⟨name, (hnames name).mpr hname, rfl⟩

theorem ReadDir.Lists.isChannelPath {name : EntryName} (h : readDir.Lists name) :
    name.isChannelPath = true := by
  cases readDir with
  | notFound => cases h
  | failed error => cases h
  | found entries hcountable =>
      obtain ⟨entry, _, hlisted, rfl⟩ := h
      exact hlisted.2

/-- What the choice of a listed channel is meant to do. -/
structure Selectable (catalog : List Bytes) (channels : List String) : Prop where
  number : ∀ (index : Nat) (channel : String), channels[index]? = some channel →
    resolveChannel (.ok channels) (index + 1).repr = .ok channel
  name : ∀ channel ∈ channels, resolveChannel (.ok channels) (channelDisplayName channel) = .ok channel
  file : ∀ (index : Nat) (channel : String), channels[index]? = some channel →
    catalog[index]? = some (Utf8.encode channel.toList)
  accepted : ∀ channel ∈ channels, ∀ restart,
    (Protocol.Operation.targetSetChannel (some channel) restart).validate = .ok ()

theorem resolveChannel_number (hlength : channels.length < 2 ^ 64) {index : Nat} {channel : String}
    (h : channels[index]? = some channel) :
    resolveChannel (.ok channels) (index + 1).repr = .ok channel := by
  have hindex : index < channels.length := (List.getElem?_eq_some_iff.mp h).1
  have hslash : '/' ∉ Nat.toDigits 10 (index + 1) := fun hmem => by
    have hdigit := Decimal.isDigit_of_mem hmem
    exact absurd hdigit (by decide)
  have habsolute : UnixPath.isAbsolute (Nat.toDigits 10 (index + 1)) = false := by
    rw [UnixPath.isAbsolute, beq_eq_false_iff_ne]
    exact fun hhead => hslash (List.mem_of_mem_head? hhead)
  rw [resolveChannel, Nat.toList_repr, containsScheme_eq_false hslash, habsolute,
    Decimal.parseUnsigned_toDigits (by omega)]
  simp only [Bool.or_self, Bool.false_eq_true, if_false, bind, Except.bind, h]
  rfl

theorem resolveChannel_name {name : EntryName}
    (hchannels : ∀ channel ∈ channels, ∃ other, readDir.Lists other ∧
      channel = String.ofList (channelsDirectory configRoot ++ '/' :: other.shown))
    (hname : readDir.Lists name)
    (hmem : String.ofList (channelsDirectory configRoot ++ '/' :: name.shown) ∈ channels) :
    resolveChannel (.ok channels) (String.ofList name.shown) =
      .ok (String.ofList (channelsDirectory configRoot ++ '/' :: name.shown)) := by
  have hdot := EntryName.dot_mem_shown hname.isChannelPath
  have habsolute : UnixPath.isAbsolute name.shown = false :=
    FilePath.isAbsolute_of_ordinary (EntryName.shown_ordinary hname.isChannelPath)
  have hfound : channels.find? (fun path => UnixPath.fileName path.toList = some name.shown) =
      some (String.ofList (channelsDirectory configRoot ++ '/' :: name.shown)) := by
    cases hfind : channels.find? fun path => UnixPath.fileName path.toList = some name.shown with
    | none =>
        have hnone := List.find?_eq_none.mp hfind _ hmem
        rw [String.toList_ofList, entry_fileName configRoot hname.isChannelPath] at hnone
        exact absurd (decide_eq_true rfl) hnone
    | some channel =>
        obtain ⟨other, hother, rfl⟩ := hchannels channel (List.mem_of_find?_eq_some hfind)
        have hfile := List.find?_some hfind
        rw [decide_eq_true_eq, String.toList_ofList, entry_fileName configRoot hother.isChannelPath] at hfile
        rw [Option.some.inj hfile]
  unfold resolveChannel
  rw [String.toList_ofList, containsScheme_eq_false name.shown_no_slash, habsolute,
    Decimal.parseUnsigned_eq_none hdot (by decide) (by decide)]
  simp only [Bool.or_self, Bool.false_eq_true, if_false, bind, Except.bind, hfound]
  rfl

/-- The bytes of a listed path are those of its text exactly when the name is a text. -/
theorem encode_entry_iff (configRoot : List Char) (name : EntryName) :
    Utf8.encode (channelsDirectory configRoot ++ '/' :: name.shown) =
        entryPath (channelsDirectory configRoot) name ↔ ∃ text, Utf8.encode text = name.bytes := by
  rw [entryPath, withSlash_channelsDirectory, ← List.singleton_append, ← List.append_assoc,
    Utf8.encode_append, List.append_right_inj, EntryName.shown, Utf8.encode_decodeLossy_iff]

/-- Every channel of the list can be chosen exactly if the names of the files are texts and the directory is
absolute or has a scheme, or there are no channels. -/
theorem selectable_iff (hcatalog : catalogPaths configRoot readDir = .ok catalog) :
    Selectable catalog (catalog.map toStringLossy) ↔
      (∀ name, readDir.Lists name → ∃ text, Utf8.encode text = name.bytes) ∧
      (UnixPath.isAbsolute (channelsDirectory configRoot) = true ∨
        containsScheme (channelsDirectory configRoot) = true ∨ ∀ name, ¬readDir.Lists name) := by
  obtain ⟨hlength, hpaths⟩ := catalogPaths_eq_ok hcatalog
  have hchannels : ∀ channel ∈ catalog.map toStringLossy, ∃ name, readDir.Lists name ∧
      channel = String.ofList (channelsDirectory configRoot ++ '/' :: name.shown) := by
    intro channel hchannel
    obtain ⟨path, hpath, rfl⟩ := List.mem_map.mp hchannel
    obtain ⟨name, hname, rfl⟩ := (hpaths path).mp hpath
    exact ⟨name, hname, toStringLossy_entryPath configRoot name⟩
  have hlisted : ∀ name, readDir.Lists name →
      String.ofList (channelsDirectory configRoot ++ '/' :: name.shown) ∈ catalog.map toStringLossy := by
    intro name hname
    rw [← toStringLossy_entryPath]
    exact List.mem_map_of_mem ((hpaths _).mpr ⟨name, hname, rfl⟩)
  have hnumber : ∀ (index : Nat) (channel : String), (catalog.map toStringLossy)[index]? = some channel →
      resolveChannel (.ok (catalog.map toStringLossy)) (index + 1).repr = .ok channel :=
    fun _ _ => resolveChannel_number (by rwa [List.length_map])
  have hname : ∀ channel ∈ catalog.map toStringLossy,
      resolveChannel (.ok (catalog.map toStringLossy)) (channelDisplayName channel) = .ok channel := by
    intro channel hchannel
    obtain ⟨name, hname, rfl⟩ := hchannels channel hchannel
    rw [channelDisplayName_entry]
    exact resolveChannel_name hchannels hname hchannel
  constructor
  · intro h
    constructor
    · intro name hlists
      obtain ⟨index, hindex⟩ := List.mem_iff_getElem?.mp ((hpaths _).mpr ⟨name, hlists, rfl⟩)
      have hfile := h.file index (toStringLossy (entryPath (channelsDirectory configRoot) name))
        (by rw [List.getElem?_map, hindex]; rfl)
      rw [hindex, toStringLossy_entryPath, String.toList_ofList] at hfile
      exact (encode_entry_iff configRoot name).mp (Option.some.inj hfile).symm
    · by_cases hnone : ∀ name, ¬readDir.Lists name
      · exact Or.inr (Or.inr hnone)
      · obtain ⟨name, hlists⟩ := not_forall.mp hnone
        rw [not_not] at hlists
        have hvalid := h.accepted _ (hlisted name hlists) false
        rw [Protocol.Operation.validate, validChannel_entry configRoot hlists.isChannelPath] at hvalid
        split_ifs at hvalid with haccepted
        rw [Bool.or_eq_true] at haccepted
        exact haccepted.elim (fun hscheme => Or.inr (Or.inl hscheme)) Or.inl
  · rintro ⟨htexts, hdirectory⟩
    refine ⟨hnumber, hname, ?_, ?_⟩
    · intro index channel hchannel
      rw [List.getElem?_map] at hchannel
      obtain ⟨path, hpath, rfl⟩ := Option.map_eq_some_iff.mp hchannel
      obtain ⟨name, hlists, rfl⟩ := (hpaths path).mp (List.mem_of_getElem? hpath)
      rw [hpath, toStringLossy_entryPath, String.toList_ofList,
        (encode_entry_iff configRoot name).mpr (htexts name hlists)]
    · intro channel hchannel restart
      obtain ⟨name, hlists, rfl⟩ := hchannels channel hchannel
      rw [Protocol.Operation.validate, validChannel_entry configRoot hlists.isChannelPath]
      refine if_pos ?_
      rw [Bool.or_eq_true]
      rcases hdirectory with habsolute | hscheme | hnone
      · exact Or.inr habsolute
      · exact Or.inl hscheme
      · exact absurd hlists (hnone name)

end

/-- The directory is read while it has these files: every file with a name in it is an entry. -/
def ReadDir.Shows (directory : List Char) (files : Files) : ReadDir → Prop
  | .notFound => ∀ name, UnixPath.Ordinary name → files (UnixPath.join directory name) = none
  | .failed _ => True
  | .found entries _ => ∀ name, UnixPath.Ordinary name → files (UnixPath.join directory name) ≠ none →
      ∃ entry, .ok entry ∈ entries ∧ entry.name.bytes = Utf8.encode name ∧ entry.fileType = .ok .file

theorem EntryName.extension_eq {name : EntryName} {stem ending : Bytes} (hstem : stem ≠ [])
    (hending : 0x2E ∉ ending) (h : name.bytes = stem ++ 0x2E :: ending) : name.extension = some ending := by
  have hreverse : (stem ++ 0x2E :: ending).reverse = ending.reverse ++ 0x2E :: stem.reverse := by
    rw [List.reverse_append, List.reverse_cons, List.append_assoc, List.singleton_append]
  have hall : ∀ byte ∈ ending.reverse, decide (byte ≠ 0x2E) = true := by
    intro byte hbyte
    rw [decide_eq_true_eq]
    rintro rfl
    exact hending (List.mem_reverse.mp hbyte)
  unfold extension
  rw [h, hreverse, List.dropWhile_append_of_pos hall, List.takeWhile_append_of_pos hall]
  cases hrest : stem.reverse with
  | nil => exact absurd (List.reverse_eq_nil_iff.mp hrest) hstem
  | cons byte rest => simp

/-- A channel name and its parts. -/
theorem exists_of_validChannelName {channel : String} (h : Protocol.validChannelName channel = true) :
    ∃ stem ending : List Char, stem ≠ [] ∧ '.' ∉ ending ∧ channel.toList = stem ++ '.' :: ending ∧
      (ending.map Char.toLower = "m3u".toList ∨ ending.map Char.toLower = "m3u8".toList) := by
  simp only [Protocol.validChannelName, Bool.and_eq_true, beq_iff_eq] at h
  obtain ⟨⟨_, hname⟩, hextension⟩ := h
  rw [hasChannelExtension] at hextension
  split at hextension
  · cases hextension
  · rename_i ending hending
    rw [UnixPath.extension, hname, Option.bind_some] at hending
    split at hending
    · cases hending
    · rename_i dot before hdrop
      split_ifs at hending with hbefore
      obtain ⟨hchannel, hdot⟩ := UnixPath.eq_of_dropWhile hdrop
      rw [Option.some.inj hending] at hchannel hdot
      refine ⟨before.reverse, ending, ?_, hdot, hchannel, ?_⟩
      · rw [ne_eq, List.reverse_eq_nil_iff]
        exact fun hnil => hbefore (by rw [hnil]; rfl)
      · simpa only [Bool.or_eq_true, beq_iff_eq] using hextension

/-- A saved channel is listed. -/
theorem isChannelPath_of_validChannelName {channel : String} (h : Protocol.validChannelName channel = true)
    {name : EntryName} (hbytes : name.bytes = Utf8.encode channel.toList) : name.isChannelPath = true := by
  obtain ⟨stem, ending, hstem, hdot, hchannel, hlower⟩ := exists_of_validChannelName h
  have hencoded : name.bytes = Utf8.encode stem ++ 0x2E :: Utf8.encode ending := by
    rw [hbytes, hchannel, Utf8.encode_append, Utf8.encode_cons]
    rfl
  have hstem' : Utf8.encode stem ≠ [] := fun hnil => hstem (Utf8.encode_injective hnil)
  have hdot' : 0x2E ∉ Utf8.encode ending := by
    intro hmem
    obtain ⟨char, hchar, hvalue⟩ := Utf8.exists_of_mem_encode (by decide) hmem
    rw [show char = '.' from Char.toNat_inj.mp hvalue] at hchar
    exact hdot hchar
  rw [EntryName.isChannelPath, EntryName.extension_eq hstem' hdot' hencoded, Option.bind_some,
    Utf8.decode?_eq_some_iff.mpr rfl]
  simpa only [Bool.or_eq_true, beq_iff_eq] using hlower

theorem saved_mem_listChannels {world : FileWorld} {directories : Directories} {channel : String}
    {overwrite : Bool} {playlist : Value} {files files' : Files} {items : Nat} {readDir : ReadDir}
    {channels : List String} (hchannel : Protocol.validChannelName channel = true)
    (hsaved : world.saveChannel directories channel overwrite playlist files = (.ok items, files'))
    (hshows : readDir.Shows (channelsDirectory directories.configRoot) files')
    (hlist : listChannels directories.configRoot readDir = .ok channels) :
    String.ofList (directories.channelPath channel) ∈ channels := by
  have hordinary := ordinary_of_validChannelName hchannel
  have hreplaced := world.saveChannel_replaced files directories overwrite playlist hchannel
  rw [hsaved] at hreplaced
  have hfile : files' (UnixPath.join (channelsDirectory directories.configRoot) channel.toList) ≠ none := by
    obtain ⟨hnew, hwritten⟩ := hreplaced.written rfl
    rw [← hwritten] at hnew
    exact Option.isSome_iff_ne_none.mp hnew
  rw [listChannels_eq] at hlist
  cases hcatalog : catalogPaths directories.configRoot readDir with
  | error error =>
      rw [hcatalog] at hlist
      cases hlist
  | ok catalog =>
      rw [hcatalog] at hlist
      cases hlist
      cases readDir with
      | notFound => exact absurd (hshows channel.toList hordinary) hfile
      | failed error => cases hcatalog
      | found entries hcountable =>
          obtain ⟨entry, hentry, hbytes, hkind⟩ := hshows channel.toList hordinary hfile
          have hlisted := isChannelPath_of_validChannelName hchannel hbytes
          have hpath := ((catalogPaths_eq_ok hcatalog).2 _).mpr
            ⟨entry.name, ⟨entry, hentry, ⟨hkind, hlisted⟩, rfl⟩, rfl⟩
          refine List.mem_map.mpr ⟨_, hpath, ?_⟩
          rw [toStringLossy_entryPath, append_eq_join _ hlisted, EntryName.shown, hbytes,
            Utf8.decodeLossy_encode]
          rfl

/-- Whatever configuration path the daemon is started with and whatever files there are, the list can be
chosen from exactly if the names of its files are texts and the channels directory is absolute or has a scheme,
or the list is empty; and a saved channel is in the list. -/
theorem channels_selectable_iff {configPath : List Char} {readDir : ReadDir} {catalog : List Bytes}
    {channels : List String} (hcatalog : catalogPaths (configRootOf configPath) readDir = .ok catalog)
    (hlist : listChannels (configRootOf configPath) readDir = .ok channels) :
    (Selectable catalog channels ↔
      (∀ name, readDir.Lists name → ∃ text, Utf8.encode text = name.bytes) ∧
      (UnixPath.isAbsolute (channelsDirectory (configRootOf configPath)) = true ∨
        containsScheme (channelsDirectory (configRootOf configPath)) = true ∨
        ∀ name, ¬readDir.Lists name)) ∧
    ∀ (world : FileWorld) (directories : Directories) (channel : String) (overwrite : Bool)
      (playlist : Value) (files files' : Files) (items : Nat),
      directories.configRoot = configRootOf configPath → Protocol.validChannelName channel = true →
      world.saveChannel directories channel overwrite playlist files = (.ok items, files') →
      readDir.Shows (channelsDirectory directories.configRoot) files' →
      String.ofList (directories.channelPath channel) ∈ channels := by
  constructor
  · rw [listChannels_eq, hcatalog] at hlist
    cases hlist
    exact selectable_iff hcatalog
  · intro world directories channel overwrite playlist files files' items hroot hchannel hsaved hshows
    rw [← hroot] at hlist
    exact saved_mem_listChannels hchannel hsaved hshows hlist

/-- The one channel `news.m3u`. -/
def newsName : EntryName where
  bytes := Utf8.encode "news.m3u".toList
  ne_nil := by decide +kernel
  no_slash := by decide +kernel
  ne_dot := by decide +kernel
  ne_dots := by decide +kernel

def newsDir : ReadDir := .found [.ok ⟨newsName, .ok .file⟩] (by decide)

def etcConfigPath : List Char := "/etc/mpv-targets/mpv-targets.toml".toList

/-- An entry whose name is a text. -/
def EntryName.ofText (text : List Char) (h : UnixPath.Ordinary text) : EntryName where
  bytes := Utf8.encode text
  ne_nil hnil := h.ne_nil (Utf8.encode_injective hnil)
  no_slash hmem := by
    obtain ⟨char, hchar, hvalue⟩ := Utf8.exists_of_mem_encode (by decide) hmem
    rw [show char = '/' from Char.toNat_inj.mp hvalue] at hchar
    exact h.no_slash hchar
  ne_dot hdot := h.ne_dot (Utf8.encode_injective hdot)
  ne_dots hdots := h.ne_dots (Utf8.encode_injective hdots)

def moviesName : EntryName :=
  .ofText "Movies.M3U8".toList (UnixPath.ordinary_of_fileName (by decide +kernel))

def notesName : EntryName :=
  .ofText "notes.txt".toList (UnixPath.ordinary_of_fileName (by decide +kernel))

def olderName : EntryName :=
  .ofText "older.m3u".toList (UnixPath.ordinary_of_fileName (by decide +kernel))

/-- Two channels, a file that is none, and a directory that is named like one. -/
def moviesDir : ReadDir := .found [.ok ⟨notesName, .ok .file⟩, .ok ⟨newsName, .ok .file⟩,
  .ok ⟨olderName, .ok .directory⟩, .ok ⟨moviesName, .ok .file⟩] (by decide)

/-- The files in the directory before `news.m3u` is saved. -/
def moviesFiles : Files := fun path =>
  if path ∈ ["Movies.M3U8", "notes.txt"].map newsDirectories.channelPath then some newsFile else none

def newsWorld : FileWorld := ⟨7, 0o644, none⟩

def newsPlaylist : Value := .array [.object [("filename", .string "news.mp4")]]

/-- The directory shows the saved file and those that were there. -/
theorem moviesDir_shows : moviesDir.Shows (channelsDirectory newsDirectories.configRoot)
    (newsWorld.saveChannel newsDirectories "news.m3u" false newsPlaylist moviesFiles).2 := by
  have hchannel : Protocol.validChannelName "news.m3u" = true := by decide +kernel
  have hreplaced := newsWorld.saveChannel_replaced moviesFiles newsDirectories false newsPlaylist hchannel
  intro name hordinary hfile
  change (newsWorld.saveChannel newsDirectories "news.m3u" false newsPlaylist moviesFiles).2
    (UnixPath.join newsDirectories.channelsRoot name) ≠ none at hfile
  by_cases hnews : name = "news.m3u".toList
  · exact ⟨_, List.mem_cons_of_mem _ List.mem_cons_self, by rw [hnews]; rfl, rfl⟩
  have hother : UnixPath.join newsDirectories.channelsRoot name ≠ newsDirectories.channelPath "news.m3u" :=
    fun heq => hnews (UnixPath.name_eq_of_join_eq hordinary (ordinary_of_validChannelName hchannel) heq)
  have hbefore : moviesFiles (UnixPath.join newsDirectories.channelsRoot name) ≠ none := by
    by_cases hstaging :
        UnixPath.join newsDirectories.channelsRoot name = newsDirectories.channelStaging "news.m3u"
    · rw [hstaging] at hfile ⊢
      rwa [← hreplaced.removed]
    · rwa [← hreplaced.others _ hother hstaging]
  have hmem : UnixPath.join newsDirectories.channelsRoot name ∈
      ["Movies.M3U8", "notes.txt"].map newsDirectories.channelPath := by
    by_contra hnone
    exact hbefore (if_neg hnone)
  obtain ⟨text, htext, hpath⟩ := List.mem_map.mp hmem
  have hname : ∀ {text : String}, UnixPath.Ordinary text.toList →
      newsDirectories.channelPath text = UnixPath.join newsDirectories.channelsRoot name → name = text.toList :=
    fun htext hpath => UnixPath.name_eq_of_join_eq hordinary htext hpath.symm
  rcases List.mem_pair.mp htext with rfl | rfl
  · rw [hname (UnixPath.ordinary_of_fileName (by decide +kernel)) hpath]
    exact ⟨⟨moviesName, .ok .file⟩, by simp, rfl, rfl⟩
  · rw [hname (UnixPath.ordinary_of_fileName (by decide +kernel)) hpath]
    exact ⟨⟨notesName, .ok .file⟩, by simp, rfl, rfl⟩

/-- The channels of the directory, in the order of their paths. -/
def moviesChannels : List String :=
  ["/etc/mpv-targets/channels/Movies.M3U8", "/etc/mpv-targets/channels/news.m3u"]

/-- Once `news.m3u` is saved, it is listed after `Movies.M3U8`, and both can be chosen. -/
theorem channels_selectable_iff_news : ∃ files',
    newsWorld.saveChannel newsDirectories "news.m3u" false newsPlaylist moviesFiles = (.ok 1, files') ∧
    moviesDir.Shows (channelsDirectory newsDirectories.configRoot) files' ∧
    (Selectable (moviesChannels.map fun channel => Utf8.encode channel.toList) moviesChannels ↔
      (∀ name, moviesDir.Lists name → ∃ text, Utf8.encode text = name.bytes) ∧
      (UnixPath.isAbsolute (channelsDirectory (configRootOf etcConfigPath)) = true ∨
        containsScheme (channelsDirectory (configRootOf etcConfigPath)) = true ∨
        ∀ name, ¬moviesDir.Lists name)) ∧
    String.ofList (newsDirectories.channelPath "news.m3u") ∈ moviesChannels := by
  have hsaved : newsWorld.saveChannel newsDirectories "news.m3u" false newsPlaylist moviesFiles =
      (.ok 1, (newsWorld.saveChannel newsDirectories "news.m3u" false newsPlaylist moviesFiles).2) :=
    Prod.ext rfl rfl
  obtain ⟨hselectable, hlisted⟩ := channels_selectable_iff
    (show catalogPaths (configRootOf etcConfigPath) moviesDir =
      .ok (moviesChannels.map fun channel => Utf8.encode channel.toList) by decide +kernel)
    (show listChannels (configRootOf etcConfigPath) moviesDir = .ok moviesChannels by decide +kernel)
  exact ⟨_, hsaved, moviesDir_shows, hselectable, hlisted newsWorld newsDirectories "news.m3u" false
    newsPlaylist moviesFiles _ 1 (by decide +kernel) (by decide +kernel) hsaved moviesDir_shows⟩

/-- Under a relative configuration path the listed channel is refused. -/
theorem relative_channels_not_selectable :
    ¬∀ (configPath : List Char) (readDir : ReadDir) (catalog : List Bytes) (channels : List String),
      (UnixPath.parent configPath).isSome = true →
      catalogPaths (configRootOf configPath) readDir = .ok catalog →
      listChannels (configRootOf configPath) readDir = .ok channels → Selectable catalog channels := by
  intro h
  have hselectable := h "mpv-targets.toml".toList newsDir [Utf8.encode "channels/news.m3u".toList]
    ["channels/news.m3u"] (by decide +kernel) (by decide +kernel) (by decide +kernel)
  have haccepted := hselectable.accepted "channels/news.m3u" List.mem_cons_self false
  exact absurd haccepted (by decide +kernel)

end MpvTargets
