import MpvTargets.RequestValidation

/-! The paths the daemon derives from requests and from its configuration. Each is a fixed directory
joined with one ordinary component, so no accepted string leads out of that directory. -/

namespace MpvTargets

namespace UnixPath

/-- `Path::join`. -/
def join (directory path : List Char) : List Char :=
  if isAbsolute path then path
  else if directory.getLast?.any fun char => char ≠ '/' then directory ++ '/' :: path
  else directory ++ path

/-- A name that is one ordinary component of a path. -/
structure Ordinary (name : List Char) : Prop where
  ne_nil : name ≠ []
  no_slash : '/' ∉ name
  ne_dot : name ≠ ['.']
  ne_dots : name ≠ ['.', '.']

/-- The component a segment stands for. -/
def segmentComponent (segment : List Char) : PathComponent :=
  if segment = ['.', '.'] then .parentDir else .normal segment

theorem components_eq (path : List Char) : components path =
    (if isAbsolute path then [.rootDir]
      else if (path.splitOn '/').head? = some ['.'] then [.curDir] else []) ++
      (segments path).map segmentComponent := rfl

/-- No segment of a path has a slash. -/
theorem not_mem_of_mem_splitOn {path segment : List Char} (h : segment ∈ path.splitOn '/') :
    '/' ∉ segment := by
  induction path generalizing segment with
  | nil =>
      rw [List.splitOn_nil, List.mem_singleton] at h
      rw [h]
      exact List.not_mem_nil
  | cons char path ih =>
      rw [List.splitOn_cons_eq_if_modifyHead] at h
      split at h
      · rcases List.mem_cons.mp h with rfl | h
        · exact List.not_mem_nil
        · exact ih h
      · rename_i hchar
        obtain ⟨first, rest, hsplit⟩ := List.exists_cons_of_ne_nil (List.splitOn_ne_nil '/' path)
        rw [hsplit, List.modifyHead_cons] at h
        rcases List.mem_cons.mp h with rfl | h
        · intro hmem
          rcases List.mem_cons.mp hmem with rfl | hmem
          · exact hchar (beq_self_eq_true _)
          · exact ih (by rw [hsplit]; exact List.mem_cons_self) hmem
        · exact ih (by rw [hsplit]; exact List.mem_cons_of_mem _ h)

theorem segments_append (directory path : List Char) :
    segments (directory ++ '/' :: path) = segments directory ++ segments path := by
  rw [segments, List.splitOn_append_cons_self, List.filter_append]
  rfl

/-- A relative path comes after a slash: the directory's last one, or one put between. -/
theorem join_cases (directory : List Char) {path : List Char} (hrelative : isAbsolute path = false) :
    (directory = [] ∧ join directory path = path) ∨
    (directory ≠ [] ∧ join directory path = directory ++ '/' :: path) ∨
    ∃ init, directory = init ++ ['/'] ∧ join directory path = init ++ '/' :: path := by
  rw [join, if_neg (by rw [hrelative]; exact Bool.false_ne_true)]
  rcases List.eq_nil_or_concat directory with rfl | ⟨init, last, rfl⟩
  · exact Or.inl ⟨rfl, rfl⟩
  · rw [List.concat_eq_append, List.getLast?_append, List.getLast?_singleton, Option.some_or,
      Option.any_some]
    by_cases hlast : last = '/'
    · refine Or.inr (Or.inr ⟨init, by rw [hlast], ?_⟩)
      rw [if_neg (by simpa using hlast), hlast, List.append_assoc, List.singleton_append]
    · exact Or.inr (Or.inl ⟨by simp, by rw [if_pos (by simpa using hlast)]⟩)

theorem segments_join {directory path : List Char} (hrelative : isAbsolute path = false) :
    segments (join directory path) = segments directory ++ segments path := by
  rcases join_cases directory hrelative with ⟨rfl, h⟩ | ⟨_, h⟩ | ⟨init, rfl, h⟩
  · rw [h]
    rfl
  · rw [h, segments_append]
  · have hinit : segments (init ++ ['/']) = segments init := by
      rw [segments_append]
      exact List.append_nil _
    rw [h, segments_append, hinit]

theorem isAbsolute_append {directory tail : List Char} (hdirectory : directory ≠ []) :
    isAbsolute (directory ++ tail) = isAbsolute directory := by
  rw [isAbsolute, List.head?_append_of_ne_nil _ hdirectory, isAbsolute]

theorem splitOn_head_append (directory path : List Char) :
    ((directory ++ '/' :: path).splitOn '/').head? = (directory.splitOn '/').head? := by
  rw [List.splitOn_append_cons_self, List.head?_append_of_ne_nil _ (List.splitOn_ne_nil _ _)]

/-- A relative path joined to a directory adds its segments to the directory's components. -/
theorem components_join {directory path : List Char} (hrelative : isAbsolute path = false)
    (hdirectory : directory ≠ []) :
    components (join directory path) =
      components directory ++ (segments path).map segmentComponent := by
  have hbegins : isAbsolute (join directory path) = isAbsolute directory ∧
      ((join directory path).splitOn '/').head? = (directory.splitOn '/').head? := by
    rcases join_cases directory hrelative with ⟨hnil, _⟩ | ⟨_, h⟩ | ⟨init, rfl, h⟩
    · exact absurd hnil hdirectory
    · rw [h]
      exact ⟨isAbsolute_append hdirectory, splitOn_head_append directory path⟩
    · rw [h, splitOn_head_append, splitOn_head_append]
      refine ⟨?_, rfl⟩
      rw [← List.singleton_append, ← List.append_assoc, isAbsolute_append (by simp)]
  rw [components_eq, hbegins.1, hbegins.2, segments_join hrelative, List.map_append,
    ← List.append_assoc, ← components_eq]

/-- An ordinary name adds one component. -/
theorem components_join_ordinary (directory : List Char) {name : List Char} (h : Ordinary name) :
    components (join directory name) = components directory ++ [.normal name] := by
  have hsplit : name.splitOn '/' = [name] := List.splitOn_eq_singleton h.no_slash
  have hrelative : isAbsolute name = false := by
    rw [isAbsolute, beq_eq_false_iff_ne]
    intro hhead
    exact h.no_slash (List.mem_of_mem_head? hhead)
  have hsegments : (segments name).map segmentComponent = [.normal name] := by
    rw [segments, hsplit, List.filter_cons_of_pos (by simpa using ⟨h.ne_nil, h.ne_dot⟩),
      List.filter_nil, List.map_cons, List.map_nil, segmentComponent, if_neg h.ne_dots]
  by_cases hdirectory : directory = []
  · have hjoin : join directory name = name := by
      rw [join, hrelative, hdirectory]
      rfl
    rw [hjoin, components_eq, hrelative, hsplit, hsegments, hdirectory]
    simp [components, isAbsolute, segments, h.ne_dot]
  · rw [components_join hrelative hdirectory, hsegments]

/-- A name that is its own file name is ordinary. -/
theorem ordinary_of_fileName {name : List Char} (h : fileName name = some name) : Ordinary name := by
  have hlast : (components name).getLast? = some (.normal name) := by
    unfold fileName at h
    split at h
    · rename_i found hlast
      rw [hlast, Option.some.inj h]
    · cases h
  have hmem : PathComponent.normal name ∈ components name := List.mem_of_getLast? hlast
  rw [components_eq, List.mem_append, List.mem_map] at hmem
  have hsegment : name ∈ segments name ∧ name ≠ ['.', '.'] := by
    rcases hmem with hbegins | ⟨segment, hsegment, hcomponent⟩
    · split_ifs at hbegins <;> simp at hbegins
    · rw [segmentComponent] at hcomponent
      split_ifs at hcomponent with hdots
      cases hcomponent
      exact ⟨hsegment, hdots⟩
  obtain ⟨hsegment, hdots⟩ := hsegment
  rw [segments, List.mem_filter, decide_eq_true_eq] at hsegment
  exact ⟨hsegment.2.1, not_mem_of_mem_splitOn hsegment.1, hsegment.2.2, hdots⟩

theorem fileName_join (directory : List Char) {name : List Char} (h : Ordinary name) :
    fileName (join directory name) = some name := by
  rw [fileName, components_join_ordinary directory h, List.getLast?_concat]

/-- A path determines the ordinary name it ends in. -/
theorem name_eq_of_join_eq {directory directory' name other : List Char} (hname : Ordinary name)
    (hother : Ordinary other) (h : join directory name = join directory' other) : name = other := by
  have hnames := congrArg fileName h
  rw [fileName_join directory hname, fileName_join directory' hother] at hnames
  exact Option.some.inj hnames

/-- What follows the last dot is the extension, if something comes before that dot. -/
theorem extension_join (directory : List Char) {stem ending : List Char}
    (h : Ordinary (stem ++ '.' :: ending)) (hending : '.' ∉ ending) :
    extension (join directory (stem ++ '.' :: ending)) =
      if stem = [] then none else some ending := by
  have hreverse : (stem ++ '.' :: ending).reverse = ending.reverse ++ '.' :: stem.reverse := by
    rw [List.reverse_append, List.reverse_cons, List.append_assoc, List.singleton_append]
  have hall : ∀ char ∈ ending.reverse, decide (char ≠ '.') = true := by
    intro char hchar
    rw [decide_eq_true_eq]
    rintro rfl
    exact hending (List.mem_reverse.mp hchar)
  rw [extension, fileName_join directory h, Option.bind_some, hreverse,
    List.dropWhile_append_of_pos hall, List.takeWhile_append_of_pos hall]
  cases stem with
  | nil => rfl
  | cons char stem => simp

end UnixPath

namespace PathComponent

/-- One component of a lexical normalization, which resolves `.` and `..` without the file system. -/
def normalizeStep (path : List PathComponent) : PathComponent → List PathComponent
  | rootDir => [rootDir]
  | curDir => path
  | parentDir =>
      match path.getLast? with
      | some (normal _) => path.dropLast
      | some rootDir => path
      | _ => path ++ [parentDir]
  | normal name => path ++ [normal name]

def normalize (path : List PathComponent) : List PathComponent := path.foldl normalizeStep []

/-- A component that leads no way up. -/
def Descends (component : PathComponent) : Prop :=
  component = curDir ∨ ∃ name, component = normal name

/-- Components that lead no way up only add names. -/
theorem normalize_append (path : List PathComponent) {rest : List PathComponent}
    (h : ∀ component ∈ rest, component.Descends) :
    ∃ names : List (List Char), normalize (path ++ rest) = normalize path ++ names.map normal := by
  rw [normalize, List.foldl_append, ← normalize]
  generalize normalize path = base
  induction rest generalizing base with
  | nil => exact ⟨[], by simp⟩
  | cons component rest ih =>
      have hrest : ∀ other ∈ rest, other.Descends := fun other hother =>
        h other (List.mem_cons_of_mem _ hother)
      rw [List.foldl_cons]
      rcases h component List.mem_cons_self with rfl | ⟨name, rfl⟩
      · exact ih hrest base
      · obtain ⟨names, hnames⟩ := ih hrest (base ++ [normal name])
        exact ⟨name :: names, by simp [normalizeStep, hnames]⟩

end PathComponent

/-- The path stays within the directory once `.` and `..` are resolved. -/
def Within (directory path : List Char) : Prop :=
  ∃ names : List (List Char), PathComponent.normalize (UnixPath.components path) =
    PathComponent.normalize (UnixPath.components directory) ++ names.map .normal

/-- What `validate_config_path` accepts stays below the directory it is joined to. -/
theorem within_of_validateConfigPath (directory : List Char) {value label : String}
    (h : validateConfigPath value label = .ok ()) :
    Within directory (UnixPath.join directory value.toList) := by
  rw [validateConfigPath] at h
  split_ifs at h with hbad
  simp only [Bool.or_eq_true, not_or, Bool.not_eq_true] at hbad
  obtain ⟨⟨_, hrelative⟩, hdown⟩ := hbad
  have hdescends : ∀ component ∈ UnixPath.components value.toList, component.Descends := by
    intro component hcomponent
    rw [UnixPath.components_eq, if_neg (by rw [hrelative]; exact Bool.false_ne_true),
      List.mem_append] at hcomponent
    rcases hcomponent with hbegins | hsegment
    · split_ifs at hbegins
      · exact Or.inl (List.mem_singleton.mp hbegins)
      · cases hbegins
    · obtain ⟨segment, hmember, rfl⟩ := List.mem_map.mp hsegment
      rw [UnixPath.segmentComponent]
      split_ifs with hdots
      · have hmem : PathComponent.parentDir ∈ UnixPath.components value.toList := by
          rw [UnixPath.components_eq]
          refine List.mem_append_right _ (List.mem_map.mpr ⟨segment, hmember, ?_⟩)
          rw [UnixPath.segmentComponent, if_pos hdots]
        rw [← List.contains_iff_mem, hdown] at hmem
        cases hmem
      · exact Or.inr ⟨segment, rfl⟩
  by_cases hdirectory : directory = []
  · have hjoin : UnixPath.join directory value.toList = value.toList := by
      rw [UnixPath.join, hrelative, hdirectory]
      rfl
    rw [Within, hjoin, hdirectory]
    simpa [UnixPath.components, UnixPath.isAbsolute, UnixPath.segments] using
      PathComponent.normalize_append [] hdescends
  · rw [Within, UnixPath.components_join hrelative hdirectory]
    refine PathComponent.normalize_append _ fun component hcomponent => hdescends component ?_
    rw [UnixPath.components_eq]
    exact List.mem_append_right _ hcomponent

theorem validateConfigPath_of_validate {config : DaemonConfig} (h : config.validate = .ok ()) :
    validateConfigPath config.tls.certificate "TLS certificate" = .ok () ∧
      validateConfigPath config.tls.privateKey "TLS private key" = .ok () := by
  simp only [DaemonConfig.validate, bind, Except.bind, throw, throwThe, MonadExceptOf.throw] at h
  split_ifs at h
  split at h
  · cases h
  · rename_i hcertificate
    split at h
    · cases h
    · rename_i hkey
      exact ⟨hcertificate, hkey⟩

/-- The directories the daemon works in, and its process id, which its staging names end in. -/
structure Directories where
  configRoot : List Char
  runtimeRoot : List Char
  logsDirectory : List Char
  pid : Nat

namespace Directories

variable (directories : Directories)

def targetsRoot : List Char := UnixPath.join directories.configRoot "targets".toList

def channelsRoot : List Char := UnixPath.join directories.configRoot "channels".toList

def targetDirectory (name : String) : List Char :=
  UnixPath.join directories.targetsRoot name.toList

/-- `.remove-{name}-{pid}`. -/
def removalName (name : String) : List Char :=
  '.' :: ("remove-".toList ++ name.toList ++ '-' :: directories.pid.repr.toList)

def removalStaging (name : String) : List Char :=
  UnixPath.join directories.targetsRoot (directories.removalName name)

def socketPath (name : String) : List Char :=
  UnixPath.join directories.runtimeRoot (name.toList ++ ".sock".toList)

def logPath (name : String) : List Char :=
  UnixPath.join directories.logsDirectory (name.toList ++ ".log".toList)

def channelPath (channel : String) : List Char :=
  UnixPath.join directories.channelsRoot channel.toList

/-- `.{channel}.tmp-{pid}`. -/
def savingName (channel : String) : List Char :=
  '.' :: channel.toList ++ '.' :: ("tmp-".toList ++ directories.pid.repr.toList)

def channelStaging (channel : String) : List Char :=
  UnixPath.join directories.channelsRoot (directories.savingName channel)

end Directories

/-- A path the daemon uses, with the directory it is meant to be in. -/
structure DerivedPath where
  directory : List Char
  path : List Char

namespace DerivedPath

/-- The path is its directory joined with one ordinary component. -/
def Confined (derived : DerivedPath) : Prop :=
  ∃ name, UnixPath.Ordinary name ∧ derived.path = UnixPath.join derived.directory name ∧
    UnixPath.components derived.path =
      UnixPath.components derived.directory ++ [.normal name]

theorem confined_join (directory : List Char) {name : List Char} (h : UnixPath.Ordinary name) :
    Confined ⟨directory, UnixPath.join directory name⟩ :=
  ⟨name, h, rfl, UnixPath.components_join_ordinary directory h⟩

end DerivedPath

/-- The paths the daemon derives from a target name. -/
def Directories.targetPaths (directories : Directories) (name : String) : List DerivedPath := [
  ⟨directories.targetsRoot, directories.targetDirectory name⟩,
  ⟨directories.targetsRoot, directories.removalStaging name⟩,
  ⟨directories.runtimeRoot, directories.socketPath name⟩,
  ⟨directories.logsDirectory, directories.logPath name⟩]

/-- The paths the daemon derives from an operation: those of a copied target's directory, of a target's
new name, of a saved channel. -/
def Directories.operationPaths (directories : Directories) : Protocol.Operation → List DerivedPath
  | .targetAdd (some source) _ _ _ =>
      [⟨directories.targetsRoot, directories.targetDirectory source⟩]
  | .targetRename name => directories.targetPaths name
  | .targetSaveChannel channel _ => [
      ⟨directories.channelsRoot, directories.channelPath channel⟩,
      ⟨directories.channelsRoot, directories.channelStaging channel⟩]
  | _ => []

def Directories.requestPaths (directories : Directories) (request : Protocol.Request) :
    List DerivedPath :=
  request.target.toList.flatMap directories.targetPaths ++
    directories.operationPaths request.operation

theorem IsTargetName.chars {name : String} (h : IsTargetName name) :
    ∀ char ∈ name.toList, isNameChar char = true := by
  obtain ⟨_, first, rest, hname, hstart, hrest, _⟩ := h
  rw [hname]
  intro char hchar
  rcases List.mem_cons.mp hchar with rfl | hchar
  · exact isNameChar_of_isNameStart hstart
  · exact hrest char hchar

theorem IsTargetName.not_mem {name : String} (h : IsTargetName name) {char : Char}
    (hchar : isNameChar char = false) : char ∉ name.toList := by
  intro hmem
  rw [h.chars char hmem] at hchar
  cases hchar

/-- A name without a slash that has some character besides dots is ordinary. -/
theorem ordinary_of_mem {name : List Char} {char : Char} (hslash : '/' ∉ name)
    (hmem : char ∈ name) (hdot : char ≠ '.') : UnixPath.Ordinary name where
  ne_nil := List.ne_nil_of_mem hmem
  no_slash := hslash
  ne_dot := by
    rintro rfl
    exact hdot (List.mem_singleton.mp hmem)
  ne_dots := by
    rintro rfl
    simp only [List.mem_cons, List.not_mem_nil, or_false, or_self] at hmem
    exact hdot hmem

theorem not_mem_pid {char : Char} (hchar : char.isDigit = false) (pid : Nat) :
    char ∉ pid.repr.toList := by
  rw [Nat.toList_repr]
  intro hmem
  rw [Nat.isDigit_of_mem_toDigits (by decide) (by decide) hmem] at hchar
  cases hchar

section

variable {directories : Directories} {name channel : String}

theorem IsTargetName.ordinary (h : IsTargetName name) : UnixPath.Ordinary name.toList := by
  obtain ⟨_, first, rest, hname, hstart, _, _⟩ := id h
  have hmem : first ∈ name.toList := by
    rw [hname]
    exact List.mem_cons_self
  refine ordinary_of_mem (h.not_mem (by decide)) hmem ?_
  rintro rfl
  cases hstart

theorem not_mem_removal {char : Char} (h : IsTargetName name) (hword : char ∉ "remove-".toList)
    (hname : isNameChar char = false) (hdigit : char.isDigit = false) :
    char ∉ "remove-".toList ++ name.toList ++ '-' :: directories.pid.repr.toList := by
  rw [List.mem_append, List.mem_append, List.mem_cons, not_or, not_or, not_or]
  refine ⟨⟨hword, h.not_mem hname⟩, ?_, not_mem_pid hdigit _⟩
  rintro rfl
  cases hname

theorem ordinary_removalName (h : IsTargetName name) :
    UnixPath.Ordinary (directories.removalName name) := by
  have hslash : '/' ∉ directories.removalName name := by
    unfold Directories.removalName
    rw [List.mem_cons, not_or]
    exact ⟨by decide, not_mem_removal h (by decide +kernel) (by decide) (by decide)⟩
  have hmem : '-' ∈ directories.removalName name :=
    List.mem_cons_of_mem _ (List.mem_append_right _ List.mem_cons_self)
  exact ordinary_of_mem hslash hmem (by decide)

theorem ordinary_suffixed (h : IsTargetName name) {suffix : List Char} (hslash : '/' ∉ suffix) :
    UnixPath.Ordinary (name.toList ++ suffix) := by
  obtain ⟨_, first, rest, hname, hstart, _, _⟩ := id h
  have hmem : first ∈ name.toList ++ suffix := by
    rw [hname]
    exact List.mem_cons_self
  refine ordinary_of_mem (fun hmem => ?_) hmem (by rintro rfl; cases hstart)
  rcases List.mem_append.mp hmem with hmem | hmem
  · exact h.not_mem (by decide) hmem
  · exact hslash hmem

theorem ordinary_of_validChannelName (h : Protocol.validChannelName channel = true) :
    UnixPath.Ordinary channel.toList := by
  simp only [Protocol.validChannelName, Bool.and_eq_true, beq_iff_eq] at h
  exact UnixPath.ordinary_of_fileName h.1.2

theorem ordinary_savingName (h : UnixPath.Ordinary channel.toList) :
    UnixPath.Ordinary (directories.savingName channel) := by
  have hslash : '/' ∉ directories.savingName channel := by
    unfold Directories.savingName
    rw [List.mem_append, List.mem_cons, List.mem_cons, List.mem_append, not_or, not_or, not_or,
      not_or]
    exact ⟨⟨by decide, h.no_slash⟩, by decide, by decide +kernel, not_mem_pid (by decide) _⟩
  have hmem : 't' ∈ directories.savingName channel :=
    List.mem_append_right _ (List.mem_cons_of_mem _ (List.mem_append_left _ (by decide +kernel)))
  exact ordinary_of_mem hslash hmem (by decide)

/-! ### Requests -/

theorem targetPaths_confined (h : IsTargetName name) :
    ∀ derived ∈ directories.targetPaths name, derived.Confined := by
  simp only [Directories.targetPaths, List.forall_mem_cons, List.not_mem_nil, false_imp_iff,
    implies_true, and_true]
  exact ⟨DerivedPath.confined_join _ h.ordinary,
    DerivedPath.confined_join _ (ordinary_removalName h),
    DerivedPath.confined_join _ (ordinary_suffixed h (by decide)),
    DerivedPath.confined_join _ (ordinary_suffixed h (by decide))⟩

theorem operationPaths_confined {operation : Protocol.Operation} (h : operation.validate = .ok ()) :
    ∀ derived ∈ directories.operationPaths operation, derived.Confined := by
  cases operation with
  | targetAdd source enable startPaused startMuted =>
      cases source with
      | none => exact fun derived hmem => absurd hmem List.not_mem_nil
      | some source =>
          rw [Protocol.Operation.validate] at h
          split at h
          · cases h
          · rename_i hsource
            have hname := (validateTargetName_ok_iff source).mp hsource
            intro derived hmem
            rw [Directories.operationPaths, List.mem_singleton] at hmem
            rw [hmem]
            exact DerivedPath.confined_join _ hname.ordinary
  | targetRename name =>
      rw [Protocol.Operation.validate] at h
      split at h
      · cases h
      · rename_i hname
        exact targetPaths_confined ((validateTargetName_ok_iff name).mp hname)
  | targetSaveChannel channel overwrite =>
      rw [Protocol.Operation.validate] at h
      split_ifs at h with hchannel
      have hordinary := ordinary_of_validChannelName hchannel
      simp only [Directories.operationPaths, List.forall_mem_cons, List.not_mem_nil, false_imp_iff,
        implies_true, and_true]
      exact ⟨DerivedPath.confined_join _ hordinary,
        DerivedPath.confined_join _ (ordinary_savingName hordinary)⟩
  | _ => exact fun derived hmem => absurd hmem List.not_mem_nil

/-- A request that passes its checks names a valid target, if any, and its operation passes too. -/
theorem validate_parts {request : Protocol.Request} (h : request.validate = .ok ()) :
    (∀ target, request.target = some target → IsTargetName target) ∧
      request.operation.validate = .ok () := by
  unfold Protocol.Request.validate at h
  split_ifs at h
  split at h
  · rename_i hnone _
    refine ⟨fun target htarget => ?_, h⟩
    rw [hnone] at htarget
    cases htarget
  · cases h
  · rename_i target _ htarget _
    split at h
    · cases h
    · rename_i hname
      refine ⟨fun other hother => ?_, h⟩
      rw [htarget] at hother
      cases hother
      exact (validateTargetName_ok_iff _).mp hname
  · cases h

/-- Every path derived from an accepted request is confined to its directory. -/
theorem requestPaths_confined {request : Protocol.Request} (h : request.validate = .ok ()) :
    ∀ derived ∈ directories.requestPaths request, derived.Confined := by
  obtain ⟨htarget, hoperation⟩ := validate_parts h
  intro derived hmem
  rcases List.mem_append.mp hmem with hmem | hmem
  · obtain ⟨target, hsome, hmem⟩ := List.mem_flatMap.mp hmem
    exact targetPaths_confined (htarget target (Option.mem_toList.mp hsome)) derived hmem
  · exact operationPaths_confined hoperation derived hmem

/-- Different targets have different directories, sockets and logs. -/
theorem target_paths_ne {other : String} (hname : IsTargetName name) (hother : IsTargetName other)
    (hne : name ≠ other) :
    directories.targetDirectory name ≠ directories.targetDirectory other ∧
      directories.socketPath name ≠ directories.socketPath other ∧
      directories.logPath name ≠ directories.logPath other := by
  refine ⟨fun h => hne ?_, fun h => hne ?_, fun h => hne ?_⟩
  · exact String.toList_inj.mp (UnixPath.name_eq_of_join_eq hname.ordinary hother.ordinary h)
  · exact String.toList_inj.mp (List.append_cancel_right (UnixPath.name_eq_of_join_eq
      (ordinary_suffixed hname (by decide)) (ordinary_suffixed hother (by decide)) h))
  · exact String.toList_inj.mp (List.append_cancel_right (UnixPath.name_eq_of_join_eq
      (ordinary_suffixed hname (by decide)) (ordinary_suffixed hother (by decide)) h))

/-- A path that ends in a name with a leading dot is no target's directory. -/
theorem staging_ne_targetDirectory {directory rest : List Char} {other : String}
    (hordinary : UnixPath.Ordinary ('.' :: rest)) (hother : IsTargetName other) :
    UnixPath.join directory ('.' :: rest) ≠ directories.targetDirectory other := by
  intro h
  obtain ⟨_, first, tail, hname, hstart, _, _⟩ := id hother
  have heq := UnixPath.name_eq_of_join_eq hordinary hother.ordinary h
  rw [hname] at heq
  cases heq
  cases hstart

theorem removalStaging_not_listed (h : IsTargetName name) :
    hasChannelExtension (directories.removalStaging name) = false := by
  have hordinary : UnixPath.Ordinary ([] ++ directories.removalName name) := ordinary_removalName h
  have hextension : UnixPath.extension (directories.removalStaging name) = none :=
    UnixPath.extension_join directories.targetsRoot hordinary
      (not_mem_removal h (by decide +kernel) (by decide) (by decide))
  rw [hasChannelExtension, hextension]

theorem channelStaging_not_listed (h : UnixPath.Ordinary channel.toList) :
    hasChannelExtension (directories.channelStaging channel) = false := by
  have hdot : '.' ∉ "tmp-".toList ++ directories.pid.repr.toList := by
    rw [List.mem_append, not_or]
    exact ⟨by decide +kernel, not_mem_pid (by decide) _⟩
  have hextension : UnixPath.extension (directories.channelStaging channel) =
      some ("tmp-".toList ++ directories.pid.repr.toList) :=
    (UnixPath.extension_join directories.channelsRoot (ordinary_savingName h) hdot).trans
      (if_neg (List.cons_ne_nil _ _))
  have htmp : "tmp-".toList = ['t', 'm', 'p', '-'] := by decide +kernel
  have hm3u : "m3u".toList = ['m', '3', 'u'] := by decide +kernel
  have hm3u8 : "m3u8".toList = ['m', '3', 'u', '8'] := by decide +kernel
  rw [hasChannelExtension, hextension]
  simp [htmp, hm3u, hm3u8]

end

/-- Accepted requests lead to confined paths only, targets do not share paths, staging names are neither
target directories nor channels, target names are the words of their grammar, and the TLS files lie
below the configuration's directory. -/
theorem paths_confined (directories : Directories) :
    (∀ request : Protocol.Request, request.validate = .ok () →
      ∀ derived ∈ directories.requestPaths request, derived.Confined) ∧
    (∀ name other, validateTargetName name = .ok () → validateTargetName other = .ok () →
      name ≠ other →
        directories.targetDirectory name ≠ directories.targetDirectory other ∧
          directories.socketPath name ≠ directories.socketPath other ∧
          directories.logPath name ≠ directories.logPath other) ∧
    (∀ staging, (∃ name, validateTargetName name = .ok () ∧
        staging = directories.removalStaging name) ∨
      (∃ channel, Protocol.validChannelName channel = true ∧
        staging = directories.channelStaging channel) →
      (∀ name, validateTargetName name = .ok () → staging ≠ directories.targetDirectory name) ∧
        hasChannelExtension staging = false) ∧
    (∀ name, validateTargetName name = .ok () ↔ IsTargetName name) ∧
    ∀ config : DaemonConfig, config.validate = .ok () →
      Within directories.configRoot
        (UnixPath.join directories.configRoot config.tls.certificate.toList) ∧
      Within directories.configRoot
        (UnixPath.join directories.configRoot config.tls.privateKey.toList) := by
  refine ⟨fun request h => requestPaths_confined h, fun name other hname hother hne => ?_,
    fun staging hstaging => ?_, validateTargetName_ok_iff, fun config h => ?_⟩
  · exact target_paths_ne ((validateTargetName_ok_iff name).mp hname)
      ((validateTargetName_ok_iff other).mp hother) hne
  · rcases hstaging with ⟨name, hname, rfl⟩ | ⟨channel, hchannel, rfl⟩
    · have hvalid := (validateTargetName_ok_iff name).mp hname
      refine ⟨fun other hother => ?_, removalStaging_not_listed hvalid⟩
      exact staging_ne_targetDirectory (ordinary_removalName hvalid)
        ((validateTargetName_ok_iff other).mp hother)
    · have hordinary := ordinary_of_validChannelName hchannel
      refine ⟨fun other hother => ?_, channelStaging_not_listed hordinary⟩
      exact staging_ne_targetDirectory (ordinary_savingName hordinary)
        ((validateTargetName_ok_iff other).mp hother)
  · obtain ⟨hcertificate, hkey⟩ := validateConfigPath_of_validate h
    exact ⟨within_of_validateConfigPath _ hcertificate, within_of_validateConfigPath _ hkey⟩

end MpvTargets
