import MpvTargets.PathConfinement

/-! The paths of files: the text before the last component and that component, of which the parent
directory and the names beside the file are made. -/

namespace MpvTargets

namespace UnixPath

/-- The last segments that are no component. -/
def trimmed (segments : List (List Char)) : List (List Char) :=
  segments.dropWhile fun segment => segment = [] ∨ segment = ['.']

/-- `Path::parent`, on the text of the path. -/
def parent (path : List Char) : Option (List Char) :=
  let begins : List Char :=
    if isAbsolute path then ['/'] else if (path.splitOn '/').head? = some ['.'] then ['.'] else []
  match trimmed ((path.drop begins.length).splitOn '/').reverse with
  | _ :: before => some (begins ++ ['/'].intercalate (trimmed before).reverse)
  | [] => if begins = ['.'] then some [] else none

example : parent "/etc//mpv-targets/./node.toml/".toList = some "/etc//mpv-targets".toList := by
  decide +kernel

/-- What a name is put after to join it to a directory. -/
def withSlash (directory : List Char) : List Char :=
  if directory.getLast?.any fun char => char ≠ '/' then directory ++ ['/'] else directory

/-- `Path::file_stem`, of a name. -/
def fileStem (name : List Char) : List Char :=
  match name.reverse.dropWhile fun char => char ≠ '.' with
  | [] => name
  | _ :: before => if before.isEmpty then name else before.reverse

/-- Where the last dot of a name is found, the name is what comes before it and what comes after. -/
theorem eq_of_dropWhile {α : Type*} [DecidableEq α] {name before : List α} {dot first : α}
    (h : (name.reverse.dropWhile fun char => char ≠ dot) = first :: before) :
    name = before.reverse ++ dot :: (name.reverse.takeWhile fun char => char ≠ dot).reverse ∧
      dot ∉ (name.reverse.takeWhile fun char => char ≠ dot).reverse := by
  have hfirst : first = dot := by
    have hhead := List.head?_dropWhile_not (fun char => decide (char ≠ dot)) name.reverse
    rw [h] at hhead
    simpa using hhead
  constructor
  · have hsplit := congrArg List.reverse
      (List.takeWhile_append_dropWhile (p := fun char => decide (char ≠ dot)) (l := name.reverse))
    rw [h, List.reverse_append, List.reverse_cons, List.reverse_reverse, hfirst, List.append_assoc,
      List.singleton_append] at hsplit
    exact hsplit.symm
  · rw [List.mem_reverse]
    intro hmem
    have hall := List.all_takeWhile (p := fun char => decide (char ≠ dot)) (l := name.reverse)
    simpa using List.all_eq_true.mp hall _ hmem

/-- A name is its stem, or its stem and its extension. -/
theorem fileStem_cases (name : List Char) :
    fileStem name = name ∨ ∃ ending, '.' ∉ ending ∧ name = fileStem name ++ '.' :: ending := by
  unfold fileStem
  split
  · exact Or.inl rfl
  · rename_i dot before hdrop
    split_ifs
    · exact Or.inl rfl
    · obtain ⟨hname, hending⟩ := eq_of_dropWhile hdrop
      exact Or.inr ⟨_, hending, hname⟩

end UnixPath

/-- What `with_extension` is given: text that is no way out of the directory. -/
structure FileExtension where
  text : List Char
  no_slash : '/' ∉ text
  not_dots : ∃ char ∈ text, char ≠ '.'

/-- The path of a file, as the text before its name and that name. -/
structure FilePath where
  directory : List Char
  name : List Char
  slash : directory = [] ∨ directory.getLast? = some '/'
  ordinary : UnixPath.Ordinary name

namespace FilePath

def text (path : FilePath) : List Char := path.directory ++ path.name

theorem fileStem_no_slash {name : List Char} (h : '/' ∉ name) : '/' ∉ UnixPath.fileStem name := by
  intro hmem
  rcases UnixPath.fileStem_cases name with hstem | ⟨ending, _, hname⟩
  · rw [hstem] at hmem
    exact h hmem
  · rw [hname] at h
    exact h (List.mem_append_left _ hmem)

/-- `Path::with_extension`. -/
def withExtension (path : FilePath) (extension : FileExtension) : FilePath where
  directory := path.directory
  name := UnixPath.fileStem path.name ++ '.' :: extension.text
  slash := path.slash
  ordinary := by
    obtain ⟨char, hmem, hdot⟩ := extension.not_dots
    refine ordinary_of_mem ?_ (List.mem_append_right _ (List.mem_cons_of_mem _ hmem)) hdot
    rw [List.mem_append, List.mem_cons, not_or, not_or]
    exact ⟨fileStem_no_slash path.ordinary.no_slash, by decide, extension.no_slash⟩

theorem withExtension_text_ne (path : FilePath) {extension : FileExtension}
    (h : path.name ≠ UnixPath.fileStem path.name ++ '.' :: extension.text) :
    (path.withExtension extension).text ≠ path.text :=
  fun heq => h (List.append_cancel_left heq).symm

/-- An extension with a dot is no file's own. -/
theorem withExtension_text_ne_of_dot (path : FilePath) {extension : FileExtension}
    (h : '.' ∈ extension.text) : (path.withExtension extension).text ≠ path.text := by
  refine path.withExtension_text_ne fun hname => ?_
  rcases UnixPath.fileStem_cases path.name with hstem | ⟨ending, hending, hself⟩
  · rw [hstem] at hname
    have hlength := congrArg List.length hname
    rw [List.length_append, List.length_cons] at hlength
    omega
  · have hsame := List.append_cancel_left (hself.symm.trans hname)
    rw [(List.cons.inj hsame).2] at hending
    exact hending h

/-- A name joined to a directory. -/
def ofJoin (directory name : List Char) (h : UnixPath.Ordinary name) : FilePath where
  directory := UnixPath.withSlash directory
  name := name
  slash := by
    unfold UnixPath.withSlash
    rcases List.eq_nil_or_concat directory with rfl | ⟨init, last, rfl⟩
    · exact Or.inl rfl
    · by_cases hlast : last = '/'
      · simp [hlast]
      · simp [hlast]
  ordinary := h

theorem isAbsolute_of_ordinary {name : List Char} (h : UnixPath.Ordinary name) :
    UnixPath.isAbsolute name = false := by
  rw [UnixPath.isAbsolute, beq_eq_false_iff_ne]
  intro hhead
  exact h.no_slash (List.mem_of_mem_head? hhead)

theorem text_ofJoin (directory : List Char) {name : List Char} (h : UnixPath.Ordinary name) :
    (ofJoin directory name h).text = UnixPath.join directory name := by
  rw [text, UnixPath.join, isAbsolute_of_ordinary h, if_neg Bool.false_ne_true]
  unfold ofJoin UnixPath.withSlash
  dsimp only
  split
  · rw [List.append_assoc, List.singleton_append]
  · rfl

end FilePath

end MpvTargets
