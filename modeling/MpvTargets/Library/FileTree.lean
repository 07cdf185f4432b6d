import Mathlib.Algebra.Order.BigOperators.Group.List
import Mathlib.Algebra.Order.Group.Nat
import Mathlib.Data.List.AList

/-! Files, directories and symbolic links as a finite map of paths. A path lists its names from the innermost
outwards, so that what lies below a directory has the directory's path as its tail. -/

namespace FileTree

abbrev Path := List String

inductive Item where
  | file (content : List UInt8)
  | directory
  | link (target : Path)
  deriving DecidableEq, Repr

abbrev Files := AList fun _ : Path => Item

def item (files : Files) (path : Path) : Option Item := files.lookup path

def write (files : Files) (path : Path) (new : Item) : Files := files.insert path new

theorem item_write (files : Files) (path other : Path) (new : Item) :
    item (write files path new) other = if other = path then some new else item files other := by
  unfold item write
  by_cases h : other = path
  · rw [if_pos h, h, AList.lookup_insert]
  · rw [if_neg h, AList.lookup_insert_ne h]

theorem item_write_self (files : Files) (path : Path) (new : Item) :
    item (write files path new) path = some new := by
  rw [item_write, if_pos rfl]

theorem item_write_of_ne (files : Files) {path other : Path} (new : Item) (h : other ≠ path) :
    item (write files path new) other = item files other := by
  rw [item_write, if_neg h]

/-- The name of an entry that lies directly in the directory. -/
def nameIn (directory : Path) : Path → Option String
  | name :: parent => if parent = directory then some name else none
  | [] => none

theorem nameIn_eq_some_iff {directory path : Path} {name : String} :
    nameIn directory path = some name ↔ path = name :: directory := by
  cases path with
  | nil => simp [nameIn]
  | cons first parent =>
      unfold nameIn
      by_cases h : parent = directory
      · simp [h]
      · simp [h]

def children (files : Files) (directory : Path) : List String := files.keys.filterMap (nameIn directory)

theorem mem_children_iff {files : Files} {directory : Path} {name : String} :
    name ∈ children files directory ↔ item files (name :: directory) ≠ none := by
  unfold children item
  rw [Ne, AList.lookup_eq_none, not_not, AList.mem_keys, List.mem_filterMap]
  constructor
  · rintro ⟨path, hpath, hname⟩
    rwa [nameIn_eq_some_iff.mp hname] at hpath
  · exact fun h => ⟨name :: directory, h, nameIn_eq_some_iff.mpr rfl⟩

theorem children_nodup (files : Files) (directory : Path) : (children files directory).Nodup := by
  refine List.Nodup.filterMap ?_ files.nodupKeys
  intro left right name hleft hright
  rw [Option.mem_def, nameIn_eq_some_iff] at hleft hright
  rw [hleft, hright]

/-- What exists lies in a directory. -/
def Rooted (files : Files) : Prop :=
  ∀ name parent, item files (name :: parent) ≠ none → item files parent = some .directory

/-- `Rooted`, looked up entry by entry. -/
def rooted? (files : Files) : Bool :=
  files.keys.all fun path =>
    match path with
    | [] => true
    | _ :: parent => item files parent == some .directory

theorem rooted_of_rooted? {files : Files} (h : rooted? files = true) : Rooted files := by
  intro name parent hitem
  have hmem : name :: parent ∈ files.keys := by
    rw [← AList.mem_keys]
    by_contra hnot
    exact hitem (AList.lookup_eq_none.mpr hnot)
  exact beq_iff_eq.mp (List.all_eq_true.mp h _ hmem)

/-- No entry is a link. -/
def linkless? (files : Files) : Bool :=
  files.entries.all fun entry =>
    match entry.2 with
    | .link _ => false
    | _ => true

theorem item_ne_link {files : Files} (h : linkless? files = true) (path target : Path) :
    item files path ≠ some (.link target) := by
  intro hitem
  have hmem : (⟨path, .link target⟩ : Sigma fun _ : Path => Item) ∈ files.entries :=
    AList.mem_lookup_iff.mp hitem
  exact absurd (List.all_eq_true.mp h _ hmem) Bool.false_ne_true

/-- A file system. -/
structure Tree where
  files : Files
  rooted : Rooted files

/-- A bound for the depth of what lies below a path. -/
def Within (files : Files) (path : Path) (depth : Nat) : Prop :=
  ∀ below : Path, item files (below ++ path) ≠ none → below.length ≤ depth

theorem exists_within (files : Files) (path : Path) : ∃ depth, Within files path depth := by
  refine ⟨(files.keys.map List.length).sum, fun below hbelow => ?_⟩
  have hmem : below ++ path ∈ files.keys := by
    rw [← AList.mem_keys]
    by_contra hnot
    exact hbelow (AList.lookup_eq_none.mpr hnot)
  calc below.length ≤ (below ++ path).length := by simp
    _ ≤ (files.keys.map List.length).sum :=
      List.single_le_sum (fun _ _ => Nat.zero_le _) _ (List.mem_map_of_mem hmem)

/-- The links that are followed in one path. -/
def maxLinks : Nat := 40

/-- Where a path leads when its last name is a link. -/
def resolve (files : Files) : Nat → Path → Option Path
  | 0, _ => none
  | count + 1, path =>
      match item files path with
      | some (.link target) => resolve files count target
      | _ => some path

def found (files : Files) (path : Path) : Option Item :=
  (resolve files maxLinks path).bind (item files)

theorem resolve_of_not_link {files : Files} {path : Path} (h : ∀ target, item files path ≠ some (.link target)) :
    resolve files maxLinks path = some path := by
  unfold maxLinks resolve
  cases hitem : item files path with
  | none => rfl
  | some other =>
      cases other with
      | link target => exact absurd hitem (h target)
      | _ => rfl

theorem found_of_not_link {files : Files} {path : Path} (h : ∀ target, item files path ≠ some (.link target)) :
    found files path = item files path := by
  unfold found
  rw [resolve_of_not_link h, Option.bind_some]

def isDirectory (files : Files) (path : Path) : Bool := found files path == some .directory

/-- Creates a directory and those that it needs. -/
def createDirAll (files : Files) : Path → Except String Files
  | [] => .ok files
  | name :: parent =>
      if item files (name :: parent) = none then
        (createDirAll files parent).map fun created => write created (name :: parent) .directory
      else if isDirectory files (name :: parent) then .ok files
      else .error "File exists"

/-- Opens a file for writing, which is created or emptied, and writes the content. -/
def createFile (files : Files) (target : Path) (content : List UInt8) : Except String Files :=
  match resolve files maxLinks target with
  | none => .error "Too many levels of symbolic links"
  | some [] => .error "Is a directory"
  | some (name :: parent) =>
      if !isDirectory files parent then .error "No such file or directory"
      else if item files (name :: parent) = some .directory then .error "Is a directory"
      else .ok (write files (name :: parent) (.file content))

/-- Copies what a file or a link to one contains. -/
def copyFile (files : Files) (source target : Path) : Except String Files :=
  match found files source with
  | none => .error "No such file or directory"
  | some (.file content) => createFile files target content
  | some _ => .error "the source path is neither a regular file nor a symlink to a regular file"

/-- A directory in an existing one is created alone. -/
theorem createDirAll_eq_ok {files created : Files} {name : String} {parent : Path}
    (hparent : item files parent = some .directory)
    (hlink : ∀ target, item files (name :: parent) ≠ some (.link target))
    (h : createDirAll files (name :: parent) = .ok created) :
    item created (name :: parent) = some .directory ∧
      ∀ other, other ≠ name :: parent → item created other = item files other := by
  have hexisting : createDirAll files parent = .ok files := by
    cases parent with
    | nil => rfl
    | cons first rest =>
        have hdirectory : isDirectory files (first :: rest) = true := by
          unfold isDirectory
          rw [found_of_not_link (by rw [hparent]; simp), hparent]
          rfl
        unfold createDirAll
        rw [if_neg (by rw [hparent]; simp), if_pos hdirectory]
  unfold createDirAll at h
  split_ifs at h with hnone hdirectory
  · rw [hexisting] at h
    obtain rfl := Except.ok.inj h
    exact ⟨item_write_self files _ _, fun other hne => item_write_of_ne files _ hne⟩
  · obtain rfl := Except.ok.inj h
    unfold isDirectory at hdirectory
    rw [found_of_not_link hlink, beq_iff_eq] at hdirectory
    exact ⟨hdirectory, fun _ _ => rfl⟩

/-- A path that is no link is written alone. -/
theorem createFile_eq_ok {files created : Files} {target : Path} {content : List UInt8}
    (hlink : ∀ other, item files target ≠ some (.link other))
    (h : createFile files target content = .ok created) :
    item created target = some (.file content) ∧
      ∀ other, other ≠ target → item created other = item files other := by
  unfold createFile at h
  rw [resolve_of_not_link hlink] at h
  cases target with
  | nil => cases h
  | cons name parent =>
      dsimp only at h
      split_ifs at h
      obtain rfl := Except.ok.inj h
      exact ⟨item_write_self files _ _, fun other hne => item_write_of_ne files _ hne⟩

theorem copyFile_eq_ok {files copied : Files} {source target : Path}
    (h : copyFile files source target = .ok copied) :
    ∃ content, found files source = some (.file content) ∧ createFile files target content = .ok copied := by
  unfold copyFile at h
  split at h
  · cases h
  · rename_i content hcontent
    exact ⟨content, hcontent, h⟩
  · cases h

end FileTree
