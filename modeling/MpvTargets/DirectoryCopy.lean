import MpvTargets.Library.FileTree

/-! `copy_directory`: the copy of a directory into another one. It runs over the state of the file system,
with fuel for its recursion; any of its calls may fail. -/

namespace MpvTargets

open FileTree

/-- The calls of the loop. -/
inductive CopyCall where
  | readDir
  | entry
  | fileType
  | createDirAll
  | copy
  | lastEntry
  deriving DecidableEq, Repr

/-- What the file system does on its own account: the order of a directory's entries, and which calls fail on
a path of the source, the existence check among them. A copy that fails may leave a part of its content. -/
structure CopyWorld where
  order : Path → List String → List String
  perm : ∀ path names, (order path names).Perm names
  statError : Path → Bool
  fails : CopyCall → Path → Option String
  remnant : Path → Option (List UInt8)

abbrev CopyResult := Except String Unit × Files

/-- `Path::exists` is false where the file system does not say. -/
def CopyWorld.exists_ (world : CopyWorld) (files : Files) (path : Path) : Bool :=
  !world.statError path && (found files path).isSome

/-- `fs::copy` of an entry. A failure may leave the destination untouched, or with a part of the content. -/
def CopyWorld.copy (world : CopyWorld) (files : Files) (source target : Path) : CopyResult :=
  match copyFile files source target, world.fails .copy source with
  | .error error, none => (.error error, files)
  | .error _, some error => (.error error, files)
  | .ok copied, none => (.ok (), copied)
  | .ok _, some error =>
      match (world.remnant source).map (createFile files target) with
      | some (.ok created) => (.error error, created)
      | _ => (.error error, files)

/-- The loop over the names that `read_dir` gives. -/
def copyEntries (world : CopyWorld) (source : Path)
    (copyEntry : Files → String → Option CopyResult) : List String → Files → Option CopyResult
  | [], files =>
      match world.fails .lastEntry source with
      | some error => some (.error error, files)
      | none => some (.ok (), files)
  | name :: names, files =>
      match copyEntry files name with
      | none => none
      | some (.error error, files) => some (.error error, files)
      | some (.ok (), files) => copyEntries world source copyEntry names files

/-- The body of the loop, with the call for a directory. -/
def copyEntry (world : CopyWorld) (copyDirectory : Files → Path → Path → Option CopyResult)
    (source target : Path) (files : Files) (name : String) : Option CopyResult :=
  match (world.fails .entry (name :: source)).or (world.fails .fileType (name :: source)) with
  | some error => some (.error error, files)
  | none =>
      if item files (name :: source) = some .directory then
        match world.fails .createDirAll (name :: source) with
        | some error => some (.error error, files)
        | none =>
            match createDirAll files (name :: target) with
            | .error error => some (.error error, files)
            | .ok created => copyDirectory created (name :: source) (name :: target)
      else some (world.copy files (name :: source) (name :: target))

def copyDirectory (world : CopyWorld) : Nat → Files → Path → Path → Option CopyResult
  | 0, _, _, _ => none
  | fuel + 1, files, source, target =>
      if !world.exists_ files source then some (.ok (), files)
      else
        match world.fails .readDir source with
        | some error => some (.error error, files)
        | none =>
            copyEntries world source (copyEntry world (copyDirectory world fuel) source target)
              (world.order source (children files source)) files

/-- Nothing lies below both. -/
def Apart (source target : Path) : Prop := ∀ below below' : Path, below ++ source ≠ below' ++ target

/-- What exists below the path lies in a directory. -/
def RootedBelow (files : Files) (path : Path) : Prop :=
  ∀ name below, item files (name :: (below ++ path)) ≠ none → item files (below ++ path) = some .directory

/-- The destination is a directory without links, apart from the source. -/
structure Ready (files : Files) (source target : Path) : Prop where
  rooted : RootedBelow files source
  apart : Apart source target
  directory : item files target = some .directory
  plain : ∀ below link, item files (below ++ target) ≠ some (.link link)

/-- Every directory above, from the source down, passes its existence check. -/
def Seen (world : CopyWorld) (source below : Path) : Prop :=
  ∀ above, above <:+ below → above ≠ below → world.statError (above ++ source) = false

/-- The destination has what the source has here. -/
def Copied (before after : Files) (source target below : Path) : Prop :=
  (item before (below ++ source) = some .directory → item after (below ++ target) = some .directory) ∧
  ∀ content, item before (below ++ source) = some (.file content) →
    item after (below ++ target) = some (.file content)

/-- What changes lies in these places of the destination, exists at the source and becomes no link. -/
def Changes (world : CopyWorld) (source target : Path) (places : Path → Prop) (before after : Files) : Prop :=
  ∀ path, item after path ≠ item before path → ∃ below, places below ∧ path = below ++ target ∧
    item before (below ++ source) ≠ none ∧ Seen world source below ∧
    ∀ link, item after path ≠ some (.link link)

section

variable {world : CopyWorld} {files before mid after : Files} {source target : Path} {name : String}
  {places : Path → Prop}

theorem append_cons (below : Path) (name : String) (path : Path) :
    below ++ name :: path = (below ++ [name]) ++ path := by
  simp

theorem Apart.sub (h : Apart source target) (name : String) : Apart (name :: source) (name :: target) := by
  intro below below'
  rw [append_cons below, append_cons below']
  exact h _ _

theorem RootedBelow.sub (h : RootedBelow files source) (name : String) :
    RootedBelow files (name :: source) := by
  intro other below
  rw [append_cons]
  exact h other (below ++ [name])

theorem RootedBelow.ancestor (h : RootedBelow files source) {below : Path} (hne : below ≠ [])
    (hitem : item files (below ++ source) ≠ none) : item files source = some .directory := by
  induction below with
  | nil => exact absurd rfl hne
  | cons name below ih =>
      have hparent := h name below hitem
      by_cases hnil : below = []
      · rwa [hnil] at hparent
      · exact ih hnil (by rw [hparent]; simp)

theorem seen_nil (world : CopyWorld) (source : Path) : Seen world source [] := by
  intro above hsuffix hne
  exact absurd (List.suffix_nil.mp hsuffix) hne

theorem seen_concat {below : Path} : Seen world source (below ++ [name]) ↔
    world.statError source = false ∧ Seen world (name :: source) below := by
  constructor
  · intro h
    refine ⟨h [] (List.nil_suffix) (by simp), fun above hsuffix hne => ?_⟩
    have hlonger : above ++ [name] <:+ below ++ [name] := by
      obtain ⟨front, rfl⟩ := hsuffix
      exact ⟨front, (List.append_assoc _ _ _).symm⟩
    have hchecked := h (above ++ [name]) hlonger fun heq => hne (List.append_cancel_right heq)
    rwa [append_cons]
  · rintro ⟨hsource, h⟩ above hsuffix hne
    rcases List.suffix_concat_iff.mp hsuffix with rfl | ⟨shorter, rfl, hshorter⟩
    · exact hsource
    · rw [← append_cons]
      exact h shorter hshorter fun heq => hne (by rw [heq])

namespace Changes

theorem refl (files : Files) : Changes world source target places files files := fun _ h => absurd rfl h

/-- The source stays as it is. -/
theorem source_eq (h : Changes world source target places before after) (hapart : Apart source target)
    (below : Path) : item after (below ++ source) = item before (below ++ source) := by
  by_contra hne
  obtain ⟨below', -, heq, -⟩ := h _ hne
  exact hapart below below' heq

theorem mono {more : Path → Prop} (h : Changes world source target places before after)
    (hmore : ∀ below, places below → more below) : Changes world source target more before after := by
  intro path hne
  obtain ⟨below, hplace, hrest⟩ := h path hne
  exact ⟨below, hmore below hplace, hrest⟩

theorem trans {more : Path → Prop} (h : Changes world source target places before mid)
    (h' : Changes world source target more mid after) (hapart : Apart source target) :
    Changes world source target (fun below => places below ∨ more below) before after := by
  intro path hne
  by_cases hlater : item after path = item mid path
  · rw [hlater] at hne ⊢
    obtain ⟨below, hplace, hrest⟩ := h path hne
    exact ⟨below, .inl hplace, hrest⟩
  · obtain ⟨below, hplace, hpath, hitem, hrest⟩ := h' path hlater
    rw [h.source_eq hapart] at hitem
    exact ⟨below, .inr hplace, hpath, hitem, hrest⟩

/-- Outside the places the destination stays as it is. -/
theorem target_eq (h : Changes world source target places before after) {below : Path} (hnot : ¬places below) :
    item after (below ++ target) = item before (below ++ target) := by
  by_contra hne
  obtain ⟨below', hplace, heq, -⟩ := h _ hne
  rw [List.append_cancel_right heq] at hnot
  exact hnot hplace

theorem ready (h : Changes world source target places before after) (hready : Ready before source target)
    (hplaces : ¬places []) : Ready after source target where
  rooted := by
    intro name below
    have hkept := h.source_eq hready.apart
    rw [show name :: (below ++ source) = (name :: below) ++ source from rfl, hkept, hkept]
    exact hready.rooted name below
  apart := hready.apart
  directory := by
    have hkept : item after ([] ++ target) = item before ([] ++ target) := h.target_eq hplaces
    exact hkept.trans hready.directory
  plain := by
    intro below link hlink
    by_cases hsame : item after (below ++ target) = item before (below ++ target)
    · rw [hsame] at hlink
      exact hready.plain below link hlink
    · obtain ⟨_, -, -, -, -, hplain⟩ := h _ hsame
      exact hplain link hlink

end Changes

/-- A state that differs at an entry of the destination only. -/
theorem changes_entry (hseen : world.statError source = false) (hitem : item before (name :: source) ≠ none)
    (hlink : ∀ link, item after (name :: target) ≠ some (.link link))
    (hothers : ∀ other, other ≠ name :: target → item after other = item before other) :
    Changes world source target (fun below => [name] <:+ below) before after := by
  intro path hne
  have hpath : path = name :: target := by
    by_contra hother
    exact hne (hothers path hother)
  subst hpath
  refine ⟨[name], List.suffix_rfl, rfl, hitem, ?_, hlink⟩
  have hsingle : Seen world source ([] ++ [name]) := seen_concat.mpr ⟨hseen, seen_nil world _⟩
  exact hsingle

/-- What a copy from here to there changes, and that it is complete where it succeeds. -/
structure Copies (world : CopyWorld) (source target : Path) (places : Path → Prop) (before : Files)
    (result : Except String Unit) (after : Files) : Prop where
  changes : Changes world source target places before after
  copied : result = .ok () → ∀ below, places below → Seen world source below →
    Copied before after source target below

theorem Copies.failed {error : String} (h : Changes world source target places before after) :
    Copies world source target places before (.error error) after := ⟨h, fun hok => nomatch hok⟩

theorem copy_spec {result : Except String Unit} (hready : Ready before source target)
    (hseen : world.statError source = false) (hsource : item before (name :: source) ≠ some .directory)
    (h : world.copy before (name :: source) (name :: target) = (result, after)) :
    Copies world source target (fun below => [name] <:+ below) before result after := by
  have hlink : ∀ link, item before (name :: target) ≠ some (.link link) := hready.plain [name]
  have hwritten : ∀ {content created}, found before (name :: source) ≠ none →
      createFile before (name :: target) content = .ok created →
        Changes world source target (fun below => [name] <:+ below) before created := by
    intro content created hfound hcreated
    obtain ⟨hself, hothers⟩ := createFile_eq_ok hlink hcreated
    refine changes_entry hseen ?_ (by rw [hself]; simp) hothers
    intro hnone
    exact hfound (by rw [found_of_not_link (by rw [hnone]; simp), hnone])
  unfold CopyWorld.copy at h
  split at h
  · cases h
    exact Copies.failed (Changes.refl before)
  · cases h
    exact Copies.failed (Changes.refl before)
  · rename_i copied hcopied _
    cases h
    obtain ⟨content, hfound, hcreated⟩ := copyFile_eq_ok hcopied
    refine ⟨hwritten (by rw [hfound]; simp) hcreated, fun _ below hplace _ => ?_⟩
    obtain ⟨deeper, rfl⟩ := hplace
    by_cases hnil : deeper = []
    · subst hnil
      refine ⟨fun hdirectory => absurd hdirectory hsource, fun content' hfile => ?_⟩
      have hsame : found before (name :: source) = some (.file content') := by
        have hplace : item before (name :: source) = some (.file content') := hfile
        rw [found_of_not_link (fun link hislink => by rw [hplace] at hislink; cases hislink)]
        exact hfile
      obtain rfl : content = content' := by
        rw [hfound] at hsame
        cases hsame
        rfl
      exact (createFile_eq_ok hlink hcreated).1
    · have hnothing : item before ((deeper ++ [name]) ++ source) = none := by
        rw [← append_cons]
        by_contra hsome
        exact hsource ((hready.rooted.sub name).ancestor hnil hsome)
      rw [Copied, hnothing]
      refine ⟨?_, ?_⟩
      · intro hdirectory
        cases hdirectory
      · intro _ hfile
        cases hfile
  · rename_i copied error hcopied _
    obtain ⟨content, hfound, -⟩ := copyFile_eq_ok hcopied
    split at h
    · rename_i created hcreated
      cases h
      obtain ⟨remnant, -, hcreated⟩ := Option.map_eq_some_iff.mp hcreated
      exact Copies.failed (hwritten (by rw [hfound]; simp) hcreated)
    · cases h
      exact Copies.failed (Changes.refl before)

/-- What a call of `copy_directory` does. -/
def CopySpec (world : CopyWorld) (copy : Files → Path → Path → Option CopyResult) : Prop :=
  ∀ before source target result after, Ready before source target →
    copy before source target = some (result, after) →
      Copies world source target (· ≠ []) before result after

/-- The directory that stands for an entry, before what lies in it is copied. -/
theorem created_entry {created : Files} (hready : Ready before source target)
    (hseen : world.statError source = false) (hsource : item before (name :: source) = some .directory)
    (hcreated : createDirAll before (name :: target) = .ok created) :
    Changes world source target (fun below => [name] <:+ below) before created ∧
      Ready created (name :: source) (name :: target) := by
  obtain ⟨hself, hothers⟩ := createDirAll_eq_ok hready.directory (hready.plain [name]) hcreated
  have hentry : Changes world source target (fun below => [name] <:+ below) before created :=
    changes_entry hseen (by rw [hsource]; simp) (by rw [hself]; simp) hothers
  have hready' := hentry.ready hready (by simp)
  refine ⟨hentry, hready'.rooted.sub name, hready.apart.sub name, hself, fun below link => ?_⟩
  rw [append_cons]
  exact hready'.plain (below ++ [name]) link

/-- A directory entry: it is created, and what lies in it is copied. -/
theorem descend_spec {created : Files} {result : Except String Unit} (hready : Ready before source target)
    (hseen : world.statError source = false) (hsource : item before (name :: source) = some .directory)
    (hentry : Changes world source target (fun below => [name] <:+ below) before created)
    (hself : item created (name :: target) = some .directory)
    (h : Copies world (name :: source) (name :: target) (· ≠ []) created result after) :
    Copies world source target (fun below => [name] <:+ below) before result after := by
  have hlater : Changes world source target (fun below => [name] <:+ below) created after := by
    intro path hne
    obtain ⟨below, -, rfl, hitem, hbelow, hlink⟩ := h.changes path hne
    rw [append_cons] at hitem ⊢
    exact ⟨below ++ [name], List.suffix_append _ _, rfl, hitem, seen_concat.mpr ⟨hseen, hbelow⟩, by
      rwa [append_cons] at hlink⟩
  refine ⟨(hentry.trans hlater hready.apart).mono fun below hplace => hplace.elim id id, ?_⟩
  intro hok below hplace hbelow
  obtain ⟨deeper, rfl⟩ := hplace
  have hsame := hentry.source_eq hready.apart (deeper ++ [name])
  by_cases hnil : deeper = []
  · subst hnil
    have hkept : item after (name :: target) = some .directory := by
      have hsame : item after ([] ++ name :: target) = item created ([] ++ name :: target) :=
        h.changes.target_eq (by simp)
      exact hsame.trans hself
    refine ⟨fun _ => hkept, fun content hfile => ?_⟩
    rw [show item before ([] ++ [name] ++ source) = item before (name :: source) from rfl, hsource] at hfile
    cases hfile
  · have hcopied := h.copied hok deeper hnil (seen_concat.mp hbelow).2
    unfold Copied at hcopied ⊢
    rwa [append_cons deeper name source, append_cons deeper name target, hsame] at hcopied

theorem copyEntry_spec {copy : Files → Path → Path → Option CopyResult} {result : Except String Unit}
    (hcopy : CopySpec world copy) (hready : Ready before source target)
    (hseen : world.statError source = false)
    (h : copyEntry world copy source target before name = some (result, after)) :
    Copies world source target (fun below => [name] <:+ below) before result after := by
  unfold copyEntry at h
  split at h
  · cases h
    exact Copies.failed (Changes.refl before)
  · split_ifs at h with hdirectory
    · split at h
      · cases h
        exact Copies.failed (Changes.refl before)
      · split at h
        · cases h
          exact Copies.failed (Changes.refl before)
        · rename_i created hcreated
          obtain ⟨hentry, hsub⟩ := created_entry hready hseen hdirectory hcreated
          exact descend_spec hready hseen hdirectory hentry hsub.directory (hcopy _ _ _ _ _ hsub h)
    · exact copy_spec hready hseen hdirectory (Option.some.inj h)

theorem copyEntries_spec {copy : Files → Path → Path → Option CopyResult} {result : Except String Unit}
    (hcopy : CopySpec world copy) (hseen : world.statError source = false) {names : List String}
    (hnodup : names.Nodup) (hready : Ready before source target)
    (h : copyEntries world source (copyEntry world copy source target) names before = some (result, after)) :
    Copies world source target (fun below => ∃ name ∈ names, [name] <:+ below) before result after := by
  induction names generalizing before with
  | nil =>
      unfold copyEntries at h
      split at h
      · cases h
        exact Copies.failed (Changes.refl _)
      · cases h
        exact ⟨Changes.refl _, fun _ below ⟨_, hnone, _⟩ => absurd hnone List.not_mem_nil⟩
  | cons name names ih =>
      have hwiden : ∀ {mid}, Changes world source target (fun below => [name] <:+ below) before mid →
          Changes world source target (fun below => ∃ other ∈ name :: names, [other] <:+ below) before mid :=
        fun hchanges => hchanges.mono fun below hplace => ⟨name, List.mem_cons_self, hplace⟩
      unfold copyEntries at h
      split at h
      · cases h
      · rename_i error mid hentry
        cases h
        exact Copies.failed (hwiden (copyEntry_spec hcopy hready hseen hentry).changes)
      · rename_i mid hentry
        have hfirst := copyEntry_spec hcopy hready hseen hentry
        have hrest := ih (List.nodup_cons.mp hnodup).2 (hfirst.changes.ready hready (by simp)) h
        refine ⟨(hfirst.changes.trans hrest.changes hready.apart).mono ?_, ?_⟩
        · rintro below (hplace | ⟨other, hother, hplace⟩)
          · exact ⟨name, List.mem_cons_self, hplace⟩
          · exact ⟨other, List.mem_cons_of_mem name hother, hplace⟩
        · rintro hok below ⟨other, hother, hplace⟩ hbelow
          rcases List.mem_cons.mp hother with rfl | hlater
          · -- the later turns leave what this one has copied alone
            have hnot : ¬∃ later ∈ names, [later] <:+ below := by
              rintro ⟨later, hlater, hplace'⟩
              obtain ⟨front, hfront⟩ := hplace
              obtain ⟨front', hfront'⟩ := hplace'
              have hlast := List.append_inj_right' (hfront.trans hfront'.symm) rfl
              rw [List.singleton_inj] at hlast
              exact (List.nodup_cons.mp hnodup).1 (hlast ▸ hlater)
            have hkept := hrest.changes.target_eq hnot
            unfold Copied
            rw [hkept]
            exact hfirst.copied rfl below hplace hbelow
          · have hsame := hfirst.changes.source_eq hready.apart below
            have hcopied := hrest.copied hok below ⟨other, hlater, hplace⟩ hbelow
            unfold Copied at hcopied ⊢
            rwa [hsame] at hcopied

theorem copyDirectory_spec (world : CopyWorld) (fuel : Nat) : CopySpec world (copyDirectory world fuel) := by
  induction fuel with
  | zero =>
      intro before source target result after hready h
      cases h
  | succ fuel ih =>
      intro before source target result after hready h
      unfold copyDirectory at h
      by_cases hexists : world.exists_ before source = true
      · have hseen : world.statError source = false := by
          unfold CopyWorld.exists_ at hexists
          simpa using (Bool.and_eq_true_iff.mp hexists).1
        rw [hexists, if_neg (by simp)] at h
        split at h
        · cases h
          exact Copies.failed (Changes.refl _)
        · have hnodup : (world.order source (children before source)).Nodup :=
            (world.perm source _).nodup_iff.mpr (children_nodup before source)
          have hloop := copyEntries_spec ih hseen hnodup hready h
          refine ⟨hloop.changes.mono ?_, ?_⟩
          · rintro below ⟨name, -, hplace⟩ rfl
            simp at hplace
          · intro hok below hne hbelow
            by_cases hitem : item before (below ++ source) = none
            · unfold Copied
              rw [hitem]
              simp
            · obtain ⟨deeper, name, rfl⟩ := (List.eq_nil_or_concat' below).resolve_left hne
              refine hloop.copied hok _ ⟨name, ?_, List.suffix_append _ _⟩ hbelow
              rw [(world.perm source _).mem_iff, mem_children_iff]
              by_cases hnil : deeper = []
              · subst hnil
                exact hitem
              · rw [← append_cons] at hitem
                rw [(hready.rooted.sub name).ancestor hnil hitem]
                simp
      · rw [Bool.not_eq_true] at hexists
        rw [hexists, if_pos (by simp)] at h
        cases h
        refine ⟨Changes.refl _, fun _ below hne hbelow => ?_⟩
        have hstat : world.statError source = false := hbelow [] List.nil_suffix (Ne.symm hne)
        have hitem : item before (below ++ source) = none := by
          by_contra hsome
          have hdirectory := hready.rooted.ancestor hne hsome
          have hfound : found before source = some .directory := by
            rw [found_of_not_link (by rw [hdirectory]; simp), hdirectory]
          rw [CopyWorld.exists_, hstat, hfound] at hexists
          cases hexists
        unfold Copied
        rw [hitem]
        simp

/-! ### Termination -/

theorem copyEntries_returns {copy : Files → Path → Path → Option CopyResult}
    (hcopy : CopySpec world copy) (hseen : world.statError source = false) {names : List String} {depth : Nat}
    (hreturns : ∀ files name, Ready files source target → Within files source (depth + 1) →
      (copyEntry world copy source target files name).isSome)
    (hready : Ready before source target) (hwithin : Within before source (depth + 1)) :
    (copyEntries world source (copyEntry world copy source target) names before).isSome := by
  induction names generalizing before with
  | nil =>
      unfold copyEntries
      split <;> rfl
  | cons name names ih =>
      obtain ⟨⟨result, mid⟩, hentry⟩ := Option.isSome_iff_exists.mp (hreturns before name hready hwithin)
      unfold copyEntries
      rw [hentry]
      cases result with
      | error error => rfl
      | ok _ =>
          have hfirst := copyEntry_spec hcopy hready hseen hentry
          refine ih (hfirst.changes.ready hready (by simp)) fun below hbelow => ?_
          rw [hfirst.changes.source_eq hready.apart] at hbelow
          exact hwithin below hbelow

theorem copyEntry_returns {copy : Files → Path → Path → Option CopyResult} {depth : Nat}
    (hready : Ready before source target) (hwithin : Within before source (depth + 1))
    (hseen : world.statError source = false)
    (hcopy : ∀ created, Ready created (name :: source) (name :: target) →
      Within created (name :: source) depth → (copy created (name :: source) (name :: target)).isSome) :
    (copyEntry world copy source target before name).isSome := by
  unfold copyEntry
  split
  · rfl
  · split_ifs with hdirectory
    · split
      · rfl
      · split
        · rfl
        · rename_i created hcreated
          obtain ⟨hentry, hsub⟩ := created_entry hready hseen hdirectory hcreated
          refine hcopy created hsub fun below hbelow => ?_
          rw [append_cons, hentry.source_eq hready.apart] at hbelow
          have hlength := hwithin (below ++ [name]) hbelow
          rw [List.length_append, List.length_singleton] at hlength
          omega
    · rfl

/-- The recursion goes as deep as the source, whatever links it has. -/
theorem copyDirectory_returns (world : CopyWorld) {fuel depth : Nat} (hfuel : depth < fuel)
    (hready : Ready before source target) (hwithin : Within before source depth) :
    (copyDirectory world fuel before source target).isSome := by
  induction fuel generalizing depth before source target with
  | zero => omega
  | succ fuel ih =>
      unfold copyDirectory
      by_cases hexists : world.exists_ before source = true
      · have hseen : world.statError source = false := by
          unfold CopyWorld.exists_ at hexists
          simpa using (Bool.and_eq_true_iff.mp hexists).1
        rw [hexists, if_neg (by simp)]
        cases world.fails .readDir source with
        | some error => rfl
        | none =>
            cases depth with
            | zero =>
                have hnone : children before source = [] := by
                  rw [List.eq_nil_iff_forall_not_mem]
                  intro name hname
                  exact absurd (hwithin [name] (mem_children_iff.mp hname)) (by simp)
                have hnames : world.order source (children before source) = [] := by
                  have hperm := world.perm source (children before source)
                  rw [hnone] at hperm ⊢
                  exact hperm.eq_nil
                rw [hnames]
                dsimp only
                unfold copyEntries
                split <;> rfl
            | succ depth =>
                refine copyEntries_returns (copyDirectory_spec world fuel) hseen ?_ hready hwithin
                intro files name hready' hwithin'
                exact copyEntry_returns hready' hwithin' hseen fun created hsub hbelow =>
                  ih (by omega) hsub hbelow
      · rw [Bool.not_eq_true] at hexists
        rw [hexists, if_pos (by simp)]
        rfl

end

/-- The destination has the directories and files of the source; its other entries, the source and
everything else are as before. -/
structure Replicates (before after : Files) (source target : Path) : Prop where
  copied : ∀ below, below ≠ [] → Copied before after source target below
  kept : ∀ below, (below = [] ∨ item before (below ++ source) = none) →
    item after (below ++ target) = item before (below ++ target)
  source : ∀ below, item after (below ++ source) = item before (below ++ source)
  outside : ∀ path, ¬target <:+ path → item after path = item before path

/-- A place of the source is seen, or lies below a directory whose existence check fails. -/
theorem seen_or_hidden (world : CopyWorld) (source below : Path) : Seen world source below ∨
    ∃ deeper above, deeper ≠ [] ∧ below = deeper ++ above ∧ world.statError (above ++ source) = true := by
  by_cases hseen : Seen world source below
  · exact .inl hseen
  · right
    unfold Seen at hseen
    push Not at hseen
    obtain ⟨above, ⟨deeper, hdeeper⟩, hne, hstat⟩ := hseen
    refine ⟨deeper, above, ?_, hdeeper.symm, by simpa using hstat⟩
    rintro rfl
    exact hne hdeeper

/-- A copy into a directory without symbolic links, of which no path lies below the source too, comes to an end;
where it succeeds it has copied the whole tree exactly when the destination already had what lies below the
directories whose existence check failed. -/
theorem copy_directory_iff (world : CopyWorld) (tree : Tree) (source target : Path)
    (hapart : Apart source target) (hdirectory : item tree.files target = some .directory)
    (hplain : ∀ below link, item tree.files (below ++ target) ≠ some (.link link)) :
    (∃ bound, ∀ fuel, bound ≤ fuel → (copyDirectory world fuel tree.files source target).isSome) ∧
    ∀ fuel after, copyDirectory world fuel tree.files source target = some (.ok (), after) →
      (Replicates tree.files after source target ↔
        ∀ place, item tree.files (place ++ source) = some .directory →
          world.statError (place ++ source) = true → ∀ below, below ≠ [] →
            Copied tree.files tree.files source target (below ++ place)) := by
  have hready : Ready tree.files source target :=
    ⟨fun name below => tree.rooted name (below ++ source), hapart, hdirectory, hplain⟩
  constructor
  · obtain ⟨depth, hwithin⟩ := exists_within tree.files source
    exact ⟨depth + 1, fun fuel hfuel => copyDirectory_returns world hfuel hready hwithin⟩
  · intro fuel after hreturns
    obtain ⟨hchanges, hcopied⟩ := copyDirectory_spec world fuel _ _ _ _ _ hready hreturns
    have hhidden : ∀ below, ¬Seen world source below →
        item after (below ++ target) = item tree.files (below ++ target) := by
      intro below hnot
      by_contra hne
      obtain ⟨below', -, heq, -, hseen, -⟩ := hchanges _ hne
      exact hnot (List.append_cancel_right heq ▸ hseen)
    constructor
    · intro hreplicates place hplace hstat below hne
      have hnot : ¬Seen world source (below ++ place) := by
        intro hseen
        have hpassed := hseen place (List.suffix_append below place) (by simpa using hne.symm)
        rw [hstat] at hpassed
        cases hpassed
      have hafter := hreplicates.copied (below ++ place) (by simp [hne])
      unfold Copied at hafter ⊢
      rwa [hhidden _ hnot] at hafter
    · intro halready
      refine ⟨fun below hne => ?_, fun below hnothing => ?_, hchanges.source_eq hapart, fun path hpath => ?_⟩
      · rcases seen_or_hidden world source below with hseen | ⟨deeper, above, hdeeper, rfl, hstat⟩
        · exact hcopied rfl below hne hseen
        · by_cases hitem : item tree.files ((deeper ++ above) ++ source) = none
          · unfold Copied
            rw [hitem]
            simp
          · have habove : item tree.files (above ++ source) = some .directory := by
              rw [List.append_assoc] at hitem
              have hrooted : RootedBelow tree.files (above ++ source) := fun name below =>
                tree.rooted name (below ++ (above ++ source))
              exact hrooted.ancestor hdeeper hitem
            have hnot : ¬Seen world source (deeper ++ above) := by
              intro hseen
              have hpassed := hseen above (List.suffix_append deeper above) (by simpa using hdeeper.symm)
              rw [hstat] at hpassed
              cases hpassed
            unfold Copied
            rw [hhidden _ hnot]
            exact halready above habove hstat deeper hdeeper
      · by_contra hne
        obtain ⟨below', hplace, heq, hitem, -⟩ := hchanges _ hne
        obtain rfl := List.append_cancel_right heq
        rcases hnothing with hnil | hnone
        · exact hplace hnil
        · exact hitem hnone
      · by_contra hne
        obtain ⟨below, -, rfl, -⟩ := hchanges _ hne
        exact hpath (List.suffix_append below target)

/-- `movies` has the directory `lib` with the directory `ui` in it, which holds a file; `music` is empty. -/
def scriptFiles : Files :=
  [([], Item.directory), (["movies"], .directory), (["music"], .directory),
    (["lib", "movies"], .directory), (["ui", "lib", "movies"], .directory),
    (["osc.lua", "ui", "lib", "movies"], .file [1])].foldl (fun files entry => write files entry.1 entry.2) ∅

def scriptTree : Tree := ⟨scriptFiles, rooted_of_rooted? (by decide +kernel)⟩

theorem movies_apart_music : Apart ["movies"] ["music"] := by
  intro below below' heq
  have hlast := List.append_inj_right' heq rfl
  exact absurd hlast (by decide)

/-- A file system on which no call fails but the existence checks of these paths. -/
def concealing (hidden : List Path) : CopyWorld where
  order _ names := names
  perm _ names := List.Perm.refl names
  statError path := path ∈ hidden
  fails _ _ := none
  remnant _ := none

theorem copy_directory_iff_scripts : ∃ fuel after,
    copyDirectory (concealing []) fuel scriptFiles ["movies"] ["music"] = some (.ok (), after) ∧
      Replicates scriptFiles after ["movies"] ["music"] := by
  have hcopy := copy_directory_iff (concealing []) scriptTree ["movies"] ["music"] movies_apart_music
    (by decide +kernel) (fun _ => item_ne_link (by decide +kernel) _)
  have hok : (copyDirectory (concealing []) 4 scriptFiles ["movies"] ["music"]).any
      (fun result => result.1.isOk) = true := by decide +kernel
  obtain ⟨⟨result, after⟩, hreturns, hresult⟩ := (Option.any_eq_true ..).mp hok
  cases result with
  | error error => cases hresult
  | ok _ =>
      exact ⟨4, after, hreturns, (hcopy.2 4 after hreturns).mpr fun _ _ hstat => by
        simp [concealing] at hstat⟩

/-- `lib` may be read but not searched, so that `ui` is listed and its existence check fails: the copy succeeds
without the file in it. -/
theorem unsearchable_not_replicated : ∃ fuel after,
    copyDirectory (concealing [["ui", "lib", "movies"]]) fuel scriptFiles ["movies"] ["music"] =
      some (.ok (), after) ∧ ¬Replicates scriptFiles after ["movies"] ["music"] := by
  have hok : (copyDirectory (concealing [["ui", "lib", "movies"]]) 4 scriptFiles ["movies"] ["music"]).any
      (fun result => result.1.isOk && item result.2 ["osc.lua", "ui", "lib", "music"] == none) = true := by
    decide +kernel
  obtain ⟨⟨result, after⟩, hreturns, hresult⟩ := (Option.any_eq_true ..).mp hok
  rw [Bool.and_eq_true, beq_iff_eq] at hresult
  cases result with
  | error error => cases hresult.1
  | ok _ =>
      refine ⟨4, after, hreturns, fun hreplicates => ?_⟩
      have hfile : item scriptFiles ["osc.lua", "ui", "lib", "movies"] = some (.file [1]) := by decide +kernel
      have hcopied := (hreplicates.copied ["osc.lua", "ui", "lib"] (by simp)).2 [1] hfile
      rw [show ["osc.lua", "ui", "lib"] ++ ["music"] = ["osc.lua", "ui", "lib", "music"] from rfl,
        hresult.2] at hcopied
      cases hcopied

end MpvTargets
