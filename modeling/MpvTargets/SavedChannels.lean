import MpvTargets.Library.LineFormat
import MpvTargets.SupervisorState

/-! Saved channels. The playlist that mpv reports is written as M3U, one filename a line; whoever reads it
skips blank lines and the lines that begin with `#`. -/

namespace MpvTargets

/-- The filename of a playlist entry. -/
def Value.filename? (entry : Value) : Option String := (entry.get "filename").bind Value.asStr

/-- The filename of an entry, when it fits on one line. -/
def playlistFilename (entry : Value) : Option String :=
  entry.filename?.filter fun filename =>
    !(filename.toList.contains '\n' || filename.toList.contains '\r')

/-- The loop of `playlist_m3u`. -/
def playlistContents (contents : String) : List Value → Except SupervisorError String
  | [] => .ok contents
  | entry :: rest =>
      match playlistFilename entry with
      | none => .error .invalidPlaylist
      | some filename => playlistContents (contents ++ filename ++ "\n") rest

def playlistM3u (playlist : Value) : Except SupervisorError (String × Nat) :=
  match playlist.asArray with
  | none => .error .invalidPlaylist
  | some entries => (playlistContents "#EXTM3U\n" entries).map fun contents => (contents, entries.length)

def isLineBreak (char : Char) : Bool := char == '\n' || char == '\r'

/-- Blank lines, and the ones that begin with `#`. -/
def m3uSkips (line : List Char) : Bool := line.all Char.isWhitespace || line.head? == some '#'

def m3uEntries (text : String) : List String :=
  (readLines isLineBreak m3uSkips text.toList).map String.ofList

/-- The filenames of a playlist, one an entry. -/
def Value.filenames? (playlist : Value) : Option (List String) :=
  playlist.asArray.bind fun entries => entries.mapM Value.filename?

def fitsOnLine (filename : String) : Bool := filename.toList.all fun char => !isLineBreak char

theorem playlistFilename_eq_some_iff {entry : Value} {filename : String} :
    playlistFilename entry = some filename ↔
      entry.filename? = some filename ∧ fitsOnLine filename = true := by
  have hfits : (!(filename.toList.contains '\n' || filename.toList.contains '\r')) = fitsOnLine filename := by
    rw [fitsOnLine, Bool.eq_iff_iff, List.all_eq_true]
    simp only [isLineBreak, Bool.not_eq_true', Bool.or_eq_false_iff, List.contains_eq_mem,
      decide_eq_false_iff_not, beq_eq_false_iff_ne]
    constructor
    · rintro ⟨hnewline, hreturn⟩ char hchar
      exact ⟨fun heq => hnewline (heq ▸ hchar), fun heq => hreturn (heq ▸ hchar)⟩
    · intro hall
      exact ⟨fun hmem => (hall _ hmem).1 rfl, fun hmem => (hall _ hmem).2 rfl⟩
  rw [playlistFilename, Option.filter_eq_some_iff, hfits]

/-- The loop accepts the entries whose filenames fit on lines, and appends these. -/
theorem playlistContents_ok_iff {entries : List Value} {contents text : String} :
    playlistContents contents entries = .ok text ↔ ∃ filenames,
      entries.mapM Value.filename? = some filenames ∧
      (∀ filename ∈ filenames, fitsOnLine filename = true) ∧
      text.toList = contents.toList ++ writeLines '\n' (filenames.map String.toList) := by
  induction entries generalizing contents with
  | nil =>
      simp only [playlistContents, Except.ok.injEq, List.mapM_nil, Option.pure_def, Option.some.injEq]
      constructor
      · rintro rfl
        exact ⟨[], rfl, by simp, by simp [writeLines]⟩
      · rintro ⟨filenames, rfl, _, htext⟩
        exact String.toList_inj.mp (by simpa [writeLines] using htext.symm)
  | cons entry rest ih =>
      have hcons : ∀ (filename : String) (filenames : List String),
          (contents ++ filename ++ "\n").toList ++ writeLines '\n' (filenames.map String.toList) =
            contents.toList ++ writeLines '\n' ((filename :: filenames).map String.toList) := by
        intro filename filenames
        simp [writeLines]
      rw [playlistContents]
      simp only [List.mapM_cons, Option.pure_def, Option.bind_eq_bind, Option.bind_eq_some_iff,
        Option.some.injEq]
      constructor
      · intro h
        split at h
        · cases h
        · rename_i filename hfilename
          obtain ⟨hname, hfits⟩ := playlistFilename_eq_some_iff.mp hfilename
          obtain ⟨filenames, hrest, hall, htext⟩ := ih.mp h
          refine ⟨filename :: filenames, ⟨filename, hname, filenames, hrest, rfl⟩, ?_, ?_⟩
          · exact List.forall_mem_cons.mpr ⟨hfits, hall⟩
          · rw [htext, hcons]
      · rintro ⟨_, ⟨filename, hname, filenames, hrest, rfl⟩, hall, htext⟩
        obtain ⟨hfits, hall⟩ := List.forall_mem_cons.mp hall
        rw [playlistFilename_eq_some_iff.mpr ⟨hname, hfits⟩]
        exact ih.mpr ⟨filenames, hrest, hall, by rw [htext, hcons]⟩

theorem filenames_length {entries : List Value} {filenames : List String}
    (h : entries.mapM Value.filename? = some filenames) : filenames.length = entries.length := by
  induction entries generalizing filenames with
  | nil =>
      cases h
      rfl
  | cons entry rest ih =>
      simp only [List.mapM_cons, Option.pure_def, Option.bind_eq_bind, Option.bind_eq_some_iff,
        Option.some.injEq] at h
      obtain ⟨_, _, filenames, hrest, rfl⟩ := h
      rw [List.length_cons, List.length_cons, ih hrest]

/-- Exactly the playlists whose filenames fit on lines are accepted, and their lines are the filenames. -/
theorem playlistM3u_ok_iff {playlist : Value} {text : String} {items : Nat} :
    playlistM3u playlist = .ok (text, items) ↔ ∃ filenames, playlist.filenames? = some filenames ∧
      (∀ filename ∈ filenames, fitsOnLine filename = true) ∧ items = filenames.length ∧
      text.toList = writeLines '\n' (("#EXTM3U" :: filenames).map String.toList) := by
  have hheader : ∀ filenames : List String,
      "#EXTM3U\n".toList ++ writeLines '\n' (filenames.map String.toList) =
        writeLines '\n' (("#EXTM3U" :: filenames).map String.toList) := by
    intro filenames
    rw [writeLines, List.map_cons, writeLines, List.flatMap_cons]
    rfl
  unfold playlistM3u Value.filenames?
  cases playlist.asArray with
  | none => simp
  | some entries =>
      simp only [Option.bind_some]
      constructor
      · intro h
        cases hcontents : playlistContents "#EXTM3U\n" entries with
        | error error =>
            rw [hcontents] at h
            cases h
        | ok contents =>
            rw [hcontents] at h
            cases h
            obtain ⟨filenames, hnames, hall, htext⟩ := playlistContents_ok_iff.mp hcontents
            exact ⟨filenames, hnames, hall, (filenames_length hnames).symm, htext.trans (hheader filenames)⟩
      · rintro ⟨filenames, hnames, hall, rfl, htext⟩
        rw [playlistContents_ok_iff.mpr ⟨filenames, hnames, hall, htext.trans (hheader filenames).symm⟩,
          filenames_length hnames]
        rfl

/-- The filenames a line of an M3U file can stand for. -/
def Representable (filename : String) : Prop :=
  fitsOnLine filename = true ∧ m3uSkips filename.toList = false

/-- What is written is read back, with as many entries as the reply says, and what is accepted are the
playlists that can be represented. -/
structure RoundTrips (playlist : Value) : Prop where
  reads : ∀ text items, playlistM3u playlist = .ok (text, items) →
    playlist.filenames? = some (m3uEntries text) ∧ items = (m3uEntries text).length
  accepts : (∃ written, playlistM3u playlist = .ok written) ↔
    ∃ filenames, playlist.filenames? = some filenames ∧ ∀ filename ∈ filenames, Representable filename

theorem isLineBreak_of_fitsOnLine {filename : String} (h : fitsOnLine filename = true) :
    ∀ char ∈ filename.toList, isLineBreak char = false := by
  simpa [fitsOnLine] using h

theorem m3uEntries_of_lines {text : String} {filenames : List String}
    (htext : text.toList = writeLines '\n' (("#EXTM3U" :: filenames).map String.toList))
    (hfits : ∀ filename ∈ filenames, fitsOnLine filename = true) :
    m3uEntries text = filenames.filter fun filename => !m3uSkips filename.toList := by
  have hlines : ∀ line ∈ ("#EXTM3U" :: filenames).map String.toList, ∀ char ∈ line,
      isLineBreak char = false := by
    intro line hline
    obtain ⟨filename, hfilename, rfl⟩ := List.mem_map.mp hline
    rcases List.mem_cons.mp hfilename with rfl | hfilename
    · have hheader : ("#EXTM3U".toList.all fun char => !isLineBreak char) = true := by decide +kernel
      intro char hchar
      rw [← Bool.not_eq_true']
      exact List.all_eq_true.mp hheader char hchar
    · exact isLineBreak_of_fitsOnLine (hfits filename hfilename)
  have hheader : (!m3uSkips "#EXTM3U".toList) = false := by decide +kernel
  have hback : String.ofList ∘ String.toList = id := by
    funext filename
    exact String.ofList_toList
  calc m3uEntries text
      = ((("#EXTM3U" :: filenames).map String.toList).filter fun line => !m3uSkips line).map String.ofList := by
        rw [m3uEntries, htext, readLines_writeLines rfl hlines rfl]
    _ = ((filenames.filter fun filename => !m3uSkips filename.toList).map String.toList).map String.ofList := by
        rw [List.map_cons, List.filter_cons_of_neg (by rw [hheader]; exact Bool.false_ne_true), List.filter_map]
        rfl
    _ = filenames.filter fun filename => !m3uSkips filename.toList := by rw [List.map_map, hback, List.map_id]

/-- A playlist makes the round trip exactly when none of its filenames that fit on lines is one that readers
skip. -/
theorem saved_channel_round_trips_iff (playlist : Value) : RoundTrips playlist ↔
    ∀ filenames, playlist.filenames? = some filenames →
      (∀ filename ∈ filenames, fitsOnLine filename = true) →
      ∀ filename ∈ filenames, m3uSkips filename.toList = false := by
  have hkept : ∀ filenames : List String,
      (filenames.filter fun filename => !m3uSkips filename.toList) = filenames ↔
      ∀ filename ∈ filenames, m3uSkips filename.toList = false := by
    simp [List.filter_eq_self]
  constructor
  · intro h filenames hnames hfits
    obtain ⟨text, htext⟩ : ∃ text : String, text.toList =
        writeLines '\n' (("#EXTM3U" :: filenames).map String.toList) := ⟨String.ofList _, String.toList_ofList⟩
    have hread := (h.reads text filenames.length
      (playlistM3u_ok_iff.mpr ⟨filenames, hnames, hfits, rfl, htext⟩)).1
    rw [hnames, m3uEntries_of_lines htext hfits, Option.some.injEq] at hread
    exact (hkept filenames).mp hread.symm
  · intro h
    refine ⟨fun text items hwritten => ?_, fun hwritten => ?_, fun hnames => ?_⟩
    · obtain ⟨filenames, hnames, hfits, rfl, htext⟩ := playlistM3u_ok_iff.mp hwritten
      have hread : m3uEntries text = filenames :=
        (m3uEntries_of_lines htext hfits).trans ((hkept filenames).mpr (h filenames hnames hfits))
      rw [hread]
      exact ⟨hnames, rfl⟩
    · obtain ⟨⟨text, items⟩, hwritten⟩ := hwritten
      obtain ⟨filenames, hnames, hfits, _, _⟩ := playlistM3u_ok_iff.mp hwritten
      exact ⟨filenames, hnames, fun filename hfilename =>
        ⟨hfits filename hfilename, h filenames hnames hfits filename hfilename⟩⟩
    · obtain ⟨filenames, hnames, hrepresentable⟩ := hnames
      exact ⟨_, playlistM3u_ok_iff.mpr ⟨filenames, hnames,
        fun filename hfilename => (hrepresentable filename hfilename).1, rfl, String.toList_ofList⟩⟩

/-- An entry named like a comment is written, and not read back. -/
theorem saved_channel_loses_comments :
    ¬RoundTrips (.array [.object [("filename", .string "#1.mp4")]]) := by
  intro h
  have hread := (h.reads "#EXTM3U\n#1.mp4\n" 1 (by decide +kernel)).1
  exact absurd hread (by decide +kernel)

/-- The playlist of the repository's own test comes back in its order. -/
example : playlistM3u (.array [.object [("filename", .string "https://example.test/two")],
    .object [("current", .bool true), ("filename", .string "/media/one.mp4")]]) =
      .ok ("#EXTM3U\nhttps://example.test/two\n/media/one.mp4\n", 2) := by
  decide +kernel

end MpvTargets
