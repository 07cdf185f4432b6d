import MpvTargets.SupervisorSystem

/-! Explicit runs. The labels of a run, accepted one after another, give the run; the configurations
that occur in it are printed and read back by a table. -/

namespace MpvTargets

def quoted (text : String) : String := "\"" ++ text ++ "\""

def TargetConfig.toText (target : TargetConfig) : String :=
  "\n[[targets]]\nname = " ++ quoted target.name ++ "\ndisabled = " ++
    (if target.disabled then "true" else "false") ++ "\n" ++
    target.channel.elim "" fun channel => "channel = " ++ quoted channel ++ "\n"

/-- The text `toml::to_string_pretty` gives a configuration with at least one target whose strings need
no escapes. -/
def DaemonConfig.toText (config : DaemonConfig) : String :=
  "[node]\nid = " ++ quoted config.node.id ++ "\nlisten = " ++ quoted config.node.listen ++
    "\n\n[tls]\ncertificate = " ++ quoted config.tls.certificate ++
    "\nprivate_key = " ++ quoted config.tls.privateKey ++ "\n" ++
    String.join (config.targets.map TargetConfig.toText)

theorem DaemonConfig.head?_toText (config : DaemonConfig) : config.toText.toList.head? = some '[' := by
  have happend : ∀ {left : String} (right : String), left.toList.head? = some '[' →
      (left ++ right).toList.head? = some '[' := by
    intro left right hleft
    rw [String.toList_append, List.head?_append, hleft, Option.some_or]
  unfold DaemonConfig.toText
  iterate 9 refine happend _ ?_
  decide +kernel

/-- The `toml` crate on the configurations of a table. -/
def Toml.ofTable (configs : List DaemonConfig) : Toml where
  toStringPretty config := if config ∈ configs then some config.toText else none
  fromStr text := configs.find? fun config => config.toText = text

theorem Toml.ofTable_parsesBack {configs : List DaemonConfig}
    (hnodup : (configs.map DaemonConfig.toText).Nodup) : (Toml.ofTable configs).ParsesBack := by
  intro config text hprinted
  simp only [Toml.ofTable, Option.ite_none_right_eq_some, Option.some.injEq] at hprinted
  obtain ⟨hmem, rfl⟩ := hprinted
  have hfound : (configs.find? fun other => other.toText = config.toText).isSome = true := by
    rw [List.find?_isSome]
    exact ⟨config, hmem, by simp⟩
  obtain ⟨found, hfound⟩ := Option.isSome_iff_exists.mp hfound
  have htext : found.toText = config.toText := by simpa using List.find?_some hfound
  have heq := List.inj_on_of_nodup_map hnodup (List.mem_of_find?_eq_some hfound) hmem htext
  change (configs.find? fun other => other.toText = config.toText) = some config
  rw [hfound, heq]

/-- The letters of a word, each after a mark, and a mark at its end. -/
def marked (word : List Char) : List Char := word.flatMap (fun letter => ['1', letter]) ++ ['0']

def unmarked : List Char → List (List Char)
  | '0' :: rest => [] :: unmarked rest
  | '1' :: letter :: rest =>
      match unmarked rest with
      | [] => []
      | word :: words => (letter :: word) :: words
  | _ => []

theorem unmarked_marked (words : List (List Char)) : unmarked (words.flatMap marked) = words := by
  induction words with
  | nil => rfl
  | cons word words ih =>
      induction word with
      | nil => exact congrArg (List.cons []) ih
      | cons letter word ihword =>
          rw [List.flatMap_cons] at ihword ⊢
          change (match unmarked (marked word ++ words.flatMap marked) with
            | [] => []
            | word :: words => (letter :: word) :: words) = _
          rw [ihword]

/-- What a target's entry says, word by word; the word of a channel begins with a mark. -/
def TargetConfig.words (target : TargetConfig) : List (List Char) :=
  [target.name.toList, if target.disabled then ['d'] else [],
    target.channel.elim [] fun channel => '=' :: channel.toList]

def readTargets : List (List Char) → Option (List TargetConfig)
  | name :: disabled :: channel :: rest => do
      let targets ← readTargets rest
      return ⟨String.ofList name, !disabled.isEmpty, channel.tail?.map String.ofList⟩ :: targets
  | [] => some []
  | _ => none

theorem readTargets_words (targets : List TargetConfig) :
    readTargets (targets.flatMap TargetConfig.words) = some targets := by
  induction targets with
  | nil => rfl
  | cons target targets ih =>
      rcases target with ⟨name, disabled, channel⟩
      change (do
        let targets ← readTargets (targets.flatMap TargetConfig.words)
        return _ :: targets) = _
      rw [ih]
      cases disabled <;> cases channel <;> simp [String.ofList_toList]

def DaemonConfig.words (config : DaemonConfig) : List (List Char) :=
  config.node.id.toList :: config.node.listen.toList :: config.tls.certificate.toList ::
    config.tls.privateKey.toList :: config.targets.flatMap TargetConfig.words

def readConfig : List (List Char) → Option DaemonConfig
  | id :: listen :: certificate :: privateKey :: rest => do
      let targets ← readTargets rest
      return ⟨⟨String.ofList id, String.ofList listen⟩,
        ⟨String.ofList certificate, String.ofList privateKey⟩, targets⟩
  | _ => none

theorem readConfig_words (config : DaemonConfig) : readConfig config.words = some config := by
  simp [DaemonConfig.words, readConfig, readTargets_words]

/-- The `toml` crate on the configurations of a table; every other one is printed word by word. -/
def Toml.withTable (configs : List DaemonConfig) : Toml where
  toStringPretty config :=
    some (if config ∈ configs then config.toText else String.ofList (config.words.flatMap marked))
  fromStr text :=
    (configs.find? fun config => config.toText = text).or (readConfig (unmarked text.toList))

theorem Toml.withTable_prints (configs : List DaemonConfig) : (Toml.withTable configs).Prints :=
  fun _ => rfl

theorem Toml.withTable_parsesBack {configs : List DaemonConfig}
    (hnodup : (configs.map DaemonConfig.toText).Nodup) : (Toml.withTable configs).ParsesBack := by
  intro config text hprinted
  obtain rfl := Option.some.inj hprinted
  by_cases hmem : config ∈ configs
  · rw [if_pos hmem]
    have hfound : (configs.find? fun other => other.toText = config.toText) = some config :=
      Toml.ofTable_parsesBack hnodup config config.toText (if_pos hmem)
    change Option.or _ _ = _
    rw [hfound, Option.some_or]
  · rw [if_neg hmem]
    have hnone : (configs.find? fun other =>
        other.toText = String.ofList (config.words.flatMap marked)) = none := by
      refine List.find?_eq_none.mpr fun other _ htext => ?_
      have hchars := congrArg String.toList (decide_eq_true_iff.mp htext)
      rw [String.toList_ofList] at hchars
      have hhead := other.head?_toText
      rw [hchars] at hhead
      cases hid : config.node.id.toList <;>
        simp [DaemonConfig.words, marked, hid] at hhead
    change Option.or _ (readConfig (unmarked _)) = _
    rw [hnone, Option.none_or, String.toList_ofList, unmarked_marked, readConfig_words]

/-- A node with these targets. -/
def nodeWith (targets : List TargetConfig) : DaemonConfig where
  node := ⟨"den", "127.0.0.1:9876"⟩
  tls := ⟨"tls/server.crt", "tls/server.key"⟩
  targets := targets

/-- The node with the one target `tv`, enabled. -/
def tvNode : DaemonConfig := nodeWith [⟨"tv", false, none⟩]

/-- The node with the one target `tv`, disabled. -/
def tvDisabledNode : DaemonConfig := nodeWith [⟨"tv", true, none⟩]

def tvToml : Toml := .ofTable [tvNode, tvDisabledNode]

theorem tvToml_parsesBack : tvToml.ParsesBack := Toml.ofTable_parsesBack (by decide +kernel)

theorem tvNode_parse : DaemonConfig.parse tvToml tvNode.toText = .ok tvNode := by decide +kernel

/-- Whether the operation has returned, and without an error. -/
def Pc.returned? : Pc → Option Bool
  | .done (.ok _) => some true
  | .done (.error _) => some false
  | _ => none

theorem Pc.done_of_returned? {pc : Pc} {ok : Bool} (h : pc.returned? = some ok) :
    ∃ result, pc = .done result ∧ result.isOk = ok := by
  cases pc with
  | done result => cases result <;> exact ⟨_, rfl, Option.some.inj h⟩
  | _ => cases h

/-- Labels accepted one after another, each by a state that passes the check, are the labels of a run. -/
theorem System.exists_run {toml : Toml} {config : DaemonConfig} {file : String}
    {labels : List Label} {check : System → Label → Bool} {result : System → Bool}
    (h : (runChecked (System.step toml) check (System.initial config file) labels).any result = true) :
    ∃ history s, System.Run toml config file history s ∧ history.map Prod.snd = labels ∧
      (∀ entry ∈ history, check entry.1 entry.2 = true) ∧ result s = true := by
  cases hrun : runChecked (System.step toml) check (System.initial config file) labels with
  | none =>
      rw [hrun] at h
      cases h
  | some s =>
      rw [hrun] at h
      obtain ⟨history, htrace, hlabels, hchecks⟩ := exists_trace_of_runChecked hrun
      exact ⟨history, s, htrace, hlabels, hchecks, h⟩

/-- The start of `tv` when its mpv already runs: it is marked online and clients are served. The
observer is task 1. -/
def startAttached : List Label := List.replicate 5 (.task 0 .ok)

/-- mpv reports its `mute` property. -/
def muteLine (muted : Bool) : External :=
  .line (some (.object [
    ("event", .string "property-change"), ("name", .string "mute"), ("data", .bool muted)]))

/-- A call that fails. -/
def unavailable : External := .failed (.ipcUnavailable "tv")

/-- A `stop` of the running `tv` from its first step to its end, as task 2. -/
def stopRunning : List Label := .request (.stop "tv") :: List.replicate 6 (.task 2 .ok)

/-- The running `tv` is stopped, and its next `start`, task 3, is about to spawn mpv. -/
def relaunching : List Label :=
  startAttached ++ stopRunning ++ [.request (.start "tv"), .task 3 .ok, .task 3 .ok, .task 3 unavailable]

/-- The mpv of `tv` exits: its observer loses the target and spawns a recovery loop, task 2. -/
def lost : List Label := startAttached ++ .task 1 unavailable :: List.replicate 2 (.task 1 .ok)

end MpvTargets
