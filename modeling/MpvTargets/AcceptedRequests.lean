import MpvTargets.Dispatch
import MpvTargets.Locality

/-! The checks of the wire protocol and those of the configuration. What `Request::validate` lets through
leads every operation to candidates that `DaemonConfig::validate` accepts. -/

namespace MpvTargets

/-- The operation of a request that passed its checks. -/
def Request.Accepted (request : Request) : Prop :=
  ∃ wire : Protocol.Request, wire.validate = .ok () ∧
    Protocol.dispatchOperation wire = .operation request

/-- Clients' requests come through `dispatch_request`. -/
def Label.Accepted : Label → Prop
  | .request operation => operation.Accepted
  | _ => True

def ConfigChange.Vetted : ConfigChange → Prop
  | setChannel (some channel) => validChannel channel = true
  | _ => True

/-- The names and channels an operation brings into the configuration are in order. -/
def Pc.Vetted : Pc → Prop
  | persistLock _ change | persist _ change => change.Vetted
  | addLock name _ _ | addCheck name _ _ => validateTargetName name = .ok ()
  | addPrepare target | addCandidate target | addPersist target _ | addCommit target _ =>
      target.check = .ok ()
  | renameLock _ replacement | renameCheck _ replacement | renameMove _ replacement
  | renameCandidate _ replacement | renamePersist _ replacement _ =>
      validateTargetName replacement = .ok ()
  | _ => True

section

variable {toml : Toml} {view : View} {external : External} {inner : Inner} {name : String}

/-- An accepted request names a target, unless it lists the channels of the node. -/
theorem Protocol.Request.target_of_validate {wire : Protocol.Request} (h : wire.validate = .ok ()) :
    wire.operation.validate = .ok () ∧
      ((∃ target, wire.target = some target ∧ validateTargetName target = .ok ()) ∨
        wire.target = none ∧ wire.operation = .nodeListChannels) := by
  rcases wire with ⟨id, target, operation⟩
  unfold validate at h
  split_ifs at h
  dsimp only at h
  split at h
  · exact ⟨h, Or.inr ⟨rfl, rfl⟩⟩
  · cases h
  · split at h
    · cases h
    · exact ⟨h, Or.inl ⟨_, rfl, by assumption⟩⟩
  · cases h

/-- No expectation of the dispatch fails. -/
theorem Protocol.dispatchOperation_ne_panicked {wire : Protocol.Request} (h : wire.validate = .ok ()) :
    dispatchOperation wire ≠ .panicked := by
  obtain ⟨_, ⟨target, htarget, _⟩ | ⟨_, hoperation⟩⟩ := Protocol.Request.target_of_validate h
  · unfold dispatchOperation
    split <;> simp [Request.expectTarget, htarget]
  · simp [dispatchOperation, hoperation]

theorem Protocol.vetted_of_dispatch {wire : Request} {request : MpvTargets.Request} {target : String}
    (hoperation : wire.operation.validate = .ok ()) (htarget : wire.target = some target)
    (hname : validateTargetName target = .ok ()) (h : dispatchOperation wire = .operation request) :
    request.task.pc.Vetted := by
  rcases wire with ⟨id, target, operation⟩
  subst htarget
  cases operation with
  | targetAdd source enable startPaused startMuted =>
      cases h
      exact hname
  | targetRename replacement =>
      cases h
      change validateTargetName replacement = .ok ()
      cases hreplacement : validateTargetName replacement with
      | ok => rfl
      | error error => simp [Operation.validate, hreplacement] at hoperation
  | targetSetChannel channel restart =>
      cases h
      cases channel with
      | none => trivial
      | some channel =>
          change validChannel channel = true
          by_contra hchannel
          simp [Operation.validate, hchannel] at hoperation
  | nodeListChannels => cases h
  | _ =>
      cases h
      trivial

theorem Request.Accepted.vetted {request : Request} (h : request.Accepted) : request.task.pc.Vetted := by
  obtain ⟨wire, hvalid, hdispatch⟩ := h
  obtain ⟨hoperation, ⟨target, htarget, hname⟩ | ⟨_, hlist⟩⟩ :=
    Protocol.Request.target_of_validate hvalid
  · exact Protocol.vetted_of_dispatch hoperation htarget hname hdispatch
  · rw [Protocol.dispatchOperation, hlist] at hdispatch
    cases hdispatch

/-- The entry `add` prepares has the new name and the channel of its source. -/
theorem addChecked_check (hagrees : inner.Agrees) {source : Option String} {enable : Bool}
    {target : TargetConfig} (h : addChecked inner name source enable = .ok target)
    (hname : validateTargetName name = .ok ()) : target.check = .ok () := by
  unfold addChecked at h
  split at h
  · cases h
  · split at h
    · cases h
      rw [TargetConfig.check, hname]
      rfl
    · rename_i source
      split at h
      · cases h
      · rename_i found hfound
        cases h
        have hentry := hagrees.target?_of_get? hfound
        have hcheck := DaemonConfig.check_of_validate hagrees.valid _ (DaemonConfig.mem_of_target? hentry)
        unfold TargetConfig.check at hcheck ⊢
        split at hcheck
        · cases hcheck
        · rw [hname]
          exact hcheck

theorem Pc.Leads.vetted {pc pc' : Pc} (h : pc.Leads toml view external pc') (hvetted : pc.Vetted)
    (hagrees : view.inner.Agrees) : pc'.Vetted := by
  cases h with
  | next hnext =>
      cases hnext with
      | addCheck name source enable target hchecked => exact addChecked_check hagrees hchecked hvetted
      | _ => first | exact hvetted | trivial
  | call hcalls => cases hcalls <;> trivial
  | resume hresumes =>
      cases pc' <;> try trivial
      case persistLock change =>
        obtain rfl : change = .disable := of_decide_eq_true hresumes
        trivial
  | panic => trivial

/-- The tasks of accepted requests stay vetted. -/
theorem System.Run.vetted {config : DaemonConfig} {file : String} {history : List (System × Label)}
    {s : System} (hparses : toml.ParsesBack) (hconfig : DaemonConfig.parse toml file = .ok config)
    (hrun : System.Run toml config file history s) (haccepted : ∀ entry ∈ history, entry.2.Accepted) :
    ∀ task ∈ s.tasks, task.pc.Vetted := by
  induction hrun with
  | refl =>
      intro task htask
      rw [List.mem_singleton.mp htask]
      trivial
  | @tail t u history label hrun hstep ih =>
      have hvetted := ih fun entry hentry => haccepted entry (List.mem_append_left _ hentry)
      have hagrees := (System.Run.configured hparses (validate_of_parse hconfig) hconfig hrun).1.agrees
      rcases System.step_cases hstep with
        ⟨index, external, task, turn, rfl, _, htask, hturn, rfl⟩ | ⟨request, rfl, _, rfl⟩ | ⟨_, _, rfl⟩
      · refine TaskPool.forall_advance ?_ ?_ fun other hother => ?_
        · exact (Task.turn_leads hturn).pc.vetted (hvetted task (List.mem_of_getElem? htask)) hagrees
        · exact fun _ other _ hother => hvetted other (List.mem_of_getElem? hother)
        · rcases Task.turn_spawned hturn hother with ⟨_, rfl⟩ | ⟨_, _, _, _, _, rfl⟩ <;> trivial
      · intro task htask
        rcases List.mem_append.mp htask with hold | hnew
        · exact hvetted task hold
        · rw [List.mem_singleton.mp hnew]
          exact Request.Accepted.vetted
            (haccepted _ (List.mem_append_right _ List.mem_cons_self))
      · exact hvetted

theorem TargetConfig.check_renamed {entry : TargetConfig} {replacement : String}
    (h : entry.check = .ok ()) (hname : validateTargetName replacement = .ok ()) :
    TargetConfig.check { entry with name := replacement } = .ok () := by
  unfold check at h ⊢
  split at h
  · cases h
  · rw [hname]
    exact h

/-- A change of an entry leaves it in order, given the channel it sets. -/
theorem ConfigChange.check_mutate {change : ConfigChange} {entry persisted : TargetConfig} {changed : Value}
    (h : change.mutate entry = some (persisted, changed)) (hentry : entry.check = .ok ())
    (hvetted : change.Vetted) : persisted.check = .ok () := by
  unfold TargetConfig.check at hentry
  split at hentry
  · cases hentry
  · rename_i hname
    cases change with
    | enable =>
        unfold mutate at h
        split_ifs at h
        cases h
        rw [TargetConfig.check, hname]
        exact hentry
    | disable =>
        unfold mutate at h
        split_ifs at h
        cases h
        rw [TargetConfig.check, hname]
        exact hentry
    | setChannel channel =>
        by_cases hsame : entry.channel = channel
        · rw [mutate, if_pos hsame] at h
          cases h
        rw [mutate, if_neg hsame] at h
        cases h
        rw [TargetConfig.check, hname]
        cases channel with
        | none => rfl
        | some channel =>
            change validateChannel channel = .ok ()
            rw [validateChannel]
            exact if_pos hvetted

/-- Every candidate a vetted task writes validates. -/
theorem Pc.Vetted.validate {pc : Pc} (h : pc.Vetted) (hagrees : inner.Agrees) (hprepared : pc.Prepared inner)
    {candidate : DaemonConfig} (hwritten : pc.written? inner = some candidate) :
    candidate.validate = .ok () := by
  cases pc with
  | persist name change =>
      obtain ⟨entry, hentry, hmutated⟩ := Option.bind_eq_some_iff.mp hwritten
      obtain ⟨⟨persisted, changed⟩, hmutate, rfl⟩ := Option.map_eq_some_iff.mp hmutated
      have hname : persisted.name = name :=
        (ConfigChange.mutate_name hmutate).trans (DaemonConfig.name_of_target? hentry)
      have hcheck := DaemonConfig.check_of_validate hagrees.valid entry (DaemonConfig.mem_of_target? hentry)
      rw [DaemonConfig.validate_setEntry hagrees.valid (DaemonConfig.mem_names_iff.mpr ⟨entry, hentry⟩) hname]
      exact ConfigChange.check_mutate hmutate hcheck h
  | addPersist target candidate =>
      obtain ⟨hfresh, rfl⟩ := hprepared
      cases hwritten
      rw [DaemonConfig.validate_push hagrees.valid (mt hagrees.mem_keys_iff.mpr hfresh)]
      exact h
  | removePersist name candidate =>
      obtain rfl := hprepared
      cases hwritten
      exact DaemonConfig.validate_without hagrees.valid
  | renamePersist name replacement candidate =>
      obtain ⟨hname, hfresh, hcandidate⟩ := hprepared
      cases hwritten
      obtain ⟨entry, hentry⟩ := DaemonConfig.mem_names_iff.mp (hagrees.mem_keys_iff.mp hname)
      have hcheck := DaemonConfig.check_of_validate hagrees.valid entry (DaemonConfig.mem_of_target? hentry)
      rw [DaemonConfig.validate_renamed hagrees.valid hentry (mt hagrees.mem_keys_iff.mpr hfresh) hcandidate]
      exact TargetConfig.check_renamed hcheck h
  | _ => cases hwritten

/-- In every state of every run whose requests were accepted: the candidate any operation is about to write
validates, so that the write alone decides, and the dispatch of an accepted request does not panic. -/
theorem accepted_requests_validate {config : DaemonConfig} {file : String}
    {history : List (System × Label)} {s : System} (hparses : toml.ParsesBack)
    (hconfig : DaemonConfig.parse toml file = .ok config) (hrun : System.Run toml config file history s)
    (haccepted : ∀ entry ∈ history, entry.2.Accepted) :
    (∀ task ∈ s.tasks, ∀ candidate, task.pc.written? s.inner = some candidate →
      candidate.validate = .ok () ∧
        ∀ external, validateAndPersist toml external candidate = persistConfig toml external candidate) ∧
    ∀ request : Protocol.Request, request.validate = .ok () →
      Protocol.dispatchOperation request ≠ .panicked := by
  refine ⟨fun task htask candidate hwritten => ?_, fun _ => Protocol.dispatchOperation_ne_panicked⟩
  have hconfigured := (hrun.configured hparses (validate_of_parse hconfig) hconfig).1
  have hvalid := (hrun.vetted hparses hconfig haccepted task htask).validate hconfigured.agrees
    (hconfigured.prepared task htask) hwritten
  refine ⟨hvalid, fun external => ?_⟩
  rw [validateAndPersist, hvalid]

end

/-- A request to set the channel of `tv`. -/
def newsRequest : Protocol.Request where
  id := "1"
  target := some "tv"
  operation := .targetSetChannel (some "/media/news.m3u8") false

/-- `tv` runs, and its channel is about to be set. -/
def settingNews : List Label :=
  startAttached ++ [.request (.setChannel "tv" (some "/media/news.m3u8") false), .task 2 .ok]

theorem settingNews_accepted : ∀ label ∈ settingNews, label.Accepted := by
  intro label hlabel
  rcases List.mem_append.mp hlabel with hstart | hrequest
  · rw [List.eq_of_mem_replicate hstart]
    trivial
  · rcases List.mem_cons.mp hrequest with rfl | hstep
    · exact ⟨newsRequest, by decide +kernel, rfl⟩
    · rw [List.mem_singleton.mp hstep]
      trivial

/-- The write of the new channel. -/
theorem accepted_requests_validate_news : ∃ history s,
    System.Run tvToml tvNode tvNode.toText history s ∧
    (s.tasks.any fun task => (task.pc.written? s.inner).isSome) = true ∧
    (∀ task ∈ s.tasks, ∀ candidate, task.pc.written? s.inner = some candidate →
      candidate.validate = .ok () ∧
        ∀ external, validateAndPersist tvToml external candidate = persistConfig tvToml external candidate) ∧
    ∀ request : Protocol.Request, request.validate = .ok () →
      Protocol.dispatchOperation request ≠ .panicked := by
  have hruns : (runChecked (System.step tvToml) (fun _ _ => true) (System.initial tvNode tvNode.toText)
      settingNews).any (fun s => s.tasks.any fun task => (task.pc.written? s.inner).isSome) = true := by
    decide +kernel
  obtain ⟨history, s, hrun, hlabels, _, hwrites⟩ := System.exists_run hruns
  refine ⟨history, s, hrun, hwrites, accepted_requests_validate tvToml_parsesBack tvNode_parse hrun ?_⟩
  intro entry hentry
  refine settingNews_accepted entry.2 ?_
  rw [← hlabels]
  exact List.mem_map_of_mem hentry

end MpvTargets
