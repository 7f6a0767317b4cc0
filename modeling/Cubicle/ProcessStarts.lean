import Cubicle.ManagerProcesses

/-!
# What a start leaves behind

A start launches the controller first and then writes the record. When something fails in between,
the request is answered with an error and the controller stays.
-/

namespace Cubicle.Manager
open ByteText CStrings RecordFiles JsonText JsonEncoding RpcEnvelope
open Controller (ENOSPC)

/-- Whether the controller of a start runs when the request ends. One that was found ready runs
unless its command has ended; one that did not get ready in time may still be there. -/
def controllerRuns (lingers : Bool) : Launching → Bool
  | .failed _ => lingers
  | .ready exited _ _ => !exited
  | _ => false

def Recorded (reg : Registry) (processId : Bytes) : Prop :=
  ∃ p ∈ processFormat.records reg.processes, p.processId = processId

/-- The controller a request launched runs, and no record says so. -/
def LeftAlone (lingers : Bool) (env : Surroundings) (out : Outcome) : Prop :=
  Effect.launch env.id.text ∈ out.effects ∧ controllerRuns lingers env.launch = true ∧
    ¬ Recorded out.reg env.id.text

/-- No record of the process is read from what its append leaves in the file. -/
def NotRead (env : Surroundings) (p : ProcessRecord) : Prop :=
  ∀ q ∈ processFormat.records (appendProcess [] p (env.append 0)).1, q.processId ≠ env.id.text

/-- Where a start may fail after its checks without leaving anything: before the launch, in a launch
that leaves no process behind, or later if the command has ended by then, up to the append. -/
def FailsClean (lingers : Bool) (env : Surroundings) (plan : StartPlan) : Prop :=
  match env.launch with
  | .pathTooLong | .pathsFailed _ | .historyFailed _ => True
  | .failed _ => lingers = false
  | .ready exited controllerId controlSocket => exited = true ∧
      (buildArgvJson plan.argv = none ∨ (∃ errno, controllerId = .error errno) ∨
        ∃ argvJson id, buildArgvJson plan.argv = some argvJson ∧ controllerId = .ok id ∧
          NotRead env (plan.record env.id exited id controlSocket argvJson))

section
variable {env : Surroundings} {reg : Registry} {p : ProcessRecord}

theorem recorded_append_iff (hfile : Terminated reg.processes)
    (hfresh : ¬ Recorded reg env.id.text) :
    Recorded { reg with processes := (appendProcess reg.processes p (env.append 0)).1 }
      env.id.text ↔ ¬ NotRead env p := by
  have hrecords : processFormat.records (appendProcess reg.processes p (env.append 0)).1 =
      processFormat.records reg.processes ++
        processFormat.records (appendProcess [] p (env.append 0)).1 := by
    rw [appendProcess, appendBounded_fst, Format.records_append (by decide) hfile]
    rfl
  rw [Recorded, hrecords, NotRead]
  constructor
  · rintro ⟨q, hq, hid⟩ hnot
    rcases List.mem_append.mp hq with hq | hq
    · exact hfresh ⟨q, hq, hid⟩
    · exact hnot q hq hid
  · intro hread
    push Not at hread
    obtain ⟨q, hq, hid⟩ := hread
    exact ⟨q, List.mem_append_right _ hq, hid⟩

/-- The whole line of a start is read as its record. -/
theorem not_notRead (hvalid : p.Valid) (hid : p.processId = env.id.text) {file file' : Bytes}
    (h : appendProcess file p (env.append 0) = (file', none)) : ¬ NotRead env p := by
  have hpart : (appendProcess [] p (env.append 0)).1 = lineOf p.fields := by
    have hline := (congrArg Prod.fst h).symm.trans (appendBounded_fst _)
    rw [(appendBounded_ok h).2] at hline
    exact (List.append_cancel_left hline).symm
  have hread : processFormat.records (lineOf p.fields) = [p.kept] :=
    processFormat_reads.records_print p hvalid
  intro hnot
  rw [NotRead, hpart, hread] at hnot
  exact hnot p.kept (List.mem_singleton_self _) (hvalid.parse_cut.2.1.trans hid)

/-- A start that passed its checks fails and leaves nothing exactly at the clean places. -/
theorem launchProcess_fails_clean_iff (host : Host) {c : Connection} {params : Members}
    {plan : StartPlan} (hchecks : startChecks host env reg c params = .ok plan) (lingers : Bool)
    (hfile : Terminated reg.processes) (hfresh : ¬ Recorded reg env.id.text) :
    ((launchProcess host env reg plan).reply.isSuccess = false ∧
      ¬ LeftAlone lingers env (launchProcess host env reg plan) ∧
      ¬ Recorded (launchProcess host env reg plan).reg env.id.text) ↔
    FailsClean lingers env plan := by
  have hsound := (startChecks_sound hchecks).1
  unfold launchProcess FailsClean LeftAlone
  cases hlaunch : env.launch with
  | pathTooLong => simpa [Outcome.only, Reply.refusal, Reply.isSuccess] using hfresh
  | pathsFailed errno => simpa [Outcome.only, Reply.ioFailure, Reply.isSuccess] using hfresh
  | historyFailed errno => simpa [Outcome.only, Reply.ioFailure, Reply.isSuccess] using hfresh
  | failed errno => simp [Reply.isSuccess, controllerRuns, hfresh]
  | ready exited controllerId controlSocket =>
    dsimp only
    cases hargv : buildArgvJson plan.argv with
    | none => simp [Reply.isSuccess, controllerRuns, hfresh]
    | some argvJson =>
      cases controllerId with
      | error errno => simp [Reply.isSuccess, Reply.ioFailure, controllerRuns, hfresh]
      | ok controllerId =>
        obtain ⟨hclean, hlength⟩ := buildArgvJson_bounds hargv
        dsimp only
        set p := plan.record env.id exited controllerId controlSocket argvJson with hp
        have hvalid : p.Valid :=
          hsound.record_valid env.id exited controllerId controlSocket hclean hlength
        have hrecorded := @recorded_append_iff env reg p hfile hfresh
        rcases happend : appendProcess reg.processes p (env.append 0) with ⟨file, _ | errno⟩
        · have hread := not_notRead hvalid rfl happend
          rw [happend] at hrecorded
          simp [hrecorded, hread, ← hp]
        · rw [happend] at hrecorded
          by_cases hread : NotRead env p
          · simp [Reply.isSuccess, Reply.ioFailure, controllerRuns, hrecorded, hread, ← hp]
          · simp [hrecorded, hread, ← hp]

end

/-- A start that is answered with an error leaves no controller alone and no record exactly when its
checks refuse it or it fails at one of the clean places. -/
theorem start_leaves_nothing_iff (host : Host) (env : Surroundings) (lingers : Bool)
    {reg : Registry} (c : Connection) (params : Members) (hfile : Terminated reg.processes)
    (hfresh : ¬ Recorded reg env.id.text)
    (herror : (processStart host env reg c params).reply.isSuccess = false) :
    (¬ LeftAlone lingers env (processStart host env reg c params) ∧
      ¬ Recorded (processStart host env reg c params).reg env.id.text) ↔
    ∀ plan, startChecks host env reg c params = .ok plan → FailsClean lingers env plan := by
  unfold processStart at herror ⊢
  cases hchecks : startChecks host env reg c params with
  | error r => simpa [LeftAlone, guarded, Outcome.only] using hfresh
  | ok plan =>
    rw [hchecks, guarded_ok] at herror
    have hiff := launchProcess_fails_clean_iff host hchecks lingers hfile hfresh
    simpa [herror] using hiff

def Registry.onlyWorkspace : Registry :=
  { Registry.empty with workspaces := lineOf [ascii "w", ascii "n", ascii "/"] }

/-- A start with the given name and arguments. -/
def startParams (name : Bytes) (argv : List Bytes) : Members :=
  [(ascii "workspace_id", .str (ascii "w")), (ascii "friendly_name", .str name),
    (ascii "mode", .str (ascii "stream")), (ascii "argv", .arr (argv.map .str))]

/-- A start whose command ends before its record is to be written, to a disk that is full. -/
theorem start_of_ended_leaves_nothing : ∃ env : Surroundings,
    Effect.launch env.id.text ∈ (processStart .sample env .onlyWorkspace .owner
      (startParams (ascii "a") [ascii "sh"])).effects ∧
    ¬ LeftAlone true env (processStart .sample env .onlyWorkspace .owner
      (startParams (ascii "a") [ascii "sh"])) := by
  let env : Surroundings :=
    { Surroundings.calm with
      launch := .ready true (.ok sampleController) sampleSocket
      append := fun _ => some ⟨ENOSPC, 0⟩ }
  have hfresh : ¬ Recorded .onlyWorkspace env.id.text := by
    rintro ⟨p, hp, -⟩
    simp [Registry.onlyWorkspace, Registry.empty] at hp
  refine ⟨env, by decide +kernel, ((start_leaves_nothing_iff .sample env true .owner
    (startParams (ascii "a") [ascii "sh"]) (.inl rfl) hfresh (by decide +kernel)).mpr
      fun plan _ => ⟨rfl, ?_⟩).1⟩
  cases hargv : buildArgvJson plan.argv with
  | none => exact .inl rfl
  | some argvJson =>
    refine .inr (.inr ⟨argvJson, sampleController, rfl, rfl, fun q hq => ?_⟩)
    -- nothing of the line is in the file
    have hnothing : ∀ p, (appendProcess [] p (env.append 0)).1 = [] := fun p => by
      unfold appendProcess appendBounded
      split_ifs <;> rfl
    simp [hnothing] at hq

/-- A start as it is answered when its controller gets ready. -/
def startReady (name : Bytes) (argv : List Bytes) : Outcome :=
  processStart .sample (.starting (.repeated 0)) .onlyWorkspace .owner (startParams name argv)

/-- When the disk is full the request fails and its controller runs without a record; with a name of
fifty control characters it fails and its process is there. -/
theorem start_leftovers :
    ((processStart .sample { Surroundings.starting (.repeated 0) with
        append := fun _ => some ⟨ENOSPC, 0⟩ } .onlyWorkspace .owner
          (startParams (ascii "a") [ascii "sh"])).reply =
        .ioFailure "failed to persist process" ENOSPC ∧
      LeftAlone false (.starting (.repeated 0)) (processStart .sample
        { Surroundings.starting (.repeated 0) with append := fun _ => some ⟨ENOSPC, 0⟩ }
          .onlyWorkspace .owner (startParams (ascii "a") [ascii "sh"]))) ∧
    (startReady (List.replicate 50 1) [ascii "sh"]).reply.isSuccess = false ∧
    Recorded (startReady (List.replicate 50 1) [ascii "sh"]).reg (RandomId.repeated 0).text := by
  have hfailed : (processStart .sample { Surroundings.starting (.repeated 0) with
        append := fun _ => some ⟨ENOSPC, 0⟩ } .onlyWorkspace .owner
          (startParams (ascii "a") [ascii "sh"])).reply =
        .ioFailure "failed to persist process" ENOSPC ∧
      Effect.launch (RandomId.repeated 0).text ∈ (processStart .sample
        { Surroundings.starting (.repeated 0) with append := fun _ => some ⟨ENOSPC, 0⟩ }
          .onlyWorkspace .owner (startParams (ascii "a") [ascii "sh"])).effects ∧
      (processStart .sample { Surroundings.starting (.repeated 0) with
        append := fun _ => some ⟨ENOSPC, 0⟩ } .onlyWorkspace .owner
          (startParams (ascii "a") [ascii "sh"])).reg.processes = [] := by
    decide +kernel
  have hany : ((processFormat.records
      (startReady (List.replicate 50 1) [ascii "sh"]).reg.processes).any
        (·.processId = (RandomId.repeated 0).text)) = true := by
    decide +kernel
  refine ⟨⟨hfailed.1, hfailed.2.1, rfl, ?_⟩, by decide +kernel, ?_⟩
  · rintro ⟨p, hp, -⟩
    rw [hfailed.2.2] at hp
    exact List.not_mem_nil hp
  · simpa [Recorded] using hany

end Cubicle.Manager
