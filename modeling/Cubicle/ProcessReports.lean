import Cubicle.ManagerRestarts
import Cubicle.ProcessStarts

/-!
# Reported process states

Getting, listing and waiting for processes. What they report is the recorded state if it is a final
one, and otherwise what the controller answers or its event log says. The result follows the states
through every path that records one.
-/

namespace Cubicle.Manager
open ByteText CStrings RecordFiles JsonText JsonSpelling JsonEncoding RpcEnvelope List

/-- `refresh_observed_process_state`. -/
def refreshed (env : Surroundings) (i : ℕ) (p : ProcessRecord) : ProcessRecord :=
  { p with state := clip 32 (observedState env i p) }

/-- The process a reference names, with an error of its own for a reference to several. -/
def foundProcess (reg : Registry) (ref : Bytes) (workspaceId : Option Bytes) :
    Except Refusal ProcessRecord :=
  match findProcess reg ref workspaceId with
  | .ok p => .ok p
  | .error true => .error (.refusal .ambiguousName "ambiguous process name")
  | .error false => .error (.refusal .notFound "process not found")

section Requests
variable (host : Host) (env : Surroundings) (reg : Registry) (c : Connection) (params : Members)

/-- The process `process.get` answers with. -/
def gotProcess : Except Refusal ProcessRecord := do
  let ref ← orRefuse (getRequiredString params (ascii "process") 128)
    (.refusal .invalidArgument "missing process reference")
  let workspaceRef ← orRefuse (getOptionalString params (ascii "workspace_id") 128)
    (.refusal .invalidArgument "invalid workspace reference")
  let workspaceId ← scopeOf reg workspaceRef
  let p ← foundProcess reg ref workspaceId
  require (hasWorkspaceCapability host reg c p.workspaceId capProcessRead)
    (.refusal .permissionDenied "process read access is required")
  return refreshed env 0 p

def processGet : Reply :=
  match gotProcess host env reg c params with
  | .error r => r.reply
  | .ok p => processInfoReply host env p

/-- The processes `process.list` answers with, but for those it cannot print. -/
def listedProcesses : Except Refusal (List ProcessRecord) := do
  let workspaceRef ← orRefuse (getOptionalString params (ascii "workspace_id") 128)
    (.refusal .invalidArgument "invalid workspace reference")
  let workspaceId ← scopeOf reg workspaceRef
  return ((processFormat.records reg.processes).filter fun p =>
    (workspaceId = none || workspaceId = some p.workspaceId) &&
      hasWorkspaceCapability host reg c p.workspaceId capProcessRead).zipIdx.map
    fun o => refreshed env o.2 o.1

def processList : Reply :=
  match listedProcesses host env reg c params with
  | .error r => r.reply
  | .ok ps =>
    let items := ps.filterMap fun p => (processInfoJson host env p 21504).toOption
    let text := ascii "\x7b\"processes\":" ++ arrayText items ++ ascii ",\"count\":" ++
      dec items.length ++ ascii ",\"has_more\":false\x7d"
    if 21504 ≤ text.length then .refusal .resourceLimit "process list response too large"
    else .success text

/-- The loop of `process.wait`: the state at the last poll. -/
def waitFrom (env : Surroundings) (p : ProcessRecord) : (polls i : ℕ) → Bytes
  | 0, i => observedState env i p
  | polls + 1, i =>
    let latest := observedState env i p
    if isTerminalState latest then latest else waitFrom env p polls (i + 1)

/-- A poll every 50 milliseconds, and one more when the time is over. -/
def waitState (p : ProcessRecord) (timeoutMs : ℕ) : Bytes :=
  if isTerminalState p.state then p.state else waitFrom env p ((timeoutMs + 49) / 50) 0

/-- What `process.wait` records, and the process it answers with. -/
def waitedProcess (file : Bytes) (p : ProcessRecord) (timeoutMs : ℕ) : Bytes × ProcessRecord :=
  let latest := waitState env p timeoutMs
  if latest ≠ p.state && isTerminalState latest then
    match env.lock with
    | some _ => (file, p)
    | none =>
      match rewriteProcesses file p.processId (some { state := some latest }) (env.rewrite 0) with
      | .error _ => (file, p)
      | .ok (file, found) => (file, if found then { p with state := clip 32 latest } else p)
  else (file, p)

/-- Which process is waited for, and how long. -/
def waitChecks : Except Refusal (ProcessRecord × ℕ) := do
  let (ref, timeoutMs) ← orRefuse (do
      let ref ← getRequiredString params (ascii "process_id") 128
      let timeoutMs ← getOptionalU64 params (ascii "timeout_ms")
      return (ref, timeoutMs.getD 0))
    (.refusal .invalidArgument "invalid process wait request")
  let p ← namedProcess reg ref none
  require (hasWorkspaceCapability host reg c p.workspaceId capProcessRead)
    (.refusal .permissionDenied "process wait access is required")
  return (p, timeoutMs)

def processWait : Outcome :=
  guarded reg (waitChecks host reg c params) fun o =>
    let waited := waitedProcess env reg.processes o.1 o.2
    .only { reg with processes := waited.1 } (processInfoReply host env waited.2)

/-- The states that are reported under their own names. -/
def plainStates : List Bytes := [ascii "running", ascii "completed", ascii "failed"]

/-- The event log of a process contains that it exited. -/
def ExitLogged (processId : Bytes) : Prop :=
  ∀ i, env.hasExit i processId = true

/-- Controllers that answer name one of the states a controller has. -/
def PlainAnswers : Prop :=
  ∀ i p state, env.status i p = some state → state.text ∈ ascii "exited" :: plainStates

/-- Whenever the controller of a process does not answer, the exit is in its event log. -/
def AnswersOrExited (p : ProcessRecord) : Prop :=
  ∀ i, env.status i p = none → env.hasExit i p.processId = true

theorem apiProcessStateName_eq_lost_iff (state : Bytes) :
    apiProcessStateName state = ascii "lost" ↔ state ∉ plainStates := by
  unfold apiProcessStateName
  split_ifs with hplain
  · refine ⟨fun heq => ?_, fun h => absurd hplain h⟩
    subst heq
    exact absurd hplain (by decide)
  · exact ⟨fun _ => hplain, fun _ => rfl⟩

end Requests

variable {state : Bytes} {env : Surroundings} {i timeoutMs : ℕ} {p : ProcessRecord} {host : Host}
  {reg : Registry} {c : Connection} {params : Members}

/-- What is observed of a process in a plain state is a plain state again, unless its controller is
silent before the exit is logged. -/
theorem observedState_mem_plainStates (hplain : PlainAnswers env) (hanswers : AnswersOrExited env p)
    (hstate : p.state ∈ plainStates) (i : ℕ) : observedState env i p ∈ plainStates := by
  unfold observedState
  by_cases hterminal : isTerminalState p.state = true
  · rwa [if_pos hterminal]
  · rw [if_neg hterminal, controllerStatusState]
    cases hanswer : env.status i p with
    | none => simp [hanswers i hanswer, plainStates]
    | some state =>
      have hnamed := hplain i p state hanswer
      simp only [Option.map_some]
      split_ifs with hexited
      · decide
      · exact (mem_cons.mp hnamed).resolve_left hexited

theorem clip_of_mem_plainStates (h : state ∈ plainStates) : clip 32 state = state := by
  simp only [plainStates, mem_cons, not_mem_nil, or_false] at h
  rcases h with rfl | rfl | rfl <;> decide

theorem clean_of_mem_plainStates (h : state ∈ plainStates) : Clean state := by
  simp only [plainStates, mem_cons, not_mem_nil, or_false] at h
  rcases h with rfl | rfl | rfl <;> decide +kernel

theorem refreshed_mem_plainStates (hplain : PlainAnswers env) (hanswers : AnswersOrExited env p)
    (hstate : p.state ∈ plainStates) : (refreshed env i p).state ∈ plainStates := by
  have hobserved := observedState_mem_plainStates hplain hanswers hstate i
  rw [refreshed, clip_of_mem_plainStates hobserved]
  exact hobserved

theorem waitFrom_eq (env : Surroundings) (p : ProcessRecord) (polls i : ℕ) :
    ∃ j, waitFrom env p polls i = observedState env j p := by
  induction polls generalizing i with
  | zero => exact ⟨i, rfl⟩
  | succ polls ih =>
    rw [waitFrom]
    split_ifs
    · exact ⟨i, rfl⟩
    · exact ih (i + 1)

theorem waitState_mem_plainStates (hplain : PlainAnswers env) (hanswers : AnswersOrExited env p)
    (hstate : p.state ∈ plainStates) : waitState env p timeoutMs ∈ plainStates := by
  unfold waitState
  split_ifs
  · exact hstate
  · obtain ⟨j, hj⟩ := waitFrom_eq env p ((timeoutMs + 49) / 50) 0
    rw [hj]
    exact observedState_mem_plainStates hplain hanswers hstate j

/-- Waiting records the state it ends with, or nothing. -/
theorem waitedProcess_cases (env : Surroundings) (file : Bytes) (p : ProcessRecord)
    (timeoutMs : ℕ) :
    ((waitedProcess env file p timeoutMs).1 = file ∨ (waitedProcess env file p timeoutMs).1 =
      processFormat.rewrite (changeProcess p.processId
        (some { state := some (waitState env p timeoutMs) })) file) ∧
    ((waitedProcess env file p timeoutMs).2 = p ∨
      (waitedProcess env file p timeoutMs).2 =
        { p with state := clip 32 (waitState env p timeoutMs) }) := by
  unfold waitedProcess
  dsimp only
  split_ifs
  · cases env.lock with
    | some errno => exact ⟨.inl rfl, .inl rfl⟩
    | none =>
      dsimp only
      split
      · exact ⟨.inl rfl, .inl rfl⟩
      · rename_i file' found hrewrite
        refine ⟨.inr (rewriteProcesses_ok hrewrite), ?_⟩
        cases found with
        | true => exact .inr rfl
        | false => exact .inl rfl
  · exact ⟨.inl rfl, .inl rfl⟩

theorem waitedProcess_mem_plainStates (hplain : PlainAnswers env) (hanswers : AnswersOrExited env p)
    {file : Bytes} (hstate : p.state ∈ plainStates) :
    (waitedProcess env file p timeoutMs).2.state ∈ plainStates := by
  have hwait := @waitState_mem_plainStates env timeoutMs p hplain hanswers hstate
  rcases (waitedProcess_cases env file p timeoutMs).2 with heq | heq <;> rw [heq]
  · exact hstate
  · rw [clip_of_mem_plainStates hwait]
    exact hwait

theorem gotProcess_eq_ok {q : ProcessRecord} (h : gotProcess host env reg c params = .ok q) :
    ∃ p ∈ processFormat.records reg.processes, q = refreshed env 0 p := by
  simp only [gotProcess, bind_eq_ok, orRefuse_eq_ok, require_eq_ok, pure_eq_ok] at h
  obtain ⟨ref, -, workspaceRef, -, workspaceId, -, p, hp, -, -, rfl⟩ := h
  have hnamed : namedProcess reg ref workspaceId = .ok p := by
    unfold namedProcess
    unfold foundProcess at hp
    split at hp
    · rename_i p' hfind
      rw [hfind, Except.ok.inj hp]
    · simp at hp
    · simp at hp
  exact ⟨p, (namedProcess_mem hnamed).2, rfl⟩

theorem listedProcesses_eq_ok {qs : List ProcessRecord}
    (h : listedProcesses host env reg c params = .ok qs) :
    ∀ q ∈ qs, ∃ p ∈ processFormat.records reg.processes, ∃ i, q = refreshed env i p := by
  simp only [listedProcesses, bind_eq_ok, orRefuse_eq_ok, pure_eq_ok] at h
  obtain ⟨workspaceRef, -, workspaceId, -, rfl⟩ := h
  intro q hq
  obtain ⟨⟨p, i⟩, hp, rfl⟩ := mem_map.mp hq
  exact ⟨p, mem_of_mem_filter (fst_mem_of_mem_zipIdx hp), i, rfl⟩

theorem waitChecks_eq_ok (h : waitChecks host reg c params = .ok (p, timeoutMs)) :
    p ∈ processFormat.records reg.processes := by
  simp only [waitChecks, bind_eq_ok, orRefuse_eq_ok, require_eq_ok, pure_eq_ok] at h
  obtain ⟨⟨ref, timeout⟩, -, q, hq, -, -, heq⟩ := h
  obtain ⟨rfl, -⟩ := Prod.mk.inj heq
  exact (namedProcess_mem hq).2

/-- A successful reply prints a process that is not called lost if its exit is logged. -/
def ReportsNotLost (host : Host) (env : Surroundings) (text : Bytes) (q : ProcessRecord) : Prop :=
  processInfoJson host env q 21504 = .ok text ∧
    (ExitLogged env q.processId → apiProcessStateName q.state ≠ ascii "lost")

/-- No request of a connection reports a process whose exit is logged as lost. -/
structure NeverLost (host : Host) (env : Surroundings) (reg : Registry) (c : Connection)
    (params : Members) : Prop where
  get : ∀ text, processGet host env reg c params = .success text →
    ∃ q, gotProcess host env reg c params = .ok q ∧ ReportsNotLost host env text q
  list : ∀ qs, listedProcesses host env reg c params = .ok qs → ∀ q ∈ qs,
    ExitLogged env q.processId → apiProcessStateName q.state ≠ ascii "lost"
  wait : ∀ text, (processWait host env reg c params).reply = .success text →
    ∃ p timeoutMs, waitChecks host reg c params = .ok (p, timeoutMs) ∧
      ReportsNotLost host env text (waitedProcess env reg.processes p timeoutMs).2

theorem processInfoReply_success {text : Bytes} (h : processInfoReply host env p = .success text) :
    processInfoJson host env p 21504 = .ok text := by
  unfold processInfoReply at h
  split at h
  · rename_i info hinfo
    rw [hinfo, Reply.success.inj h]
  · simp at h

/-- Nothing is reported as lost in a registry of plain states. -/
theorem neverLost_of_plain (hplain : PlainAnswers env)
    (hreg : ∀ p ∈ processFormat.records reg.processes, p.state ∈ plainStates) :
    NeverLost host env reg c params := by
  have hnamed : ∀ {state}, state ∈ plainStates → apiProcessStateName state ≠ ascii "lost" :=
    fun h heq => (apiProcessStateName_eq_lost_iff _).mp heq h
  have hanswers : ∀ {p : ProcessRecord}, ExitLogged env p.processId → AnswersOrExited env p :=
    fun h i _ => h i
  refine ⟨fun text h => ?_, fun qs h q hq hexit => ?_, fun text h => ?_⟩
  · unfold processGet at h
    split at h
    · simp [Refusal.reply] at h
    · rename_i q hq
      obtain ⟨p, hp, rfl⟩ := gotProcess_eq_ok hq
      exact ⟨_, hq, processInfoReply_success h, fun hexit =>
        hnamed (refreshed_mem_plainStates hplain (hanswers hexit) (hreg p hp))⟩
  · obtain ⟨p, hp, i, rfl⟩ := listedProcesses_eq_ok h q hq
    exact hnamed (refreshed_mem_plainStates hplain (hanswers hexit) (hreg p hp))
  · unfold processWait guarded at h
    split at h
    · simp [Outcome.only, Refusal.reply] at h
    · rename_i o ho
      refine ⟨o.1, o.2, ho, processInfoReply_success h, fun hexit => ?_⟩
      have hid : (waitedProcess env reg.processes o.1 o.2).2.processId = o.1.processId := by
        rcases (waitedProcess_cases env reg.processes o.1 o.2).2 with heq | heq <;> rw [heq]
      rw [hid] at hexit
      exact hnamed (waitedProcess_mem_plainStates hplain (hanswers hexit)
        (hreg o.1 (waitChecks_eq_ok ho)))

/-- Everything that may record the state of a process or remove it. -/
inductive StateAction
  | request (call : ProcessCall)
  | workspace (call : WorkspaceCall)
  | wait (env : Surroundings) (c : Connection) (params : Members) (around : Registry)
  | reconcile (env : Surroundings)
  | autostart (env : Surroundings) (attempt : ℕ → Surroundings) (around : Registry)

namespace StateAction

/-- Only the processes carry over; what the other files hold is part of the action. -/
def handle (host : Host) (reg : Registry) : StateAction → Registry
  | .request call => (call.handle host reg).reg
  | .workspace call =>
    ({ call with around := { call.around with processes := reg.processes } }.handle host reg).reg
  | .wait env c params around =>
    (processWait host env { around with processes := reg.processes } c params).reg
  | .reconcile env => (reconcileProcesses env reg).1
  | .autostart env attempt around =>
    autostartProcesses env attempt { around with processes := reg.processes }

/-- The command of a controller that is launched has not ended when the controller is found
ready. -/
def OutlivesLaunch (env : Surroundings) : Prop :=
  ∀ controllerId controlSocket, env.launch ≠ .ready true controllerId controlSocket

/-- A controller that is asked and does not answer has logged the exit; no command ends during its
start; stored arguments can be read; and no append stops part-way. -/
def Meets (host : Host) (reg : Registry) : StateAction → Prop
  | .request ⟨.start, _, _, env, _⟩ => OutlivesLaunch env ∧ env.AppendsWhole
  | .request call@⟨.remove, params, c, env, _⟩ => PlainAnswers env ∧
      ∀ p, processChecks host env (call.seen reg) c params "process remove access is required" =
        .ok p → AnswersOrExited env p
  | .wait env c params around => PlainAnswers env ∧
      ∀ p timeoutMs, waitChecks host { around with processes := reg.processes } c params =
        .ok (p, timeoutMs) → AnswersOrExited env p
  | .reconcile env => PlainAnswers env ∧
      ∀ p ∈ processFormat.records reg.processes, AnswersOrExited env p
  | .autostart env attempt around => (∀ i, OutlivesLaunch (attempt i) ∧ (attempt i).AppendsWhole) ∧
      ∀ p ∈ restartCandidates env { around with processes := reg.processes },
        argvCopyFromJson p.argvJson ≠ none
  | _ => True

end StateAction

def PlainState (p : ProcessRecord) : Prop := p.state ∈ plainStates

theorem PlainState.kept (h : p.Valid) (hp : PlainState p) : PlainState p.kept := by
  rwa [PlainState, h.parse_cut.2.2.2.2]

theorem Rewritten.plain {S : Bytes → Prop} {start file : Bytes} (h : Rewritten S start file)
    (hS : ∀ state, S state → state ∈ plainStates) (hstart : AllProcesses PlainState start) :
    AllProcesses PlainState file := by
  refine h.allProcesses (fun _ => PlainState.kept) (fun u p hu hp => ?_) hstart
  unfold PlainState ProcessUpdate.apply
  cases hstate : u.state with
  | none => exact hp
  | some state =>
    have hplain := hS state (hu state hstate)
    simpa [clip_of_mem_plainStates hplain] using hplain

theorem AllProcesses.processStart_plain (h : AllProcesses PlainState reg.processes)
    (houtlives : StateAction.OutlivesLaunch env) (hwhole : env.AppendsWhole) :
    AllProcesses PlainState (processStart host env reg c params).reg.processes := by
  rcases processStart_processes host env reg c params with
    hsame | ⟨plan, p, -, hvalid, -, -, -, ⟨exited, controllerId, controlSocket, hlaunch, hstate⟩,
      hfile⟩
  · exact hsame hwhole ▸ h
  · refine hfile ▸ h.append hvalid (PlainState.kept hvalid ?_)
    cases exited with
    | true => exact absurd hlaunch (houtlives _ _)
    | false =>
      rw [PlainState, hstate]
      decide

theorem AllProcesses.processUpdate_plain (h : AllProcesses PlainState reg.processes) :
    AllProcesses PlainState (processUpdate host env reg c params).reg.processes := by
  rcases processUpdate_processes host env c params reg with hsame | ⟨q, p, hchecks, hfile⟩
  · exact hsame ▸ h
  · refine hfile ▸ h.rewrite (fun _ => PlainState.kept) p.processId (fun u s hu hs => ?_)
      (fun u n hu hn => ?_) fun u r hu hr => ?_
    · obtain rfl := Option.some.inj hu
      simp at hs
    · obtain rfl := Option.some.inj hu
      exact (updateFields_bounds (updateChecks_sound hchecks).1 hn).1
    · obtain rfl := Option.some.inj hu
      exact hr

theorem AllProcesses.autostartProcess_plain (h : AllProcesses PlainState reg.processes)
    (houtlives : StateAction.OutlivesLaunch env) (hwhole : env.AppendsWhole) {old : ProcessRecord}
    (hold : old.Valid) (hargv : argvCopyFromJson old.argvJson ≠ none) :
    AllProcesses PlainState (autostartProcess env reg old).1.processes := by
  obtain ⟨-, file, hfile, hcases⟩ := autostartProcess_files hwhole reg old
  have hplain : AllProcesses PlainState file := hfile.plain (fun _ hs => absurd hs.2 hargv) h
  rcases hcases with heq | ⟨w, exited, controllerId, controlSocket, hw, hlaunch, heq⟩
  · exact heq ▸ hplain
  · have hvalid := restartedRecord_valid env hold hw exited controllerId controlSocket
    refine heq ▸ hplain.append hvalid (PlainState.kept hvalid ?_)
    cases exited with
    | true => exact absurd hlaunch (houtlives _ _)
    | false =>
      show ascii "running" ∈ plainStates
      decide

theorem AllProcesses.autostartFrom_plain {steps : List (ProcessRecord × Surroundings)}
    (hsteps : ∀ s ∈ steps, (StateAction.OutlivesLaunch s.2 ∧ s.2.AppendsWhole) ∧ s.1.Valid ∧
      argvCopyFromJson s.1.argvJson ≠ none)
    (h : AllProcesses PlainState reg.processes) :
    AllProcesses PlainState (autostartFrom steps reg).processes := by
  induction steps generalizing reg with
  | nil => exact h
  | cons s rest ih =>
    obtain ⟨old, env⟩ := s
    rw [forall_mem_cons] at hsteps
    obtain ⟨⟨⟨houtlives, hwhole⟩, hold, hargv⟩, hrest⟩ := hsteps
    have hnext := h.autostartProcess_plain houtlives hwhole hold hargv
    rw [autostartFrom]
    generalize autostartProcess env reg old = result at hnext
    obtain ⟨reg', goOn⟩ := result
    cases goOn with
    | false => exact hnext
    | true => exact ih hrest hnext

/-- Every path that records a state keeps all recorded states plain. -/
theorem StateAction.handle_plain {action : StateAction} (h : AllProcesses PlainState reg.processes)
    (hmeets : action.Meets host reg) :
    AllProcesses PlainState (action.handle host reg).processes := by
  cases action with
  | request call =>
    obtain ⟨method, params, c, env, around⟩ := call
    have hseen : AllProcesses PlainState { around with processes := reg.processes }.processes := h
    cases method with
    | start => exact hseen.processStart_plain hmeets.1 hmeets.2
    | update => exact hseen.processUpdate_plain
    | save =>
      exact (rewritten_processSave host env c params (· ∈ plainStates) _ true).plain
        (fun _ => id) hseen
    | unsave =>
      exact (rewritten_processSave host env c params (· ∈ plainStates) _ false).plain
        (fun _ => id) hseen
    | remove =>
      refine (rewritten_processRemove host env c params _ fun p hp => ?_).plain (fun _ => id) hseen
      exact observedState_mem_plainStates hmeets.1 (hmeets.2 p hp)
        (h.all p (processChecks_sound hp).1) 0
    | cleanup =>
      exact (rewritten_managerCleanup host env c params (· ∈ plainStates) _).plain (fun _ => id)
        hseen
  | workspace call =>
    exact (WorkspaceCall.rewritten (· ∈ plainStates) host _ reg).plain (fun _ => id) h
  | wait env c params around =>
    simp only [StateAction.handle, processWait, guarded]
    cases ho : waitChecks host { around with processes := reg.processes } c params with
    | error r => exact h
    | ok o =>
      have hmem := waitChecks_eq_ok ho
      have hstate := @waitState_mem_plainStates env o.2 o.1 hmeets.1 (hmeets.2 o.1 o.2 ho)
        (h.all o.1 hmem)
      change AllProcesses PlainState (waitedProcess env reg.processes o.1 o.2).1
      rcases (waitedProcess_cases env reg.processes o.1 o.2).1 with heq | heq
      · rw [heq]
        exact h
      · have hrecorded := (@Rewritten.refl (· ∈ plainStates) reg.processes).recordState
          o.1.processId (clean_of_mem_plainStates hstate) hstate
        exact heq ▸ hrecorded.plain (fun _ => id) h
  | reconcile env =>
    refine (rewritten_reconcile env reg fun i p hp => ?_).plain (fun _ => id) h
    exact observedState_mem_plainStates hmeets.1 (hmeets.2 p hp) (h.all p hp) i
  | autostart env attempt around =>
    simp only [StateAction.handle, autostartProcesses]
    split
    · exact h
    · refine AllProcesses.autostartFrom_plain (fun s hs => ?_) h
      obtain ⟨⟨p, i⟩, hp, rfl⟩ := mem_map.mp hs
      have hcandidate := fst_mem_of_mem_zipIdx hp
      exact ⟨hmeets.1 i, valid_of_mem_processes (mem_of_mem_restartCandidates hcandidate),
        hmeets.2 p hcandidate⟩

/-- The registries that the recording paths lead to from one without processes. -/
inductive StateRun (host : Host) : Registry → Prop
  | init {reg : Registry} (hprocesses : reg.processes = []) : StateRun host reg
  | step {reg : Registry} (action : StateAction) (h : StateRun host reg)
      (hmeets : action.Meets host reg) : StateRun host (action.handle host reg)

theorem StateRun.plain (h : StateRun host reg) : AllProcesses PlainState reg.processes := by
  induction h with
  | init hprocesses => exact hprocesses ▸ allProcesses_nil
  | step action _ hmeets ih => exact action.handle_plain ih hmeets

/-- Two shells are started, exit, and are reconciled by the next manager. -/
def reconciledShells : Registry :=
  [StateAction.request (startShell (.repeated 0) (ascii "a")),
    .request (startShell (.repeated 1) (ascii "b")), .reconcile .calm].foldl
    (fun reg action => action.handle .sample reg) .empty

/-- A shell that ended before its controller was found ready. -/
def startEnded : Outcome :=
  processStart .sample
    { Surroundings.starting (.repeated 0) with
      launch := .ready true (.ok sampleController) sampleSocket }
    .onlyWorkspace .owner (startParams (ascii "a") [ascii "sh"])

end Cubicle.Manager
