import Cubicle.ManagerWorkspaces

/-!
# Restarts of the manager

A starting manager records which processes have ended and then starts again the ones that are
marked for it, in workspaces that it brings back from their records if they are gone. The result is
about registries that requests and restarts lead to: every workspace is found by its id and its
name, unless a workspace is brought back under a name that is taken.
-/

namespace Cubicle.Manager
open ByteText CStrings RecordFiles JsonText JsonEncoding RpcEnvelope KeyedRecords List

/-- The processes that are found to have ended, with the state to record. -/
def endedProcesses (env : Surroundings) (reg : Registry) : List (Bytes × Bytes) :=
  (processFormat.records reg.processes).zipIdx.filterMap fun (p, i) =>
    let latest := observedState env i p
    if !isTerminalState p.state && isTerminalState latest && latest ≠ p.state then
      some (p.processId, latest)
    else none

/-- Record states one after the other, up to the first failure. -/
def recordStates (env : Surroundings) : ℕ → List (Bytes × Bytes) → Bytes → Bytes × Option Int32
  | _, [], file => (file, none)
  | i, (processId, state) :: rest, file =>
    match rewriteProcesses file processId (some { state := some state }) (env.rewrite i) with
    | .error errno => (file, some errno)
    | .ok (file, _) => recordStates env (i + 1) rest file

/-- `reconcile_process_records`. -/
def reconcileProcesses (env : Surroundings) (reg : Registry) : Registry × Option Int32 :=
  match env.lock with
  | some errno => (reg, some errno)
  | none =>
    let (file, failure) := recordStates env 0 (endedProcesses env reg) reg.processes
    ({ reg with processes := file }, failure)

def recordedWorkspaceName (old : ProcessRecord) : Bytes :=
  if old.workspaceName = [] then old.workspaceId else old.workspaceName

def recordedWorkspaceDirectory (old : ProcessRecord) : Bytes :=
  if old.workspaceDirectory = [] then old.cwd else old.workspaceDirectory

/-- The workspace a process was in, by its own record. -/
def recordedWorkspace (old : ProcessRecord) : WorkspaceRecord :=
  ⟨old.workspaceId, recordedWorkspaceName old, recordedWorkspaceDirectory old⟩

/-- The workspace a process is restarted in, brought back if it is gone. -/
def ensureWorkspace (env : Surroundings) (reg : Registry) (old : ProcessRecord) :
    Registry × Option WorkspaceRecord :=
  match findWorkspace reg old.workspaceId with
  | some w => (reg, some w)
  | none =>
    if validateField (recordedWorkspaceName old) &&
        validateField (recordedWorkspaceDirectory old) then
      match appendWorkspace reg.workspaces (recordedWorkspace old) (env.append 0) with
      | (file, some _) => ({ reg with workspaces := file }, none)
      | (file, none) =>
        let reg := { reg with workspaces := file }
        (reg, findWorkspace reg old.workspaceId)
    else (reg, none)

def argvCopyFromJson (argvJson : Bytes) : Option (List Bytes) :=
  if argvJson = [] then none
  else match parse argvJson with
    | some (.arr items) =>
      if items.length = 0 ∨ 4096 < items.length then none else items.mapM argvItem
    | _ => none

/-- The record of a process that was started again. -/
def restartedRecord (env : Surroundings) (old : ProcessRecord) (w : WorkspaceRecord)
    (exited : Bool) (controllerId : FieldText 33) (controlSocket : FieldText 4096) :
    ProcessRecord :=
  { old with
    processId := env.id.text
    state := ascii (if exited then "exited" else "running")
    controllerId := controllerId.text
    controlSocket := controlSocket.text
    cwd := if old.cwd = [] then w.directory else old.cwd
    stdinPolicy := if old.stdinPolicy = [] then ascii "open" else old.stdinPolicy
    workspaceName := w.name
    workspaceDirectory := w.directory }

/-- One process of `autostart_restart_processes`; the flag says whether to go on. -/
def autostartProcess (env : Surroundings) (reg : Registry) (old : ProcessRecord) :
    Registry × Bool :=
  match ensureWorkspace env reg old with
  | (reg, none) => (reg, false)
  | (reg, some w) =>
    match argvCopyFromJson old.argvJson with
    | none =>
      match rewriteProcesses reg.processes old.processId (some { state := some (ascii "lost") })
          (env.rewrite 0) with
      | .error _ => (reg, false)
      | .ok (file, _) => ({ reg with processes := file }, true)
    | some _ =>
      match env.launch with
      | .ready exited (.ok controllerId) controlSocket =>
        match rewriteProcesses reg.processes old.processId none (env.rewrite 0) with
        | .error _ => (reg, false)
        | .ok (file, _) =>
          match appendProcess file (restartedRecord env old w exited controllerId controlSocket)
              (env.append 1) with
          | (file, failure) => ({ reg with processes := file }, failure.isNone)
      | _ => (reg, false)

/-- The processes that are marked for a restart and have ended. -/
def restartCandidates (env : Surroundings) (reg : Registry) : List ProcessRecord :=
  ((processFormat.records reg.processes).filter (·.restart)).zipIdx.filterMap fun (p, i) =>
    if isTerminalState (observedState env i p) then some p else none

/-- One process after the other, each in a world of its own. -/
def autostartFrom : List (ProcessRecord × Surroundings) → Registry → Registry
  | [], reg => reg
  | (old, env) :: rest, reg =>
    match autostartProcess env reg old with
    | (reg, true) => autostartFrom rest reg
    | (reg, false) => reg

/-- `autostart_restart_processes`. -/
def autostartProcesses (env : Surroundings) (attempt : ℕ → Surroundings) (reg : Registry) :
    Registry :=
  match env.lock with
  | some _ => reg
  | none => autostartFrom ((restartCandidates env reg).zipIdx.map fun (p, i) => (p, attempt i)) reg

/-- A file of whole lines whose process records all have a property. -/
structure AllProcesses (Q : ProcessRecord → Prop) (file : Bytes) : Prop where
  terminated : Terminated file
  all : ∀ p ∈ processFormat.records file, Q p

theorem allProcesses_nil {Q : ProcessRecord → Prop} : AllProcesses Q [] := ⟨.inl rfl, by simp⟩

variable {file : Bytes} {p old : ProcessRecord} {reg : Registry} {w : WorkspaceRecord}
  {candidates : List ProcessRecord} {Q : ProcessRecord → Prop} {S : Bytes → Prop}

theorem AllProcesses.append (h : AllProcesses Q file) (hvalid : p.Valid) (hp : Q p.kept) :
    AllProcesses Q (file ++ lineOf p.fields) := by
  have hrecords : processFormat.records (file ++ lineOf p.fields) =
      processFormat.records file ++ [p.kept] :=
    processFormat_reads.records_append_print h.terminated hvalid
  refine ⟨terminated_append h.terminated (terminated_lineOf _), fun q hq => ?_⟩
  rw [hrecords] at hq
  rcases mem_append.mp hq with hq | hq
  · exact h.all q hq
  · obtain rfl := mem_singleton.mp hq
    exact hp

/-- A property that a change keeps of every record is kept by rewriting the file. -/
theorem AllProcesses.rewrite (h : AllProcesses Q file) (hQ : ∀ p : ProcessRecord, p.Valid →
      Q p → Q p.kept) (processId : Bytes) {update : Option ProcessUpdate}
    (hstate : ∀ u state, update = some u → u.state = some state → Clean state)
    (hname : ∀ u name, update = some u → u.friendlyName = some name → Clean name)
    (hchange : ∀ u p, update = some u → Q p → Q (u.apply p)) :
    AllProcesses Q (processFormat.rewrite (changeProcess processId update) file) := by
  have hvalid := valid_changeProcess file processId update hstate hname
  refine ⟨processFormat_reads.terminated_rewrite hvalid, fun q hq => ?_⟩
  rw [processFormat_reads.records_rewrite hvalid] at hq
  obtain ⟨p, hp, rfl⟩ := mem_map.mp hq
  refine hQ p (hvalid p hp) ?_
  obtain ⟨r, hr, hrp⟩ := mem_filterMap.mp hp
  unfold changeProcess at hrp
  split_ifs at hrp
  · obtain ⟨u, rfl, rfl⟩ := Option.map_eq_some_iff.mp hrp
    exact hchange u r rfl (h.all r hr)
  · obtain rfl := Option.some.inj hrp
    exact h.all r hr

theorem Rewritten.allProcesses {start : Bytes} (h : Rewritten S start file)
    (hQ : ∀ p : ProcessRecord, p.Valid → Q p → Q p.kept)
    (hchange : ∀ (u : ProcessUpdate) p, (∀ state ∈ u.state, S state) → Q p → Q (u.apply p))
    (hstart : AllProcesses Q start) : AllProcesses Q file := by
  induction h with
  | refl => exact hstart
  | change _ processId hname hstate ih =>
    refine ih.rewrite hQ processId (fun v s hv hs => ?_) (fun v n hv hn => ?_) fun v p hv hp => ?_
    · obtain rfl := Option.some.inj hv
      exact (hstate s hs).1
    · obtain rfl := Option.some.inj hv
      simp [hname] at hn
    · obtain rfl := Option.some.inj hv
      exact hchange _ p (fun s hs => (hstate s hs).2) hp
  | remove _ processId ih => exact ih.rewrite hQ processId (by simp) (by simp) (by simp)

theorem Rewritten.recordStates {start : Bytes} (h : Rewritten S start file)
    (env : Surroundings) (i : ℕ) {states : List (Bytes × Bytes)}
    (hstates : ∀ e ∈ states, Clean e.2 ∧ S e.2) :
    Rewritten S start (recordStates env i states file).1 := by
  induction states generalizing i file with
  | nil => exact h
  | cons e rest ih =>
    obtain ⟨processId, state⟩ := e
    rw [forall_mem_cons] at hstates
    unfold Manager.recordStates
    split
    · exact h
    · rename_i file' found hrewrite
      have hrecorded : Rewritten S start file' :=
        rewriteProcesses_ok hrewrite ▸ h.recordState processId hstates.1.1 hstates.1.2
      exact ih hrecorded (i + 1) hstates.2

/-- Reconciling records states that were observed. -/
theorem rewritten_reconcile (env : Surroundings) (reg : Registry)
    (hstates : ∀ i, ∀ p ∈ processFormat.records reg.processes, S (observedState env i p)) :
    Rewritten S reg.processes (reconcileProcesses env reg).1.processes := by
  unfold reconcileProcesses
  split
  · exact .refl
  · refine Rewritten.refl.recordStates env 0 fun e he => ?_
    obtain ⟨⟨p, i⟩, hp, hstate⟩ := mem_filterMap.mp he
    have hmem := fst_mem_of_mem_zipIdx hp
    dsimp only at hstate
    split_ifs at hstate
    obtain rfl := Option.some.inj hstate
    exact ⟨clean_observedState env i (valid_of_mem_processes hmem), hstates i p hmem⟩

/-- Every process record has a workspace id. -/
def Placed (p : ProcessRecord) : Prop := p.workspaceId ≠ []

theorem Placed.kept (h : p.Valid) (hp : Placed p) : Placed p.kept := by
  rwa [Placed, h.parse_cut.2.2.1]

theorem Rewritten.placed {start : Bytes} (h : Rewritten S start file)
    (hstart : AllProcesses Placed start) : AllProcesses Placed file :=
  h.allProcesses (fun _ => Placed.kept) (fun _ _ _ hp => hp) hstart

theorem AllProcesses.processStart_placed (h : AllProcesses Placed reg.processes) (host : Host)
    {env : Surroundings} (hwhole : env.AppendsWhole) (c : Connection) (params : Members) :
    AllProcesses Placed (processStart host env reg c params).reg.processes := by
  rcases processStart_processes host env reg c params with
    hsame | ⟨plan, p, hsound, hvalid, -, hws, -, -, hfile⟩
  · exact hsame hwhole ▸ h
  · refine hfile ▸ h.append hvalid (Placed.kept hvalid ?_)
    rw [Placed, hws]
    exact (findWorkspace_valid hsound.workspace).id_ne_nil

/-- What lookups of workspaces need over a whole history. -/
structure RegistryOk (reg : Registry) : Prop where
  workspaces : WorkspacesOk reg.workspaces
  processes : AllProcesses Placed reg.processes

theorem RegistryOk.reconcile (h : RegistryOk reg) (env : Surroundings) :
    RegistryOk (reconcileProcesses env reg).1 := by
  have hprocesses := (rewritten_reconcile (S := fun _ => True) env reg
    fun _ _ _ => trivial).placed h.processes
  refine ⟨?_, hprocesses⟩
  unfold reconcileProcesses
  split <;> exact h.workspaces

theorem recordedWorkspace_valid (h : old.Valid) (hplaced : old.workspaceId ≠ [])
    (hname : validateField (recordedWorkspaceName old) = true) : (recordedWorkspace old).Valid := by
  have hclean := h.clean
  simp only [ProcessRecord.fields, ProcessRecord.head, ProcessRecord.tail, cons_append,
    nil_append, forall_mem_cons, not_mem_nil, false_imp_iff, implies_true,
    and_true] at hclean
  obtain ⟨-, hws, -, -, -, -, -, hcwd, -, -, -, -, hwsName, hwsDir⟩ := hclean
  have hnameBounds : Clean (recordedWorkspaceName old) ∧
      (recordedWorkspaceName old).length < 128 := by
    unfold recordedWorkspaceName
    split_ifs
    · exact ⟨hws, h.workspaceId_length.trans (by decide)⟩
    · exact ⟨hwsName, h.workspaceName_length⟩
  have hdirBounds : Clean (recordedWorkspaceDirectory old) ∧
      (recordedWorkspaceDirectory old).length < 4096 := by
    unfold recordedWorkspaceDirectory
    split_ifs
    · exact ⟨hcwd, h.cwd_length⟩
    · exact ⟨hwsDir, h.workspaceDirectory_length⟩
  refine ⟨?_, hplaced, ((validateField_iff _).mp hname).1, h.workspaceId_length, hnameBounds.2,
    hdirBounds.2⟩
  simp only [recordedWorkspace, WorkspaceRecord.fields, forall_mem_cons, not_mem_nil,
    false_imp_iff, implies_true, and_true]
  exact ⟨hws, hnameBounds.1, hdirBounds.1⟩

/-- The registry stays, or a missing workspace is brought back under its recorded name. -/
theorem ensureWorkspace_cases {env : Surroundings} (hwhole : env.AppendsWhole) (reg : Registry)
    (old : ProcessRecord) :
    (∀ w, (ensureWorkspace env reg old).2 = some w → w.Valid) ∧
    ((ensureWorkspace env reg old).1 = reg ∨
      findWorkspace reg old.workspaceId = none ∧
      validateField (recordedWorkspaceName old) = true ∧
      (ensureWorkspace env reg old).1 =
        { reg with workspaces := reg.workspaces ++ lineOf (recordedWorkspace old).fields }) := by
  unfold ensureWorkspace
  cases hfind : findWorkspace reg old.workspaceId with
  | some w =>
    refine ⟨fun v hv => ?_, .inl rfl⟩
    obtain rfl := Option.some.inj hv
    exact findWorkspace_valid hfind
  | none =>
    dsimp only
    split_ifs with hvalid
    · rw [Bool.and_eq_true] at hvalid
      rcases happend : appendWorkspace reg.workspaces (recordedWorkspace old) (env.append 0) with
        ⟨file, _ | errno⟩
      · obtain ⟨-, rfl⟩ := appendBounded_ok happend
        exact ⟨fun v hv => findWorkspace_valid hv, .inr ⟨rfl, hvalid.1, rfl⟩⟩
      · obtain rfl := hwhole.file_eq happend
        exact ⟨by simp, .inl rfl⟩
    · exact ⟨by simp, .inl rfl⟩

theorem restartedRecord_valid (env : Surroundings) (h : old.Valid) (hw : w.Valid) (exited : Bool)
    (controllerId : FieldText 33) (controlSocket : FieldText 4096) :
    (restartedRecord env old w exited controllerId controlSocket).Valid := by
  have hclean := h.clean
  simp only [ProcessRecord.fields, ProcessRecord.head, ProcessRecord.tail, cons_append,
    nil_append, forall_mem_cons, not_mem_nil, false_imp_iff, implies_true,
    and_true] at hclean
  obtain ⟨-, hws, hname, hmode, -, -, -, hcwd, -, hargv, -, hpolicy, -, -⟩ := hclean
  have hwclean := hw.clean
  simp only [WorkspaceRecord.fields, forall_mem_cons] at hwclean
  obtain ⟨-, hwName, hwDirectory, -⟩ := hwclean
  have hstate : Clean (ascii (if exited then "exited" else "running")) ∧
      (ascii (if exited then "exited" else "running")).length < 32 := by
    cases exited <;> decide +kernel
  have hcwdBounds : Clean (if old.cwd = [] then w.directory else old.cwd) ∧
      (if old.cwd = [] then w.directory else old.cwd).length < 4096 := by
    split_ifs
    · exact ⟨hwDirectory, hw.directory_length⟩
    · exact ⟨hcwd, h.cwd_length⟩
  have hpolicyBounds : Clean (if old.stdinPolicy = [] then ascii "open" else old.stdinPolicy) ∧
      (if old.stdinPolicy = [] then ascii "open" else old.stdinPolicy).length < 32 := by
    split_ifs
    · decide +kernel
    · exact ⟨hpolicy, h.stdinPolicy_length⟩
  refine ⟨?_, env.id.text_length.trans_lt (by decide), h.workspaceId_length,
    h.friendlyName_length, h.mode_length, hstate.2, controllerId.length_lt,
    controlSocket.length_lt, hcwdBounds.2, h.argvJson_length, hpolicyBounds.2, hw.name_length,
    hw.directory_length⟩
  simp only [restartedRecord, ProcessRecord.fields, ProcessRecord.head, ProcessRecord.tail,
    cons_append, nil_append, forall_mem_cons, not_mem_nil, false_imp_iff,
    implies_true, and_true]
  exact ⟨env.id.clean_text, hws, hname, hmode, hstate.1, controllerId.clean, controlSocket.clean,
    hcwdBounds.1, clean_flagText _, hargv, clean_flagText _, hpolicyBounds.1, hwName, hwDirectory⟩

/-- Starting one process again touches the workspaces only to bring one back. Its record is left, is
marked as lost if the arguments cannot be read, or is removed and a new one appended. -/
theorem autostartProcess_files {env : Surroundings} (hwhole : env.AppendsWhole) (reg : Registry)
    (old : ProcessRecord) :
    (autostartProcess env reg old).1.workspaces = (ensureWorkspace env reg old).1.workspaces ∧
    ∃ file, Rewritten (fun state => state = ascii "lost" ∧ argvCopyFromJson old.argvJson = none)
        reg.processes file ∧
      ((autostartProcess env reg old).1.processes = file ∨
        ∃ w exited controllerId controlSocket, w.Valid ∧
          env.launch = .ready exited (.ok controllerId) controlSocket ∧
          (autostartProcess env reg old).1.processes =
            file ++ lineOf (restartedRecord env old w exited controllerId controlSocket).fields) := by
  have hlost : Clean (ascii "lost") := by decide +kernel
  obtain ⟨hw, hcases⟩ := ensureWorkspace_cases hwhole reg old
  have hprocesses : (ensureWorkspace env reg old).1.processes = reg.processes := by
    rcases hcases with hsame | ⟨-, -, hback⟩
    · rw [hsame]
    · rw [hback]
  unfold autostartProcess
  generalize ensureWorkspace env reg old = ensured at hw hprocesses
  obtain ⟨reg', found⟩ := ensured
  rw [← hprocesses]
  cases found with
  | none => exact ⟨rfl, _, .refl, .inl rfl⟩
  | some w =>
    dsimp only
    split
    · rename_i hargv
      split
      · exact ⟨rfl, _, .refl, .inl rfl⟩
      · rename_i file found hrewrite
        exact ⟨rfl, file, rewriteProcesses_ok hrewrite ▸
          Rewritten.refl.recordState old.processId hlost ⟨rfl, hargv⟩, .inl rfl⟩
    · split
      · rename_i exited controllerId controlSocket hlaunch
        split
        · exact ⟨rfl, _, .refl, .inl rfl⟩
        · rename_i file found hrewrite
          refine ⟨rfl, file, rewriteProcesses_ok hrewrite ▸ Rewritten.refl.remove old.processId, ?_⟩
          rcases happend : appendProcess file
              (restartedRecord env old w exited controllerId controlSocket) (env.append 1) with
            ⟨file', _ | errno⟩
          · obtain ⟨-, rfl⟩ := appendBounded_ok happend
            exact .inr ⟨w, exited, controllerId, controlSocket, hw w rfl, hlaunch, rfl⟩
          · exact .inl (hwhole.file_eq happend)
      · exact ⟨rfl, _, .refl, .inl rfl⟩

theorem AllProcesses.autostartProcess_placed {env : Surroundings} (hwhole : env.AppendsWhole)
    (h : AllProcesses Placed reg.processes) (hold : old.Valid) (hplaced : old.workspaceId ≠ []) :
    AllProcesses Placed (autostartProcess env reg old).1.processes := by
  obtain ⟨-, file, hfile, heq | ⟨w, exited, controllerId, controlSocket, hw, -, heq⟩⟩ :=
    autostartProcess_files hwhole reg old
  · exact heq ▸ hfile.placed h
  · have hvalid := restartedRecord_valid env hold hw exited controllerId controlSocket
    exact heq ▸ (hfile.placed h).append hvalid (Placed.kept hvalid hplaced)

/-- The names under which processes bring workspaces back are free, and different for different
workspaces. -/
def NamesFree (reg : Registry) (candidates : List ProcessRecord) : Prop :=
  ∀ p ∈ candidates, findWorkspace reg p.workspaceId = none →
    findWorkspace reg (recordedWorkspaceName p) = none ∧
    ∀ q ∈ candidates, findWorkspace reg q.workspaceId = none → q.workspaceId ≠ p.workspaceId →
      recordedWorkspaceName p ≠ q.workspaceId ∧
        recordedWorkspaceName p ≠ recordedWorkspaceName q

instance (reg : Registry) (candidates : List ProcessRecord) :
    Decidable (NamesFree reg candidates) := inferInstanceAs (Decidable (∀ p ∈ candidates, _))

/-- A registry in the middle of an autostart: the workspaces of the beginning and some that were
brought back. -/
structure Midway (start : Registry) (candidates : List ProcessRecord) (reg : Registry) : Prop where
  ok : RegistryOk reg
  kept : ∀ w ∈ workspaceFormat.records start.workspaces,
    w ∈ workspaceFormat.records reg.workspaces
  back : ∀ w ∈ workspaceFormat.records reg.workspaces,
    w ∈ workspaceFormat.records start.workspaces ∨
      ∃ q ∈ candidates, findWorkspace start q.workspaceId = none ∧ w.id = q.workspaceId ∧
        w.name = recordedWorkspaceName q

theorem Midway.autostartProcess {start : Registry} (h : Midway start candidates reg)
    (hfree : NamesFree start candidates) {env : Surroundings} (hwhole : env.AppendsWhole)
    (hold : old ∈ candidates) (hvalid : old.Valid) (hplaced : old.workspaceId ≠ []) :
    Midway start candidates (autostartProcess env reg old).1 := by
  have hworkspaces := (autostartProcess_files hwhole reg old).1
  have hprocesses := h.ok.processes.autostartProcess_placed hwhole hvalid hplaced
  rcases (ensureWorkspace_cases hwhole reg old).2 with hsame | ⟨hgone, hname, hback⟩
  · rw [hsame] at hworkspaces
    exact ⟨⟨hworkspaces ▸ h.ok.workspaces, hprocesses⟩, hworkspaces ▸ h.kept,
      hworkspaces ▸ h.back⟩
  rw [hback] at hworkspaces
  have hrecorded := recordedWorkspace_valid hvalid hplaced hname
  have hmissing := findWorkspace_eq_none.mp hgone
  -- what is missing now was missing at the start
  have hgoneStart : findWorkspace start old.workspaceId = none :=
    findWorkspace_eq_none.mpr fun w hw => hmissing w (h.kept w hw)
  obtain ⟨hfreeStart, hfreeOthers⟩ := hfree old hold hgoneStart
  have hrecords : workspaceFormat.records
      (reg.workspaces ++ lineOf (recordedWorkspace old).fields) =
      workspaceFormat.records reg.workspaces ++ [(recordedWorkspace old).kept] :=
    workspaceFormat_reads.records_append_print h.ok.workspaces.terminated hrecorded
  refine ⟨⟨hworkspaces ▸ ?_, hprocesses⟩, fun w hw => ?_, fun w hw => ?_⟩
  · refine h.ok.workspaces.append hrecorded hmissing fun w hw => ?_
    rcases h.back w hw with hw | ⟨q, hq, hqgone, hid, hwname⟩
    · exact findWorkspace_eq_none.mp hfreeStart w hw
    · have hne : q.workspaceId ≠ old.workspaceId := hid ▸ (hmissing w hw).1
      obtain ⟨hnameId, hnames⟩ := hfreeOthers q hq hqgone hne
      rw [hid, hwname]
      exact ⟨hnameId.symm, hnames.symm⟩
  · rw [hworkspaces, hrecords]
    exact mem_append_left _ (h.kept w hw)
  · rw [hworkspaces, hrecords] at hw
    rcases mem_append.mp hw with hw | hw
    · exact h.back w hw
    · obtain rfl := mem_singleton.mp hw
      exact .inr ⟨old, hold, hgoneStart, rfl, rfl⟩

theorem Midway.autostartFrom {start : Registry} (hfree : NamesFree start candidates)
    (hcandidates : ∀ p ∈ candidates, p.Valid ∧ p.workspaceId ≠ [])
    {steps : List (ProcessRecord × Surroundings)}
    (hsteps : ∀ s ∈ steps, s.1 ∈ candidates ∧ s.2.AppendsWhole)
    (h : Midway start candidates reg) : Midway start candidates (autostartFrom steps reg) := by
  induction steps generalizing reg with
  | nil => exact h
  | cons s rest ih =>
    obtain ⟨old, env⟩ := s
    rw [forall_mem_cons] at hsteps
    obtain ⟨⟨hold, hwhole⟩, hrest⟩ := hsteps
    obtain ⟨hvalid, hplaced⟩ := hcandidates old hold
    have hnext := h.autostartProcess hfree hwhole hold hvalid hplaced
    rw [Manager.autostartFrom]
    generalize Manager.autostartProcess env reg old = result at hnext
    obtain ⟨reg', goOn⟩ := result
    cases goOn with
    | false => exact hnext
    | true => exact ih hrest hnext

theorem mem_of_mem_restartCandidates {env : Surroundings} (h : p ∈ restartCandidates env reg) :
    p ∈ processFormat.records reg.processes := by
  obtain ⟨⟨q, i⟩, hq, hp⟩ := mem_filterMap.mp h
  dsimp only at hp
  split_ifs at hp
  obtain rfl := Option.some.inj hp
  exact mem_of_mem_filter (fst_mem_of_mem_zipIdx hq)

theorem RegistryOk.autostart (h : RegistryOk reg) (env : Surroundings)
    {attempt : ℕ → Surroundings} (hwhole : ∀ i, (attempt i).AppendsWhole)
    (hfree : NamesFree reg (restartCandidates env reg)) :
    RegistryOk (autostartProcesses env attempt reg) := by
  unfold autostartProcesses
  split
  · exact h
  · have hcandidates : ∀ p ∈ restartCandidates env reg, p.Valid ∧ p.workspaceId ≠ [] := by
      intro p hp
      have hmem := mem_of_mem_restartCandidates hp
      exact ⟨valid_of_mem_processes hmem, h.processes.all p hmem⟩
    have hmidway : Midway reg (restartCandidates env reg) reg := ⟨h, fun _ => id, fun _ => .inl⟩
    refine (hmidway.autostartFrom hfree hcandidates fun s hs => ?_).ok
    obtain ⟨⟨p, i⟩, hp, rfl⟩ := mem_map.mp hs
    exact ⟨fst_mem_of_mem_zipIdx hp, hwhole i⟩

theorem rewritten_workspaceLifecycle (S : Bytes → Prop) (reg : Registry) (host : Host)
    (env : Surroundings) (c : Connection) (params : Members) (delete : Bool) :
    Rewritten S reg.processes (workspaceLifecycle host env reg c params delete).reg.processes := by
  unfold workspaceLifecycle
  rcases guarded_cases reg (lifecycleChecks host env reg c params delete) _ with
    ⟨r, -, heq⟩ | ⟨plan, -, heq⟩
  · exact heq ▸ .refl
  · rw [heq]
    dsimp only
    split
    · exact .refl
    · cases delete with
      | true => exact Rewritten.refl.removeProcesses env 1 _
      | false => exact .refl

/-- Requests about workspaces only remove processes. -/
theorem WorkspaceCall.rewritten (S : Bytes → Prop) (host : Host) (call : WorkspaceCall)
    (reg : Registry) :
    Rewritten S call.around.processes (call.handle host reg).reg.processes := by
  obtain ⟨method, params, c, env, around⟩ := call
  cases method with
  | create =>
    simp only [handle]
    cases hchecks : createChecks host env (WorkspaceCall.seen _ reg) c params with
    | error r =>
      rw [workspaceCreate, hchecks]
      exact .refl
    | ok qw =>
      obtain ⟨q, w⟩ := qw
      rw [(workspaceCreate_of_ok hchecks).2.1]
      exact .refl
  | rename =>
    simp only [handle, workspaceRename]
    cases renameChecks host env (WorkspaceCall.seen _ reg) c params with
    | error r => exact .refl
    | ok wn => exact .refl
  | delete =>
    exact rewritten_workspaceLifecycle S { around with workspaces := reg.workspaces } host env c
      params true

/-- What changes the registry: requests, and the two parts of a restart. -/
inductive RegistryAction
  | workspace (call : WorkspaceCall)
  | start (env : Surroundings) (c : Connection) (params : Members) (around : Registry)
  | reconcile (env : Surroundings)
  | autostart (env : Surroundings) (attempt : ℕ → Surroundings)

namespace RegistryAction

/-- The workspaces and the processes carry over from one action to the next; what the other files
hold is part of the action. -/
def handle (host : Host) (reg : Registry) : RegistryAction → Registry
  | .workspace call =>
    ({ call with around := { call.around with processes := reg.processes } }.handle host reg).reg
  | .start env c params around =>
    (processStart host env
      { around with workspaces := reg.workspaces, processes := reg.processes } c params).reg
  | .reconcile env => (reconcileProcesses env reg).1
  | .autostart env attempt => autostartProcesses env attempt reg

/-- The id that is drawn for a new workspace is in no record yet. -/
def Fresh (reg : Registry) : RegistryAction → Prop
  | .workspace call => call.Fresh reg
  | _ => True

/-- No workspace is brought back under a name that is taken. -/
def BringsBackFree (reg : Registry) : RegistryAction → Prop
  | .autostart env _ => NamesFree reg (restartCandidates env reg)
  | _ => True

/-- No append of the action stops part-way. -/
def AppendsWhole : RegistryAction → Prop
  | .workspace call => call.env.AppendsWhole
  | .start env _ _ _ => env.AppendsWhole
  | .reconcile _ => True
  | .autostart _ attempt => ∀ i, (attempt i).AppendsWhole

structure Meets (action : RegistryAction) (reg : Registry) : Prop where
  fresh : action.Fresh reg
  free : action.BringsBackFree reg
  appends : action.AppendsWhole

theorem handle_ok (host : Host) (h : RegistryOk reg) {action : RegistryAction}
    (hmeets : action.Meets reg) :
    RegistryOk (action.handle host reg) := by
  cases action with
  | workspace call =>
    refine ⟨?_, (WorkspaceCall.rewritten (fun _ => True) host _ reg).placed h.processes⟩
    rcases WorkspaceCall.change_cases host
        { call with around := { call.around with processes := reg.processes } } reg
        hmeets.appends with
      ⟨ch, -, -, hchecked, hfile⟩ | ⟨-, -, hfile⟩
    · rw [handle, hfile]
      exact h.workspaces.stored hmeets.fresh hchecked
    · rw [handle, hfile]
      exact h.workspaces
  | start env c params around =>
    set seen : Registry := { around with workspaces := reg.workspaces, processes := reg.processes }
    have hprocesses : AllProcesses Placed seen.processes := h.processes
    refine ⟨?_, hprocesses.processStart_placed host hmeets.appends c params⟩
    have hworkspaces : (processStart host env seen c params).reg.workspaces = reg.workspaces :=
      processStart_workspaces host env seen c params
    rw [handle, hworkspaces]
    exact h.workspaces
  | reconcile env => exact h.reconcile env
  | autostart env attempt => exact h.autostart env hmeets.appends hmeets.free

end RegistryAction

/-- The registries that requests and restarts lead to from an empty one, when all of them meet a
condition. -/
inductive RegistryRun (host : Host) (Meets : RegistryAction → Registry → Prop) : Registry → Prop
  | init {reg : Registry} (hworkspaces : reg.workspaces = []) (hprocesses : reg.processes = []) :
      RegistryRun host Meets reg
  | step {reg : Registry} (action : RegistryAction) (h : RegistryRun host Meets reg)
      (hmeets : Meets action reg) : RegistryRun host Meets (action.handle host reg)

/-- The owner starts a process in workspace `x` that is to be restarted and ends at once. -/
def startJob (id : RandomId) : RegistryAction :=
  .start
    { Surroundings.calm with
      id := id
      launch := .ready true (.ok sampleController) sampleSocket }
    .owner
    [(ascii "workspace_id", .str (ascii "x")), (ascii "friendly_name", .str (ascii "a")),
      (ascii "mode", .str (ascii "stream")), (ascii "restart", .bool true),
      (ascii "argv", .arr [.str (ascii "sh")])]
    .empty

def createX (id : RandomId) : RegistryAction :=
  .workspace (createCall id (ascii "x") (ascii "/d"))

def deleteX : RegistryAction :=
  .workspace ⟨.delete, [(ascii "workspace_id", .str (ascii "x"))], .owner, .calm, .empty⟩

/-- An autostart in which every controller starts. -/
def autostartAll : RegistryAction := .autostart .calm fun i => .starting (.repeated (10 + i.toUInt8))

/-- Workspace `x` with a job, deleted. -/
def deletedX : Registry :=
  deleteX.handle .sample
    ((startJob (.repeated 2)).handle .sample ((createX (.repeated 1)).handle .sample .empty))

theorem registryRun_deletedX {Meets : RegistryAction → Registry → Prop}
    (hcreate : Meets (createX (.repeated 1)) .empty)
    (hstart : Meets (startJob (.repeated 2)) ((createX (.repeated 1)).handle .sample .empty))
    (hdelete : Meets deleteX
      ((startJob (.repeated 2)).handle .sample ((createX (.repeated 1)).handle .sample .empty))) :
    RegistryRun .sample Meets deletedX :=
  .step _ (.step _ (.step _ (.init rfl rfl) hcreate) hstart) hdelete

theorem fresh_deleteX : deleteX.Fresh
    ((startJob (.repeated 2)).handle .sample ((createX (.repeated 1)).handle .sample .empty)) := by
  have hfresh : ∀ w ∈ workspaceFormat.records ((startJob (.repeated 2)).handle .sample
      ((createX (.repeated 1)).handle .sample .empty)).workspaces,
      w.id ≠ Surroundings.calm.id.text ∧ w.name ≠ Surroundings.calm.id.text := by
    decide +kernel
  exact hfresh

end Cubicle.Manager
