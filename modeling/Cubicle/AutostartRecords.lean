import Cubicle.ProcessChanges

/-!
# Records across a restart

A starting manager starts the marked processes again that have ended. For each of them the record is
removed first and the one of the new process appended then, so a failing append loses the process.
-/

namespace Cubicle.Manager
open ByteText CStrings RecordFiles JsonText JsonEncoding RpcEnvelope List

/-- The same command, to be run the same way. -/
structure SameJob (p q : ProcessRecord) : Prop where
  workspaceId : q.workspaceId = p.workspaceId
  friendlyName : q.friendlyName = p.friendlyName
  mode : q.mode = p.mode
  argvJson : q.argvJson = p.argvJson
  saved : q.saved = p.saved
  restart : q.restart = p.restart
  stdinPolicy : q.stdinPolicy = p.stdinPolicy

def markLost (p : ProcessRecord) : ProcessRecord :=
  ProcessUpdate.apply { state := some (ascii "lost") } p

/-- The record that stands for a process after an attempt to start it again: the old one if the
attempt fails before it is removed, the old one marked as lost if its arguments cannot be read, and
the one of the new process otherwise. -/
def successor (env : Surroundings) (reg : Registry) (old : ProcessRecord) : ProcessRecord :=
  match (ensureWorkspace env reg old).2, argvCopyFromJson old.argvJson, env.launch,
      env.rewrite 0 with
  | some _, none, _, none => markLost old
  | some w, some _, .ready exited (.ok controllerId) controlSocket, none =>
    restartedRecord env old w exited controllerId controlSocket
  | _, _, _, _ => old

theorem sameJob_successor (env : Surroundings) (reg : Registry) {old : ProcessRecord}
    (hpolicy : old.stdinPolicy ≠ []) : SameJob old (successor env reg old) := by
  unfold successor
  split
  · exact ⟨rfl, rfl, rfl, rfl, rfl, rfl, rfl⟩
  · exact ⟨rfl, rfl, rfl, rfl, rfl, rfl, if_neg hpolicy⟩
  · exact ⟨rfl, rfl, rfl, rfl, rfl, rfl, rfl⟩

/-- The records of the attempts with what stands for them afterwards. Attempts behind one that ends
the loop are not made. -/
def successors : List (ProcessRecord × Surroundings) → Registry →
    List (ProcessRecord × ProcessRecord)
  | [], _ => []
  | (old, env) :: rest, reg =>
    (old, successor env reg old) ::
      if (autostartProcess env reg old).2 then successors rest (autostartProcess env reg old).1
      else rest.map fun s => (s.1, s.1)

theorem map_fst_successors (attempts : List (ProcessRecord × Surroundings)) (reg : Registry) :
    (successors attempts reg).map Prod.fst = attempts.map Prod.fst := by
  induction attempts generalizing reg with
  | nil => rfl
  | cons s rest ih =>
    obtain ⟨old, env⟩ := s
    rw [successors, map_cons, map_cons]
    split_ifs
    · rw [ih]
    · rw [map_map]
      rfl

/-- Every record that was attempted is represented by exactly one record, what stands for it, and
every other one by itself. -/
def Represented (outcomes : List (ProcessRecord × ProcessRecord))
    (before after : List ProcessRecord) : Prop :=
  ∃ f : ProcessRecord → ProcessRecord, after.Perm (before.map f) ∧
    (∀ p ∈ before, (∀ o ∈ outcomes, o.1 ≠ p) → f p = p) ∧
    ∀ o ∈ outcomes, f o.1 = o.2 ∧ SameJob o.1 o.2

/-- The attempt gets as far as removing the record and then fails to write the new one. -/
def LosesRecord (env : Surroundings) (reg : Registry) (old : ProcessRecord) : Prop :=
  (ensureWorkspace env reg old).2 ≠ none ∧ argvCopyFromJson old.argvJson ≠ none ∧
    (∃ exited controllerId controlSocket,
      env.launch = .ready exited (.ok controllerId) controlSocket) ∧
    env.rewrite 0 = none ∧ env.append 1 ≠ none

/-- Control sockets have paths that fit the address of a socket. -/
def ShortSocket (env : Surroundings) : Prop :=
  ∀ exited controllerId controlSocket,
    env.launch = .ready exited (.ok controllerId) controlSocket → controlSocket.text.length < 108

theorem ensureWorkspace_processes (env : Surroundings) (reg : Registry) (old : ProcessRecord) :
    (ensureWorkspace env reg old).1.processes = reg.processes := by
  unfold ensureWorkspace
  split
  · rfl
  · split_ifs
    · split <;> rfl
    · rfl

variable {env : Surroundings} {reg : Registry} {old : ProcessRecord} {w : WorkspaceRecord}

theorem ensureWorkspace_found {reg' : Registry} (h : ensureWorkspace env reg old = (reg', some w)) :
    findWorkspace reg' old.workspaceId = some w := by
  unfold ensureWorkspace at h
  split at h
  · rename_i v hfind
    obtain ⟨rfl, hw⟩ := Prod.mk.inj h
    exact hfind.trans hw
  · split_ifs at h
    · split at h
      · simp at h
      · obtain ⟨rfl, hw⟩ := Prod.mk.inj h
        exact hw
    · simp at h

theorem restartedRecord_storable (hold : old.Storable) {ref : Bytes}
    (hw : findWorkspace reg ref = some w) (exited : Bool) (controllerId : FieldText 33)
    {controlSocket : FieldText 4096} (hsocket : controlSocket.text.length < 108) :
    (restartedRecord env old w exited controllerId controlSocket).Storable := by
  have hvalid := restartedRecord_valid env hold.valid (findWorkspace_valid hw) exited controllerId
    controlSocket
  refine ⟨hvalid, ?_⟩
  have hworkspace := findWorkspace_length hw
  have hid := hvalid.processId_length
  have hws := hvalid.workspaceId_length
  have hmode := hvalid.mode_length
  have hcontroller := hvalid.controllerId_length
  have hcwd := hvalid.cwd_length
  have hargv := hvalid.argvJson_length
  have hpolicy := hvalid.stdinPolicy_length
  have hname : (restartedRecord env old w exited controllerId controlSocket).workspaceName =
    w.name := rfl
  have hdirectory :
    (restartedRecord env old w exited controllerId controlSocket).workspaceDirectory =
      w.directory := rfl
  have hsock : (restartedRecord env old w exited controllerId controlSocket).controlSocket =
    controlSocket.text := rfl
  rw [ProcessRecord.longestLine, hname, hdirectory, hsock]
  omega

/-- The records with another one in the place of one of them. -/
def replaced (old new : ProcessRecord) (ps : List ProcessRecord) : List ProcessRecord :=
  ps.map fun p => if p.processId = old.processId then new else p

variable {ps : List ProcessRecord}

theorem replaced_of_forall_ne {new : ProcessRecord} (h : ∀ p ∈ ps, p.processId ≠ old.processId) :
    replaced old new ps = ps :=
  (map_congr_left fun p hp => if_neg (h p hp)).trans (map_id ps)

theorem filter_append_perm_replaced (hids : (ps.map (·.processId)).Nodup) (hold : old ∈ ps)
    (new : ProcessRecord) :
    (ps.filter (·.processId ≠ old.processId) ++ [new]).Perm (replaced old new ps) := by
  induction ps with
  | nil => simp at hold
  | cons p ps ih =>
    rw [map_cons, nodup_cons] at hids
    by_cases hp : p.processId = old.processId
    · have hothers : ∀ q ∈ ps, q.processId ≠ old.processId := by
        intro q hq heq
        exact hids.1 (mem_map.mpr ⟨q, hq, heq.trans hp.symm⟩)
      have hfilter : ps.filter (·.processId ≠ old.processId) = ps := by
        rw [filter_eq_self]
        simpa using hothers
      have hcons : replaced old new (p :: ps) = new :: ps := by
        have hrest : replaced old new ps = ps := replaced_of_forall_ne hothers
        rw [replaced, map_cons, if_pos hp, ← replaced, hrest]
      rw [filter_cons_of_neg (by simp [hp]), hfilter, hcons]
      exact perm_append_singleton new ps
    · have hmem : old ∈ ps := by
        rcases mem_cons.mp hold with rfl | hmem
        · exact absurd rfl hp
        · exact hmem
      have hcons : replaced old new (p :: ps) = p :: replaced old new ps := by
        simp [replaced, hp]
      rw [filter_cons_of_pos (by simp [hp]), hcons]
      exact (ih hids.2 hmem).cons p

theorem length_filter_lt_of_mem (hold : old ∈ ps) :
    (ps.filter (·.processId ≠ old.processId)).length < ps.length := by
  rw [length_filter_lt_length_iff_exists]
  exact ⟨old, hold, by simp⟩

theorem writable_lost :
    ∀ u ∈ some ({ state := some (ascii "lost") } : ProcessUpdate), u.Writable := by
  intro u hu
  obtain rfl := Option.some.inj hu
  exact ⟨fun state hstate => Option.some.inj hstate ▸ by decide +kernel, by simp⟩

/-- Marking a process as lost puts the marked record in the place of its record. -/
theorem apply_lost (hids : (ps.map (·.processId)).Nodup) (hold : old ∈ ps) :
    RegistryStep.apply ps (.change old.processId (some { state := some (ascii "lost") })) =
      replaced old (markLost old) ps := by
  rw [RegistryStep.apply, filterMap_changeProcess_some]
  refine map_congr_left fun p hp => ?_
  split_ifs with hpid
  · rw [inj_on_of_nodup_map hids hp hold hpid]
    rfl
  · rfl

theorem holds_removed {file : Bytes} (h : processFormat.Holds ProcessRecord.Storable file ps)
    (processId : Bytes) :
    processFormat.Holds ProcessRecord.Storable
      (processFormat.rewrite (changeProcess processId none) file)
      (ps.filter (·.processId ≠ processId)) := by
  have hnone : ∀ u ∈ (none : Option ProcessUpdate), u.Writable := by
    intro u hu
    simp at hu
  rw [← filterMap_changeProcess_none]
  exact holds_write h (s := .change processId none) hnone

theorem appendProcess_refused (file : Bytes) (p : ProcessRecord) (failure : AppendFailure) :
    ∃ errno, (appendProcess file p (some failure)).2 = some errno := by
  unfold appendProcess appendBounded
  split_ifs
  · exact ⟨_, rfl⟩
  · exact ⟨_, rfl⟩

/-- An attempt leaves the records alone and ends the loop, or replaces its record and goes on, or
removes it and ends the loop. -/
theorem autostartProcess_cases (h : processFormat.Holds ProcessRecord.Storable reg.processes ps)
    (hids : (ps.map (·.processId)).Nodup) (hold : old ∈ ps) (hsocket : ShortSocket env) :
    (¬ LosesRecord env reg old ∧ (autostartProcess env reg old).2 = false ∧
      (autostartProcess env reg old).1.processes = reg.processes ∧
      successor env reg old = old) ∨
    (¬ LosesRecord env reg old ∧ (autostartProcess env reg old).2 = true ∧
      ((successor env reg old).processId = old.processId ∨
        (successor env reg old).processId = env.id.text) ∧
      ∃ ps', ps'.Perm (replaced old (successor env reg old) ps) ∧
        processFormat.Holds ProcessRecord.Storable
          (autostartProcess env reg old).1.processes ps') ∨
    LosesRecord env reg old ∧ (autostartProcess env reg old).2 = false ∧
      (env.AppendsWhole → processFormat.records (autostartProcess env reg old).1.processes =
        ps.filter (·.processId ≠ old.processId)) := by
  have hstorable := h.2 old hold
  have hsame := ensureWorkspace_processes env reg old
  unfold autostartProcess LosesRecord
  cases hensure : ensureWorkspace env reg old with
  | mk reg' found =>
  rw [hensure] at hsame
  dsimp only at hsame ⊢
  cases found with
  | none => exact .inl ⟨by simp, rfl, hsame, by simp [successor, hensure]⟩
  | some w =>
    dsimp only
    cases hargv : argvCopyFromJson old.argvJson with
    | none =>
      dsimp only
      cases hrewrite : env.rewrite 0 with
      | some errno =>
        exact .inl ⟨by simp, rfl, hsame, by simp [successor, hensure, hargv, hrewrite]⟩
      | none =>
        have hlost : successor env reg old = markLost old := by
          simp [successor, hensure, hargv, hrewrite]
        rw [hlost]
        exact .inr (.inl ⟨by simp, rfl, .inl rfl, _, .of_eq (apply_lost hids hold),
          holds_write (hsame ▸ h) (s := .change old.processId _) writable_lost⟩)
    | some argv =>
      dsimp only
      split
      · rename_i exited controllerId controlSocket hlaunch
        cases hrewrite : env.rewrite 0 with
        | some errno =>
          exact .inl ⟨by simp, rfl, hsame, by simp [successor, hensure, hargv, hrewrite]⟩
        | none =>
          have hw := ensureWorkspace_found hensure
          have hnew : (restartedRecord env old w exited controllerId controlSocket).Storable :=
            restartedRecord_storable hstorable hw exited controllerId
              (hsocket _ _ _ hlaunch)
          have hremoved := holds_removed (hsame ▸ h : processFormat.Holds _ reg'.processes ps)
            old.processId
          dsimp only [rewriteProcesses]
          cases happend : env.append 1 with
          | some failure =>
            obtain ⟨errno, herror⟩ := appendProcess_refused
              (processFormat.rewrite (changeProcess old.processId none) reg'.processes)
              (restartedRecord env old w exited controllerId controlSocket) failure
            refine .inr (.inr ⟨⟨by simp, by simp, ⟨_, _, _, hlaunch⟩, rfl, by simp⟩, by simp [herror],
              fun hwhole => ?_⟩)
            rw [← happend] at herror ⊢
            have hfile := hwhole.file_eq (Prod.ext rfl herror)
            exact (congrArg processFormat.records hfile).trans <| hremoved.records_eq processFormat_reads_storable
          | none =>
            have hready : successor env reg old =
                restartedRecord env old w exited controllerId controlSocket := by
              simp [successor, hensure, hargv, hrewrite, hlaunch]
            rw [appendProcess_storable _ hnew, hready]
            exact .inr (.inl ⟨by simp, rfl, .inr rfl, _, filter_append_perm_replaced hids hold _,
              hremoved.append hnew⟩)
      · rename_i hlaunch
        refine .inl ⟨?_, rfl, hsame, ?_⟩
        · rintro ⟨-, -, ⟨exited, controllerId, controlSocket, hready⟩, -⟩
          exact hlaunch _ _ _ hready
        · unfold successor
          rw [hensure, hargv]
          split <;> simp_all

/-- No attempt that is made loses a record. -/
def AppendsAlong : List (ProcessRecord × Surroundings) → Registry → Prop
  | [], _ => True
  | (old, env) :: rest, reg =>
    ¬ LosesRecord env reg old ∧
      ((autostartProcess env reg old).2 = true →
        AppendsAlong rest (autostartProcess env reg old).1)

/-- Attempts on different records of the registry, with new ids for the new processes. -/
structure Attempts (attempts : List (ProcessRecord × Surroundings)) (ps : List ProcessRecord) :
    Prop where
  ids : (ps.map (·.processId)).Nodup
  mem : ∀ s ∈ attempts, s.1 ∈ ps
  different : (attempts.map (·.1)).Nodup
  policy : ∀ s ∈ attempts, s.1.stdinPolicy ≠ []
  fresh : ∀ s ∈ attempts, ∀ p ∈ ps, p.processId ≠ s.2.id.text
  new : (attempts.map (·.2.id.text)).Nodup
  socket : ∀ s ∈ attempts, ShortSocket s.2

section Attempt
variable {old new : ProcessRecord} {env : Surroundings}
  {rest : List (ProcessRecord × Surroundings)} {ps ps' : List ProcessRecord}

theorem Attempts.mem_replaced (h : Attempts ((old, env) :: rest) ps)
    (hperm : ps'.Perm (replaced old new ps)) {q : ProcessRecord} :
    q ∈ ps' ↔ (q ∈ ps ∧ q.processId ≠ old.processId) ∨ q = new := by
  have hold : old ∈ ps := h.mem (old, env) mem_cons_self
  rw [(hperm.trans (filter_append_perm_replaced h.ids hold new).symm).mem_iff]
  simp

theorem Attempts.rest_ne (h : Attempts ((old, env) :: rest) ps) {s : ProcessRecord × Surroundings}
    (hs : s ∈ rest) : s.1.processId ≠ old.processId := by
  intro heq
  have hmem : s.1 ∈ ps := h.mem s (mem_cons_of_mem _ hs)
  have hold : old ∈ ps := h.mem (old, env) mem_cons_self
  have hsame : s.1 = old := inj_on_of_nodup_map h.ids hmem hold heq
  have hdifferent := h.different
  rw [map_cons, nodup_cons] at hdifferent
  exact hdifferent.1 (mem_map.mpr ⟨s, hs, hsame⟩)

/-- What takes the place of the record is found by none of the later attempts. -/
theorem Attempts.new_ne (h : Attempts ((old, env) :: rest) ps)
    (hid : new.processId = old.processId ∨ new.processId = env.id.text) {p : ProcessRecord}
    (hp : p ∈ ps) (hpid : p.processId ≠ old.processId) : p.processId ≠ new.processId := by
  rcases hid with hid | hid
  · rwa [hid]
  · rw [hid]
    exact h.fresh (old, env) mem_cons_self p hp

theorem Attempts.later (h : Attempts ((old, env) :: rest) ps)
    (hid : new.processId = old.processId ∨ new.processId = env.id.text)
    (hperm : ps'.Perm (replaced old new ps)) : Attempts rest ps' := by
  have hold : old ∈ ps := h.mem (old, env) mem_cons_self
  have hnew := h.new
  have hdifferent := h.different
  rw [map_cons, nodup_cons] at hnew hdifferent
  refine ⟨?_, fun s hs => ?_, hdifferent.2, fun s hs => h.policy s (mem_cons_of_mem _ hs),
    fun s hs p hp => ?_, hnew.2, fun s hs => h.socket s (mem_cons_of_mem _ hs)⟩
  · have hfilter := hperm.trans (filter_append_perm_replaced h.ids hold new).symm
    rw [(hfilter.map _).nodup_iff, map_append, map_singleton]
    refine List.Nodup.append (h.ids.sublist (filter_sublist.map _)) (nodup_singleton _) ?_
    intro id hmem hsingle
    obtain rfl := mem_singleton.mp hsingle
    obtain ⟨p, hp, hpid⟩ := mem_map.mp hmem
    obtain ⟨hp, hne⟩ := mem_filter.mp hp
    exact h.new_ne hid hp (by simpa using hne) hpid
  · exact (h.mem_replaced hperm).mpr
      (.inl ⟨h.mem s (mem_cons_of_mem _ hs), h.rest_ne hs⟩)
  · have hsmem : s ∈ (old, env) :: rest := mem_cons_of_mem _ hs
    rcases (h.mem_replaced hperm).mp hp with ⟨hp, -⟩ | rfl
    · exact h.fresh s hsmem p hp
    · rcases hid with hid | hid
      · rw [hid]
        exact h.fresh s hsmem old hold
      · rw [hid]
        exact fun heq => hnew.1 (mem_map.mpr ⟨s, hs, heq.symm⟩)

theorem sameJob_refl (p : ProcessRecord) : SameJob p p := ⟨rfl, rfl, rfl, rfl, rfl, rfl, rfl⟩

theorem represented_self {outcomes : List (ProcessRecord × ProcessRecord)}
    (h : ∀ o ∈ outcomes, o.2 = o.1) (ps : List ProcessRecord) : Represented outcomes ps ps :=
  ⟨id, List.Perm.of_eq (map_id ps).symm, fun _ _ _ => rfl,
    fun o ho => ⟨(h o ho).symm, (h o ho).symm ▸ sameJob_refl _⟩⟩

/-- One attempt that replaced its record, and what the later ones do. -/
theorem Represented.cons {after : List ProcessRecord} {reg : Registry}
    {outcomes : List (ProcessRecord × ProcessRecord)}
    (hattempts : Attempts ((old, env) :: rest) ps)
    (hid : (successor env reg old).processId = old.processId ∨
      (successor env reg old).processId = env.id.text)
    (hperm : ps'.Perm (replaced old (successor env reg old) ps))
    (hfirsts : outcomes.map Prod.fst = rest.map Prod.fst) (h : Represented outcomes ps' after) :
    Represented ((old, successor env reg old) :: outcomes) ps after := by
  obtain ⟨f, hafter, hothers, hrest⟩ := h
  have hold : old ∈ ps := hattempts.mem (old, env) mem_cons_self
  have hmem : ∀ o ∈ outcomes, ∃ s ∈ rest, s.1 = o.1 := fun o ho =>
    mem_map.mp (hfirsts ▸ mem_map_of_mem ho)
  have hkept : ∀ p, p.processId ≠ old.processId →
      f (if p.processId = old.processId then successor env reg old else p) = f p :=
    fun p hp => by rw [if_neg hp]
  have hnew : f (successor env reg old) = successor env reg old := by
    refine hothers _ ((hattempts.mem_replaced hperm).mpr (.inr rfl)) fun o ho heq => ?_
    obtain ⟨s, hs, hso⟩ := hmem o ho
    exact hattempts.new_ne hid (hattempts.mem s (mem_cons_of_mem _ hs)) (hattempts.rest_ne hs)
      (congrArg ProcessRecord.processId (hso.trans heq))
  refine ⟨fun p => f (if p.processId = old.processId then successor env reg old else p), ?_,
    fun p hp hnot => ?_, ?_⟩
  · rw [← Function.comp_def f, ← map_map]
    exact hafter.trans (hperm.map f)
  · rw [forall_mem_cons] at hnot
    have hpid : p.processId ≠ old.processId :=
      fun heq => hnot.1 (inj_on_of_nodup_map hattempts.ids hold hp heq.symm)
    dsimp only
    rw [hkept p hpid]
    exact hothers p ((hattempts.mem_replaced hperm).mpr (.inl ⟨hp, hpid⟩)) hnot.2
  · rw [forall_mem_cons]
    refine ⟨?_, fun o ho => ?_⟩
    · dsimp only
      rw [if_pos rfl, hnew]
      exact ⟨rfl, sameJob_successor env reg (hattempts.policy (old, env) mem_cons_self)⟩
    · obtain ⟨s, hs, hso⟩ := hmem o ho
      dsimp only
      rw [hkept o.1 (hso ▸ hattempts.rest_ne hs)]
      exact hrest o ho

end Attempt

theorem autostartFrom_cons (old : ProcessRecord) (env : Surroundings)
    (rest : List (ProcessRecord × Surroundings)) (reg : Registry) :
    autostartFrom ((old, env) :: rest) reg =
      if (autostartProcess env reg old).2 then autostartFrom rest (autostartProcess env reg old).1
      else (autostartProcess env reg old).1 := by
  rw [autostartFrom]
  obtain ⟨reg', goOn⟩ := autostartProcess env reg old
  cases goOn with
  | false => rfl
  | true => rfl

/-- The loop represents every record, or it loses one. -/
theorem autostartFrom_outcome {attempts : List (ProcessRecord × Surroundings)}
    (h : processFormat.Holds ProcessRecord.Storable reg.processes ps)
    (hattempts : Attempts attempts ps) :
    (AppendsAlong attempts reg ∧ Represented (successors attempts reg) ps
      (processFormat.records (autostartFrom attempts reg).processes)) ∨
    ¬ AppendsAlong attempts reg ∧ ((∀ s ∈ attempts, s.2.AppendsWhole) →
      (processFormat.records (autostartFrom attempts reg).processes).length < ps.length) := by
  induction attempts generalizing reg ps with
  | nil =>
    refine .inl ⟨trivial, ?_⟩
    rw [autostartFrom, h.records_eq processFormat_reads_storable]
    exact represented_self (by simp [successors]) ps
  | cons s rest ih =>
    obtain ⟨old, env⟩ := s
    have hold : old ∈ ps := hattempts.mem (old, env) mem_cons_self
    rw [autostartFrom_cons, successors]
    rcases autostartProcess_cases h hattempts.ids hold
        (hattempts.socket (old, env) mem_cons_self) with
      ⟨hkeeps, hstop, hsame, hstays⟩ | ⟨hkeeps, hgo, hid, ps', hperm, hholds⟩ |
      ⟨hloses, hstop, hrecords⟩
    · rw [hstop]
      refine .inl ⟨⟨hkeeps, by simp [hstop]⟩, ?_⟩
      rw [if_neg (by simp), if_neg (by simp), hsame, h.records_eq processFormat_reads_storable,
        hstays]
      refine represented_self (forall_mem_cons.mpr ⟨rfl, fun o ho => ?_⟩) ps
      obtain ⟨s, -, rfl⟩ := mem_map.mp ho
      rfl
    · rw [if_pos hgo, if_pos hgo]
      have hlength : ps'.length = ps.length := by
        rw [hperm.length_eq, replaced, length_map]
      rcases ih hholds (hattempts.later hid hperm) with ⟨halong, hrest⟩ | ⟨halong, hshorter⟩
      · exact .inl ⟨⟨hkeeps, fun _ => halong⟩,
          .cons hattempts hid hperm (map_fst_successors _ _) hrest⟩
      · refine .inr ⟨fun hall => halong (hall.2 hgo), fun hwhole => ?_⟩
        rw [forall_mem_cons] at hwhole
        exact hlength ▸ hshorter hwhole.2
    · refine .inr ⟨fun hall => hall.1 hloses, fun hwhole => ?_⟩
      rw [hstop, if_neg (by simp), hrecords (hwhole (old, env) mem_cons_self)]
      exact length_filter_lt_of_mem hold

def attemptsOf (env : Surroundings) (attempt : ℕ → Surroundings) (reg : Registry) :
    List (ProcessRecord × Surroundings) :=
  (restartCandidates env reg).zipIdx.map fun e => (e.1, attempt e.2)

theorem autostartProcesses_eq (env : Surroundings) (attempt : ℕ → Surroundings) (reg : Registry) :
    autostartProcesses env attempt reg =
      if env.lock = none then autostartFrom (attemptsOf env attempt reg) reg else reg := by
  unfold autostartProcesses
  cases env.lock with
  | none => rfl
  | some errno => rfl

theorem restartCandidates_sublist (env : Surroundings) (reg : Registry) :
    (restartCandidates env reg).Sublist (processFormat.records reg.processes) := by
  have hzip : ∀ (ps : List ProcessRecord) (k : ℕ), ((ps.zipIdx k).filterMap fun e =>
      if isTerminalState (observedState env e.2 e.1) then some e.1 else none).Sublist ps := by
    intro ps
    induction ps with
    | nil => exact fun _ => List.Sublist.refl _
    | cons p ps ih =>
      intro k
      rw [zipIdx_cons, filterMap_cons]
      by_cases hended : isTerminalState (observedState env k p) = true
      · rw [if_pos hended]
        exact (ih (k + 1)).cons_cons p
      · rw [if_neg hended]
        exact (ih (k + 1)).cons p
  exact (hzip _ 0).trans filter_sublist

/-- What stands for each process that is to be started again, after an autostart. -/
def restartOutcomes (env : Surroundings) (attempt : ℕ → Surroundings) (reg : Registry) :
    List (ProcessRecord × ProcessRecord) :=
  if env.lock = none then successors (attemptsOf env attempt reg) reg
  else (restartCandidates env reg).map fun p => (p, p)

/-- If no attempt removes a record and fails to append the new one, every process that is to be
started again is represented by one record afterwards, the old one if its relaunch failed and the new
one otherwise, and the others are unchanged. When failing appends leave nothing in the file, this is
so only if no attempt does. -/
theorem restarts_represented_iff {env : Surroundings} {attempt : ℕ → Surroundings} {reg : Registry}
    {ps : List ProcessRecord} (h : processFormat.Holds ProcessRecord.Storable reg.processes ps)
    (hids : (ps.map (·.processId)).Nodup) (hpolicy : ∀ p ∈ ps, p.stdinPolicy ≠ [])
    (hfresh : ∀ s ∈ attemptsOf env attempt reg, ∀ p ∈ ps, p.processId ≠ s.2.id.text)
    (hnew : ((attemptsOf env attempt reg).map (·.2.id.text)).Nodup)
    (hsocket : ∀ s ∈ attemptsOf env attempt reg, ShortSocket s.2) :
    (restartOutcomes env attempt reg).map Prod.fst = restartCandidates env reg ∧
    ((env.lock = none → AppendsAlong (attemptsOf env attempt reg) reg) →
      Represented (restartOutcomes env attempt reg) (processFormat.records reg.processes)
        (processFormat.records (autostartProcesses env attempt reg).processes)) ∧
    ((∀ s ∈ attemptsOf env attempt reg, s.2.AppendsWhole) →
      Represented (restartOutcomes env attempt reg) (processFormat.records reg.processes)
        (processFormat.records (autostartProcesses env attempt reg).processes) →
      env.lock = none → AppendsAlong (attemptsOf env attempt reg) reg) := by
  have hrecords := h.records_eq processFormat_reads_storable
  have hsublist := restartCandidates_sublist env reg
  rw [hrecords] at hsublist
  have hmem : ∀ s ∈ attemptsOf env attempt reg, s.1 ∈ ps := by
    intro s hs
    obtain ⟨e, he, rfl⟩ := mem_map.mp hs
    exact hsublist.subset (fst_mem_of_mem_zipIdx he)
  have hfirst : (attemptsOf env attempt reg).map (·.1) = restartCandidates env reg := by
    rw [attemptsOf, map_map]
    exact zipIdx_map_fst _ _
  have hattempts : Attempts (attemptsOf env attempt reg) ps :=
    ⟨hids, hmem, hfirst ▸ (List.Nodup.of_map _ hids).sublist hsublist,
      fun s hs => hpolicy _ (hmem s hs), hfresh, hnew, hsocket⟩
  rw [autostartProcesses_eq, hrecords, restartOutcomes]
  by_cases hlock : env.lock = none
  · simp only [hlock, true_imp_iff]
    refine ⟨(map_fst_successors _ _).trans hfirst, ?_⟩
    rcases autostartFrom_outcome h hattempts with ⟨halong, hrepresented⟩ | ⟨halong, hshorter⟩
    · exact ⟨fun _ => hrepresented, fun _ _ => halong⟩
    · refine ⟨fun hall => absurd hall halong, fun hwhole ⟨f, hperm, _⟩ => ?_⟩
      have hlength := hperm.length_eq
      rw [length_map] at hlength
      exact absurd hlength (hshorter hwhole).ne
  · simp only [if_neg hlock, hrecords]
    refine ⟨?_, fun _ => represented_self (by simp) ps, fun _ _ hnone => absurd hnone hlock⟩
    rw [map_map]
    exact map_id _

/-- A shell that has ended and is to be started again. -/
def restartShell : ProcessRecord :=
  { shellRecord (.repeated 0) (ascii "a") with state := ascii "completed", restart := true }

/-- A world in which the controller starts and the registry cannot be appended to. -/
def Surroundings.noAppend : Surroundings :=
  { Surroundings.starting (.repeated 1) with append := fun _ => some ⟨28, 0⟩ }

theorem restartShell_storable : restartShell.Storable :=
  ⟨@valid_of_mem_processes (lineOf restartShell.fields) _ (by decide +kernel), by decide +kernel⟩

/-- The shell is started again and the new record stands for it. -/
theorem shell_represented :
    Represented [(restartShell, restartedRecord (.starting (.repeated 1)) restartShell
        ⟨ascii "w", ascii "n", ascii "/"⟩ false sampleController sampleSocket)]
      (processFormat.records (Registry.withShells [restartShell]).processes)
      (processFormat.records (autostartProcesses .calm (fun _ => .starting (.repeated 1))
        (.withShells [restartShell])).processes) := by
  have h : processFormat.Holds ProcessRecord.Storable
      (Registry.withShells [restartShell]).processes [restartShell] :=
    ⟨rfl, forall_mem_singleton.mpr restartShell_storable⟩
  have hcandidates : restartCandidates .calm (.withShells [restartShell]) = [restartShell] := by
    decide +kernel
  have hattempts : attemptsOf .calm (fun _ => .starting (.repeated 1))
      (.withShells [restartShell]) = [(restartShell, .starting (.repeated 1))] := by
    rw [attemptsOf, hcandidates]
    rfl
  have houtcomes : restartOutcomes .calm (fun _ => .starting (.repeated 1))
      (.withShells [restartShell]) = [(restartShell, restartedRecord (.starting (.repeated 1))
        restartShell ⟨ascii "w", ascii "n", ascii "/"⟩ false sampleController sampleSocket)] := by
    decide +kernel
  have hfresh : restartShell.processId ≠ (RandomId.repeated 1).text := by
    decide +kernel
  have hsocket : ShortSocket (.starting (.repeated 1)) := by
    intro exited controllerId controlSocket hlaunch
    obtain ⟨-, -, rfl⟩ := Launching.ready.inj hlaunch
    decide
  rw [← houtcomes]
  refine (restarts_represented_iff h (nodup_singleton _) ?_ ?_ ?_ ?_).2.1 fun _ => ?_
  · exact forall_mem_singleton.mpr (by decide)
  · rw [hattempts]
    exact forall_mem_singleton.mpr (forall_mem_singleton.mpr hfresh)
  · rw [hattempts]
    exact nodup_singleton _
  · rw [hattempts]
    exact forall_mem_singleton.mpr hsocket
  · rw [hattempts]
    refine ⟨?_, fun _ => trivial⟩
    rintro ⟨-, -, -, -, happend⟩
    exact happend rfl

/-- When the new record cannot be appended, no record is left of the process. -/
theorem restart_loses_record :
    processFormat.records (Registry.withShells [restartShell]).processes = [restartShell] ∧
    restartCandidates .calm (.withShells [restartShell]) = [restartShell] ∧
    processFormat.records (autostartProcesses .calm (fun _ => .noAppend)
      (.withShells [restartShell])).processes = [] := by
  decide +kernel

end Cubicle.Manager
