import Cubicle.ManagerWorkspaces

/-!
# Removing processes

A cleanup removes the processes that have ended and are not saved, and the deletion of a workspace
removes the processes in it. Both remove one id after the other.
-/

namespace Cubicle.Manager
open ByteText CStrings RecordFiles JsonText JsonEncoding RpcEnvelope List

/-- Every record of a file is read the same from the line that is written for it. -/
def StoredWhole (file : Bytes) : Prop := ∀ p ∈ processFormat.records file, p.kept = p

instance (file : Bytes) : Decidable (StoredWhole file) :=
  inferInstanceAs (Decidable (∀ p ∈ processFormat.records file, p.kept = p))

variable {file : Bytes} {ps : List ProcessRecord} {w : WorkspaceRecord} {env : Surroundings}
  {i n : ℕ} {reg : Registry} {workspaceId : Option Bytes} {p : ProcessRecord} {host : Host}
  {c : Connection} {params : Members}

theorem map_kept_of_storedWhole (h : StoredWhole file)
    (hps : ∀ p ∈ ps, p ∈ processFormat.records file) : ps.map ProcessRecord.kept = ps :=
  (map_congr_left fun p hp => h p (hps p hp)).trans (map_id ps)

theorem records_removed (h : StoredWhole file) (processId : Bytes) :
    processFormat.records (processFormat.rewrite (changeProcess processId none) file) =
      (processFormat.records file).filter (·.processId ≠ processId) := by
  rw [processFormat_reads.records_rewrite (valid_changeProcess file processId none (by simp)
    (by simp)), filterMap_changeProcess_none]
  exact map_kept_of_storedWhole h fun p hp => mem_of_mem_filter hp

theorem StoredWhole.removed (h : StoredWhole file) (processId : Bytes) :
    StoredWhole (processFormat.rewrite (changeProcess processId none) file) := by
  intro p hp
  rw [records_removed h] at hp
  exact h p (mem_of_mem_filter hp)

/-- A workspace that was read is read the same from the line that is written for it. -/
theorem kept_of_mem_workspaces (h : w ∈ workspaceFormat.records file) : w.kept = w := by
  obtain ⟨line, hline, hparse⟩ := mem_filterMap.mp h
  have hlength : line.length < 512 := length_lt_of_mem_fgetsLines (by decide) hline
  have hsum := sum_tokensOf_le line
  change parseWorkspaceRecord line = some w at hparse
  unfold parseWorkspaceRecord at hparse
  split at hparse
  · rename_i id name rest htokens
    obtain rfl := Option.some.inj hparse
    rw [htokens] at hsum
    simp only [WorkspaceRecord.kept, WorkspaceRecord.mk.injEq, true_and]
    apply take_of_length_le
    cases rest with
    | nil => simp [clip]
    | cons directory rest =>
      simp only [map_cons, sum_cons] at hsum
      simp only [clip, headD_cons, length_take]
      omega
  · simp at hparse

theorem workspaces_removed (file id : Bytes) :
    workspaceFormat.records (rewriteWorkspaces file id none) =
      (workspaceFormat.records file).filter (·.id ≠ id) := by
  rw [rewriteWorkspaces, workspaceFormat_reads.records_rewrite
    (valid_changeWorkspace file id none (by simp)), filterMap_changeWorkspace_none]
  refine (map_congr_left fun w hw => ?_).trans (map_id _)
  exact kept_of_mem_workspaces (mem_of_mem_filter hw)

/-- When nothing fails, all of the ids are removed and nothing else, and the ids that were there
are counted. -/
theorem removeProcesses_done {ids : List Bytes} {file' : Bytes} {removed : List Bytes}
    {flags : List Bool} (hstored : StoredWhole file)
    (h : removeProcesses env i ids file = (file', removed, flags, none)) :
    processFormat.records file' = (processFormat.records file).filter (·.processId ∉ ids) ∧
      removed = ids ∧
      (ids.Nodup → (∀ id ∈ ids, ∃ p ∈ processFormat.records file, p.processId = id) →
        flags.count true = ids.length) := by
  induction ids generalizing i file file' removed flags with
  | nil =>
    simp only [removeProcesses, Prod.mk.injEq, and_true] at h
    obtain ⟨rfl, rfl, rfl⟩ := h
    simp
  | cons processId rest ih =>
    rw [removeProcesses] at h
    cases hrewrite : env.rewrite i with
    | some errno => simp [rewriteProcesses, hrewrite] at h
    | none =>
      rw [hrewrite, rewriteProcesses] at h
      dsimp only at h
      cases htrees : removeTrees env i with
      | some errno => simp [htrees] at h
      | none =>
        rw [htrees] at h
        dsimp only at h
        generalize hrest : removeProcesses env (i + 1) rest
          (processFormat.rewrite (changeProcess processId none) file) = result at h
        obtain ⟨file'', removed', flags', failure⟩ := result
        simp only [Prod.mk.injEq] at h
        obtain ⟨rfl, rfl, rfl, rfl⟩ := h
        obtain ⟨hrecords, rfl, hflags⟩ := ih (hstored.removed processId) hrest
        rw [records_removed hstored] at hrecords hflags
        refine ⟨?_, rfl, fun hnodup hthere => ?_⟩
        · rw [hrecords, filter_filter]
          apply filter_congr
          intro p _
          by_cases heq : p.processId = processId <;> simp [heq]
        · rw [nodup_cons] at hnodup
          rw [forall_mem_cons] at hthere
          have hfound : (processFormat.records file).any (·.processId = processId) = true := by
            simpa using hthere.1
          rw [hfound, count_cons_self, length_cons, hflags hnodup.2]
          intro id hid
          obtain ⟨p, hp, rfl⟩ := hthere.2 id hid
          refine ⟨p, mem_filter.mpr ⟨hp, ?_⟩, rfl⟩
          simpa using fun heq : p.processId = processId => hnodup.1 (heq ▸ hid)

/-- The processes a cleanup is about: all, or those of one workspace. -/
def cleanupScope (reg : Registry) (workspaceId : Option Bytes) : List ProcessRecord :=
  (processFormat.records reg.processes).filter
    fun p => workspaceId = none || workspaceId = some p.workspaceId

/-- A process in scope that is seen to have ended and is not saved. -/
def Removable (env : Surroundings) (reg : Registry) (workspaceId : Option Bytes)
    (p : ProcessRecord) : Prop :=
  ∃ i, (cleanupScope reg workspaceId)[i]? = some p ∧
    isTerminalState (observedState env i p) = true ∧ p.saved = false

def cleanupReport (removed live saved : ℕ) : Bytes :=
  ascii "\x7b\"removed_count\":" ++ dec removed ++ ascii ",\"skipped_live_count\":" ++ dec live ++
    ascii ",\"skipped_saved_count\":" ++ dec saved ++ ascii ",\"failed_count\":0\x7d"

def cleanupIds (env : Surroundings) (reg : Registry) (workspaceId : Option Bytes) : List Bytes :=
  ((cleanupObserved env reg workspaceId).filter fun o => o.2 && !o.1.saved).map
    fun o => o.1.processId

theorem mem_cleanupObserved {o : ProcessRecord × Bool} :
    o ∈ cleanupObserved env reg workspaceId ↔
      ∃ i, (cleanupScope reg workspaceId)[i]? = some o.1 ∧
        isTerminalState (observedState env i o.1) = o.2 := by
  obtain ⟨p, ended⟩ := o
  change _ ∈ (cleanupScope reg workspaceId).zipIdx.map _ ↔ _
  rw [mem_map]
  constructor
  · rintro ⟨⟨q, i⟩, hq, heq⟩
    obtain ⟨rfl, rfl⟩ := Prod.mk.inj heq
    exact ⟨i, mem_zipIdx_iff_getElem?.mp hq, rfl⟩
  · rintro ⟨i, hi, hended⟩
    exact ⟨(p, i), mem_zipIdx_iff_getElem?.mpr hi, Prod.ext rfl hended⟩

theorem mem_cleanupIds {id : Bytes} :
    id ∈ cleanupIds env reg workspaceId ↔
      ∃ p, Removable env reg workspaceId p ∧ p.processId = id := by
  simp only [cleanupIds, mem_map, mem_filter, mem_cleanupObserved, Bool.and_eq_true,
    Bool.not_eq_true']
  constructor
  · rintro ⟨⟨p, ended⟩, ⟨⟨i, hi, hended⟩, hended', hsaved⟩, rfl⟩
    exact ⟨p, ⟨i, hi, hended.trans hended', hsaved⟩, rfl⟩
  · rintro ⟨p, ⟨i, hi, hended, hsaved⟩, rfl⟩
    exact ⟨(p, true), ⟨⟨i, hi, hended⟩, rfl, hsaved⟩, rfl⟩

theorem Removable.mem (h : Removable env reg workspaceId p) :
    p ∈ processFormat.records reg.processes := by
  obtain ⟨i, hi, -⟩ := h
  exact mem_of_mem_filter (mem_of_getElem? hi)

theorem map_fst_cleanupObserved (env : Surroundings) (reg : Registry)
    (workspaceId : Option Bytes) :
    (cleanupObserved env reg workspaceId).map Prod.fst = cleanupScope reg workspaceId := by
  change ((cleanupScope reg workspaceId).zipIdx.map _).map Prod.fst = _
  rw [map_map]
  exact zipIdx_map_fst 0 _

theorem cleanupIds_nodup (hids : ((processFormat.records reg.processes).map (·.processId)).Nodup) :
    (cleanupIds env reg workspaceId).Nodup := by
  have hsub : (cleanupIds env reg workspaceId).Sublist
      (((cleanupObserved env reg workspaceId).map Prod.fst).map (·.processId)) := by
    rw [map_map]
    exact filter_sublist.map _
  rw [map_fst_cleanupObserved] at hsub
  exact hids.sublist (hsub.trans (filter_sublist.map _))

/-- Removing ids that are there, each once, removes as many records. -/
theorem length_filter_notMem_ids {records : List ProcessRecord} {ids : List Bytes}
    (hrecords : (records.map (·.processId)).Nodup) (hids : ids.Nodup)
    (hthere : ∀ id ∈ ids, ∃ p ∈ records, p.processId = id) :
    (records.filter (·.processId ∉ ids)).length + ids.length = records.length := by
  have hperm : ((records.filter (·.processId ∈ ids)).map (·.processId)).Perm ids := by
    rw [perm_ext_iff_of_nodup (hrecords.sublist (filter_sublist.map _)) hids]
    intro id
    simp only [mem_map, mem_filter, decide_eq_true_eq]
    constructor
    · rintro ⟨p, ⟨-, hid⟩, rfl⟩
      exact hid
    · intro hid
      obtain ⟨p, hp, rfl⟩ := hthere id hid
      exact ⟨p, ⟨hp, hid⟩, rfl⟩
  have hlength := hperm.length_eq
  rw [length_map] at hlength
  have hsplit := length_eq_length_filter_add (l := records) (·.processId ∈ ids)
  simp only [← decide_not] at hsplit
  omega

/-- Every process in scope is removed, seen live or saved. -/
theorem cleanup_counts (observed : List (ProcessRecord × Bool)) :
    observed.countP (fun o => o.2 && !o.1.saved) + observed.countP (fun o => !o.2) +
        observed.countP (fun o => o.2 && o.1.saved) = observed.length := by
  induction observed with
  | nil => rfl
  | cons o observed ih =>
    obtain ⟨p, ended⟩ := o
    cases ended <;> cases hsaved : p.saved <;> simp [hsaved] <;> omega

/-- A cleanup that is answered with success passed its checks and removed all of its ids. -/
theorem managerCleanup_success (h : (managerCleanup host env reg c params).reply.isSuccess = true) :
    ∃ workspaceId file removed flags,
      cleanupChecks host env reg c params = .ok workspaceId ∧
      removeProcesses env 0 (cleanupIds env reg workspaceId) reg.processes =
        (file, removed, flags, none) ∧
      managerCleanup host env reg c params =
        ⟨{ reg with processes := file }, removed.map Effect.removeState,
          .success (cleanupReport (flags.count true)
            ((cleanupObserved env reg workspaceId).countP fun o => !o.2)
            ((cleanupObserved env reg workspaceId).countP fun o => o.2 && o.1.saved))⟩ := by
  rcases guarded_cases reg (cleanupChecks host env reg c params) _ with
    ⟨r, -, heq⟩ | ⟨workspaceId, hchecks, heq⟩
  · rw [managerCleanup, heq] at h
    exact absurd h (by simp [Outcome.only])
  · generalize hremove : removeProcesses env 0 (cleanupIds env reg workspaceId) reg.processes =
      result
    obtain ⟨file, removed, flags, failure⟩ := result
    have hout : managerCleanup host env reg c params = _ := heq
    change removeProcesses env 0 (List.map _ (List.filter _ _)) reg.processes = _ at hremove
    simp only [hremove] at hout
    rw [hout] at h
    cases failure with
    | some failure =>
      obtain ⟨treesFailed, errno⟩ := failure
      cases treesFailed <;> exact absurd h (by simp [Reply.ioFailure, Reply.isSuccess])
    | none => exact ⟨workspaceId, file, removed, flags, hchecks, hremove, hout⟩

/-- A shell that has ended, saved or not. -/
def endedShell (id : Bytes) (saved : Bool) : ProcessRecord :=
  { shellRecord (.repeated 0) (ascii "a") with
    processId := id
    state := ascii "completed"
    saved := saved }

/-- The only workspace with the given processes. -/
def Registry.withShells (ps : List ProcessRecord) : Registry :=
  { Registry.empty with
    workspaces := lineOf [ascii "w", ascii "n", ascii "/"]
    processes := processFormat.printAll ps }

/-- The ids of the processes a deletion removes; there is room for 256. -/
def deletedIds (reg : Registry) (w : WorkspaceRecord) : List Bytes :=
  ((workspaceProcesses reg w).take 256).map (·.processId)

theorem workspaceDelete_success {plan : LifecyclePlan}
    (hchecks : lifecycleChecks host env reg c params true = .ok plan)
    (hremove : plan.removeRetained = true)
    (h : (workspaceLifecycle host env reg c params true).reply.isSuccess = true) :
    ∃ file removed flags effects,
      removeProcesses env 1 (deletedIds reg plan.workspace) reg.processes =
        (file, removed, flags, none) ∧
      workspaceLifecycle host env reg c params true =
        ⟨{ reg with
            workspaces := rewriteWorkspaces reg.workspaces plan.workspace.id none
            processes := file },
          effects ++ removed.map Effect.removeState, .empty⟩ := by
  rw [workspaceLifecycle, hchecks, guarded_ok] at h ⊢
  dsimp only at h ⊢
  cases hverdict : lifecycleVerdict env reg plan true with
  | error r =>
    rw [hverdict] at h
    exact absurd h (by simp)
  | ok _ =>
    rw [hverdict] at h
    dsimp only at h ⊢
    generalize (if (!true || plan.stopRunning) = true then
      (liveProcesses env reg plan.workspace).map Effect.terminate else []) = effects at h ⊢
    rw [if_pos rfl, deleteWorkspace, hremove] at h ⊢
    generalize hdone : removeProcesses env 1 (deletedIds reg plan.workspace) reg.processes = result
    obtain ⟨file, removed, flags, failure⟩ := result
    change removeProcesses env 1 (List.map _ (List.take _ _)) reg.processes = _ at hdone
    simp only [if_true, hdone] at h ⊢
    cases failure with
    | some failure =>
      obtain ⟨treesFailed, errno⟩ := failure
      cases treesFailed <;> exact absurd h (by simp [Reply.ioFailure, Reply.isSuccess])
    | none => exact ⟨file, removed, flags, effects, rfl, rfl⟩

/-- A process of the workspace that is left has no place among the first 256. -/
theorem mem_deletedIds (hids : ((processFormat.records reg.processes).map (·.processId)).Nodup)
    (hp : p ∈ processFormat.records reg.processes) :
    p.processId ∈ deletedIds reg w ↔ p ∈ (workspaceProcesses reg w).take 256 := by
  rw [deletedIds, mem_map]
  constructor
  · rintro ⟨q, hq, heq⟩
    have hqmem : q ∈ processFormat.records reg.processes :=
      mem_of_mem_filter (mem_of_mem_take hq)
    rwa [← inj_on_of_nodup_map hids hqmem hp heq]
  · exact fun h => ⟨p, h, rfl⟩

theorem exists_notMem_take {α : Type} {l : List α} (h : l.Nodup) (hn : n < l.length) :
    ∃ a ∈ l, a ∉ l.take n := by
  refine ⟨l[n], getElem_mem hn, fun htake => ?_⟩
  rw [← take_append_drop n l, nodup_append] at h
  refine h.2.2 _ htake _ ?_ rfl
  rw [drop_eq_getElem_cons hn]
  exact mem_cons_self

/-- The request of the owner to delete the only workspace with its processes. -/
def deleteAll : Members :=
  [(ascii "workspace_id", .str (ascii "w")), (ascii "remove_retained_processes", .bool true)]

/-- As many shells as the number says, with the numbers as their ids. -/
def manyShells (n : ℕ) : List ProcessRecord := (List.range n).map fun i => endedShell (dec i) false

theorem endedShell_valid (h : i < 1000) : (endedShell (dec i) false).Valid := by
  have hsample : (endedShell (ascii "p") false).Valid :=
    @valid_of_mem_processes (lineOf (endedShell (ascii "p") false).fields) _ (by decide +kernel)
  have hclean := hsample.clean
  simp only [ProcessRecord.fields, ProcessRecord.head, cons_append, forall_mem_cons]
    at hclean
  refine ⟨?_, (dec_length_le (k := 3) (by decide) h).trans_lt (by decide),
    hsample.workspaceId_length, hsample.friendlyName_length, hsample.mode_length,
    hsample.state_length, hsample.controllerId_length, hsample.controlSocket_length,
    hsample.cwd_length, hsample.argvJson_length, hsample.stdinPolicy_length,
    hsample.workspaceName_length, hsample.workspaceDirectory_length⟩
  simp only [ProcessRecord.fields, ProcessRecord.head, cons_append, forall_mem_cons]
  exact ⟨clean_dec i, hclean.2⟩

theorem endedShell_kept (h : i < 1000) :
    (endedShell (dec i) false).kept = endedShell (dec i) false := by
  apply (endedShell_valid h).kept_eq
  have hlength : (dec i).length ≤ 3 := dec_length_le (by decide) h
  have hrest : (lineOf (endedShell [] false).fields).length < 100 := by decide +kernel
  have hline : lineOf (endedShell (dec i) false).fields =
      dec i ++ lineOf (endedShell [] false).fields := by rfl
  rw [hline, length_append]
  omega

theorem records_manyShells (h : n ≤ 1000) :
    processFormat.records (Registry.withShells (manyShells n)).processes = manyShells n := by
  have hlt : ∀ p ∈ manyShells n, ∃ i < 1000, endedShell (dec i) false = p := by
    intro p hp
    obtain ⟨i, hi, rfl⟩ := mem_map.mp hp
    exact ⟨i, (mem_range.mp hi).trans_le h, rfl⟩
  have hvalid : ∀ p ∈ manyShells n, p.Valid := by
    intro p hp
    obtain ⟨i, hi, rfl⟩ := hlt p hp
    exact endedShell_valid hi
  refine (processFormat_reads.records_printAll hvalid).trans
    ((map_congr_left fun p hp => ?_).trans (map_id _))
  obtain ⟨i, hi, rfl⟩ := hlt p hp
  exact endedShell_kept hi

theorem removeProcesses_calm (i : ℕ) (ids : List Bytes) (file : Bytes) :
    ∃ file' flags, removeProcesses .calm i ids file = (file', ids, flags, none) := by
  induction ids generalizing i file with
  | nil => exact ⟨file, [], rfl⟩
  | cons processId rest ih =>
    obtain ⟨file', flags, hrest⟩ :=
      ih (i + 1) (processFormat.rewrite (changeProcess processId none) file)
    refine ⟨file', (processFormat.records file).any (·.processId = processId) :: flags, ?_⟩
    have hrewrite : rewriteProcesses file processId none (Surroundings.calm.rewrite i) =
        .ok (processFormat.rewrite (changeProcess processId none) file,
          (processFormat.records file).any (·.processId = processId)) := rfl
    have htrees : removeTrees .calm i = none := rfl
    rw [removeProcesses, hrewrite]
    dsimp only
    rw [htrees]
    dsimp only
    rw [hrest]

theorem deleteAll_checks (ps : List ProcessRecord) :
    lifecycleChecks .sample .calm (.withShells ps) .owner deleteAll true =
      .ok ⟨⟨ascii "w", ascii "n", ascii "/"⟩, false, true⟩ := rfl

/-- The deletion succeeds when all processes have ended. -/
theorem deleteAll_success
    (hlive : liveProcesses .calm (.withShells ps) ⟨ascii "w", ascii "n", ascii "/"⟩ = []) :
    (workspaceLifecycle .sample .calm (.withShells ps) .owner deleteAll true).reply.isSuccess =
      true := by
  have hverdict : lifecycleVerdict .calm (.withShells ps)
      ⟨⟨ascii "w", ascii "n", ascii "/"⟩, false, true⟩ true = .ok () := by
    unfold lifecycleVerdict
    simp only [hlive]
    rfl
  obtain ⟨file, flags, hdone⟩ := removeProcesses_calm 1
    (deletedIds (.withShells ps) ⟨ascii "w", ascii "n", ascii "/"⟩)
    (Registry.withShells ps).processes
  rw [workspaceLifecycle, deleteAll_checks, guarded_ok]
  dsimp only
  rw [hverdict]
  dsimp only
  rw [if_pos rfl, deleteWorkspace]
  change removeProcesses .calm 1 (List.map _ (List.take _ _)) _ = _ at hdone
  simp only [if_true, hdone]
  rfl

end Cubicle.Manager
