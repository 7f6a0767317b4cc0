import Cubicle.DeskKeyNames

/-!
# The table of desk keys

The table of keys is only changed by binding and unbinding, one key at a time. Whatever is bound by
the program itself, by the configuration files or by the block that the desk manages, no key is in
the table twice and the table keeps to its size, so that the check for conflicts after loading
finds nothing.
-/

namespace Cubicle.Config
open ByteText List

def DeskKeyBinding.stroke (binding : DeskKeyBinding) : Bool × Bytes :=
  (binding.usesPrefix, binding.sequence)

structure TableOk (bindings : List DeskKeyBinding) : Prop where
  nodup : (bindings.map DeskKeyBinding.stroke).Nodup
  length_le : bindings.length ≤ 64

theorem TableOk.nil : TableOk [] := ⟨nodup_nil, Nat.zero_le _⟩

theorem stroke_eq_iff {a b : DeskKeyBinding} :
    a.stroke = b.stroke ↔ a.usesPrefix = b.usesPrefix ∧ a.sequence = b.sequence :=
  Prod.mk_inj

theorem conflict_eq_none_iff {bindings : List DeskKeyBinding} :
    conflict bindings = none ↔ (bindings.map DeskKeyBinding.stroke).Nodup := by
  induction bindings with
  | nil => simp [conflict]
  | cons left rest ih =>
    have hmem : (rest.any fun right =>
        decide (left.usesPrefix = right.usesPrefix ∧ left.sequence = right.sequence)) = true ↔
          left.stroke ∈ rest.map DeskKeyBinding.stroke := by
      simp only [any_eq_true, decide_eq_true_eq, mem_map, ← stroke_eq_iff]
      exact exists_congr fun _ => and_congr_right fun _ => eq_comm
    rw [conflict, map_cons, nodup_cons, ← ih, ← hmem]
    split_ifs with hany
    · exact iff_of_false not_false fun hand => hand.1 hany
    · exact ⟨fun hrest => ⟨hany, hrest⟩, And.right⟩

theorem bindIn_keeps {binding : DeskKeyBinding} {bindings after : List DeskKeyBinding}
    (h : TableOk bindings) (hroom : bindings.length < 64)
    (hbind : bindIn binding bindings = .ok after) : TableOk after := by
  unfold bindIn at hbind
  dsimp only at hbind
  cases hfind : bindings.findIdx? fun e =>
      decide (e.usesPrefix = binding.usesPrefix ∧ e.sequence = binding.sequence) with
  | some i =>
    simp only [hfind] at hbind
    obtain ⟨hi, hsame, -⟩ := findIdx?_eq_some_iff_getElem.mp hfind
    have hstroke : bindings[i].stroke = binding.stroke :=
      stroke_eq_iff.mpr (of_decide_eq_true hsame)
    split_ifs at hbind
    · rw [← Except.ok.inj hbind]
      have hsub : (bindings.eraseIdx i).Sublist bindings := eraseIdx_sublist ..
      exact ⟨h.nodup.sublist (hsub.map _), hsub.length_le.trans h.length_le⟩
    · rw [← Except.ok.inj hbind]
      refine ⟨?_, by simpa using h.length_le⟩
      -- the new entry is typed like the one it replaces
      have hmap : (bindings.set i binding).map DeskKeyBinding.stroke =
          bindings.map DeskKeyBinding.stroke := by
        rw [map_set, ← hstroke,
          ← getElem_map DeskKeyBinding.stroke (h := by simpa using hi),
          set_getElem_self]
      rw [hmap]
      exact h.nodup
  | none =>
    simp only [hfind] at hbind
    split_ifs at hbind
    · rw [← Except.ok.inj hbind]
      exact h
    · rw [← Except.ok.inj hbind]
      have hfresh : binding.stroke ∉ bindings.map DeskKeyBinding.stroke := by
        intro hmem
        obtain ⟨e, he, hstroke⟩ := mem_map.mp hmem
        have hno := findIdx?_eq_none_iff.mp hfind e he
        rw [decide_eq_false_iff_not] at hno
        exact hno (stroke_eq_iff.mp hstroke)
      refine ⟨?_, by simpa using hroom⟩
      rw [map_append, map_singleton, ← concat_eq_append]
      exact h.nodup.concat hfresh

theorem mem_of_bindIn {binding e : DeskKeyBinding} {bindings after : List DeskKeyBinding}
    (hbind : bindIn binding bindings = .ok after) (he : e ∈ after) : e = binding ∨ e ∈ bindings := by
  unfold bindIn at hbind
  dsimp only at hbind
  split at hbind
  · split_ifs at hbind
    · exact Or.inr (mem_of_mem_eraseIdx (Except.ok.inj hbind ▸ he))
    · exact (mem_or_eq_of_mem_set (Except.ok.inj hbind ▸ he)).symm
  · split_ifs at hbind
    · exact Or.inr (Except.ok.inj hbind ▸ he)
    · rw [← Except.ok.inj hbind, mem_append, mem_singleton] at he
      exact he.symm

section Keys
variable (parseDeskKeyName : Bytes → Except Bytes DeskKey)

/-- A property of the table that no binding or unbinding of a key takes away. -/
structure KeptByBinding (P : List DeskKeyBinding → Prop) : Prop where
  bind : ∀ {keyName command : Bytes} {key : DeskKey} {builtin : Bool} {bindings after},
    parseDeskKeyName keyName = .ok key → bindings.length < 64 → P bindings →
      bindIn ⟨key, command, builtin⟩ bindings = .ok after → P after

theorem KeptByBinding.tableOk : KeptByBinding parseDeskKeyName TableOk where
  bind _ hroom h hbind := bindIn_keeps h hroom hbind

/-- Every key of the table was read by the parser of key names. -/
theorem KeptByBinding.parsed : KeptByBinding parseDeskKeyName fun bindings =>
    ∀ e ∈ bindings, ∃ keyName, parseDeskKeyName keyName = .ok e.toDeskKey where
  bind hparse _ h hbind e he := by
    rcases mem_of_bindIn hbind he with rfl | he
    · exact ⟨_, hparse⟩
    · exact h e he

section Kept
variable {parseDeskKeyName} {P : List DeskKeyBinding → Prop}
  (hP : KeptByBinding parseDeskKeyName P)
include hP

theorem addDeskKeyBinding_keeps (keyName command : Bytes) (builtin : Bool) (c : Settings)
    (h : P c.deskKeyBindings) :
    P (addDeskKeyBinding parseDeskKeyName keyName command builtin c).1.deskKeyBindings := by
  unfold addDeskKeyBinding
  split
  · exact h
  · rename_i hfull
    split
    · exact h
    · rename_i key hparse
      split_ifs
      · exact h
      · exact h
      · split
        · exact h
        · rename_i after hbind
          exact hP.bind hparse (Nat.not_le.mp hfull) h hbind

theorem LoadRelation.keeps (allow : Bool) :
    LoadRelation parseDeskKeyName allow fun c d => P c.deskKeyBindings → P d.deskKeyBindings where
  trans hab hbc ha := hbc (hab ha)
  other _ htable h := htable ▸ h
  control _ _ _ htable h := htable ▸ h
  bind keyName command builtin c h := addDeskKeyBinding_keeps hP keyName command builtin c h

theorem configDefaults_keeps (hnil : P []) (env : Environment) :
    P (configDefaults parseDeskKeyName env).deskKeyBindings := by
  have hfold : ∀ (entries : List (Bytes × Bytes)) (c : Settings), P c.deskKeyBindings →
      P (entries.foldl (fun c entry =>
        (addDeskKeyBinding parseDeskKeyName entry.1 entry.2 true c).1) c).deskKeyBindings := by
    intro entries
    induction entries with
    | nil => exact fun _ h => h
    | cons e rest ih => exact fun c h => ih _ (addDeskKeyBinding_keeps hP e.1 e.2 true c h)
  unfold configDefaults
  exact hfold _ _ hnil

theorem configLoad_keeps (hnil : P []) (env : Environment) (system user : Files)
    (userKeys : Bool) :
    P (configLoadWithUserPolicy parseDeskKeyName env system user userKeys).1.deskKeyBindings := by
  have hdefaults := configDefaults_keeps hP hnil env
  have hvalidate := Step.Within.configValidate (LoadRelation.keeps hP true)
  unfold configLoadWithUserPolicy
  split
  · refine Step.Within.all (.keeps hP true) (fun f hf => ?_) _ hdefaults
    rcases mem_pair.mp hf with rfl | rfl
    · exact Step.Within.applyConfigPathWithDropins (.keeps hP true) _ _ _ _
    · exact hvalidate
  · refine Step.Within.all (.keeps hP true) (fun f hf => ?_) _ hdefaults
    rcases mem_append.mp hf with hsystem | huser
    · obtain ⟨path, -, rfl⟩ := mem_map.mp hsystem
      exact Step.Within.applyConfigPathWithDropins (.keeps hP true) _ _ _ _
    · rcases mem_pair.mp huser with rfl | rfl
      · exact Step.Within.userLayer (.keeps hP userKeys) env user
      · exact hvalidate

end Kept

/-- A binding or unbinding that the program, a configuration file or the managed block asks for. -/
structure BindRequest where
  keyName : Bytes
  command : Bytes
  builtin : Bool

/-- The configuration after some bindings, each of which may have been refused. -/
def bindAll (requests : List BindRequest) (c : Settings) : Settings :=
  requests.foldl
    (fun c r => (addDeskKeyBinding parseDeskKeyName r.keyName r.command r.builtin c).1) c

theorem bindAll_keeps (requests : List BindRequest) (c : Settings)
    (h : TableOk c.deskKeyBindings) :
    TableOk (bindAll parseDeskKeyName requests c).deskKeyBindings := by
  induction requests generalizing c with
  | nil => exact h
  | cons r rest ih =>
    exact ih _ (addDeskKeyBinding_keeps (.tableOk _) r.keyName r.command r.builtin c h)

/-- However keys are bound and unbound, in an empty table or in one that was loaded, no two entries
are typed alike, there are at most 64 of them, and the check for conflicts passes. -/
theorem desk_keys_distinct (start : Settings) (requests : List BindRequest)
    (hstart : start.deskKeyBindings = [] ∨ ∃ env system user userKeys,
      start = (configLoadWithUserPolicy parseDeskKeyName env system user userKeys).1) :
    let bindings := (bindAll parseDeskKeyName requests start).deskKeyBindings
    (bindings.Pairwise fun a b => ¬ (a.usesPrefix = b.usesPrefix ∧ a.sequence = b.sequence)) ∧
      bindings.length ≤ 64 ∧ conflict bindings = none := by
  have hok : TableOk start.deskKeyBindings := by
    rcases hstart with hempty | ⟨env, system, user, userKeys, rfl⟩
    · rw [hempty]
      exact .nil
    · exact configLoad_keeps (.tableOk _) .nil env system user userKeys
  have h := bindAll_keeps parseDeskKeyName requests start hok
  refine ⟨?_, h.length_le, conflict_eq_none_iff.mpr h.nodup⟩
  exact (pairwise_map.mp h.nodup).imp fun hne hsame => hne (stroke_eq_iff.mpr hsame)

end Keys

theorem rebound_defaults_distinct :
    conflict (bindAll parseDeskKeyName
      [⟨ascii "Prefix-n", ascii "quit", false⟩, ⟨ascii "Prefix-N", ascii "none", false⟩,
        ⟨ascii "Prefix-n", ascii "menu.open", false⟩]
      (configLoad parseDeskKeyName ⟨0, none, none, none, none, none, none⟩ .absent .absent).1
      ).deskKeyBindings = none :=
  (desk_keys_distinct parseDeskKeyName _ _
    (Or.inr ⟨⟨0, none, none, none, none, none, none⟩, .absent, .absent, true, rfl⟩)).2.2

end Cubicle.Config
