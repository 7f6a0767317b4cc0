import Cubicle.ManagerRecords

/-!
# The macros of a workspace

The manager keeps the macros of all workspaces in one file, a line each. Saving, deleting and
reordering write the file anew, line by line, before it is known whether the macro that is asked
for is in it.
-/

namespace Cubicle.Manager
open ByteText CStrings RecordFiles List

structure MacroRecord where
  workspaceId : Bytes
  ordinal : ℕ
  name : Bytes
  text : Bytes
  targetPane : ℕ
  targetProcessName : Bytes
  keyName : Bytes
deriving DecidableEq

/-- `parse_workspace_macro_record`: a line without a target process has one field less, and what
stands behind the seventh field is passed over. -/
def parseWorkspaceMacroRecord (line : Bytes) : Option MacroRecord :=
  if 1024 ≤ line.length then none
  else
    match fieldsOf (cutNewline line) with
    | workspaceId :: ordinal :: name :: text :: targetPane :: field :: rest =>
      let record : MacroRecord :=
        { workspaceId := clip 33 workspaceId
          ordinal := strtoull ordinal
          name := clip 64 name
          text := clip 512 text
          targetPane := strtoull targetPane
          targetProcessName := if rest = [] then [] else clip 256 field
          keyName := clip 64 (rest.headD field) }
      if record.workspaceId ≠ [] ∧ 0 < record.ordinal ∧ record.name ≠ [] then some record else none
    | _ => none

def MacroRecord.fields (r : MacroRecord) : List Bytes :=
  [r.workspaceId, dec r.ordinal, r.name, r.text, dec r.targetPane, r.targetProcessName, r.keyName]

/-- The file `workspace-macros.tsv`. -/
def macroFormat : Format MacroRecord where
  size := 1024
  parse := parseWorkspaceMacroRecord
  print r := lineOf r.fields

/-- What the checks of `workspace.macro.save` and the sizes of the fields leave. -/
structure MacroRecord.Valid (r : MacroRecord) : Prop where
  workspaceId_clean : Clean r.workspaceId
  workspaceId_ne : r.workspaceId ≠ []
  workspaceId_length : r.workspaceId.length < 33
  ordinal_pos : 0 < r.ordinal
  ordinal_lt : r.ordinal < 2 ^ 64
  name_clean : Clean r.name
  name_ne : r.name ≠ []
  name_length : r.name.length < 64
  text_clean : Clean r.text
  text_length : r.text.length < 512
  targetPane_lt : r.targetPane < 2 ^ 64
  targetProcessName_clean : Clean r.targetProcessName
  targetProcessName_length : r.targetProcessName.length < 256
  keyName_clean : Clean r.keyName
  keyName_length : r.keyName.length < 64

/-- What one line becomes, and whether it is the one that is asked for. -/
def macroChange (upsert : Option MacroRecord) (workspaceId : Bytes)
    (deleteOrdinal reorderOrdinal reorderTarget : ℕ) (r : MacroRecord) :
    Option MacroRecord × Bool :=
  if r.workspaceId ≠ workspaceId then (some r, false)
  else if upsert.any (·.ordinal = r.ordinal) then (upsert, true)
  else if 0 < deleteOrdinal ∧ r.ordinal = deleteOrdinal then (none, true)
  else if 0 < reorderOrdinal then
    if r.ordinal = reorderOrdinal then (some { r with ordinal := reorderTarget }, true)
    else if reorderTarget < reorderOrdinal ∧ reorderTarget ≤ r.ordinal ∧
        r.ordinal < reorderOrdinal then
      (some { r with ordinal := r.ordinal + 1 }, false)
    else if reorderOrdinal < reorderTarget ∧ reorderOrdinal < r.ordinal ∧
        r.ordinal ≤ reorderTarget then
      (some { r with ordinal := r.ordinal - 1 }, false)
    else (some r, false)
  else (some r, false)

/-- `rewrite_workspace_macro_records`, when all of its writes succeed: the new file, and whether a
line was found. -/
def rewriteWorkspaceMacroRecords (upsert : Option MacroRecord) (workspaceId : Bytes)
    (deleteOrdinal reorderOrdinal reorderTarget : ℕ) (file : Bytes) : Bytes × Bool :=
  let change := macroChange upsert workspaceId deleteOrdinal reorderOrdinal reorderTarget
  let found := (macroFormat.records file).any fun r => (change r).2
  (macroFormat.rewrite (fun r => (change r).1) file ++
    (if found then [] else (upsert.map macroFormat.print).getD []), found)

inductive MacroAnswer
  | success | invalidArgument | notFound | io | internal
deriving DecidableEq

/-- `workspace.macro.delete` for a workspace that is found and may be changed. The file is replaced
only when everything is written. -/
def macroDelete (written : Bool) (workspaceId : Bytes) (ordinal : ℕ) (file : Bytes) :
    Bytes × MacroAnswer :=
  if ordinal = 0 then (file, .invalidArgument)
  else if !written then (file, .io)
  else
    let r := rewriteWorkspaceMacroRecords none workspaceId ordinal 0 0 file
    (r.1, if r.2 then .success else .notFound)

/-- `workspace.macro.reorder` for a workspace that is found and may be changed. -/
def macroReorder (written : Bool) (workspaceId : Bytes) (ordinal newOrdinal : ℕ) (file : Bytes) :
    Bytes × MacroAnswer :=
  if ordinal = 0 ∨ newOrdinal = 0 then (file, .invalidArgument)
  else if !written then (file, .io)
  else
    let r := rewriteWorkspaceMacroRecords none workspaceId 0 ordinal newOrdinal file
    (r.1, if r.2 then .success else .notFound)

theorem fieldsOf_newline (s : Bytes) : fieldsOf (s ++ [0x0a]) = fieldsOf s ++ [[]] := by
  induction s with
  | nil => rfl
  | cons b t ih =>
    rw [cons_append, fieldsOf, fieldsOf, ih]
    split_ifs
    · rfl
    · obtain ⟨rest, hfields⟩ := fieldsOf_eq_cons t
      rw [hfields]
      rfl

theorem fieldsOf_cutNewline {fields : List Bytes} (hne : fields ≠ [])
    (h : ∀ f ∈ fields, Clean f) : fieldsOf (cutNewline (lineOf fields)) = fields := by
  obtain ⟨body, hbody, hnewline, -⟩ := isLine_lineOf h
  have hfields := fieldsOf_lineOf hne h
  rw [hbody, fieldsOf_newline] at hfields
  rw [hbody, cutNewline_append hnewline]
  exact append_cancel_right hfields

namespace MacroRecord

theorem Valid.clean {r : MacroRecord} (h : r.Valid) : ∀ f ∈ r.fields, Clean f := by
  intro f hf
  simp only [fields, mem_cons, not_mem_nil, or_false] at hf
  rcases hf with rfl | rfl | rfl | rfl | rfl | rfl | rfl
  · exact h.workspaceId_clean
  · exact clean_dec _
  · exact h.name_clean
  · exact h.text_clean
  · exact clean_dec _
  · exact h.targetProcessName_clean
  · exact h.keyName_clean

theorem Valid.line_length {r : MacroRecord} (h : r.Valid) : (lineOf r.fields).length < 1024 := by
  have hworkspace := h.workspaceId_length
  have hordinal := dec_length_le_u64 h.ordinal_lt
  have hname := h.name_length
  have htext := h.text_length
  have hpane := dec_length_le_u64 h.targetPane_lt
  have htarget := h.targetProcessName_length
  have hkey := h.keyName_length
  rw [lineOf_length _ (by simp [fields])]
  simp only [fields, map_cons, map_nil, sum_cons, sum_nil, length_cons,
    length_nil]
  omega

theorem Valid.parse_line {r : MacroRecord} (h : r.Valid) :
    parseWorkspaceMacroRecord (lineOf r.fields) = some r := by
  have hfields : fieldsOf (cutNewline (lineOf r.fields)) = r.fields :=
    fieldsOf_cutNewline (by simp [fields]) h.clean
  rw [parseWorkspaceMacroRecord, if_neg (Nat.not_le.mpr h.line_length), hfields]
  simp only [fields, headD_cons, cons_ne_nil, if_false,
    clip_eq_self h.workspaceId_length, clip_eq_self h.name_length, clip_eq_self h.text_length,
    clip_eq_self h.targetProcessName_length, clip_eq_self h.keyName_length,
    strtoull_dec h.ordinal_lt, strtoull_dec h.targetPane_lt]
  rw [if_pos ⟨h.workspaceId_ne, h.ordinal_pos, h.name_ne⟩]

end MacroRecord

variable {r : MacroRecord} {i j o : ℕ}

theorem MacroRecord.valid_of_parse {line : Bytes} (h0 : 0 ∉ line)
    (h : parseWorkspaceMacroRecord line = some r) : r.Valid := by
  have hclean : ∀ f ∈ fieldsOf (cutNewline line), Clean f :=
    clean_fieldsOf fun hmem => h0 ((List.takeWhile_prefix _).subset hmem)
  unfold parseWorkspaceMacroRecord at h
  split_ifs at h
  split at h
  · rename_i workspaceId ordinal name text targetPane field rest hfields
    rw [hfields] at hclean
    simp only [mem_cons, forall_eq_or_imp] at hclean
    obtain ⟨hworkspace, -, hname, htext, -, hfield, hrest⟩ := hclean
    have hkey : Clean (rest.headD field) := by
      cases rest with
      | nil => exact hfield
      | cons f fs => exact hrest f (by simp)
    have htarget : Clean (if rest = [] then [] else clip 256 field) ∧
        (if rest = [] then [] else clip 256 field).length < 256 := by
      split_ifs
      · exact ⟨clean_nil, by decide⟩
      · exact ⟨hfield.clip 256, clip_length_lt (by decide) _⟩
    dsimp only at h
    generalize (if rest = [] then [] else clip 256 field) = target at h htarget
    split_ifs at h with hok
    rw [← Option.some.inj h]
    exact
      { workspaceId_clean := hworkspace.clip 33
        workspaceId_ne := hok.1
        workspaceId_length := clip_length_lt (by decide) _
        ordinal_pos := hok.2.1
        ordinal_lt := strtoull_lt _
        name_clean := hname.clip 64
        name_ne := hok.2.2
        name_length := clip_length_lt (by decide) _
        text_clean := htext.clip 512
        text_length := clip_length_lt (by decide) _
        targetPane_lt := strtoull_lt _
        targetProcessName_clean := htarget.1
        targetProcessName_length := htarget.2
        keyName_clean := hkey.clip 64
        keyName_length := clip_length_lt (by decide) _ }
  · cases h

theorem MacroRecord.valid_of_mem_records {file : Bytes} (h : r ∈ macroFormat.records file) :
    r.Valid := by
  obtain ⟨line, h0, hparse⟩ := Format.exists_parse_of_mem_records h
  exact valid_of_parse h0 hparse

theorem macroFormat_reads : macroFormat.Reads MacroRecord.Valid id where
  one_lt_size := by decide
  terminated_print r _ := terminated_lineOf r.fields
  records_print := by
    intro r h
    have hlength : (macroFormat.print r).length < 1024 := h.line_length
    refine Format.records_line (F := macroFormat) (by decide) (isLine_lineOf h.clean) ?_ ?_
    · rw [take_of_length_le (by change _ ≤ 1023; omega)]
      exact h.parse_line
    · intro p hp
      rw [drop_of_length_le (by change _ ≤ 1023; omega)] at hp
      obtain rfl := infix_nil.mp hp
      rfl

/-- Where the ordinals go when the macro `i` is moved to `j`. -/
def shifted (i j o : ℕ) : ℕ :=
  if o = i then j
  else if j < i ∧ j ≤ o ∧ o < i then o + 1
  else if i < j ∧ i < o ∧ o ≤ j then o - 1
  else o

def MakesRoom (i j o : ℕ) : Prop := (j < i ∧ j ≤ o ∧ o < i) ∨ (i < j ∧ i < o ∧ o ≤ j)

theorem shifted_injective (i j : ℕ) : Function.Injective (shifted i j) := by
  intro a b h
  unfold shifted at h
  split_ifs at h <;> omega

theorem shifted_lt_iff {a b : ℕ} (ha : a ≠ i) (hb : b ≠ i) :
    shifted i j a < shifted i j b ↔ a < b := by
  unfold shifted
  split_ifs <;> omega

theorem shifted_eq_self_iff (ho : o ≠ i) : shifted i j o = o ↔ ¬ MakesRoom i j o := by
  unfold shifted MakesRoom
  split_ifs <;> omega

theorem shifted_bounds (hi : 0 < i) (hi64 : i < 2 ^ 64) (hj : 0 < j) (hj64 : j < 2 ^ 64)
    (ho : 0 < o) (ho64 : o < 2 ^ 64) : 0 < shifted i j o ∧ shifted i j o < 2 ^ 64 := by
  unfold shifted
  split_ifs <;> omega

/-- What a line of the file becomes. -/
def MacroRecord.reordered (workspaceId : Bytes) (i j : ℕ) (r : MacroRecord) : MacroRecord :=
  if r.workspaceId = workspaceId then { r with ordinal := shifted i j r.ordinal } else r

theorem macroChange_reorder (workspaceId : Bytes) (hi : 0 < i) (j : ℕ) (r : MacroRecord) :
    macroChange none workspaceId 0 i j r =
      (some (r.reordered workspaceId i j),
        decide (r.workspaceId = workspaceId ∧ r.ordinal = i)) := by
  unfold macroChange MacroRecord.reordered shifted
  by_cases hws : r.workspaceId = workspaceId
  · simp only [hws, ne_eq, not_true_eq_false, if_false, Option.any_none, Bool.false_eq_true,
      lt_irrefl, false_and, hi, if_true, true_and]
    split_ifs with hmoved
    · simp [hmoved]
    · simp [hmoved]
    · simp [hmoved]
    · simp [hmoved, ← hws]
  · simp [hws]

theorem macroChange_delete (workspaceId : Bytes) {k : ℕ} (hk : 0 < k) (r : MacroRecord) :
    macroChange none workspaceId k 0 0 r =
      if r.workspaceId = workspaceId ∧ r.ordinal = k then (none, true) else (some r, false) := by
  unfold macroChange
  by_cases hws : r.workspaceId = workspaceId
  · simp [hws, hk]
  · simp [hws]

theorem MacroRecord.Valid.reordered (h : r.Valid) (workspaceId : Bytes) (hi : 0 < i)
    (hi64 : i < 2 ^ 64) (hj : 0 < j) (hj64 : j < 2 ^ 64) : (r.reordered workspaceId i j).Valid := by
  obtain ⟨hpos, hlt⟩ := shifted_bounds hi hi64 hj hj64 h.ordinal_pos h.ordinal_lt
  unfold MacroRecord.reordered
  split_ifs
  · exact { h with ordinal_pos := hpos, ordinal_lt := hlt }
  · exact h

/-- A rewrite of a file without a macro to be saved, from what it does to one macro. -/
theorem records_rewrite (change : MacroRecord → Option MacroRecord) (file : Bytes)
    (h : ∀ r s, r.Valid → change r = some s → s.Valid) :
    macroFormat.records (macroFormat.rewrite change file) =
      (macroFormat.records file).filterMap change := by
  rw [macroFormat_reads.records_rewrite, map_id]
  intro s hs
  obtain ⟨r, hr, hchange⟩ := mem_filterMap.mp hs
  exact h r s (MacroRecord.valid_of_mem_records hr) hchange

theorem records_macroReorder (file workspaceId : Bytes) (hi : 0 < i) (hi64 : i < 2 ^ 64)
    (hj : 0 < j) (hj64 : j < 2 ^ 64) :
    macroFormat.records (macroReorder true workspaceId i j file).1 =
      (macroFormat.records file).map (MacroRecord.reordered workspaceId i j) := by
  have hzero : ¬ (i = 0 ∨ j = 0) := by omega
  have hrecords := records_rewrite (fun r => (macroChange none workspaceId 0 i j r).1) file
    (fun r s hr hs => by
      rw [macroChange_reorder workspaceId hi] at hs
      rw [← Option.some.inj hs]
      exact hr.reordered workspaceId hi hi64 hj hj64)
  unfold macroReorder rewriteWorkspaceMacroRecords
  simp only [if_neg hzero, Bool.not_true, Bool.false_eq_true, if_false, Option.map_none,
    Option.getD_none, ite_self, append_nil]
  rw [hrecords]
  simp only [macroChange_reorder workspaceId hi, filterMap_eq_map']

theorem macroReorder_answer (file workspaceId : Bytes) (hi : 0 < i) (hj : 0 < j) :
    (macroReorder true workspaceId i j file).2 =
      if ∃ r ∈ macroFormat.records file, r.workspaceId = workspaceId ∧ r.ordinal = i then .success
      else .notFound := by
  have hzero : ¬ (i = 0 ∨ j = 0) := by omega
  unfold macroReorder rewriteWorkspaceMacroRecords
  simp only [if_neg hzero, Bool.not_true, Bool.false_eq_true, if_false,
    macroChange_reorder workspaceId hi, any_eq_true, decide_eq_true_eq]

theorem records_macroDelete_notFound (written : Bool) (file workspaceId : Bytes) (k : ℕ)
    (hanswer : (macroDelete written workspaceId k file).2 = .notFound) :
    macroFormat.records (macroDelete written workspaceId k file).1 = macroFormat.records file := by
  unfold macroDelete at hanswer ⊢
  split_ifs at hanswer ⊢ with hk hwritten
  have hpos : 0 < k := Nat.pos_of_ne_zero hk
  dsimp only [rewriteWorkspaceMacroRecords] at hanswer ⊢
  have hnone : ∀ r ∈ macroFormat.records file,
      macroChange none workspaceId k 0 0 r = (some r, false) := by
    intro r hr
    rw [macroChange_delete workspaceId hpos]
    refine if_neg fun hsame => ?_
    have hfound : ((macroFormat.records file).any fun r =>
        (macroChange none workspaceId k 0 0 r).2) = true := by
      refine any_eq_true.mpr ⟨r, hr, ?_⟩
      rw [macroChange_delete workspaceId hpos, if_pos hsame]
    rw [if_pos hfound] at hanswer
    cases hanswer
  rw [Option.map_none, Option.getD_none, ite_self, append_nil, records_rewrite]
  · rw [filterMap_congr fun r hr => congrArg Prod.fst (hnone r hr), filterMap_some]
  · intro r s hr hs
    rw [macroChange_delete workspaceId hpos] at hs
    split_ifs at hs
    rw [← Option.some.inj hs]
    exact hr

/-- One macro of a workspace moved to another place, and the others kept in their order. -/
structure Moved (workspaceId : Bytes) (i j : ℕ) (before after : List MacroRecord)
    (move : MacroRecord → MacroRecord) : Prop where
  after_eq : after = before.map move
  other : ∀ r ∈ before, r.workspaceId ≠ workspaceId → move r = r
  fields : ∀ r ∈ before, move r = { r with ordinal := (move r).ordinal }
  moved : ∀ r ∈ before, r.workspaceId = workspaceId → r.ordinal = i → (move r).ordinal = j
  order : ∀ r ∈ before, ∀ s ∈ before, r.workspaceId = workspaceId → s.workspaceId = workspaceId →
    r.ordinal ≠ i → s.ordinal ≠ i → ((move r).ordinal < (move s).ordinal ↔ r.ordinal < s.ordinal)
  distinct : ((after.filter (·.workspaceId = workspaceId)).map MacroRecord.ordinal).Nodup

theorem moved_reordered (workspaceId : Bytes) (i j : ℕ) {before : List MacroRecord}
    (h : ((before.filter (·.workspaceId = workspaceId)).map MacroRecord.ordinal).Nodup) :
    Moved workspaceId i j before (before.map (MacroRecord.reordered workspaceId i j))
      (MacroRecord.reordered workspaceId i j) where
  after_eq := rfl
  other r _ hws := if_neg hws
  fields r _ := by
    unfold MacroRecord.reordered
    split_ifs <;> rfl
  moved r _ hws hi := by
    simp [MacroRecord.reordered, hws, shifted, hi]
  order r _ s _ hr hs hri hsi := by
    simp only [MacroRecord.reordered, hr, hs, if_true]
    exact shifted_lt_iff hri hsi
  distinct := by
    have hordinals : ((before.map (MacroRecord.reordered workspaceId i j)).filter
        (·.workspaceId = workspaceId)).map MacroRecord.ordinal =
          ((before.filter (·.workspaceId = workspaceId)).map MacroRecord.ordinal).map
            (shifted i j) := by
      clear h
      induction before with
      | nil => rfl
      | cons r rest ih =>
        rw [map_cons]
        by_cases hws : r.workspaceId = workspaceId
        · have hws' : (r.reordered workspaceId i j).workspaceId = workspaceId := by
            simp [MacroRecord.reordered, hws]
          have hordinal : (r.reordered workspaceId i j).ordinal = shifted i j r.ordinal := by
            simp [MacroRecord.reordered, hws]
          rw [filter_cons_of_pos (by simpa using hws'),
            filter_cons_of_pos (by simpa using hws)]
          simp only [map_cons, hordinal, ih]
        · have hws' : r.reordered workspaceId i j = r := if_neg hws
          rw [hws', filter_cons_of_neg (by simpa using hws),
            filter_cons_of_neg (by simpa using hws), ih]
    rw [hordinals]
    exact h.map (shifted_injective i j)

/-- The moved macros are the old ones only if none of them made room and none was moved. -/
theorem map_reordered_eq_iff (workspaceId : Bytes) {before : List MacroRecord}
    (h : ∀ r ∈ before, r.workspaceId = workspaceId → r.ordinal ≠ i) :
    before.map (MacroRecord.reordered workspaceId i j) = before ↔
      ∀ r ∈ before, r.workspaceId = workspaceId → ¬ MakesRoom i j r.ordinal := by
  have hone : ∀ r ∈ before, (r.reordered workspaceId i j = r ↔
      (r.workspaceId = workspaceId → ¬ MakesRoom i j r.ordinal)) := by
    intro r hr
    unfold MacroRecord.reordered
    split_ifs with hws
    · rw [← shifted_eq_self_iff (h r hr hws)]
      refine ⟨fun heq _ => congrArg MacroRecord.ordinal heq, fun hsame => ?_⟩
      rw [hsame hws]
    · exact iff_of_true rfl fun heq => absurd heq hws
  nth_rewrite 2 [← map_id before]
  rw [map_inj_left]
  exact forall₂_congr hone

/-- Macros 5 and 7, above the places that are asked for. -/
def highMacros : Bytes := ascii "w\t5\tn\tt\t0\t\t\nw\t7\tm\tu\t0\t\t\n"

end Cubicle.Manager
