import Cubicle.ExchangeSorts
import Cubicle.LastWrites
import Cubicle.ManagerMacros
import Cubicle.RpcMessages

/-!
# Saving and listing macros

What a list of macros shows after any saves. A save takes the place of the macro with the same
ordinal, so the file holds the last version of each macro that could be written. The list reads at
most 128 of them, passes over those whose text does not fit a buffer, and gives up when the answer
does not fit.
-/

namespace Cubicle.Manager
open List
open ByteText CStrings RecordFiles Utf8Sequences JsonText JsonSpelling JsonEncoding ExchangeSorts
open LastWrites

/-- The text of a macro in an answer: its workspace is printed as it is. -/
def macroInfoText (r : MacroRecord) : Bytes :=
  ascii "\x7b\"workspace_id\":\"" ++ r.workspaceId ++ ascii "\",\"ordinal\":" ++ dec r.ordinal ++
    ascii ",\"name\":\"" ++ escapeText (cstr r.name) ++ ascii "\",\"text\":\"" ++
    escapeText (cstr r.text) ++ ascii "\",\"target_pane\":" ++ dec r.targetPane ++
    ascii ",\"target_process_name\":\"" ++ escapeText (cstr r.targetProcessName) ++
    ascii "\",\"key_name\":\"" ++ escapeText (cstr r.keyName) ++ ascii "\"\x7d"

/-- `workspace_macro_info_json`, into a buffer of 1400 bytes. -/
def workspaceMacroInfoJson (r : MacroRecord) : Option Bytes := do
  let _ ← jsonEscape 128 r.name
  let _ ← jsonEscape 1024 r.text
  let _ ← jsonEscape 512 r.targetProcessName
  let _ ← jsonEscape 128 r.keyName
  if 1400 ≤ (macroInfoText r).length then none else some (macroInfoText r)

/-- What `workspace.macro.save` checks of a macro. -/
def macroSaveAllowed (r : MacroRecord) : Bool :=
  r.ordinal ≠ 0 && validateField r.name && validateField r.text &&
    (r.targetProcessName.isEmpty || validateField r.targetProcessName) &&
    (r.keyName.isEmpty || validateField r.keyName)

/-- `workspace.macro.save` for a workspace that is found and may be changed. -/
def macroSave (written : Bool) (r : MacroRecord) (file : Bytes) : Bytes × MacroAnswer :=
  if !macroSaveAllowed r then (file, .invalidArgument)
  else if !written then (file, .io)
  else
    ((rewriteWorkspaceMacroRecords (some r) r.workspaceId 0 0 0 file).1,
      if (workspaceMacroInfoJson r).isSome then .success else .internal)

/-- `workspace.macro.list` for a workspace that is found and may be read: the result, unless it is
too large. -/
def macroList (workspaceId : Bytes) (file : Bytes) : Option Bytes := do
  let found := ((macroFormat.records file).filter (·.workspaceId = workspaceId)).take 128
  let items := (exchangeSort MacroRecord.ordinal found).filterMap workspaceMacroInfoJson
  let used ← appendAll 21504 (ascii "\x7b\"macros\":[")
    (items.mapIdx fun i item => if i = 0 then item else 0x2c :: item)
  appendRaw 21504 used (ascii "]\x7d")

/-- A macro as the fields of a request give it, in a workspace the manager knows. -/
structure MacroRecord.Sent (r : MacroRecord) : Prop where
  workspaceId_plain : ∀ b ∈ r.workspaceId, Plain b
  workspaceId_ne : r.workspaceId ≠ []
  workspaceId_length : r.workspaceId.length < 33
  ordinal_lt : r.ordinal < 2 ^ 64
  name_text : Text r.name
  name_cstr : 0 ∉ r.name
  name_length : r.name.length < 64
  text_text : Text r.text
  text_cstr : 0 ∉ r.text
  text_length : r.text.length < 512
  targetPane_lt : r.targetPane < 2 ^ 64
  targetProcessName_text : Text r.targetProcessName
  targetProcessName_cstr : 0 ∉ r.targetProcessName
  targetProcessName_length : r.targetProcessName.length < 256
  keyName_text : Text r.keyName
  keyName_cstr : 0 ∉ r.keyName
  keyName_length : r.keyName.length < 64

theorem clean_of_optional {s : Bytes} (h0 : 0 ∉ s) (h : s.isEmpty = true ∨ validateField s = true) :
    Clean s := by
  rcases h with h | h
  · rw [List.isEmpty_iff.mp h]
    exact nofun
  · exact clean_of_validateField h h0

variable {r : MacroRecord}

theorem MacroRecord.Sent.valid (h : r.Sent) (hok : macroSaveAllowed r = true) : r.Valid := by
  simp only [macroSaveAllowed, Bool.and_eq_true, Bool.or_eq_true, decide_eq_true_eq] at hok
  obtain ⟨⟨⟨⟨hordinal, hname⟩, htext⟩, htarget⟩, hkey⟩ := hok
  exact
    { workspaceId_clean := fun b hb => by
        obtain ⟨hlow, -⟩ := h.workspaceId_plain b hb
        refine ⟨Bool.eq_false_iff.mpr fun hsep => ?_, ?_⟩
        · simp only [isSeparator, Bool.or_eq_true, decide_eq_true_eq] at hsep
          rcases hsep with rfl | rfl <;> simp at hlow
        · rintro rfl
          simp at hlow
      workspaceId_ne := h.workspaceId_ne
      workspaceId_length := h.workspaceId_length
      ordinal_pos := Nat.pos_of_ne_zero hordinal
      ordinal_lt := h.ordinal_lt
      name_clean := clean_of_validateField hname h.name_cstr
      name_ne := ((validateField_iff _).mp hname).1
      name_length := h.name_length
      text_clean := clean_of_validateField htext h.text_cstr
      text_length := h.text_length
      targetPane_lt := h.targetPane_lt
      targetProcessName_clean := clean_of_optional h.targetProcessName_cstr htarget
      targetProcessName_length := h.targetProcessName_length
      keyName_clean := clean_of_optional h.keyName_cstr hkey
      keyName_length := h.keyName_length }

/-- A macro is known by its workspace and its ordinal. -/
def MacroRecord.place (r : MacroRecord) : Bytes × ℕ := (r.workspaceId, r.ordinal)

theorem macroChange_upsert (r s : MacroRecord) :
    macroChange (some r) r.workspaceId 0 0 0 s =
      (some (if s.place = r.place then r else s), decide (s.place = r.place)) := by
  unfold macroChange MacroRecord.place
  by_cases hws : s.workspaceId = r.workspaceId
  · by_cases hordinal : s.ordinal = r.ordinal
    · simp [hws, hordinal]
    · simp [hws, hordinal, Ne.symm hordinal]
  · simp [hws]

/-- A save that is written puts the macro in the place of the one with the same ordinal. -/
theorem records_rewrite_upsert (h : r.Valid) (file : Bytes) :
    macroFormat.records (rewriteWorkspaceMacroRecords (some r) r.workspaceId 0 0 0 file).1 =
      upsert MacroRecord.place r (macroFormat.records file) := by
  have hvalid : ∀ s ∈ (macroFormat.records file).filterMap fun s =>
      (macroChange (some r) r.workspaceId 0 0 0 s).1, s.Valid := by
    intro s hs
    obtain ⟨t, ht, hchange⟩ := mem_filterMap.mp hs
    rw [macroChange_upsert] at hchange
    rw [← Option.some.inj hchange]
    split_ifs
    · exact h
    · exact MacroRecord.valid_of_mem_records ht
  unfold rewriteWorkspaceMacroRecords upsert
  dsimp only
  rw [Format.records_append (by decide) (macroFormat_reads.terminated_rewrite hvalid),
    macroFormat_reads.records_rewrite hvalid, map_id]
  simp only [macroChange_upsert, filterMap_eq_map', Option.map_some, Option.getD_some]
  congr 1
  split_ifs
  · rfl
  · exact macroFormat_reads.records_print r h

/-- The saves that were written. -/
def persisted (saves : List (Bool × MacroRecord)) : List MacroRecord :=
  (saves.filter Prod.fst).map Prod.snd

def fileAfter (saves : List (Bool × MacroRecord)) : Bytes :=
  saves.foldl (fun file save => (macroSave save.1 save.2 file).1) []

variable {saves : List (Bool × MacroRecord)}

theorem records_fileAfter (h : ∀ save ∈ saves, save.2.Sent ∧ macroSaveAllowed save.2 = true) :
    macroFormat.records (fileAfter saves) = tableOf MacroRecord.place (persisted saves) := by
  induction saves using List.reverseRecOn with
  | nil => rfl
  | append_singleton saves save ih =>
    obtain ⟨hsent, hallowed⟩ := h save (by simp)
    have hfile : fileAfter (saves ++ [save]) = (macroSave save.1 save.2 (fileAfter saves)).1 := by
      simp [fileAfter]
    have ih := ih fun s hs => h s (by simp [hs])
    rw [hfile, macroSave, hallowed]
    obtain ⟨written, r⟩ := save
    cases written with
    | false =>
      have hsame : persisted (saves ++ [(false, r)]) = persisted saves := by simp [persisted]
      rw [hsame]
      exact ih
    | true =>
      have hmore : persisted (saves ++ [(true, r)]) = persisted saves ++ [r] := by
        simp [persisted]
      rw [hmore, tableOf_append, ← ih]
      exact records_rewrite_upsert (hsent.valid hallowed) _

def macroMembers (r : MacroRecord) : List (Bytes × Json) :=
  [(ascii "workspace_id", .str r.workspaceId), (ascii "ordinal", .uint r.ordinal),
    (ascii "name", .str r.name), (ascii "text", .str r.text),
    (ascii "target_pane", .uint r.targetPane),
    (ascii "target_process_name", .str r.targetProcessName), (ascii "key_name", .str r.keyName)]

/-- The answer that shows some macros. -/
def macrosJson (rs : List MacroRecord) : Json :=
  .obj [(ascii "macros", .arr (rs.map fun r => .obj (macroMembers r)))]

def macrosText (rs : List MacroRecord) : Bytes :=
  ascii "\x7b\"macros\":[" ++ joinComma (rs.map macroInfoText) ++ ascii "]\x7d"

theorem macrosJson_injective : Function.Injective macrosJson := by
  intro rs ss h
  simp only [macrosJson, Json.obj.injEq, List.cons.injEq, Prod.mk.injEq, true_and, and_true,
    Json.arr.injEq] at h
  refine map_injective_iff.mpr (fun r s hrs => ?_) h
  simp only [macroMembers, Json.obj.injEq, List.cons.injEq, Prod.mk.injEq, true_and, and_true,
    Json.str.injEq, Json.uint.injEq] at hrs
  obtain ⟨h1, h2, h3, h4, h5, h6, h7⟩ := hrs
  cases r
  cases s
  simp_all

theorem spells_macroInfoText (h : r.Sent) : Spells (macroInfoText r) (.obj (macroMembers r)) := by
  have hspell := spells_obj
    [.plain "workspace_id" (by decide) (spells_str (spellsString_plain h.workspaceId_plain)),
      .plain "ordinal" (by decide) (spells_uint h.ordinal_lt),
      .plain "name" (by decide) (spells_str (spells_escapeText h.name_text)),
      .plain "text" (by decide) (spells_str (spells_escapeText h.text_text)),
      .plain "target_pane" (by decide) (spells_uint h.targetPane_lt),
      .plain "target_process_name" (by decide)
        (spells_str (spells_escapeText h.targetProcessName_text)),
      .plain "key_name" (by decide) (spells_str (spells_escapeText h.keyName_text))]
  convert hspell using 1
  · simp [macroInfoText, objectText, joinComma, memberText, Field.text, Field.plain, ascii,
      cstr_eq_self h.name_cstr, cstr_eq_self h.text_cstr, cstr_eq_self h.targetProcessName_cstr,
      cstr_eq_self h.keyName_cstr]
  · rfl

variable {rs : List MacroRecord}

/-- The answer is read as the macros it shows, with all of their fields. -/
theorem readDocument_macrosText (h : ∀ r ∈ rs, r.Sent) :
    readDocument (macrosText rs) = some (macrosJson rs) := by
  have hitems := spells_arr (rs.map fun r => (macroInfoText r, .obj (macroMembers r)))
    (by
      intro p hp
      obtain ⟨r, hmem, rfl⟩ := mem_map.mp hp
      exact spells_macroInfoText (h r hmem))
  have hspell := spells_obj [.plain "macros" (by decide) hitems]
  refine readDocument_spelled ?_
  convert hspell using 1
  · simp [macrosText, objectText, joinComma, memberText, Field.text, Field.plain, ascii, arrayText,
      Function.comp_def]
  · simp [macrosJson, Field.member, Field.plain, Function.comp_def]

/-- A macro whose text fits the buffers it is put together in. -/
def MacroFits (r : MacroRecord) : Prop := (workspaceMacroInfoJson r).isSome

instance (r : MacroRecord) : Decidable (MacroFits r) := inferInstanceAs (Decidable (_ = true))

theorem workspaceMacroInfoJson_eq {item : Bytes} (h : workspaceMacroInfoJson r = some item) :
    item = macroInfoText r := by
  simp only [workspaceMacroInfoJson, Option.bind_eq_bind, Option.bind_eq_some_iff] at h
  obtain ⟨-, -, -, -, -, -, -, -, h⟩ := h
  split_ifs at h
  exact (Option.some.inj h).symm

theorem filterMap_info (rs : List MacroRecord) :
    rs.filterMap workspaceMacroInfoJson = (rs.filter (MacroFits ·)).map macroInfoText := by
  induction rs with
  | nil => rfl
  | cons r rest ih =>
    cases h : workspaceMacroInfoJson r with
    | none =>
      rw [filterMap_cons_none h, filter_cons_of_neg (by simp [MacroFits, h]), ih]
    | some item =>
      rw [filterMap_cons_some h, filter_cons_of_pos (by simp [MacroFits, h]), ih,
        map_cons, workspaceMacroInfoJson_eq h]

theorem flatten_separated (items : List Bytes) :
    (items.mapIdx fun i item => if i = 0 then item else 0x2c :: item).flatten =
      joinComma items := by
  cases items with
  | nil => rfl
  | cons first rest =>
    have hrest : (rest.mapIdx fun _ item => (0x2c : UInt8) :: item) = rest.map (0x2c :: ·) :=
      ext_getElem (by simp) (by simp)
    rw [joinComma_cons, mapIdx_cons, flatten_cons]
    simp [flatMap_def, hrest]

def shownMacros (workspaceId : Bytes) (rs : List MacroRecord) : List MacroRecord :=
  (exchangeSort MacroRecord.ordinal
    ((rs.filter (·.workspaceId = workspaceId)).take 128)).filter (MacroFits ·)

theorem macroList_eq (workspaceId file : Bytes) :
    macroList workspaceId file =
      let shown := shownMacros workspaceId (macroFormat.records file)
      if (macrosText shown).length < 21504 then some (macrosText shown) else none := by
  have hstart : (ascii "\x7b\"macros\":[").length < 21504 := by decide
  unfold macroList
  dsimp only
  rw [filterMap_info, ← shownMacros, appendAll_eq _ _ hstart, flatten_separated]
  generalize shownMacros workspaceId (macroFormat.records file) = shown
  have hlength : (macrosText shown).length = (ascii "\x7b\"macros\":[").length +
      (joinComma (shown.map macroInfoText)).length + 2 := by
    simp [macrosText, ascii]
    omega
  have hclosed : (ascii "\x7b\"macros\":[" ++ joinComma (shown.map macroInfoText)).length +
      (ascii "]\x7d").length = (macrosText shown).length := by
    rw [hlength, length_append]
    rfl
  split_ifs with hlong hfits hfits
  · omega
  · rfl
  · simp only [Option.bind_eq_bind, Option.bind_some, appendRaw]
    rw [if_neg (by omega)]
    rfl
  · simp only [Option.bind_eq_bind, Option.bind_some, appendRaw]
    rw [if_pos (by omega)]

/-- The last version of every macro of a workspace that was saved and written, by ordinal. -/
structure IsLastSaved (workspaceId : Bytes) (saves : List (Bool × MacroRecord))
    (rs : List MacroRecord) : Prop where
  sorted : rs.Pairwise fun a b => a.ordinal < b.ordinal
  mem : ∀ r, r ∈ rs ↔
    r.workspaceId = workspaceId ∧ LastWritten MacroRecord.place (persisted saves) r

def lastSaved (workspaceId : Bytes) (saves : List (Bool × MacroRecord)) : List MacroRecord :=
  exchangeSort MacroRecord.ordinal
    ((tableOf MacroRecord.place (persisted saves)).filter (·.workspaceId = workspaceId))

theorem isLastSaved_lastSaved (workspaceId : Bytes) (saves : List (Bool × MacroRecord)) :
    IsLastSaved workspaceId saves (lastSaved workspaceId saves) := by
  have hperm := exchangeSort_perm MacroRecord.ordinal
    ((tableOf MacroRecord.place (persisted saves)).filter (·.workspaceId = workspaceId))
  have hnodup := nodup_tableOf MacroRecord.place (persisted saves)
  refine ⟨?_, fun r => ?_⟩
  · have hordinals : (lastSaved workspaceId saves).Pairwise fun a b => a.ordinal ≠ b.ordinal := by
      refine (hperm.pairwise_iff fun hab => hab.symm).mpr ?_
      have hfilter := (pairwise_map.mp hnodup).filter (·.workspaceId = workspaceId)
      refine hfilter.imp_of_mem fun {a b} ha hb hplace hsame => hplace ?_
      have hws : ∀ {c : MacroRecord}, c ∈ (tableOf MacroRecord.place (persisted saves)).filter
          (·.workspaceId = workspaceId) → c.workspaceId = workspaceId := fun hc => by
        simpa using (mem_filter.mp hc).2
      exact Prod.ext ((hws ha).trans (hws hb).symm) hsame
    exact ((exchangeSort_pairwise MacroRecord.ordinal _).and hordinals).imp
      fun hle => lt_of_le_of_ne hle.1 hle.2
  · rw [lastSaved, hperm.mem_iff, mem_filter, mem_tableOf, decide_eq_true_eq]
    exact and_comm

theorem IsLastSaved.eq {workspaceId : Bytes} {ss : List MacroRecord}
    (hr : IsLastSaved workspaceId saves rs) (hs : IsLastSaved workspaceId saves ss) : rs = ss := by
  have hnodup : ∀ {rs : List MacroRecord}, (rs.Pairwise fun a b => a.ordinal < b.ordinal) →
      rs.Nodup := fun h => h.imp fun hlt heq => by
        rw [heq] at hlt
        exact lt_irrefl _ hlt
  have hperm : rs.Perm ss :=
    (perm_ext_iff_of_nodup (hnodup hr.sorted) (hnodup hs.sorted)).mpr fun r => by
      rw [hr.mem, hs.mem]
  rw [← exchangeSort_eq MacroRecord.ordinal hperm hs.sorted,
    exchangeSort_eq MacroRecord.ordinal (List.Perm.refl rs) hr.sorted]

section Saves
variable {saves : List (Bool × MacroRecord)}
  (hsaves : ∀ save ∈ saves, save.2.Sent ∧ macroSaveAllowed save.2 = true)
include hsaves

theorem sent_of_mem_table (h : r ∈ tableOf MacroRecord.place (persisted saves)) : r.Sent := by
  obtain ⟨before, after, heq, -⟩ := (mem_tableOf MacroRecord.place).mp h
  have hr : r ∈ persisted saves := by
    rw [heq]
    simp
  obtain ⟨save, hsave, rfl⟩ := mem_map.mp hr
  exact (hsaves save (mem_of_mem_filter hsave)).1

end Saves

/-- A macro whose name is made of control characters, each of which is printed as six. -/
def controlMacro : MacroRecord :=
  ⟨ascii "w", 1, List.replicate 22 0x01, ascii "t", 0, [], []⟩

/-- The second macro is saved, the first one, and the second one again. -/
def macroSaves : List (Bool × MacroRecord) :=
  [(true, ⟨ascii "w", 2, ascii "n", ascii "t", 0, [], []⟩),
    (true, ⟨ascii "w", 1, ascii "m", ascii "u", 0, [], []⟩),
    (true, ⟨ascii "w", 2, ascii "o", ascii "v", 0, [], []⟩)]

end Cubicle.Manager
