import Cubicle.DeskInput
import Cubicle.DeskKeyTables

/-!
# Keys that are bound

Before desk looks a key up in its table it takes reports of the mouse and responses of the terminal
out of the input, then the prefix key and the keys of macros; in the table the first entry that
begins the input wins. Of the bytes that the parser of key names can give to a key, only those of
`M-[` pass for the start of a mouse report and only those of `F3` with modifiers for a response, so
loading can be held to what is left: the prefix key, macros and earlier entries of the table.
-/

namespace Cubicle.Config
open ByteText CStrings Desk List

/-- The special keys that have a name. -/
def specials : List Special :=
  [.csi 0x41, .csi 0x42, .csi 0x43, .csi 0x44, .csi 0x48, .csi 0x46,
    .tilde 2, .tilde 3, .tilde 5, .tilde 6] ++ (range 12).map fun n => functionKey (n + 1)

theorem le_decimalFold (v : ℕ) (ds : Bytes) :
    v ≤ ds.foldl (fun v d => v * 10 + (d.toNat - 0x30)) v := by
  induction ds generalizing v with
  | nil => exact Nat.le_refl v
  | cons d t ih => exact Nat.le_trans (by omega) (ih (v * 10 + (d.toNat - 0x30)))

theorem mem_of_ite {c : Prop} [Decidable c] {named special : Special} {other : Option Special}
    {l : List Special} (hnamed : named ∈ l) (hother : other = some special → special ∈ l) :
    (if c then some named else other) = some special → special ∈ l := by
  split_ifs
  · exact fun h => Option.some.inj h ▸ hnamed
  · exact hother

theorem mem_specials {base : Bytes} {special : Special} :
    specialKeyCode base = some special → special ∈ specials := by
  unfold specialKeyCode
  iterate 10 refine mem_of_ite (by decide) ?_
  intro h
  split at h
  · rename_i letter first digits
    split_ifs at h with hkey
    obtain ⟨-, hfirst, -, -, hle⟩ := hkey
    have hpos : 0 < decimalValue (first :: digits) :=
      Nat.lt_of_lt_of_le (show 0 < 0 * 10 + (first.toNat - 0x30) by omega) (le_decimalFold _ digits)
    rw [← Option.some.inj h]
    refine mem_append_right _ (mem_map.mpr ⟨decimalValue (first :: digits) - 1, ?_, ?_⟩)
    · exact mem_range.mpr (by omega)
    · rw [Nat.sub_add_cancel hpos]
  · cases h

/-- The bytes that a key can have. -/
inductive KeyBytes : Bytes → Prop
  | byte (b : UInt8) : KeyBytes [b]
  | alt (c : UInt8) : KeyBytes [0x1b, c]
  | plain {special : Special} (h : special ∈ specials) : KeyBytes special.plain
  | modified {special : Special} (h : special ∈ specials) (m : Modifiers) :
      KeyBytes (special.modified m.value)

theorem fst_of_map_canonical {m : Modifiers} {base bytes : Bytes} {r : Bytes × Bytes}
    (h : (canonicalModifierPrefix m base).map (fun name => (bytes, name)) = .ok r) :
    r.1 = bytes := by
  cases hname : canonicalModifierPrefix m base with
  | error e =>
    rw [hname] at h
    cases h
  | ok name =>
    rw [hname] at h
    rw [← Except.ok.inj h]

theorem keyBytes_of_readName {name : Bytes} {r : Bytes × Bytes} (h : readName name = .ok r) :
    KeyBytes r.1 := by
  cases reading_of_readName h with
  | control parsed _ hr _ =>
    rw [fst_of_map_canonical hr]
    exact .byte parsed
  | named normalised byte _ hr =>
    rw [hr]
    exact .byte byte
  | special special _ hspecial hr =>
    rw [fst_of_map_canonical hr]
    exact .modified (mem_specials hspecial) _
  | char hr =>
    unfold modifiedChar at hr
    split at hr
    · split at hr
      · split at hr
        · rw [fst_of_map_canonical hr]
          exact .alt _
        · cases hr
      · cases hr
    · cases hr
  | unmodified _ hread _ =>
    unfold unmodified at hread
    split at hread
    · rename_i special hspecial
      split_ifs at hread
      rw [← Except.ok.inj hread]
      exact .plain (mem_specials hspecial)
    · split_ifs at hread with hlength
      obtain ⟨b, rfl⟩ := length_eq_one_iff.mp hlength
      rw [← Except.ok.inj hread]
      exact .byte b

/-- The bytes of a key that is parsed. -/
theorem keyBytes_of_parse {text : Bytes} {key : DeskKey} (h : parseDeskKeyName text = .ok key) :
    KeyBytes key.sequence ∧ key.sequence ≠ [] := by
  obtain ⟨-, r, hr, hfinish⟩ := readKey_eq_ok.mp (parseDeskKeyName_eq_ok.mp h).2
  obtain ⟨⟨hne, -⟩, -, rfl⟩ := finishKey_eq_ok.mp hfinish
  exact ⟨keyBytes_of_readName hr, hne⟩

theorem Modifiers.value_mem (m : Modifiers) : m.value ∈ range 9 := by
  obtain ⟨shift, alt, control⟩ := m
  cases shift <;> cases alt <;> cases control <;> decide

namespace KeyBytes
variable {s : Bytes} (h : KeyBytes s)
include h

/-- Only Alt with an opening bracket can pass for a report of the mouse. -/
theorem no_mouse (hne : s ≠ ascii "\x1b[") :
    isIncompleteSgrMouse s = false ∧ parseSgrMouse s = none := by
  simp only [← Option.isNone_iff_eq_none]
  cases h with
  | byte b => simp [isIncompleteSgrMouse, parseSgrMouse]
  | alt c =>
    have hc : c ≠ 0x5b := by
      rintro rfl
      exact hne rfl
    simp [isIncompleteSgrMouse, parseSgrMouse, hc]
  | plain hs =>
    have hall : ∀ special ∈ specials, isIncompleteSgrMouse special.plain = false ∧
        (parseSgrMouse special.plain).isNone = true := by decide +kernel
    exact hall _ hs
  | modified hs m =>
    have hall : ∀ special ∈ specials, ∀ mod ∈ range 9,
        isIncompleteSgrMouse (special.modified mod) = false ∧
          (parseSgrMouse (special.modified mod)).isNone = true := by decide +kernel
    exact hall _ hs _ m.value_mem

/-- Only F3 with modifiers can pass for a response of the terminal, the report of the cursor. -/
theorem no_response (hcursor : ∀ m : Modifiers, s ≠ (Special.ss3 0x52).modified m.value) :
    terminalResponse s = none := by
  cases h with
  | byte b => simp [terminalResponse, csiResponse, oscResponse]
  | alt c =>
    by_cases hc : c = 0x5d
    · rw [hc]
      rfl
    · by_cases hb : c = 0x5b
      · rw [hb]
        rfl
      · simp [terminalResponse, csiResponse, oscResponse, hc, hb]
  | plain hs =>
    have hall : ∀ special ∈ specials, terminalResponse special.plain = none := by decide +kernel
    exact hall _ hs
  | @modified special hs m =>
    have hall : ∀ special ∈ specials, ∀ mod ∈ range 9, special ≠ .ss3 0x52 →
        terminalResponse (special.modified mod) = none := by decide +kernel
    refine hall _ hs _ m.value_mem ?_
    rintro rfl
    exact hcursor m rfl

end KeyBytes
end Cubicle.Config

namespace Cubicle.Desk
open ByteText CStrings Config List

section Bound
variable {σ : Type}

/-- No macro has a key, its own or a digit after the prefix, that begins the bytes of the
binding. -/
structure NoMacro (desk : Session σ) (k : Binding) : Prop where
  ordinal : k.usesPrefix = true → findDefaultMacroBinding desk.macros k.sequence = none
  custom : ∀ m ∈ desk.macros, ∀ key, m.key = some (k.usesPrefix, key) →
    begins key k.sequence = false

/-- In the normal mode, neither the mouse nor the terminal sends the bytes of the binding, the
prefix key is no part of them nor they of it, and no key of a macro and no earlier binding begins
them. -/
structure Clear (desk : Session σ) (k : Binding) : Prop extends NoMacro desk k where
  normal : desk.scrollMode = false
  ne_nil : k.sequence ≠ []
  incomplete : isIncompleteSgrMouse k.sequence = false
  mouse : desk.mouseTitles = true → parseSgrMouse k.sequence = none
  response : terminalResponse k.sequence = none
  leader : k.usesPrefix = false → begins desk.prefixSequence k.sequence = false ∧
    isPart desk.prefixSequence k.sequence = false
  first : ∃ before after, desk.bindings = before ++ k :: after ∧
    ∀ j ∈ before, j.usesPrefix = k.usesPrefix → begins j.sequence k.sequence = false

namespace Clear
variable {desk : Session σ} {k : Binding} (h : Clear desk k)
include h

theorem findCustomMacroBinding_eq_none :
    findCustomMacroBinding desk.macros k.usesPrefix k.sequence = none := by
  unfold findCustomMacroBinding
  rw [findSome?_eq_none_iff]
  intro m hm
  have hkey := h.custom m hm
  split
  · rfl
  · rename_i p sequence heq
    rw [if_neg]
    rintro ⟨rfl, hbegins⟩
    simp [hkey sequence heq] at hbegins

theorem findKeyBinding_eq_some :
    findKeyBinding desk.bindings k.usesPrefix k.sequence = some k := by
  obtain ⟨before, after, hbindings, hbefore⟩ := h.first
  refine find?_eq_some_iff_append.mpr ⟨by simp [begins, h.ne_nil], before, after, hbindings, ?_⟩
  intro j hj
  simpa [imp_iff_not_or] using hbefore j hj

theorem recognise_eq {b : UInt8} {t : Bytes} (hbytes : k.sequence = b :: t)
    (hpending : desk.prefixPending = k.usesPrefix) :
    recognise desk b t = if k.usesPrefix then .prefixedBinding k.command k.sequence.length
      else .directBinding k.command k.sequence.length := by
  have hcustom := h.findCustomMacroBinding_eq_none
  have hfind := h.findKeyBinding_eq_some
  have hmouse : (if desk.mouseTitles = true then parseSgrMouse k.sequence else none) = none := by
    simpa using h.mouse
  unfold recognise
  rw [← hbytes]
  simp only [h.incomplete, hmouse, h.response, hpending, h.normal]
  cases huses : k.usesPrefix with
  | true =>
    rw [huses] at hcustom hfind
    simp [recognisePrefixed, h.ordinal huses, hcustom, hfind]
  | false =>
    rw [huses] at hcustom hfind
    simp [recogniseDirect, h.leader huses, hcustom, hfind]

/-- The bytes of a binding that nothing else takes first execute its command alone. -/
theorem executed (hpending : desk.prefixPending = k.usesPrefix) (hands : Hands σ)
    (answers : List WriteAnswer) :
    handleInput hands desk answers k.sequence =
      (⟨hands.execute k.command { desk with prefixPending := false }, [], answers,
        [.command k.command]⟩, true) := by
  obtain ⟨b, t, hbytes⟩ := exists_cons_of_ne_nil h.ne_nil
  have hkey := h.recognise_eq hbytes hpending
  have hlength : t.drop (k.sequence.length - 1) = [] := by simp [hbytes]
  unfold handleInput
  rw [hbytes, length_cons, scan, hkey]
  cases huses : k.usesPrefix with
  | true =>
    simp only [if_true, act, Run.flush, andThen, isEmpty_nil, hlength]
    cases t <;> rfl
  | false =>
    have hsame : { desk with prefixPending := false } = desk := by rw [← huses, ← hpending]
    rw [hsame]
    simp only [Bool.false_eq_true, if_false, act, Run.flush, andThen, isEmpty_nil, if_true,
      hlength]
    cases t <;> rfl

end Clear

/-- The keys of the desk are those that were loaded. -/
def HasKeys (desk : Session σ) (settings : Settings) : Prop :=
  desk.bindings.map (fun k => (k.usesPrefix, k.sequence, k.command)) =
    settings.deskKeyBindings.map fun e => (e.usesPrefix, e.sequence, e.command)

section Loaded
variable {desk : Session σ} {env : Environment} {system user : Files} {userKeys : Bool}
  {settings : Settings} (hkeys : HasKeys desk settings)
  (hload : configLoadWithUserPolicy parseDeskKeyName env system user userKeys = (settings, none))
include hkeys hload

theorem HasKeys.keyBytes {k : Binding} (hk : k ∈ desk.bindings) :
    KeyBytes k.sequence ∧ k.sequence ≠ [] := by
  have hmem := mem_map_of_mem (f := fun k : Binding => (k.usesPrefix, k.sequence, k.command)) hk
  rw [hkeys] at hmem
  obtain ⟨e, he, heq⟩ := mem_map.mp hmem
  have hparsed := configLoad_keeps (.parsed parseDeskKeyName) nofun env system user userKeys
  rw [hload] at hparsed
  obtain ⟨text, hparse⟩ := hparsed e he
  rw [← (Prod.mk.inj (Prod.mk.inj heq).2).1]
  exact keyBytes_of_parse hparse

theorem HasKeys.nodup :
    (desk.bindings.map fun k => (k.usesPrefix, k.sequence)).Nodup := by
  have hok := configLoad_keeps (.tableOk parseDeskKeyName) .nil env system user userKeys
  rw [hload] at hok
  have hsame := congrArg (map fun x : Bool × Bytes × Bytes => (x.1, x.2.1)) hkeys
  simp only [map_map] at hsame
  exact (congrArg Nodup hsame).mpr hok.nodup

/-- An earlier entry that begins the bytes is shorter, for no two entries are typed alike. -/
theorem HasKeys.begins_eq_false {before after : List Binding} {j k : Binding}
    (hbindings : desk.bindings = before ++ k :: after) (hj : j ∈ before)
    (huses : j.usesPrefix = k.usesPrefix) (hpart : isPart k.sequence j.sequence = false) :
    begins j.sequence k.sequence = false := by
  have hnodup := hkeys.nodup hload
  rw [hbindings, map_append, map_cons, nodup_append] at hnodup
  have hne : j.sequence ≠ k.sequence := fun heq =>
    hnodup.2.2 _ (mem_map_of_mem hj) _ mem_cons_self (by rw [huses, heq])
  refine Bool.eq_false_iff.mpr fun hbegins => ?_
  obtain ⟨hnil, hprefix⟩ := Bool.and_eq_true_iff.mp hbegins
  have hstart : j.sequence <+: k.sequence := isPrefixOf_iff_prefix.mp hprefix
  have hlt : j.sequence.length < k.sequence.length :=
    lt_of_le_of_ne hstart.length_le fun hlength => hne (hstart.eq_of_length hlength)
  simp [isPart, hnil, hlt, hprefix] at hpart

/-- The bytes of a binding that was loaded, when they arrive alone, after the prefix if the binding
uses it, execute its command and do nothing else. The key is not `M-[` and not `F3` with modifiers,
no macro has it, a direct one neither begins with the prefix key nor is a part of it, and no earlier
binding of its kind has a part of its bytes. -/
theorem bound_key_executed {before after : List Binding} {k : Binding}
    (hbindings : desk.bindings = before ++ k :: after)
    (hnormal : desk.scrollMode = false) (hpending : desk.prefixPending = k.usesPrefix)
    (hmacros : NoMacro desk k) (hmouse : k.sequence ≠ ascii "\x1b[")
    (hcursor : ∀ m : Modifiers, k.sequence ≠ (Special.ss3 0x52).modified m.value)
    (hleader : k.usesPrefix = false → begins desk.prefixSequence k.sequence = false ∧
      isPart desk.prefixSequence k.sequence = false)
    (hfirst : ∀ j ∈ before, j.usesPrefix = k.usesPrefix → isPart k.sequence j.sequence = false)
    (h : Hands σ) (answers : List WriteAnswer) :
    handleInput h desk answers k.sequence =
      (⟨h.execute k.command { desk with prefixPending := false }, [], answers,
        [.command k.command]⟩, true) := by
  obtain ⟨hbytes, hne⟩ := hkeys.keyBytes hload (k := k) (by simp [hbindings])
  obtain ⟨hincomplete, hreport⟩ := hbytes.no_mouse hmouse
  exact Clear.executed ⟨hmacros, hnormal, hne, hincomplete, fun _ => hreport,
    hbytes.no_response hcursor, hleader, before, after, hbindings,
    fun j hj huses => hkeys.begins_eq_false hload hbindings hj huses (hfirst j hj huses)⟩
    hpending h answers

end Loaded
end Bound

/-- A desk that starts with the keys of a configuration. -/
def loadedDesk (settings : Settings) (prefixPending : Bool) : Session Unit where
  activePane := 1
  prefixPending := prefixPending
  scrollMode := false
  moveMode := false
  resizeMode := false
  mouseTitles := true
  prefixSequence := [0x18]
  prefixShort := Nat.le_of_ble_eq_true rfl
  bindings := settings.deskKeyBindings.filterMap fun e =>
    if h : e.sequence.length ≤ keySequenceMax then
      some ⟨e.usesPrefix, e.sequence, e.command, h⟩ else none
  macros := []
  hidden := ()

def loadKeys (keys : List (String × String)) : Settings × Option Bytes :=
  configLoadWithUserPolicy parseDeskKeyName
    ⟨0, some (ascii "/root"), none, none, none, none, none⟩ .absent
    ⟨fun _ => .file (.ofEntries (keys.map fun e =>
      ⟨ascii "desk.keys", ascii e.1, ascii e.2⟩)), fun _ => .absent⟩ true

theorem exists_load_eq {keys : List (String × String)} (h : (loadKeys keys).2 = none) :
    ∃ env system user userKeys, configLoadWithUserPolicy parseDeskKeyName env system user userKeys =
      ((loadKeys keys).1, none) :=
  ⟨_, _, _, _, Prod.ext rfl h⟩

/-- An arrow with Alt, bound by a file, behind the keys that the program binds itself. -/
def arrowKeys : List (String × String) := [("bind.up", "M-Up pane.next")]

theorem loaded_arrow_executed :
    (loadKeys arrowKeys).2 = none ∧ ∀ (h : Hands Unit) (answers : List WriteAnswer),
      (handleInput h (loadedDesk (loadKeys arrowKeys).1 false) answers (ascii "\x1b[1;3A")).1.log =
        [.command (ascii "pane.next")] := by
  -- the table is evaluated once
  obtain ⟨haccepted, hkeys, ⟨k, hk, huses, hsequence, hcommand⟩, hfirst⟩ :
      (loadKeys arrowKeys).2 = none ∧ HasKeys (loadedDesk (loadKeys arrowKeys).1 false) (loadKeys arrowKeys).1 ∧
      (∃ k ∈ (loadedDesk (loadKeys arrowKeys).1 false).bindings, k.usesPrefix = false ∧
        k.sequence = ascii "\x1b[1;3A" ∧ k.command = ascii "pane.next") ∧
      ∀ j ∈ (loadedDesk (loadKeys arrowKeys).1 false).bindings, j.usesPrefix = false →
        isPart (ascii "\x1b[1;3A") j.sequence = false := by
    unfold HasKeys
    decide +kernel
  obtain ⟨env, system, user, userKeys, hload⟩ := exists_load_eq haccepted
  refine ⟨haccepted, fun h answers => ?_⟩
  obtain ⟨before, after, hbindings⟩ := append_of_mem hk
  rw [hbindings] at hfirst
  rw [← hsequence] at hfirst ⊢
  rw [bound_key_executed hkeys hload hbindings rfl huses.symm
    ⟨by simp [huses], fun m hm => absurd hm not_mem_nil⟩ (by rw [hsequence]; decide)
    (by rw [hsequence]; rintro ⟨_ | _, _ | _, _ | _⟩ <;> decide)
    (fun _ => by rw [hsequence]; exact ⟨rfl, rfl⟩)
    (fun j hj hsame => hfirst j (mem_append_left _ hj) (hsame.trans huses)), hcommand]

def executed (log : List Effect) : List Bytes :=
  log.filterMap fun
    | .command name => some name
    | _ => none

/-- A file with these keys is accepted, it binds the bytes to `quit`, and desk executes these commands
for them. -/
def LoadedAs (keys : List (String × String)) (sequence : Bytes) (commands : List Bytes) : Prop :=
  (loadKeys keys).2 = none ∧ (loadKeys keys).1.deskPrefixSequence = [0x18] ∧
    (false, sequence, ascii "quit") ∈ (loadKeys keys).1.deskKeyBindings.map (fun e =>
      (e.usesPrefix, e.sequence, e.command)) ∧
    executed (handleInput sampleHands (loadedDesk (loadKeys keys).1 false) [] sequence).1.log =
      commands

/-- Loading accepts bindings of the prefix key, of `F3` with Shift and of Alt with a bracket, which
desk never looks up, and one of an arrow behind a binding of Escape, which takes its first byte. -/
theorem loaded_keys_slip :
    LoadedAs [("bind.a", "C-X quit")] [0x18] [] ∧
      LoadedAs [("bind.a", "S-F3 quit")] (ascii "\x1b[1;2R") [] ∧
      LoadedAs [("bind.a", "M-[ quit")] (ascii "\x1b[") [] ∧
      LoadedAs [("bind.a", "Escape menu.open"), ("bind.b", "Up quit")] (ascii "\x1b[A")
        [ascii "menu.open"] := by
  unfold LoadedAs
  decide +kernel

end Cubicle.Desk
