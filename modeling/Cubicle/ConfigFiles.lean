import Cubicle.CStrings

/-!
# Configuration files

The parser of configuration files that is built in when no library provides one. A file is a list
of entries in the order of their first appearance; a key given twice in a section keeps its place
and takes the later value. Every error names the line.
-/

namespace Cubicle.Config
open ByteText CStrings List

def trim (text : Bytes) : Bytes :=
  ((text.dropWhile isCSpace).reverse.dropWhile isCSpace).reverse

structure Entry where
  group : Bytes
  key : Bytes
  value : Bytes
deriving DecidableEq

def addEntry (group key value : Bytes) : List Entry → List Entry
  | [] => [⟨group, key, value⟩]
  | entry :: rest =>
    if entry.group = group ∧ entry.key = key then { entry with value := value } :: rest
    else entry :: addEntry group key value rest

/-- The section of the next line and the entries so far. -/
structure Parsed where
  group : Bytes
  entries : List Entry

def Parsed.empty : Parsed := ⟨[], []⟩

def Parsed.heading (r : Parsed) (inner : Bytes) : Except Bytes Parsed :=
  if 0x5d ∉ inner then .error (ascii "invalid section")
  else if trim ((inner.dropWhile (· ≠ 0x5d)).drop 1) ≠ [] then .error (ascii "invalid section")
  else
    let name := trim (inner.takeWhile (· ≠ 0x5d))
    if name = [] ∨ 256 ≤ name.length then .error (ascii "invalid section")
    else .ok { r with group := name }

def Parsed.assignment (r : Parsed) (text : Bytes) : Except Bytes Parsed :=
  if 0x3d ∉ text then .error (ascii "expected key=value")
  else
    let key := trim (text.takeWhile (· ≠ 0x3d))
    let value := trim ((text.dropWhile (· ≠ 0x3d)).drop 1)
    if r.group = [] ∨ key = [] then .error (ascii "key must be in a section")
    else .ok { r with entries := addEntry r.group key value r.entries }

def Parsed.line (r : Parsed) (line : Bytes) : Except Bytes Parsed :=
  match trim (cstr line) with
  | [] => .ok r
  | first :: rest =>
    if first = 0x23 ∨ first = 0x3b then .ok r
    else if first = 0x5b then r.heading rest
    else r.assignment (first :: rest)

def Parsed.lines (r : Parsed) (number : ℕ) : List Bytes → Except Bytes Parsed
  | [] => .ok r
  | line :: rest =>
    match r.line line with
    | .error message => .error (ascii "line " ++ dec number ++ ascii ": " ++ message)
    | .ok r => Parsed.lines r (number + 1) rest

/-- `cubicle_config_file_read` of a file that can be opened. -/
def configFileRead (text : Bytes) : Except Bytes (List Entry) :=
  (Parsed.empty.lines 1 (text.splitOn 0x0a)).map Parsed.entries

inductive Lookup
  | notFound
  | value (text : Bytes)
  | error (message : Bytes)

/-- A parsed file, as it is asked for its values; the library's parser is another one. -/
structure ConfigFile where
  getString : Bytes → Bytes → Lookup
  getKeys : Bytes → Except Bytes (List Bytes)

/-- The first entry of a section with a key. -/
def lookup (group key : Bytes) (entries : List Entry) : Option Bytes :=
  (entries.find? fun e => e.group = group ∧ e.key = key).map Entry.value

/-- `cubicle_config_file_get_string` and `cubicle_config_file_get_keys`. -/
def ConfigFile.ofEntries (entries : List Entry) : ConfigFile where
  getString group key := (lookup group key entries).elim .notFound .value
  getKeys group := .ok ((entries.filter (·.group = group)).map Entry.key)

def Entry.addTo (entries : List Entry) (e : Entry) : List Entry :=
  addEntry e.group e.key e.value entries

/-- The assignments of some lines, each line read by itself in the section it stands in. -/
def assignments : Bytes → List Bytes → List Entry
  | _, [] => []
  | group, line :: rest =>
    match Parsed.line ⟨group, []⟩ line with
    | .error _ => []
    | .ok r => r.entries ++ assignments r.group rest

variable {entries : List Entry} {group key : Bytes}

theorem lookup_cons (e : Entry) (rest : List Entry) : lookup group key (e :: rest) =
    if e.group = group ∧ e.key = key then some e.value else lookup group key rest := by
  simp only [lookup, find?_cons]
  split_ifs with h <;> simp [h]

theorem lookup_addTo (e : Entry) : lookup group key (e.addTo entries) =
    if e.group = group ∧ e.key = key then some e.value else lookup group key entries := by
  unfold Entry.addTo
  induction entries with
  | nil => rw [addEntry, lookup_cons]
  | cons a rest ih =>
    rw [addEntry, lookup_cons]
    by_cases hsame : a.group = e.group ∧ a.key = e.key
    · rw [if_pos hsame, lookup_cons, hsame.1, hsame.2]
      split_ifs <;> rfl
    · rw [if_neg hsame, lookup_cons, ih]
      split_ifs with ha he
      · exact absurd ⟨ha.1.trans he.1.symm, ha.2.trans he.2.symm⟩ hsame
      · rfl
      · rfl
      · rfl

theorem lookup_foldl (writes : List Entry) :
    lookup group key (writes.foldl Entry.addTo []) = lookup group key writes.reverse := by
  induction writes using reverseRecOn with
  | nil => rfl
  | append_singleton writes e ih =>
    rw [foldl_append, foldl_cons, foldl_nil, lookup_addTo, ih, reverse_append, reverse_singleton,
      singleton_append, lookup_cons]

theorem line_alone (line : Bytes) : Parsed.line ⟨group, entries⟩ line =
    (Parsed.line ⟨group, []⟩ line).map fun r => ⟨r.group, r.entries.foldl Entry.addTo entries⟩ := by
  unfold Parsed.line Parsed.heading Parsed.assignment
  dsimp only
  split
  · rfl
  · split_ifs <;> rfl

theorem entries_of_lines {r : Parsed} {number : ℕ} {lines : List Bytes}
    (h : Parsed.lines ⟨group, entries⟩ number lines = .ok r) :
    r.entries = (assignments group lines).foldl Entry.addTo entries := by
  induction lines generalizing group entries number with
  | nil => exact congrArg Parsed.entries (Except.ok.inj h).symm
  | cons line rest ih =>
    rw [Parsed.lines, line_alone] at h
    rw [assignments]
    cases hline : Parsed.line ⟨group, []⟩ line with
    | error message => simp [hline, Except.map] at h
    | ok r =>
      simp only [hline, Except.map] at h
      rw [ih h, foldl_append]

/-- In an accepted file, what is found under a key is the value of the last assignment to it in its
section. -/
theorem last_assignment_found {text : Bytes} (h : configFileRead text = .ok entries)
    (group key : Bytes) :
    lookup group key entries = lookup group key (assignments [] (text.splitOn 0x0a)).reverse := by
  unfold configFileRead at h
  cases hr : Parsed.empty.lines 1 (text.splitOn 0x0a) with
  | error message => simp [hr, Except.map] at h
  | ok r =>
    obtain rfl : r.entries = entries := by simpa [hr, Except.map] using h
    rw [entries_of_lines hr, lookup_foldl]

/-- Of two values for a key, the second one counts. -/
theorem second_value_found :
    lookup (ascii "cube") (ascii "a") [⟨ascii "cube", ascii "a", ascii "2"⟩] =
      lookup (ascii "cube") (ascii "a")
        (assignments [] ((ascii "[cube]\na=1\na = 2\n").splitOn 0x0a)).reverse :=
  last_assignment_found rfl _ _

end Cubicle.Config
