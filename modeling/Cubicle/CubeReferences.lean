import Cubicle.JsonEncoding
import Cubicle.RecordFiles

/-!
# References to processes

`cube` refers to a process by its name, in the workspace that is selected, or by the name of its
workspace, a dot and its name. A reference is cut at its last dot, but the names that are accepted
when a process is created may have dots in them.
-/

namespace Cubicle.CubeReferences
open ByteText CStrings RecordFiles JsonEncoding List

/-- `CUBICLE_NAME_MAX`. -/
def nameMax : ℕ := 256

def validName (name : Bytes) : Bool := name ≠ [] && 0x09 ∉ name && 0x0a ∉ name

/-- `cubeui_store_selected_workspace`: what the state file then holds. -/
def storeSelectedWorkspace (name : Bytes) : Option Bytes :=
  if nameMax + 1 < (name ++ [0x0a]).length then none else some (name ++ [0x0a])

/-- The names that `workspace_create_or_select` does not refuse. -/
def workspaceAccepted (name : Bytes) : Bool :=
  validName name && (jsonEscape (nameMax * 2) name).isSome && (storeSelectedWorkspace name).isSome

/-- The names that `process_run` does not refuse. -/
def processAccepted (name : Bytes) : Bool := validName name && name.length < nameMax

def readSelectedWorkspace (file : Option Bytes) : Option Bytes :=
  (file.map fun text => cutNewline (fgetsLine nameMax text)).filter (· ≠ [])

/-- The workspace of the options, the state file, and the first workspace the manager lists. -/
structure Selection where
  option : Option Bytes
  selected : Option Bytes
  first : Option Bytes

/-- `resolve_workspace_selection`: the name, and whether it was the selected one. -/
def resolveWorkspaceSelection (s : Selection) : Option (Bytes × Bool) :=
  match s.option.filter (· ≠ []), readSelectedWorkspace s.selected with
  | some name, _ => if name.length < nameMax then some (name, false) else none
  | none, some name => some (name, true)
  | none, none => s.first.map fun name => (name, false)

/-- `cube_process_ref_t`. -/
structure ProcessRef where
  workspace : Option Bytes
  process : Bytes
  fromSelectedWorkspace : Bool
deriving DecidableEq

def splitQualifiedProcessRef (input : Bytes) : Except String (Option (Bytes × Bytes)) :=
  if 0x2e ∉ input then .ok none
  else
    let process := (input.reverse.takeWhile (· ≠ 0x2e)).reverse
    let workspace := (input.reverse.dropWhile (· ≠ 0x2e)).tail.reverse
    if workspace = [] ∨ process = [] then .error "cube: invalid process reference"
    else if nameMax ≤ workspace.length ∨ nameMax ≤ process.length then
      .error "cube: process reference is too long"
    else .ok (some (workspace, process))

/-- `resolve_process_ref`, with the message and the exit code of its errors. -/
def resolveProcessRef (s : Selection) (input : Bytes) (requireWorkspace : Bool) :
    Except (String × ℕ) ProcessRef :=
  if validName input = false then .error ("cube: invalid process name", 2)
  else
    match splitQualifiedProcessRef input with
    | .error message => .error (message, 2)
    | .ok (some (workspace, process)) =>
      if validName workspace && validName process then .ok ⟨some workspace, process, false⟩
      else .error ("cube: invalid process reference", 2)
    | .ok none =>
      if nameMax ≤ input.length then .error ("cube: process name is too long", 2)
      else
        match resolveWorkspaceSelection s with
        | some (workspace, selected) => .ok ⟨some workspace, input, selected⟩
        | none =>
          if requireWorkspace then .error ("cube: no workspace selected", 1)
          else .ok ⟨none, input, false⟩

/-- A reference means the process of a workspace. -/
def Resolves (s : Selection) (input workspace process : Bytes) : Prop :=
  ∀ requireWorkspace, ∃ selected,
    resolveProcessRef s input requireWorkspace = .ok ⟨some workspace, process, selected⟩

theorem validName_iff {name : Bytes} :
    validName name = true ↔ name ≠ [] ∧ 0x09 ∉ name ∧ 0x0a ∉ name := by
  simp [validName, and_assoc]

variable {w p : Bytes}

/-- The last dot is the one before a name without dots. -/
theorem split_at_dot (w : Bytes) (hp : 0x2e ∉ p) :
    (w ++ 0x2e :: p).reverse.takeWhile (· ≠ 0x2e) = p.reverse ∧
      (w ++ 0x2e :: p).reverse.dropWhile (· ≠ 0x2e) = 0x2e :: w.reverse := by
  have hreverse : (w ++ 0x2e :: p).reverse = p.reverse ++ 0x2e :: w.reverse := by simp
  have hall : ∀ b ∈ p.reverse, decide (b ≠ 0x2e) = true := by
    intro b hb
    have hne : b ≠ 0x2e := fun h => hp (h ▸ mem_reverse.mp hb)
    simpa using hne
  rw [hreverse, takeWhile_append_of_pos hall, dropWhile_append_of_pos hall]
  simp

theorem resolves_qualified (hw : validName w = true) (hp : validName p = true)
    (hdot : 0x2e ∉ p) (hlw : w.length < nameMax) (hlp : p.length < nameMax) (s : Selection) :
    Resolves s (w ++ 0x2e :: p) w p := by
  have hvalid : validName (w ++ 0x2e :: p) = true := by
    rw [validName_iff] at hw hp ⊢
    simp [hw, hp]
  have hsplit : splitQualifiedProcessRef (w ++ 0x2e :: p) = .ok (some (w, p)) := by
    obtain ⟨htake, hdrop⟩ := split_at_dot w hdot
    have hne := (validName_iff.mp hw).1
    have hne' := (validName_iff.mp hp).1
    simp only [splitQualifiedProcessRef, htake, hdrop]
    simp [hne, hne', Nat.not_le.mpr hlw, Nat.not_le.mpr hlp]
  intro requireWorkspace
  exact ⟨false, by simp [resolveProcessRef, hvalid, hsplit, hw, hp]⟩

/-- A name that is stored is read back. -/
theorem readSelectedWorkspace_store (hw : validName w = true) (hlw : w.length < nameMax) :
    readSelectedWorkspace (storeSelectedWorkspace w) = some w := by
  obtain ⟨hne, -, hline⟩ := validName_iff.mp hw
  have hread : cutNewline (fgetsLine nameMax (w ++ [0x0a])) = w := by
    rw [fgetsLine_line hline, take_append, take_of_length_le (by omega)]
    cases nameMax - 1 - w.length with
    | zero =>
      rw [take_zero, append_nil]
      exact takeWhile_eq_self_iff.mpr fun b hb =>
        decide_eq_true fun heq : b = 0x0a => hline (heq ▸ hb)
    | succ n => exact cutNewline_append hline _
  have hfits : w.length ≤ nameMax := by omega
  simp [readSelectedWorkspace, storeSelectedWorkspace, hfits, hread, hne]

theorem resolves_selected (hw : validName w = true) (hp : validName p = true)
    (hdot : 0x2e ∉ p) (hlw : w.length < nameMax) (hlp : p.length < nameMax) {s : Selection}
    (hoption : s.option = none) (hselected : s.selected = storeSelectedWorkspace w) :
    Resolves s p w p := by
  have hselection : resolveWorkspaceSelection s = some (w, true) := by
    simp [resolveWorkspaceSelection, hoption, hselected, readSelectedWorkspace_store hw hlw]
  intro requireWorkspace
  exact ⟨true, by simp [resolveProcessRef, hp, splitQualifiedProcessRef, hdot, hselection,
    Nat.not_le.mpr hlp]⟩

/-- What a reference with a dot resolves to has no dot in the name of the process, and its workspace
has a name that fits. -/
theorem Resolves.of_dot {s : Selection} {input : Bytes} (h : Resolves s input w p)
    (hinput : 0x2e ∈ input) : 0x2e ∉ p ∧ w.length < nameMax := by
  obtain ⟨selected, hresolve⟩ := h true
  have hsplit : splitQualifiedProcessRef input = .ok (some (w, p)) := by
    unfold resolveProcessRef at hresolve
    split at hresolve
    · cases hresolve
    · cases hsplit : splitQualifiedProcessRef input with
      | error message =>
        rw [hsplit] at hresolve
        cases hresolve
      | ok found =>
        cases found with
        | none =>
          unfold splitQualifiedProcessRef at hsplit
          rw [if_neg (not_not.mpr hinput)] at hsplit
          dsimp only at hsplit
          split_ifs at hsplit
          cases hsplit
        | some q =>
          rw [hsplit] at hresolve
          dsimp only at hresolve
          split_ifs at hresolve
          cases hresolve
          rfl
  unfold splitQualifiedProcessRef at hsplit
  rw [if_neg (not_not.mpr hinput)] at hsplit
  dsimp only at hsplit
  split_ifs at hsplit with hempty hlong
  simp only [Except.ok.injEq, Option.some.injEq, Prod.mk.injEq] at hsplit
  obtain ⟨rfl, rfl⟩ := hsplit
  refine ⟨fun hmem => ?_, Nat.not_le.mp (not_or.mp hlong).1⟩
  have hdot := mem_takeWhile_imp (mem_reverse.mp hmem)
  simp at hdot

/-- For names that are accepted when a workspace and a process are created, the two references to
the process resolve to it exactly when its name has no dot and the workspace's name fits. -/
theorem references_resolved_iff {w p : Bytes} (hw : workspaceAccepted w = true)
    (hp : processAccepted p = true) (s : Selection) {t : Selection} (hoption : t.option = none)
    (hselected : t.selected = storeSelectedWorkspace w) :
    (Resolves s (w ++ 0x2e :: p) w p ∧ Resolves t p w p) ↔
      0x2e ∉ p ∧ w.length < nameMax := by
  simp only [workspaceAccepted, processAccepted, Bool.and_eq_true, decide_eq_true_eq] at hw hp
  constructor
  · rintro ⟨hqualified, -⟩
    exact hqualified.of_dot (by simp)
  · rintro ⟨hdot, hlength⟩
    exact ⟨resolves_qualified hw.1.1 hp.1 hdot hlength hp.2 s,
      resolves_selected hw.1.1 hp.1 hdot hlength hp.2 hoption hselected⟩

theorem server_resolved :
    Resolves ⟨none, none, none⟩ (ascii "main.server") (ascii "main") (ascii "server") ∧
      Resolves ⟨none, some (ascii "main\n"), none⟩ (ascii "server") (ascii "main")
        (ascii "server") := by
  refine (references_resolved_iff (w := ascii "main") (p := ascii "server") (by decide) (by decide)
    ⟨none, none, none⟩ rfl ?_).mpr ⟨by decide, by decide⟩
  decide

/-- A name that `cube run` makes from its command: the version is taken for the process. -/
theorem dotted_name_not_resolved :
    workspaceAccepted (ascii "main") = true ∧ processAccepted (ascii "python3.12") = true ∧
      resolveProcessRef ⟨none, some (ascii "main\n"), none⟩ (ascii "python3.12") true =
        .ok ⟨some (ascii "python3"), ascii "12", false⟩ ∧
      resolveProcessRef ⟨none, none, none⟩ (ascii "main.python3.12") true =
        .ok ⟨some (ascii "main.python3"), ascii "12", false⟩ := by
  decide +kernel

end Cubicle.CubeReferences
