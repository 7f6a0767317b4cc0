import Cubicle.TextLines
import Cubicle.ConfigLoading

/-!
# The block of keys that the desk manages

The desk saves its keys in a block of the configuration file of the user. Saving drops every block
that is there, keeps the other lines, and puts a new block at the end, with a blank line before it
if anything is kept.
-/

namespace Cubicle.Config
open ByteText RecordFiles TextLines List

def managedKeysBegin : Bytes := ascii "# cubicle-desk-managed-keys: begin"

def managedKeysEnd : Bytes := ascii "# cubicle-desk-managed-keys: end"

structure SavedBinding where
  unbind : Bool
  keyName : Bytes
  command : Bytes

/-- What the marker lines are compared with: the start of a line. -/
def marks (marker line : Bytes) : Bool := marker.isPrefixOf (line.take 255)

/-- The lines outside of managed blocks; a block without an end goes to the end of the text. -/
def outsideLines : Bool → List Bytes → List Bytes
  | _, [] => []
  | skipping, line :: rest =>
    if marks managedKeysBegin line then outsideLines true rest
    else if skipping then outsideLines (!marks managedKeysEnd line) rest
    else line :: outsideLines false rest

/-- What `render_desk_managed_config` keeps of a text. -/
def outside (text : Bytes) : Bytes := (outsideLines false (linesOf text)).flatten

/-- What `append_desk_managed_keys_block` puts between the text and the block. -/
def blockGap (text : Bytes) : Bytes :=
  if text = [] then [] else (if text.getLast? = some 0x0a then [] else [0x0a]) ++ [0x0a]

/-- The bindings that are taken away and those that are made, each with a number of its own. -/
def managedLines (bindings previous : List SavedBinding) : List Bytes :=
  let removed := (previous.filter fun b => !b.unbind && !(cstr b.keyName).isEmpty).map fun b =>
    cstr b.keyName ++ ascii " none"
  let made := (bindings.filter fun b =>
    !b.unbind && !(cstr b.keyName).isEmpty && !(cstr b.command).isEmpty).map fun b =>
      cstr b.keyName ++ ascii " " ++ cstr b.command
  (removed ++ made).mapIdx fun i value =>
    ascii "bind." ++ dec (9000 + i) ++ ascii "=" ++ value ++ ascii "\n"

def managedBlock (bindings previous : List SavedBinding) : Bytes :=
  managedKeysBegin ++ ascii "\n[desk.keys]\n" ++ (managedLines bindings previous).flatten ++
    managedKeysEnd ++ ascii "\n"

/-- `render_desk_managed_config`, as long as there is memory. -/
def renderDeskManagedConfig (existing : Bytes) (bindings previous : List SavedBinding) : Bytes :=
  let kept := outside (cstr existing)
  kept ++ blockGap kept ++ managedBlock bindings previous

/-- A text in which no line starts a block. -/
def Unmanaged (text : Bytes) : Prop := ∀ line ∈ linesOf text, marks managedKeysBegin line = false

theorem outsideLines_append {before : List Bytes}
    (h : ∀ line ∈ before, marks managedKeysBegin line = false) (rest : List Bytes) :
    outsideLines false (before ++ rest) = before ++ outsideLines false rest := by
  induction before with
  | nil => rfl
  | cons line before ih =>
    have hline := h line (by simp)
    rw [cons_append, outsideLines, hline, ih fun l hl => h l (by simp [hl])]
    rfl

variable {text line : Bytes} {lines : List Bytes}

theorem outside_append (h : Unmanaged text) (hend : Terminated text) (rest : Bytes) :
    outside (text ++ rest) = text ++ outside rest := by
  rw [outside, linesOf_append_of_terminated hend, outsideLines_append h, flatten_append,
    flatten_linesOf]
  rfl

variable {skipping : Bool}

theorem marks_of_mem_outsideLines :
    ∀ line ∈ outsideLines skipping lines, marks managedKeysBegin line = false := by
  induction lines generalizing skipping with
  | nil => simp [outsideLines]
  | cons line rest ih =>
    rw [outsideLines]
    split_ifs with hbegin hskip
    · exact ih
    · exact ih
    · intro l hl
      rcases mem_cons.mp hl with rfl | hl
      · exact Bool.eq_false_iff.mpr hbegin
      · exact ih l hl

theorem isLines_outsideLines (h : IsLines lines) : IsLines (outsideLines skipping lines) := by
  induction lines generalizing skipping with
  | nil => exact h
  | cons line rest ih =>
    obtain ⟨hne, hinner, hlast, hrest⟩ := h
    rw [outsideLines]
    split_ifs
    · exact ih hrest
    · exact ih hrest
    · refine ⟨hne, hinner, fun hmore => hlast ?_, ih hrest⟩
      rintro rfl
      exact hmore rfl

theorem linesOf_outside (text : Bytes) :
    linesOf (outside text) = outsideLines false (linesOf text) :=
  linesOf_flatten (isLines_outsideLines (isLines_linesOf text))

theorem unmanaged_outside (text : Bytes) : Unmanaged (outside text) := by
  rw [Unmanaged, linesOf_outside]
  exact marks_of_mem_outsideLines

/-- A line end does not make a line the start of a block. -/
theorem marks_newline (h : marks managedKeysBegin line = false) :
    marks managedKeysBegin (line ++ [0x0a]) = false := by
  refine Bool.eq_false_iff.mpr fun hmarks => Bool.eq_false_iff.mp h ?_
  unfold marks at hmarks ⊢
  rw [List.isPrefixOf_iff_prefix] at hmarks ⊢
  have hline : managedKeysBegin <+: line ++ [0x0a] := hmarks.trans (List.take_prefix _ _)
  rcases prefix_concat_iff.mp hline with heq | hstarts
  · have hend := congrArg List.getLast? heq
    rw [getLast?_concat] at hend
    exact absurd hend (by decide)
  · exact prefix_take_iff.mpr ⟨hstarts, by decide⟩

theorem unmanaged_newline (h : Unmanaged text) : Unmanaged (text ++ [0x0a]) := by
  intro line hline
  by_cases hend : Terminated text
  · rw [linesOf_append_of_terminated hend, mem_append] at hline
    rcases hline with hline | hline
    · exact h line hline
    · obtain rfl : line = [0x0a] := by simpa [linesOf] using hline
      decide
  · rcases mem_linesOf_newline hend hline with hmem | ⟨last, hmem, rfl⟩
    · exact h line hmem
    · exact marks_newline (h last hmem)

/-- The kept text and the gap after it: still no block starts in it. -/
theorem unmanaged_gap (h : Unmanaged text) :
    Unmanaged (text ++ blockGap text) ∧ Terminated (text ++ blockGap text) := by
  unfold blockGap
  split_ifs with hnil hend
  · subst hnil
    exact ⟨h, Or.inl rfl⟩
  · exact ⟨unmanaged_newline h, Or.inr (by simp)⟩
  · rw [← append_assoc]
    exact ⟨unmanaged_newline (unmanaged_newline h), Or.inr (by simp)⟩

theorem blockGap_eq_nil : blockGap text = [] ↔ text = [] := by
  unfold blockGap
  split_ifs with h <;> simp [h]

theorem zero_notMem_outside (h : 0 ∉ text) : 0 ∉ outside text := by
  have hsub : ∀ (lines : List Bytes) (skipping : Bool),
      (outsideLines skipping lines).Sublist lines := by
    intro lines
    induction lines with
    | nil => exact fun _ => List.Sublist.refl _
    | cons line rest ih =>
      intro skipping
      rw [outsideLines]
      split_ifs
      · exact (ih _).cons _
      · exact (ih _).cons _
      · exact (ih _).cons_cons _
  intro hmem
  obtain ⟨line, hline, h0⟩ := mem_flatten.mp hmem
  refine h ?_
  rw [← flatten_linesOf text]
  exact mem_flatten.mpr ⟨line, (hsub _ _).subset hline, h0⟩

theorem exists_of_mem_managedLines {bindings previous : List SavedBinding}
    (h : line ∈ managedLines bindings previous) :
    ∃ i keyName command, line = ascii "bind." ++ dec i ++ ascii "=" ++
        (keyName ++ ascii " " ++ command) ++ ascii "\n" ∧
      (∃ b ∈ bindings ++ previous, keyName = cstr b.keyName) ∧
      (command = ascii "none" ∨ ∃ b ∈ bindings, command = cstr b.command) := by
  obtain ⟨i, hi, rfl⟩ := mem_mapIdx.mp h
  have hvalue := getElem_mem hi
  rcases mem_append.mp hvalue with hvalue | hvalue
  · obtain ⟨b, hb, heq⟩ := mem_map.mp hvalue
    have hb' := mem_of_mem_filter hb
    refine ⟨9000 + i, cstr b.keyName, ascii "none", ?_,
      ⟨b, mem_append_right _ hb', rfl⟩, Or.inl rfl⟩
    rw [← heq, append_assoc (cstr b.keyName)]
    rfl
  · obtain ⟨b, hb, heq⟩ := mem_map.mp hvalue
    have hb' := mem_of_mem_filter hb
    exact ⟨9000 + i, cstr b.keyName, cstr b.command, by rw [← heq],
      ⟨b, mem_append_left _ hb', rfl⟩, Or.inr ⟨b, hb', rfl⟩⟩

theorem zero_notMem_managedBlock (bindings previous : List SavedBinding) :
    0 ∉ managedBlock bindings previous := by
  have hlines : 0 ∉ (managedLines bindings previous).flatten := by
    intro hmem
    obtain ⟨line, hline, h0⟩ := mem_flatten.mp hmem
    obtain ⟨i, keyName, command, rfl, ⟨b, -, rfl⟩, hcommand⟩ := exists_of_mem_managedLines hline
    have hcommand0 : 0 ∉ command := by
      rcases hcommand with rfl | ⟨b', -, rfl⟩
      · decide
      · exact zero_notMem_cstr _
    have hdec := zero_notMem_dec i
    have hkey := zero_notMem_cstr b.keyName
    simp [ascii, hdec, hkey, hcommand0] at h0
  intro hmem
  simp [managedBlock, managedKeysBegin, managedKeysEnd, ascii] at hmem
  exact hlines (mem_flatten.mpr hmem)

theorem cstr_render (existing : Bytes) (bindings previous : List SavedBinding) :
    cstr (renderDeskManagedConfig existing bindings previous) =
      renderDeskManagedConfig existing bindings previous := by
  have hkept := zero_notMem_outside (zero_notMem_cstr existing)
  have hgap : 0 ∉ blockGap (outside (cstr existing)) := by
    unfold blockGap
    split_ifs <;> decide
  refine cstr_eq_self fun hmem => ?_
  rcases mem_append.mp hmem with hmem | hmem
  · rcases mem_append.mp hmem with hmem | hmem
    · exact hkept hmem
    · exact hgap hmem
  · exact zero_notMem_managedBlock bindings previous hmem

/-- What a second save keeps: the lines that the first one kept, the gap, and what the block itself
leaves outside. -/
theorem outside_render (existing : Bytes) (bindings previous : List SavedBinding) :
    outside (renderDeskManagedConfig existing bindings previous) =
      outside (cstr existing) ++ blockGap (outside (cstr existing)) ++
        outside (managedBlock bindings previous) := by
  obtain ⟨hclean, hend⟩ := unmanaged_gap (unmanaged_outside (cstr existing))
  exact outside_append hclean hend _

/-- Saving twice gives the text of saving once exactly when nothing is kept: every save of a text
with anything outside of its blocks adds another blank line. -/
theorem render_twice_iff (existing : Bytes) (bindings previous : List SavedBinding) :
    renderDeskManagedConfig (renderDeskManagedConfig existing bindings previous) bindings previous =
        renderDeskManagedConfig existing bindings previous ↔
      outside (cstr existing) = [] ∧ outside (managedBlock bindings previous) = [] := by
  have hsecond : renderDeskManagedConfig (renderDeskManagedConfig existing bindings previous)
      bindings previous = outside (renderDeskManagedConfig existing bindings previous) ++
        blockGap (outside (renderDeskManagedConfig existing bindings previous)) ++
        managedBlock bindings previous := by
    rw [renderDeskManagedConfig, cstr_render]
  rw [hsecond, outside_render, renderDeskManagedConfig]
  generalize outside (cstr existing) = kept
  generalize outside (managedBlock bindings previous) = left
  rw [append_left_inj, append_assoc, append_right_eq_self, append_eq_nil_iff,
    blockGap_eq_nil]
  constructor
  · rintro ⟨hleft, hall⟩
    simp only [append_eq_nil_iff] at hall
    exact ⟨hall.1.1, hleft⟩
  · rintro ⟨rfl, rfl⟩
    exact ⟨rfl, rfl⟩

/-- Two saves of the same two bindings after one line of text: the second one adds a blank line. -/
theorem render_twice_differs :
    renderDeskManagedConfig (ascii "[cube]\n") [⟨false, ascii "C-A", ascii "quit"⟩] [] =
        ascii "[cube]\n\n# cubicle-desk-managed-keys: begin\n[desk.keys]\nbind.9000=C-A quit\n" ++
          ascii "# cubicle-desk-managed-keys: end\n" ∧
      renderDeskManagedConfig (renderDeskManagedConfig (ascii "[cube]\n")
          [⟨false, ascii "C-A", ascii "quit"⟩] []) [⟨false, ascii "C-A", ascii "quit"⟩] [] =
        ascii "[cube]\n\n\n# cubicle-desk-managed-keys: begin\n[desk.keys]\n" ++
          ascii "bind.9000=C-A quit\n# cubicle-desk-managed-keys: end\n" := by
  decide

end Cubicle.Config
