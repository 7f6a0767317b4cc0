import Cubicle.RecordFiles

/-!
# Lines of a text

A text as the list of its lines, each with its line end; only the last one may lack it. A program
that goes through a text line by line and copies some of the lines leaves the lines of the result
as they were.
-/

namespace Cubicle.TextLines
open ByteText RecordFiles List

/-- The lines of a text, each with its line end. -/
def linesOf : Bytes → List Bytes
  | [] => []
  | b :: rest =>
    if b = 0x0a then [b] :: linesOf rest
    else
      match linesOf rest with
      | [] => [[b]]
      | line :: more => (b :: line) :: more

/-- Lines that follow each other in a text. -/
def IsLines : List Bytes → Prop
  | [] => True
  | line :: rest =>
    line ≠ [] ∧ 0x0a ∉ line.dropLast ∧ (rest ≠ [] → line.getLast? = some 0x0a) ∧ IsLines rest

@[simp] theorem linesOf_nil : linesOf [] = [] := rfl

theorem linesOf_newline (rest : Bytes) : linesOf (0x0a :: rest) = [0x0a] :: linesOf rest := by
  simp [linesOf]

@[simp] theorem flatten_linesOf (text : Bytes) : (linesOf text).flatten = text := by
  induction text with
  | nil => rfl
  | cons b rest ih =>
    rw [linesOf]
    split_ifs
    · simp [ih]
    · cases h : linesOf rest with
      | nil =>
        rw [h] at ih
        simp [← ih]
      | cons line more =>
        rw [h] at ih
        simp [← ih]

variable {text line : Bytes} {lines : List Bytes}

theorem linesOf_eq_nil : linesOf text = [] ↔ text = [] := by
  constructor
  · intro h
    rw [← flatten_linesOf text, h]
    rfl
  · rintro rfl
    rfl

theorem isLines_linesOf (text : Bytes) : IsLines (linesOf text) := by
  induction text with
  | nil => trivial
  | cons b rest ih =>
    rw [linesOf]
    split_ifs with hb
    · exact ⟨by simp, by simp, by simp [hb], ih⟩
    · cases h : linesOf rest with
      | nil => exact ⟨by simp, by simp, by simp, trivial⟩
      | cons line more =>
        rw [h] at ih
        obtain ⟨hne, hinner, hlast, hmore⟩ := ih
        obtain ⟨c, tail, rfl⟩ := exists_cons_of_ne_nil hne
        refine ⟨by simp, ?_, ?_, hmore⟩
        · rw [dropLast_cons_cons, mem_cons]
          exact not_or.mpr ⟨fun heq => hb heq.symm, hinner⟩
        · intro hmore'
          rw [getLast?_cons_cons]
          exact hlast hmore'

theorem linesOf_append (hinner : 0x0a ∉ line.dropLast) (hend : line.getLast? = some 0x0a)
    (rest : Bytes) : linesOf (line ++ rest) = line :: linesOf rest := by
  induction line with
  | nil => simp at hend
  | cons b tail ih =>
    cases tail with
    | nil =>
      obtain rfl : b = 0x0a := by simpa using hend
      exact linesOf_newline rest
    | cons c tail =>
      rw [dropLast_cons_cons, mem_cons, not_or] at hinner
      rw [getLast?_cons_cons] at hend
      rw [cons_append, linesOf, if_neg fun heq => hinner.1 heq.symm, ih hinner.2 hend]

theorem linesOf_flatten_append
    (h : ∀ line ∈ lines, 0x0a ∉ line.dropLast ∧ line.getLast? = some 0x0a) (rest : Bytes) :
    linesOf (lines.flatten ++ rest) = lines ++ linesOf rest := by
  induction lines with
  | nil => rfl
  | cons line lines ih =>
    obtain ⟨hinner, hend⟩ := h line (by simp)
    rw [flatten_cons, append_assoc, linesOf_append hinner hend,
      ih fun l hl => h l (by simp [hl]), cons_append]

theorem linesOf_line (hne : line ≠ []) (hinner : 0x0a ∉ line.dropLast) : linesOf line = [line] := by
  induction line with
  | nil => exact absurd rfl hne
  | cons b tail ih =>
    cases tail with
    | nil =>
      rw [linesOf]
      split_ifs <;> rfl
    | cons c tail =>
      rw [dropLast_cons_cons, mem_cons, not_or] at hinner
      rw [linesOf, if_neg fun heq => hinner.1 heq.symm, ih (by simp) hinner.2]

theorem linesOf_flatten (h : IsLines lines) : linesOf lines.flatten = lines := by
  induction lines with
  | nil => rfl
  | cons line rest ih =>
    obtain ⟨hne, hinner, hlast, hrest⟩ := h
    rw [flatten_cons]
    cases rest with
    | nil => simpa using linesOf_line hne hinner
    | cons next more => rw [linesOf_append hinner (hlast (by simp)), ih hrest]

/-- The lines of two texts one after the other, if the first one ends with a line end. -/
theorem linesOf_append_of_terminated (h : Terminated text) (rest : Bytes) :
    linesOf (text ++ rest) = linesOf text ++ linesOf rest := by
  induction text with
  | nil => rfl
  | cons b tail ih =>
    have htail : Terminated tail := by
      cases tail with
      | nil => exact Or.inl rfl
      | cons c tail =>
        right
        rcases h with h | h
        · cases h
        · rwa [getLast?_cons_cons] at h
    rw [cons_append, linesOf, linesOf]
    split_ifs with hb
    · rw [ih htail, cons_append]
    · rw [ih htail]
      cases hlines : linesOf tail with
      | nil =>
        obtain rfl := linesOf_eq_nil.mp hlines
        rcases h with h | h
        · cases h
        · exact absurd (by simpa using h) hb
      | cons line more => rfl

/-- A line end after the last line. -/
theorem IsLines.end_last {before : List Bytes} {last : Bytes} (h : IsLines (before ++ [last]))
    (hlast : last.getLast? ≠ some 0x0a) : IsLines (before ++ [last ++ [0x0a]]) := by
  induction before with
  | nil =>
    obtain ⟨hne, hinner, -, -⟩ := h
    refine ⟨by simp, ?_, by simp, trivial⟩
    rw [dropLast_concat]
    intro hmem
    rw [← dropLast_append_getLast hne, mem_append, mem_singleton] at hmem
    rcases hmem with hmem | hmem
    · exact hinner hmem
    · exact hlast (by rw [getLast?_eq_some_getLast hne, hmem])
  | cons line before ih =>
    obtain ⟨hne, hinner, hend, hrest⟩ := h
    exact ⟨hne, hinner, fun _ => hend (by simp), ih hrest⟩

theorem mem_linesOf_newline (hend : ¬ Terminated text) (h : line ∈ linesOf (text ++ [0x0a])) :
    line ∈ linesOf text ∨ ∃ last ∈ linesOf text, line = last ++ [0x0a] := by
  obtain ⟨hne, hlast⟩ := not_or.mp hend
  have hlines := isLines_linesOf text
  have hflat := flatten_linesOf text
  obtain ⟨before, last, heq⟩ : ∃ before last, linesOf text = before ++ [last] :=
    ⟨_, _, (dropLast_append_getLast (mt linesOf_eq_nil.mp hne)).symm⟩
  rw [heq] at hlines hflat
  have hlast' : last.getLast? ≠ some 0x0a := by
    intro hsome
    refine hlast ?_
    rw [← hflat, flatten_append, getLast?_append]
    simp [hsome]
  have hnew : text ++ [0x0a] = (before ++ [last ++ [0x0a]]).flatten := by
    rw [← hflat]
    simp
  rw [hnew, linesOf_flatten (hlines.end_last hlast'), mem_append, mem_singleton] at h
  rw [heq]
  rcases h with h | rfl
  · exact Or.inl (by simp [h])
  · exact Or.inr ⟨last, by simp, rfl⟩

end Cubicle.TextLines
