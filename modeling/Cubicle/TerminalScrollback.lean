import Cubicle.RingBuffers

/-!
# Captured scrollback

Lines that scroll off the screen of a terminal model are copied into a ring of bounded capacity and
taken from it in batches. The ring is compared with the history of what was pushed: a batch is the
last lines pushed since the ring was emptied, as many as its limit allows.

The cells of the emulator and their copies are parameters, and so is the outcome of every
allocation.
-/

namespace Cubicle.TerminalScrollback
open RingBuffers List

/-- `cubicle_terminal_scrollback_line_t`. -/
structure Line (τ : Type) where
  cols : ℕ
  cells : List τ
deriving DecidableEq, Repr

/-- The fields `captured_scrollback…` and the limit; a slot without cells is `none`. -/
structure Model (τ : Type) where
  slots : List (Option (Line τ))
  head : ℕ
  count : ℕ
  capacity : ℕ
  limit : ℕ

variable {σ τ : Type}

/-- A model as `calloc` leaves it. -/
def Model.new : Model τ := ⟨[], 0, 0, 0, 0⟩

/-- The slots of the first `n` lines are emptied. -/
def emptySlots (capacity head : ℕ) (slots : List (Option (Line τ))) :
    ℕ → List (Option (Line τ))
  | 0 => slots
  | n + 1 => (emptySlots capacity head slots n).set (slotOf capacity head n) none

def clearCapturedScrollback (m : Model τ) : Model τ :=
  { m with slots := emptySlots m.capacity m.head m.slots m.count, head := 0, count := 0 }

def freeCapturedScrollback (m : Model τ) : Model τ :=
  { clearCapturedScrollback m with slots := [], capacity := 0, limit := 0 }

section Copies
variable (copyCell : σ → Option τ)

/-- The copy of a line, cell by cell; `none` when the allocation or a cell fails. -/
def copyLine (allocated : Bool) (cols : ℕ) (cells : List σ) :
    Option (Line τ) :=
  if allocated then ((cells.take cols).mapM copyCell).map fun copy => ⟨cols, copy⟩ else none

/-- `capture_scrollback_line`, with its result for the emulator. -/
def captureScrollbackLine (allocated : Bool) (m : Model τ) (cols : ℤ)
    (cells : Option (List σ)) : Bool × Model τ :=
  match cells with
  | none => (true, m)
  | some cells =>
    if m.limit = 0 ∨ cols ≤ 0 then (true, m)
    else if m.capacity = 0 then (false, m)
    else match copyLine copyCell allocated cols.toNat cells with
      | none => (false, m)
      | some line =>
        if m.count = m.capacity then
          (true, { m with slots := m.slots.set m.head (some line),
                          head := (m.head + 1) % m.capacity })
        else
          (true, { m with slots := m.slots.set (slotOf m.capacity m.head m.count) (some line),
                          count := m.count + 1 })

def setScrollbackCaptureLimit (allocated : Bool) (m : Model τ) (lineLimit : ℕ) :
    Bool × Model τ :=
  if lineLimit = 0 then (true, freeCapturedScrollback m)
  else if allocated then
    (true, { freeCapturedScrollback m with slots := List.replicate lineLimit none,
                                           capacity := lineLimit, limit := lineLimit })
  else (false, m)

/-- `cubicle_terminal_model_take_scrollback`: the lines, or nothing when the allocation fails. -/
def takeScrollback (allocated : Bool) (m : Model τ) :
    Option (List (Option (Line τ))) × Model τ :=
  if m.count = 0 then (some [], m)
  else if allocated then
    (some ((List.range m.count).map fun i => (m.slots[slotOf m.capacity m.head i]?).join),
      { m with slots := emptySlots m.capacity m.head m.slots m.count, head := 0, count := 0 })
  else (none, m)

/-- What happens to the captured scrollback. The lines that a snapshot scrolls off while it is
loaded are pushed after the load has emptied the ring. -/
inductive Event (σ : Type)
  | push (allocated : Bool) (cols : ℤ) (cells : Option (List σ))
  | setLimit (allocated : Bool) (lineLimit : ℕ)
  | take (allocated : Bool)
  | loadSnapshot
deriving Repr

def step (m : Model τ) : Event σ → Model τ
  | .push allocated cols cells => (captureScrollbackLine copyCell allocated m cols cells).2
  | .setLimit allocated lineLimit => (setScrollbackCaptureLimit allocated m lineLimit).2
  | .take allocated => (takeScrollback allocated m).2
  | .loadSnapshot => clearCapturedScrollback m

def run (events : List (Event σ)) : Model τ :=
  events.foldl (step copyCell) Model.new

/-- The line an event pushes: its width and the copies of that many cells, if it has any, there is
memory for it and all of them can be copied. -/
def Event.line : Event σ → Option (Line τ)
  | .push allocated cols (some cells) =>
    match (cells.take cols.toNat).mapM copyCell with
    | some copies => if allocated ∧ 0 < cols then some ⟨cols.toNat, copies⟩ else none
    | none => none
  | _ => none

/-- The limit in force and the lines pushed since the last take, limit or snapshot. -/
structure History (τ : Type) where
  limit : ℕ
  lines : List (Line τ)

/-- Limits and takes for which there is no memory change nothing. -/
def History.step (h : History τ) : Event σ → History τ
  | .push allocated cols cells =>
    { h with lines := h.lines ++ ((Event.push allocated cols cells).line copyCell).toList }
  | .setLimit allocated lineLimit =>
    if allocated ∨ lineLimit = 0 then ⟨lineLimit, []⟩ else h
  | .take allocated => if allocated then { h with lines := [] } else h
  | .loadSnapshot => { h with lines := [] }

def history (events : List (Event σ)) : History τ :=
  events.foldl (History.step copyCell) ⟨0, []⟩

end Copies

/-- The ring holds the last lines of a history. -/
structure Keeps (m : Model τ) (h : History τ) : Prop where
  capacity_eq : m.capacity = m.slots.length
  limit_eq : m.limit = m.capacity
  history_limit : h.limit = m.capacity
  head_lt : m.head < m.capacity ∨ m.capacity = 0 ∧ m.head = 0
  count_eq : m.count = (h.lines.rtake h.limit).length
  shows : Shows m.slots m.head (h.lines.rtake h.limit)

theorem emptySlots_length (capacity head : ℕ) (slots : List (Option (Line τ))) (n : ℕ) :
    (emptySlots capacity head slots n).length = slots.length := by
  induction n with
  | zero => rfl
  | succ n ih => rw [emptySlots, length_set, ih]

theorem keeps_new : Keeps (Model.new : Model τ) ⟨0, []⟩ :=
  ⟨rfl, rfl, rfl, .inr ⟨rfl, rfl⟩, by simp [Model.new], by simpa using shows_nil _ _⟩

variable {m : Model τ} {h : History τ}

theorem Keeps.emptied (hk : Keeps m h) :
    Keeps (clearCapturedScrollback m) { h with lines := [] } := by
  refine ⟨by rw [clearCapturedScrollback, emptySlots_length, hk.capacity_eq], hk.limit_eq,
    hk.history_limit, ?_, by simp [clearCapturedScrollback], by simpa using shows_nil _ _⟩
  rcases hk.head_lt with hlt | ⟨hzero, -⟩
  · exact .inl (by show 0 < m.capacity; omega)
  · exact .inr ⟨hzero, rfl⟩

/-- A history that nothing of is kept can lose its lines. -/
theorem Keeps.of_count_zero (hk : Keeps m h) (hzero : m.count = 0) :
    Keeps m { h with lines := [] } := by
  refine ⟨hk.capacity_eq, hk.limit_eq, hk.history_limit, hk.head_lt, by simpa using hzero,
    by simpa using shows_nil _ _⟩

theorem keeps_limit (n : ℕ) : Keeps
    (⟨List.replicate n none, 0, 0, n, n⟩ : Model τ) ⟨n, []⟩ := by
  refine ⟨by simp, rfl, rfl, ?_, by simp, by simpa using shows_nil _ _⟩
  rcases Nat.eq_zero_or_pos n with hn | hn
  · exact .inr ⟨hn, rfl⟩
  · exact .inl hn

/-- A ring of capacity zero keeps nothing of any line. -/
theorem Keeps.ignored (hk : Keeps m h) (hzero : m.limit = 0) (lines : List (Line τ)) :
    Keeps m { h with lines := lines } := by
  have hlimit : h.limit = 0 := by rw [hk.history_limit, ← hk.limit_eq, hzero]
  have hcount := hk.count_eq
  rw [hlimit, rtake_zero] at hcount
  exact ⟨hk.capacity_eq, hk.limit_eq, hk.history_limit, hk.head_lt, by simpa [hlimit] using hcount,
    by simpa [hlimit] using shows_nil _ _⟩

theorem Keeps.count_eq_min (hk : Keeps m h) : m.count = min h.lines.length m.capacity := by
  rw [hk.count_eq, length_rtake, hk.history_limit]

theorem Keeps.appended (hk : Keeps m h) (hroom : m.count ≠ m.capacity) (line : Line τ) :
    Keeps { m with slots := m.slots.set (slotOf m.capacity m.head m.count) (some line),
                   count := m.count + 1 }
      { h with lines := h.lines ++ [line] } := by
  have hmin := hk.count_eq_min
  have hlt : h.lines.length < h.limit := by rw [hk.history_limit]; omega
  have hrtake := rtake_append_of_lt hlt line
  have hshows := hk.shows.append (by rw [← hk.count_eq, ← hk.capacity_eq]; omega) line
  rw [← hk.count_eq, ← hk.capacity_eq] at hshows
  refine ⟨by rw [length_set]; exact hk.capacity_eq, hk.limit_eq, hk.history_limit, hk.head_lt,
    ?_, ?_⟩
  · rw [hrtake, length_append, ← hk.count_eq]
    rfl
  · rw [hrtake]
    exact hshows

theorem Keeps.replaced (hk : Keeps m h) (hfull : m.count = m.capacity) (hpos : 0 < m.capacity)
    (line : Line τ) :
    Keeps { m with slots := m.slots.set m.head (some line), head := (m.head + 1) % m.capacity }
      { h with lines := h.lines ++ [line] } := by
  have hmin := hk.count_eq_min
  have hle : h.limit ≤ h.lines.length := by rw [hk.history_limit]; omega
  have hrtake := rtake_append_of_le (by rw [hk.history_limit]; exact hpos) hle line
  have hhead : m.head < m.slots.length := by
    have := hk.head_lt
    have := hk.capacity_eq
    omega
  have hshows := hk.shows.replace (by rw [← hk.count_eq, ← hk.capacity_eq, hfull]) hhead line
  rw [← hk.capacity_eq] at hshows
  refine ⟨by rw [length_set]; exact hk.capacity_eq, hk.limit_eq, hk.history_limit,
    .inl (Nat.mod_lt _ hpos), ?_, ?_⟩
  · have hlength := hk.count_eq
    rw [hrtake, length_append, length_tail, ← hk.count_eq, length_singleton]
    show m.count = m.count - 1 + 1
    omega
  · rw [hrtake]
    exact hshows

section Runs
variable (copyCell : σ → Option τ)

/-- What is copied of a line is the line that is pushed. -/
theorem copyLine_eq_line (allocated : Bool) {cols : ℤ} (hcols : 0 < cols)
    (cells : List σ) : copyLine copyCell allocated cols.toNat cells =
      (Event.push allocated cols (some cells)).line copyCell := by
  simp only [copyLine, Event.line]
  cases (cells.take cols.toNat).mapM copyCell with
  | none => cases allocated <;> rfl
  | some copies => cases allocated <;> simp [hcols]

/-- A line that is captured ends the history. -/
theorem Keeps.captured (hk : Keeps m h) (allocated : Bool) (cols : ℤ)
    (cells : Option (List σ)) :
    Keeps (captureScrollbackLine copyCell allocated m cols cells).2
      (h.step copyCell (.push allocated cols cells)) := by
  cases cells with
  | none => simpa [captureScrollbackLine, History.step, Event.line] using hk
  | some cells =>
    by_cases hlimit : m.limit = 0
    · simpa [captureScrollbackLine, History.step, hlimit] using hk.ignored hlimit _
    by_cases hcols : cols ≤ 0
    · have hnone : (Event.push allocated cols (some cells)).line copyCell = none := by
        simp only [Event.line]
        split
        · exact if_neg fun hpush => absurd hpush.2 (not_lt.mpr hcols)
        · rfl
      simpa [captureScrollbackLine, History.step, hnone, hcols] using hk
    have hcapacity : m.capacity ≠ 0 := hk.limit_eq ▸ hlimit
    simp only [captureScrollbackLine, History.step, hlimit, hcols, or_self, if_false, hcapacity,
      copyLine_eq_line copyCell allocated (not_le.mp hcols)]
    cases (Event.push allocated cols (some cells)).line copyCell with
    | none => simpa using hk
    | some line =>
      by_cases hfull : m.count = m.capacity
      · simp only [if_pos hfull]
        exact hk.replaced hfull (Nat.pos_of_ne_zero hcapacity) line
      · simp only [if_neg hfull]
        exact hk.appended hfull line

theorem Keeps.step {m : Model τ} {h : History τ} (hk : Keeps m h)
    (event : Event σ) :
    Keeps (TerminalScrollback.step copyCell m event) (h.step copyCell event) := by
  cases event with
  | push allocated cols cells => exact hk.captured copyCell allocated cols cells
  | setLimit allocated lineLimit =>
    simp only [TerminalScrollback.step, setScrollbackCaptureLimit, History.step]
    by_cases hzero : lineLimit = 0
    · subst hzero
      simpa [freeCapturedScrollback, clearCapturedScrollback] using keeps_limit 0
    · cases allocated with
      | false => simpa [hzero] using hk
      | true =>
        rw [if_neg hzero, if_pos rfl, if_pos (.inl rfl)]
        exact keeps_limit lineLimit
  | take allocated =>
    simp only [TerminalScrollback.step, takeScrollback, History.step]
    by_cases hzero : m.count = 0
    · rw [if_pos hzero]
      split_ifs
      · exact hk.of_count_zero hzero
      · exact hk
    · cases allocated with
      | false => simpa [hzero] using hk
      | true =>
        rw [if_neg hzero, if_pos rfl, if_pos rfl]
        exact hk.emptied
  | loadSnapshot => exact hk.emptied

theorem keeps_run (events : List (Event σ)) :
    Keeps (run copyCell events) (history copyCell events) := by
  induction events using List.reverseRecOn with
  | nil => exact keeps_new
  | append_singleton events event ih =>
    rw [run, history, foldl_append, foldl_append]
    exact ih.step copyCell event

theorem Keeps.take_eq (hk : Keeps m h) :
    (takeScrollback true m).1 = some ((h.lines.rtake h.limit).map some) := by
  have hcontents := hk.shows.contents_eq
  rw [← hk.count_eq, contents, ← hk.capacity_eq] at hcontents
  unfold takeScrollback
  by_cases hzero : m.count = 0
  · have hnil := length_eq_zero_iff.mp (hk.count_eq.symm.trans hzero)
    rw [if_pos hzero, hnil]
    rfl
  · rw [if_neg hzero, if_pos rfl]
    exact congrArg some hcontents

/-- After any history a take gives the last lines pushed since the ring was emptied, as many as the
limit allows, in the order in which they were pushed; head and count are within the capacity. -/
theorem take_gives_last_lines (events : List (Event σ)) :
    (takeScrollback true (run copyCell events)).1 =
        some (((history copyCell events).lines.rtake (history copyCell events).limit).map some) ∧
      ((history copyCell events).lines.rtake (history copyCell events).limit).length =
        min (history copyCell events).lines.length (history copyCell events).limit ∧
      (run copyCell events).count ≤ (run copyCell events).capacity ∧
      ((run copyCell events).head < (run copyCell events).capacity ∨
        (run copyCell events).capacity = 0 ∧ (run copyCell events).head = 0) := by
  have hk := keeps_run copyCell events
  refine ⟨hk.take_eq, length_rtake _ _, ?_, hk.head_lt⟩
  rw [hk.count_eq_min]
  exact min_le_right _ _

end Runs

/-- Cells are small numbers, and copies are the next ones. -/
def sampleCopy (cell : ℕ) : Option ℕ := if cell < 10 then some (cell + 1) else none

/-- Of three lines that can be copied and one that cannot, the limit leaves two. -/
theorem last_two_lines_taken :
    (takeScrollback true (run sampleCopy [.setLimit true 2, .push true 2 (some [1, 2, 3]),
      .push true 2 (some [3, 4]), .push true 1 (some [10]), .push true 1 (some [5])])).1 =
      some [some ⟨2, [4, 5]⟩, some ⟨1, [6]⟩] :=
  (take_gives_last_lines sampleCopy _).1.trans (by decide)

end Cubicle.TerminalScrollback
