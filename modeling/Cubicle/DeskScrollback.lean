import Cubicle.TerminalScrollback

/-!
# Scrollback of a pane

A pane of desk keeps the lines that its terminal model hands over in a ring of its own, and a number
of lines by which its view is scrolled back. The ring is the one of the terminal model, so the
history says again what it holds; the view is a window on these lines and the live grid below them.
-/

namespace Cubicle.DeskScrollback
open RingBuffers TerminalScrollback

variable {σ τ : Type}

structure Grid (τ : Type) where
  rows : ℕ
  cols : ℕ
  cell : ℕ → ℕ → τ

/-- The scrollback of `desk_pane_t`, with its offset and the live grid. -/
structure Pane (τ : Type) extends Model τ where
  offset : ℕ
  grid : Grid τ

def Pane.new (grid : Grid τ) : Pane τ := ⟨Model.new, 0, grid⟩

/-- A ring of the given size, after `desk_scrollback_clear`. -/
def Pane.cleared (p : Pane τ) (capacity : ℕ) : Pane τ :=
  { p with
    slots := List.replicate capacity none
    head := 0
    count := 0
    capacity := capacity
    limit := capacity
    offset := 0 }

/-- `desk_scrollback_set_limit`: without memory there is no scrollback. -/
def scrollbackSetLimit (allocated : Bool) (p : Pane τ) (limit : ℕ) : Pane τ :=
  if p.capacity = limit then { p with limit := limit }
  else if allocated then p.cleared limit
  else p.cleared 0

/-- The line that `desk_scrollback_append` stores: none without columns or memory. -/
def storedLine (copyCell : σ → τ) (allocated : Bool) (cols : ℕ) (cells : List σ) :
    Option (Line τ) :=
  if cols = 0 then none else copyLine (some ∘ copyCell) allocated cols cells

def storeLine (p : Pane τ) (line : Line τ) : Pane τ :=
  if p.count = p.capacity then
    { p with
      slots := p.slots.set p.head (some line)
      head := (p.head + 1) % p.capacity
      offset := if p.count < p.offset then p.count else p.offset }
  else
    { p with
      slots := p.slots.set (slotOf p.capacity p.head p.count) (some line)
      count := p.count + 1 }

def scrollbackAppend (copyCell : σ → τ) (allocated : Bool) (p : Pane τ) (cols : ℕ)
    (cells : List σ) : Pane τ :=
  if p.capacity = 0 then p
  else (storedLine copyCell allocated cols cells).elim p (storeLine p)

/-- The commands of `desk_scroll_active_pane`. -/
inductive Scroll
  | pageUp | pageDown | lineUp | lineDown | top | bottom

def Pane.page (p : Pane τ) : ℕ := if 1 < p.grid.rows then p.grid.rows - 1 else 1

/-- `desk_scroll_active_pane`: the new offset. -/
def Pane.scrolled (p : Pane τ) : Scroll → ℕ
  | .pageUp => if p.count < p.offset + p.page then p.count else p.offset + p.page
  | .pageDown => if p.page < p.offset then p.offset - p.page else 0
  | .lineUp => if p.offset < p.count then p.offset + 1 else p.offset
  | .lineDown => if 0 < p.offset then p.offset - 1 else p.offset
  | .top => p.count
  | .bottom => 0

section View
variable (blank : τ)

def lineRow (line : Line τ) (col : ℕ) : τ :=
  if col < line.cols then line.cells.getD col blank else blank

def gridRow (grid : Grid τ) (row col : ℕ) : τ :=
  if row < grid.rows ∧ col < grid.cols then grid.cell row col else blank

/-- The first row of the view, in `desk_render_cube_grid_rows`. -/
def Pane.startRow (p : Pane τ) : ℕ :=
  let totalRows := p.count + p.grid.rows
  if p.grid.rows < totalRows then
    let liveStart := totalRows - p.grid.rows
    if liveStart < p.offset then 0 else liveStart - p.offset
  else 0

/-- What `desk_render_cube_grid_rows` shows in a row. -/
def Pane.viewRow (p : Pane τ) (row : ℕ) : ℕ → τ :=
  if 0 < p.offset then
    let virtualRow := p.startRow + row
    if virtualRow < p.count then
      match (p.slots[slotOf p.capacity p.head virtualRow]?).join with
      | some line => lineRow blank line
      | none => fun _ => blank
    else gridRow blank p.grid (virtualRow - p.count)
  else gridRow blank p.grid row

end View

/-- What happens to a pane. Typed input returns it to the live grid. -/
inductive Event (σ τ : Type)
  | line (allocated : Bool) (cols : ℕ) (cells : List σ)
  | setLimit (allocated : Bool) (limit : ℕ)
  | scroll (command : Scroll)
  | typed
  | draw (grid : Grid τ)

section Histories
variable (copyCell : σ → τ)

def step (p : Pane τ) : Event σ τ → Pane τ
  | .line allocated cols cells => scrollbackAppend copyCell allocated p cols cells
  | .setLimit allocated limit => scrollbackSetLimit allocated p limit
  | .scroll command => { p with offset := p.scrolled command }
  | .typed => { p with offset := 0 }
  | .draw grid => { p with grid := grid }

/-- The lines with columns since the last change of the limit, as wide as they are and cell by cell;
one for which there is no memory is none. -/
def historyStep (h : History τ) : Event σ τ → History τ
  | .line allocated cols cells =>
    if allocated ∧ 0 < cols then
      { h with lines := h.lines ++ [⟨cols, (cells.take cols).map copyCell⟩] }
    else h
  | .setLimit allocated limit =>
    if h.limit = limit then h else if allocated then ⟨limit, []⟩ else ⟨0, []⟩
  | _ => h

def run (grid : Grid τ) (events : List (Event σ τ)) : Pane τ :=
  events.foldl (step copyCell) (Pane.new grid)

def history (events : List (Event σ τ)) : History τ :=
  events.foldl (historyStep copyCell) ⟨0, []⟩

end Histories

/-- The ring holds the history, and the view is not scrolled past it. -/
structure Right (p : Pane τ) (h : History τ) : Prop where
  keeps : Keeps p.toModel h
  offset_le : p.offset ≤ p.count

theorem right_cleared (p : Pane τ) (capacity : ℕ) : Right (p.cleared capacity) ⟨capacity, []⟩ :=
  ⟨keeps_limit capacity, Nat.le_refl 0⟩

theorem Right.stored {p : Pane τ} {h : History τ} (hp : Right p h) (hpos : 0 < p.capacity)
    (line : Line τ) : Right (storeLine p line) { h with lines := h.lines ++ [line] } := by
  have hoffset := hp.offset_le
  unfold storeLine
  split_ifs with hfull
  · omega
  · exact ⟨hp.keeps.replaced hfull hpos line, hoffset⟩
  · exact ⟨hp.keeps.appended hfull line, Nat.le_succ_of_le hoffset⟩

theorem scrolled_le {p : Pane τ} (h : p.offset ≤ p.count) (command : Scroll) :
    p.scrolled command ≤ p.count := by
  cases command <;> simp only [Pane.scrolled] <;> (try split_ifs) <;> omega

theorem storedLine_eq (copyCell : σ → τ) (allocated : Bool) (cols : ℕ) (cells : List σ) :
    storedLine copyCell allocated cols cells = if allocated ∧ 0 < cols then
      some ⟨cols, (cells.take cols).map copyCell⟩ else none := by
  have hcopies : ∀ given : List σ, given.mapM (some ∘ copyCell) = some (given.map copyCell) := by
    intro given
    induction given with
    | nil => rfl
    | cons cell rest ih => simp [ih]
  unfold storedLine copyLine
  rw [hcopies]
  rcases Nat.eq_zero_or_pos cols with hzero | hpos
  · simp [hzero]
  · cases allocated <;> simp [hpos, hpos.ne']

theorem Right.step (copyCell : σ → τ) {p : Pane τ} {h : History τ} (hp : Right p h)
    (event : Event σ τ) :
    Right (DeskScrollback.step copyCell p event) (historyStep copyCell h event) := by
  cases event with
  | line allocated cols cells =>
    simp only [DeskScrollback.step, scrollbackAppend, historyStep, storedLine_eq]
    split_ifs with hzero hline hline
    · exact ⟨hp.keeps.ignored (hp.keeps.limit_eq.trans hzero) _, hp.offset_le⟩
    · exact hp
    · exact hp.stored (Nat.pos_of_ne_zero hzero) _
    · exact hp
  | setLimit allocated limit =>
    simp only [DeskScrollback.step, scrollbackSetLimit, historyStep, hp.keeps.history_limit]
    split_ifs with hsame
    · have hlimit : limit = p.limit := hsame.symm.trans hp.keeps.limit_eq.symm
      rw [hlimit]
      exact hp
    · exact right_cleared p limit
    · exact right_cleared p 0
  | scroll command => exact ⟨hp.keeps, scrolled_le hp.offset_le command⟩
  | typed => exact ⟨hp.keeps, Nat.zero_le _⟩
  | draw grid => exact ⟨hp.keeps, hp.offset_le⟩

theorem right_run (copyCell : σ → τ) (grid : Grid τ) (events : List (Event σ τ)) :
    Right (run copyCell grid events) (history copyCell events) := by
  induction events using List.reverseRecOn with
  | nil => exact ⟨keeps_new, Nat.le_refl 0⟩
  | append_singleton events event ih =>
    rw [run, history, List.foldl_append, List.foldl_append]
    exact ih.step copyCell event

/-- The rows there are: the lines that are held, then the live grid. -/
def allRows (blank : τ) (lines : List (Line τ)) (grid : Grid τ) : List (ℕ → τ) :=
  lines.map (lineRow blank) ++ (List.range grid.rows).map (gridRow blank grid)

theorem Right.viewRow_eq (blank : τ) {p : Pane τ} {h : History τ} (hp : Right p h) {row : ℕ}
    (hrow : row < p.grid.rows) :
    (allRows blank (h.lines.rtake h.limit) p.grid)[p.count - p.offset + row]? =
      some (p.viewRow blank row) := by
  have hcount := hp.keeps.count_eq
  have hoffset := hp.offset_le
  have hlive : ∀ i, p.count ≤ i → i - p.count < p.grid.rows →
      (allRows blank (h.lines.rtake h.limit) p.grid)[i]? =
        some (gridRow blank p.grid (i - p.count)) := by
    intro i hi hlt
    rw [allRows, List.getElem?_append_right (by simpa [← hcount] using hi)]
    simp [← hcount, hlt]
  unfold Pane.viewRow
  split_ifs with hscrolled
  · have hstart : p.startRow = p.count - p.offset := by
      unfold Pane.startRow
      dsimp only
      rw [if_pos (by omega), if_neg (by omega)]
      omega
    dsimp only
    rw [hstart]
    split_ifs with hheld
    · have hslot := hp.keeps.shows.holds (p.count - p.offset + row) (hcount ▸ hheld)
      rw [← hp.keeps.capacity_eq] at hslot
      rw [hslot, allRows, List.getElem?_append_left (by simpa [← hcount] using hheld)]
      simp [← hcount, hheld]
    · exact hlive _ (by omega) (by omega)
  · have hzero : p.offset = 0 := by omega
    rw [hzero, hlive _ (by omega) (by omega)]
    congr 2
    omega

def sampleGrid : Grid ℕ := ⟨2, 1, fun row _ => 7 + row⟩

/-- Three lines with a limit of two, scrolled back by a page of one row and then by another. -/
def sampleEvents : List (Event ℕ ℕ) :=
  [.setLimit true 2, .line true 1 [1], .line true 1 [2], .line true 0 [9], .line true 1 [3],
    .scroll .pageUp, .scroll .lineUp]

end Cubicle.DeskScrollback
