import Cubicle.DeskScrollback
import Cubicle.RecordFiles

/-!
# Rendering the dirty rows of a pane

A live pane is rendered, all of it or its dirty rows, into a frame of fixed size, which takes what
fits, and a row is clean from its turn on. The model records what of each row has reached the
terminal; the rows that are clean are complete there as long as no frame was too small.
-/

namespace Cubicle.DeskRendering
open ByteText RecordFiles DeskScrollback List

/-- `desk_cell_t`, with its C strings. -/
structure Cell where
  text : Bytes
  sgr : Bytes
deriving DecidableEq

def blank : Cell := ⟨ascii " ", []⟩

def resetSgr : Bytes := 0x1b :: ascii "[0m"

/-- Attributes where they change, and what the cells show. -/
def cellTexts (active : Bytes) : List Cell → List Bytes
  | [] => if active = [] then [] else [resetSgr]
  | cell :: rest =>
    (if active = cell.sgr then [] else [if cell.sgr = [] then resetSgr else cell.sgr]) ++
      (if cell.text = [] then ascii " " else cell.text) ::
        cellTexts (if active = cell.sgr then active else clip 96 cell.sgr) rest

/-- Where the content of a pane is on the terminal. -/
structure Place where
  row : ℕ
  col : ℕ
  cols : ℕ

/-- What `desk_render_cube_grid_rows` appends for a row. -/
def rowTexts (place : Place) (grid : Grid Cell) (row : ℕ) : List Bytes :=
  let cursor := 0x1b :: ascii "[" ++ dec (place.row + row + 1) ++ ascii ";" ++
    dec (place.col + 1) ++ ascii "H"
  (if cursor.length < 32 then [cursor] else []) ++
    cellTexts [] ((List.range place.cols).map (gridRow blank grid row))

def rowContent (place : Place) (grid : Grid Cell) (row : ℕ) : Bytes :=
  (rowTexts place grid row).flatten

/-- `append_text`, into the frame. -/
def appendText (frame text : Bytes) : Bytes := frame ++ text.take (65535 - frame.length)

theorem foldl_appendText (texts : List Bytes) (frame : Bytes) :
    texts.foldl appendText frame = appendText frame texts.flatten := by
  induction texts generalizing frame with
  | nil => simp [appendText]
  | cons text texts ih =>
    rw [foldl_cons, ih, flatten_cons]
    simp only [appendText, append_assoc, take_append, length_append, length_take]
    congr 3
    omega

/-- The grid and its dirty rows, and what the last turn of each row has written. -/
structure State where
  grid : Grid Cell
  dirty : ℕ → Bool
  written : ℕ → Bytes

/-- The turn of a row: the frame, of which the terminal takes some bytes, and what is written. -/
def renderRow (place : Place) (grid : Grid Cell) (taken : ℕ) (x : Bytes × (ℕ → Bytes)) (row : ℕ) :
    Bytes × (ℕ → Bytes) :=
  let frame := (rowTexts place grid row).foldl appendText x.1
  (frame, Function.update x.2 row ((frame.take taken).drop x.1.length))

/-- The rows that have a turn. -/
def State.turns (s : State) (dirtyOnly : Bool) : List ℕ :=
  (List.range s.grid.rows).filter fun row => !dirtyOnly || s.dirty row

/-- `desk_render_cube_grid_rows` for a live pane: the frame, and the state in which every row that
has had its turn is clean. -/
def renderCubeGridRows (place : Place) (dirtyOnly : Bool) (taken : ℕ) (s : State) :
    Bytes × State :=
  let rendered := (s.turns dirtyOnly).foldl (renderRow place s.grid taken) ([], s.written)
  (appendText rendered.1 resetSgr,
    { s with dirty := fun row => s.dirty row && row ∉ s.turns dirtyOnly, written := rendered.2 })

def renderCubeGrid (place : Place) (taken : ℕ) (s : State) : Bytes × State :=
  renderCubeGridRows place false taken s

def renderDirtyCubeGrid (place : Place) (taken : ℕ) (s : State) : Bytes × State :=
  renderCubeGridRows place true taken s

/-- Every clean row has been written completely. -/
def State.Complete (place : Place) (s : State) : Prop :=
  ∀ row < s.grid.rows, s.dirty row = false → s.written row = rowContent place s.grid row

/-- The rows that have a turn fit the frame and are taken by the terminal. -/
def State.Fits (place : Place) (dirtyOnly : Bool) (taken : ℕ) (s : State) : Prop :=
  ((s.turns dirtyOnly).flatMap (rowContent place s.grid)).length ≤ min 65535 taken

variable {place : Place} {grid : Grid Cell} {taken row : ℕ} {rows : List ℕ} {frame : Bytes}
  {s : State}

theorem renderRow_written (hframe : frame.length ≤ min 65535 taken) (written : ℕ → Bytes) :
    (renderRow place grid taken (frame, written) row).2 row =
      (rowContent place grid row).take (min 65535 taken - frame.length) := by
  have htaken : frame.length ≤ taken := hframe.trans (min_le_right _ _)
  simp only [renderRow, Function.update_self, foldl_appendText, appendText, take_append,
    take_of_length_le htaken, drop_left, take_take, rowContent]
  congr 1
  omega

theorem renderRow_frame (h : frame.length + (rowContent place grid row).length ≤ 65535)
    (written : ℕ → Bytes) : (renderRow place grid taken (frame, written) row).1 =
      frame ++ rowContent place grid row := by
  simp only [renderRow, foldl_appendText, appendText]
  rw [take_of_length_le (by rw [← rowContent]; omega), ← rowContent]

theorem foldl_renderRow_other (h : row ∉ rows) (x : Bytes × (ℕ → Bytes)) :
    (rows.foldl (renderRow place grid taken) x).2 row = x.2 row := by
  induction rows generalizing x with
  | nil => rfl
  | cons other rows ih =>
    obtain ⟨hne, hrows⟩ := not_or.mp (mt mem_cons.mpr h)
    rw [foldl_cons, ih hrows]
    exact Function.update_of_ne hne _ _

/-- The rows that have a turn are complete exactly when all of them fit: the first one that does
not is cut, and has no second turn. -/
theorem foldl_renderRow_iff (hrows : rows.Nodup) (hframe : frame.length ≤ min 65535 taken)
    (written : ℕ → Bytes) :
    (∀ row ∈ rows, (rows.foldl (renderRow place grid taken) (frame, written)).2 row =
        rowContent place grid row) ↔
      frame.length + (rows.flatMap (rowContent place grid)).length ≤ min 65535 taken := by
  induction rows generalizing frame written with
  | nil => simpa using le_min_iff.mp hframe
  | cons row rows ih =>
    obtain ⟨hrow, hrows⟩ := nodup_cons.mp hrows
    rw [foldl_cons, forall_mem_cons, foldl_renderRow_other hrow, renderRow_written hframe,
      flatMap_cons, length_append, take_eq_self_iff]
    by_cases hfits : frame.length + (rowContent place grid row).length ≤ min 65535 taken
    · have hnext : (renderRow place grid taken (frame, written) row).1 =
          frame ++ rowContent place grid row :=
        renderRow_frame (hfits.trans (min_le_left _ _)) written
      have hrest := ih hrows (by rwa [length_append])
        (renderRow place grid taken (frame, written) row).2
      rw [← hnext] at hrest
      rw [and_iff_right (by omega), ← Nat.add_assoc, ← length_append, ← hnext]
      exact hrest
    · exact iff_of_false (fun h => hfits (by omega)) (by omega)

/-- A rendering of the dirty rows keeps the clean rows complete exactly when its rows fit, and so
does a full one, whatever was written before. -/
theorem complete_render_iff {dirtyOnly : Bool} (h : dirtyOnly = false ∨ s.Complete place) :
    (renderCubeGridRows place dirtyOnly taken s).2.Complete place ↔ s.Fits place dirtyOnly taken := by
  have hnodup : (s.turns dirtyOnly).Nodup := nodup_range.filter _
  have hiff := @foldl_renderRow_iff place s.grid taken _ [] hnodup (Nat.zero_le _) s.written
  rw [length_nil, Nat.zero_add] at hiff
  refine Iff.trans ?_ hiff
  constructor
  · intro hcomplete row hrow
    exact hcomplete row (mem_range.mp (mem_filter.mp hrow).1)
      (by simp [renderCubeGridRows, hrow])
  · intro hturns row hlt hclean
    by_cases hrow : row ∈ s.turns dirtyOnly
    · exact hturns row hrow
    · have hbefore : dirtyOnly = true ∧ s.dirty row = false := by
        simpa [State.turns, show row < s.grid.rows from hlt] using hrow
      have hcomplete := h.resolve_left (by simp [hbefore.1])
      exact (foldl_renderRow_other hrow _).trans (hcomplete row hlt hbefore.2)

/-- `grid_resize`, with `grid_clear`. -/
def gridResize (rows cols : ℕ) (s : State) : State :=
  { s with grid := ⟨rows, cols, fun _ _ => blank⟩, dirty := fun _ => true }

/-- `refresh_pane_from_model`: rows that the terminal model has as dirty, and rows in which a cell
differs from the snapshot, which has a cell for every place. -/
def refreshPaneFromModel (reported : ℕ → Bool) (snapshot : ℕ → ℕ → Cell) (s : State) : State :=
  { s with
    grid.cell := fun row col =>
      if s.grid.cell row col = snapshot row col then s.grid.cell row col
      else ⟨clip 32 (snapshot row col).text, clip 96 (snapshot row col).sgr⟩
    dirty := fun row => s.dirty row || reported row ||
      (List.range s.grid.cols).any fun col => s.grid.cell row col ≠ snapshot row col }

theorem complete_refresh (h : s.Complete place) (reported : ℕ → Bool)
    (snapshot : ℕ → ℕ → Cell) : (refreshPaneFromModel reported snapshot s).Complete place := by
  intro row hlt hclean
  simp only [refreshPaneFromModel, Bool.or_eq_false_iff, any_eq_false, mem_range,
    decide_eq_true_eq, not_not] at hclean
  rw [show (refreshPaneFromModel reported snapshot s).written row = s.written row from rfl,
    h row hlt hclean.1.1, rowContent, rowContent, rowTexts, rowTexts]
  have hrow : gridRow blank (refreshPaneFromModel reported snapshot s).grid row =
      gridRow blank s.grid row := by
    funext col
    by_cases hin : row < s.grid.rows ∧ col < s.grid.cols
    · exact (if_pos hin).trans ((if_pos (hclean.2 col hin.2)).trans (if_pos hin).symm)
    · exact (if_neg hin).trans (if_neg hin).symm
  rw [hrow]

/-- A pane before its grid has a size. -/
def State.new : State := ⟨⟨0, 0, fun _ _ => blank⟩, fun _ => true, fun _ => []⟩

/-- The states of a live pane whose renderings fit: from a new pane on, and from a full rendering on
whatever was shown before it, the scrollback included. -/
inductive Live (place : Place) : State → Prop
  | new : Live place .new
  | redrawn (s : State) (taken : ℕ) (hfits : s.Fits place false taken) :
      Live place (renderCubeGrid place taken s).2
  | resized {s : State} (h : Live place s) (rows cols : ℕ) : Live place (gridResize rows cols s)
  | refreshed {s : State} (h : Live place s) (reported : ℕ → Bool) (snapshot : ℕ → ℕ → Cell) :
      Live place (refreshPaneFromModel reported snapshot s)
  | rendered {s : State} (h : Live place s) (taken : ℕ) (hfits : s.Fits place true taken) :
      Live place (renderDirtyCubeGrid place taken s).2

theorem Live.complete (h : Live place s) : s.Complete place := by
  induction h with
  | new => exact fun _ _ hclean => Bool.noConfusion hclean
  | redrawn s taken hfits => exact (complete_render_iff (.inl rfl)).mpr hfits
  | resized _ rows cols _ => exact fun row _ hclean => absurd hclean (by simp [gridResize])
  | refreshed _ reported snapshot ih => exact complete_refresh ih reported snapshot
  | rendered _ taken hfits ih => exact (complete_render_iff (.inr ih)).mpr hfits

/-- After any run in which what was rendered fits, every clean row has been written completely, and
a rendering keeps it that way exactly when its rows fit. -/
theorem clean_rows_written_iff {place : Place} {s : State} (hlive : Live place s) (taken : ℕ) :
    s.Complete place ∧
      ((renderDirtyCubeGrid place taken s).2.Complete place ↔ s.Fits place true taken) ∧
      ((renderCubeGrid place taken s).2.Complete place ↔ s.Fits place false taken) :=
  ⟨hlive.complete, complete_render_iff (.inr hlive.complete), complete_render_iff (.inl rfl)⟩

/-- A pane of two rows that is drawn, and changes in its second one. -/
def changedPane : State :=
  refreshPaneFromModel (fun _ => false) (fun row _ => ⟨if row = 1 then ascii "x" else ascii " ", []⟩)
    (renderCubeGrid ⟨0, 0, 2⟩ 100 (gridResize 2 2 .new)).2

/-- Only that row is rendered again, and both are written. -/
theorem changed_row_written :
    changedPane.turns true = [1] ∧
      (renderDirtyCubeGrid ⟨0, 0, 2⟩ 100 changedPane).2.Complete ⟨0, 0, 2⟩ := by
  have hlive : Live ⟨0, 0, 2⟩ changedPane := by
    refine .refreshed (.redrawn _ _ ?_) _ _
    unfold State.Fits
    decide +kernel
  refine ⟨by decide +kernel, (clean_rows_written_iff hlive 100).2.1.mpr ?_⟩
  unfold State.Fits
  decide +kernel

theorem length_le_cellTexts (active : Bytes) (cells : List Cell) :
    cells.length ≤ (cellTexts active cells).flatten.length := by
  induction cells generalizing active with
  | nil => exact Nat.zero_le _
  | cons cell rest ih =>
    have htext : 0 < (if cell.text = [] then ascii " " else cell.text).length := by
      split_ifs with h
      · decide
      · exact length_pos_iff.mpr h
    have hrest := ih (if active = cell.sgr then active else clip 96 cell.sgr)
    simp only [cellTexts, flatten_append, flatten_cons, length_append, length_cons]
    omega

theorem length_rows_ge (place : Place) (grid : Grid Cell) (rows : List ℕ) :
    rows.length * place.cols ≤ (rows.flatMap (rowContent place grid)).length := by
  induction rows with
  | nil => simp
  | cons row rows ih =>
    have hcells := length_le_cellTexts []
      ((List.range place.cols).map (gridRow blank grid row))
    rw [length_map, length_range] at hcells
    rw [flatMap_cons, length_append, length_cons, Nat.succ_mul]
    simp only [rowContent, rowTexts, flatten_append, length_append] at ih ⊢
    omega

/-- The cells of a large pane do not fit a frame, so some of its rows are clean without having been
written, whatever the terminal takes. -/
theorem large_pane_rows_lost :
    Live ⟨0, 0, 500⟩ (gridResize 150 500 .new) ∧ ∀ taken,
      ¬ (renderDirtyCubeGrid ⟨0, 0, 500⟩ taken (gridResize 150 500 .new)).2.Complete
        ⟨0, 0, 500⟩ := by
  have hlive : Live ⟨0, 0, 500⟩ (gridResize 150 500 .new) := .resized .new 150 500
  refine ⟨hlive, fun taken h => ?_⟩
  have hfits := ((complete_render_iff (.inr hlive.complete)).mp h).trans (min_le_left _ _)
  have hcells := length_rows_ge ⟨0, 0, 500⟩ (gridResize 150 500 .new).grid
    ((gridResize 150 500 .new).turns true)
  have hrows : ((gridResize 150 500 .new).turns true).length = 150 := by
    decide +kernel
  rw [hrows] at hcells
  exact absurd (hcells.trans hfits) (by decide)

end Cubicle.DeskRendering
