import Cubicle.ControllerReports

/-!
# Snapshots and event lists as fragments

A printed snapshot is a valid fragment exactly when it has at most 65536 cells and all its
texts are UTF-8; a printed event list exactly when the lines it shows are UTF-8.
-/

namespace Cubicle.Controller
open ByteText Utf8Sequences CStrings JsonText JsonSpelling JsonEncoding RpcEnvelope List

theorem text_of_quoted {a s rest : Bytes} (ha : Text a)
    (h : Text (a ++ (escapeText s ++ 0x22 :: rest))) : Text s ∧ Text rest := by
  obtain ⟨hs, hrest⟩ := text_split_ascii (by decide) (text_of_append h ha)
  exact ⟨(text_escapeText_iff s).mp hs, hrest⟩

/-- A cell as it is printed. -/
def cellText (cell : Cell) : Bytes :=
  ascii "\x7b\"t\":\"" ++ escapeText (cstr cell.text) ++ ascii "\",\"sgr\":\"" ++
    escapeText (cstr cell.sgr) ++ ascii "\"\x7d"

/-- A snapshot as it is printed, without the limit of its buffer. -/
def snapshotText (t : Terminal) (offset : ℕ) (cells : List Cell) : Bytes :=
  snapshotHeader t offset ++ (joinComma (cells.map cellText) ++ ascii "]\x7d")

variable {size offset limit : ℕ} {r file : Bytes} {cells : List Cell} {t : Terminal}
  {events : List (ℤ × Bytes)} {e : ℤ × Bytes}

variable {used : Bytes} {cell : Cell} {after : ℕ} {event : ℤ × Bytes}

theorem appendJsonText_some {text : Bytes} (h : appendJsonText size used text = some r) :
    used ++ 0x22 :: escapeText (cstr text) ++ [0x22] = r ∧
      (escapeText (cstr text)).length < 512 := by
  simp only [appendJsonText, Option.bind_eq_bind, Option.bind_eq_some_iff] at h
  obtain ⟨escaped, hesc, happ⟩ := h
  rw [jsonEscape_eq (by decide)] at hesc
  split_ifs at hesc with hlen
  obtain rfl := Option.some.inj hesc
  exact ⟨by simpa using (appendRaw_some happ).1, by omega⟩

/-- A cell whose two escaped texts fit their buffers. -/
def CellFits (cell : Cell) : Prop :=
  (escapeText (cstr cell.text)).length < 512 ∧ (escapeText (cstr cell.sgr)).length < 512

theorem appendSnapshotJsonCell_some (h : appendSnapshotJsonCell size used cell = some r) :
    used ++ cellText cell = r ∧ CellFits cell := by
  simp only [appendSnapshotJsonCell, Option.bind_eq_bind, Option.bind_eq_some_iff] at h
  obtain ⟨r1, h1, r2, h2, r3, h3, r4, h4, h5⟩ := h
  obtain ⟨rfl, -⟩ := appendRaw_some h1
  obtain ⟨rfl, htext⟩ := appendJsonText_some h2
  obtain ⟨rfl, -⟩ := appendRaw_some h3
  obtain ⟨rfl, hsgr⟩ := appendJsonText_some h4
  obtain ⟨rfl, -⟩ := appendRaw_some h5
  exact ⟨by simp [cellText, ascii], htext, hsgr⟩

theorem appendCells_some (h : appendCells size used cells = some r) :
    used ++ (cells.map cellText).flatMap (0x2c :: ·) = r ∧ ∀ cell ∈ cells, CellFits cell := by
  induction cells generalizing used with
  | nil =>
    obtain rfl := Option.some.inj h
    simp
  | cons cell cells ih =>
    simp only [appendCells, Option.bind_eq_bind, Option.bind_eq_some_iff] at h
    obtain ⟨r1, h1, r2, h2, h3⟩ := h
    obtain ⟨rfl, -⟩ := appendRaw_some h1
    obtain ⟨rfl, hfits⟩ := appendSnapshotJsonCell_some h2
    obtain ⟨rfl, hall⟩ := ih h3
    exact ⟨by simp [ascii], forall_mem_cons.mpr ⟨hfits, hall⟩⟩

/-- A snapshot that is printed fits, and so does each of its cells. -/
theorem snapshotJson_some (h : snapshotJson t offset size = some r) :
    ∃ cells, t.snapshotCells = some cells ∧ snapshotText t offset cells = r ∧
      r.length < size ∧ ∀ cell ∈ cells, CellFits cell := by
  simp only [snapshotJson, Option.bind_eq_bind, Option.bind_eq_some_iff] at h
  obtain ⟨cells, hcells, r1, h1, h2⟩ := h
  obtain ⟨rfl, -⟩ := appendRaw_some h1
  refine ⟨cells, hcells, ?_⟩
  cases cells with
  | nil =>
    obtain ⟨rfl, hlen⟩ := appendRaw_some h2
    exact ⟨by simp [snapshotText, joinComma], hlen, by simp⟩
  | cons cell cells =>
    simp only [Option.bind_eq_some_iff] at h2
    obtain ⟨r3, h3, r4, h4, h5⟩ := h2
    obtain ⟨rfl, hfits⟩ := appendSnapshotJsonCell_some h3
    obtain ⟨rfl, hall⟩ := appendCells_some h4
    obtain ⟨rfl, hlen⟩ := appendRaw_some h5
    exact ⟨by simp [snapshotText, joinComma_cons], hlen, forall_mem_cons.mpr ⟨hfits, hall⟩⟩

def CellUtf8 (cell : Cell) : Prop := Text (cstr cell.text) ∧ Text (cstr cell.sgr)

instance (cell : Cell) : Decidable (CellUtf8 cell) := inferInstanceAs (Decidable (_ ∧ _))

def cellMembers (cell : Cell) : Members :=
  [(ascii "t", .str (cstr cell.text)), (ascii "sgr", .str (cstr cell.sgr))]

theorem spells_cellText (h : CellUtf8 cell) : Spells (cellText cell) (.obj (cellMembers cell)) := by
  have hspell := spells_obj
    [.plain "t" (by decide) (spells_str (spells_escapeText h.1)),
      .plain "sgr" (by decide) (spells_str (spells_escapeText h.2))]
  convert hspell using 1
  · simp [cellText, objectText, joinComma, memberText, Field.text, Field.plain, ascii]
  · rfl

theorem cellUtf8_of_text (h : Text (cellText cell)) : CellUtf8 cell := by
  have hstart : Text (ascii "\x7b\"t\":\"") := by decide
  have hnext : Text (ascii ",\"sgr\":\"") := by decide
  have hshape : cellText cell = ascii "\x7b\"t\":\"" ++ (escapeText (cstr cell.text) ++
      0x22 :: (ascii ",\"sgr\":\"" ++ (escapeText (cstr cell.sgr) ++ 0x22 :: [0x7d]))) := by
    simp [cellText, ascii]
  rw [hshape] at h
  obtain ⟨htext, hrest⟩ := text_of_quoted hstart h
  exact ⟨htext, (text_of_quoted hnext hrest).1⟩

def snapshotMembers (t : Terminal) (offset : ℕ) (cells : List Cell) : Members :=
  [(ascii "rows", .uint t.rows), (ascii "columns", .uint t.cols),
    (ascii "cursor_row", .uint t.cursorRow), (ascii "cursor_column", .uint t.cursorCol),
    (ascii "cursor_visible", .bool t.cursorVisible),
    (ascii "application_cursor", .bool t.applicationCursor), (ascii "offset", .uint offset),
    (ascii "cells", .arr (cells.map fun cell => .obj (cellMembers cell)))]

theorem spells_snapshotText (hoffset : offset < 2 ^ 64) (h : ∀ cell ∈ cells, CellUtf8 cell) :
    Spells (snapshotText t offset cells) (.obj (snapshotMembers t offset cells)) := by
  obtain ⟨-, hrows, -, hcols⟩ := t.size_le
  obtain ⟨hcrow, hccol⟩ := t.cursor_lt
  have hcells := spells_arr (cells.map fun cell => (cellText cell, .obj (cellMembers cell)))
    (by
      intro p hp
      obtain ⟨cell, hmem, rfl⟩ := mem_map.mp hp
      exact spells_cellText (h cell hmem))
  have hspell := spells_obj
    [.plain "rows" (by decide) (spells_uint (n := t.rows) (by omega)),
      .plain "columns" (by decide) (spells_uint (n := t.cols) (by omega)),
      .plain "cursor_row" (by decide) (spells_uint (n := t.cursorRow) (by omega)),
      .plain "cursor_column" (by decide) (spells_uint (n := t.cursorCol) (by omega)),
      .plain "cursor_visible" (by decide) (spells_bool t.cursorVisible),
      .plain "application_cursor" (by decide) (spells_bool t.applicationCursor),
      .plain "offset" (by decide) (spells_uint hoffset),
      .plain "cells" (by decide) hcells]
  convert hspell using 1
  · simp [snapshotText, snapshotHeader, objectText, joinComma, memberText, Field.text, Field.plain,
      ascii, boolText, arrayText, Function.comp_def]
  · simp [snapshotMembers, Field.member, Field.plain, Function.comp_def]

theorem mapM_some_iff {α β : Type} (f : α → Option β) (xs : List α) (ys : List β) :
    xs.mapM f = some ys ↔ xs.map f = ys.map some := by
  induction xs generalizing ys with
  | nil => cases ys <;> simp
  | cons x xs ih =>
    rw [mapM_cons]
    cases hx : f x with
    | none => cases ys <;> simp [hx]
    | some z =>
      cases ys with
      | nil => simp [Option.bind_eq_some_iff]
      | cons y ys =>
        simp only [Option.bind_eq_bind, Option.bind_some, Option.bind_eq_some_iff, hx, ih,
          map_cons, List.cons.injEq, Option.some.injEq, Option.pure_def]
        constructor
        · rintro ⟨zs, hzs, rfl, rfl⟩
          exact ⟨rfl, hzs⟩
        · rintro ⟨rfl, hys⟩
          exact ⟨ys, hys, rfl, rfl⟩

/-- Every cell on the screen has UTF-8 texts. -/
def Terminal.Utf8 (t : Terminal) : Prop :=
  ∀ row < t.rows, ∀ col < t.cols, ∀ cell ∈ t.cell row col, CellUtf8 cell

theorem snapshotCells_length (h : t.snapshotCells = some cells) :
    cells.length = t.rows * t.cols := by
  have hlen := congrArg List.length ((mapM_some_iff _ _ _).mp h)
  simpa using hlen.symm

theorem snapshotCells_utf8 (h : t.snapshotCells = some cells) :
    (∀ cell ∈ cells, CellUtf8 cell) ↔ t.Utf8 := by
  have hmap := (mapM_some_iff _ _ _).mp h
  constructor
  · intro hall row hrow col hcol cell hcell
    have hidx : row * t.cols + col < t.rows * t.cols := by
      calc row * t.cols + col < (row + 1) * t.cols := by rw [Nat.succ_mul]; omega
        _ ≤ t.rows * t.cols := Nat.mul_le_mul_right _ hrow
    have hmem : some cell ∈ cells.map some := by
      rw [← hmap, mem_map]
      refine ⟨row * t.cols + col, mem_range.mpr hidx, ?_⟩
      rw [Nat.mul_comm, Nat.mul_add_div (by omega), Nat.div_eq_of_lt hcol, Nat.mul_add_mod,
        Nat.mod_eq_of_lt hcol]
      exact hcell
    exact hall cell (by simpa using hmem)
  · intro hutf cell hcell
    have hmem : some cell ∈ cells.map some := mem_map_of_mem hcell
    rw [← hmap, mem_map] at hmem
    obtain ⟨i, hi, hcell⟩ := hmem
    rw [mem_range] at hi
    exact hutf _ (Nat.div_lt_of_lt_mul (by rwa [Nat.mul_comm])) _
      (Nat.mod_lt _ t.size_le.2.2.1) cell hcell

theorem validateItems_cells (h : ∀ cell ∈ cells, CellFits cell) :
    validateItems 3 (cells.map fun cell => .obj (cellMembers cell)) = true := by
  induction cells with
  | nil => rfl
  | cons cell cells ih =>
    have htext := length_le_escapeText (cstr cell.text)
    have hsgr := length_le_escapeText (cstr cell.sgr)
    obtain ⟨hfit, hrest⟩ := forall_mem_cons.mp h
    have h1 : (cstr cell.text).length ≤ maxStringBytes := by
      have := hfit.1; unfold maxStringBytes; omega
    have h2 : (cstr cell.sgr).length ≤ maxStringBytes := by
      have := hfit.2; unfold maxStringBytes; omega
    have hkeys : validKeys ((cellMembers cell).map Prod.fst) = true := by
      simp only [cellMembers, map_cons, map_nil]
      decide
    rw [map_cons, validateItems, ih hrest, validateValue, validateMembers_eq, hkeys]
    simp [validateValue, cellMembers, h1, h2, maxDepth, maxObjectMembers]

theorem validate_snapshotMembers (h : ∀ cell ∈ cells, CellFits cell) :
    validateValue 1 (.obj (snapshotMembers t offset cells)) =
      decide (cells.length ≤ maxArrayElements) := by
  have hkeys : validKeys ((snapshotMembers t offset cells).map Prod.fst) = true := by
    simp only [snapshotMembers, map_cons, map_nil]
    decide
  rw [validateValue, validateMembers_eq, hkeys]
  simp [validateValue, snapshotMembers, validateItems_cells h, maxDepth, maxObjectMembers]

theorem text_snapshotHeader (t : Terminal) (offset : ℕ) : Text (snapshotHeader t offset) := by
  have hbool : ∀ v, Text (boolText v) := by decide
  unfold snapshotHeader
  repeat' apply text_append
  all_goals first
    | decide
    | exact text_dec _
    | exact hbool _

theorem zero_notMem_snapshotText (t : Terminal) (offset : ℕ) (cells : List Cell) :
    0 ∉ snapshotText t offset cells := by
  have hcells : 0 ∉ joinComma (cells.map cellText) := by
    refine zero_notMem_joinComma ?_
    simp [cellText, ascii, zero_notMem_escapeText]
  have hbool : ∀ b, 0 ∉ boolText b := by decide
  simp [snapshotText, snapshotHeader, hcells, zero_notMem_dec, hbool, ascii]

/-- A printed snapshot is a valid result exactly when its texts are UTF-8 and its cells are not too
many. -/
theorem fragmentValid_snapshotJson (h : snapshotJson t offset size = some r)
    (hsize : size ≤ maxDocumentBytes) (hoffset : offset < 2 ^ 64) :
    fragmentValid r = true ↔ t.rows * t.cols ≤ maxArrayElements ∧ t.Utf8 := by
  obtain ⟨cells, hcells, rfl, hlen, hfits⟩ := snapshotJson_some h
  rw [← snapshotCells_utf8 hcells, ← snapshotCells_length hcells]
  constructor
  · intro hvalid
    obtain ⟨v, hv⟩ := Option.isSome_iff_exists.mp hvalid
    have htext := text_of_parse hv
    rw [cstr_eq_self (zero_notMem_snapshotText t offset cells), snapshotText] at htext
    have htail : Text (joinComma (cells.map cellText) ++ ascii "]\x7d") :=
      text_of_append htext (text_snapshotHeader t offset)
    have hutf : ∀ cell ∈ cells, CellUtf8 cell := fun cell hcell =>
      cellUtf8_of_text (text_of_joinComma (by decide) htail _ (mem_map_of_mem hcell))
    rw [fragmentValid, parse_spelled (spells_snapshotText hoffset hutf) (by omega),
      validate_snapshotMembers hfits] at hvalid
    refine ⟨?_, hutf⟩
    by_contra hcount
    simp [hcount] at hvalid
  · rintro ⟨hcount, hutf⟩
    rw [fragmentValid, parse_spelled (spells_snapshotText hoffset hutf) (by omega),
      validate_snapshotMembers hfits, if_pos (by simpa using hcount)]
    rfl

/-- An event whose escaped line fits its buffer. -/
def eventFits (event : ℤ × Bytes) : Bool := (escapeText (cstr (cutNewline event.2))).length < 2048

/-- The events that a request for `limit` events after `after` shows. -/
def shownEvents (file : Bytes) (after limit : ℕ) : List (ℤ × Bytes) :=
  ((eventsAfter file (asLongLong after)).filter eventFits).take limit

/-- An event as it is printed. -/
def eventText (event : ℤ × Bytes) : Bytes :=
  eventJson event.1 (escapeText (cstr (cutNewline event.2)))

def eventsText (events : List (ℤ × Bytes)) : Bytes :=
  ascii "\x7b\"events\":[" ++ (joinComma (events.map eventText) ++
    0x5d :: (ascii ",\"count\":" ++ dec events.length ++ ascii "\x7d"))

theorem printEvents_some {count n : ℕ} (h : printEvents size limit events used count = some (r,
    n)) :
    let shown := (events.filter eventFits).take (limit - count)
    n = count + shown.length ∧
      used ++ (if count = 0 then joinComma (shown.map eventText)
        else (shown.map eventText).flatMap (0x2c :: ·)) = r := by
  induction events generalizing used count with
  | nil =>
    simp only [printEvents, Option.some.injEq, Prod.mk.injEq] at h
    simp [h, joinComma]
  | cons event events ih =>
    obtain ⟨sequence, line⟩ := event
    rw [printEvents, jsonEscape_eq (by decide)] at h
    by_cases hlimit : limit ≤ count
    · rw [if_pos hlimit] at h
      simp only [Option.some.injEq, Prod.mk.injEq] at h
      rw [show limit - count = 0 by omega]
      simp [h, joinComma]
    rw [if_neg hlimit] at h
    by_cases hfits : 2048 ≤ (escapeText (cstr (cutNewline line))).length
    · have hskip : ¬ eventFits (sequence, line) = true := by simp [eventFits]; omega
      rw [if_pos hfits] at h
      rw [filter_cons_of_neg hskip]
      exact ih h
    · have hkeep : eventFits (sequence, line) = true := by simp [eventFits]; omega
      rw [if_neg hfits] at h
      simp only [Option.bind_eq_bind, Option.bind_eq_some_iff] at h
      obtain ⟨r1, h1, h2⟩ := h
      obtain ⟨rfl, -⟩ := appendRaw_some h1
      obtain ⟨hn, hr⟩ := ih h2
      rw [filter_cons_of_pos hkeep, show limit - count = limit - (count + 1) + 1 by omega,
        take_succ_cons]
      rw [if_neg (Nat.succ_ne_zero count)] at hr
      refine ⟨by rw [hn, length_cons]; omega, ?_⟩
      rw [← hr, map_cons, flatMap_cons, joinComma_cons]
      by_cases hc : count = 0
      · simp [hc, eventText]
      · simp [hc, eventText, ascii]

/-- The events that are printed are the first ones that fit, and the whole fits. -/
theorem eventsAfterJson_some (h : eventsAfterJson file after limit = some r) :
    eventsText (shownEvents file after limit) = r ∧ r.length < 8192 := by
  simp only [eventsAfterJson, Option.bind_eq_bind, Option.bind_eq_some_iff] at h
  obtain ⟨⟨used, n⟩, h1, h2⟩ := h
  obtain ⟨rfl, hlen⟩ := appendRaw_some h2
  obtain ⟨rfl, rfl⟩ := printEvents_some h1
  refine ⟨?_, hlen⟩
  simp [eventsText, shownEvents, ascii]

theorem decInt_chars (z : ℤ) : Text (decInt z) ∧ 0 ∉ decInt z := by
  cases z with
  | ofNat n => exact ⟨text_dec n, zero_notMem_dec n⟩
  | negSucc n =>
    refine ⟨.cons (isChar_ascii (b := 0x2d) (by decide)) (text_dec _), ?_⟩
    simp [decInt, zero_notMem_dec]

def eventMembers (event : ℤ × Bytes) : Members :=
  [(ascii "sequence", intJson event.1), (ascii "payload", .str (cstr (cutNewline event.2)))]

def eventsMembers (events : List (ℤ × Bytes)) : Members :=
  [(ascii "events", .arr (events.map fun e => .obj (eventMembers e))),
    (ascii "count", .uint events.length)]

/-- The line an event shows is UTF-8. -/
def EventUtf8 (event : ℤ × Bytes) : Prop := Text (cstr (cutNewline event.2))

theorem spells_eventText (hlow : -2 ^ 63 ≤ event.1) (hhigh : event.1 < 2 ^ 63) (h :
    EventUtf8 event) :
    Spells (eventText event) (.obj (eventMembers event)) := by
  have hspell := spells_obj
    [.plain "sequence" (by decide) (spells_decInt hlow hhigh),
      .plain "payload" (by decide) (spells_str (spells_escapeText h))]
  convert hspell using 1
  · simp [eventText, eventJson, objectText, joinComma, memberText, Field.text, Field.plain, ascii]
  · rfl

theorem spells_eventsText (hrange : ∀ e ∈ events, -2 ^ 63 ≤ e.1 ∧ e.1 < 2 ^ 63)
    (hcount : events.length < 2 ^ 64) (h : ∀ e ∈ events, EventUtf8 e) :
    Spells (eventsText events) (.obj (eventsMembers events)) := by
  have hitems := spells_arr (events.map fun e => (eventText e, .obj (eventMembers e)))
    (by
      intro p hp
      obtain ⟨e, hmem, rfl⟩ := mem_map.mp hp
      exact spells_eventText (hrange e hmem).1 (hrange e hmem).2 (h e hmem))
  have hspell := spells_obj
    [.plain "events" (by decide) hitems,
      .plain "count" (by decide) (spells_uint hcount)]
  convert hspell using 1
  · simp [eventsText, objectText, joinComma, memberText, Field.text, Field.plain, ascii, arrayText,
      Function.comp_def]
  · simp [eventsMembers, Field.member, Field.plain, Function.comp_def]

theorem eventUtf8_of_text (h : Text (eventText event)) : EventUtf8 event := by
  have hstart : Text (ascii "\x7b\"sequence\":" ++ decInt event.1 ++ ascii ",\"payload\":\"") :=
    text_append (text_append (by decide) (decInt_chars event.1).1) (by decide +kernel)
  have hshape : eventText event =
      ascii "\x7b\"sequence\":" ++ decInt event.1 ++ ascii ",\"payload\":\"" ++
        (escapeText (cstr (cutNewline event.2)) ++ 0x22 :: [0x7d]) := by
    simp [eventText, eventJson, ascii]
  rw [hshape] at h
  exact (text_of_quoted hstart h).1

theorem zero_notMem_eventsText (events : List (ℤ × Bytes)) : 0 ∉ eventsText events := by
  have hitems : 0 ∉ joinComma (events.map eventText) := by
    refine zero_notMem_joinComma fun t ht => ?_
    obtain ⟨event, -, rfl⟩ := mem_map.mp ht
    simp [eventText, eventJson, ascii, zero_notMem_escapeText, (decInt_chars event.1).2]
  simp [eventsText, hitems, zero_notMem_dec, ascii]

theorem eventsAfter_range {after : ℤ} (h : e ∈ eventsAfter file after) :
    -2 ^ 63 ≤ e.1 ∧ e.1 < 2 ^ 63 := by
  obtain ⟨line, -, hline⟩ := mem_filterMap.mp h
  split_ifs at hline
  split at hline
  · rename_i sequence rest hscan
    split_ifs at hline
    obtain rfl := Option.some.inj hline
    exact scanLongLong_bounds hscan
  · simp at hline

theorem mem_shownEvents (h : e ∈ shownEvents file after limit) :
    e ∈ eventsAfter file (asLongLong after) ∧ eventFits e = true :=
  mem_filter.mp (mem_of_mem_take h)

theorem validateItems_events (h : ∀ e ∈ events, eventFits e = true) :
    validateItems 3 (events.map fun e => .obj (eventMembers e)) = true := by
  induction events with
  | nil => rfl
  | cons event events ih =>
    obtain ⟨hfit, hrest⟩ := forall_mem_cons.mp h
    have hlen := length_le_escapeText (cstr (cutNewline event.2))
    have hpayload : (cstr (cutNewline event.2)).length ≤ maxStringBytes := by
      simp only [eventFits, decide_eq_true_eq] at hfit
      unfold maxStringBytes
      omega
    have hkeys : validKeys ((eventMembers event).map Prod.fst) = true := by
      simp only [eventMembers, map_cons, map_nil]
      decide
    rw [map_cons, validateItems, ih hrest, validateValue, validateMembers_eq, hkeys]
    simp [validateValue, intJson_valid, eventMembers, hpayload, maxDepth, maxObjectMembers]

theorem validate_eventsMembers (h : ∀ e ∈ events, eventFits e = true) :
    validateValue 1 (.obj (eventsMembers events)) = decide (events.length ≤ maxArrayElements) := by
  have hkeys : validKeys ((eventsMembers events).map Prod.fst) = true := by
    simp only [eventsMembers, map_cons, map_nil]
    decide
  rw [validateValue, validateMembers_eq, hkeys]
  simp [validateValue, eventsMembers, validateItems_events h, maxDepth, maxObjectMembers]

theorem shownEvents_length_le (h : eventsAfterJson file after limit = some r) :
    (shownEvents file after limit).length ≤ 8192 := by
  obtain ⟨htext, hlen⟩ := eventsAfterJson_some h
  have hne : ∀ t ∈ (shownEvents file after limit).map eventText, t ≠ [] := by
    intro t ht
    obtain ⟨event, -, rfl⟩ := mem_map.mp ht
    simp [eventText, eventJson, ascii]
  have hcount := count_le_joinComma hne
  rw [← htext] at hlen
  simp only [eventsText, length_append, length_map] at hlen hcount
  omega

theorem fragmentValid_eventsAfterJson (h : eventsAfterJson file after limit = some r) :
    fragmentValid r = true ↔ ∀ e ∈ shownEvents file after limit, EventUtf8 e := by
  have hcount := shownEvents_length_le h
  obtain ⟨rfl, hlen⟩ := eventsAfterJson_some h
  constructor
  · intro hvalid
    obtain ⟨v, hv⟩ := Option.isSome_iff_exists.mp hvalid
    have htext := text_of_parse hv
    rw [cstr_eq_self (zero_notMem_eventsText _), eventsText] at htext
    have htail := text_of_append htext (by decide)
    intro e he
    exact eventUtf8_of_text (text_of_joinComma (by decide) htail _ (mem_map_of_mem he))
  · intro hutf
    have hspell := spells_eventsText (fun e he => eventsAfter_range (mem_shownEvents he).1)
      (by omega) hutf
    rw [fragmentValid, parse_spelled hspell (by unfold maxDocumentBytes; omega),
      validate_eventsMembers fun e he => (mem_shownEvents he).2,
      if_pos (decide_eq_true (by unfold maxArrayElements; omega))]
    rfl

end Cubicle.Controller
