import Cubicle.ControllerFragments
import Cubicle.JsonUtf8

/-!
# Snapshots from the controller to the client

The terminal model describes each cell by a text and the sequence that sets its attributes. The
controller prints a snapshot as JSON into a buffer of fixed size, and the client reads it back. As
long as the text fits the buffer, the client has the snapshot that the model made.
-/

namespace Cubicle.Controller
open ByteText Utf8Sequences CStrings JsonText JsonSpelling JsonEncoding RpcEnvelope List

deriving instance DecidableEq for Cell

inductive Color
  | default
  | indexed (index : UInt8)
  | rgb (red green blue : UInt8)
deriving DecidableEq

structure LibraryCell where
  chars : List ℕ
  bold : Bool
  italic : Bool
  underline : Bool
  blink : Bool
  reverse : Bool
  conceal : Bool
  strike : Bool
  fg : Color
  bg : Color

def utf8Bytes (codepoint : ℕ) : Bytes :=
  if codepoint = 0 then []
  else if codepoint < 0x80 then [UInt8.ofNat codepoint]
  else if codepoint < 0x800 then
    [UInt8.ofNat (0xc0 + codepoint / 64), UInt8.ofNat (0x80 + codepoint % 64)]
  else if codepoint < 0x10000 then
    [UInt8.ofNat (0xe0 + codepoint / 4096), UInt8.ofNat (0x80 + codepoint / 64 % 64),
      UInt8.ofNat (0x80 + codepoint % 64)]
  else if codepoint ≤ 0x10ffff then
    [UInt8.ofNat (0xf0 + codepoint / 262144), UInt8.ofNat (0x80 + codepoint / 4096 % 64),
      UInt8.ofNat (0x80 + codepoint / 64 % 64), UInt8.ofNat (0x80 + codepoint % 64)]
  else []

/-- `append_utf8`: a character that does not fit is left out. -/
def appendUtf8 (capacity : ℕ) (used : Bytes) (codepoint : ℕ) : Bytes :=
  if used.length + (utf8Bytes codepoint).length < capacity then used ++ utf8Bytes codepoint
  else used

/-- `cell_text_from_vterm`: a cell without characters is a blank. -/
def cellTextFrom (cell : LibraryCell) : Bytes :=
  let text := cell.chars.foldl (appendUtf8 32) []
  if text = [] then [0x20] else text

def sgrColor (start : Bytes) : Color → Bytes
  | .default => []
  | .indexed index => start ++ ascii "5;" ++ dec index.toNat
  | .rgb red green blue => start ++ ascii "2;" ++ dec red.toNat ++ ascii ";" ++ dec green.toNat ++
      ascii ";" ++ dec blue.toNat

def sgrFlag (on : Bool) (number : ℕ) : Bytes := if on then ascii ";" ++ dec number else []

def LibraryCell.plain (cell : LibraryCell) : Bool :=
  !cell.bold && !cell.underline && !cell.italic && !cell.blink && !cell.reverse &&
    !cell.conceal && !cell.strike && cell.fg = .default && cell.bg = .default

/-- `cell_sgr_from_vterm`; nothing when the sequence does not fit its 96 bytes. -/
def cellSgrFrom (cell : LibraryCell) : Option Bytes :=
  if cell.plain then some []
  else
    appendAll 96 [] [0x1b :: ascii "[0", sgrFlag cell.bold 1, sgrFlag cell.italic 3,
      sgrFlag cell.underline 4, sgrFlag cell.blink 5, sgrFlag cell.reverse 7,
      sgrFlag cell.conceal 8, sgrFlag cell.strike 9, sgrColor (ascii ";38;") cell.fg,
      sgrColor (ascii ";48;") cell.bg, ascii "m"]

def cellFrom (cell : LibraryCell) : Option Cell :=
  (cellSgrFrom cell).map fun sgr => ⟨cellTextFrom cell, sgr⟩

/-- The terminal library decodes no surrogates. -/
def LibraryCell.Scalar (cell : LibraryCell) : Prop :=
  ∀ c ∈ cell.chars, ¬ (0xd800 ≤ c ∧ c ≤ 0xdfff)

/-- Two C strings of UTF-8 text that fit the arrays of a cell and, when they are escaped, the
buffer of the controller. -/
structure CellOk (cell : Cell) : Prop where
  text : Text cell.text ∧ 0 ∉ cell.text ∧ cell.text.length < 32
  sgr : Text cell.sgr ∧ 0 ∉ cell.sgr ∧ cell.sgr.length ≤ 52

variable {c size : ℕ} {t : Terminal} {cells : List Cell}

theorem utf8Bytes_eq (hc : c ≠ 0) (hmax : c ≤ 0x10ffff) (hscalar : ¬ (0xd800 ≤ c ∧ c ≤ 0xdfff)) :
    utf8Bytes c = encodeScalar c := by
  have hvalid : c.isValidChar := by
    unfold Nat.isValidChar
    omega
  have hval : (Char.ofNat c).val.toNat = c := by
    rw [Char.ofNat, dif_pos hvalid]
    rfl
  unfold utf8Bytes encodeScalar String.utf8EncodeChar
  rw [hval, if_neg hc]
  dsimp only
  by_cases h1 : c < 0x80
  · rw [if_pos h1, if_pos (by omega)]
  by_cases h2 : c < 0x800
  · rw [if_neg h1, if_pos h2, if_neg (by omega), if_pos (by omega),
      show 0xc0 + c / 64 = c / 64 % 32 + 0xc0 by omega, Nat.add_comm 0x80]
  by_cases h3 : c < 0x10000
  · rw [if_neg h1, if_neg h2, if_pos h3, if_neg (by omega), if_neg (by omega), if_pos (by omega),
      show 0xe0 + c / 4096 = c / 4096 % 16 + 0xe0 by omega, Nat.add_comm 0x80, Nat.add_comm 0x80]
  · rw [if_neg h1, if_neg h2, if_neg h3, if_pos hmax, if_neg (by omega), if_neg (by omega),
      if_neg (by omega), show 0xf0 + c / 262144 = c / 262144 % 8 + 0xf0 by omega,
      Nat.add_comm 0x80, Nat.add_comm 0x80, Nat.add_comm 0x80]

theorem zero_ne_ofNat {k : ℕ} (hpos : 0 < k) (hlt : k < 256) : (0 : UInt8) ≠ UInt8.ofNat k := by
  intro heq
  have hvalue := congrArg UInt8.toNat heq
  rw [toNat_ofNat_lt hlt] at hvalue
  exact absurd hvalue (by simpa using hpos.ne)

theorem zero_notMem_utf8Bytes (c : ℕ) : 0 ∉ utf8Bytes c := by
  unfold utf8Bytes
  split_ifs with h0 h1 h2 h3 h4
  · simp
  · simpa using zero_ne_ofNat (by omega) (by omega)
  · simp only [mem_cons, not_mem_nil, or_false, not_or]
    exact ⟨zero_ne_ofNat (by omega) (by omega), zero_ne_ofNat (by omega) (by omega)⟩
  · simp only [mem_cons, not_mem_nil, or_false, not_or]
    exact ⟨zero_ne_ofNat (by omega) (by omega), zero_ne_ofNat (by omega) (by omega),
      zero_ne_ofNat (by omega) (by omega)⟩
  · simp only [mem_cons, not_mem_nil, or_false, not_or]
    exact ⟨zero_ne_ofNat (by omega) (by omega), zero_ne_ofNat (by omega) (by omega),
      zero_ne_ofNat (by omega) (by omega), zero_ne_ofNat (by omega) (by omega)⟩
  · simp

theorem text_utf8Bytes (hscalar : ¬ (0xd800 ≤ c ∧ c ≤ 0xdfff)) : Text (utf8Bytes c) := by
  by_cases hc : c = 0
  · rw [hc]
    exact .nil
  by_cases hmax : c ≤ 0x10ffff
  · rw [utf8Bytes_eq hc hmax hscalar]
    exact JsonUtf8.text_encodeScalar c
  · have hempty : utf8Bytes c = [] := by
      unfold utf8Bytes
      rw [if_neg hc, if_neg (by omega), if_neg (by omega), if_neg (by omega), if_neg hmax]
    rw [hempty]
    exact .nil

variable {used : Bytes}

theorem appendUtf8_ok (h : Text used ∧ 0 ∉ used ∧ used.length < 32)
    (hscalar : ¬ (0xd800 ≤ c ∧ c ≤ 0xdfff)) :
    Text (appendUtf8 32 used c) ∧ 0 ∉ appendUtf8 32 used c ∧
      (appendUtf8 32 used c).length < 32 := by
  unfold appendUtf8
  split_ifs with hfits
  · refine ⟨text_append h.1 (text_utf8Bytes hscalar), ?_, by rwa [length_append]⟩
    rw [mem_append]
    exact not_or.mpr ⟨h.2.1, zero_notMem_utf8Bytes c⟩
  · exact h

theorem cellTextFrom_ok {cell : LibraryCell} (h : cell.Scalar) :
    Text (cellTextFrom cell) ∧ 0 ∉ cellTextFrom cell ∧ (cellTextFrom cell).length < 32 := by
  have hfold : ∀ (chars : List ℕ) (used : Bytes), (∀ c ∈ chars, ¬ (0xd800 ≤ c ∧ c ≤ 0xdfff)) →
      (Text used ∧ 0 ∉ used ∧ used.length < 32) →
      Text (chars.foldl (appendUtf8 32) used) ∧ 0 ∉ chars.foldl (appendUtf8 32) used ∧
        (chars.foldl (appendUtf8 32) used).length < 32 := by
    intro chars
    induction chars with
    | nil => exact fun _ _ hused => hused
    | cons c rest ih =>
      intro used hall hused
      exact ih _ (fun d hd => hall d (mem_cons_of_mem _ hd))
        (appendUtf8_ok hused (hall c mem_cons_self))
  unfold cellTextFrom
  dsimp only
  split_ifs
  · decide
  · exact hfold cell.chars [] h ⟨.nil, by simp, by simp⟩

def isAsciiByte (b : UInt8) : Bool := b ≠ 0 && b.toNat < 0x80

/-- An ASCII string of at most `n` bytes. -/
structure AsciiWithin (n : ℕ) (s : Bytes) : Prop where
  ascii : s.all isAsciiByte = true
  short : s.length ≤ n

theorem AsciiWithin.append {n k : ℕ} {s t : Bytes} (hs : AsciiWithin n s) (ht : AsciiWithin k t) :
    AsciiWithin (n + k) (s ++ t) where
  ascii := by
    rw [all_append, hs.ascii, ht.ascii]
    rfl
  short := by
    rw [length_append]
    exact Nat.add_le_add hs.short ht.short

theorem asciiWithin_dec {n k : ℕ} (hk : 0 < k) (h : n < 10 ^ k) : AsciiWithin k (dec n) where
  ascii := by
    refine all_eq_true.mpr fun b hb => ?_
    obtain ⟨hlow, hhigh⟩ := between_of_mem_dec n b hb
    simp only [isAsciiByte, Bool.and_eq_true, decide_eq_true_eq]
    refine ⟨?_, by omega⟩
    rintro rfl
    exact absurd hlow (by decide)
  short := dec_length_le hk h

theorem asciiWithin_sgrFlag (on : Bool) {number : ℕ} (h : number < 10) :
    AsciiWithin 2 (sgrFlag on number) := by
  cases on with
  | false => exact ⟨by simp [sgrFlag], by simp [sgrFlag]⟩
  | true =>
    have hsign : AsciiWithin 1 (ascii ";") := ⟨by decide, by decide⟩
    exact hsign.append (asciiWithin_dec (k := 1) (by decide) h)

theorem asciiWithin_sgrColor {start : Bytes} (h : AsciiWithin 4 start) (color : Color) :
    AsciiWithin 17 (sgrColor start color) := by
  have hbyte : ∀ b : UInt8, AsciiWithin 3 (dec b.toNat) := fun b =>
    asciiWithin_dec (k := 3) (by decide) (b.toNat_lt.trans (by decide))
  have hsign : AsciiWithin 1 (ascii ";") := ⟨by decide, by decide⟩
  cases color with
  | default => exact ⟨by simp [sgrColor], by simp [sgrColor]⟩
  | indexed index =>
    have htext := (h.append (show AsciiWithin 2 (ascii "5;") from ⟨by decide, by decide⟩)).append
      (hbyte index)
    exact ⟨htext.ascii, htext.short.trans (by decide)⟩
  | rgb red green blue =>
    exact (((((h.append (show AsciiWithin 2 (ascii "2;") from ⟨by decide, by decide⟩)).append
      (hbyte red)).append hsign).append (hbyte green)).append hsign).append (hbyte blue)

theorem cellSgrFrom_ok (cell : LibraryCell) :
    ∃ sgr, cellSgrFrom cell = some sgr ∧ AsciiWithin 52 sgr := by
  unfold cellSgrFrom
  split_ifs
  · exact ⟨[], rfl, ⟨by simp, by simp⟩⟩
  · have hstart : AsciiWithin 3 (0x1b :: ascii "[0") := ⟨by decide, by decide⟩
    have hend : AsciiWithin 1 (ascii "m") := ⟨by decide, by decide⟩
    have hcolors := (asciiWithin_sgrColor (show AsciiWithin 4 (ascii ";38;")
      from ⟨by decide, by decide⟩) cell.fg).append ((asciiWithin_sgrColor (show AsciiWithin 4
        (ascii ";48;") from ⟨by decide, by decide⟩) cell.bg).append hend)
    have hall := hstart.append ((asciiWithin_sgrFlag cell.bold (show 1 < 10 by decide)).append
      ((asciiWithin_sgrFlag cell.italic (show 3 < 10 by decide)).append
      ((asciiWithin_sgrFlag cell.underline (show 4 < 10 by decide)).append
      ((asciiWithin_sgrFlag cell.blink (show 5 < 10 by decide)).append
      ((asciiWithin_sgrFlag cell.reverse (show 7 < 10 by decide)).append
      ((asciiWithin_sgrFlag cell.conceal (show 8 < 10 by decide)).append
      ((asciiWithin_sgrFlag cell.strike (show 9 < 10 by decide)).append hcolors)))))))
    rw [appendAll_eq [] _ (by decide)]
    simp only [flatten_cons, flatten_nil, append_nil, nil_append,
      length_nil, Nat.zero_add]
    rw [if_neg (Nat.not_le.mpr (lt_of_le_of_lt hall.short (by decide)))]
    exact ⟨_, rfl, hall⟩

theorem cellFrom_ok {cell : LibraryCell} (h : cell.Scalar) :
    ∃ c, cellFrom cell = some c ∧ CellOk c := by
  obtain ⟨sgr, hsgr, hascii⟩ := cellSgrFrom_ok cell
  refine ⟨⟨cellTextFrom cell, sgr⟩, by rw [cellFrom, hsgr]; rfl, cellTextFrom_ok h, ?_⟩
  have hbytes : ∀ b ∈ sgr, b ≠ 0 ∧ b.toNat < 0x80 := fun b hb => by
    simpa [isAsciiByte] using all_eq_true.mp hascii.ascii b hb
  exact ⟨text_ascii fun b hb => (hbytes b hb).2, fun hzero => (hbytes 0 hzero).1 rfl,
    hascii.short⟩

/-- `cubicle_terminal_snapshot_t`. -/
structure Snapshot where
  rows : ℕ
  cols : ℕ
  cursorRow : ℕ
  cursorCol : ℕ
  cursorVisible : Bool
  applicationCursor : Bool
  offset : ℕ
  cells : List Cell
deriving DecidableEq

def Terminal.snapshot (t : Terminal) (offset : ℕ) : Option Snapshot :=
  t.snapshotCells.map fun cells =>
    ⟨t.rows, t.cols, t.cursorRow, t.cursorCol, t.cursorVisible, t.applicationCursor, offset, cells⟩

/-- The terminal shows these cells of its library. -/
def Terminal.Shows (t : Terminal) (grid : ℕ → ℕ → LibraryCell) : Prop :=
  ∀ row col, t.cell row col = cellFrom (grid row col)

theorem Terminal.Shows.snapshotCells_ok {grid : ℕ → ℕ → LibraryCell} (h : t.Shows grid)
    (hscalar : ∀ row col, (grid row col).Scalar) :
    ∃ cells, t.snapshotCells = some cells ∧ ∀ cell ∈ cells, CellOk cell := by
  unfold Terminal.snapshotCells
  generalize List.range (t.rows * t.cols) = indices
  induction indices with
  | nil => exact ⟨[], rfl, by simp⟩
  | cons i rest ih =>
    obtain ⟨cells, hcells, hok⟩ := ih
    obtain ⟨cell, hcell, hcellOk⟩ := cellFrom_ok (hscalar (i / t.cols) (i % t.cols))
    refine ⟨cell :: cells, ?_, forall_mem_cons.mpr ⟨hcellOk, hok⟩⟩
    rw [mapM_cons, hcells, h, hcell]
    rfl

variable {cell : Cell}

theorem CellOk.fits (h : CellOk cell) : CellFits cell := by
  obtain ⟨-, -, htext⟩ := h.text
  obtain ⟨-, -, hsgr⟩ := h.sgr
  have hcut := cstr_length_le cell.text
  have hcut' := cstr_length_le cell.sgr
  have hescape := escapeText_length_le (cstr cell.text)
  have hescape' := escapeText_length_le (cstr cell.sgr)
  exact ⟨by omega, by omega⟩

theorem CellOk.utf8 (h : CellOk cell) : CellUtf8 cell := by
  rw [CellUtf8, cstr_eq_self h.text.2.1, cstr_eq_self h.sgr.2.1]
  exact ⟨h.text.1, h.sgr.1⟩

theorem appendJsonText_of_lt {text : Bytes} (hfits : (escapeText (cstr text)).length < 512)
    (h : (used ++ (0x22 :: escapeText (cstr text) ++ [0x22])).length < size) :
    appendJsonText size used text = some (used ++ (0x22 :: escapeText (cstr text) ++ [0x22])) := by
  rw [appendJsonText, jsonEscape_eq (by decide), if_neg (by omega)]
  exact appendRaw_of_lt h

theorem appendSnapshotJsonCell_of_lt (hfits : CellFits cell)
    (h : (used ++ cellText cell).length < size) :
    appendSnapshotJsonCell size used cell = some (used ++ cellText cell) := by
  obtain ⟨htext, hsgr⟩ := hfits
  have hlength : (cellText cell).length =
      (escapeText (cstr cell.text)).length + (escapeText (cstr cell.sgr)).length + 17 := by
    simp only [cellText, length_append]
    simp only [ascii]
    simp
    omega
  rw [length_append, hlength] at h
  have hquoted : ∀ s : Bytes, (0x22 :: s ++ [0x22]).length = s.length + 2 := by simp
  obtain ⟨u₁, hu₁⟩ : ∃ u, u = used ++ ascii "\x7b\"t\":" := ⟨_, rfl⟩
  obtain ⟨u₂, hu₂⟩ : ∃ u, u = u₁ ++ (0x22 :: escapeText (cstr cell.text) ++ [0x22]) := ⟨_, rfl⟩
  obtain ⟨u₃, hu₃⟩ : ∃ u, u = u₂ ++ ascii ",\"sgr\":" := ⟨_, rfl⟩
  obtain ⟨u₄, hu₄⟩ : ∃ u, u = u₃ ++ (0x22 :: escapeText (cstr cell.sgr) ++ [0x22]) := ⟨_, rfl⟩
  have l₁ : u₁.length = used.length + 5 := by rw [hu₁, length_append]; rfl
  have l₂ : u₂.length = u₁.length + ((escapeText (cstr cell.text)).length + 2) := by
    rw [hu₂, length_append, hquoted]
  have l₃ : u₃.length = u₂.length + 7 := by rw [hu₃, length_append]; rfl
  have l₄ : u₄.length = u₃.length + ((escapeText (cstr cell.sgr)).length + 2) := by
    rw [hu₄, length_append, hquoted]
  have hend : (u₄ ++ ascii "\x7d").length = u₄.length + 1 := by rw [length_append]; rfl
  have h₁ : appendRaw size used (ascii "\x7b\"t\":") = some u₁ := by
    rw [appendRaw_of_lt (by rw [← hu₁]; omega), hu₁]
  have h₂ : appendJsonText size u₁ cell.text = some u₂ := by
    rw [appendJsonText_of_lt htext (by rw [← hu₂]; omega), hu₂]
  have h₃ : appendRaw size u₂ (ascii ",\"sgr\":") = some u₃ := by
    rw [appendRaw_of_lt (by rw [← hu₃]; omega), hu₃]
  have h₄ : appendJsonText size u₃ cell.sgr = some u₄ := by
    rw [appendJsonText_of_lt hsgr (by rw [← hu₄]; omega), hu₄]
  have h₅ : appendRaw size u₄ (ascii "\x7d") = some (u₄ ++ ascii "\x7d") :=
    appendRaw_of_lt (by omega)
  simp only [appendSnapshotJsonCell, Option.bind_eq_bind, h₁, h₂, h₃, h₄, h₅, Option.bind_some]
  rw [hu₄, hu₃, hu₂, hu₁]
  simp [cellText, ascii]

theorem appendCells_of_lt (hfits : ∀ cell ∈ cells, CellFits cell)
    (h : (used ++ (cells.map cellText).flatMap (0x2c :: ·)).length < size) :
    appendCells size used cells = some (used ++ (cells.map cellText).flatMap (0x2c :: ·)) := by
  induction cells generalizing used with
  | nil => simp [appendCells]
  | cons cell cells ih =>
    obtain ⟨hcell, hrest⟩ := forall_mem_cons.mp hfits
    have hassoc : used ++ ((cell :: cells).map cellText).flatMap (0x2c :: ·) =
        (used ++ ascii "," ++ cellText cell) ++ (cells.map cellText).flatMap (0x2c :: ·) := by
      simp [ascii]
    rw [hassoc] at h ⊢
    have hall := ih hrest h
    rw [length_append, length_append] at h
    have hcomma : appendRaw size used (ascii ",") = some (used ++ ascii ",") :=
      appendRaw_of_lt (by omega)
    have hone := appendSnapshotJsonCell_of_lt hcell
      (show (used ++ ascii "," ++ cellText cell).length < size by
        rw [length_append]
        omega)
    simp only [appendCells, Option.bind_eq_bind, hcomma, Option.bind_some, hone, hall]

/-- A snapshot is printed exactly when its text fits the buffer. -/
theorem snapshotJson_eq_some_iff {offset : ℕ} {r : Bytes} (hcells : t.snapshotCells = some cells)
    (hfits : ∀ cell ∈ cells, CellFits cell) :
    snapshotJson t offset size = some r ↔
      r = snapshotText t offset cells ∧ (snapshotText t offset cells).length < size := by
  constructor
  · intro h
    obtain ⟨cells', hcells', rfl, hlength, -⟩ := snapshotJson_some h
    obtain rfl := Option.some.inj (hcells.symm.trans hcells')
    exact ⟨rfl, hlength⟩
  · rintro ⟨rfl, hlength⟩
    have hheader : appendRaw size [] (snapshotHeader t offset) =
        some (snapshotHeader t offset) := by
      refine appendRaw_of_lt ?_
      rw [snapshotText, length_append] at hlength
      rw [nil_append]
      omega
    simp only [snapshotJson, Option.bind_eq_bind, hcells, Option.bind_some, hheader]
    have hend : ∀ u, u ++ ascii "]\x7d" = snapshotText t offset cells →
        appendRaw size u (ascii "]\x7d") = some (snapshotText t offset cells) := by
      intro u hu
      rw [appendRaw_of_lt (by rwa [hu]), hu]
    cases cells with
    | nil => exact hend _ (by simp [snapshotText, joinComma])
    | cons cell cells =>
      obtain ⟨hcell, hrest⟩ := forall_mem_cons.mp hfits
      have hshape : snapshotHeader t offset ++ cellText cell ++
          (cells.map cellText).flatMap (0x2c :: ·) ++ ascii "]\x7d" =
            snapshotText t offset (cell :: cells) := by
        simp [snapshotText, joinComma_cons]
      have hlong := hlength
      rw [← hshape, length_append] at hlong
      have hmore := appendCells_of_lt hrest
        (show (snapshotHeader t offset ++ cellText cell ++
          (cells.map cellText).flatMap (0x2c :: ·)).length < size by omega)
      rw [length_append] at hlong
      have hfirst := appendSnapshotJsonCell_of_lt hcell
        (show (snapshotHeader t offset ++ cellText cell).length < size by omega)
      simp only [hfirst, Option.bind_some, hmore]
      exact hend _ hshape

end Cubicle.Controller

namespace Cubicle.Client
open ByteText JsonText JsonSpelling JsonEncoding RpcEnvelope Controller List

/-- The fields of a snapshot, and its cells as they came. -/
def snapshotFields (root : Members) : Option (Snapshot × List Json) := do
  let rows ← getU64 root (ascii "rows")
  let cols ← getU64 root (ascii "columns")
  let cursorRow ← getU64 root (ascii "cursor_row")
  let cursorCol ← getU64 root (ascii "cursor_column")
  let cursorVisible ← getOptionalBool root (ascii "cursor_visible")
  let applicationCursor ← getOptionalBool root (ascii "application_cursor")
  let offset ← getU64 root (ascii "offset")
  let cells ← getRequiredArray root (ascii "cells")
  if rows = 0 ∨ cols = 0 ∨ 1000 < rows ∨ 1000 < cols then none
  else
    return (⟨rows % 2 ^ 32, cols % 2 ^ 32, cursorRow % 2 ^ 32, cursorCol % 2 ^ 32,
      cursorVisible.getD true, applicationCursor.getD false, offset, []⟩, cells)

def snapshotCell : Json → Option Cell
  | .obj members => do
    let text ← getRequiredString members (ascii "t") 32
    let sgr ← getRequiredString members (ascii "sgr") 96
    return ⟨text, sgr⟩
  | _ => none

/-- `cubicle_attachment_snapshot`, given the result of the request. -/
def attachmentSnapshot (result : Bytes) : Except String Snapshot :=
  match parse result with
  | some (.obj root) =>
    match snapshotFields root with
    | none => .error "invalid snapshot response"
    | some (fields, cells) =>
      if cells.length ≠ fields.rows * fields.cols then .error "invalid snapshot cell count"
      else match cells.mapM snapshotCell with
        | none => .error "invalid snapshot cell"
        | some cells => .ok { fields with cells := cells }
  | _ => .error "invalid snapshot response"

theorem snapshotCell_cellMembers {cell : Cell} (h : CellOk cell) :
    snapshotCell (.obj (cellMembers cell)) = some cell := by
  obtain ⟨-, htext, hshort⟩ := h.text
  obtain ⟨-, hsgr, hshort'⟩ := h.sgr
  have hfits : cell.sgr.length < 96 := by omega
  simp [snapshotCell, cellMembers, getRequiredString, objectGet, ascii, cstr_eq_self htext,
    cstr_eq_self hsgr, hshort, hfits]

variable {cells : List Cell}

theorem mapM_snapshotCell (h : ∀ cell ∈ cells, CellOk cell) :
    (cells.map fun cell => Json.obj (cellMembers cell)).mapM snapshotCell = some cells := by
  rw [mapM_some_iff, map_map]
  refine map_congr_left fun cell hcell => ?_
  exact snapshotCell_cellMembers (h cell hcell)

theorem snapshotFields_snapshotMembers (t : Terminal) (offset : ℕ) (cells : List Cell) :
    snapshotFields (snapshotMembers t offset cells) =
      some (⟨t.rows, t.cols, t.cursorRow, t.cursorCol, t.cursorVisible, t.applicationCursor, offset,
        []⟩, cells.map fun cell => .obj (cellMembers cell)) := by
  obtain ⟨hrows, hrows', hcols, hcols'⟩ := t.size_le
  obtain ⟨hcursorRow, hcursorCol⟩ := t.cursor_lt
  have hsize : ¬ (t.rows = 0 ∨ t.cols = 0 ∨ 1000 < t.rows ∨ 1000 < t.cols) := by omega
  simp [snapshotFields, snapshotMembers, getU64, getOptionalBool, getRequiredArray, objectGet,
    ascii, hsize]
  omega

/-- The client reads what the controller printed. -/
theorem attachmentSnapshot_snapshotText {t : Terminal} {offset : ℕ}
    (hcells : ∀ cell ∈ cells, CellOk cell) (hlength : cells.length = t.rows * t.cols)
    (hcount : t.rows * t.cols ≤ 65536) (hoffset : offset < 2 ^ 64)
    (hfits : (snapshotText t offset cells).length ≤ maxDocumentBytes) :
    attachmentSnapshot (snapshotText t offset cells) =
      .ok ⟨t.rows, t.cols, t.cursorRow, t.cursorCol, t.cursorVisible, t.applicationCursor, offset,
        cells⟩ := by
  have hspells := spells_snapshotText (t := t) hoffset fun cell hcell => (hcells cell hcell).utf8
  have hvalid : validateValue 1 (.obj (snapshotMembers t offset cells)) = true := by
    rw [validate_snapshotMembers fun cell hcell => (hcells cell hcell).fits, hlength]
    exact decide_eq_true hcount
  rw [attachmentSnapshot, parse_spelled hspells hfits, if_pos hvalid]
  dsimp only
  rw [snapshotFields_snapshotMembers]
  dsimp only
  rw [if_neg (by rw [length_map, hlength]; simp), mapM_snapshotCell hcells]

/-- A snapshot of at most 65536 cells goes from the terminal model to the client unchanged exactly
when its text fits the buffer of the controller, and is not printed otherwise. -/
theorem snapshot_received_iff (t : Terminal) (grid : ℕ → ℕ → LibraryCell) (hshows : t.Shows grid)
    (hscalar : ∀ row col, (grid row col).Scalar) (hcount : t.rows * t.cols ≤ 65536)
    (offset : ℕ) (hoffset : offset < 2 ^ 64) :
    ∃ snapshot, t.snapshot offset = some snapshot ∧
      ((∃ r, snapshotJson t offset responseMax = some r ∧ attachmentSnapshot r = .ok snapshot) ↔
        (snapshotText t offset snapshot.cells).length < responseMax) ∧
      (responseMax ≤ (snapshotText t offset snapshot.cells).length →
        snapshotJson t offset responseMax = none) := by
  obtain ⟨cells, hcells, hok⟩ := hshows.snapshotCells_ok hscalar
  have hprinted : ∀ r, snapshotJson t offset responseMax = some r ↔
      r = snapshotText t offset cells ∧ (snapshotText t offset cells).length < responseMax :=
    fun r => snapshotJson_eq_some_iff hcells fun cell hcell => (hok cell hcell).fits
  refine ⟨_, by rw [Terminal.snapshot, hcells]; rfl, ⟨?_, ?_⟩, fun hlong => ?_⟩
  · rintro ⟨r, hr, -⟩
    exact ((hprinted r).mp hr).2
  · intro hfits
    refine ⟨_, (hprinted _).mpr ⟨rfl, hfits⟩, ?_⟩
    exact attachmentSnapshot_snapshotText hok (snapshotCells_length hcells) hcount hoffset
      (hfits.le.trans (by decide))
  · exact Option.eq_none_iff_forall_ne_some.mpr fun r hr =>
      Nat.not_lt.mpr hlong ((hprinted r).mp hr).2

theorem origin_lt : (0 : ℕ) < 2 ^ 32 ∧ (0 : ℕ) < 2 ^ 32 := by decide

theorem square_size_le {size : ℕ} (h : 0 < size ∧ size ≤ 1000) :
    0 < size ∧ size ≤ 1000 ∧ 0 < size ∧ size ≤ 1000 := ⟨h.1, h.2, h⟩

/-- A terminal that shows the same cell everywhere. -/
def uniformTerminal (size : ℕ) (h : 0 < size ∧ size ≤ 1000) (cell : LibraryCell) : Terminal where
  cursorRow := 0
  cursorCol := 0
  cursorVisible := true
  applicationCursor := false
  cell := fun _ _ => cellFrom cell
  cursor_lt := origin_lt
  rows := size
  cols := size
  size_le := square_size_le h

/-- A bold and underlined letter in two colours. -/
def loudCell : LibraryCell :=
  ⟨[0x78], true, false, true, false, false, false, false, .rgb 255 255 255, .rgb 255 255 255⟩

def plainCell : LibraryCell :=
  ⟨[0x41], false, false, false, false, false, false, false, .default, .default⟩

/-- One letter is received. -/
theorem plainCell_received :
    ∃ snapshot, (uniformTerminal 1 (by decide) plainCell).snapshot 5 = some snapshot ∧
      snapshot.cells = [⟨ascii "A", []⟩] ∧
      ∃ r, snapshotJson (uniformTerminal 1 (by decide) plainCell) 5 responseMax = some r ∧
        attachmentSnapshot r = .ok snapshot := by
  obtain ⟨snapshot, hsnapshot, hiff, -⟩ := snapshot_received_iff
    (uniformTerminal 1 (by decide) plainCell) (fun _ _ => plainCell) (fun _ _ => rfl)
    (fun _ _ c hc => by simp [plainCell] at hc; omega) (by decide) 5 (by decide)
  have hcells : snapshot.cells = [⟨ascii "A", []⟩] := by
    have hshown : ((uniformTerminal 1 (by decide) plainCell).snapshot 5).map Snapshot.cells =
        some [⟨ascii "A", []⟩] := by decide
    rw [hsnapshot] at hshown
    exact Option.some.inj hshown
  refine ⟨snapshot, hsnapshot, hcells, hiff.mpr ?_⟩
  rw [hcells]
  decide +kernel

theorem length_joinComma_replicate (n : ℕ) (s : Bytes) :
    (joinComma (List.replicate (n + 1) s)).length = s.length + n * (s.length + 1) := by
  rw [replicate_succ, joinComma_cons, length_append, length_flatMap]
  simp

/-- A screen of 65536 loud cells does not fit the buffer of the controller. -/
theorem loudCells_not_printed :
    ∃ (t : Terminal) (grid : ℕ → ℕ → LibraryCell), t.Shows grid ∧
      (∀ row col, (grid row col).Scalar) ∧ t.rows * t.cols ≤ 65536 ∧
      snapshotJson t 0 responseMax = none := by
  have hscalar : loudCell.Scalar := fun c hc => by simp [loudCell] at hc; omega
  obtain ⟨cell, hcell, hsize⟩ : ∃ cell, cellFrom loudCell = some cell ∧
      (cellText cell).length = 65 := by
    refine ⟨⟨ascii "x", 0x1b :: ascii "[0;1;4;38;2;255;255;255;48;2;255;255;255m"⟩, ?_, ?_⟩
    · decide
    · decide +kernel
  refine ⟨uniformTerminal 256 (by decide) loudCell, fun _ _ => loudCell, fun _ _ => rfl,
    fun _ _ => hscalar, by decide, ?_⟩
  cases hprinted : snapshotJson (uniformTerminal 256 (by decide) loudCell) 0 responseMax with
  | none => rfl
  | some r =>
    exfalso
    obtain ⟨cells, hcells, rfl, hlength, -⟩ := snapshotJson_some hprinted
    have hcount : cells.length = 65535 + 1 := snapshotCells_length hcells
    have hall : ∀ c ∈ cells, c = cell := by
      intro c hc
      have hmem : some c ∈ cells.map some := mem_map_of_mem hc
      rw [← (mapM_some_iff _ _ _).mp hcells] at hmem
      obtain ⟨i, -, hi⟩ := mem_map.mp hmem
      exact Option.some.inj (hi.symm.trans hcell)
    rw [eq_replicate_iff.mpr ⟨hcount, hall⟩, snapshotText, map_replicate,
      length_append, length_append, length_joinComma_replicate, hsize] at hlength
    have hmax : responseMax = 4194304 := by decide
    omega

end Cubicle.Client
