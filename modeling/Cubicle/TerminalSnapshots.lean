import Cubicle.TerminalModes

/-!
# Snapshots of a terminal

A snapshot is loaded by writing its cells to the terminal model as output, and its mode of the
cursor keys by writing the sequence that sets it. Nothing resets the mode or the unfinished sequence
the model was left with, and the snapshot does not say what its own model had seen of an unfinished
sequence. This module follows both through a load.
-/

namespace Cubicle.TerminalSnapshots
open ByteText RingBuffers WindowedScans TerminalModes List

/-- `cubicle_terminal_cell_t`: two C strings in their arrays. -/
structure Cell where
  text : Bytes
  sgr : Bytes
  text_lt : text.length < 32
  sgr_lt : sgr.length < 96

/-- What the emulator shows: sizes, cells row by row, and the cursor. -/
structure Screen where
  rows : ℕ
  cols : ℕ
  cells : List Cell
  cursorRow : ℕ
  cursorCol : ℕ
  cells_length : cells.length = rows * cols

/-- `cubicle_terminal_snapshot_t`. -/
structure Snapshot extends Screen where
  applicationCursor : Bool

/-- `cubicle_terminal_model_snapshot`. -/
def takeSnapshot (m : Tracker) (screen : Screen) : Snapshot :=
  { screen with applicationCursor := m.applicationCursor }

/-- `ESC [ row ; col H`. -/
def cursorTo (row col : ℕ) : Bytes := 0x1b :: 0x5b :: (dec row ++ 0x3b :: dec col ++ [0x48])

/-- The attributes of a cell, unless they are in force already, and its text. -/
def cellWrites (active : Bytes) (cell : Cell) : List Bytes :=
  (if active = cell.sgr then []
    else [if cell.sgr = [] then [0x1b, 0x5b, 0x30, 0x6d] else cell.sgr]) ++
    [if cell.text = [] then [0x20] else cell.text]

def cellsWrites (active : Bytes) : List Cell → List Bytes
  | [] => []
  | cell :: cells => cellWrites active cell ++ cellsWrites cell.sgr cells

/-- The attributes in force after a row. -/
def activeAfter (active : Bytes) (cells : List Cell) : Bytes :=
  (cells.getLast?.map Cell.sgr).getD active

def Screen.rowCells (s : Screen) (row : ℕ) : List Cell := (s.cells.drop (row * s.cols)).take s.cols

/-- The rows from `row` on, `n` of them. -/
def rowsWrites (s : Screen) (active : Bytes) (row : ℕ) : ℕ → List Bytes
  | 0 => []
  | n + 1 => cursorTo (row + 1) 1 :: (cellsWrites active (s.rowCells row) ++
      rowsWrites s (activeAfter active (s.rowCells row)) (row + 1) n)

/-- The position of the cursor is counted from one, in 32 bits. -/
def Snapshot.writes (s : Snapshot) : List Bytes :=
  rowsWrites s.toScreen [] 0 s.rows ++
    [cursorTo ((s.cursorRow + 1) % 2 ^ 32) ((s.cursorCol + 1) % 2 ^ 32)] ++
    if s.applicationCursor then [setCursorKeys] else []

def Snapshot.valid (s : Snapshot) : Bool :=
  0 < s.rows && 0 < s.cols && s.rows ≤ 1000 && s.cols ≤ 1000

/-- `cubicle_terminal_model_load_snapshot`, for the fields the scanner uses. -/
def loadSnapshot (m : Tracker) (s : Snapshot) : Option Tracker :=
  if s.valid then some (feedAll m s.writes) else none

/-- A control sequence without a private marker. -/
structure IsControl (w : Bytes) : Prop where
  shape : ∃ ps c, w = 0x1b :: 0x5b :: (ps ++ [c]) ∧ (∀ b ∈ ps, isParameter b = true) ∧
    isFinal c = true ∧ c ≠ 0x5b
  short : w.length ≤ 4096

structure IsPlainText (w : Bytes) : Prop where
  no_escape : 0x1b ∉ w
  short : w.length ≤ 4096

variable {w v t u : Bytes} {hasModeOne haveDigits : Bool} {m : Tracker} {s : Snapshot}
  {chunks : List Bytes}

theorem lastOf_modeAt_eq_none (h : 0x1b ∉ w ∨ 0x3f ∉ w) : lastOf modeAt w = none := by
  rw [lastOf_eq_none_iff]
  intro u _ hu
  rcases introducer_or u with ⟨t, rfl⟩ | ⟨hnone, -⟩
  · have hmem : ∀ b ∈ introducer, b ∈ w := fun b hb => hu.subset (mem_append_left t hb)
    rcases h with h | h
    · exact absurd (hmem 0x1b (by decide)) h
    · exact absurd (hmem 0x3f (by decide)) h
  · exact hnone

theorem IsControl.lastOf_eq (h : IsControl w) : lastOf modeAt w = none := by
  obtain ⟨ps, c, rfl, hps, hc, -⟩ := h.shape
  refine lastOf_modeAt_eq_none (.inr fun hmem => ?_)
  simp only [mem_cons, mem_append, not_mem_nil, or_false] at hmem
  rcases hmem with hmem | hmem | hmem | hmem
  · cases hmem
  · cases hmem
  · cases hps _ hmem
  · rw [← hmem] at hc
    cases hc

/-- After a final byte the loop knows what it finds. -/
theorem readParameters_append {value : ℕ} (h : ∃ b ∈ v, isFinal b = true) (x : Bytes) :
    readParameters hasModeOne haveDigits value (v ++ x) =
      readParameters hasModeOne haveDigits value v := by
  induction v generalizing hasModeOne haveDigits value with
  | nil => simp at h
  | cons ch v ih =>
    have hrest : isFinal ch = false → ∃ b ∈ v, isFinal b = true := by
      rintro hch
      obtain ⟨b, hb, hfinal⟩ := h
      rcases mem_cons.mp hb with rfl | hb
      · rw [hch] at hfinal
        cases hfinal
      · exact ⟨b, hb, hfinal⟩
    rw [cons_append, readParameters, readParameters]
    split_ifs with hdigit hsemicolon hletter hone hfinal
    · exact ih (hrest (not_isFinal_of_isParameter (isParameter_of_isDigit hdigit)))
    · exact ih (hrest (by rw [hsemicolon]; rfl))
    · rfl
    · rfl
    · rfl
    · exact ih (hrest (Bool.eq_false_iff.mpr hfinal))

/-- Nothing that starts in the text is completed later. -/
def Settled (t : Bytes) : Prop := ∀ u, u ≠ [] → u <:+ t → ∀ x, modeAt (u ++ x) = modeAt u

theorem Settled.of_suffix {s : Bytes} (h : Settled t) (hs : s <:+ t) : Settled s :=
  fun u hu hsuffix => h u hu (hsuffix.trans hs)

/-- More of the stream changes nothing at a position, if it does not change what the loop reads after
an introducer and does not complete an introducer. -/
theorem modeAt_append {x : Bytes}
    (hread : ∀ v, u = introducer ++ v → readParameters false false 0 (v ++ x) =
      readParameters false false 0 v)
    (hshort : u.length < 3 → ¬ introducer <+: u ++ x) : modeAt (u ++ x) = modeAt u := by
  rcases introducer_or (u ++ x) with ⟨t, ht⟩ | ⟨hnone, -⟩
  · have hlength : 3 ≤ u.length := by
      by_contra hlt
      exact hshort (by omega) ⟨t, ht.symm⟩
    obtain ⟨v, rfl⟩ : introducer <+: u :=
      prefix_of_prefix_length_le ⟨t, ht.symm⟩ (prefix_append u x) hlength
    rw [append_assoc, modeAt_introducer, modeAt_introducer, hread v rfl]
  · cases hmode : modeAt u with
    | none => exact hnone
    | some b =>
      rw [stable_modeAt u b hmode x] at hnone
      cases hnone

/-- A final byte settles a text, unless it introduces a sequence. -/
theorem settled_of_final (v : Bytes) {c : UInt8} (hc : isFinal c = true) (hne : c ≠ 0x5b) :
    Settled (v ++ [c]) := by
  intro u hu hsuffix x
  obtain ⟨w, rfl⟩ : ∃ w, u = w ++ [c] := by
    rcases suffix_concat_iff.mp hsuffix with rfl | ⟨w, rfl, -⟩
    · exact absurd rfl hu
    · exact ⟨w, rfl⟩
  refine modeAt_append (fun y hy => ?_) (fun hlength hpre => ?_)
  · have hlast := congrArg List.getLast? hy
    rw [getLast?_append_of_ne_nil _ (by simp)] at hlast
    rcases eq_nil_or_concat y with rfl | ⟨z, b, rfl⟩
    · obtain rfl : c = 0x3f := by simpa [introducer] using hlast
      cases hc
    · rw [concat_eq_append, ← append_assoc, getLast?_concat] at hlast
      obtain rfl : c = b := by simpa using hlast
      exact readParameters_append ⟨c, by simp, hc⟩ x
  · obtain ⟨t, ht⟩ := hpre
    rcases w with _ | ⟨a, _ | ⟨b, w⟩⟩
    · obtain ⟨rfl, -⟩ : 0x1b = c ∧ _ := by simpa [introducer] using ht
      cases hc
    · obtain ⟨-, rfl, -⟩ : 0x1b = a ∧ 0x5b = c ∧ _ := by simpa [introducer] using ht
      exact hne rfl
    · simp at hlength
      omega

theorem modeAt_text (hu : u ≠ []) (hno : 0x1b ∉ u) (x : Bytes) : modeAt (u ++ x) = modeAt u := by
  obtain ⟨b, u, rfl⟩ := exists_cons_of_ne_nil hu
  refine modeAt_append (fun v hv => absurd ?_ hno) (fun _ hpre => ?_)
  · rw [hv]
    simp [introducer]
  · obtain ⟨t, ht⟩ := hpre
    obtain ⟨rfl, -⟩ := List.cons.inj ht
    simp at hno

theorem Settled.append_text (h : Settled t) (hw : 0x1b ∉ w) : Settled (t ++ w) := by
  rintro u hu ⟨p, hp⟩ x
  rcases append_eq_append_iff.mp hp with ⟨a, rfl, rfl⟩ | ⟨a, rfl, rfl⟩
  · by_cases ha : a = []
    · subst ha
      exact modeAt_text hu hw x
    · have hsettled := h a ha (suffix_append p a)
      rw [append_assoc, hsettled, hsettled]
  · exact modeAt_text hu (fun hmem => hw (mem_append_right a hmem)) x

theorem readParameters_eq_none {value : ℕ} (h : ∀ c ∈ v, ¬ IsModeLetter c) :
    readParameters hasModeOne haveDigits value v = none := by
  by_contra hne
  obtain ⟨b, hb⟩ := Option.ne_none_iff_exists'.mp hne
  obtain ⟨body, c, rest, rfl, hc, -⟩ := readParameters_letter hb
  exact h c (by simp) hc

/-- A new sequence ends what was unfinished. -/
theorem modeAt_append_escape (hu : u ≠ []) (x : Bytes) :
    modeAt (u ++ 0x1b :: 0x5b :: x) = modeAt u := by
  refine modeAt_append (fun v hv => ?_) (fun hlength hpre => ?_)
  · by_cases hfinal : ∃ b ∈ v, isFinal b = true
    · exact readParameters_append hfinal _
    · have hno : ∀ c ∈ v, ¬ IsModeLetter c := fun c hc hletter =>
        hfinal ⟨c, hc, isFinal_of_isModeLetter hletter⟩
      have hmore : ∀ c ∈ v ++ [0x1b, 0x5b], ¬ IsModeLetter c := by
        intro c hc
        rcases mem_append.mp hc with hc | hc
        · exact hno c hc
        · rcases mem_cons.mp hc with rfl | hc
          · decide
          · rw [mem_singleton.mp hc]
            decide
      have hsplit : v ++ 0x1b :: 0x5b :: x = (v ++ [0x1b, 0x5b]) ++ x := by simp
      rw [hsplit, readParameters_append ⟨0x5b, by simp, rfl⟩, readParameters_eq_none hmore,
        readParameters_eq_none hno]
  · obtain ⟨t, ht⟩ := hpre
    rcases u with _ | ⟨a, _ | ⟨b, _ | ⟨c, u⟩⟩⟩
    · exact hu rfl
    · simp [introducer] at ht
    · simp [introducer] at ht
    · simp at hlength
      omega

/-- The mode agrees with what the tail still shows of the output. -/
def Consistent (m : Tracker) : Prop := ∀ b, lastOf modeAt m.inputTail = some b →
  m.applicationCursor = b

theorem consistent_new : Consistent Tracker.new := by
  intro b hb
  cases hb

theorem consistent_feed (m : Tracker) (data : Bytes) : Consistent (feed m data) := by
  intro b hb
  rw [feed_inputTail] at hb
  rw [feed_applicationCursor, scan_eq, lastOf_of_suffix (rtake_suffix _ 16) hb]
  rfl

/-- A write in which nothing is found and which completes nothing keeps the mode. -/
theorem feed_mode_of_quiet (hm : Consistent m) (hlength : w.length ≤ 4096)
    (hnone : lastOf modeAt w = none)
    (hcut : ∀ u, u ≠ [] → u <:+ m.inputTail → modeAt (u ++ w) = modeAt u) :
    (feed m w).applicationCursor = m.applicationCursor := by
  rw [feed_applicationCursor, scanned_eq hlength, scan_eq, lastOf_append, hnone, Option.none_or,
    lastOf_congr hcut]
  cases hfound : lastOf modeAt m.inputTail with
  | none => rfl
  | some b => exact (hm b hfound).symm

theorem feed_settled (hlength : w.length ≤ 4096) (h : Settled (m.inputTail ++ w)) :
    Settled (feed m w).inputTail := by
  rw [feed_inputTail, scanned_eq hlength]
  exact h.of_suffix (rtake_suffix _ 16)

/-- A control sequence keeps the mode and settles the tail, whatever was unfinished. -/
theorem feed_control (hm : Consistent m) (hw : IsControl w) :
    (feed m w).applicationCursor = m.applicationCursor ∧ Settled (feed m w).inputTail := by
  obtain ⟨ps, c, hshape, -, hc, hne⟩ := hw.shape
  refine ⟨feed_mode_of_quiet hm hw.short hw.lastOf_eq fun u hu _ => ?_, feed_settled hw.short ?_⟩
  · rw [hshape]
    exact modeAt_append_escape hu _
  · have hsplit : m.inputTail ++ w = (m.inputTail ++ 0x1b :: 0x5b :: ps) ++ [c] := by
      rw [hshape]
      simp
    rw [hsplit]
    exact settled_of_final _ hc hne

theorem feed_text (hm : Consistent m) (hs : Settled m.inputTail) (hw : IsPlainText w) :
    (feed m w).applicationCursor = m.applicationCursor ∧ Settled (feed m w).inputTail :=
  ⟨feed_mode_of_quiet hm hw.short (lastOf_modeAt_eq_none (.inl hw.no_escape)) fun u hu hsuffix =>
    hs u hu hsuffix w, feed_settled hw.short (hs.append_text hw.no_escape)⟩

/-- Control sequences and texts keep the mode, once the tail is settled. -/
theorem feedAll_quiet {ws : List Bytes} (hws : ∀ w ∈ ws, IsControl w ∨ IsPlainText w)
    (hm : Consistent m) (hs : Settled m.inputTail) :
    (feedAll m ws).applicationCursor = m.applicationCursor ∧ Consistent (feedAll m ws) ∧
      Settled (feedAll m ws).inputTail := by
  induction ws generalizing m with
  | nil => exact ⟨rfl, hm, hs⟩
  | cons w ws ih =>
    obtain ⟨hw, hrest⟩ := forall_mem_cons.mp hws
    have hstep : (feed m w).applicationCursor = m.applicationCursor ∧
        Settled (feed m w).inputTail := hw.elim (feed_control hm) (feed_text hm hs)
    obtain ⟨hmode, hkept⟩ := ih hrest (consistent_feed m w) hstep.2
    exact ⟨hmode.trans hstep.1, hkept⟩

/-- A cell as the emulator gives it: text without escapes, and attributes as one sequence. -/
structure Cell.Clean (cell : Cell) : Prop where
  text : 0x1b ∉ cell.text
  sgr : cell.sgr = [] ∨ ∃ ps, cell.sgr = 0x1b :: 0x5b :: (ps ++ [0x6d]) ∧
    ∀ b ∈ ps, isParameter b = true

def Screen.Clean (s : Screen) : Prop := ∀ cell ∈ s.cells, cell.Clean

theorem isParameter_dec (n : ℕ) : ∀ b ∈ dec n, isParameter b = true := by
  intro b hb
  have hrange := between_of_mem_dec n b hb
  refine isParameter_of_isDigit ?_
  simp only [isDigit, Bool.and_eq_true, decide_eq_true_eq]
  exact hrange

theorem isControl_cursorTo (row col : ℕ) (hrow : row < 2 ^ 64) (hcol : col < 2 ^ 64) :
    IsControl (cursorTo row col) := by
  refine ⟨⟨dec row ++ 0x3b :: dec col, 0x48, by simp [cursorTo], fun b hb => ?_, rfl, by decide⟩, ?_⟩
  · rcases mem_append.mp hb with hb | hb
    · exact isParameter_dec row b hb
    · rcases mem_cons.mp hb with rfl | hb
      · rfl
      · exact isParameter_dec col b hb
  · have h1 := dec_length_le_u64 hrow
    have h2 := dec_length_le_u64 hcol
    simp [cursorTo]
    omega

theorem cellWrites_quiet {cell : Cell} (h : cell.Clean) (active : Bytes) :
    ∀ w ∈ cellWrites active cell, IsControl w ∨ IsPlainText w := by
  intro w hw
  have htextLength := cell.text_lt
  have hsgrLength := cell.sgr_lt
  rcases mem_append.mp hw with hw | hw
  · left
    split_ifs at hw with hactive hnil
    · cases hw
    · rw [mem_singleton.mp hw]
      exact ⟨⟨[0x30], 0x6d, rfl, by simp [isParameter, isDigit], rfl, by decide⟩, by decide⟩
    · obtain ⟨ps, hshape, hps⟩ := h.sgr.resolve_left hnil
      rw [mem_singleton.mp hw]
      exact ⟨⟨ps, 0x6d, hshape, hps, rfl, by decide⟩, by omega⟩
  · right
    rw [mem_singleton.mp hw]
    split_ifs
    · exact ⟨by decide, by decide⟩
    · exact ⟨h.text, by omega⟩

theorem cellsWrites_quiet {cells : List Cell} (h : ∀ cell ∈ cells, cell.Clean) (active : Bytes) :
    ∀ w ∈ cellsWrites active cells, IsControl w ∨ IsPlainText w := by
  induction cells generalizing active with
  | nil => simp [cellsWrites]
  | cons cell cells ih =>
    obtain ⟨hcell, hrest⟩ := forall_mem_cons.mp h
    intro w hw
    rcases mem_append.mp hw with hw | hw
    · exact cellWrites_quiet hcell active w hw
    · exact ih hrest cell.sgr w hw

theorem rowsWrites_quiet {s : Screen} (h : s.Clean) (active : Bytes) (row n : ℕ)
    (hrow : row + n < 2 ^ 64) :
    ∀ w ∈ rowsWrites s active row n, IsControl w ∨ IsPlainText w := by
  induction n generalizing active row with
  | zero => simp [rowsWrites]
  | succ n ih =>
    intro w hw
    rcases mem_cons.mp hw with rfl | hw
    · exact .inl (isControl_cursorTo _ _ (by omega) (by decide))
    · rcases mem_append.mp hw with hw | hw
      · refine cellsWrites_quiet (fun cell hcell => h cell ?_) active w hw
        exact mem_of_mem_drop (mem_of_mem_take hcell)
      · exact ih _ (row + 1) (by omega) w hw

/-- What is written before the mode is. -/
def Snapshot.screenWrites (s : Snapshot) : List Bytes :=
  rowsWrites s.toScreen [] 0 s.rows ++
    [cursorTo ((s.cursorRow + 1) % 2 ^ 32) ((s.cursorCol + 1) % 2 ^ 32)]

theorem screenWrites_quiet (hvalid : s.valid = true) (h : s.toScreen.Clean) :
    ∀ w ∈ s.screenWrites, IsControl w ∨ IsPlainText w := by
  simp only [Snapshot.valid, Bool.and_eq_true, decide_eq_true_eq] at hvalid
  intro w hw
  rcases mem_append.mp hw with hw | hw
  · exact rowsWrites_quiet h [] 0 s.rows (by omega) w hw
  · rw [mem_singleton.mp hw]
    exact .inl (isControl_cursorTo _ _ (by omega) (by omega))

/-- The first write of a valid snapshot moves the cursor to the first row. -/
theorem screenWrites_cons (hvalid : s.valid = true) :
    ∃ ws, s.screenWrites = cursorTo 1 1 :: ws := by
  simp only [Snapshot.valid, Bool.and_eq_true, decide_eq_true_eq] at hvalid
  obtain ⟨n, hn⟩ : ∃ n, s.rows = n + 1 := ⟨s.rows - 1, by omega⟩
  rw [Snapshot.screenWrites, hn, rowsWrites]
  exact ⟨_, rfl⟩

/-- The screen of a snapshot keeps the mode and settles the tail. -/
theorem feedAll_screenWrites (hm : Consistent m) (hvalid : s.valid = true) (h : s.toScreen.Clean) :
    (feedAll m s.screenWrites).applicationCursor = m.applicationCursor ∧
      Consistent (feedAll m s.screenWrites) ∧ Settled (feedAll m s.screenWrites).inputTail := by
  have hquiet := screenWrites_quiet hvalid h
  obtain ⟨ws, hws⟩ := screenWrites_cons hvalid
  rw [hws] at hquiet ⊢
  obtain ⟨-, hrest⟩ := forall_mem_cons.mp hquiet
  have hfirst := feed_control hm (isControl_cursorTo 1 1 (by decide) (by decide))
  obtain ⟨hmode, hkept⟩ := feedAll_quiet hrest (consistent_feed m _) hfirst.2
  exact ⟨hmode.trans hfirst.1, hkept⟩

theorem feedAll_append (m : Tracker) (before after : List Bytes) :
    feedAll m (before ++ after) = feedAll (feedAll m before) after := foldl_append

/-- After a load the mode is set if the snapshot's is or if it was set before. -/
theorem loadSnapshot_mode {m' : Tracker} (hm : Consistent m) (h : s.toScreen.Clean)
    (hload : loadSnapshot m s = some m') :
    m'.applicationCursor = (s.applicationCursor || m.applicationCursor) ∧ Consistent m' ∧
      Settled m'.inputTail := by
  unfold loadSnapshot at hload
  split_ifs at hload with hvalid
  obtain rfl := Option.some.inj hload
  obtain ⟨hmode, hconsistent, hsettled⟩ := feedAll_screenWrites hm hvalid h
  have hwrites : s.writes = s.screenWrites ++ if s.applicationCursor then [setCursorKeys] else [] :=
    rfl
  rw [hwrites, feedAll_append]
  generalize feedAll m s.screenWrites = loaded at hmode hconsistent hsettled
  cases s.applicationCursor with
  | false => exact ⟨hmode, hconsistent, hsettled⟩
  | true =>
    have hlength : setCursorKeys.length ≤ 4096 := by decide
    have hfound : lastOf modeAt setCursorKeys = some true := by decide
    refine ⟨?_, consistent_feed loaded setCursorKeys, feed_settled hlength ?_⟩
    · show (feed loaded setCursorKeys).applicationCursor = true
      rw [feed_applicationCursor, scanned_eq hlength, scan_eq,
        lastOf_of_suffix (suffix_append _ _) hfound]
      rfl
    · have hsplit : loaded.inputTail ++ setCursorKeys =
          (loaded.inputTail ++ [0x1b, 0x5b, 0x3f, 0x31]) ++ [0x68] := by simp [setCursorKeys]
      rw [hsplit]
      exact settled_of_final _ rfl (by decide)

/-- The models that feeds and loads lead to. -/
inductive Reached : Tracker → Prop
  | new : Reached Tracker.new
  | feed {m : Tracker} (data : Bytes) (h : Reached m) : Reached (feed m data)
  | load {m m' : Tracker} {s : Snapshot} (h : Reached m) (hload : loadSnapshot m s = some m') :
      Reached m'

theorem consistent_feedAll (h : Consistent m) (chunks : List Bytes) :
    Consistent (feedAll m chunks) := by
  induction chunks generalizing m with
  | nil => exact h
  | cons chunk chunks ih => exact ih (consistent_feed m chunk)

theorem Reached.consistent (h : Reached m) : Consistent m := by
  induction h with
  | new => exact consistent_new
  | feed data _ _ => exact consistent_feed _ data
  | load _ hload ih =>
    unfold loadSnapshot at hload
    split_ifs at hload
    obtain rfl := Option.some.inj hload
    exact consistent_feedAll ih _

/-- No sequence that sets the mode starts in one part of a log and ends in the next. -/
def Uncut (before after : Bytes) : Prop :=
  ∀ u, u ≠ [] → u <:+ before → sequenceAt (u ++ after) = sequenceAt u

theorem Uncut.modeOf_append {before after : Bytes} (h : Uncut before after) :
    modeOf (before ++ after) = (lastOf sequenceAt after).getD (modeOf before) := by
  rw [modeOf, lastOf_append, lastOf_congr h, modeOf]
  cases lastOf sequenceAt after <;> rfl

/-- On top of a settled tail, orderly chunks are followed as on a new model. -/
theorem Follows.feedAll_settled {init : Bool} {tail stream : Bytes} (hsettled : Settled tail)
    (h : Follows m init (tail ++ stream)) (hchunks : OrderlyAll stream chunks) :
    Follows (feedAll m chunks) init (tail ++ (stream ++ chunks.flatten)) := by
  induction chunks generalizing m stream with
  | nil => simpa [feedAll] using h
  | cons chunk chunks ih =>
    have hcut : ∀ u, u <:+ tail ++ stream → 16 < u.length → modeAt (u ++ chunk) = modeAt u := by
      rintro u ⟨p, hp⟩ hlong
      rcases append_eq_append_iff.mp hp with ⟨a, rfl, rfl⟩ | ⟨a, rfl, rfl⟩
      · by_cases ha : a = []
        · subst ha
          exact hchunks.1.cut _ (suffix_refl _) hlong
        · have hsame := hsettled a ha (suffix_append p a)
          rw [append_assoc, hsame, hsame]
      · exact hchunks.1.cut u (suffix_append a u) hlong
    have hnext := h.feed hchunks.1.chunk_le hcut
    rw [append_assoc] at hnext
    rw [flatten_cons, ← append_assoc stream]
    exact ih hnext hchunks.2

/-- A settled, consistent model takes the mode of the log it is fed. -/
theorem feedAll_after_load (hm : Consistent m) (hsettled : Settled m.inputTail)
    (hchunks : OrderlyAll [] chunks) :
    (feedAll m chunks).applicationCursor =
      (lastOf sequenceAt chunks.flatten).getD m.applicationCursor := by
  have hregular := hchunks.regular regular_nil
  rw [nil_append] at hregular
  have hstart : Follows m m.applicationCursor (m.inputTail ++ []) := by
    rw [append_nil]
    constructor
    · rw [List.rtake, Nat.sub_eq_zero_of_le m.tail_le, drop_zero]
    · cases hfound : lastOf modeAt m.inputTail with
      | none => rfl
      | some b => exact hm b hfound
  have hfollows := Follows.feedAll_settled hsettled hstart hchunks
  rw [nil_append] at hfollows
  rw [hfollows.mode_eq, lastOf_append, lastOf_congr fun u hu hs => hsettled u hu hs _,
    lastOf_modeAt_eq hregular]
  cases lastOf sequenceAt chunks.flatten with
  | some b => rfl
  | none =>
    cases hfound : lastOf modeAt m.inputTail with
    | none => rfl
    | some b => exact (hm b hfound).symm

/-- A load of a clean snapshot gives the snapshot's mode exactly when the snapshot's is set or the
model's was not. The snapshot of a log, taken where no sequence is cut, followed by the rest of the
log gives the mode of the whole log, under the same condition and for orderly chunks. -/
theorem snapshot_gives_mode {m : Tracker} (hm : Reached m) :
    (∀ (s : Snapshot) (m' : Tracker), s.toScreen.Clean → loadSnapshot m s = some m' →
      (m'.applicationCursor = s.applicationCursor ↔
        s.applicationCursor = true ∨ m.applicationCursor = false)) ∧
    ∀ (before after whole : List Bytes) (screen : Screen) (m' : Tracker), screen.Clean →
      OrderlyAll [] before → OrderlyAll [] after → OrderlyAll [] whole →
      whole.flatten = before.flatten ++ after.flatten → Uncut before.flatten after.flatten →
      (modeOf before.flatten = true ∨ m.applicationCursor = false) →
      loadSnapshot m (takeSnapshot (feedAll Tracker.new before) screen) = some m' →
      (feedAll m' after).applicationCursor = (feedAll Tracker.new whole).applicationCursor := by
  constructor
  · intro s m' hclean hload
    obtain ⟨hmode, -⟩ := loadSnapshot_mode hm.consistent hclean hload
    rw [hmode]
    cases s.applicationCursor <;> cases m.applicationCursor <;> simp
  · intro before after whole screen m' hclean hbefore hafter hwhole hflat huncut hprior hload
    have hfollows : ∀ {chunks}, OrderlyAll [] chunks →
        (feedAll Tracker.new chunks).applicationCursor = modeOf chunks.flatten := by
      intro chunks hchunks
      rw [feedAll_after_load consistent_new (fun u hu hs => absurd (suffix_nil.mp hs) hu)
        hchunks]
      rfl
    obtain ⟨hmode, hconsistent, hsettled⟩ := loadSnapshot_mode hm.consistent hclean hload
    have hsnapshot : m'.applicationCursor = modeOf before.flatten := by
      rw [hmode, takeSnapshot, hfollows hbefore]
      rcases hprior with hset | hclear
      · rw [hset, Bool.true_or]
      · rw [hclear, Bool.or_false]
    rw [feedAll_after_load hconsistent hsettled hafter, hfollows hwhole, hflat,
      huncut.modeOf_append, hsnapshot]

theorem blank_text_lt : [(0x20 : UInt8)].length < 32 := by decide

theorem blank_sgr_lt : ([] : Bytes).length < 96 := by decide

def blankCell : Cell := ⟨[0x20], [], blank_text_lt, blank_sgr_lt⟩

theorem blank_cells_length : [blankCell].length = 1 * 1 := rfl

def blankScreen : Screen := ⟨1, 1, [blankCell], 0, 0, blank_cells_length⟩

theorem blankScreen_clean : blankScreen.Clean := by
  intro cell hcell
  rw [mem_singleton.mp hcell]
  exact ⟨by decide, .inl rfl⟩

theorem loadSnapshot_blank (m m' : Tracker) :
    loadSnapshot m (takeSnapshot m' blankScreen) =
      some (feedAll m (takeSnapshot m' blankScreen).writes) := if_pos rfl

theorem regular_cons {b : UInt8} {s : Bytes} (hb : b ≠ 0x1b) (h : Regular s) :
    Regular (b :: s) := by
  intro body c rest hseq
  rcases suffix_cons_iff.mp hseq with heq | hseq
  · exact absurd (List.cons.inj heq).1.symm hb
  · exact h body c rest hseq

/-- A snapshot is loaded by a new model, and the log goes on with a sequence that sets the mode. -/
theorem blank_snapshot_gives_mode :
    (loadSnapshot Tracker.new (takeSnapshot (feedAll Tracker.new [[0x78]]) blankScreen)).map
        (fun m => (feedAll m [setCursorKeys]).applicationCursor) =
      some (feedAll Tracker.new [0x78 :: setCursorKeys]).applicationCursor := by
  have horderly : ∀ {chunk : Bytes}, chunk.length ≤ 4096 → Regular chunk → OrderlyAll [] [chunk] :=
    fun hlength hregular => ⟨⟨hlength, fun ps h _ => absurd (suffix_nil.mp h) (by simp [introducer]),
      hregular⟩, trivial⟩
  have huncut : Uncut [[0x78]].flatten [setCursorKeys].flatten := by
    intro u hu hs
    rcases suffix_cons_iff.mp hs with rfl | hs
    · rfl
    · exact absurd (suffix_nil.mp hs) hu
  have hload := loadSnapshot_blank Tracker.new (feedAll Tracker.new [[0x78]])
  generalize feedAll Tracker.new (takeSnapshot _ blankScreen).writes = loaded at hload
  rw [hload, Option.map_some, (snapshot_gives_mode Reached.new).2 [[0x78]] [setCursorKeys]
    [0x78 :: setCursorKeys] blankScreen loaded blankScreen_clean
    (horderly (by decide) (regular_cons (by decide) regular_nil))
    (horderly (by decide) regular_setCursorKeys)
    (horderly (by decide) (regular_cons (by decide) regular_setCursorKeys)) rfl huncut (.inr rfl)
    hload]

/-- A model whose mode is set keeps it when a snapshot without it is loaded, and a sequence that is
cut by the snapshot is lost. -/
theorem snapshot_loses_mode :
    (takeSnapshot Tracker.new blankScreen).applicationCursor = false ∧
      (loadSnapshot (feed Tracker.new setCursorKeys) (takeSnapshot Tracker.new blankScreen)).map
        Tracker.applicationCursor = some true ∧
      (loadSnapshot Tracker.new (takeSnapshot (feed Tracker.new (introducer ++ ascii "1"))
        blankScreen)).map (fun m => (feed m (ascii "h")).applicationCursor) = some false ∧
      (feedAll Tracker.new [introducer ++ ascii "1", ascii "h"]).applicationCursor = true := by
  decide +kernel

end Cubicle.TerminalSnapshots
