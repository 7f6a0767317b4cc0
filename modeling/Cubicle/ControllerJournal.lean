import Cubicle.ControllerFeeds
import Cubicle.TextLines

/-!
# The event log over a run

Every line of the event log begins with the number of its event, and the events that report
output name the range of the log that the output went to. As long as lines are written whole and
the texts in them are on one line, the numbers count up from one without a gap, and the ranges of
a stream lie next to each other from its beginning to its offset.
-/

namespace Cubicle.Controller
open ByteText CStrings PartialWrites TextLines RpcEnvelope OutputPages List

/-- Ranges, given by start and length, that lie next to each other from `a` to `b`. -/
def Tiles : ℕ → List (ℕ × ℕ) → ℕ → Prop
  | a, [], b => a = b
  | a, (start, length) :: rest, b => start = a ∧ Tiles (a + length) rest b

theorem Tiles.append {a b : ℕ} {ranges : List (ℕ × ℕ)} (h : Tiles a ranges b) (length : ℕ) :
    Tiles a (ranges ++ [(b, length)]) (b + length) := by
  induction ranges generalizing a with
  | nil =>
    obtain rfl : a = b := h
    exact ⟨rfl, rfl⟩
  | cons range rest ih => exact ⟨h.1, ih h.2⟩

/-- The line that `append_event` writes. -/
def eventLine (n : ℕ) (e : Bytes) : Bytes :=
  ascii "seq=" ++ dec n ++ ascii " " ++ e ++ ascii "\n"

/-- What comes before the first number of an event that reports output. -/
def rangeStart (stream : Stream) : Bytes :=
  ascii "type=output stream=" ++ streamName stream ++ ascii " start="

/-- The range that the text of an event reports as output of a stream. -/
def eventRange (stream : Stream) (text : Bytes) : Option (ℕ × ℕ) :=
  if rangeStart stream <+: text then
    let numbers := text.drop (rangeStart stream).length
    let digits := numbers.takeWhile isCDigit
    let behind := numbers.drop (digits.length + (ascii " length=").length)
    some (decimalValue digits, decimalValue (behind.takeWhile isCDigit))
  else none

/-- The same for a line: its text begins behind the first blank. -/
def lineRange (stream : Stream) (line : Bytes) : Option (ℕ × ℕ) :=
  eventRange stream ((line.dropWhile (· ≠ 0x20)).drop 1)

theorem lineRange_eventLine (stream : Stream) (n : ℕ) (e : Bytes) :
    lineRange stream (eventLine n e) = eventRange stream (e ++ ascii "\n") := by
  have hseq : 0x20 ∉ ascii "seq=" := by decide
  have hword : ∀ b ∈ ascii "seq=" ++ dec n, decide (b ≠ 0x20) = true := by
    intro b hb
    rcases mem_append.mp hb with hb | hb
    · exact decide_eq_true fun heq => hseq (heq ▸ hb)
    · have hdigit := between_of_mem_dec n b hb
      rw [decide_eq_true_eq]
      rintro rfl
      revert hdigit
      decide
  have hline : eventLine n e =
      (ascii "seq=" ++ dec n) ++ 0x20 :: (e ++ ascii "\n") := by
    simp [eventLine, ascii]
  rw [lineRange, hline, dropWhile_append_of_pos hword]
  simp

theorem takeWhile_dec_append (n : ℕ) {rest : Bytes} (h : rest.head?.any isCDigit = false) :
    (dec n ++ rest).takeWhile isCDigit = dec n := by
  rw [takeWhile_append_of_pos fun b hb => isCDigit_of_mem_dec hb]
  cases rest with
  | nil => simp
  | cons b t =>
    simp only [head?_cons, Option.any_some] at h
    simp [h]

theorem eventRange_outputEvent (stream : Stream) (start length : ℕ) :
    eventRange stream (outputEvent stream start length ++ ascii "\n") = some (start, length) := by
  have htext : outputEvent stream start length ++ ascii "\n" =
      rangeStart stream ++ (dec start ++ (ascii " length=" ++ (dec length ++ ascii "\n"))) := by
    simp [outputEvent, rangeStart]
  have hstart := takeWhile_dec_append start
    (show (ascii " length=" ++ (dec length ++ ascii "\n")).head?.any isCDigit = false by
      simp [ascii, isCDigit])
  have hlength := takeWhile_dec_append length
    (show (ascii "\n").head?.any isCDigit = false by decide)
  rw [eventRange, htext, if_pos (prefix_append _ _)]
  simp only [drop_left, hstart, decimalValue_dec]
  rw [← append_assoc (dec start), ← length_append, drop_left, hlength,
    decimalValue_dec]

theorem length_rangeStart (stream : Stream) : (rangeStart stream).length = 32 := by
  cases stream
  · decide
  · decide

theorem rangeStart_injective : Function.Injective rangeStart := by
  intro a b h
  cases a <;> cases b
  · rfl
  · exact absurd h (by decide)
  · exact absurd h (by decide)
  · rfl

variable {stream : Stream} {e : Bytes} {j : Journal} {events : List Bytes} {s s' : Shared}

theorem eventRange_other_stream {other : Stream} (h : stream ≠ other) (start length : ℕ) :
    eventRange stream (outputEvent other start length ++ ascii "\n") = none := by
  have hno : ¬ rangeStart stream <+: outputEvent other start length ++ ascii "\n" := by
    intro hstart
    have hsame : rangeStart other <+: outputEvent other start length ++ ascii "\n" := by
      refine ⟨dec start ++ (ascii " length=" ++ (dec length ++ ascii "\n")), ?_⟩
      simp [outputEvent, rangeStart]
    have hlength : (rangeStart stream).length = (rangeStart other).length := by
      rw [length_rangeStart, length_rangeStart]
    exact h (rangeStart_injective
      ((prefix_of_prefix_length_le hstart hsame hlength.le).eq_of_length hlength))
  rw [eventRange, if_neg hno]

theorem EventText.eventRange_eq_none {n : ℕ} (h : EventText n e) (stream : Stream) :
    eventRange stream (e ++ ascii "\n") = none := by
  obtain ⟨hlong, hne⟩ := h.other
  rw [eventRange, if_neg]
  intro hstart
  apply hne
  have htwelve : ascii "type=output " <+: rangeStart stream := by
    cases stream
    · decide
    · decide
  have htake := prefix_iff_eq_take.mp (htwelve.trans hstart)
  rw [show (ascii "type=output ").length = 12 by decide,
    take_append_of_le_length hlong] at htake
  exact htake.symm

/-- Writes that take a line whole, if they are not interrupted. -/
def WritesWhole (answers : List Answer) : Prop :=
  ∀ a ∈ answers, a = .interrupted ∨ ∃ n, a = .wrote n ∧ 1023 ≤ n + 1

theorem writeEventLine_whole {answers : List Answer} (h : WritesWhole answers) {line : Bytes}
    (hline : line.length < 1024) :
    ∃ answers', writeEventLine answers line = (line, none, answers') ∧ WritesWhole answers' := by
  induction answers with
  | nil => exact ⟨[], rfl, h⟩
  | cons a rest ih =>
    have hrest : WritesWhole rest := fun b hb => h b (mem_cons_of_mem _ hb)
    rcases h a mem_cons_self with rfl | ⟨n, rfl, hn⟩
    · exact ih hrest
    · refine ⟨rest, ?_, hrest⟩
      rw [writeEventLine, take_of_length_le (by omega), if_pos (by omega)]

def eventLines (events : List Bytes) : List Bytes :=
  (events.zipIdx 1).map fun e => eventLine e.2 e.1

theorem eventLines_append (events : List Bytes) (e : Bytes) :
    eventLines (events ++ [e]) = eventLines events ++ [eventLine (events.length + 1) e] := by
  simp [eventLines, zipIdx_append, Nat.add_comm]

/-- The event log holds exactly these events, each on its line, and further lines will be written
whole. -/
structure Journal.Holds (j : Journal) (events : List Bytes) : Prop where
  oneLine : ∀ e ∈ events, 0x0a ∉ e
  file : j.file = (eventLines events).flatten
  next : j.nextSequence = events.length + 1
  whole : WritesWhole j.answers

theorem Journal.Holds.append (h : j.Holds events) (hline : 0x0a ∉ e) (hshort : e.length ≤ 640)
    (hcount : j.nextSequence < 2 ^ 63) :
    (appendEvent j e).1.Holds (events ++ [e]) ∧ (appendEvent j e).2 = none := by
  have hdigits := dec_length_le_u64 (n := j.nextSequence) (by omega)
  have hlength : (eventLine j.nextSequence e).length < 1024 := by
    simp only [eventLine, length_append]
    simp only [ascii]
    simp
    omega
  obtain ⟨answers, hwrite, hwhole⟩ := writeEventLine_whole h.whole hlength
  have happend : appendEvent j e = ({ j with
      nextSequence := j.nextSequence + 1, file := j.file ++ eventLine j.nextSequence e,
      answers := answers }, none) := by
    rw [eventLine] at hlength hwrite
    simp only [appendEvent, eventLine, if_neg (Nat.not_le.mpr hlength), hwrite]
  rw [happend]
  refine ⟨⟨?_, ?_, ?_, hwhole⟩, rfl⟩
  · intro d hd
    rcases mem_append.mp hd with hd | hd
    · exact h.oneLine d hd
    · obtain rfl := mem_singleton.mp hd
      exact hline
  · simp only [h.file, h.next, eventLines_append, flatten_append, flatten_singleton]
  · simp only [h.next, length_append, length_singleton]

def appendEvents (j : Journal) (events : List Bytes) : Journal :=
  events.foldl (fun j e => (appendEvent j e).1) j

theorem nextSequence_appendEvent (j : Journal) (e : Bytes) :
    (appendEvent j e).1.nextSequence = j.nextSequence + 1 := by
  unfold appendEvent
  dsimp only
  split
  · rfl
  · rfl

theorem le_nextSequence_appendEvents (j : Journal) (events : List Bytes) :
    j.nextSequence ≤ (appendEvents j events).nextSequence := by
  induction events generalizing j with
  | nil => exact le_rfl
  | cons e rest ih =>
    have hrest := ih (appendEvent j e).1
    rw [nextSequence_appendEvent] at hrest
    exact (Nat.le_succ _).trans hrest

theorem Journal.Holds.appendEvents {more : List Bytes} (h : j.Holds events)
    (hmore : ∀ e ∈ more, EventText 640 e) (hcount : (appendEvents j more).nextSequence ≤ 2 ^ 63) :
    (appendEvents j more).Holds (events ++ more) := by
  induction more generalizing j events with
  | nil =>
    rw [append_nil]
    exact h
  | cons e rest ih =>
    have hle := le_nextSequence_appendEvents (appendEvent j e).1 rest
    rw [nextSequence_appendEvent] at hle
    have htext := hmore e mem_cons_self
    have hone := (h.append htext.oneLine htext.short
      (Nat.lt_of_succ_le (hle.trans hcount))).1
    have hall := ih hone (fun d hd => hmore d (mem_cons_of_mem _ hd)) hcount
    rwa [append_assoc] at hall

/-- The ranges that a list of events reports for a stream. -/
def rangesOf (stream : Stream) (events : List Bytes) : List (ℕ × ℕ) :=
  events.filterMap fun e => eventRange stream (e ++ ascii "\n")

theorem rangesOf_append (stream : Stream) (events more : List Bytes) :
    rangesOf stream (events ++ more) = rangesOf stream events ++ rangesOf stream more :=
  filterMap_append

theorem rangesOf_eq_nil (h : ∀ e ∈ events, EventText 640 e) (stream : Stream) :
    rangesOf stream events = [] :=
  filterMap_eq_nil_iff.mpr fun e he => (h e he).eventRange_eq_none stream

/-- The ranges that the event log reports for a stream, line by line. -/
def loggedRanges (stream : Stream) (file : Bytes) : List (ℕ × ℕ) :=
  (linesOf file).filterMap (lineRange stream)

/-- The lines are numbered from one on; and while the loop runs, the ranges of each stream lie next
to each other up to its offset. -/
structure World.LogRight (w : World) : Prop where
  numbered : ∀ i line, (linesOf w.shared.journal.file)[i]? = some line →
    ascii "seq=" ++ dec (i + 1) ++ ascii " " <+: line
  tiled : w.running = true → ∀ stream,
    Tiles 0 (loggedRanges stream w.shared.journal.file) (w.process.log stream).bytes.length

theorem eventLine_isLine (n : ℕ) (h : 0x0a ∉ e) :
    0x0a ∉ (eventLine n e).dropLast ∧ (eventLine n e).getLast? = some 0x0a := by
  have hline : eventLine n e = (ascii "seq=" ++ dec n ++ ascii " " ++ e) ++ [0x0a] := rfl
  rw [hline, dropLast_concat, getLast?_concat]
  refine ⟨?_, rfl⟩
  simp only [mem_append, not_or]
  exact ⟨⟨⟨by decide, newline_notMem_dec n⟩, by decide⟩, h⟩

theorem Journal.Holds.linesOf_file (h : j.Holds events) : linesOf j.file = eventLines events := by
  have hlines : ∀ line ∈ eventLines events,
      0x0a ∉ line.dropLast ∧ line.getLast? = some 0x0a := by
    intro line hline
    obtain ⟨⟨e, n⟩, he, rfl⟩ := mem_map.mp hline
    exact eventLine_isLine n (h.oneLine e (fst_mem_of_mem_zipIdx he))
  have happend := linesOf_flatten_append hlines []
  rw [h.file]
  simpa using happend

theorem Journal.Holds.loggedRanges (h : j.Holds events) (stream : Stream) :
    loggedRanges stream j.file = rangesOf stream events := by
  rw [Controller.loggedRanges, h.linesOf_file, eventLines, filterMap_map, rangesOf]
  have hzip : events = (events.zipIdx 1).map Prod.fst := by simp
  conv_rhs => rw [hzip, filterMap_map]
  refine filterMap_congr fun e _ => ?_
  exact lineRange_eventLine stream e.2 e.1

/-- Some events other than output were reported. -/
def Reports (s s' : Shared) : Prop :=
  ∃ events, (∀ e ∈ events, EventText 640 e) ∧ s'.journal = appendEvents s.journal events

theorem reporting_reports : Reporting True Reports where
  trans := by
    rintro s s₁ s₂ ⟨events, htexts, hjournal⟩ ⟨events', htexts', hjournal'⟩
    refine ⟨events ++ events', ?_, ?_⟩
    · intro e he
      exact (mem_append.mp he).elim (htexts e) (htexts' e)
    · rw [hjournal', hjournal]
      exact foldl_append.symm
  quiet := fun hjournal _ => ⟨[], by simp, hjournal⟩
  event := fun s e he => ⟨[e], by simpa using he trivial, rfl⟩

/-- What the loop itself reports: input of the local terminal, its size, and the end of the
child. -/
inductive LocalReports (p : Process) : Shared → Shared → Prop
  | quiet {s s' : Shared} (h : s'.journal = s.journal) : LocalReports p s s'
  | input (s : Shared) (data : Bytes) (h : data.length ≤ 4096) :
      LocalReports p s (s.inputEvent (ascii "local") data)
  | inputEnded (s : Shared) :
      LocalReports p s (s.event (ascii "type=local_input_closed reason=eof"))
  | inputHungUp (s : Shared) :
      LocalReports p s (s.event (ascii "type=local_input_closed reason=hup"))
  | resized (s : Shared) (rows columns : ℕ) (h : rows < 2 ^ 16 ∧ columns < 2 ^ 16) :
      LocalReports p s (syncLocalWindowSize p s rows columns).1
  | exited (s : Shared) (code : ℕ) (h : code < 2 ^ 8) : LocalReports p s
      (s.event (ascii "type=process_exited status=exited exit_code=" ++ dec code))
  | signaled (s : Shared) (signal : ℕ) (h : signal < 2 ^ 7) : LocalReports p s
      (s.event (ascii "type=process_exited status=signaled signal=" ++ dec signal))
  | trans {s s₁ s₂ : Shared} (h : LocalReports p s s₁) (h' : LocalReports p s₁ s₂) :
      LocalReports p s s₂

theorem reports_syncLocalWindowSize (p : Process) (s : Shared) {rows columns : ℕ}
    (hrows : rows < 2 ^ 16) (hcolumns : columns < 2 ^ 16) :
    Reports s (syncLocalWindowSize p s rows columns).1 := by
  have h := reporting_reports
  have hsize := piece_sizeText (show rows < 2 ^ 64 by omega) (show columns < 2 ^ 64 by omega)
  unfold syncLocalWindowSize
  split
  · exact h.refl s
  split
  · refine h.tryTerminalDebug s fun _ => ?_
    exact (((show EventText 62
      (ascii "type=debug category=terminal event=local_resize action=skipped")
      by decide).append hsize).append (show Piece 17 (ascii " reason=unchanged") by decide)).mono
      (by decide)
  · refine related_match Prod.fst (h.setWindowSizes p s rows columns) (fun _ _ hs => hs)
      fun s₁ h₁ => ?_
    split
    · have hknown : Reports s { s₁ with size := s₁.size.map fun _ => ⟨rows, columns, true⟩ } :=
        h.trans h₁ (h.quiet rfl rfl)
      refine related_match Prod.fst (h.trans hknown (h.resizeTerminalModel _ rows columns))
        (fun _ _ hs => hs) fun s₂ h₂ => h.trans h₂ (h.tryTerminalDebug s₂ fun _ => ?_)
      exact ((show EventText 62
        (ascii "type=debug category=terminal event=local_resize action=applied")
        by decide).append hsize).mono (by decide)
    · exact h₁

theorem LocalReports.reports {p : Process} (h : LocalReports p s s') : Reports s s' := by
  induction h with
  | quiet hjournal => exact ⟨[], by simp, hjournal⟩
  | input s data hdata =>
    exact reporting_reports.inputEvent s (fun _ => by decide) fun _ => by omega
  | inputEnded s => exact reporting_reports.event s _ fun _ => by decide
  | inputHungUp s => exact reporting_reports.event s _ fun _ => by decide
  | resized s rows columns hsize => exact reports_syncLocalWindowSize p s hsize.1 hsize.2
  | exited s code hcode =>
    refine reporting_reports.event s _ fun _ => ?_
    exact ((show EventText 44 (ascii "type=process_exited status=exited exit_code=")
      by decide).append (piece_dec (by omega))).mono (by decide)
  | signaled s signal hsignal =>
    refine reporting_reports.event s _ fun _ => ?_
    exact ((show EventText 43 (ascii "type=process_exited status=signaled signal=")
      by decide).append (piece_dec (by omega))).mono (by decide)
  | trans _ _ ih ih' => exact reporting_reports.trans ih ih'

namespace World

/-- The event log holds some events, and while the loop runs, their ranges lie next to each
other. -/
def Logged (w : World) : Prop :=
  ∃ events, w.shared.journal.Holds events ∧ (w.running = true → ∀ stream,
    Tiles 0 (rangesOf stream events) (w.process.log stream).bytes.length)

variable {w w' : World} {a : Action} {data : Bytes}

theorem Logged.logRight (h : w.Logged) : w.LogRight := by
  obtain ⟨events, hholds, htiles⟩ := h
  constructor
  · intro i line hline
    rw [hholds.linesOf_file, eventLines, getElem?_map, getElem?_zipIdx] at hline
    obtain ⟨⟨e, n⟩, he, rfl⟩ := Option.map_eq_some_iff.mp hline
    obtain ⟨d, -, hd⟩ := Option.map_eq_some_iff.mp he
    obtain ⟨-, rfl⟩ := Prod.mk.inj hd
    rw [Nat.add_comm i 1, eventLine, append_assoc _ e]
    exact prefix_append _ _
  · intro hrunning stream
    rw [hholds.loggedRanges]
    exact htiles hrunning stream

/-- The steps whose events are lines of their own. -/
def JournalStep (w : World) (a : Action) : Prop :=
  w.PlainStep a ∧ ∀ shared, a = .surroundings shared → LocalReports w.process w.shared shared

theorem log_step (ha : ∀ stream data reaction, a ≠ .output stream data reaction) (stream : Stream) :
    (w.step a).process.log stream = w.process.log stream := by
  unfold step
  split
  swap
  · rfl
  cases a with
  | accept =>
    simp only [accept]
    split
    · rfl
    · rfl
  | reapIdle => rfl
  | read i incoming =>
    simp only [read]
    repeat' split
    all_goals rfl
  | flush i answers =>
    simp only [flush]
    split
    · rfl
    · rfl
  | forward i incoming =>
    simp only [forward]
    split
    · rfl
    · rfl
  | hangup i =>
    simp only [hangup]
    split
    · rfl
    · rfl
  | output stream data reaction => exact absurd rfl (ha stream data reaction)
  | complete result => cases stream <;> rfl
  | surroundings shared => rfl
  | abort => rfl

theorem Reports.le_nextSequence (h : Reports s s') :
    s.journal.nextSequence ≤ s'.journal.nextSequence := by
  obtain ⟨events, -, hjournal⟩ := h
  rw [hjournal]
  exact le_nextSequence_appendEvents _ _

theorem reporting_nextSequence :
    Reporting False fun s s' => s.journal.nextSequence ≤ s'.journal.nextSequence where
  trans := le_trans
  quiet := fun hjournal _ => by rw [hjournal]
  event := fun s e _ => by
    have h := nextSequence_appendEvent s.journal e
    simp only [Shared.event]
    omega

theorem nextSequence_le_step (h : w.JournalStep a) :
    w.shared.journal.nextSequence ≤ (w.step a).shared.journal.nextSequence :=
  related_step reporting_nextSequence False.elim
    (fun shared ha => Reports.le_nextSequence (h.2 shared ha).reports)
    fun _ _ _ _ s _ _ => reporting_nextSequence.event s _ False.elim

theorem Logged.reports (h : w.Logged) (hreports : Reports w.shared w'.shared)
    (hcount : w'.shared.journal.nextSequence ≤ 2 ^ 63)
    (hlog : w'.running = true → ∀ stream, w'.process.log stream = w.process.log stream)
    (hrunning : w'.running = true → w.running = true) : w'.Logged := by
  obtain ⟨events, hholds, htiles⟩ := h
  obtain ⟨more, htexts, hjournal⟩ := hreports
  rw [hjournal] at hcount
  refine ⟨events ++ more, ?_, fun hrun stream => ?_⟩
  · rw [hjournal]
    exact hholds.appendEvents htexts hcount
  · rw [rangesOf_append, rangesOf_eq_nil htexts, append_nil, hlog hrun]
    exact htiles (hrunning hrun) stream

theorem piece_outputEvent (stream : Stream) {start length : ℕ} (h : start + length < 2 ^ 64) :
    Piece 80 (outputEvent stream start length) := by
  have hname : Piece 6 (streamName stream) := by
    cases stream
    · decide
    · decide
  exact ((((show Piece 19 (ascii "type=output stream=") by decide).append hname).append
    (show Piece 7 (ascii " start=") by decide)).append (piece_dec (by omega))).append
    (show Piece 8 (ascii " length=") by decide) |>.append (piece_dec (by omega))

theorem rangesOf_outputEvent (stream other : Stream) (start length : ℕ) :
    rangesOf stream [outputEvent other start length] =
      if stream = other then [(start, length)] else [] := by
  split_ifs with h
  · subst h
    simp [rangesOf, eventRange_outputEvent]
  · simp [rangesOf, eventRange_other_stream h]

/-- The report of some output, in a world whose log has just grown by it. -/
theorem Logged.output (h : w.Logged) (hrun : w.running = true)
    (hfits : (w.process.log stream).bytes.length + data.length < 2 ^ 63)
    (hevent : w'.shared =
      w.shared.event (outputEvent stream (w.process.log stream).bytes.length data.length))
    (hcount : w'.shared.journal.nextSequence ≤ 2 ^ 63)
    (hprocess : ∃ hlog, w'.process = w.process.setLog stream ⟨(w.process.log stream).bytes ++ data,
      hlog⟩) :
    w'.Logged := by
  obtain ⟨events, hholds, htiles⟩ := h
  obtain ⟨hlog, hprocess⟩ := hprocess
  have hpiece := piece_outputEvent stream
    (show (w.process.log stream).bytes.length + data.length < 2 ^ 64 by omega)
  have hnext : w.shared.journal.nextSequence < 2 ^ 63 := by
    rw [hevent, Shared.event, nextSequence_appendEvent] at hcount
    omega
  refine ⟨events ++ [outputEvent stream (w.process.log stream).bytes.length data.length], ?_, ?_⟩
  · rw [hevent]
    exact (hholds.append hpiece.oneLine (hpiece.short.trans (by decide)) hnext).1
  · intro _ other
    rw [rangesOf_append, rangesOf_outputEvent, hprocess]
    have hbefore := htiles hrun other
    split_ifs with hsame
    · subst hsame
      have hafter := hbefore.append data.length
      cases other
      · simpa [Process.setLog, Process.log] using hafter
      · simpa [Process.setLog, Process.log] using hafter
    · rw [append_nil]
      cases other <;> cases stream
      · exact absurd rfl hsame
      · exact hbefore
      · exact hbefore
      · exact absurd rfl hsame

theorem Logged.stopped (h : w.Logged) (hreports : Reports w.shared w'.shared)
    (hcount : w'.shared.journal.nextSequence ≤ 2 ^ 63) (hstopped : w'.running = false) :
    w'.Logged :=
  h.reports hreports hcount (fun hrun => absurd (hstopped.symm.trans hrun) (by decide))
    fun hrun => absurd (hstopped.symm.trans hrun) (by decide)

theorem Logged.step_output {reaction : TerminalReaction} (h : w.Logged) (hrun : w.running = true)
    (hplain : w.PlainStep (.output stream data reaction))
    (hcount : (w.output stream data reaction).shared.journal.nextSequence ≤ 2 ^ 63) :
    (w.output stream data reaction).Logged := by
  unfold World.output at hcount ⊢
  dsimp only at hcount ⊢
  split at hcount
  swap
  · rename_i hfits
    rw [dif_neg hfits]
    exact h.stopped (reporting_reports.refl _) hcount rfl
  rename_i hfits
  rw [dif_pos hfits]
  have hbound : (w.process.log stream).bytes.length + data.length < 2 ^ 63 := by
    rwa [length_append] at hfits
  have hfed := reporting_reports.feedTerminal w.shared stream
    (fun _ => show (w.process.log stream).bytes.length + data.length < 2 ^ 64 by omega)
    (fun _ => hplain.1) fun _ => hplain.2
  unfold recordOutput at hcount ⊢
  generalize feedTerminal w.shared stream (w.process.log stream).bytes.length data.length
    reaction = fed at hfed hcount ⊢
  obtain ⟨s, error⟩ := fed
  cases error with
  | some errno =>
    rw [if_neg (by simp)] at hcount ⊢
    exact h.stopped hfed hcount rfl
  | none =>
    dsimp only at hcount ⊢
    set reported := s.tryEvent
      (outputEvent stream (w.process.log stream).bytes.length data.length) with hreported
    have hnext : reported.1.journal.nextSequence = s.journal.nextSequence + 1 :=
      nextSequence_appendEvent _ _
    have hle : reported.1.journal.nextSequence ≤ 2 ^ 63 := by
      refine le_trans ?_ hcount
      split_ifs
      · exact related_broadcast reporting_nextSequence { w with
          process := w.process.setLog stream ⟨_, hfits⟩, shared := reported.1 } stream data
      · exact le_rfl
    -- the world between what the terminal reports and the report of the output
    have hmiddle : ({ w with shared := s } : World).Logged :=
      h.reports hfed (show s.journal.nextSequence ≤ 2 ^ 63 by omega) (fun _ _ => rfl) id
    have hwritten : reported.2 = none := by
      obtain ⟨events, hholds, -⟩ := hmiddle
      have hpiece := piece_outputEvent stream
        (show (w.process.log stream).bytes.length + data.length < 2 ^ 64 by omega)
      exact (hholds.append hpiece.oneLine (hpiece.short.trans (by decide))
        (show s.journal.nextSequence < 2 ^ 63 by omega)).2
    have hlogged : ({ w with
        process := w.process.setLog stream ⟨_, hfits⟩, shared := reported.1 } : World).Logged :=
      hmiddle.output hrun hbound rfl hle ⟨hfits, rfl⟩
    rw [if_pos hwritten] at hcount ⊢
    exact hlogged.reports (related_broadcast reporting_reports _ stream data) hcount
      (fun _ _ => rfl) id

theorem Logged.step {w : World} {a : Action}
    (h : w.shared.journal.nextSequence ≤ 2 ^ 63 → w.Logged) (hstep : w.JournalStep a)
    (hcount : (w.step a).shared.journal.nextSequence ≤ 2 ^ 63) : (w.step a).Logged := by
  have hbefore := h ((nextSequence_le_step hstep).trans hcount)
  by_cases houtput : ∃ stream data reaction, a = .output stream data reaction
  · obtain ⟨stream, data, reaction, rfl⟩ := houtput
    by_cases hrun : w.running = true
    · have heq : w.step (.output stream data reaction) = w.output stream data reaction := by
        rw [World.step, if_pos hrun]
      rw [heq] at hcount ⊢
      exact hbefore.step_output hrun hstep.1 hcount
    · rw [World.step, if_neg hrun]
      exact hbefore
  · have hno : ∀ stream data reaction, a ≠ .output stream data reaction :=
      fun stream data reaction ha => houtput ⟨stream, data, reaction, ha⟩
    refine hbefore.reports ?_ hcount (fun _ => log_step hno) running_of_step
    exact related_step reporting_reports (fun _ => hstep.1)
      (fun shared ha => (hstep.2 shared ha).reports)
      fun stream data reaction ha => absurd ha (hno stream data reaction)

def JournalRun : World → List Action → Prop
  | _, [] => True
  | w, a :: rest => w.JournalStep a ∧ JournalRun (w.step a) rest

theorem Logged.run {actions : List Action} (h : w.shared.journal.nextSequence ≤ 2 ^ 63 → w.Logged)
    (hrun : w.JournalRun actions) (hcount : (w.run actions).shared.journal.nextSequence ≤ 2 ^ 63) :
    (w.run actions).Logged := by
  induction actions generalizing w with
  | nil => exact h hcount
  | cons a rest ih => exact ih (fun hstep => Logged.step h hrun.1 hstep) hrun.2 hcount

end World

def processStarted (controllerId mode : Bytes) (pid : Int32) : Bytes :=
  ascii "type=process_started controller_id=" ++ controllerId ++ ascii " pid=" ++
    decInt pid.toInt ++ ascii " pgid=" ++ decInt pid.toInt ++ ascii " mode=" ++ mode

def modelInitialized (rows columns : ℕ) : Bytes :=
  ascii "type=debug category=terminal event=model_initialized" ++ sizeText rows columns

/-- The loop begins with empty logs, after the events of the start. -/
structure JournalStart (process : Process) (shared : Shared) : Prop where
  logs : ∀ stream, (process.log stream).bytes = []
  journal : ∃ debug answers controllerId mode more, WritesWhole answers ∧
    Piece 64 controllerId ∧ Piece 32 mode ∧
    (more = [] ∨ ∃ rows columns, rows < 2 ^ 32 ∧ columns < 2 ^ 32 ∧
      more = [modelInitialized rows columns]) ∧
    shared.journal = appendEvents ⟨1, [], debug, answers⟩
      (processStarted controllerId mode process.pid :: more)

theorem eventText_processStarted {controllerId mode : Bytes} (hid : Piece 64 controllerId)
    (hmode : Piece 32 mode) (pid : Int32) :
    EventText 640 (processStarted controllerId mode pid) := by
  have hpid : Piece 21 (decInt pid.toInt) := by
    have hlow := pid.le_toInt
    have hhigh := pid.toInt_lt
    exact piece_decInt (by omega)
  exact ((((((((show EventText 35 (ascii "type=process_started controller_id=") by decide).append
    hid).append (show Piece 5 (ascii " pid=") by decide)).append hpid).append
    (show Piece 6 (ascii " pgid=") by decide)).append hpid).append
    (show Piece 6 (ascii " mode=") by decide)).append hmode).mono (by decide)

theorem JournalStart.logged {process : Process} {shared : Shared} (h : JournalStart process shared)
    (hcount : shared.journal.nextSequence ≤ 2 ^ 63) : (World.start process shared).Logged := by
  obtain ⟨debug, answers, controllerId, mode, more, hwhole, hid, hmode, hmore, hjournal⟩ :=
    h.journal
  have htexts : ∀ e ∈ processStarted controllerId mode process.pid :: more, EventText 640 e := by
    intro e he
    rcases mem_cons.mp he with rfl | he
    · exact eventText_processStarted hid hmode process.pid
    · rcases hmore with rfl | ⟨rows, columns, hrows, hcolumns, rfl⟩
      · simp at he
      · obtain rfl := mem_singleton.mp he
        exact ((show EventText 52 (ascii "type=debug category=terminal event=model_initialized")
          by decide).append (piece_sizeText (by omega) (by omega))).mono (by decide)
  have hempty : Journal.Holds ⟨1, [], debug, answers⟩ [] := ⟨by simp, rfl, rfl, hwhole⟩
  refine ⟨processStarted controllerId mode process.pid :: more, ?_, fun _ stream => ?_⟩
  · rw [show (World.start process shared).shared = shared from rfl, hjournal]
    exact hempty.appendEvents htexts (hjournal ▸ hcount)
  · rw [rangesOf_eq_nil htexts, show (World.start process shared).process = process from rfl,
      h.logs stream]
    rfl

/-- As long as lines are written whole, methods and query names are on one line and the numbers
fit their type, the lines of the event log are numbered without a gap, and the ranges it reports
for a stream cover what the stream has logged. -/
theorem output_events_tile {process : Process} {shared : Shared}
    (hstart : JournalStart process shared) (actions : List Action)
    (hrun : (World.start process shared).JournalRun actions)
    (hcount : ((World.start process shared).run actions).shared.journal.nextSequence ≤ 2 ^ 63) :
    ((World.start process shared).run actions).LogRight :=
  (World.Logged.run hstart.logged hrun hcount).logRight

/-- The state in which the loop begins after the first event. -/
def Shared.journaled (debug : DebugFlags) : Shared :=
  { Shared.started with
    journal := appendEvents ⟨1, [], debug, []⟩ [processStarted (ascii "c1") (ascii "pipe") 1] }

theorem journalStart_journaled (debug : DebugFlags) :
    JournalStart (.started 1) (.journaled debug) where
  logs := fun stream => by cases stream <;> rfl
  journal := ⟨debug, [], ascii "c1", ascii "pipe", [], by simp [WritesWhole], by decide, by decide,
    .inl rfl, rfl⟩

def twoOutputs : World :=
  (World.start (.started 1) (.journaled ⟨false, false, false⟩)).run
    [.output .stdout (ascii "hi") ⟨[], []⟩, .output .stdout (ascii "!") ⟨[], []⟩]

theorem twoOutputs_logRight :
    twoOutputs.running = true ∧ twoOutputs.LogRight ∧
      loggedRanges .stdout twoOutputs.shared.journal.file = [(0, 2), (2, 1)] := by
  have hplain : ∀ (w : World) data, w.JournalStep (.output .stdout data ⟨[], []⟩) :=
    fun w data => ⟨⟨by simp [Reporting.PlainResponses], by simp [Reporting.PlainResponses]⟩,
      fun shared h => by simp at h⟩
  refine ⟨by decide +kernel, ?_, by decide +kernel⟩
  exact output_events_tile (journalStart_journaled _) _ ⟨hplain _ _, hplain _ _, trivial⟩
    (by decide +kernel)

/-- A request for a method whose name has a line end in it. -/
def twoLineMethodText : Bytes :=
  ascii "\x7b\"protocol_major\":0,\"protocol_minor\":1,\"request_id\":\"1\"," ++
    ascii "\"method\":\"x\\ny\",\"params\":\x7b\x7d\x7d"

/-- The controller after it got this request, while its library is debugged. -/
def twoLineMethodRun : World :=
  (World.start (.started 1) (.journaled ⟨false, true, false⟩)).run
    [.accept, .read ⟨0, by decide⟩
      [.data 0 ([0, 0, UInt8.ofNat twoLineMethodText.length] ++ twoLineMethodText)]]

/-- The name takes two lines of the event log, and the second one has no number. -/
theorem twoLineMethod_not_numbered :
    twoLineMethodRun.running = true ∧ ¬ twoLineMethodRun.LogRight := by
  refine ⟨by decide +kernel, fun h => ?_⟩
  have hline : (linesOf twoLineMethodRun.shared.journal.file)[2]? =
      some (ascii "y request_bytes=84 result=0 response_bytes=142\n") := by decide +kernel
  have hnumber := h.numbered 2 _ hline
  revert hnumber
  decide

theorem file_prefix_appendEvent (j : Journal) (e : Bytes) : j.file <+: (appendEvent j e).1.file := by
  unfold appendEvent
  dsimp only
  split
  · exact prefix_rfl
  · exact prefix_append _ _

theorem reporting_file : Reporting False fun s s' => s.journal.file <+: s'.journal.file where
  trans := IsPrefix.trans
  quiet := fun hjournal _ => by rw [hjournal]
  event := fun s e _ => file_prefix_appendEvent s.journal e

theorem Reports.file_isPrefix {s s' : Shared} (h : Reports s s') :
    s.journal.file <+: s'.journal.file := by
  obtain ⟨events, -, hjournal⟩ := h
  rw [hjournal]
  clear hjournal
  generalize s.journal = j
  induction events generalizing j with
  | nil => exact prefix_rfl
  | cons e rest ih => exact (file_prefix_appendEvent j e).trans (ih _)

namespace World
variable {w : World} {a : Action}

/-- A run in which the surroundings only do what the loop itself reports. -/
def LocalRun : World → List Action → Prop
  | _, [] => True
  | w, a :: rest =>
    (∀ shared, a = .surroundings shared → LocalReports w.process w.shared shared) ∧
      LocalRun (w.step a) rest

theorem log_prefix_step (a : Action) (stream : Stream) :
    (w.process.log stream).bytes <+: ((w.step a).process.log stream).bytes := by
  by_cases ha : ∃ which data reaction, a = .output which data reaction
  · obtain ⟨which, data, reaction, rfl⟩ := ha
    have hset : ∀ hfits, (w.process.log stream).bytes <+: ((w.process.setLog which
        ⟨(w.process.log which).bytes ++ data, hfits⟩).log stream).bytes := fun hfits => by
      cases which <;> cases stream <;> simp [Process.setLog, Process.log]
    simp only [step, output]
    split_ifs
    · exact hset _
    · exact hset _
    · exact prefix_rfl
    · exact prefix_rfl
  · rw [log_step fun which data reaction heq => ha ⟨which, data, reaction, heq⟩]

theorem logs_prefix_run {actions : List Action} (h : w.LocalRun actions) :
    w.shared.journal.file <+: (w.run actions).shared.journal.file ∧
      ∀ stream, (w.process.log stream).bytes <+: ((w.run actions).process.log stream).bytes := by
  induction actions generalizing w with
  | nil => exact ⟨prefix_rfl, fun _ => prefix_rfl⟩
  | cons a rest ih =>
    obtain ⟨hfile, hlogs⟩ := ih h.2
    have hstep := related_step reporting_file False.elim
      (fun shared ha => (h.1 shared ha).reports.file_isPrefix)
      fun _ _ _ _ s _ _ => file_prefix_appendEvent s.journal _
    exact ⟨hstep.trans hfile, fun stream => (log_prefix_step a stream).trans (hlogs stream)⟩

/-- Whatever the clients, the child and the terminal do, and however many of the writes are cut
short, the event log and the logs of the output are only added to, and a page that was read once
stays what the log holds at its offset. -/
theorem logs_append_only {actions : List Action} (h : w.LocalRun actions) :
    w.shared.journal.file <+: (w.run actions).shared.journal.file ∧
      ∀ stream, (w.process.log stream).bytes <+: ((w.run actions).process.log stream).bytes ∧
        ∀ offset maximumLength, pageOf (w.process.log stream).bytes offset maximumLength <+:
          ((w.run actions).process.log stream).bytes.drop offset := by
  obtain ⟨hfile, hlogs⟩ := logs_prefix_run h
  refine ⟨hfile, fun stream => ⟨hlogs stream, fun offset maximumLength => ?_⟩⟩
  exact (pageOf_prefix_drop ..).trans ((hlogs stream).drop offset)

/-- A third read of output, then the end. -/
theorem two_outputs_append_only :
    (twoOutputs.process.log .stdout).bytes <+:
      ((twoOutputs.run [.output .stdout (ascii "!") ⟨[], []⟩, .abort]).process.log .stdout).bytes := by
  have hrun : twoOutputs.LocalRun [.output .stdout (ascii "!") ⟨[], []⟩, .abort] :=
    ⟨nofun, nofun, trivial⟩
  exact ((logs_append_only hrun).2 .stdout).1

end World

end Cubicle.Controller
