import Cubicle.PartialWrites

/-!
# Input of an interactive connection

`cube connect` passes what it reads from standard input to the process, until Ctrl-\ and d are
typed. The opening, which may throw input away, the loop that reads, the filter it sends each read
through, and the stream function that says what should arrive.
-/

namespace Cubicle.Cli
open ByteText PartialWrites List

/-- Ctrl-\. -/
def escapeByte : UInt8 := 0x1c

def detachByte : UInt8 := 0x64

/-- The state of `process_input_chunk`: its two flags, the output buffer, what the attachment has
taken and its answers to come. -/
structure Input where
  escapePending : Bool
  detachRequested : Bool
  output : Bytes
  written : Bytes
  answers : List Answer

/-- `attachment_write_all` on the output buffer; the flag is false when a write fails. -/
def Input.flush (s : Input) : Input × Bool :=
  let out := writeLoop s.answers s.output
  ({ s with output := [], written := s.written ++ out.accepted, answers := out.answers },
    out.error.isNone)

/-- One byte goes to the output buffer, which is written out when it is full. -/
def Input.emit (s : Input) (byte : UInt8) : Input × Bool :=
  let s := { s with output := s.output ++ [byte] }
  if 4096 ≤ s.output.length then s.flush else (s, true)

def Input.byte (s : Input) (byte : UInt8) : Input × Bool :=
  if s.escapePending then
    let s := { s with escapePending := false }
    if byte = detachByte then ({ s with detachRequested := true }, true)
    else { s with output := s.output ++ [escapeByte] }.emit byte
  else if byte = escapeByte then ({ s with escapePending := true }, true)
  else s.emit byte

/-- The bytes in turn, up to a failed write. -/
def Input.bytes : Input → Bytes → Input × Bool
  | s, [] => (s, true)
  | s, b :: rest =>
    match s.byte b with
    | (s, false) => (s, false)
    | (s, true) => s.bytes rest

def processInputChunk (s : Input) (chunk : Bytes) : Input × Bool :=
  match s.bytes chunk with
  | (s, false) => (s, false)
  | (s, true) => if s.output = [] then (s, true) else s.flush

/-- What `read` returns for the standard input: some bytes, as many as the buffer holds. -/
structure Read where
  bytes : Bytes
  ne_nil : bytes ≠ []
  length_le : bytes.length ≤ 4095

/-- How the wait for input ends, and the read after it. -/
inductive Waiting
  | idle
  | interrupted
  | failed
  | ready
  | readInterrupted
  | readFailed

/-- What one turn of the loop meets: the results of a resize, of reading the streams and of the
status call (1 is a lost connection), whether all streams are at their end and the process has
completed, and the wait for input. -/
structure Turn where
  resize : ℕ
  streams : ℕ
  ended : Bool
  status : ℕ
  completed : Bool
  waiting : Waiting

/-- What `attachment_loop` meets before its loop: the results of rendering the snapshot, of the
replay and of the first resize, how much is to be replayed, and what is read from the standard input
to be thrown away, at most 512 bytes at a time. -/
structure Opening where
  snapshot : ℕ
  replayBytes : ℕ
  replay : ℕ
  drained : List Bytes
  resize : ℕ

/-- Output is replayed when the snapshot of a terminal cannot be shown. -/
def Opening.replays (o : Opening) (terminalMode : Bool) : Prop :=
  terminalMode = true ∧ o.snapshot ≠ 0 ∧ o.replayBytes ≠ 0

instance (o : Opening) (terminalMode : Bool) : Decidable (o.replays terminalMode) := by
  unfold Opening.replays
  infer_instance

def Opening.result (o : Opening) (terminalMode : Bool) : ℕ :=
  if o.replays terminalMode ∧ o.replay ≠ 0 then o.replay else o.resize

/-- What `drain_terminal_input_once` throws away in the course of a replay. -/
def Opening.discarded (o : Opening) (terminalMode stdinIsTty : Bool) : Bytes :=
  if o.replays terminalMode ∧ stdinIsTty = true then o.drained.flatten else []

structure Loop where
  terminalMode : Bool
  stdinIsTty : Bool
  stdinOpen : Bool
  reads : List Read
  input : Input
  result : ℕ
  stopped : Bool

def Loop.readInput (l : Loop) : Loop :=
  match l.reads with
  | [] => { l with stdinOpen := false }
  | r :: rest =>
    match processInputChunk l.input r.bytes with
    | (input, ok) =>
      { l with
        reads := rest
        input := input
        result := if ok then 0 else 2
        -- a pipe is read no further after its first read
        stdinOpen := l.stdinIsTty }

def Loop.stop (l : Loop) (result : ℕ) : Loop := { l with result := result, stopped := true }

def Loop.wait (l : Loop) : Waiting → Loop
  | .idle | .interrupted => l
  | .failed => l.stop 2
  | .ready => if l.stdinOpen then l.readInput else l
  | .readInterrupted => l
  | .readFailed => if l.stdinOpen then l.stop 2 else l

/-- One turn of `attachment_loop`. -/
def Loop.turn (l : Loop) (t : Turn) : Loop :=
  if t.resize ≠ 0 then l.stop t.resize
  else if t.streams = 1 ∧ (l.stdinOpen = false ∨ l.terminalMode = true) then l.stop 0
  else if t.streams ≠ 0 then l.stop (if t.streams = 1 then 2 else t.streams)
  else if t.status = 1 ∧ ((t.ended = true ∧ l.stdinOpen = false) ∨ l.terminalMode = true) then
    l.stop 0
  else if t.status ≠ 0 then l.stop (if t.status = 1 then 2 else t.status)
  else if t.completed = true ∧ t.ended = true then l.stop 0
  else l.wait t.waiting

/-- `attachment_loop` over the turns that come. -/
def Loop.run : Loop → List Turn → Loop
  | l, [] => l
  | l, t :: turns =>
    if l.result = 0 ∧ l.input.detachRequested = false ∧ l.stopped = false then
      (l.turn t).run turns
    else l

/-- An interactive connection after its opening, whose standard input will be read as given. -/
def Loop.start (terminalMode stdinIsTty : Bool) (o : Opening) (reads : List Read)
    (answers : List Answer) : Loop where
  terminalMode := terminalMode
  stdinIsTty := stdinIsTty
  stdinOpen := true
  reads := reads
  input := ⟨false, false, [], [], answers⟩
  result := o.result terminalMode
  stopped := false

/-- Nothing is read any more. -/
def Loop.InputEnded (l : Loop) : Prop :=
  l.input.detachRequested = true ∨ l.stdinOpen = false

/-- A stream of input: what comes before the first detach pair, what comes after it if there is
one, and whether the stream ends in an escape that waits for its second byte. -/
structure Scan where
  before : Bytes
  after : Option Bytes
  openEnd : Bool
deriving DecidableEq

def Scan.prepend (bytes : Bytes) (s : Scan) : Scan := { s with before := bytes ++ s.before }

/-- Scanning from left to right; an escape and the byte after it belong together. -/
def scan : Bytes → Scan
  | [] => ⟨[], none, false⟩
  | [b] => ⟨[b], none, b = escapeByte⟩
  | b :: c :: rest =>
    if b = escapeByte then
      if c = detachByte then ⟨[], some rest, false⟩ else (scan rest).prepend [b, c]
    else (scan (c :: rest)).prepend [b]

/-- Detach pairs only, and possibly an escape at the end. -/
def onlyPairs : Bytes → Bool
  | [] => true
  | [b] => b = escapeByte
  | b :: c :: rest => b = escapeByte && c = detachByte && onlyPairs rest

/-- What is read until a pair is complete, or until reading ends, and what is not. -/
def takeReads (stdinIsTty : Bool) : Bool → Bytes → List Read → Bytes × Bytes
  | _, taken, [] => (taken, [])
  | stdinOpen, taken, r :: rest =>
    if stdinOpen && (scan taken).after.isNone then
      takeReads stdinIsTty stdinIsTty (taken ++ r.bytes) rest
    else (taken, r.bytes ++ rest.flatMap Read.bytes)

/-- An escape at the end of what was read is held back. -/
def Scan.held (s : Scan) : Bytes := if s.openEnd then [escapeByte] else []

structure Passed where
  out : Bytes
  pending : Bool
  detached : Bool

/-- What the filter lets through, from a state with or without an escape pending. -/
def pass : Bool → Bytes → Passed
  | pending, [] => ⟨[], pending, false⟩
  | true, b :: rest =>
    let tail := pass false rest
    if b = detachByte then { tail with detached := true }
    else { tail with out := escapeByte :: b :: tail.out }
  | false, b :: rest =>
    if b = escapeByte then pass true rest
    else
      let tail := pass false rest
      { tail with out := b :: tail.out }

theorem pass_append (pending : Bool) (s t : Bytes) :
    pass pending (s ++ t) =
      ⟨(pass pending s).out ++ (pass (pass pending s).pending t).out,
        (pass (pass pending s).pending t).pending,
        (pass pending s).detached || (pass (pass pending s).pending t).detached⟩ := by
  induction s generalizing pending with
  | nil => cases pending <;> simp [pass]
  | cons b s ih =>
    cases pending with
    | true =>
      by_cases hb : b = detachByte
      · simp [pass, hb, ih]
      · simp [pass, hb, ih]
    | false =>
      by_cases hb : b = escapeByte
      · simp [pass, hb, ih]
      · simp [pass, hb, ih]

variable {s s' : Input} {chunk rest taken : Bytes} {l : Loop}

variable {byte : UInt8} {whole : Bytes × Bytes}

theorem emit_ok (h : s.emit byte = (s', true)) :
    s'.written ++ s'.output = s.written ++ (s.output ++ [byte]) ∧
      s'.escapePending = s.escapePending ∧ s'.detachRequested = s.detachRequested := by
  unfold Input.emit Input.flush at h
  dsimp only at h
  split_ifs at h
  · obtain ⟨rfl, herror⟩ := Prod.mk.inj h
    rw [Option.isNone_iff_eq_none] at herror
    simp [(writeLoop_accepted _ _).2 herror]
  · obtain ⟨rfl, -⟩ := Prod.mk.inj h
    exact ⟨rfl, rfl, rfl⟩

theorem byte_ok (h : s.byte byte = (s', true)) :
    s'.written ++ s'.output = s.written ++ s.output ++ (pass s.escapePending [byte]).out ∧
      s'.escapePending = (pass s.escapePending [byte]).pending ∧
      s'.detachRequested = (s.detachRequested || (pass s.escapePending [byte]).detached) := by
  unfold Input.byte at h
  cases hpending : s.escapePending with
  | true =>
    simp only [hpending, if_true] at h
    by_cases hb : byte = detachByte
    · rw [if_pos hb] at h
      obtain ⟨rfl, -⟩ := Prod.mk.inj h
      simp [pass, hb]
    · rw [if_neg hb] at h
      obtain ⟨hout, hstate, hdetach⟩ := emit_ok h
      simp only at hout hstate hdetach
      rw [hout, hstate, hdetach]
      simp [pass, hb]
  | false =>
    simp only [hpending, Bool.false_eq_true, if_false] at h
    by_cases hb : byte = escapeByte
    · rw [if_pos hb] at h
      obtain ⟨rfl, -⟩ := Prod.mk.inj h
      simp [pass, hb]
    · rw [if_neg hb] at h
      obtain ⟨hout, hstate, hdetach⟩ := emit_ok h
      rw [hout, hstate, hdetach, hpending]
      simp [pass, hb]

theorem bytes_ok (h : s.bytes chunk = (s', true)) :
    s'.written ++ s'.output = s.written ++ s.output ++ (pass s.escapePending chunk).out ∧
      s'.escapePending = (pass s.escapePending chunk).pending ∧
      s'.detachRequested = (s.detachRequested || (pass s.escapePending chunk).detached) := by
  induction chunk generalizing s with
  | nil =>
    obtain ⟨rfl, -⟩ := Prod.mk.inj h
    simp [pass]
  | cons b rest ih =>
    rw [Input.bytes] at h
    cases hbyte : s.byte b with
    | mk s₁ ok =>
      rw [hbyte] at h
      cases ok with
      | false => simp at h
      | true =>
        obtain ⟨hout, hpending, hdetach⟩ := byte_ok hbyte
        obtain ⟨hout', hpending', hdetach'⟩ := ih h
        have hcons := pass_append s.escapePending [b] rest
        rw [singleton_append] at hcons
        rw [hcons, hout', hpending', hdetach', hout, hdetach, hpending]
        simp [Bool.or_assoc]

theorem processInputChunk_ok (hempty : s.output = []) (h : processInputChunk s chunk = (s', true)) :
    s'.output = [] ∧ s'.written = s.written ++ (pass s.escapePending chunk).out ∧
      s'.escapePending = (pass s.escapePending chunk).pending ∧
      s'.detachRequested = (s.detachRequested || (pass s.escapePending chunk).detached) := by
  unfold processInputChunk at h
  cases hbytes : s.bytes chunk with
  | mk s₁ ok =>
    rw [hbytes] at h
    cases ok with
    | false => simp at h
    | true =>
      obtain ⟨hout, hpending, hdetach⟩ := bytes_ok hbytes
      rw [hempty, append_nil] at hout
      dsimp only at h
      split_ifs at h with hnone
      · obtain ⟨rfl, -⟩ := Prod.mk.inj h
        rw [hnone, append_nil] at hout
        exact ⟨hnone, hout, hpending, hdetach⟩
      · unfold Input.flush at h
        obtain ⟨rfl, herror⟩ := Prod.mk.inj h
        rw [Option.isNone_iff_eq_none] at herror
        refine ⟨rfl, ?_, hpending, hdetach⟩
        simpa [(writeLoop_accepted _ _).2 herror] using hout

/-- Without a pair, everything is passed on but an escape at the end. -/
theorem pass_of_none {s : Bytes} (h : (scan s).after = none) :
    (pass false s).detached = false ∧ (pass false s).pending = (scan s).openEnd ∧
      (scan s).before = (pass false s).out ++ (scan s).held := by
  induction s using scan.induct with
  | case1 => simp [scan, pass, Scan.held]
  | case2 b =>
    by_cases hb : b = escapeByte
    · simp [scan, pass, Scan.held, hb]
    · simp [scan, pass, Scan.held, hb]
  | case3 rest => simp [scan] at h
  | case4 c rest hc ih =>
    simp only [scan, if_true, hc, if_false, Scan.prepend] at h ⊢
    obtain ⟨hdetached, hpending, hbefore⟩ := ih h
    simp [pass, hc, hdetached, hpending, hbefore, Scan.held]
  | case5 b c rest hb ih =>
    simp only [scan, hb, if_false, Scan.prepend] at h ⊢
    obtain ⟨hdetached, hpending, hbefore⟩ := ih h
    rw [pass, if_neg hb]
    simp [hdetached, hpending, hbefore, Scan.held]

/-- Behind a pair, the rest of the read is filtered like what came before it. -/
theorem pass_of_some {s : Bytes} (h : (scan s).after = some rest) :
    (pass false s).detached = true ∧
      (pass false s).out = (scan s).before ++ (pass false rest).out := by
  induction s using scan.induct with
  | case1 => simp [scan] at h
  | case2 b => simp [scan] at h
  | case3 tail =>
    simp only [scan, if_true, Option.some.injEq] at h ⊢
    subst h
    simp [pass]
  | case4 c tail hc ih =>
    simp only [scan, if_true, hc, if_false, Scan.prepend] at h ⊢
    obtain ⟨hdetached, hout⟩ := ih h
    simp [pass, hc, hdetached, hout]
  | case5 b c tail hb ih =>
    simp only [scan, hb, if_false, Scan.prepend] at h ⊢
    obtain ⟨hdetached, hout⟩ := ih h
    rw [pass, if_neg hb]
    simp [hdetached, hout]

theorem scan_append_of_some {s : Bytes} (h : (scan s).after = some rest) (t : Bytes) :
    (scan (s ++ t)).before = (scan s).before := by
  induction s using scan.induct with
  | case1 => simp [scan] at h
  | case2 b => simp [scan] at h
  | case3 tail => simp [scan]
  | case4 c tail hc ih =>
    simp only [scan, if_true, hc, if_false, Scan.prepend] at h
    simp [scan, hc, Scan.prepend, ih h]
  | case5 b c tail hb ih =>
    simp only [scan, hb, if_false, Scan.prepend] at h
    have ih := ih h
    simp only [cons_append] at ih ⊢
    simp [scan, hb, Scan.prepend, ih]

/-- Without a pair so far, what counts is what comes next, behind an escape held back. -/
theorem scan_append_of_none {s : Bytes} (h : (scan s).after = none) (t : Bytes) :
    (scan (s ++ t)).before = (pass false s).out ++ (scan ((scan s).held ++ t)).before := by
  induction s using scan.induct with
  | case1 => simp [scan, pass, Scan.held]
  | case2 b =>
    by_cases hb : b = escapeByte
    · simp [scan, pass, Scan.held, hb]
    · cases t with
      | nil => simp [scan, pass, Scan.held, hb]
      | cons c t => simp [scan, pass, Scan.held, hb, Scan.prepend]
  | case3 rest => simp [scan] at h
  | case4 c rest hc ih =>
    simp only [scan, if_true, hc, if_false, Scan.prepend] at h
    have ih := ih h
    simp only [Scan.held] at ih ⊢
    simp [scan, pass, hc, Scan.prepend, ih]
  | case5 b c rest hb ih =>
    simp only [scan, hb, if_false, Scan.prepend] at h
    have ih := ih h
    have hpass : (pass false (b :: c :: rest)).out = b :: (pass false (c :: rest)).out := by
      rw [pass, if_neg hb]
    simp only [Scan.held, cons_append] at ih ⊢
    rw [hpass]
    simp [scan, hb, Scan.prepend, ih]

theorem pass_eq_nil_iff (s : Bytes) : (pass false s).out = [] ↔ onlyPairs s = true := by
  induction s using onlyPairs.induct with
  | case1 => simp [pass, onlyPairs]
  | case2 b =>
    by_cases hb : b = escapeByte
    · simp [pass, onlyPairs, hb]
    · simp [pass, onlyPairs, hb]
  | case3 b c rest ih =>
    by_cases hb : b = escapeByte
    · by_cases hc : c = detachByte
      · simp [pass, onlyPairs, hb, hc, ih]
      · simp [pass, onlyPairs, hb, hc]
    · rw [pass, if_neg hb]
      simp [onlyPairs, hb]

theorem before_eq_nil_iff (s : Bytes) :
    (scan s).before = [] ↔ s = [] ∨ [escapeByte, detachByte] <+: s := by
  rcases s with - | ⟨b, - | ⟨c, rest⟩⟩
  · simp [scan]
  · simp [scan]
  · by_cases hb : b = escapeByte
    · by_cases hc : c = detachByte
      · simp [scan, hb, hc]
      · simp [scan, hb, hc, Scan.prepend, Ne.symm hc]
    · simp [scan, hb, Scan.prepend, Ne.symm hb]

theorem takeReads_ended {stdinIsTty stdinOpen : Bool} {reads : List Read}
    (h : (scan taken).after ≠ none ∨ stdinOpen = false) :
    takeReads stdinIsTty stdinOpen taken reads = (taken, reads.flatMap Read.bytes) := by
  cases reads with
  | nil => rfl
  | cons r rest =>
    have hcond : ¬ (stdinOpen && (scan taken).after.isNone) = true := by
      rcases h with h | h
      · simp [h]
      · simp [h]
    rw [takeReads, if_neg hcond, flatMap_cons]

/-- The loop has read `taken`, passed it on, and will read what is left of `whole`. -/
structure Loop.At (l : Loop) (whole : Bytes × Bytes) (taken : Bytes) : Prop where
  output : l.input.output = []
  written : l.input.written = (pass false taken).out
  pending : l.input.escapePending = (pass false taken).pending
  detached : l.input.detachRequested = (pass false taken).detached
  whole_eq : takeReads l.stdinIsTty l.stdinOpen taken l.reads = whole

theorem detached_iff (taken : Bytes) :
    (pass false taken).detached = true ↔ (scan taken).after ≠ none := by
  cases h : (scan taken).after with
  | none => simp [(pass_of_none h).1]
  | some rest => simp [(pass_of_some h).1]

theorem Loop.At.readInput (h : l.At whole taken) (hopen : l.stdinOpen = true)
    (hdetach : l.input.detachRequested = false) (hresult : l.readInput.result = 0) :
    ∃ taken', l.readInput.At whole taken' := by
  unfold Loop.readInput at hresult ⊢
  cases hreads : l.reads with
  | nil =>
    refine ⟨taken, h.output, h.written, h.pending, h.detached, ?_⟩
    have hwhole := h.whole_eq
    simp only [hreads, takeReads] at hwhole ⊢
    exact hwhole
  | cons r rest =>
    rw [hreads] at hresult
    have hnone : (scan taken).after = none := by
      by_contra hsome
      rw [h.detached, (detached_iff taken).mpr hsome] at hdetach
      simp at hdetach
    cases hchunk : processInputChunk l.input r.bytes with
    | mk input ok =>
      simp only [hchunk] at hresult ⊢
      cases ok with
      | false => simp at hresult
      | true =>
        obtain ⟨hout, hwritten, hpending, hdetached⟩ := processInputChunk_ok h.output hchunk
        have happend := pass_append false taken r.bytes
        refine ⟨taken ++ r.bytes, hout, ?_, ?_, ?_, ?_⟩
        · rw [happend, hwritten, h.written, h.pending]
        · rw [happend, hpending, h.pending]
        · rw [happend, hdetached, h.detached, h.pending]
        · have hwhole := h.whole_eq
          rw [hreads, takeReads, if_pos (by simp [hopen, hnone])] at hwhole
          exact hwhole

theorem Loop.At.stop (h : l.At whole taken) (result : ℕ) : (l.stop result).At whole taken :=
  ⟨h.output, h.written, h.pending, h.detached, h.whole_eq⟩

theorem Loop.At.wait (h : l.At whole taken) (hdetach : l.input.detachRequested = false)
    (w : Waiting) (hresult : (l.wait w).result = 0) : ∃ taken', (l.wait w).At whole taken' := by
  cases w with
  | idle => exact ⟨taken, h⟩
  | interrupted => exact ⟨taken, h⟩
  | failed => exact ⟨taken, h.stop 2⟩
  | ready =>
    rw [Loop.wait] at hresult ⊢
    split_ifs at hresult ⊢ with hopen
    · exact h.readInput hopen hdetach hresult
    · exact ⟨taken, h⟩
  | readInterrupted => exact ⟨taken, h⟩
  | readFailed =>
    rw [Loop.wait]
    split_ifs
    · exact ⟨taken, h.stop 2⟩
    · exact ⟨taken, h⟩

theorem Loop.At.turn (h : l.At whole taken) (hdetach : l.input.detachRequested = false) (t : Turn)
    (hresult : (l.turn t).result = 0) : ∃ taken', (l.turn t).At whole taken' := by
  unfold Loop.turn at hresult ⊢
  split_ifs at hresult ⊢
  -- the exits before the wait for input
  iterate 8 exact ⟨taken, h.stop _⟩
  exact h.wait hdetach t.waiting hresult

theorem Loop.run_of_result (h : l.result ≠ 0) (turns : List Turn) : l.run turns = l := by
  cases turns with
  | nil => rfl
  | cons t turns => rw [Loop.run, if_neg (by simp [h])]

theorem Loop.At.run (h : l.At whole taken) (turns : List Turn) (hresult : (l.run turns).result =
    0) :
    ∃ taken', (l.run turns).At whole taken' := by
  induction turns generalizing l taken with
  | nil => exact ⟨taken, h⟩
  | cons t turns ih =>
    rw [Loop.run] at hresult ⊢
    split_ifs at hresult ⊢ with hgo
    · have hturn : (l.turn t).result = 0 := by
        by_contra hne
        rw [Loop.run_of_result hne] at hresult
        exact hne hresult
      obtain ⟨taken', h'⟩ := h.turn hgo.2.1 t hturn
      exact ih h' hresult
    · exact ⟨taken, h⟩

/-- Nothing is lost or added: behind the pair that ended the input come only further pairs in the
same read; without one, everything was read that comes before a pair, and it does not end in an
escape. -/
def PassedExactly (taken unread : Bytes) : Prop :=
  match (scan taken).after with
  | some rest => onlyPairs rest = true
  | none => (scan taken).held ++ unread = [] ∨
      [escapeByte, detachByte] <+: (scan taken).held ++ unread

instance (taken unread : Bytes) : Decidable (PassedExactly taken unread) := by
  unfold PassedExactly
  split <;> infer_instance

theorem pass_eq_before_iff (taken unread : Bytes) :
    (pass false taken).out = (scan (taken ++ unread)).before ↔ PassedExactly taken unread := by
  unfold PassedExactly
  split
  · rename_i rest hsome
    rw [scan_append_of_some hsome, (pass_of_some hsome).2, append_right_eq_self,
      pass_eq_nil_iff]
  · rename_i hnone
    rw [scan_append_of_none hnone, self_eq_append_right, before_eq_nil_iff]

theorem takeReads_whole (stdinIsTty stdinOpen : Bool) (taken : Bytes) (reads : List Read) :
    (takeReads stdinIsTty stdinOpen taken reads).1 ++
        (takeReads stdinIsTty stdinOpen taken reads).2 = taken ++ reads.flatMap Read.bytes := by
  induction reads generalizing stdinOpen taken with
  | nil => simp [takeReads]
  | cons r rest ih =>
    rw [takeReads]
    split_ifs
    · rw [ih, flatMap_cons, append_assoc]
    · rw [flatMap_cons]

/-- When an interactive connection is through with its input, no write failed and nothing was thrown
away before, the process has got what comes before the first pair exactly when nothing else was in
the last read behind the pair, a pipe had nothing more to read, and no escape is left over. -/
theorem connect_input_exact_iff (terminalMode stdinIsTty : Bool) (o : Opening) (reads : List Read)
    (answers : List Answer) (turns : List Turn)
    (hdiscarded : o.discarded terminalMode stdinIsTty = [])
    (hresult : ((Loop.start terminalMode stdinIsTty o reads answers).run turns).result = 0)
    (hended : ((Loop.start terminalMode stdinIsTty o reads answers).run turns).InputEnded) :
    ((Loop.start terminalMode stdinIsTty o reads answers).run turns).input.written =
        (scan (o.discarded terminalMode stdinIsTty ++ reads.flatMap Read.bytes)).before ↔
      PassedExactly (takeReads stdinIsTty true [] reads).1 (takeReads stdinIsTty true [] reads).2 := by
  have hstart : (Loop.start terminalMode stdinIsTty o reads answers).At
      (takeReads stdinIsTty true [] reads) [] := ⟨rfl, rfl, rfl, rfl, rfl⟩
  obtain ⟨taken, h⟩ := hstart.run turns hresult
  have hdone : (scan taken).after ≠ none ∨
      ((Loop.start terminalMode stdinIsTty o reads answers).run turns).stdinOpen = false := by
    rcases hended with hdetach | hclosed
    · rw [h.detached] at hdetach
      exact .inl ((detached_iff taken).mp hdetach)
    · exact .inr hclosed
  have htaken : (takeReads stdinIsTty true [] reads).1 = taken := by
    rw [← h.whole_eq, takeReads_ended hdone]
  have hwhole := takeReads_whole stdinIsTty true [] reads
  rw [nil_append] at hwhole
  rw [hdiscarded, nil_append, h.written, ← hwhole, htaken, pass_eq_before_iff]

def Read.one (b : UInt8) : Read := ⟨[b], by simp, by simp⟩

/-- A turn in which nothing but input happens. -/
def Turn.calm : Turn := ⟨0, 0, false, 0, false, .ready⟩

/-- The snapshot is shown. -/
def Opening.calm : Opening := ⟨0, 4096, 0, [], 0⟩

/-- The snapshot is not shown, and a byte is typed while the output is replayed. -/
def Opening.typedInto (b : UInt8) : Opening := ⟨2, 4096, 0, [[b]], 0⟩

/-- Typed byte by byte, `a`, Ctrl-\ and d pass on `a`. -/
theorem connect_typed_detach :
    ((Loop.start true true .calm [.one 0x61, .one escapeByte, .one detachByte] []).run
      [.calm, .calm, .calm]).input.written = [0x61] := by
  refine (connect_input_exact_iff true true .calm _ _ _ ?_ ?_ ?_).mpr ?_
  · decide
  · decide
  · exact .inl (by decide)
  · decide

/-- In one read, what comes behind the pair is passed on too; of a pipe, only the first read is; and
what is typed during a replay is not passed on at all. -/
theorem connect_passes_too_much_and_too_little :
    ((Loop.start true true .calm [⟨[escapeByte, detachByte, 0x61], by simp, by simp⟩] []).run
        [.calm]).input.written = [0x61] ∧
      (scan [escapeByte, detachByte, 0x61]).before = [] ∧
      ((Loop.start false false .calm [.one 0x61, .one 0x62] []).run
        [.calm, .calm, .calm]).input.written = [0x61] ∧
      (scan [0x61, 0x62]).before = [0x61, 0x62] ∧
      ((Loop.start true true (.typedInto 0x61) [.one 0x62] []).run
        [.calm, .calm]).input.written = [0x62] ∧
      (Opening.typedInto 0x61).discarded true true = [0x61] := by
  decide

end Cubicle.Cli
