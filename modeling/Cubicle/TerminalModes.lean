import Cubicle.ByteText
import Cubicle.WindowedScans

/-!
# Application cursor keys

A terminal model watches the output it is fed for the sequences `ESC [ ? … h` and `ESC [ ? … l` that
set and reset modes, and remembers mode 1, which decides how cursor keys are sent. Of each chunk it
scans the last 4096 bytes, after the last 16 bytes of what came before. This is compared with the
last such sequence of the whole stream.
-/

namespace Cubicle.TerminalModes
open ByteText RingBuffers WindowedScans List

def isDigit (b : UInt8) : Bool := 0x30 ≤ b.toNat && b.toNat ≤ 0x39

/-- The bytes that end a control sequence. -/
def isFinal (b : UInt8) : Bool := 0x40 ≤ b.toNat && b.toNat ≤ 0x7e

/-- The loop over what follows `ESC [ ?`: what it sets mode 1 to. The value is a 32-bit one, and
bytes that have no meaning here are passed over. -/
def readParameters (hasModeOne haveDigits : Bool) (value : ℕ) : Bytes → Option Bool
  | [] => none
  | ch :: t =>
    if isDigit ch then
      readParameters hasModeOne true ((value * 10 + (ch.toNat - 0x30)) % 2 ^ 32) t
    else if ch = 0x3b then
      readParameters (hasModeOne || haveDigits && value == 1) false 0 t
    else if ch = 0x68 ∨ ch = 0x6c then
      if hasModeOne || haveDigits && value == 1 then some (ch == 0x68) else none
    else if isFinal ch then none
    else readParameters hasModeOne haveDigits value t

/-- What the sequence at a position sets mode 1 to. -/
def modeAt : Bytes → Option Bool
  | a :: b :: c :: t =>
    if a = 0x1b ∧ b = 0x5b ∧ c = 0x3f then readParameters false false 0 t else none
  | _ => none

/-- The loop over the positions of the buffer, which stops four bytes before its end. -/
def scan (mode : Bool) : Bytes → Bool
  | [] => mode
  | b :: t => scan (if 4 < (b :: t).length then (modeAt (b :: t)).getD mode else mode) t

/-- The fields of a terminal model that the scanner uses. -/
structure Tracker where
  applicationCursor : Bool
  inputTail : Bytes
  tail_le : inputTail.length ≤ 16

theorem rtake_length_le (s : Bytes) (n : ℕ) : (s.rtake n).length ≤ n := by
  rw [length_rtake]
  exact min_le_right _ _

def Tracker.new : Tracker := ⟨false, [], Nat.zero_le 16⟩

/-- What is scanned of a chunk: its last 4096 bytes. -/
def scanned (data : Bytes) : Bytes := data.rtake 4096

theorem scanned_eq {data : Bytes} (h : data.length ≤ 4096) : scanned data = data := by
  rw [scanned, List.rtake, Nat.sub_eq_zero_of_le h, drop_zero]

/-- `track_application_cursor_mode`, for one call of `cubicle_terminal_model_feed`. -/
def feed (m : Tracker) (data : Bytes) : Tracker where
  applicationCursor := scan m.applicationCursor (m.inputTail ++ scanned data)
  inputTail := (m.inputTail ++ scanned data).rtake 16
  tail_le := rtake_length_le _ 16

theorem feed_applicationCursor (m : Tracker) (data : Bytes) : (feed m data).applicationCursor =
    scan m.applicationCursor (m.inputTail ++ scanned data) := by simp only [feed]

theorem feed_inputTail (m : Tracker) (data : Bytes) :
    (feed m data).inputTail = (m.inputTail ++ scanned data).rtake 16 := by simp only [feed]

def feedAll (m : Tracker) (chunks : List Bytes) : Tracker := chunks.foldl feed m

variable {hasModeOne haveDigits b : Bool} {s stream chunk t digits : Bytes} {m : Tracker}
  {c : UInt8} {chunks : List Bytes}

variable {value : ℕ} {init : Bool}

theorem readParameters_stable (h : readParameters hasModeOne haveDigits value s = some b)
    (t : Bytes) : readParameters hasModeOne haveDigits value (s ++ t) = some b := by
  induction s generalizing hasModeOne haveDigits value with
  | nil => cases h
  | cons ch s ih =>
    rw [readParameters] at h
    rw [cons_append, readParameters]
    split_ifs at h ⊢ with h1 h2 h3 h4 h5
    · exact ih h
    · exact ih h
    · exact h
    · exact ih h

theorem stable_modeAt : Stable modeAt := by
  intro s b h t
  rcases s with _ | ⟨x, _ | ⟨y, _ | ⟨z, s⟩⟩⟩
  · cases h
  · cases h
  · cases h
  simp only [modeAt, cons_append] at h ⊢
  split_ifs at h ⊢
  exact readParameters_stable h t

theorem modeAt_short (h : s.length ≤ 4) : modeAt s = none := by
  rcases s with _ | ⟨x, _ | ⟨y, _ | ⟨z, t⟩⟩⟩
  · rfl
  · rfl
  · rfl
  rw [modeAt]
  split_ifs
  · rcases t with _ | ⟨ch, _ | ⟨c, t⟩⟩
    · rfl
    · simp [readParameters]
    · simp at h
      omega
  · rfl

theorem scan_eq (mode : Bool) (s : Bytes) : scan mode s = (lastOf modeAt s).getD mode := by
  induction s generalizing mode with
  | nil => rfl
  | cons b t ih =>
    have hhead : (if 4 < (b :: t).length then (modeAt (b :: t)).getD mode else mode) =
        (modeAt (b :: t)).getD mode := by
      split_ifs with hlength
      · rfl
      · rw [modeAt_short (by omega)]
        rfl
    rw [scan, hhead, ih, lastOf]
    cases lastOf modeAt t <;> rfl

/-- A tracker that has seen a stream, on top of a mode it started with. -/
structure Follows (m : Tracker) (init : Bool) (stream : Bytes) : Prop where
  tail_eq : m.inputTail = stream.rtake 16
  mode_eq : m.applicationCursor = (lastOf modeAt stream).getD init

theorem follows_new : Follows Tracker.new false [] := ⟨rfl, rfl⟩

/-- A chunk is seen whole when it fits the buffer and completes nothing longer than the tail. -/
theorem Follows.feed (h : Follows m init stream) (hlength : chunk.length ≤ 4096)
    (hcut : ∀ u, u <:+ stream → 16 < u.length → modeAt (u ++ chunk) = modeAt u) :
    Follows (feed m chunk) init (stream ++ chunk) := by
  have hwhole := scanned_eq hlength
  constructor
  · rw [feed_inputTail, hwhole, h.tail_eq]
    exact rtake_rtake_append stream chunk 16
  · rw [feed_applicationCursor, hwhole, h.tail_eq, scan_eq, h.mode_eq,
      lastOf_window stable_modeAt hcut]
    cases lastOf modeAt (stream.rtake 16 ++ chunk) <;> rfl

def isParameter (b : UInt8) : Bool := isDigit b || b == 0x3b

def fieldValue (digits : Bytes) : ℕ := digits.foldl (fun v d => v * 10 + (d.toNat - 0x30)) 0

/-- One of the numbers between the semicolons is 1. -/
def containsOne (parameters : Bytes) : Bool :=
  (parameters.splitOn 0x3b).any fun field => fieldValue field == 1

/-- The letter after the parameters. -/
def setTo (hasModeOne : Bool) : Bytes → Option Bool
  | [] => none
  | c :: _ => if (c = 0x68 ∨ c = 0x6c) ∧ hasModeOne then some (c == 0x68) else none

/-- The complete sequence `ESC [ ? parameters h` or `ESC [ ? parameters l` at a position, if mode 1
is among its parameters: what it sets the mode to. -/
def sequenceAt : Bytes → Option Bool
  | a :: b :: c :: t =>
    if a = 0x1b ∧ b = 0x5b ∧ c = 0x3f then
      setTo (containsOne (t.takeWhile isParameter)) (t.dropWhile isParameter)
    else none
  | _ => none

/-- The mode after a stream: what its last sequence sets it to. -/
def modeOf (stream : Bytes) : Bool := (lastOf sequenceAt stream).getD false

/-- `ESC [ ?`. -/
def introducer : Bytes := [0x1b, 0x5b, 0x3f]

def IsModeLetter (c : UInt8) : Prop := c = 0x68 ∨ c = 0x6c

instance (c : UInt8) : Decidable (IsModeLetter c) := inferInstanceAs (Decidable (_ ∨ _))

theorem modeAt_introducer (t : Bytes) : modeAt (introducer ++ t) = readParameters false false 0 t :=
  rfl

theorem sequenceAt_introducer (t : Bytes) : sequenceAt (introducer ++ t) =
    setTo (containsOne (t.takeWhile isParameter)) (t.dropWhile isParameter) := rfl

/-- Other positions are passed over. -/
theorem introducer_or (s : Bytes) :
    (∃ t, s = introducer ++ t) ∨ modeAt s = none ∧ sequenceAt s = none := by
  rcases s with _ | ⟨x, _ | ⟨y, _ | ⟨z, t⟩⟩⟩
  · exact .inr ⟨rfl, rfl⟩
  · exact .inr ⟨rfl, rfl⟩
  · exact .inr ⟨rfl, rfl⟩
  by_cases h : x = 0x1b ∧ y = 0x5b ∧ z = 0x3f
  · obtain ⟨rfl, rfl, rfl⟩ := h
    exact .inl ⟨t, rfl⟩
  · exact .inr ⟨by rw [modeAt, if_neg h], by rw [sequenceAt, if_neg h]⟩

theorem not_isFinal_of_isParameter {b : UInt8} (h : isParameter b = true) : isFinal b = false := by
  simp only [isParameter, isDigit, Bool.or_eq_true, Bool.and_eq_true, decide_eq_true_eq,
    beq_iff_eq] at h
  rcases h with ⟨_, h⟩ | rfl
  · simp only [isFinal, Bool.and_eq_false_iff, decide_eq_false_iff_not]
    omega
  · rfl

theorem isFinal_of_isModeLetter (h : IsModeLetter c) : isFinal c = true := by
  rcases h with rfl | rfl <;> rfl

theorem isParameter_of_isDigit {b : UInt8} (h : isDigit b = true) : isParameter b = true := by
  rw [isParameter, h, Bool.true_or]

/-- The loop ends at the first mode letter, if it sets anything. -/
theorem readParameters_letter (h : readParameters hasModeOne haveDigits value s = some b) :
    ∃ body c rest, s = body ++ c :: rest ∧ IsModeLetter c ∧ (∀ x ∈ body, isFinal x = false) ∧
      ∀ rest', readParameters hasModeOne haveDigits value (body ++ c :: rest') = some b := by
  induction s generalizing hasModeOne haveDigits value with
  | nil => cases h
  | cons ch s ih =>
    rw [readParameters] at h
    by_cases hdigit : isDigit ch = true
    · rw [if_pos hdigit] at h
      obtain ⟨body, c, rest, rfl, hc, hbody, hread⟩ := ih h
      have hch := not_isFinal_of_isParameter (isParameter_of_isDigit hdigit)
      refine ⟨ch :: body, c, rest, rfl, hc, forall_mem_cons.mpr ⟨hch, hbody⟩, fun rest' => ?_⟩
      rw [cons_append, readParameters, if_pos hdigit, hread]
    rw [if_neg hdigit] at h
    by_cases hsemicolon : ch = 0x3b
    · rw [if_pos hsemicolon] at h
      obtain ⟨body, c, rest, rfl, hc, hbody, hread⟩ := ih h
      have hch : isFinal ch = false := by rw [hsemicolon]; rfl
      refine ⟨ch :: body, c, rest, rfl, hc, forall_mem_cons.mpr ⟨hch, hbody⟩, fun rest' => ?_⟩
      rw [cons_append, readParameters, if_neg hdigit, if_pos hsemicolon, hread]
    rw [if_neg hsemicolon] at h
    by_cases hletter : ch = 0x68 ∨ ch = 0x6c
    · rw [if_pos hletter] at h
      refine ⟨[], ch, s, rfl, hletter, by simp, fun rest' => ?_⟩
      rw [nil_append, readParameters, if_neg hdigit, if_neg hsemicolon, if_pos hletter, h]
    rw [if_neg hletter] at h
    by_cases hfinal : isFinal ch = true
    · rw [if_pos hfinal] at h
      cases h
    · rw [if_neg hfinal] at h
      obtain ⟨body, c, rest, rfl, hc, hbody, hread⟩ := ih h
      refine ⟨ch :: body, c, rest, rfl, hc,
        forall_mem_cons.mpr ⟨Bool.eq_false_iff.mpr hfinal, hbody⟩, fun rest' => ?_⟩
      rw [cons_append, readParameters, if_neg hdigit, if_neg hsemicolon, if_neg hletter,
        if_neg hfinal, hread]

/-- The numbers of a sequence that the loop can count. -/
def Countable (body : Bytes) : Prop :=
  ∀ ds, ds <:+: body → (∀ d ∈ ds, isDigit d = true) → fieldValue ds < 2 ^ 32

/-- Between `ESC [ ?` and a mode letter, a sequence has only parameters, with numbers of 32 bits. -/
def Regular (stream : Bytes) : Prop :=
  ∀ body c rest, introducer ++ (body ++ c :: rest) <:+ stream → IsModeLetter c →
    (∀ b ∈ body, isFinal b = false) → (∀ b ∈ body, isParameter b = true) ∧ Countable body

theorem Regular.of_suffix (h : Regular t) (hs : s <:+ t) : Regular s :=
  fun body c rest hseq => h body c rest (hseq.trans hs)

theorem Regular.of_append (h : Regular (s ++ t)) : Regular s := by
  rintro body c rest ⟨front, hfront⟩ hc hbody
  exact h body c (rest ++ t) ⟨front, by rw [← hfront]; simp⟩ hc hbody

theorem fieldValue_concat (digits : Bytes) (d : UInt8) :
    fieldValue (digits ++ [d]) = fieldValue digits * 10 + (d.toNat - 0x30) := by
  rw [fieldValue, foldl_append]
  rfl

theorem semicolon_notMem (h : ∀ d ∈ digits, isDigit d = true) :
    (0x3b : UInt8) ∉ digits := fun hmem => by
  cases h _ hmem

theorem containsOne_digits (h : ∀ d ∈ digits, isDigit d = true) :
    containsOne digits = (fieldValue digits == 1) := by
  rw [containsOne, splitOn_eq_singleton (semicolon_notMem h)]
  simp

theorem containsOne_semicolon (h : ∀ d ∈ digits, isDigit d = true) (ps : Bytes) :
    containsOne (digits ++ 0x3b :: ps) = (fieldValue digits == 1 || containsOne ps) := by
  rw [containsOne, splitOn_append_cons_self_of_not_mem (semicolon_notMem h)]
  simp [containsOne]

theorem some_digits_and (digits : Bytes) :
    (!digits.isEmpty && fieldValue digits == 1) = (fieldValue digits == 1) := by
  cases digits <;> rfl

/-- On parameters the loop computes whether 1 is among them. The induction is on the parameters,
with the digits of the current number in `digits`. -/
theorem readParameters_eq (digits : Bytes) (hasModeOne : Bool) {ps : Bytes} (rest : Bytes)
    (hps : ∀ b ∈ ps, isParameter b = true) (hdigits : ∀ d ∈ digits, isDigit d = true)
    (hcount : Countable (digits ++ ps)) (hc : IsModeLetter c) :
    readParameters hasModeOne (!digits.isEmpty) (fieldValue digits) (ps ++ c :: rest) =
      setTo (hasModeOne || containsOne (digits ++ ps)) (c :: rest) := by
  induction ps generalizing digits hasModeOne with
  | nil =>
    have hno : isDigit c = false ∧ c ≠ 0x3b := by rcases hc with rfl | rfl <;> decide
    rw [nil_append, append_nil, readParameters, if_neg (by simp [hno.1]), if_neg hno.2,
      if_pos (show c = 0x68 ∨ c = 0x6c from hc), some_digits_and, ← containsOne_digits hdigits,
      setTo]
    simp only [show c = 0x68 ∨ c = 0x6c from hc, true_and]
  | cons p ps ih =>
    obtain ⟨hp, hrest⟩ := forall_mem_cons.mp hps
    rw [cons_append, readParameters]
    by_cases hdigit : isDigit p = true
    · have hdigits' : ∀ d ∈ digits ++ [p], isDigit d = true := by
        intro d hd
        rcases mem_append.mp hd with hd | hd
        · exact hdigits d hd
        · exact mem_singleton.mp hd ▸ hdigit
      have hsmall : fieldValue (digits ++ [p]) < 2 ^ 32 :=
        hcount _ ⟨[], ps, by simp⟩ hdigits'
      have hnext := ih (digits ++ [p]) hasModeOne hrest hdigits'
        (by rwa [append_assoc, singleton_append])
      rw [append_assoc, singleton_append] at hnext
      have hsome : (!(digits ++ [p]).isEmpty) = true := by simp
      rw [if_pos hdigit, ← fieldValue_concat, Nat.mod_eq_of_lt hsmall, ← hnext, hsome]
    · obtain rfl : p = 0x3b := by simpa [isParameter, hdigit] using hp
      have hnext := ih [] (hasModeOne || fieldValue digits == 1) hrest
        (by simp) (fun ds hds => hcount ds (hds.trans ⟨digits ++ [0x3b], [], by simp⟩))
      rw [if_neg hdigit, if_pos rfl, some_digits_and, containsOne_semicolon hdigits,
        ← Bool.or_assoc]
      exact hnext

/-- In a regular stream the scanner finds the sequences. -/
theorem modeAt_eq_sequenceAt (h : Regular s) : modeAt s = sequenceAt s := by
  rcases introducer_or s with ⟨t, rfl⟩ | ⟨hmode, hsequence⟩
  swap
  · rw [hmode, hsequence]
  rw [modeAt_introducer, sequenceAt_introducer]
  by_cases hend : ∃ body c rest, t = body ++ c :: rest ∧ IsModeLetter c ∧
      ∀ b ∈ body, isFinal b = false
  · obtain ⟨body, c, rest, rfl, hc, hbody⟩ := hend
    obtain ⟨hps, hcount⟩ := h body c rest (suffix_refl _) hc hbody
    have hno : ¬ isParameter c = true := fun hpar => by
      have hfinal := isFinal_of_isModeLetter hc
      rw [not_isFinal_of_isParameter hpar] at hfinal
      cases hfinal
    have hread := readParameters_eq [] false rest hps (by simp)
      (by simpa using hcount) hc
    rw [takeWhile_append_of_pos hps, dropWhile_append_of_pos hps,
      takeWhile_cons_of_neg hno, dropWhile_cons_of_neg hno, append_nil]
    exact hread
  · -- Without a mode letter after parameters neither finds anything.
    have hleft : readParameters false false 0 t = none := by
      by_contra hne
      obtain ⟨b, hb⟩ := Option.ne_none_iff_exists'.mp hne
      obtain ⟨body, c, rest, ht, hc, hbody, -⟩ := readParameters_letter hb
      exact hend ⟨body, c, rest, ht, hc, hbody⟩
    rw [hleft]
    cases hdrop : t.dropWhile isParameter with
    | nil => rfl
    | cons c rest =>
      have hnot : ¬ IsModeLetter c := fun hc => hend ⟨t.takeWhile isParameter, c, rest,
        by rw [← hdrop, takeWhile_append_dropWhile], hc,
        fun b hb => not_isFinal_of_isParameter (mem_takeWhile_imp hb)⟩
      exact (if_neg fun hand => hnot hand.1).symm

/-- A chunk that fits the buffer, after a stream that does not end in a long unfinished sequence,
makes the stream a regular one. -/
structure Orderly (stream chunk : Bytes) : Prop where
  chunk_le : chunk.length ≤ 4096
  pending_le : ∀ ps, introducer ++ ps <:+ stream → (∀ b ∈ ps, isParameter b = true) → ps.length ≤ 13
  regular : Regular (stream ++ chunk)

/-- Every chunk is orderly after the stream before it. -/
def OrderlyAll (stream : Bytes) : List Bytes → Prop
  | [] => True
  | chunk :: chunks => Orderly stream chunk ∧ OrderlyAll (stream ++ chunk) chunks

theorem Orderly.cut (h : Orderly stream chunk) :
    ∀ u, u <:+ stream → 16 < u.length → modeAt (u ++ chunk) = modeAt u := by
  intro u hu hlong
  cases hmode : modeAt u with
  | some b => exact stable_modeAt u b hmode chunk
  | none =>
    rcases introducer_or (u ++ chunk) with ⟨t, ht⟩ | ⟨hnone, -⟩
    swap
    · exact hnone
    obtain ⟨v, rfl⟩ : ∃ v, u = introducer ++ v :=
      ⟨u.drop 3, by
        have htake := congrArg (List.take 3) ht
        rw [take_append_of_le_length (by omega)] at htake
        nth_rewrite 1 [← take_append_drop 3 u]
        rw [htake]
        rfl⟩
    rw [modeAt_introducer] at hmode
    rw [append_assoc, modeAt_introducer]
    by_contra hne
    obtain ⟨b, hb⟩ := Option.ne_none_iff_exists'.mp hne
    obtain ⟨body, c, rest, hbody, hc, hfinal, hread⟩ := readParameters_letter hb
    have hregular := h.regular body c rest (by
      obtain ⟨front, hfront⟩ := hu
      exact ⟨front, by rw [← hbody, ← append_assoc, ← append_assoc, ← hfront,
        ← append_assoc]⟩) hc hfinal
    rcases append_eq_append_iff.mp hbody with ⟨w, rfl, -⟩ | ⟨w, hv, hw⟩
    · -- The sequence is still unfinished where the chunk begins, and then it is short.
      have hpending := h.pending_le v hu fun x hx => hregular.1 x (mem_append_left w hx)
      rw [length_append] at hlong
      simp only [introducer, length_cons, length_nil] at hlong
      omega
    · cases w with
      | nil =>
        rw [append_nil] at hv
        have hpending := h.pending_le v hu fun x hx => hregular.1 x (hv ▸ hx)
        rw [length_append] at hlong
        simp only [introducer, length_cons, length_nil] at hlong
        omega
      | cons x w =>
        obtain ⟨rfl, -⟩ := List.cons.inj hw
        rw [hv, hread w] at hmode
        cases hmode

theorem Follows.feedAll (h : Follows m init stream) (hchunks : OrderlyAll stream chunks) :
    Follows (feedAll m chunks) init (stream ++ chunks.flatten) := by
  induction chunks generalizing m stream with
  | nil => simpa [TerminalModes.feedAll] using h
  | cons chunk chunks ih =>
    rw [flatten_cons, ← append_assoc]
    exact ih (h.feed hchunks.1.chunk_le hchunks.1.cut) hchunks.2

theorem OrderlyAll.regular (hstream : Regular stream) (h : OrderlyAll stream chunks) :
    Regular (stream ++ chunks.flatten) := by
  induction chunks generalizing stream with
  | nil => simpa using hstream
  | cons chunk chunks ih =>
    rw [flatten_cons, ← append_assoc]
    exact ih h.1.regular h.2

theorem lastOf_modeAt_eq (h : Regular s) : lastOf modeAt s = lastOf sequenceAt s :=
  lastOf_congr fun _ _ hu => modeAt_eq_sequenceAt (h.of_suffix hu)

theorem regular_nil : Regular [] := fun body c rest h => by
  have := h.length_le
  simp [introducer] at this

/-- After orderly chunks the mode is the one that the last sequence of the stream sets, however the
stream was cut; a short stream can be fed in one piece. -/
theorem mode_after_orderly_chunks {chunks : List Bytes} (h : OrderlyAll [] chunks) :
    (feedAll Tracker.new chunks).applicationCursor = modeOf chunks.flatten ∧
      (chunks.flatten.length ≤ 4096 →
        (feed Tracker.new chunks.flatten).applicationCursor = modeOf chunks.flatten) := by
  have hregular := h.regular regular_nil
  have hfollows := follows_new.feedAll h
  rw [nil_append] at hregular hfollows
  refine ⟨?_, fun hlength => ?_⟩
  · rw [hfollows.mode_eq, lastOf_modeAt_eq hregular, modeOf]
  · have hone := follows_new.feed hlength fun u hu hlong => by
      rw [suffix_nil.mp hu] at hlong
      cases hlong
    rw [hone.mode_eq, nil_append, lastOf_modeAt_eq hregular, modeOf]

/-- `ESC [ ? 1 h`. -/
def setCursorKeys : Bytes := [0x1b, 0x5b, 0x3f, 0x31, 0x68]

theorem countable_digit (d : UInt8) : Countable [d] := by
  intro ds hds _
  have hlength := hds.length_le
  rcases ds with _ | ⟨x, _ | ⟨y, ds⟩⟩
  · decide
  · have hx := x.toNat_lt
    have hvalue : fieldValue [x] = 0 * 10 + (x.toNat - 0x30) := rfl
    omega
  · simp at hlength

theorem regular_setCursorKeys : Regular setCursorKeys := by
  rintro body c rest ⟨front, hfront⟩ hc hbody
  rcases front with _ | ⟨x, front⟩
  · have htail : body ++ c :: rest = [0x31, 0x68] := by
      simpa [introducer, setCursorKeys] using hfront
    rcases body with _ | ⟨y, _ | ⟨z, body⟩⟩
    · obtain ⟨rfl, -⟩ := List.cons.inj htail
      exact absurd hc (by decide)
    · obtain ⟨rfl, -⟩ := List.cons.inj htail
      exact ⟨by simp [isParameter, isDigit], countable_digit 0x31⟩
    · simp at htail
  · -- The introducer does not start later.
    have hmem : (0x1b : UInt8) ∈ [0x5b, 0x3f, 0x31, 0x68] := by
      have htail := (List.cons.inj hfront).2
      rw [← htail]
      simp [introducer]
    simp at hmem

/-- A sequence that is cut before its last byte. -/
theorem cut_sequence_sets_mode :
    (feedAll Tracker.new [[0x1b, 0x5b, 0x3f, 0x31], [0x68]]).applicationCursor = true := by
  have hpending : ∀ stream ps : Bytes, stream.length ≤ 4 → introducer ++ ps <:+ stream →
      ps.length ≤ 13 := by
    intro stream ps hstream h
    have := h.length_le
    simp only [introducer, length_append, length_cons, length_nil] at this
    omega
  have horderly : OrderlyAll [] [[0x1b, 0x5b, 0x3f, 0x31], [0x68]] :=
    ⟨⟨by decide, fun ps h _ => hpending [] ps (by decide) h,
      Regular.of_append (t := [0x68]) regular_setCursorKeys⟩,
      ⟨by decide, fun ps h _ => hpending _ ps (by decide) h, regular_setCursorKeys⟩, trivial⟩
  exact (mode_after_orderly_chunks horderly).1.trans (by decide)

/-- Modes 1, 25, 1000, 1002 and 1006 in one sequence. -/
def longSequence : Bytes := introducer ++ ascii "1;25;1000;1002;1006"

/-- A chunk ends before the last byte of a sequence of which only 16 bytes are kept. -/
theorem long_cut_sequence_is_missed :
    (feedAll Tracker.new [longSequence, ascii "h"]).applicationCursor = false ∧
      modeOf (longSequence ++ ascii "h") = true ∧
      (feed Tracker.new (longSequence ++ ascii "h")).applicationCursor = true := by
  decide +kernel

end Cubicle.TerminalModes
