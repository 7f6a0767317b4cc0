import Cubicle.ControllerContainment
import Cubicle.ControllerResizes
import Cubicle.ManagerState

/-!
# What the steps of the controller do to the state they share

Handlers, clients and output change the shared state in small steps: something other than the
event log changes, or a line of a known form is appended to it. Any relation that holds across
these small steps holds across every step of the loop.
-/

namespace Cubicle.Controller
open ByteText CStrings PartialWrites JsonText JsonEncoding RpcEnvelope List

/-- A text of at most `n` bytes that is one line and does not read as the report of some output. -/
structure EventText (n : ℕ) (e : Bytes) : Prop where
  oneLine : 0x0a ∉ e
  other : 12 ≤ e.length ∧ e.take 12 ≠ ascii "type=output "
  short : e.length ≤ n

instance (n : ℕ) (e : Bytes) : Decidable (EventText n e) :=
  decidable_of_iff (0x0a ∉ e ∧ (12 ≤ e.length ∧ e.take 12 ≠ ascii "type=output ") ∧ e.length ≤ n)
    ⟨fun h => ⟨h.1, h.2.1, h.2.2⟩, fun h => ⟨h.oneLine, h.other, h.short⟩⟩

/-- A piece of a line with at most `n` bytes. -/
structure Piece (n : ℕ) (e : Bytes) : Prop where
  oneLine : 0x0a ∉ e
  short : e.length ≤ n

instance (n : ℕ) (e : Bytes) : Decidable (Piece n e) :=
  decidable_of_iff (0x0a ∉ e ∧ e.length ≤ n) ⟨fun h => ⟨h.1, h.2⟩, fun h => ⟨h.oneLine, h.short⟩⟩

theorem EventText.append {n k : ℕ} {e piece : Bytes} (h : EventText n e) (hpiece : Piece k piece) :
    EventText (n + k) (e ++ piece) where
  oneLine := by
    rw [mem_append]
    exact not_or.mpr ⟨h.oneLine, hpiece.oneLine⟩
  other := by
    obtain ⟨hlong, hne⟩ := h.other
    rw [take_append_of_le_length hlong, length_append]
    exact ⟨by omega, hne⟩
  short := by
    rw [length_append]
    exact Nat.add_le_add h.short hpiece.short

variable {n k rows columns : ℕ} {e rest : Bytes} {b : UInt8}

theorem EventText.mono (h : EventText n e) (hle : n ≤ k) : EventText k e :=
  ⟨h.oneLine, h.other, h.short.trans hle⟩

/-- What follows the start of an event does not change what kind of event it is. -/
theorem EventText.of_start {start : Bytes} (h : EventText n start) (hrest : 0x0a ∉ rest)
    (hshort : (start ++ rest).length ≤ k) : EventText k (start ++ rest) :=
  ⟨(h.append ⟨hrest, le_rfl⟩).oneLine, (h.append ⟨hrest, le_rfl⟩).other, hshort⟩

theorem Piece.append {n k : ℕ} {e piece : Bytes} (h : Piece n e) (hpiece : Piece k piece) :
    Piece (n + k) (e ++ piece) where
  oneLine := by
    rw [mem_append]
    exact not_or.mpr ⟨h.oneLine, hpiece.oneLine⟩
  short := by
    rw [length_append]
    exact Nat.add_le_add h.short hpiece.short

theorem newline_notMem_dec (n : ℕ) : 0x0a ∉ dec n := by
  intro h
  have hdigit := between_of_mem_dec n _ h
  revert hdigit
  decide

theorem piece_dec (h : n < 2 ^ 64) : Piece 20 (dec n) :=
  ⟨newline_notMem_dec n, dec_length_le_u64 h⟩

theorem newline_notMem_decInt (z : ℤ) : 0x0a ∉ decInt z := by
  cases z with
  | ofNat n => exact newline_notMem_dec n
  | negSucc n =>
    rw [decInt, mem_cons]
    exact not_or.mpr ⟨by decide, newline_notMem_dec (n + 1)⟩

theorem piece_decInt {z : ℤ} (h : z.natAbs < 10 ^ 20) : Piece 21 (decInt z) :=
  ⟨newline_notMem_decInt z, decInt_length_le (by decide) h⟩

theorem piece_sizeText (hrows : rows < 2 ^ 64) (hcolumns : columns < 2 ^ 64) :
    Piece 55 (sizeText rows columns) :=
  ((((show Piece 6 (ascii " rows=") by decide).append (piece_dec hrows)).append
    (show Piece 9 (ascii " columns=") by decide)).append (piece_dec hcolumns))

theorem piece_flatMap {f : UInt8 → Bytes} (hf : ∀ b, Piece k (f b)) (data : Bytes) :
    Piece (data.length * k) (data.flatMap f) := by
  induction data with
  | nil => exact ⟨by simp, by simp⟩
  | cons b rest ih =>
    have h := (hf b).append ih
    rw [flatMap_cons, length_cons, Nat.succ_mul, Nat.add_comm]
    exact h

theorem newline_ne_hexDigit : ∀ n < 16, (0x0a : UInt8) ≠ hexDigit n := by decide

theorem piece_hexByte (b : UInt8) : Piece 2 (hexByte b) := by
  have hb := b.toNat_lt
  refine ⟨?_, le_rfl⟩
  simp only [hexByte, mem_cons, not_mem_nil, or_false, not_or]
  exact ⟨newline_ne_hexDigit _ (by omega), newline_ne_hexDigit _ (by omega)⟩

theorem newline_ne_printableEscape {e : UInt8} (h : printableEscape b = some e) : 0x0a ≠ e := by
  unfold printableEscape at h
  split_ifs at h
  all_goals
    obtain rfl := Option.some.inj h
    decide

theorem piece_inputEscape (b : UInt8) : Piece 4 (inputEscape b) := by
  unfold inputEscape
  split
  · rename_i e he
    exact ⟨by simp [newline_ne_printableEscape he], by simp⟩
  split_ifs with hplain
  · refine ⟨?_, by simp⟩
    rw [mem_singleton]
    rintro rfl
    exact absurd hplain.1 (by decide)
  · have h := (show Piece 2 [0x5c, 0x78] by decide).append (piece_hexByte b)
    exact h

/-- Relations that hold across the small steps of the controller. Where they are `strict` about
the texts of events, each of these is one line of bounded length. -/
structure Reporting (strict : Prop) (R : Shared → Shared → Prop) : Prop where
  trans {s s₁ s₂ : Shared} : R s s₁ → R s₁ s₂ → R s s₂
  quiet {s s' : Shared} : s'.journal = s.journal → s'.terminal.isSome = s.terminal.isSome → R s s'
  event (s : Shared) (e : Bytes) : (strict → EventText 640 e) → R s (s.event e)

namespace Reporting

variable {strict : Prop} {R : Shared → Shared → Prop} (h : Reporting strict R)
include h

theorem refl (s : Shared) : R s s := h.quiet rfl rfl

theorem tryTerminalDebug (s : Shared) (he : strict → EventText 640 e) :
    R s (s.tryTerminalDebug e).1 := by
  unfold Shared.tryTerminalDebug appendDebugEvent
  split
  · rename_i hif
    split_ifs at hif with hdebug
    · have hevent := h.event s e he
      rw [Shared.event, hif] at hevent
      exact hevent
    · obtain ⟨rfl, -⟩ := Prod.mk.inj hif
      exact h.refl s

/-- A name in the events of the library is one line, if it is written at all. -/
theorem libraryDebug (s : Shared) (eventName method : Bytes)
    (requestBytes : ℕ) (result : ℤ) (responseBytes : ℕ) (hname : 0x0a ∉ eventName)
    (hmethod : strict → s.journal.debug.library = true → 0x0a ∉ method) :
    R s (s.libraryDebug eventName method requestBytes result responseBytes) := by
  unfold Shared.libraryDebug
  dsimp only
  set name := if method = [] then ascii "(unknown)" else method with hdef
  split_ifs with hlong
  · exact h.refl s
  · unfold appendDebugEvent
    split_ifs with hdebug
    · refine h.event s _ fun hstrict => ?_
      have hline : 0x0a ∉ name := by
        rw [hdef]
        split_ifs
        · decide
        · exact hmethod hstrict hdebug
      have hstart : EventText 34 (ascii "type=debug category=library event=") := by decide
      simp only [append_assoc] at hlong ⊢
      refine hstart.of_start ?_ (by omega)
      simp only [mem_append, not_or]
      exact ⟨hname, by decide, hline, by decide, newline_notMem_dec _, by decide,
        newline_notMem_decInt _, by decide, newline_notMem_dec _⟩
    · exact h.refl s

theorem inputEvent (s : Shared) {source data : Bytes}
    (hsource : strict → Piece 10 source) (hdata : strict → data.length < 2 ^ 64) :
    R s (s.inputEvent source data) := by
  unfold Shared.inputEvent
  by_cases hdebug : s.journal.debug.input = true
  · rw [if_pos hdebug]
    dsimp only
    have hcut : Piece 15 (if 64 < data.length then ascii " truncated=true" else []) := by
      split_ifs
      · decide
      · decide
    generalize (if 64 < data.length then ascii " truncated=true" else []) = cut at hcut ⊢
    split
    · exact h.refl s
    · refine h.event s _ fun hstrict => ?_
      have hshown : (data.take 64).length ≤ 64 := length_take_le 64 data
      have hhex := piece_flatMap piece_hexByte (data.take 64)
      have hescaped := piece_flatMap piece_inputEscape (data.take 64)
      have htext := ((((((show EventText 18 (ascii "type=input length=") by decide).append
        (piece_dec (hdata hstrict))).append (show Piece 8 (ascii " source=") by decide)).append
        (hsource hstrict)).append (show Piece 10 (ascii " data_hex=") by decide)).append
        hhex).append (show Piece 14 (ascii " data_escaped=") by decide)
      exact ((htext.append hescaped).append hcut).mono (by omega)
  · rw [if_neg hdebug]
    refine h.event s _ fun hstrict => ?_
    exact ((show EventText 18 (ascii "type=input length=") by decide).append
      (piece_dec (hdata hstrict))).mono (by decide)

theorem openLog (s : Shared) : R s (openLog s).2 := h.quiet rfl rfl

theorem readLog (s : Shared) : R s (readLog s).2 := h.quiet rfl rfl

theorem writeStdin (s : Shared) (data : Bytes) :
    R s (writeStdin s data).1 := by
  unfold Controller.writeStdin
  split
  · exact h.quiet rfl rfl
  · exact h.refl s

theorem killGroup (s : Shared) (signal : ℤ) :
    R s (killGroup s signal).1 := by
  unfold Controller.killGroup
  generalize nextAnswer s.system.kills = next
  obtain ⟨answer, rest⟩ := next
  cases answer with
  | none => exact h.quiet rfl rfl
  | some errno => exact h.quiet rfl rfl

theorem setWindowSize (s : Shared) (rows columns : ℕ) :
    R s (setWindowSize s rows columns).1 := by
  unfold Controller.setWindowSize
  generalize nextAnswer s.system.ioctls = next
  obtain ⟨answer, rest⟩ := next
  cases answer with
  | none => exact h.quiet rfl rfl
  | some errno => exact h.quiet rfl rfl

end Reporting

variable {R : Shared → Shared → Prop} {s : Shared}

/-- What holds after one call holds when its result decides between two ways to go on. -/
theorem related_match {β : Type} (proj : β → Shared) {call : Shared × Option Int32}
    {f : Shared → Int32 → β} {g : Shared → β} :
    R s call.1 → (∀ s' errno, R s s' → R s (proj (f s' errno))) →
      (∀ s', R s s' → R s (proj (g s'))) →
      R s (proj (match call with
        | (s, some errno) => f s errno
        | (s, none) => g s)) := by
  intro h hf hg
  obtain ⟨s', error⟩ := call
  cases error with
  | none => exact hg s' h
  | some errno => exact hf s' errno h

theorem related_matchLog {β : Type} (proj : β → Shared) {call : Option Int32 × Shared}
    {f : Shared → Int32 → β} {g : Shared → β} :
    R s call.2 → (∀ s' errno, R s s' → R s (proj (f s' errno))) →
      (∀ s', R s s' → R s (proj (g s'))) →
      R s (proj (match call with
        | (some errno, s) => f s errno
        | (none, s) => g s)) := by
  intro h hf hg
  obtain ⟨error, s'⟩ := call
  cases error with
  | none => exact hg s' h
  | some errno => exact hf s' errno h

namespace Reporting

variable {strict : Prop} {R : Shared → Shared → Prop} (h : Reporting strict R)
include h

theorem setWindowSizes (p : Process) (s : Shared) (rows columns : ℕ) :
    R s (setWindowSizes p s rows columns).1 := by
  refine related_match Prod.fst (h.setWindowSize s rows columns) (fun _ _ hs => hs) fun s' hs => ?_
  split
  · exact h.trans hs (h.setWindowSize s' rows columns)
  · exact hs

theorem resizeTerminalModel (s : Shared) (rows columns : ℕ) :
    R s (resizeTerminalModel s rows columns).1 := by
  unfold Controller.resizeTerminalModel
  cases hterminal : s.terminal with
  | none => exact h.refl s
  | some terminal =>
    dsimp only
    split
    · exact h.quiet rfl (by simp [hterminal])
    · exact h.refl s

theorem reportResize (s : Shared) {event debugEvent : Bytes}
    (hevent : strict → EventText 640 event) (hdebug : strict → EventText 640 debugEvent) :
    R s (reportResize s event debugEvent).1 :=
  related_match Prod.fst (h.event s event hevent) (fun _ _ hs => hs)
    fun s' hs => h.trans hs (h.tryTerminalDebug s' hdebug)

theorem applyResize (p : Process) (s : Shared) (hrows : rows < 2 ^ 64)
    (hcolumns : columns < 2 ^ 64) : R s (applyResize p s rows columns).1 := by
  have hsize := piece_sizeText hrows hcolumns
  have hreason : Piece 17 (ascii " reason=unchanged") := by decide
  unfold Controller.applyResize
  split
  · refine h.reportResize s (fun _ => ?_) fun _ => ?_
    · exact (((show EventText 28 (ascii "type=terminal_resize_skipped") by decide).append
        hsize).append hreason).mono (by decide)
    · exact (((show EventText 60
        (ascii "type=debug category=terminal event=api_resize action=skipped")
        by decide).append hsize).append hreason).mono (by decide)
  · refine related_match Prod.fst (h.setWindowSizes p s rows columns) (fun _ _ hs => hs)
      fun s₁ h₁ => ?_
    refine related_match Prod.fst (h.trans h₁ (h.resizeTerminalModel s₁ rows columns))
      (fun _ _ hs => hs) fun s₂ h₂ => ?_
    have hknown : R s { s₂ with size := s₂.size.map fun _ => ⟨rows, columns, true⟩ } :=
      h.trans h₂ (h.quiet rfl rfl)
    refine h.trans hknown (h.reportResize _ (fun _ => ?_) fun _ => ?_)
    · exact ((show EventText 21 (ascii "type=terminal_resized") by decide).append hsize).mono
        (by decide)
    · exact ((show EventText 60
        (ascii "type=debug category=terminal event=api_resize action=applied")
        by decide).append hsize).mono (by decide)

theorem readStreamJson (p : Process) (s : Shared) (stream : Bytes)
    (offset length : ℕ) : R s (readStreamJson p s stream offset length).1 := by
  unfold Controller.readStreamJson
  split
  · exact h.refl s
  split
  · exact h.refl s
  · dsimp only
    split
    · exact h.refl s
    · exact related_matchLog Prod.fst (h.openLog s) (fun _ _ hs => hs) fun s' hs =>
        related_matchLog Prod.fst (h.trans hs (h.readLog s')) (fun _ _ hs => hs) fun _ hs => hs

variable {channels : ℕ} {mode : Bytes} {c : ControlClient}

theorem activateAttachment (s : Shared) (hchannels : channels < 2 ^ 64)
    (hmode : Piece 32 mode) : R s (activateAttachment s channels mode).1 := by
  unfold Controller.activateAttachment
  split
  · dsimp only
    have hactive : R s { s with attachmentActive := true } := h.quiet rfl rfl
    refine h.trans (h.trans hactive (h.event _ _ fun _ => by decide))
      (h.tryTerminalDebug _ fun _ => ?_)
    exact ((((show EventText 75
      (ascii "type=debug category=terminal event=attachment_active active=true channels=")
      by decide).append (piece_dec hchannels)).append
      (show Piece 6 (ascii " mode=") by decide)).append hmode).mono (by decide)
  · exact h.refl s

theorem attachEvents (s : Shared) (channels : ℕ) :
    R s (attachEvents s channels) := by
  have hreport : ∀ (s : Shared) (channel : ℕ) (e : Bytes), EventText 640 e →
      R s (if hasChannel channels channel then s.event e else s) := by
    intro s channel e he
    split
    · exact h.event s e fun _ => he
    · exact h.refl s
  exact h.trans (h.trans (h.trans (hreport s _ _ (by decide)) (hreport _ _ _ (by decide)))
    (hreport _ _ _ (by decide))) (hreport _ _ _ (by decide))

omit h in
theorem attachRequest_bounds {params : Members} (h : attachRequest params = some (channels, mode)) :
    channels < 16 ∧ Piece 32 mode := by
  unfold attachRequest at h
  simp only [Option.bind_eq_bind, Option.bind_eq_some_iff] at h
  obtain ⟨token, -, channels', -, mode', -, hrest⟩ := h
  split_ifs at hrest with hvalid
  obtain ⟨-, -, hall, hmode⟩ := hvalid
  obtain ⟨rfl, rfl⟩ : channels' = channels ∧ mode' = mode := by simpa using hrest
  constructor
  · rw [← hall]
    exact Nat.lt_succ_of_le Nat.and_le_right
  · rcases hmode with rfl | rfl
    · decide
    · decide

theorem handle (p : Process) (s : Shared) (params : Members)
    (method : ApiMethod) : R s (method.handle p s params).1 := by
  cases method with
  | status => exact h.refl s
  | read =>
    unfold ApiMethod.handle controllerRead
    dsimp only
    split
    · rename_i stream offset length _ _ _
      have hread := h.readStreamJson p s stream offset length
      generalize Controller.readStreamJson p s stream offset length = result at hread ⊢
      obtain ⟨s', page⟩ := result
      cases page with
      | ok page => exact hread
      | error errno => exact hread
    · exact h.refl s
  | snapshot =>
    unfold ApiMethod.handle controllerSnapshot
    dsimp only
    repeat' split
    all_goals exact h.refl s
  | write =>
    unfold ApiMethod.handle controllerWrite
    dsimp only
    split
    · exact h.refl s
    · split
      · rename_i data _ hdata
        have hbound := (Manager.getRequiredString_bounds hdata).1
        exact related_match Prod.fst (h.writeStdin s data) (fun _ _ hs => hs)
          fun s' hs => h.trans hs (h.inputEvent s' (fun _ => by decide) fun _ => by omega)
      · exact h.refl s
  | closeInput =>
    unfold ApiMethod.handle controllerCloseInput
    dsimp only
    split
    · exact h.refl s
    split
    · have hclosed : R s { s with stdin := { s.stdin with isOpen := false } } := h.quiet rfl rfl
      exact h.trans hclosed (h.event _ _ fun _ => by decide)
    · exact h.refl s
  | resize =>
    unfold ApiMethod.handle controllerResize
    dsimp only
    split
    · exact h.refl s
    · split
      · rename_i rows columns _ _ _
        split
        · rename_i hvalid
          simp only [validDimension, Bool.and_eq_true, decide_eq_true_eq] at hvalid
          exact related_match Prod.fst (h.applyResize p s (by omega) (by omega))
            (fun _ _ hs => hs) fun _ hs => hs
        · exact h.refl s
      · exact h.refl s
  | attach =>
    unfold ApiMethod.handle controllerAttach
    dsimp only
    split
    · exact h.refl s
    · rename_i channels mode hrequest
      obtain ⟨hchannels, hmode⟩ := attachRequest_bounds hrequest
      have hle := acceptedChannels_le p s channels mode
      split
      · exact h.refl s
      · exact related_match Prod.fst
          (h.trans (h.attachEvents s _) (h.activateAttachment _ (by omega) hmode))
          (fun _ _ hs => hs) fun _ hs => hs
  | detach =>
    unfold ApiMethod.handle controllerDetach
    have hinactive : R s { s with attachmentActive := false } := h.quiet rfl rfl
    exact h.trans (h.trans hinactive (h.event _ _ fun _ => by decide))
      (h.tryTerminalDebug _ fun _ => by decide)
  | signal =>
    unfold ApiMethod.handle controllerSignal
    dsimp only
    split
    · split
      · exact h.refl s
      · exact related_match Prod.fst (h.killGroup s _) (fun _ _ hs => hs) fun _ hs => hs
    · exact h.refl s
  | terminate =>
    unfold ApiMethod.handle controllerTerminate
    dsimp only
    split
    · exact h.refl s
    · exact related_match Prod.fst (h.killGroup s _) (fun _ _ hs => hs) fun _ hs => hs
  | eventsAfter =>
    unfold ApiMethod.handle controllerEventsAfter
    dsimp only
    split
    · split
      · exact h.refl s
      · split
        · exact h.openLog s
        · exact h.openLog s
    · exact h.refl s

/-- Every method of the API. -/
theorem handleMethod (p : Process) (s : Shared)
    (envelope : RequestEnvelope) : R s (handleMethod p s envelope).1 := by
  unfold Controller.handleMethod
  split
  · exact h.handle p s _ _
  · exact h.refl s

theorem respondBody (c : ControlClient) (s : Shared)
    (header body : Bytes) : R s (respondBody c s header body).shared := by
  unfold Controller.respondBody
  split
  · exact h.refl s
  · split
    · exact h.refl s
    · exact h.refl s

theorem respondFile (c : ControlClient) (s : Shared)
    (header body : Bytes) : R s (respondFile c s header body).shared :=
  related_matchLog Handled.shared (h.readLog s) (fun _ _ hs => hs)
    fun s' hs => h.trans hs (h.respondBody c s' header body)

theorem sendAttachCatchup (p : Process) (c : ControlClient) (s : Shared)
    (stream : Bytes) (which : Stream) (start : ℤ) :
    R s (Sum.elim Handled.shared Handled.shared (sendAttachCatchup p c s stream which start)) := by
  unfold Controller.sendAttachCatchup
  dsimp only
  split
  · exact h.refl s
  split
  · exact h.refl s
  split
  · exact h.refl s
  · refine related_matchLog (Sum.elim Handled.shared Handled.shared) (h.openLog s)
      (fun _ _ hs => hs) fun s₁ h₁ => ?_
    exact related_matchLog (Sum.elim Handled.shared Handled.shared) (h.trans h₁ (h.readLog s₁))
      (fun _ _ hs => hs) fun _ hs => hs

theorem attachStream (p : Process) (c : ControlClient) (s : Shared)
    (stream : Bytes) (start : ℤ) : R s (attachStream p c s stream start).shared := by
  unfold Controller.attachStream
  split
  · exact h.refl s
  · rename_i which _
    have hcatchup := h.sendAttachCatchup p c s stream which start
    split
    · rename_i heq
      rw [heq] at hcatchup
      exact hcatchup
    · rename_i heq
      rw [heq] at hcatchup
      exact hcatchup
    · rename_i heq
      rw [heq] at hcatchup
      refine h.trans hcatchup (h.event _ _ fun _ => ?_)
      cases which with
      | stdout => decide
      | stderr => decide

theorem resizeLine (p : Process) (c : ControlClient) (s : Shared)
    (hrows : rows < 2 ^ 64) (hcolumns : columns < 2 ^ 64) :
    R s (resizeLine p c s rows columns).shared := by
  unfold Controller.resizeLine
  dsimp only
  split
  · exact h.refl s
  split
  · exact h.refl s
  · refine related_match Handled.shared (h.setWindowSizes p s _ _) (fun _ _ hs => hs)
      fun s₁ h₁ => ?_
    refine related_match Handled.shared (h.trans h₁ (h.resizeTerminalModel s₁ rows columns))
      (fun _ _ hs => hs) fun s₂ h₂ => ?_
    have hknown : R s { s₂ with
        size := s₂.size.map fun _ => ⟨rows % 2 ^ 16, columns % 2 ^ 16, true⟩ } :=
      h.trans h₂ (h.quiet rfl rfl)
    refine h.trans hknown (h.event _ _ fun _ => ?_)
    exact ((show EventText 21 (ascii "type=terminal_resized") by decide).append
      (piece_sizeText hrows hcolumns)).mono (by decide)

theorem deliverSignal (c : ControlClient) (s : Shared) {signal : ℤ}
    (hsignal : signal.natAbs < 10 ^ 20) : R s (deliverSignal c s signal).shared := by
  refine related_match Handled.shared (h.killGroup s signal) (fun _ _ hs => hs) fun s' hs => ?_
  refine h.trans hs (h.event _ _ fun _ => ?_)
  exact ((show EventText 29 (ascii "type=signal_delivered signal=") by decide).append
    (piece_decInt hsignal)).mono (by decide)

omit h in
theorem resize_bounds {line : Bytes} {rows columns : ℕ}
    (h : LineCommand.ofLine line = .resize (some (rows, columns))) :
    rows < 2 ^ 64 ∧ columns < 2 ^ 64 := by
  have hscan : ∀ {text : Bytes} {n : ℕ} {rest : Bytes},
      scanUnsigned text = some (n, rest) → n < 2 ^ 64 := by
    intro text n rest hn
    unfold scanUnsigned at hn
    obtain ⟨⟨negative, digits, rest'⟩, -, hvalue⟩ := Option.map_eq_some_iff.mp hn
    rw [← (Prod.mk.inj hvalue).1]
    omega
  have harguments : scanTwoUnsigned (line.drop 7) = some (rows, columns) := by
    unfold LineCommand.ofLine at h
    split_ifs at h
    simpa using h
  unfold scanTwoUnsigned at harguments
  simp only [Option.bind_eq_bind, Option.bind_eq_some_iff] at harguments
  obtain ⟨⟨a, rest⟩, ha, ⟨b, rest'⟩, hb, hpair⟩ := harguments
  obtain ⟨rfl, rfl⟩ : a = rows ∧ b = columns := by simpa using hpair
  exact ⟨hscan ha, hscan hb⟩

/-- Every command of the line protocol. -/
theorem lineCommand (p : Process) (c : ControlClient) (s : Shared)
    {command : LineCommand} (hresize : ∀ rows columns, command = .resize (some (rows, columns)) →
      rows < 2 ^ 64 ∧ columns < 2 ^ 64) : R s (command.handle p c s).shared := by
  unfold LineCommand.handle
  split
  · exact h.refl s
  · unfold writeFileResponse
    split
    · rename_i s' file hopened _
      have hopen := h.openLog s
      rw [hopened] at hopen
      split
      · exact hopen
      · exact h.trans hopen (h.respondFile c s' _ _)
    · rename_i hopened _
      have hopen := h.openLog s
      rw [hopened] at hopen
      exact hopen
  · unfold writeEventsAfterResponse
    split
    · exact h.refl s
    · exact related_matchLog Handled.shared (h.openLog s) (fun _ _ hs => hs)
        fun s' hs => h.trans hs (h.respondBody c s' _ _)
  · exact h.refl s
  · unfold readStreamRange
    split
    · exact h.refl s
    split
    · exact h.refl s
    · dsimp only
      split
      · exact h.refl s
      · exact related_matchLog Handled.shared (h.openLog s) (fun _ _ hs => hs)
          fun s' hs => h.trans hs (h.respondFile c s' _ _)
  · exact h.refl s
  · unfold attachStdin
    repeat' split
    all_goals exact h.refl s
  · split
    · exact h.refl s
    split
    · split
      · obtain ⟨hrows, hcolumns⟩ := hresize _ _ rfl
        exact h.resizeLine p c s hrows hcolumns
      · exact h.refl s
    · exact h.refl s
  · split
    · exact h.refl s
    split
    · exact h.attachStream p c s _ _
    · exact h.refl s
  · split
    · exact h.refl s
    · exact h.deliverSignal c s (by decide)
  · split
    · exact h.refl s
    split
    · split
      · exact h.refl s
      · rename_i n hn
        rw [maxSignalNumber] at hn
        exact h.deliverSignal c s (by omega)
    · exact h.refl s
  · exact h.refl s

theorem closeControlClient (c : ControlClient) (s : Shared) :
    R s (closeControlClient c s).2 := by
  unfold Controller.closeControlClient
  dsimp only
  split
  · exact h.event s _ fun _ => by decide
  · exact h.event s _ fun _ => by decide
  · exact h.event s _ fun _ => by decide
  · exact h.refl s

omit h in
theorem newline_notMem_controlRequestName {line : Bytes} (h : 0x0a ∉ line) :
    0x0a ∉ controlRequestName line := by
  unfold controlRequestName
  dsimp only
  split
  · decide
  · intro hmem
    exact h (takeWhile_subset _ (mem_of_mem_take hmem))

theorem finishControlRequest (p : Process) (s : Shared)
    (hline : strict → 0x0a ∉ c.request) : R s (finishControlRequest p c s).2 := by
  have hname : strict → 0x0a ∉ controlRequestName (cstr (lineRequest c)) := by
    intro hstrict
    refine newline_notMem_controlRequestName fun hmem => hline hstrict ?_
    have hmem' := (cstr_prefix_self _).subset hmem
    unfold lineRequest at hmem'
    split_ifs at hmem'
    · exact mem_of_mem_dropLast hmem'
    · exact hmem'
  unfold Controller.finishControlRequest dispatchControlRequest
  dsimp only
  have hcontrol : 0x0a ∉ ascii "control_response" := by decide
  have hcommand := h.lineCommand p { c with request := lineRequest c } s
    fun rows columns => @resize_bounds (cstr (lineRequest c)) rows columns
  generalize (LineCommand.ofLine (cstr (lineRequest c))).handle p
    { c with request := lineRequest c } s = answer at hcommand ⊢
  have hreported := h.trans hcommand (h.libraryDebug answer.shared (ascii "control_response")
    (controlRequestName (cstr (lineRequest c))) answer.client.request.length
    (if answer.ok then 0 else -1) answer.client.response.length hcontrol
    fun hstrict _ => hname hstrict)
  generalize answer.shared.libraryDebug _ _ _ _ _ = reported at hreported ⊢
  split
  · exact hreported
  · exact h.trans hreported (h.closeControlClient _ _)

omit h in
theorem appendEvent_debug (j : Journal) (e : Bytes) : (appendEvent j e).1.debug = j.debug := by
  unfold appendEvent
  dsimp only
  split
  · rfl
  · rfl

omit h in
/-- Nothing the controller does changes what is debugged. -/
theorem sameDebug : Reporting False fun s s' => s'.journal.debug = s.journal.debug where
  trans := fun h h' => h'.trans h
  quiet := fun hjournal _ => by rw [hjournal]
  event := fun s e _ => appendEvent_debug s.journal e

omit h in
theorem dispatchApiRequest (h : Reporting strict R) (p : Process) (s : Shared)
    (hmethod : strict → s.journal.debug.library = true → ∀ envelope,
      decodeRequest c.request = some envelope → 0x0a ∉ envelope.method) :
    R s (dispatchApiRequest p c s).2.1 := by
  have hresponse : 0x0a ∉ ascii "api_response" := by decide
  unfold Controller.dispatchApiRequest
  split
  · dsimp only
    generalize enqueueApiError c _ _ _ _ _ = queued
    exact h.libraryDebug s _ _ _ _ _ hresponse fun _ _ => by decide
  · rename_i envelope hdecoded
    have hhandled := h.handleMethod p s envelope
    have hsame := sameDebug.handleMethod p s envelope
    generalize Controller.handleMethod p s envelope = answer at hhandled hsame ⊢
    obtain ⟨s', reply⟩ := answer
    dsimp only
    generalize enqueueReply c envelope.requestId reply = queued
    refine h.trans hhandled (h.libraryDebug s' _ _ _ _ _ hresponse fun hstrict hdebug => ?_)
    rw [hsame] at hdebug
    exact hmethod hstrict hdebug envelope hdecoded

end Reporting

/-- A framed request among these bytes names its method on one line. -/
def OneLineMethod (bytes : Bytes) : Prop :=
  ∀ payload envelope, frameOf bytes = some payload → decodeRequest payload = some envelope →
    0x0a ∉ envelope.method

namespace Reporting

variable {strict : Prop} {R : Shared → Shared → Prop} (h : Reporting strict R)
include h

variable {c : ControlClient}

theorem byteCase {p : Process} {d : ControlClient} {s' : Shared}
    {ok : Bool} (hc : Reading c) (hcase : ByteCase p s c b (.stop d s' ok))
    (hmethod : strict → s.journal.debug.library = true → OneLineMethod (c.request ++ b :: rest)) :
    R s s' := by
  cases hcase with
  | @frame payload complete r dispatched =>
    rw [dispatched]
    refine h.dispatchApiRequest p s fun hstrict hdebug envelope hdecoded => ?_
    refine hmethod hstrict hdebug payload envelope ?_ hdecoded
    simpa using frameOf_append complete rest
  | line unframed newline dispatched noFrame =>
    rw [dispatched]
    exact h.finishControlRequest p s fun _ => (hc.line unframed).2.2.2
  | rejected gone noFrame => exact h.refl s

theorem readEnd (p : Process) (hc : Reading c) (s : Shared) :
    R s (readEnd p c s).2 := by
  unfold Controller.readEnd
  split_ifs with hframed
  · exact h.closeControlClient c s
  · rw [not_or, Bool.not_eq_true] at hframed
    exact h.finishControlRequest p s fun _ => (hc.line hframed.1).2.2.2

/-- Whatever comes on a connection. -/
theorem readControlClientRequest (p : Process) (hc : Reading c)
    (s : Shared) (incoming : List Incoming)
    (hmethod : strict → s.journal.debug.library = true →
      OneLineMethod (c.request ++ received incoming)) :
    R s (readControlClientRequest p c s incoming).shared := by
  induction incoming generalizing c with
  | nil => exact h.refl s
  | cons answer rest ih =>
    cases answer with
    | data b t =>
      simp only [Controller.readControlClientRequest, received] at hmethod ⊢
      cases hread : readBytes p { c with lastActivityMs := s.system.now } s (b :: t) with
      | more d =>
        obtain ⟨hd, hreq, -⟩ := readBytes_more (hc.touch _) hread
        refine ih hd ?_
        rw [hreq, append_assoc]
        exact hmethod
      | stop d s' ok =>
        obtain ⟨before, x, after, e, hbytes, he, hreq, -, hcase⟩ :=
          readBytes_stop (hc.touch _) hread
        have hall : c.request ++ (b :: t ++ received rest) =
            e.request ++ x :: (after ++ received rest) := by
          rw [hreq, hbytes]
          simp
        rw [hall] at hmethod
        exact h.byteCase he hcase hmethod
    | interrupted => exact ih hc hmethod
    | failed => exact h.closeControlClient c s
    | closed => exact h.readEnd p hc s

theorem foldl {α : Type} (f : Shared → α → Shared)
    (hf : ∀ s a, R s (f s a)) (items : List α) (s : Shared) : R s (items.foldl f s) := by
  induction items generalizing s with
  | nil => exact h.refl s
  | cons a rest ih => exact h.trans (hf s a) (ih (f s a))

theorem broadcastTo (c : ControlClient) (s : Shared) (stream : Stream)
    (data : Bytes) : R s (broadcastTo c s stream data).2 := by
  unfold Controller.broadcastTo
  split
  · split
    · exact h.refl s
    · exact h.closeControlClient _ s
  · exact h.refl s

theorem forwardAttachedStdin (c : ControlClient) (s : Shared)
    (incoming : List Incoming)
    (hdata : strict → ∀ b t, .data b t ∈ incoming → (b :: t).length < 2 ^ 64) :
    R s (forwardAttachedStdin c s incoming).2.1 := by
  induction incoming generalizing s with
  | nil => exact h.refl s
  | cons answer rest ih =>
    have hrest : strict → ∀ b t, .data b t ∈ rest → (b :: t).length < 2 ^ 64 :=
      fun hstrict b t hmem => hdata hstrict b t (mem_cons_of_mem _ hmem)
    cases answer with
    | data b t =>
      refine related_match (fun r : ControlClient × Shared × List Incoming => r.2.1)
        (h.writeStdin s (b :: t)) (fun s' _ hs => h.trans hs (h.closeControlClient c s'))
        fun s' hs => h.trans (h.trans hs ?_) (ih _ hrest)
      exact h.inputEvent s' (fun _ => by decide)
        fun hstrict => hdata hstrict b t mem_cons_self
    | interrupted => exact ih s hrest
    | failed => exact h.closeControlClient c s
    | closed => exact h.closeControlClient c s

theorem flushControlClientResponse (c : ControlClient) (s : Shared)
    (answers : List Answer) : R s (flushControlClientResponse c s answers).shared := by
  unfold Controller.flushControlClientResponse
  dsimp only
  split
  · split
    · exact h.refl s
    · exact h.closeControlClient _ s
  · unfold flushed
    dsimp only
    split
    · split
      · exact h.refl s
      · exact h.closeControlClient _ s
    · exact h.event s _ fun _ => by decide
    · exact h.refl s

/-- The names of terminal queries are short words, and the responses to them are short. -/
def PlainResponses (responses : List (Bytes × Bytes)) : Prop :=
  ∀ r ∈ responses, Piece 64 r.1 ∧ r.2.length < 2 ^ 64

theorem writeTerminalResponse (s : Shared) {name response : Bytes}
    (hplain : strict → Piece 64 name ∧ response.length < 2 ^ 64) :
    R s (writeTerminalResponse s name response).1 := by
  unfold Controller.writeTerminalResponse
  dsimp only
  have hwritten := h.writeStdin s response
  split
  · exact hwritten
  have hreported := h.trans hwritten (h.event (Controller.writeStdin s response).1
    (ascii "type=terminal_response query=" ++ name ++ ascii " length=" ++ dec response.length)
    fun hstrict => ((((show EventText 29 (ascii "type=terminal_response query=") by decide).append
      (hplain hstrict).1).append (show Piece 8 (ascii " length=") by decide)).append
      (piece_dec (hplain hstrict).2)).mono (by decide))
  split
  · exact hreported
  · refine h.trans hreported (h.tryTerminalDebug _ fun hstrict => ?_)
    have hactive : Piece 5 (boolText s.attachmentActive) := by
      cases s.attachmentActive
      · decide
      · decide
    exact ((((((show EventText 47 (ascii "type=debug category=terminal event=query query=")
      by decide).append (hplain hstrict).1).append
      (show Piece 33 (ascii " action=answered response_length=") by decide)).append
      (piece_dec (hplain hstrict).2)).append
      (show Piece 19 (ascii " attachment_active=") by decide)).append hactive).mono (by decide)

theorem writeTerminalResponses (s : Shared)
    {responses : List (Bytes × Bytes)} (hplain : strict → PlainResponses responses) :
    R s (writeTerminalResponses s responses).1 := by
  induction responses generalizing s with
  | nil => exact h.refl s
  | cons response rest ih =>
    obtain ⟨name, response⟩ := response
    have hrest : strict → PlainResponses rest :=
      fun hstrict r hr => hplain hstrict r (mem_cons_of_mem _ hr)
    exact related_match Prod.fst
      (h.writeTerminalResponse s fun hstrict => hplain hstrict _ mem_cons_self)
      (fun _ _ hs => hs) fun s' hs => h.trans hs (ih s' hrest)

/-- Output that is shown to the terminal model, with the answers to its queries. -/
theorem feedTerminal (s : Shared) (stream : Stream) {start length : ℕ}
    {reaction : TerminalReaction} (hend : strict → start + length < 2 ^ 64)
    (hresponses : strict → PlainResponses reaction.responses)
    (hqueries : strict → PlainResponses reaction.queries) :
    R s (feedTerminal s stream start length reaction).1 := by
  unfold Controller.feedTerminal
  split
  · rename_i terminal hterminal
    dsimp only
    have hscreen : R s { s with
        terminal := some { terminal with toScreen := s.system.screens.headD terminal.toScreen }
        system := { s.system with screens := s.system.screens.tail } } :=
      h.quiet rfl (by simp [hterminal])
    refine related_match Prod.fst (h.trans hscreen (h.writeTerminalResponses _ hresponses))
      (fun _ _ hs => hs) fun s₁ h₁ => ?_
    refine related_match Prod.fst (h.trans h₁ (h.tryTerminalDebug s₁ fun hstrict => ?_))
      (fun _ _ hs => hs) fun s₂ h₂ => h.trans h₂ (h.writeTerminalResponses s₂ hqueries)
    have hbound := hend hstrict
    exact ((((((show EventText 71
      (ascii "type=debug category=terminal event=model_feed stream=stdout start=")
      by decide).append (piece_dec (by omega))).append (show Piece 8 (ascii " length=")
      by decide)).append (piece_dec (by omega))).append (show Piece 8 (ascii " offset=")
      by decide)).append (piece_dec hbound)).mono (by decide)
  · exact h.refl s

end Reporting

namespace World

variable {strict : Prop} {R : Shared → Shared → Prop}

theorem related_mapClients (h : Reporting strict R) (w : World)
    (f : ControlClient → Shared → ControlClient × Shared)
    (hwf : ∀ c s, (c.kind = .reading → Reading c) → (f c s).1.kind = .reading →
      Reading (f c s).1)
    (hf : ∀ c s, R s (f c s).2) : R w.shared (w.mapClients f hwf).shared :=
  h.foldl _ (fun s i => hf (w.clients i) s) _ w.shared

theorem related_broadcast (h : Reporting strict R) (w : World) (stream : Stream) (data : Bytes) :
    R w.shared (w.broadcast stream data).shared :=
  related_mapClients h w _ _ fun c s => h.broadcastTo c s stream data

/-- What a step may find when the texts of its events matter: methods and the names of queries
are on one line, and nothing is longer than memory. -/
def PlainStep (w : World) : Action → Prop
  | .read i incoming =>
    w.shared.journal.debug.library = true → OneLineMethod (w.requestBytes i incoming)
  | .forward _ incoming => ∀ b t, .data b t ∈ incoming → (b :: t).length < 2 ^ 64
  | .output _ _ reaction =>
    Reporting.PlainResponses reaction.responses ∧ Reporting.PlainResponses reaction.queries
  | _ => True

/-- A relation that holds across what the surroundings do and across reports of output holds
across every step. -/
theorem related_step (h : Reporting strict R) {w : World} {a : Action}
    (hplain : strict → w.PlainStep a)
    (hsurroundings : ∀ shared, a = .surroundings shared → R w.shared shared)
    (houtput : ∀ stream data reaction, a = .output stream data reaction →
      ∀ s start length, R s (s.event (outputEvent stream start length))) :
    R w.shared (w.step a).shared := by
  unfold step
  split
  swap
  · exact h.refl _
  cases a with
  | accept =>
    simp only [accept]
    split
    · exact h.refl _
    · exact h.refl _
  | reapIdle =>
    refine related_mapClients h w _ _ fun c s => ?_
    split
    · exact h.closeControlClient c s
    · exact h.refl s
  | read i incoming =>
    simp only [read]
    split
    · rename_i hkind
      have heffect := h.readControlClientRequest w.process (w.wf i hkind) w.shared incoming hplain
      split
      · exact heffect
      · exact heffect
    · exact h.refl _
  | flush i answers =>
    simp only [flush]
    split
    · exact h.flushControlClientResponse _ _ _
    · exact h.refl _
  | forward i incoming =>
    simp only [forward]
    split
    · exact h.forwardAttachedStdin _ _ _ hplain
    · exact h.refl _
  | hangup i =>
    simp only [hangup]
    split
    · exact h.closeControlClient _ _
    · exact h.refl _
  | output stream data reaction =>
    simp only [output]
    split
    · rename_i hfits
      have hrecorded : R w.shared (recordOutput w.shared stream (w.process.log stream).bytes.length
          data.length reaction).1 := by
        refine related_match Prod.fst (h.feedTerminal w.shared stream (fun _ => ?_)
          (fun hstrict => (hplain hstrict).1) fun hstrict => (hplain hstrict).2)
          (fun _ _ hs => hs) fun s' hs => h.trans hs (houtput stream data reaction rfl s' _ _)
        rw [length_append] at hfits
        omega
      split
      · exact h.trans hrecorded (related_broadcast h { w with
          process := w.process.setLog stream ⟨_, hfits⟩
          shared := (recordOutput w.shared stream (w.process.log stream).bytes.length
            data.length reaction).1 } stream data)
      · exact hrecorded
    · exact h.refl _
  | complete result =>
    exact h.trans (related_mapClients h w Controller.closeControlClient
      (fun _ _ _ hk => wf_init rfl hk) fun c s => h.closeControlClient c s) (h.quiet rfl rfl)
  | surroundings shared => exact hsurroundings shared rfl
  | abort => exact h.refl _

end World
end Cubicle.Controller
