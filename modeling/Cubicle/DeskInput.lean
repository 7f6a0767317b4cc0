import Cubicle.DeskSequences

/-!
# Keyboard input of desk

Desk scans each read of its standard input. Bytes that mean nothing to it are held back and handed
to the process of the active pane when something else is recognised or the read ends; what a
command, a macro or the mouse then does can be anything, and is a parameter. The result is about
the order of the two: bytes typed before a bound key reach the pane that was active when they were
typed, before the key does anything, if the key comes after the prefix, and not otherwise.
-/

namespace Cubicle.Desk
open ByteText CStrings List

/-- The part of a session that decides what input means. The hidden part is what else there is. -/
structure Session (σ : Type) where
  activePane : ℕ
  prefixPending : Bool
  scrollMode : Bool
  moveMode : Bool
  resizeMode : Bool
  mouseTitles : Bool
  prefixSequence : Bytes
  prefixShort : prefixSequence.length ≤ keySequenceMax
  bindings : List Binding
  macros : List Macro
  hidden : σ

/-- What is recognised at a position of the input. -/
inductive Recognised
  | incompleteMouse
  | mouse (report : MouseReport) (length : ℕ)
  | response (length : ℕ)
  | prefixedMacro (m : Macro) (length : ℕ)
  | prefixedBinding (command : Bytes) (length : ℕ)
  | prefixedMore
  | prefixedOther
  | scrollMore
  | scroll (command : Option Bytes) (length : ℕ)
  | prefixKey (length : ℕ)
  | directMacro (m : Macro) (length : ℕ)
  | directBinding (command : Bytes) (length : ℕ)
  | directMore
  | moveArrow (arrow : Arrow)
  | moveEnd
  | moveOther
  | resizeEnd
  | resizeCommand (command : Bytes)
  | resizeArrow (arrow : Arrow) (shifted : Bool) (length : ℕ)
  | resizeEscape
  | arrow (arrow : Arrow)
  | ordinary

section Recognition
variable {σ : Type} (desk : Session σ)

/-- The tests of `desk_handle_prefixed_sequence`. -/
def recognisePrefixed (rest : Bytes) : Recognised :=
  match findDefaultMacroBinding desk.macros rest with
  | some m => .prefixedMacro m 1
  | none =>
    match findCustomMacroBinding desk.macros true rest with
    | some (m, length) => .prefixedMacro m length
    | none =>
      match findKeyBinding desk.bindings true rest with
      | some binding => .prefixedBinding binding.command binding.sequence.length
      | none =>
        if partialBinding desk.bindings true rest || escapeSequenceIncomplete rest then
          .prefixedMore
        else .prefixedOther

/-- The tests of `desk_handle_direct_sequence`. -/
def recogniseDirect (rest : Bytes) : Option Recognised :=
  if begins desk.prefixSequence rest then some (.prefixKey desk.prefixSequence.length)
  else if isPart desk.prefixSequence rest then some .directMore
  else
    match findCustomMacroBinding desk.macros false rest with
    | some (m, length) => some (.directMacro m length)
    | none =>
      match findKeyBinding desk.bindings false rest with
      | some binding => some (.directBinding binding.command binding.sequence.length)
      | none =>
        if partialBinding desk.bindings false rest || escapeSequenceIncomplete rest then
          some .directMore
        else none

def resizeKey (b : UInt8) : Option Recognised :=
  if b = 0x73 ∨ b = 0x71 then some .resizeEnd
  else if b = 0x74 then some (.resizeCommand (ascii "layout.transpose"))
  else if b = 0x48 then some (.resizeCommand (ascii "layout.split.horizontal"))
  else if b = 0x56 then some (.resizeCommand (ascii "layout.split.vertical"))
  else if b = 0x44 then some (.resizeCommand (ascii "layout.delete"))
  else if b = 0x72 then some (.resizeCommand (ascii "layout.reset"))
  else if b = 0x68 then some (.resizeCommand (ascii "layout.zoom.horizontal"))
  else if b = 0x76 then some (.resizeCommand (ascii "layout.zoom.vertical"))
  else none

/-- The tests that are left when the input is no key of its own. -/
def recogniseMode (b : UInt8) (rest : Bytes) : Recognised :=
  if desk.moveMode then
    if b = 0x6d ∨ b = 0x71 then .moveEnd
    else
      match parsePlainArrowKey rest with
      | some arrow => .moveArrow arrow
      | none => if b = 0x1b then .moveEnd else .moveOther
  else if desk.resizeMode then
    match resizeKey b with
    | some recognised => recognised
    | none =>
      match parseResizeArrow rest with
      | some (arrow, shifted, length) => .resizeArrow arrow shifted length
      | none => if b = 0x1b then .resizeEscape else .ordinary
  else
    match parsePlainArrowKey rest with
    | some arrow => .arrow arrow
    | none => .ordinary

/-- The tests of `handle_input` at one position, in its order. -/
def recognise (b : UInt8) (t : Bytes) : Recognised :=
  let rest := b :: t
  if isIncompleteSgrMouse rest then .incompleteMouse
  else
    match (if desk.mouseTitles then parseSgrMouse rest else none) with
    | some (report, length) => .mouse report length
    | none =>
      match terminalResponse rest with
      | some length => .response length
      | none =>
        if desk.prefixPending then recognisePrefixed desk rest
        else if desk.scrollMode then
          match parseScrollModeKey rest with
          | .needMore => .scrollMore
          | .key command length => .scroll command (max length 1)
        else (recogniseDirect desk rest).getD (recogniseMode desk b rest)

end Recognition

/-- What commands, macros, the mouse and the layout do, and what becomes of a pane that is written
to: it shows the end of its output again. -/
structure Hands (σ : Type) where
  execute : Bytes → Session σ → Session σ
  runMacro : Macro → Session σ → Option (Session σ)
  mouse : MouseReport → Session σ → Session σ
  scroll : Option Bytes → Session σ → Session σ
  swap : Arrow → Session σ → Session σ
  resizeSide : Arrow → Bool → Session σ → Session σ × Bool
  applyResize : Session σ → Option (Session σ)
  encodeArrow : Arrow → Session σ → Option Bytes
  returnToLive : ℕ → σ → σ

/-- What the write of an attachment answers; a pane without one skips the write. -/
inductive WriteAnswer
  | accepted (count : ℕ)
  | skipped
  | failed

/-- What desk does, in the order in which it does it. -/
inductive Effect
  | write (pane : ℕ) (bytes : Bytes) (answer : WriteAnswer)
  | command (name : Bytes)
  | ranMacro (m : Macro)
  | mouse (report : MouseReport)
  | scroll (command : Option Bytes)
  | swap (arrow : Arrow)
  | resizeSide (arrow : Arrow) (shifted : Bool)

/-- The session after a write to the active pane. -/
def Session.live {σ : Type} (h : Hands σ) (desk : Session σ) : Session σ :=
  { desk with hidden := h.returnToLive desk.activePane desk.hidden }

structure Run (σ : Type) where
  desk : Session σ
  pending : Bytes
  answers : List WriteAnswer
  log : List Effect

namespace Run
variable {σ : Type} (h : Hands σ)

/-- `write_active_pane`: a write that accepts part of the bytes is taken for success. -/
def write (r : Run σ) (bytes : Bytes) : Run σ × Bool :=
  let answer := r.answers.headD (.accepted bytes.length)
  let r := { r with
    desk := r.desk.live h
    answers := r.answers.tail
    log := r.log ++ [.write r.desk.activePane bytes answer] }
  match answer with
  | .failed => (r, false)
  | _ => (r, true)

/-- `flush_active_input`. -/
def flush (r : Run σ) (held : Bytes) : Run σ × Bool :=
  if held.isEmpty then (r, true) else r.write h held

/-- An effect and the state it leaves. -/
def after (r : Run σ) (effect : Effect) (desk : Session σ) : Run σ :=
  { r with desk := desk, log := r.log ++ [effect] }

end Run

/-- A step that may fail, and what follows it. -/
def andThen {σ : Type} (step : Run σ × Bool) (next : Run σ → Run σ × Bool) : Run σ × Bool :=
  if step.2 then next step.1 else (step.1, false)

/-- `desk_save_pending_from`: what does not fit is dropped. -/
def savePendingFrom (rest : Bytes) : Bytes := rest.take 64

/-- `desk_save_pending_input`: what does not fit is not kept at all. -/
def savePendingInput (rest : Bytes) : Bytes := if 64 < rest.length then [] else rest

section Input
variable {σ : Type} (h : Hands σ)

/-- `flush_pending_layout_resize`. -/
def applyPendingResize (resized : Bool) (r : Run σ) : Run σ × Bool :=
  if resized then
    match h.applyResize r.desk with
    | none => (r, false)
    | some desk => ({ r with desk := desk }, true)
  else (r, true)

def finishInput (resized : Bool) (held : Bytes) (r : Run σ) : Run σ × Bool :=
  andThen (applyPendingResize h resized r) fun r => r.flush h held

def runMacro (m : Macro) (r : Run σ) : Run σ × Bool :=
  match h.runMacro m r.desk with
  | none => (r, false)
  | some desk => (r.after (.ranMacro m) desk, true)

/-- An unbound key after the prefix: both go to the pane. -/
def passPrefixed (b : UInt8) (r : Run σ) : Run σ × Bool :=
  andThen (r.write h r.desk.prefixSequence) fun r =>
    { r with desk := { r.desk with prefixPending := false } }.write h [b]

/-- What `handle_input` does at a position, by what it recognises there. Bytes before it that are
not yet dealt with are held, and a resize of the layout may still have to be applied. -/
def act (go : Bool → ℕ → Run σ → Run σ × Bool) (pass : Run σ → Run σ × Bool) (resized : Bool)
    (held : Bytes) (b : UInt8) (t : Bytes) (r : Run σ) : Recognised → Run σ × Bool
  | .incompleteMouse =>
    -- The loop is left with the pending bytes still between its start and the end of the input.
    finishInput h resized (held ++ b :: t) { r with pending := savePendingInput (b :: t) }
  | .mouse report length =>
    andThen (r.flush h held) fun r =>
      go resized length (r.after (.mouse report) (h.mouse report r.desk))
  | .response length => andThen (r.flush h held) (go resized length)
  | .prefixedMacro m length =>
    andThen (r.flush h held) fun r =>
      andThen (runMacro h m { r with desk := { r.desk with prefixPending := false } })
        (go resized length)
  | .prefixedBinding command length =>
    andThen (r.flush h held) fun r =>
      go resized length (r.after (.command command)
        (h.execute command { r.desk with prefixPending := false }))
  | .prefixedMore =>
    andThen (r.flush h held) fun r => ({ r with pending := savePendingFrom (b :: t) }, true)
  | .prefixedOther =>
    andThen (r.flush h held) fun r => andThen (passPrefixed h b r) (go resized 1)
  | .scrollMore =>
    andThen (r.flush h held) fun r => ({ r with pending := savePendingFrom (b :: t) }, true)
  | .scroll command length =>
    andThen (r.flush h held) fun r =>
      go resized length (r.after (.scroll command) (h.scroll command r.desk))
  | .prefixKey length =>
    andThen ({ r with desk := { r.desk with prefixPending := true } }.flush h held)
      (go resized length)
  | .directMacro m length =>
    -- The key acts first and what was typed before it is flushed afterwards.
    andThen (runMacro h m r) fun r => andThen (r.flush h held) (go resized length)
  | .directBinding command length =>
    andThen ((r.after (.command command) (h.execute command r.desk)).flush h held)
      (go resized length)
  | .directMore => { r with pending := savePendingFrom (b :: t) }.flush h held
  | .moveEnd =>
    andThen (r.flush h held) fun r =>
      go resized 1 { r with desk := { r.desk with moveMode := false } }
  | .moveArrow arrow =>
    andThen (r.flush h held) fun r => go resized 3 (r.after (.swap arrow) (h.swap arrow r.desk))
  | .moveOther => andThen (r.flush h held) (go resized 1)
  | .resizeEnd =>
    andThen (r.flush h held) fun r => andThen (applyPendingResize h resized r) fun r =>
      go false 1 { r with desk := { r.desk with resizeMode := false } }
  | .resizeCommand command =>
    andThen (r.flush h held) fun r => andThen (applyPendingResize h resized r) fun r =>
      go false 1 (r.after (.command command) (h.execute command r.desk))
  | .resizeArrow arrow shifted length =>
    andThen (r.flush h held) fun r =>
      let (desk, changed) := h.resizeSide arrow shifted r.desk
      go (resized || changed) length (r.after (.resizeSide arrow shifted) desk)
  | .resizeEscape =>
    andThen (r.flush h held) fun r => andThen (applyPendingResize h resized r) fun r =>
      go false 1 { r with desk := { r.desk with resizeMode := false } }
  | .arrow arrow =>
    andThen (r.flush h held) fun r =>
      match h.encodeArrow arrow r.desk with
      | none => (r, false)
      | some bytes => andThen (r.write h bytes) (go resized 3)
  | .ordinary => pass r

/-- `handle_input` from a position on; the first argument bounds the positions. -/
def scan : ℕ → Bool → Bytes → Bytes → Run σ → Run σ × Bool
  | 0, resized, held, _, r => finishInput h resized held r
  | _ + 1, resized, held, [], r => finishInput h resized held r
  | fuel + 1, resized, held, b :: t, r =>
    act h (fun resized length r => scan fuel resized [] (t.drop (length - 1)) r)
      (scan fuel resized (held ++ [b]) t) resized held b t r (recognise r.desk b t)

def handleInput (desk : Session σ) (answers : List WriteAnswer) (input : Bytes) : Run σ × Bool :=
  scan h input.length false [] input ⟨desk, [], answers, []⟩

end Input

section Logs
variable {σ : Type} (h : Hands σ)

/-- A step that only adds to the log. -/
def Grows (r : Run σ) (step : Run σ × Bool) : Prop := r.log <+: step.1.log

variable {r : Run σ}

theorem Grows.rfl {ok : Bool} : Grows r (r, ok) := prefix_rfl

variable {step : Run σ × Bool}

theorem Grows.andThen {next : Run σ → Run σ × Bool} (hstep : Grows r step)
    (hnext : ∀ r', Grows r' (next r')) : Grows r (andThen step next) := by
  unfold Desk.andThen
  split
  · exact List.IsPrefix.trans hstep (hnext step.1)
  · exact hstep

theorem grows_write (r : Run σ) (bytes : Bytes) : Grows r (r.write h bytes) := by
  unfold Run.write Grows
  dsimp only
  split
  · exact prefix_append _ _
  · exact prefix_append _ _

theorem grows_flush (r : Run σ) (held : Bytes) : Grows r (r.flush h held) := by
  unfold Run.flush
  split
  · exact Grows.rfl
  · exact grows_write h r held

variable {r' : Run σ}

theorem Grows.of_log (hlog : r.log <+: r'.log) (hstep : Grows r' step) :
    Grows r step := List.IsPrefix.trans hlog hstep

theorem Grows.of_eq (hstep : Grows r' step) (hlog : r'.log = r.log) : Grows r step := by
  unfold Grows at hstep ⊢
  rwa [hlog] at hstep

theorem Run.log_after (r : Run σ) (effect : Effect) (desk : Session σ) :
    r.log <+: (r.after effect desk).log := prefix_append _ _

theorem grows_applyPendingResize (resized : Bool) (r : Run σ) :
    Grows r (applyPendingResize h resized r) := by
  unfold applyPendingResize
  split
  · split
    · exact Grows.rfl
    · exact prefix_rfl
  · exact Grows.rfl

theorem grows_runMacro (m : Macro) (r : Run σ) : Grows r (runMacro h m r) := by
  unfold runMacro
  split
  · exact Grows.rfl
  · exact r.log_after _ _

theorem grows_finishInput (resized : Bool) (held : Bytes) (r : Run σ) :
    Grows r (finishInput h resized held r) :=
  (grows_applyPendingResize h resized r).andThen fun r' => grows_flush h r' held

theorem grows_act {go : Bool → ℕ → Run σ → Run σ × Bool} {pass : Run σ → Run σ × Bool}
    (hgo : ∀ resized length r, Grows r (go resized length r)) (hpass : ∀ r, Grows r (pass r))
    (resized : Bool) (held : Bytes) (b : UInt8) (t : Bytes) (r : Run σ) (w : Recognised) :
    Grows r (act h go pass resized held b t r w) := by
  have hflush := grows_flush h r held
  cases w with
  | incompleteMouse => exact (grows_finishInput h resized _ _).of_eq rfl
  | mouse report length =>
    exact hflush.andThen fun r' => Grows.of_log (r'.log_after _ _) (hgo _ _ _)
  | response length => exact hflush.andThen fun r' => hgo _ _ r'
  | prefixedMacro m length =>
    refine hflush.andThen fun r' => ?_
    exact Grows.andThen ((grows_runMacro h m _).of_eq rfl) fun r'' => hgo _ _ r''
  | prefixedBinding command length =>
    exact hflush.andThen fun r' => Grows.of_log (r'.log_after _ _) (hgo _ _ _)
  | prefixedMore => exact hflush.andThen fun r' => prefix_rfl
  | prefixedOther =>
    refine hflush.andThen fun r' => ?_
    refine Grows.andThen ?_ fun r'' => hgo _ _ r''
    exact (grows_write h r' _).andThen fun r'' => (grows_write h _ _).of_eq rfl
  | scrollMore => exact hflush.andThen fun r' => prefix_rfl
  | scroll command length =>
    exact hflush.andThen fun r' => Grows.of_log (r'.log_after _ _) (hgo _ _ _)
  | prefixKey length =>
    exact Grows.andThen ((grows_flush h _ held).of_eq rfl) fun r' => hgo _ _ r'
  | directMacro m length =>
    exact (grows_runMacro h m r).andThen fun r' =>
      (grows_flush h r' held).andThen fun r'' => hgo _ _ r''
  | directBinding command length =>
    exact Grows.andThen (Grows.of_log (r.log_after _ _) (grows_flush h _ held)) fun r' =>
      hgo _ _ r'
  | directMore => exact (grows_flush h _ held).of_eq rfl
  | moveArrow arrow =>
    exact hflush.andThen fun r' => Grows.of_log (r'.log_after _ _) (hgo _ _ _)
  | moveEnd => exact hflush.andThen fun r' => (hgo _ _ _).of_eq rfl
  | moveOther => exact hflush.andThen fun r' => hgo _ _ r'
  | resizeEnd =>
    exact hflush.andThen fun r' => (grows_applyPendingResize h resized r').andThen fun r'' =>
      (hgo _ _ _).of_eq rfl
  | resizeCommand command =>
    exact hflush.andThen fun r' => (grows_applyPendingResize h resized r').andThen fun r'' =>
      Grows.of_log (r''.log_after _ _) (hgo _ _ _)
  | resizeArrow arrow shifted length =>
    exact hflush.andThen fun r' => Grows.of_log (r'.log_after _ _) (hgo _ _ _)
  | resizeEscape =>
    exact hflush.andThen fun r' => (grows_applyPendingResize h resized r').andThen fun r'' =>
      (hgo _ _ _).of_eq rfl
  | arrow arrow =>
    refine hflush.andThen fun r' => ?_
    cases h.encodeArrow arrow r'.desk with
    | none => exact Grows.rfl
    | some bytes => exact (grows_write h r' bytes).andThen fun r'' => hgo _ _ r''
  | ordinary => exact hpass r

theorem grows_scan (fuel : ℕ) (resized : Bool) (held rest : Bytes) (r : Run σ) :
    Grows r (scan h fuel resized held rest r) := by
  induction fuel generalizing resized held rest r with
  | zero => exact grows_finishInput h resized held r
  | succ fuel ih =>
    cases rest with
    | nil => exact grows_finishInput h resized held r
    | cons b t => exact grows_act h (fun _ _ _ => ih _ _ _ _) (fun _ => ih _ _ _ _) _ _ _ _ _ _

end Logs

section Order
variable {σ : Type} (h : Hands σ)

/-- Bytes at which nothing is recognised, with what follows them. -/
def Passes (desk : Session σ) : Bytes → Bytes → Prop
  | [], _ => True
  | b :: t, later => recognise desk b (t ++ later) = .ordinary ∧ Passes desk t later

/-- A bound key or the key of a macro, alone or after the prefix. -/
inductive BoundKey (desk : Session σ) : Bytes → Bool → Prop
  | directMacro {b : UInt8} {t : Bytes} {m : Macro} {length : ℕ}
      (hkey : recognise desk b t = .directMacro m length) : BoundKey desk (b :: t) false
  | directBinding {b : UInt8} {t : Bytes} {command : Bytes} {length : ℕ}
      (hkey : recognise desk b t = .directBinding command length) : BoundKey desk (b :: t) false
  | prefixedMacro {b c : UInt8} {t u : Bytes} {m : Macro} {length length' : ℕ}
      (hlead : recognise desk b t = .prefixKey length) (hnext : t.drop (length - 1) = c :: u)
      (hkey : recognise { desk with prefixPending := true } c u = .prefixedMacro m length') :
      BoundKey desk (b :: t) true
  | prefixedBinding {b c : UInt8} {t u : Bytes} {command : Bytes} {length length' : ℕ}
      (hlead : recognise desk b t = .prefixKey length) (hnext : t.drop (length - 1) = c :: u)
      (hkey : recognise { desk with prefixPending := true } c u =
        .prefixedBinding command length') :
      BoundKey desk (b :: t) true

/-- The bytes are the first thing in a log, on their way to a pane. -/
def DeliveredFirst (pane : ℕ) (bytes : Bytes) (log : List Effect) : Prop :=
  bytes = [] ∨ ∃ answer, log.head? = some (.write pane bytes answer)

theorem Run.log_write (r : Run σ) (bytes : Bytes) :
    (r.write h bytes).1.log = r.log ++
      [.write r.desk.activePane bytes (r.answers.headD (.accepted bytes.length))] := by
  unfold Run.write
  dsimp only
  split <;> rfl

theorem scan_passes {typed later : Bytes} (fuel : ℕ) (resized : Bool) (held : Bytes) (r : Run σ)
    (hpass : Passes r.desk typed later) :
    scan h (typed.length + fuel) resized held (typed ++ later) r =
      scan h fuel resized (held ++ typed) later r := by
  induction typed generalizing held with
  | nil => simp
  | cons b t ih =>
    obtain ⟨hb, ht⟩ := hpass
    have hfuel : (b :: t).length + fuel = (t.length + fuel) + 1 := by
      simp only [length_cons]
      omega
    rw [hfuel, cons_append, scan, hb]
    simp only [act]
    rw [ih _ ht]
    simp

/-- The first effect of a step that adds one to the log and goes on. -/
theorem head_of_grows {r r' : Run σ} {result : Run σ × Bool} {effect : Effect}
    (hlog : r'.log = r.log ++ [effect]) (hgrows : Grows r' result) :
    (result.1.log.drop r.log.length).head? = some effect := by
  obtain ⟨more, hmore⟩ := hgrows
  rw [← hmore, hlog, append_assoc, drop_left]
  rfl

theorem grows_andThen_scan {step : Run σ × Bool} {fuel : ℕ} {resized : Bool} {rest : Bytes} :
    Grows step.1 (andThen step (scan h fuel resized [] rest)) := by
  unfold andThen
  split
  · exact grows_scan h _ _ _ _ _
  · exact prefix_rfl

theorem prefix_flushes {typed t : Bytes} {b : UInt8} {length k : ℕ} (resized : Bool) (r : Run σ)
    (hheld : typed.isEmpty = false) (hlead : recognise r.desk b t = .prefixKey length) :
    ∃ answer, ((scan h (k + 1) resized typed (b :: t) r).1.log.drop r.log.length).head? =
      some (.write r.desk.activePane typed answer) := by
  have hscan : scan h (k + 1) resized typed (b :: t) r =
      andThen ({ r with desk := { r.desk with prefixPending := true } }.flush h typed)
        (scan h k resized [] (t.drop (length - 1))) := by
    rw [scan, hlead]
    rfl
  rw [hscan]
  simp only [Run.flush, hheld, Bool.false_eq_true, if_false]
  have hlog := Run.log_write h { r with desk := { r.desk with prefixPending := true } } typed
  exact ⟨_, head_of_grows (r := r) hlog (grows_andThen_scan h)⟩

/-- Bytes that are typed before a bound key, anywhere in a read, are handed to the pane that is
active when they are typed and before anything the key does exactly when the key comes after the
prefix. -/
theorem typed_before_key_first_iff {typed later : Bytes} {prefixed : Bool} (r : Run σ)
    (hpass : Passes r.desk typed later) (hkey : BoundKey r.desk later prefixed) (resized : Bool)
    {fuel : ℕ} (hfuel : (typed ++ later).length ≤ fuel) :
    DeliveredFirst r.desk.activePane typed
        ((scan h fuel resized [] (typed ++ later) r).1.log.drop r.log.length) ↔
      typed = [] ∨ prefixed = true := by
  obtain ⟨k, rfl⟩ : ∃ k, fuel = typed.length + (k + 1) := by
    have hlater : 0 < later.length := by cases hkey <;> simp
    rw [length_append] at hfuel
    exact ⟨fuel - typed.length - 1, by omega⟩
  rw [scan_passes h (k + 1) resized [] r hpass, nil_append]
  by_cases htyped : typed = []
  · simp [DeliveredFirst, htyped]
  have hheld : typed.isEmpty = false := by simpa using htyped
  simp only [DeliveredFirst, htyped, false_or]
  cases hkey with
  | @directMacro b t m length hkey =>
    have hscan : scan h (k + 1) resized typed (b :: t) r =
        andThen (runMacro h m r) fun r' => andThen (r'.flush h typed)
          (scan h k resized [] (t.drop (length - 1))) := by
      rw [scan, hkey]
      rfl
    rw [hscan]
    simp only [Bool.false_eq_true, iff_false, not_exists]
    intro answer
    unfold runMacro
    cases h.runMacro m r.desk with
    | none => simp [andThen]
    | some desk =>
      have hgrows : Grows (r.after (.ranMacro m) desk)
          (andThen ((r.after (.ranMacro m) desk).flush h typed)
            (scan h k resized [] (t.drop (length - 1)))) :=
        (grows_flush h _ typed).andThen fun _ => grows_scan h _ _ _ _ _
      have hhead := head_of_grows (r := r) rfl hgrows
      simp only [andThen, if_true] at hhead ⊢
      rw [hhead]
      simp
  | @directBinding b t command length hkey =>
    have hscan : scan h (k + 1) resized typed (b :: t) r =
        andThen ((r.after (.command command) (h.execute command r.desk)).flush h typed)
          (scan h k resized [] (t.drop (length - 1))) := by
      rw [scan, hkey]
      rfl
    have hgrows : Grows (r.after (.command command) (h.execute command r.desk))
        (scan h (k + 1) resized typed (b :: t) r) := by
      rw [hscan]
      exact (grows_flush h _ typed).andThen fun _ => grows_scan h _ _ _ _ _
    have hhead := head_of_grows (r := r) rfl hgrows
    simp [hhead]
  | @prefixedMacro b c t u m length length' hlead hnext hkey =>
    simp only [iff_true]
    exact prefix_flushes h resized r hheld hlead
  | @prefixedBinding b c t u command length length' hlead hnext hkey =>
    simp only [iff_true]
    exact prefix_flushes h resized r hheld hlead

end Order

theorem single_short (b : UInt8) : [b].length ≤ keySequenceMax := by
  simp [keySequenceMax]

/-- A session with the prefix `C-x` and the key `C-n`, each of which can select the next pane. -/
def sampleSession : Session Unit where
  activePane := 1
  prefixPending := false
  scrollMode := false
  moveMode := false
  resizeMode := false
  mouseTitles := false
  prefixSequence := [0x18]
  prefixShort := single_short 0x18
  bindings := [⟨true, [0x6e], ascii "pane.next", single_short 0x6e⟩,
    ⟨false, [0x0e], ascii "pane.next", single_short 0x0e⟩]
  macros := []
  hidden := ()

/-- Every command selects the next pane. -/
def sampleHands : Hands Unit where
  execute _ desk := { desk with activePane := desk.activePane + 1 }
  runMacro _ desk := some desk
  mouse _ desk := desk
  scroll _ desk := desk
  swap _ desk := desk
  resizeSide _ _ desk := (desk, false)
  applyResize desk := some desk
  encodeArrow _ _ := none
  returnToLive _ hidden := hidden

def sampleRun : Run Unit := ⟨sampleSession, [], [], []⟩

theorem typed_before_prefixed_key :
    BoundKey sampleSession [0x18, 0x6e] true ∧
      DeliveredFirst 1 (ascii "hi")
        ((scan sampleHands 4 false [] (ascii "hi" ++ [0x18, 0x6e]) sampleRun).1.log.drop 0) := by
  have hkey : BoundKey sampleSession [0x18, 0x6e] true :=
    BoundKey.prefixedBinding (show recognise sampleSession 0x18 [0x6e] = .prefixKey 1 from rfl)
      rfl (show recognise { sampleSession with prefixPending := true } 0x6e [] =
        .prefixedBinding (ascii "pane.next") 1 from rfl)
  have hpass : Passes sampleSession (ascii "hi") [0x18, 0x6e] := ⟨rfl, rfl, trivial⟩
  exact ⟨hkey, (typed_before_key_first_iff sampleHands sampleRun hpass hkey false (by decide)).mpr
    (.inr rfl)⟩

/-- `hi` typed before `C-n` goes to the pane that `C-n` selects. -/
theorem typed_before_direct_key :
    sampleSession.activePane = 1 ∧
      (handleInput sampleHands sampleSession [] (ascii "hi" ++ [0x0e])).1.log =
        [.command (ascii "pane.next"), .write 2 (ascii "hi") (.accepted 2)] := by
  exact ⟨rfl, rfl⟩

end Cubicle.Desk
