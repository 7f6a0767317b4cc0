import Cubicle.DeskInput

/-!
# What becomes of each byte of the input

Every read of desk is the bytes kept back from the last one and the new ones. A read is cut, in
order, into pieces that desk consumed and pieces it delivered; with what is kept back again they are
the whole input, and what the processes receive is what the delivered pieces say. This holds as
long as every write is accepted whole and no read ends inside a mouse report: desk keeps such an end
back and delivers it as well.
-/

namespace Cubicle.Desk
open ByteText CStrings List

/-- What became of a stretch of the input, and the pane it went to. -/
inductive Piece
  | delivered (pane : ℕ) (bytes : Bytes)
  | arrow (pane : ℕ) (bytes encoded : Bytes)
  | passed (pane : ℕ) (lead : Bytes) (b : UInt8)
  | consumed (bytes : Bytes)

namespace Piece

def input : Piece → Bytes
  | .delivered _ bytes => bytes
  | .arrow _ bytes _ => bytes
  | .passed _ _ b => [b]
  | .consumed bytes => bytes

/-- The texts that go to the processes of panes for it. -/
def sent : Piece → List (ℕ × Bytes)
  | .delivered pane bytes => [(pane, bytes)]
  | .arrow pane _ encoded => [(pane, encoded)]
  | .passed pane lead b => [(pane, lead), (pane, [b])]
  | .consumed _ => []

end Piece

/-- The length of what a command, a prefix, a key of a mode, a mouse report or a response of the
terminal takes from the input. -/
def Recognised.takes : Recognised → Option ℕ
  | .mouse _ length => some length
  | .response length => some length
  | .prefixedMacro _ length => some length
  | .prefixedBinding _ length => some length
  | .scroll _ length => some length
  | .prefixKey length => some length
  | .directMacro _ length => some length
  | .directBinding _ length => some length
  | .moveArrow _ => some 3
  | .moveEnd => some 1
  | .moveOther => some 1
  | .resizeEnd => some 1
  | .resizeCommand _ => some 1
  | .resizeArrow _ _ length => some length
  | .resizeEscape => some 1
  | .incompleteMouse => none
  | .prefixedMore => none
  | .prefixedOther => none
  | .scrollMore => none
  | .directMore => none
  | .arrow _ => none
  | .ordinary => none

/-- The key acts before the bytes that were typed before it are handed over. -/
def Recognised.actsFirst : Recognised → Bool
  | .directMacro _ _ => true
  | .directBinding _ _ => true
  | _ => false

/-- The input from here on is an unfinished key. -/
def Recognised.keeps : Recognised → Bool
  | .prefixedMore => true
  | .scrollMore => true
  | .directMore => true
  | _ => false

/-- What the processes of the panes receive. -/
def Effect.received : Effect → List (ℕ × Bytes)
  | .write pane bytes (.accepted count) => [(pane, bytes.take count)]
  | _ => []

def received (log : List Effect) : List (ℕ × Bytes) := log.flatMap Effect.received

/-- What is kept back of the input is short or an unfinished escape sequence. -/
def Recognised.Fits (rest : Bytes) : Recognised → Prop
  | .incompleteMouse => False
  | .prefixedMore => escapeSequenceIncomplete rest = true ∨ rest.length ≤ 64
  | .scrollMore => escapeSequenceIncomplete rest = true ∨ rest.length ≤ 64
  | .directMore => escapeSequenceIncomplete rest = true ∨ rest.length ≤ 64
  | _ => True

/-- No end of the input is a mouse report that is kept back, or an unfinished key too long to be. -/
def Settles (input : Bytes) : Prop :=
  ∀ s ∈ input.tails,
    (isIncompleteSgrMouse s = true → 64 < s.length) ∧
    (escapeSequenceIncomplete s = true → isIncompleteSgrMouse s = true ∨ s.length ≤ 64)

instance (input : Bytes) : Decidable (Settles input) := by
  unfold Settles
  infer_instance

variable {rest : Bytes}

theorem Settles.of_suffix {input : Bytes} (h : Settles input) (hrest : rest <:+ input) :
    Settles rest := by
  intro s hs
  refine h s ?_
  rw [mem_tails] at hs ⊢
  exact hs.trans hrest

theorem Settles.self {input : Bytes} (h : Settles input) :
    (isIncompleteSgrMouse input = true → 64 < input.length) ∧
    (escapeSequenceIncomplete input = true →
      isIncompleteSgrMouse input = true ∨ input.length ≤ 64) :=
  h input ((mem_tails _ _).mpr suffix_rfl)

section Unfinished
variable {σ : Type} (desk : Session σ)

theorem length_of_isPart {sequence : Bytes} (hpart : isPart sequence rest = true)
    (hshort : sequence.length ≤ keySequenceMax) : rest.length ≤ 64 := by
  simp only [isPart, Bool.and_eq_true, decide_eq_true_eq] at hpart
  simp only [keySequenceMax] at hshort
  omega

variable {usesPrefix : Bool} {w : Recognised} {b : UInt8}

variable {bindings : List Binding}

theorem length_of_partialBinding (hpart : partialBinding bindings usesPrefix rest = true) :
    rest.length ≤ 64 := by
  simp only [partialBinding, any_eq_true, Bool.and_eq_true] at hpart
  obtain ⟨k, _, _, hk⟩ := hpart
  exact length_of_isPart hk k.short

theorem fits_of_more
    (hmore : (partialBinding bindings usesPrefix rest || escapeSequenceIncomplete rest) = true) :
    escapeSequenceIncomplete rest = true ∨ rest.length ≤ 64 := by
  rw [Bool.or_eq_true] at hmore
  exact hmore.symm.imp_right length_of_partialBinding

theorem fits_prefixed (rest : Bytes) : (recognisePrefixed desk rest).Fits rest := by
  unfold recognisePrefixed
  split
  · trivial
  split
  · trivial
  split
  · trivial
  split
  · rename_i hmore
    exact fits_of_more hmore
  · trivial

theorem fits_direct (hw : recogniseDirect desk rest = some w) : w.Fits rest := by
  unfold recogniseDirect at hw
  split at hw
  · cases hw
    trivial
  split at hw
  · rename_i hpart
    cases hw
    exact .inr (length_of_isPart hpart desk.prefixShort)
  split at hw
  · cases hw
    trivial
  split at hw
  · cases hw
    trivial
  split at hw
  · rename_i hmore
    cases hw
    exact fits_of_more hmore
  · cases hw

theorem fits_resizeKey (h : resizeKey b = some w) : w.Fits rest := by
  unfold resizeKey at h
  split_ifs at h <;> cases h <;> trivial

theorem fits_mode (b : UInt8) (rest : Bytes) : (recogniseMode desk b rest).Fits rest := by
  unfold recogniseMode
  split
  · split
    · trivial
    · split
      · trivial
      · split <;> trivial
  split
  · split
    · rename_i hkey
      exact fits_resizeKey hkey
    · split
      · trivial
      · split <;> trivial
  · split <;> trivial

theorem incomplete_of_needMore (h : parseScrollModeKey rest = .needMore) :
    escapeSequenceIncomplete rest = true := by
  unfold parseScrollModeKey at h
  split at h
  · cases h
  · split at h
    · rfl
    · split at h
      · rfl
      · cases h
    · rename_i after
      dsimp only at h
      split at h
      · rename_i hdrop
        have hall : (after.takeWhile fun b => !isCsiFinal b) = after := by
          have happ := takeWhile_append_dropWhile (p := fun b => !isCsiFinal b) (l := after)
          rw [drop_eq_nil_iff] at hdrop
          have hlen := congrArg List.length happ
          rw [length_append] at hlen
          have hnil : (after.dropWhile fun b => !isCsiFinal b) = [] := by
            rw [← length_eq_zero_iff]
            omega
          rwa [hnil, append_nil] at happ
        simp only [escapeSequenceIncomplete, all_eq_true]
        exact takeWhile_eq_self_iff.mp hall
      · cases h
    · cases h
  · split at h <;> cases h

theorem fits_recognise {t : Bytes} (hmouse : ¬ isIncompleteSgrMouse (b :: t) = true) :
    (recognise desk b t).Fits (b :: t) := by
  unfold recognise
  dsimp only
  rw [if_neg hmouse]
  split
  · trivial
  split
  · trivial
  split
  · exact fits_prefixed desk _
  split
  · split
    · rename_i hmore
      exact .inl (incomplete_of_needMore hmore)
    · trivial
  · cases hdirect : recogniseDirect desk (b :: t) with
    | none => exact fits_mode desk b _
    | some w => exact fits_direct desk hdirect

theorem Settles.fits (hsettles : Settles rest) (hmouse : ¬ isIncompleteSgrMouse rest = true)
    (hkept : escapeSequenceIncomplete rest = true ∨ rest.length ≤ 64) : rest.length ≤ 64 := by
  rcases hkept with hincomplete | hlength
  · exact (hsettles.self.2 hincomplete).resolve_left hmouse
  · exact hlength

end Unfinished

section Stories
variable {σ : Type} (h : Hands σ)

/-- The session when a change of the layout that is still due has been applied. -/
def layoutApplied (resized : Bool) (desk : Session σ) : Option (Session σ) :=
  if resized then h.applyResize desk else some desk

/-- What a key that is taken from the input makes of the session. -/
def Recognised.does (resized : Bool) (desk : Session σ) : Recognised → Option (Session σ × Bool)
  | .mouse report _ => some (h.mouse report desk, resized)
  | .prefixedMacro m _ => (h.runMacro m { desk with prefixPending := false }).map (·, resized)
  | .prefixedBinding command _ =>
    some (h.execute command { desk with prefixPending := false }, resized)
  | .scroll command _ => some (h.scroll command desk, resized)
  | .prefixKey _ => some ({ desk with prefixPending := true }, resized)
  | .directMacro m _ => (h.runMacro m desk).map (·, resized)
  | .directBinding command _ => some (h.execute command desk, resized)
  | .moveArrow side => some (h.swap side desk, resized)
  | .moveEnd => some ({ desk with moveMode := false }, resized)
  | .resizeEnd =>
    (layoutApplied h resized desk).map fun desk => ({ desk with resizeMode := false }, false)
  | .resizeCommand command =>
    (layoutApplied h resized desk).map fun desk => (h.execute command desk, false)
  | .resizeArrow side shifted _ =>
    some ((h.resizeSide side shifted desk).1, resized || (h.resizeSide side shifted desk).2)
  | .resizeEscape =>
    (layoutApplied h resized desk).map fun desk => ({ desk with resizeMode := false }, false)
  | _ => some (desk, resized)

/-- The session after bytes that were held have been handed over. -/
def Session.handed (held : Bytes) (desk : Session σ) : Session σ :=
  if held.isEmpty then desk else desk.live h

/-- The session after the prefix and an unbound key have been passed on. -/
def Session.passedOn (desk : Session σ) : Session σ :=
  { desk.live h with prefixPending := false }.live h

def flushed (pane : ℕ) (held : Bytes) : List Piece :=
  if held.isEmpty then [] else [.delivered pane held]

/-- What is to become of the input from a position on, of the bytes held there and of a change of
the layout that is due: the pieces, in order, each for the session that reads it, and what is kept
back. -/
inductive Story : Session σ → Bool → Bytes → Bytes → List Piece → Bytes → Prop
  | finish {desk desk' : Session σ} {resized : Bool} {held : Bytes}
      (hlayout : layoutApplied h resized desk = some desk') :
      Story desk resized held [] (flushed desk'.activePane held) []
  -- a mouse report that is too long to be kept back
  | tooLong {desk desk' : Session σ} {resized : Bool} {held t : Bytes} {b : UInt8}
      (hw : recognise desk b t = .incompleteMouse) (hlong : 64 < (b :: t).length)
      (hlayout : layoutApplied h resized desk = some desk') :
      Story desk resized held (b :: t) (flushed desk'.activePane (held ++ b :: t)) []
  | hold {desk : Session σ} {resized : Bool} {held t kept : Bytes} {b : UInt8}
      {pieces : List Piece} (hw : recognise desk b t = .ordinary)
      (hrest : Story desk resized (held ++ [b]) t pieces kept) :
      Story desk resized held (b :: t) pieces kept
  | keep {desk : Session σ} {resized : Bool} {held t : Bytes} {b : UInt8}
      (hw : (recognise desk b t).keeps = true) :
      Story desk resized held (b :: t) (flushed desk.activePane held) (b :: t)
  | take {desk desk' : Session σ} {resized resized' : Bool} {held t kept : Bytes} {b : UInt8}
      {pieces : List Piece} {length : ℕ} (hw : (recognise desk b t).takes = some length)
      (hlast : (recognise desk b t).actsFirst = false)
      (hdoes : (recognise desk b t).does h resized (desk.handed h held) = some (desk', resized'))
      (hrest : Story desk' resized' [] (t.drop (length - 1)) pieces kept) :
      Story desk resized held (b :: t)
        (flushed desk.activePane held ++ .consumed (b :: t.take (length - 1)) :: pieces) kept
  | takeFirst {desk desk' : Session σ} {resized resized' : Bool} {held t kept : Bytes} {b : UInt8}
      {pieces : List Piece} {length : ℕ} (hw : (recognise desk b t).takes = some length)
      (hfirst : (recognise desk b t).actsFirst = true)
      (hdoes : (recognise desk b t).does h resized desk = some (desk', resized'))
      (hrest : Story (desk'.handed h held) resized' [] (t.drop (length - 1)) pieces kept) :
      Story desk resized held (b :: t)
        (flushed desk'.activePane held ++ .consumed (b :: t.take (length - 1)) :: pieces) kept
  | pass {desk : Session σ} {resized : Bool} {held t kept : Bytes} {b : UInt8}
      {pieces : List Piece} (hw : recognise desk b t = .prefixedOther)
      (hrest : Story ((desk.handed h held).passedOn h) resized [] t pieces kept) :
      Story desk resized held (b :: t) (flushed desk.activePane held ++
        .passed desk.activePane desk.prefixSequence b :: pieces) kept
  | arrow {desk : Session σ} {resized : Bool} {held t kept encoded : Bytes} {b : UInt8}
      {pieces : List Piece} {arrow : Arrow} (hw : recognise desk b t = .arrow arrow)
      (hencoded : h.encodeArrow arrow (desk.handed h held) = some encoded)
      (hrest : Story ((desk.handed h held).live h) resized [] (t.drop 2) pieces kept) :
      Story desk resized held (b :: t) (flushed desk.activePane held ++
        .arrow desk.activePane (b :: t.take 2) encoded :: pieces) kept

variable {h} {desk : Session σ} {resized : Bool} {held kept : Bytes} {pieces : List Piece}

theorem flatMap_input_flushed (pane : ℕ) (held : Bytes) :
    (flushed pane held).flatMap Piece.input = held := by
  unfold flushed
  split
  · rename_i hheld
    rw [List.isEmpty_iff.mp hheld]
    rfl
  · simp [Piece.input]

/-- Every byte is in exactly one piece, or kept back. -/
theorem Story.input (hstory : Story h desk resized held rest pieces kept) :
    pieces.flatMap Piece.input ++ kept = held ++ rest := by
  induction hstory with
  | finish hlayout => simp [flatMap_input_flushed]
  | tooLong hw hlong hlayout => simp [flatMap_input_flushed]
  | hold hw hrest ih => simpa using ih
  | keep hw => simp [flatMap_input_flushed]
  | take hw hlast hdoes hrest ih => simp [flatMap_input_flushed, Piece.input, ih]
  | takeFirst hw hfirst hdoes hrest ih => simp [flatMap_input_flushed, Piece.input, ih]
  | pass hw hrest ih => simp [flatMap_input_flushed, Piece.input, ih]
  | arrow hw hencoded hrest ih => simp [flatMap_input_flushed, Piece.input, ih]

theorem input_ne_nil_of_mem_flushed {pane : ℕ} {p : Piece} (hp : p ∈ flushed pane held) :
    p.input ≠ [] := by
  unfold flushed at hp
  split at hp
  · simp at hp
  · rename_i hheld
    rw [mem_singleton.mp hp]
    simpa [Piece.input] using hheld

theorem Story.input_ne_nil (hstory : Story h desk resized held rest pieces kept) :
    ∀ p ∈ pieces, p.input ≠ [] := by
  induction hstory with
  | finish hlayout => exact fun p => input_ne_nil_of_mem_flushed
  | tooLong hw hlong hlayout => exact fun p => input_ne_nil_of_mem_flushed
  | hold hw hrest ih => exact ih
  | keep hw => exact fun p => input_ne_nil_of_mem_flushed
  | take hw hlast hdoes hrest ih =>
    simpa [or_imp, forall_and, Piece.input] using ⟨fun p => input_ne_nil_of_mem_flushed, ih⟩
  | takeFirst hw hfirst hdoes hrest ih =>
    simpa [or_imp, forall_and, Piece.input] using ⟨fun p => input_ne_nil_of_mem_flushed, ih⟩
  | pass hw hrest ih =>
    simpa [or_imp, forall_and, Piece.input] using ⟨fun p => input_ne_nil_of_mem_flushed, ih⟩
  | arrow hw hencoded hrest ih =>
    simpa [or_imp, forall_and, Piece.input] using ⟨fun p => input_ne_nil_of_mem_flushed, ih⟩

end Stories

section Reads
variable {σ : Type} (h : Hands σ) {r r' : Run σ} {held t : Bytes} {b : UInt8}
  {resized resized' : Bool} {step : Run σ × Bool}

/-- A step that succeeds does what the story of the input says. -/
def Accounts (r : Run σ) (resized : Bool) (held rest : Bytes) (step : Run σ × Bool) : Prop :=
  step.2 = true → ∃ pieces : List Piece, Story h r.desk resized held rest pieces step.1.pending ∧
    received step.1.log = received r.log ++ pieces.flatMap Piece.sent

/-- The write of bytes that were held, when it is accepted whole. -/
def handedOver (pane : ℕ) (held : Bytes) : List Effect :=
  if held.isEmpty then [] else [.write pane held (.accepted held.length)]

theorem received_append (log more : List Effect) :
    received (log ++ more) = received log ++ received more := flatMap_append

theorem received_handedOver (pane : ℕ) (held : Bytes) :
    received (handedOver pane held) = (flushed pane held).flatMap Piece.sent := by
  unfold handedOver flushed
  split <;> simp [received, Effect.received, Piece.sent]

theorem received_singleton (pane : ℕ) (bytes : Bytes) :
    received [.write pane bytes (.accepted bytes.length)] = [(pane, bytes)] := by
  simp [received, Effect.received]

theorem Run.write_eq (desk : Session σ) (pending : Bytes) (log : List Effect) (bytes : Bytes) :
    (⟨desk, pending, [], log⟩ : Run σ).write h bytes =
      (⟨desk.live h, pending, [],
        log ++ [.write desk.activePane bytes (.accepted bytes.length)]⟩, true) := rfl

theorem Run.flush_eq (desk : Session σ) (pending : Bytes) (log : List Effect) (held : Bytes) :
    (⟨desk, pending, [], log⟩ : Run σ).flush h held =
      (⟨desk.handed h held, pending, [], log ++ handedOver desk.activePane held⟩, true) := by
  unfold Run.flush Session.handed handedOver
  split
  · simp
  · rfl

theorem applyPendingResize_eq (resized : Bool) (r : Run σ) :
    applyPendingResize h resized r = match layoutApplied h resized r.desk with
      | none => (r, false)
      | some desk => ({ r with desk := desk }, true) := by
  unfold applyPendingResize layoutApplied
  split
  · rfl
  · rfl

theorem andThen_ok (r : Run σ) (next : Run σ → Run σ × Bool) : andThen (r, true) next = next r :=
  rfl

theorem accounts_failed {input : Bytes} : Accounts h r resized held input (r', false) := nofun

theorem activePane_handed (held : Bytes) (desk : Session σ) :
    (desk.handed h held).activePane = desk.activePane := by
  unfold Session.handed
  split <;> rfl

theorem prefixSequence_handed (held : Bytes) (desk : Session σ) :
    (desk.handed h held).prefixSequence = desk.prefixSequence := by
  unfold Session.handed
  split <;> rfl

variable {desk desk' : Session σ} {log log' : List Effect}

theorem accounts_finishInput (resized : Bool) (held : Bytes) :
    Accounts h ⟨desk, [], [], log⟩ resized held []
      (finishInput h resized held ⟨desk, [], [], log⟩) := by
  rw [finishInput, applyPendingResize_eq]
  cases hlayout : layoutApplied h resized desk with
  | none => exact accounts_failed h
  | some desk' =>
    simp only [andThen_ok, Run.flush_eq]
    exact fun _ => ⟨_, .finish hlayout, by rw [received_append, received_handedOver]⟩

variable {h}

/-- A key that is taken after the held bytes have been handed over. -/
theorem accounts_take {length : ℕ} (hw : (recognise desk b t).takes = some length)
    (hlast : (recognise desk b t).actsFirst = false)
    (hdoes : (recognise desk b t).does h resized (desk.handed h held) = some (desk', resized'))
    (hlog : received log' = received (log ++ handedOver desk.activePane held))
    (hstep : Accounts h ⟨desk', [], [], log'⟩ resized' [] (t.drop (length - 1)) step) :
    Accounts h ⟨desk, [], [], log⟩ resized held (b :: t) step := by
  intro hok
  obtain ⟨pieces, hstory, hreceived⟩ := hstep hok
  refine ⟨_, .take hw hlast hdoes hstory, ?_⟩
  rw [hreceived, hlog, received_append, received_handedOver]
  simp [Piece.sent]

/-- A key that acts first. -/
theorem accounts_takeFirst {length : ℕ} {effect : Effect} (hquiet : effect.received = [])
    (hw : (recognise desk b t).takes = some length)
    (hfirst : (recognise desk b t).actsFirst = true)
    (hdoes : (recognise desk b t).does h resized desk = some (desk', resized'))
    (hstep : Accounts h ⟨desk'.handed h held, [], [],
      log ++ [effect] ++ handedOver desk'.activePane held⟩ resized' [] (t.drop (length - 1)) step) :
    Accounts h ⟨desk, [], [], log⟩ resized held (b :: t) step := by
  intro hok
  obtain ⟨pieces, hstory, hreceived⟩ := hstep hok
  refine ⟨_, .takeFirst hw hfirst hdoes hstory, ?_⟩
  rw [hreceived, received_append, received_append, received_handedOver]
  simp [Piece.sent, received, hquiet]

/-- A key that has the layout applied, and what follows it if that succeeds. -/
theorem accounts_layout (change : Session σ → Session σ) (next : Run σ → Run σ)
    (go : Run σ → Run σ × Bool) (hw : (recognise desk b t).takes = some 1)
    (hlast : (recognise desk b t).actsFirst = false)
    (hdoes : ∀ desk', (recognise desk b t).does h resized desk' =
      (layoutApplied h resized desk').map fun desk => (change desk, false))
    (hnext : ∀ desk log, ∃ log', received log' = received log ∧
      next ⟨desk, [], [], log⟩ = ⟨change desk, [], [], log'⟩)
    (hgo : ∀ desk log, Accounts h ⟨desk, [], [], log⟩ false [] t (go ⟨desk, [], [], log⟩)) :
    Accounts h ⟨desk, [], [], log⟩ resized held (b :: t)
      (andThen ((⟨desk, [], [], log⟩ : Run σ).flush h held) fun r =>
        andThen (applyPendingResize h resized r) fun r => go (next r)) := by
  simp only [Run.flush_eq, andThen_ok, applyPendingResize_eq]
  cases hlayout : layoutApplied h resized (desk.handed h held) with
  | none => exact accounts_failed h
  | some desk' =>
    obtain ⟨log', hlog, heq⟩ := hnext desk' (log ++ handedOver desk.activePane held)
    simp only [andThen_ok, heq]
    exact accounts_take hw hlast (by rw [hdoes, hlayout]; rfl) hlog (hgo _ _)

variable (h)

theorem accounts_act {go : Bool → ℕ → Run σ → Run σ × Bool} {pass : Run σ → Run σ × Bool}
    (hsettles : Settles (b :: t))
    (hgo : ∀ resized length desk log, Accounts h ⟨desk, [], [], log⟩ resized []
      (t.drop (length - 1)) (go resized length ⟨desk, [], [], log⟩))
    (hpass : recognise desk b t = .ordinary →
      Accounts h ⟨desk, [], [], log⟩ resized held (b :: t) (pass ⟨desk, [], [], log⟩)) :
    Accounts h ⟨desk, [], [], log⟩ resized held (b :: t)
      (act h go pass resized held b t ⟨desk, [], [], log⟩ (recognise desk b t)) := by
  have hquiet : ∀ effect : Effect, effect.received = [] →
      received (log ++ handedOver desk.activePane held ++ [effect]) =
        received (log ++ handedOver desk.activePane held) := by
    intro effect heffect
    simp [received_append _ [effect], received, heffect]
  have hkept : (recognise desk b t).keeps = true → savePendingFrom (b :: t) = b :: t := by
    intro hkeeps
    have hnot : ¬ isIncompleteSgrMouse (b :: t) = true := by
      intro hyes
      rw [recognise, if_pos hyes] at hkeeps
      cases hkeeps
    have hfits := fits_recognise desk hnot
    refine take_of_length_le (hsettles.fits hnot ?_)
    cases hw : recognise desk b t <;> rw [hw] at hfits hkeeps <;> first
      | exact hfits
      | cases hkeeps
  -- an unfinished key is kept back behind what is handed over
  have hkeep : (recognise desk b t).keeps = true →
      Accounts h ⟨desk, [], [], log⟩ resized held (b :: t) (⟨desk.handed h held,
        savePendingFrom (b :: t), [], log ++ handedOver desk.activePane held⟩, true) := by
    intro hkeeps _
    refine ⟨flushed desk.activePane held, ?_, by rw [received_append, received_handedOver]⟩
    rw [hkept hkeeps]
    exact .keep hkeeps
  cases hw : recognise desk b t with
  | incompleteMouse =>
    -- Only a report that is too long to be kept back gets here.
    have hlong : 64 < (b :: t).length := by
      refine hsettles.self.1 ?_
      by_contra hnot
      have hfits := fits_recognise desk hnot
      rw [hw] at hfits
      exact hfits
    simp only [act, savePendingInput, if_pos hlong, finishInput, applyPendingResize_eq]
    cases hlayout : layoutApplied h resized desk with
    | none => exact accounts_failed h
    | some desk' =>
      simp only [andThen_ok, Run.flush_eq]
      exact fun _ => ⟨_, .tooLong hw hlong hlayout, by rw [received_append, received_handedOver]⟩
  | mouse report length =>
    simp only [act, Run.flush_eq, andThen_ok]
    exact accounts_take (by rw [hw]; rfl) (by rw [hw]; rfl) (by rw [hw]; rfl) (hquiet _ rfl)
      (hgo _ _ _ _)
  | response length =>
    simp only [act, Run.flush_eq, andThen_ok]
    exact accounts_take (by rw [hw]; rfl) (by rw [hw]; rfl) (by rw [hw]; rfl) rfl (hgo _ _ _ _)
  | prefixedMacro m length =>
    simp only [act, Run.flush_eq, andThen_ok, runMacro]
    cases hm : h.runMacro m { desk.handed h held with prefixPending := false } with
    | none => exact accounts_failed h
    | some desk' =>
      exact accounts_take (by rw [hw]; rfl) (by rw [hw]; rfl)
        (by rw [hw]; simp only [Recognised.does, hm]; rfl) (hquiet _ rfl) (hgo _ _ _ _)
  | prefixedBinding command length =>
    simp only [act, Run.flush_eq, andThen_ok]
    exact accounts_take (by rw [hw]; rfl) (by rw [hw]; rfl) (by rw [hw]; rfl) (hquiet _ rfl)
      (hgo _ _ _ _)
  | prefixedMore =>
    simp only [act, Run.flush_eq, andThen_ok]
    exact hkeep (by rw [hw]; rfl)
  | prefixedOther =>
    simp only [act, passPrefixed, Run.flush_eq, Run.write_eq, andThen_ok]
    intro hok
    obtain ⟨pieces, hstory, hreceived⟩ := hgo resized 1 _ _ hok
    refine ⟨_, .pass hw hstory, ?_⟩
    simp only [hreceived, received_append, received_handedOver, received_singleton]
    simp [Piece.sent, activePane_handed, prefixSequence_handed, Session.live]
  | scrollMore =>
    simp only [act, Run.flush_eq, andThen_ok]
    exact hkeep (by rw [hw]; rfl)
  | scroll command length =>
    simp only [act, Run.flush_eq, andThen_ok]
    exact accounts_take (by rw [hw]; rfl) (by rw [hw]; rfl) (by rw [hw]; rfl) (hquiet _ rfl)
      (hgo _ _ _ _)
  | prefixKey length =>
    simp only [act, Run.flush_eq, andThen_ok]
    refine accounts_take (by rw [hw]; rfl) (by rw [hw]; rfl) ?_ rfl (hgo _ _ _ _)
    rw [hw]
    unfold Session.handed
    split <;> rfl
  | directMacro m length =>
    simp only [act, runMacro]
    cases hm : h.runMacro m desk with
    | none => exact accounts_failed h
    | some desk' =>
      simp only [andThen_ok, Run.after, Run.flush_eq]
      exact accounts_takeFirst rfl (by rw [hw]; rfl) (by rw [hw]; rfl)
        (by rw [hw]; simp only [Recognised.does, hm]; rfl) (hgo _ _ _ _)
  | directBinding command length =>
    simp only [act, Run.after, Run.flush_eq, andThen_ok]
    exact accounts_takeFirst rfl (by rw [hw]; rfl) (by rw [hw]; rfl) (by rw [hw]; rfl)
      (hgo _ _ _ _)
  | directMore =>
    simp only [act, Run.flush_eq]
    exact hkeep (by rw [hw]; rfl)
  | moveArrow arrow =>
    simp only [act, Run.flush_eq, andThen_ok]
    exact accounts_take (by rw [hw]; rfl) (by rw [hw]; rfl) (by rw [hw]; rfl) (hquiet _ rfl)
      (hgo _ 3 _ _)
  | moveEnd =>
    simp only [act, Run.flush_eq, andThen_ok]
    exact accounts_take (by rw [hw]; rfl) (by rw [hw]; rfl) (by rw [hw]; rfl) rfl (hgo _ 1 _ _)
  | moveOther =>
    simp only [act, Run.flush_eq, andThen_ok]
    exact accounts_take (by rw [hw]; rfl) (by rw [hw]; rfl) (by rw [hw]; rfl) rfl (hgo _ 1 _ _)
  | resizeEnd =>
    exact accounts_layout (fun desk => { desk with resizeMode := false })
      (fun r => { r with desk := { r.desk with resizeMode := false } }) (go false 1)
      (by rw [hw]; rfl) (by rw [hw]; rfl) (fun _ => by rw [hw]; rfl)
      (fun _ _ => ⟨_, rfl, rfl⟩) (hgo false 1)
  | resizeCommand command =>
    refine accounts_layout (h.execute command)
      (fun r => r.after (.command command) (h.execute command r.desk)) (go false 1)
      (by rw [hw]; rfl) (by rw [hw]; rfl) (fun _ => by rw [hw]; rfl)
      (fun _ log => ⟨log ++ [.command command], ?_, rfl⟩) (hgo false 1)
    simp [received, Effect.received]
  | resizeArrow arrow shifted length =>
    simp only [act, Run.flush_eq, andThen_ok]
    exact accounts_take (by rw [hw]; rfl) (by rw [hw]; rfl) (by rw [hw]; rfl) (hquiet _ rfl)
      (hgo _ _ _ _)
  | resizeEscape =>
    exact accounts_layout (fun desk => { desk with resizeMode := false })
      (fun r => { r with desk := { r.desk with resizeMode := false } }) (go false 1)
      (by rw [hw]; rfl) (by rw [hw]; rfl) (fun _ => by rw [hw]; rfl)
      (fun _ _ => ⟨_, rfl, rfl⟩) (hgo false 1)
  | arrow arrow =>
    simp only [act, Run.flush_eq, andThen_ok]
    cases hencoded : h.encodeArrow arrow (desk.handed h held) with
    | none => exact accounts_failed h
    | some encoded =>
      simp only [Run.write_eq, andThen_ok]
      intro hok
      obtain ⟨pieces, hstory, hreceived⟩ := hgo resized 3 _ _ hok
      refine ⟨_, .arrow hw hencoded hstory, ?_⟩
      simp only [hreceived, received_append, received_handedOver, received_singleton]
      simp [Piece.sent, activePane_handed]
  | ordinary => exact hpass hw

theorem accounts_scan (fuel : ℕ) (resized : Bool) (held rest : Bytes) (desk : Session σ)
    (log : List Effect) (hfuel : rest.length ≤ fuel) (hsettles : Settles rest) :
    Accounts h ⟨desk, [], [], log⟩ resized held rest
      (scan h fuel resized held rest ⟨desk, [], [], log⟩) := by
  induction fuel generalizing resized held rest desk log with
  | zero =>
    rw [length_eq_zero_iff.mp (Nat.le_zero.mp hfuel)]
    exact accounts_finishInput h resized held
  | succ fuel ih =>
    cases rest with
    | nil => exact accounts_finishInput h resized held
    | cons b t =>
      rw [length_cons] at hfuel
      have hrest : ∀ (n : ℕ) (resized : Bool) (held : Bytes) (desk : Session σ)
          (log : List Effect), Accounts h ⟨desk, [], [], log⟩ resized held (t.drop n)
            (scan h fuel resized held (t.drop n) ⟨desk, [], [], log⟩) := by
        intro n resized held desk log
        refine ih resized held (t.drop n) desk log ?_ ?_
        · rw [length_drop]
          omega
        · exact hsettles.of_suffix ((List.drop_suffix n t).trans (suffix_cons b t))
      refine accounts_act h hsettles (fun resized length => hrest (length - 1) resized [])
        fun hw hok => ?_
      obtain ⟨pieces, hstory, hreceived⟩ := hrest 0 resized (held ++ [b]) desk log hok
      exact ⟨pieces, .hold hw hstory, hreceived⟩

/-- A read of the standard input: the session as it is by then, the bytes, and what the writes it
leads to answer. A write past the last answer accepts all its bytes. -/
structure Read (σ : Type) where
  desk : Session σ
  bytes : Bytes
  answers : List WriteAnswer

/-- Reads one after the other, each satisfying a condition on its whole input and on the answers;
with them, what is kept back and what was done. -/
inductive Reading (ok : Bytes → List WriteAnswer → Prop) :
    List (Read σ) → Bytes → List Effect → Prop
  | start : Reading ok [] [] []
  | read {reads : List (Read σ)} {pending : Bytes} {log : List Effect} {read : Read σ} {r : Run σ}
      (hreads : Reading ok reads pending log) (hok : ok (pending ++ read.bytes) read.answers)
      (hread : handleInput h read.desk read.answers (pending ++ read.bytes) = (r, true)) :
      Reading ok (reads ++ [read]) r.pending (log ++ r.log)

/-- The stories of reads one after the other: each begins with what the last one kept back. -/
inductive Accounted : List (Read σ) → Bytes → List Piece → Prop
  | start : Accounted [] [] []
  | read {reads : List (Read σ)} {pending kept : Bytes} {pieces more : List Piece} {read : Read σ}
      (hreads : Accounted reads pending pieces)
      (hstory : Story h read.desk false [] (pending ++ read.bytes) more kept) :
      Accounted (reads ++ [read]) kept (pieces ++ more)

variable {h} {reads : List (Read σ)} {pending : Bytes} {log : List Effect} {pieces : List Piece}

theorem Accounted.input (haccounted : Accounted h reads pending pieces) :
    pieces.flatMap Piece.input ++ pending = reads.flatMap Read.bytes := by
  induction haccounted with
  | start => rfl
  | read hreads hstory ih =>
    rw [flatMap_append, append_assoc, hstory.input, nil_append, ← append_assoc, ih]
    simp

theorem Accounted.input_ne_nil (haccounted : Accounted h reads pending pieces) :
    ∀ p ∈ pieces, p.input ≠ [] := by
  induction haccounted with
  | start => simp
  | read hreads hstory ih => exact fun p hp => (mem_append.mp hp).elim (ih p) (hstory.input_ne_nil p)

variable (h)

theorem Reading.next {ok : Bytes → List WriteAnswer → Prop}
    (hreads : Reading h ok reads [] log) (read : Read σ) (hok : ok read.bytes read.answers)
    (hread : (handleInput h read.desk read.answers read.bytes).2 = true) :
    Reading h ok (reads ++ [read]) (handleInput h read.desk read.answers read.bytes).1.pending
      (log ++ (handleInput h read.desk read.answers read.bytes).1.log) :=
  .read hreads hok (Prod.ext rfl hread)

/-- Every write is accepted whole and the input settles. -/
def Undisturbed (input : Bytes) (answers : List WriteAnswer) : Prop :=
  answers = [] ∧ Settles input

/-- Over any number of undisturbed reads, each byte is in one piece that the session of its read
makes of it or still kept back, and the processes of the panes receive all of the delivered pieces,
in the order of the input. -/
theorem reads_accounted (hreads : Reading h Undisturbed reads pending log) :
    ∃ pieces : List Piece, Accounted h reads pending pieces ∧
      pieces.flatMap Piece.input ++ pending = reads.flatMap Read.bytes ∧
      received log = pieces.flatMap Piece.sent := by
  suffices hall : ∃ pieces : List Piece, Accounted h reads pending pieces ∧
      received log = pieces.flatMap Piece.sent by
    obtain ⟨pieces, haccounted, hreceived⟩ := hall
    exact ⟨pieces, haccounted, haccounted.input, hreceived⟩
  induction hreads with
  | start => exact ⟨[], .start, rfl⟩
  | @read reads pending log read r _ hok hread ih =>
    obtain ⟨pieces, haccounted, hreceived⟩ := ih
    obtain ⟨hanswers, hsettles⟩ := hok
    have hscan := accounts_scan h (pending ++ read.bytes).length false [] (pending ++ read.bytes)
      read.desk [] le_rfl hsettles
    rw [handleInput, hanswers] at hread
    rw [hread] at hscan
    obtain ⟨more, hstory, hmore⟩ := hscan rfl
    refine ⟨pieces ++ more, .read haccounted hstory, ?_⟩
    rw [received_append, hreceived, hmore, flatMap_append]
    rfl

end Reads

/-- `hi`, the prefix and a key that is not bound to anything; then, with another pane active, `x`
and the key that selects the next one. -/
def sampleReads : List (Read Unit) :=
  [⟨sampleSession, ascii "hi" ++ [0x18, 0x7a], []⟩,
    ⟨{ sampleSession with activePane := 4 }, ascii "x" ++ [0x18, 0x6e], []⟩]

theorem accounted_passed_key :
    ∃ pieces : List Piece, Accounted sampleHands sampleReads [] pieces ∧
      pieces.flatMap Piece.input ++ [] = ascii "hi" ++ [0x18, 0x7a] ++ ascii "x" ++ [0x18, 0x6e] ∧
      [(1, ascii "hi"), (1, [0x18]), (1, [0x7a]), (4, ascii "x")] = pieces.flatMap Piece.sent := by
  have hfirst : Reading sampleHands Undisturbed _ _ _ :=
    Reading.start.next sampleHands (sampleReads.get ⟨0, by decide⟩) ⟨rfl, by decide⟩ rfl
  have hboth := hfirst.next sampleHands (sampleReads.get ⟨1, by decide⟩) ⟨rfl, by decide⟩ rfl
  exact reads_accounted sampleHands hboth

/-- The start of a mouse report at the end of a read is delivered, and kept back for the next. -/
theorem mouse_start_delivered_and_kept :
    Reading sampleHands (fun _ _ => True) [⟨sampleSession, [0x1b, 0x5b], []⟩] [0x1b, 0x5b]
        [.write 1 [0x1b, 0x5b] (.accepted 2)] ∧
      ¬ ∃ pieces : List Piece,
        Accounted sampleHands [⟨sampleSession, [0x1b, 0x5b], []⟩] [0x1b, 0x5b] pieces ∧
        pieces.flatMap Piece.input ++ [0x1b, 0x5b] = [0x1b, 0x5b] ∧
        received [.write 1 [0x1b, 0x5b] (.accepted 2)] = pieces.flatMap Piece.sent := by
  refine ⟨Reading.start.next sampleHands ⟨sampleSession, [0x1b, 0x5b], []⟩ trivial rfl, ?_⟩
  rintro ⟨pieces, haccounted, hinput, hsent⟩
  -- no piece is empty, so there is none, and nothing is delivered
  obtain rfl : pieces = [] := by
    have hall : pieces.flatMap Piece.input = [] := append_left_eq_self.mp hinput
    refine eq_nil_iff_forall_not_mem.mpr fun p hp => ?_
    exact haccounted.input_ne_nil p hp (flatMap_eq_nil_iff.mp hall p hp)
  cases hsent

section PlainText
variable {σ : Type} {desk : Session σ} {b : UInt8}

/-- A byte with which no key and no report of the terminal begins, in normal mode. -/
structure Session.Plain (desk : Session σ) (b : UInt8) : Prop where
  pending : desk.prefixPending = false
  scroll : desk.scrollMode = false
  move : desk.moveMode = false
  resize : desk.resizeMode = false
  escape : b ≠ 0x1b
  lead : desk.prefixSequence.head? ≠ some b
  bindings : ∀ k ∈ desk.bindings, k.usesPrefix = false → k.sequence.head? ≠ some b
  macros : ∀ m ∈ desk.macros, ∀ s, m.key = some (false, s) → s.head? ≠ some b

theorem begins_of_head {s : Bytes} (h : s.head? ≠ some b) (t : Bytes) :
    begins s (b :: t) = false ∧ isPart s (b :: t) = false := by
  cases s with
  | nil => simp [begins, isPart]
  | cons a s =>
    have hne : a ≠ b := by simpa using h
    simp [begins, isPart, List.isPrefixOf, hne, hne.symm]

theorem recognise_plain (h : desk.Plain b) (t : Bytes) : recognise desk b t = .ordinary := by
  have hmacro : findCustomMacroBinding desk.macros false (b :: t) = none := by
    refine findSome?_eq_none_iff.mpr fun m hm => ?_
    split
    · rfl
    · rename_i s hkey
      exact if_neg fun hm' =>
        by simp [(begins_of_head (h.macros m hm s (hm'.1 ▸ hkey)) t).1] at hm'
  have hbinding := fun k hk hp => begins_of_head (h.bindings k hk hp) t
  have hfind : findKeyBinding desk.bindings false (b :: t) = none := by
    simpa [findKeyBinding] using fun k hk hp => (hbinding k hk hp).1
  have hpart : partialBinding desk.bindings false (b :: t) = false := by
    simpa [partialBinding] using fun k hk hp => (hbinding k hk hp).2
  simp [recognise, recogniseDirect, recogniseMode, isIncompleteSgrMouse, parseSgrMouse,
    terminalResponse, csiResponse, oscResponse, escapeSequenceIncomplete, parsePlainArrowKey,
    h.escape, h.pending, h.scroll, h.move, h.resize, begins_of_head h.lead t, hmacro, hfind, hpart]

theorem passes_plain {s : Bytes} (h : ∀ b ∈ s, desk.Plain b) : Passes desk s [] := by
  induction s with
  | nil => trivial
  | cons b t ih =>
    rw [forall_mem_cons] at h
    exact ⟨recognise_plain h.1 _, ih h.2⟩

theorem handleInput_plain (hands : Hands σ) {s : Bytes} (h : ∀ b ∈ s, desk.Plain b) :
    handleInput hands desk [] s =
      (⟨desk.handed hands s, [], [], handedOver desk.activePane s⟩, true) := by
  have hscan := scan_passes hands 0 false [] ⟨desk, [], [], []⟩ (passes_plain h)
  rw [append_nil, nil_append, Nat.add_zero] at hscan
  rw [handleInput, hscan, scan, finishInput, applyPendingResize, if_neg (by decide), andThen_ok,
    Run.flush_eq, nil_append]

end PlainText

end Cubicle.Desk
