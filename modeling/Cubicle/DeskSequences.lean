import Cubicle.CStrings

/-!
# Byte sequences of the keyboard and the terminal

What desk looks for at a position of its input, in the order of the tests it makes. All of them look
at the input from that position on and at nothing before it, so each is a function of the rest of
the input.
-/

namespace Cubicle.Desk
open ByteText CStrings

structure MouseReport where
  button : ℕ
  row : ℕ
  col : ℕ
  press : Bool

/-- `is_incomplete_sgr_mouse`. A lone escape is not taken for one. -/
def isIncompleteSgrMouse (rest : Bytes) : Bool :=
  match rest with
  | [0x1b, 0x5b] => true
  | 0x1b :: 0x5b :: 0x3c :: t => t.all (fun b => isCDigit b || b = 0x3b) && t.count 0x3b ≤ 2
  | _ => false

def mouseNumber (t : Bytes) : Option (ℕ × Bytes) :=
  let digits := t.takeWhile isCDigit
  if digits.isEmpty then none else some (decimalValue digits, t.drop digits.length)

def semicolon : Bytes → Option Bytes
  | 0x3b :: t => some t
  | _ => none

/-- `parse_sgr_mouse`: the report and its length. -/
def parseSgrMouse (rest : Bytes) : Option (MouseReport × ℕ) :=
  match rest with
  | 0x1b :: 0x5b :: 0x3c :: t =>
    if rest.length ≤ 6 then none
    else do
      let (button, t) ← mouseNumber t
      let t ← semicolon t
      let (col, t) ← mouseNumber t
      let t ← semicolon t
      let (row, t) ← mouseNumber t
      match t with
      | final :: after =>
        if final = 0x4d ∨ final = 0x6d then
          some (⟨button, row, col, final = 0x4d⟩, rest.length - after.length)
        else none
      | [] => none
  | _ => none

def csiResponse (rest : Bytes) : Option ℕ :=
  match rest with
  | 0x1b :: 0x5b :: t =>
    let params := t.takeWhile fun b => isCDigit b || b = 0x3b || b = 0x3f || b = 0x3e
    match t.drop params.length with
    | final :: _ =>
      if 3 < rest.length ∧ final ∈ [0x52, 0x63, 0x49, 0x4f] then some (params.length + 3) else none
    | [] => none
  | _ => none

/-- The end of an operating system command. -/
def oscEnd : Bytes → Option ℕ
  | [] => none
  | b :: t =>
    if b = 0x07 then some 1
    else if b = 0x1b ∧ t.head? = some 0x5c then some 2
    else (oscEnd t).map (· + 1)

def oscResponse (rest : Bytes) : Option ℕ :=
  match rest with
  | 0x1b :: 0x5d :: t => (oscEnd t).map (· + 2)
  | _ => none

/-- `is_terminal_response_sequence`. -/
def terminalResponse (rest : Bytes) : Option ℕ := (csiResponse rest).or (oscResponse rest)

inductive Arrow
  | up | down | right | left
deriving DecidableEq

def arrowOf (b : UInt8) : Option Arrow :=
  if b = 0x41 then some .up
  else if b = 0x42 then some .down
  else if b = 0x43 then some .right
  else if b = 0x44 then some .left
  else none

/-- `parse_plain_arrow_key`; the sequence has three bytes. -/
def parsePlainArrowKey : Bytes → Option Arrow
  | 0x1b :: 0x5b :: b :: _ => arrowOf b
  | _ => none

/-- `parse_resize_arrow`: the arrow, whether it is shifted, and the length of the sequence. -/
def parseResizeArrow : Bytes → Option (Arrow × Bool × ℕ)
  | 0x1b :: 0x5b :: t =>
    let params := t.takeWhile fun b => (arrowOf b).isNone
    match t.drop params.length with
    | final :: _ =>
      (arrowOf final).map fun arrow =>
        (arrow, (params.zip (params.drop 1)).contains (0x3b, 0x32), params.length + 3)
    | [] => none
  | _ => none

inductive ScrollKey
  | needMore
  | key (command : Option Bytes) (length : ℕ)

def isCsiFinal (b : UInt8) : Bool := 0x40 ≤ b.toNat && b.toNat ≤ 0x7e

def scrollLetter (b : UInt8) : Option Bytes :=
  if b = 0x41 ∨ b = 0x44 then some (ascii "scroll.line_up")
  else if b = 0x42 ∨ b = 0x43 then some (ascii "scroll.line_down")
  else if b = 0x48 then some (ascii "scroll.top")
  else if b = 0x46 then some (ascii "scroll.bottom")
  else none

/-- The keys that end in a tilde, by their number. -/
def scrollTilde (params : Bytes) : Option Bytes :=
  let digits := params.dropWhile (· = 0x3f)
  let value := decimalValue digits % 2 ^ 32
  if digits.isEmpty || !digits.all isCDigit then none
  else if value = 1 ∨ value = 7 then some (ascii "scroll.top")
  else if value = 4 ∨ value = 8 then some (ascii "scroll.bottom")
  else if value = 5 then some (ascii "scroll.page_up")
  else if value = 6 then some (ascii "scroll.page_down")
  else none

def parseScrollModeKey : Bytes → ScrollKey
  | [] => .key none 0
  | 0x1b :: t =>
    match t with
    | [] => .needMore
    | 0x4f :: after =>
      match after with
      | [] => .needMore
      | b :: _ => .key (scrollLetter b) 3
    | 0x5b :: after =>
      let params := after.takeWhile fun b => !isCsiFinal b
      match after.drop params.length with
      | [] => .needMore
      | final :: _ =>
        .key (if final = 0x7e then scrollTilde params else scrollLetter final) (params.length + 3)
    | _ :: _ => .key (some (ascii "scroll.exit")) 1
  | b :: _ => if b = 0x71 ∨ b = 0x73 then .key (some (ascii "scroll.exit")) 1 else .key none 1

/-- `CUBICLE_DESK_KEY_SEQUENCE_MAX`. -/
def keySequenceMax : ℕ := 16

structure Binding where
  usesPrefix : Bool
  sequence : Bytes
  command : Bytes
  short : sequence.length ≤ keySequenceMax

structure Macro where
  ordinal : ℕ
  key : Option (Bool × Bytes)
  text : Bytes

def escapeSequenceIncomplete : Bytes → Bool
  | [0x1b] => true
  | [0x1b, 0x4f] => true
  | 0x1b :: 0x5b :: t => t.all fun b => !isCsiFinal b
  | _ => false

/-- A sequence that begins the rest of the input. -/
def begins (sequence rest : Bytes) : Bool := !sequence.isEmpty && sequence.isPrefixOf rest

/-- A sequence of which the rest of the input is only a part. -/
def isPart (sequence rest : Bytes) : Bool :=
  !rest.isEmpty && rest.length < sequence.length && rest.isPrefixOf sequence

def findKeyBinding (bindings : List Binding) (usesPrefix : Bool) (rest : Bytes) : Option Binding :=
  bindings.find? fun k => k.usesPrefix = usesPrefix && begins k.sequence rest

/-- Whether `desk_find_key_binding` saw part of a binding. -/
def partialBinding (bindings : List Binding) (usesPrefix : Bool) (rest : Bytes) : Bool :=
  bindings.any fun k => k.usesPrefix = usesPrefix && isPart k.sequence rest

/-- `desk_find_custom_macro_binding`: the macro and the length of its key. -/
def findCustomMacroBinding (macros : List Macro) (usesPrefix : Bool) (rest : Bytes) :
    Option (Macro × ℕ) :=
  macros.findSome? fun m =>
    match m.key with
    | none => none
    | some (p, sequence) =>
      if p = usesPrefix ∧ begins sequence rest = true then some (m, sequence.length) else none

/-- `desk_find_default_macro_binding`: digits run the first ten macros. -/
def findDefaultMacroBinding (macros : List Macro) : Bytes → Option Macro
  | [] => none
  | b :: _ =>
    if isCDigit b then
      let ordinal := if b = 0x30 then 10 else b.toNat - 0x30
      macros.find? (·.ordinal = ordinal)
    else none

end Cubicle.Desk
