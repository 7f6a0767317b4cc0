import Cubicle.Utf8Sequences

/-!
# Reading JSON documents

A strict reader of JSON texts (RFC 8259, no extensions) over byte strings. String values are
kept as their decoded bytes, numbers as the kind a 64-bit reader gives them: unsigned and
negative integers that fit, and everything else as a floating-point number, which is refused
when it is infinite as a double. Nesting and sequences run on fuel; `readDocument` gives each
as much as its input is long.
-/

namespace Cubicle.JsonText
open ByteText Utf8Sequences

inductive Json
  | null
  | bool (b : Bool)
  | uint (n : ℕ)
  | sint (z : ℤ)
  | real (text : Bytes)
  | str (s : Bytes)
  | arr (items : List Json)
  | obj (members : List (Bytes × Json))

def isSpace (b : UInt8) : Bool :=
  b.toNat = 0x20 || b.toNat = 0x09 || b.toNat = 0x0a || b.toNat = 0x0d

def isDigit (b : UInt8) : Bool := 0x30 ≤ b.toNat && b.toNat ≤ 0x39

def skipSpace (s : Bytes) : Bytes := s.dropWhile isSpace

def encodeScalar (v : ℕ) : Bytes := String.utf8EncodeChar (Char.ofNat v)

def hexValue (b : UInt8) : Option ℕ :=
  if 0x30 ≤ b.toNat ∧ b.toNat ≤ 0x39 then some (b.toNat - 0x30)
  else if 0x61 ≤ b.toNat ∧ b.toNat ≤ 0x66 then some (b.toNat - 0x61 + 10)
  else if 0x41 ≤ b.toNat ∧ b.toNat ≤ 0x46 then some (b.toNat - 0x41 + 10)
  else none

def readHex4 : Bytes → Option (ℕ × Bytes)
  | a :: b :: c :: d :: rest =>
    match hexValue a, hexValue b, hexValue c, hexValue d with
    | some w, some x, some y, some z => some (((w * 16 + x) * 16 + y) * 16 + z, rest)
    | _, _, _, _ => none
  | _ => none

/-- What follows `\u`: one code unit, or a pair of surrogates. -/
def readUnicode (s : Bytes) : Option (Bytes × Bytes) :=
  match readHex4 s with
  | none => none
  | some (v, rest) =>
    if 0xd800 ≤ v ∧ v ≤ 0xdbff then
      match rest with
      | b :: u :: rest =>
        if b.toNat = 0x5c ∧ u.toNat = 0x75 then
          match readHex4 rest with
          | none => none
          | some (w, rest) =>
            if 0xdc00 ≤ w ∧ w ≤ 0xdfff then
              some (encodeScalar (0x10000 + (v - 0xd800) * 0x400 + (w - 0xdc00)), rest)
            else none
        else none
      | _ => none
    else if 0xdc00 ≤ v ∧ v ≤ 0xdfff then none
    else some (encodeScalar v, rest)

/-- What follows a backslash in a string. -/
def readEscape : Bytes → Option (Bytes × Bytes)
  | [] => none
  | e :: rest =>
    if e.toNat = 0x22 then some ([0x22], rest)
    else if e.toNat = 0x5c then some ([0x5c], rest)
    else if e.toNat = 0x2f then some ([0x2f], rest)
    else if e.toNat = 0x62 then some ([0x08], rest)
    else if e.toNat = 0x66 then some ([0x0c], rest)
    else if e.toNat = 0x6e then some ([0x0a], rest)
    else if e.toNat = 0x72 then some ([0x0d], rest)
    else if e.toNat = 0x74 then some ([0x09], rest)
    else if e.toNat = 0x75 then readUnicode rest
    else none

/-- One character of a string: its decoded bytes, and what follows it. -/
def readStringItem : Bytes → Option (Bytes × Bytes)
  | [] => none
  | b :: t =>
    if b.toNat = 0x5c then readEscape t
    else if b.toNat < 0x20 then none
    else match charLength (b :: t) with
      | none => none
      | some n => some ((b :: t).take n, (b :: t).drop n)

def readStringFrom : ℕ → Bytes → Option (Bytes × Bytes)
  | 0, _ => none
  | _ + 1, [] => none
  | fuel + 1, b :: t =>
    if b.toNat = 0x22 then some ([], t)
    else match readStringItem (b :: t) with
      | none => none
      | some (d, rest) => (readStringFrom fuel rest).map fun p => (d ++ p.1, p.2)

/-- The rest of a string after its opening quote. -/
def readString (s : Bytes) : Option (Bytes × Bytes) := readStringFrom s.length s

def digitsValue (ds : Bytes) : ℕ := ds.foldl (fun v d => v * 10 + (d.toNat - 0x30)) 0

/-- The digits after a decimal point; none of them when there is no point. -/
def readFraction : Bytes → Option (Option Bytes × Bytes)
  | [] => some (none, [])
  | b :: t =>
    if b.toNat = 0x2e then
      if (t.takeWhile isDigit).isEmpty then none
      else some (some (t.takeWhile isDigit), t.dropWhile isDigit)
    else some (none, b :: t)

def readExponentDigits (negative : Bool) (s : Bytes) : Option (Option ℤ × Bytes) :=
  if (s.takeWhile isDigit).isEmpty then none
  else
    let value : ℤ := digitsValue (s.takeWhile isDigit)
    some (some (if negative then -value else value), s.dropWhile isDigit)

/-- The exponent of a number; none when there is no exponent letter. -/
def readExponent : Bytes → Option (Option ℤ × Bytes)
  | [] => some (none, [])
  | b :: t =>
    if b.toNat = 0x65 ∨ b.toNat = 0x45 then
      match t with
      | [] => none
      | c :: u =>
        if c.toNat = 0x2d then readExponentDigits true u
        else if c.toNat = 0x2b then readExponentDigits false u
        else readExponentDigits false (c :: u)
    else some (none, b :: t)

/-- `m * 10 ^ e` is infinite when rounded to a double. -/
def overflowsDouble (m : ℕ) (e : ℤ) : Bool :=
  if 0 ≤ e then 2 ^ 1024 - 2 ^ 970 ≤ m * 10 ^ e.toNat
  else (2 ^ 1024 - 2 ^ 970) * 10 ^ (-e).toNat ≤ m

def integerValue (negative : Bool) (digits text : Bytes) : Option Json :=
  let v := digitsValue digits
  if negative then
    if v ≤ 2 ^ 63 then some (.sint (-v))
    else if overflowsDouble v 0 then none else some (.real text)
  else if v < 2 ^ 64 then some (.uint v)
  else if overflowsDouble v 0 then none else some (.real text)

def readUnsigned (negative : Bool) (whole s : Bytes) : Option (Json × Bytes) :=
  let digits := s.takeWhile isDigit
  if digits.isEmpty ∨ (digits.head? = some 0x30 ∧ 1 < digits.length) then none
  else match readFraction (s.dropWhile isDigit) with
    | none => none
    | some (fraction, afterFraction) =>
      match readExponent afterFraction with
      | none => none
      | some (exponent, rest) =>
        let text := whole.take (whole.length - rest.length)
        match fraction, exponent with
        | none, none => (integerValue negative digits text).map fun v => (v, rest)
        | _, _ =>
          let tail := fraction.getD []
          if overflowsDouble (digitsValue (digits ++ tail)) (exponent.getD 0 - tail.length) then
            none
          else some (.real text, rest)

def readNumber : Bytes → Option (Json × Bytes)
  | [] => none
  | b :: t => if b.toNat = 0x2d then readUnsigned true (b :: t) t
    else readUnsigned false (b :: t) (b :: t)

def readLiteral (s : Bytes) : Option (Json × Bytes) :=
  if ascii "true" <+: s then some (.bool true, s.drop 4)
  else if ascii "false" <+: s then some (.bool false, s.drop 5)
  else if ascii "null" <+: s then some (.null, s.drop 4)
  else none

/-- One or more items, separated by commas and ended by the byte `close`. -/
def readItems {α : Type} (close : ℕ) (item : Bytes → Option (α × Bytes)) :
    ℕ → Bytes → Option (List α × Bytes)
  | 0, _ => none
  | fuel + 1, s =>
    match item (skipSpace s) with
    | none => none
    | some (x, t) =>
      match skipSpace t with
      | [] => none
      | b :: rest =>
        if b.toNat = close then some ([x], rest)
        else if b.toNat = 0x2c then
          (readItems close item fuel rest).map fun p => (x :: p.1, p.2)
        else none

/-- What follows an opening bracket. -/
def readSequence {α : Type} (close : ℕ) (item : Bytes → Option (α × Bytes)) (s : Bytes) :
    Option (List α × Bytes) :=
  match skipSpace s with
  | [] => none
  | b :: rest => if b.toNat = close then some ([], rest) else readItems close item s.length s

def readMember (value : Bytes → Option (Json × Bytes)) : Bytes → Option ((Bytes × Json) × Bytes)
  | [] => none
  | b :: t =>
    if b.toNat = 0x22 then
      match readString t with
      | none => none
      | some (key, rest) =>
        match skipSpace rest with
        | [] => none
        | c :: rest =>
          if c.toNat = 0x3a then (value (skipSpace rest)).map fun p => ((key, p.1), p.2)
          else none
    else none

/-- The value a text starts with; `fuel` bounds the nesting. -/
def readValue : ℕ → Bytes → Option (Json × Bytes)
  | 0, _ => none
  | _ + 1, [] => none
  | fuel + 1, b :: t =>
    if b.toNat = 0x7b then
      (readSequence 0x7d (readMember (readValue fuel)) t).map fun p => (.obj p.1, p.2)
    else if b.toNat = 0x5b then
      (readSequence 0x5d (readValue fuel) t).map fun p => (.arr p.1, p.2)
    else if b.toNat = 0x22 then (readString t).map fun p => (.str p.1, p.2)
    else if b.toNat = 0x2d ∨ isDigit b then readNumber (b :: t)
    else readLiteral (b :: t)

/-- A whole document: one value, with nothing but space around it. -/
def readDocument (s : Bytes) : Option Json :=
  match readValue s.length (skipSpace s) with
  | none => none
  | some (v, rest) => if (skipSpace rest).isEmpty then some v else none

section Escapes
variable {s rest d : Bytes}

/-- A byte that an escaped code unit may have. -/
def UnitByte (b : UInt8) : Prop := (hexValue b).isSome = true ∨ b = 0x5c ∨ b = 0x75

theorem readHex4_extent {v : ℕ} (h : readHex4 s = some (v, rest)) :
    ∃ t, s = t ++ rest ∧ (t.length = 4 ∧ ∀ b ∈ t, UnitByte b) ∧
      ∀ rest', readHex4 (t ++ rest') = some (v, rest') := by
  unfold readHex4 at h
  split at h
  · rename_i a b c d r
    split at h
    · rename_i w x y z ha hb hc hd
      obtain ⟨rfl, rfl⟩ : _ = v ∧ r = rest := by simpa using h
      exact ⟨[a, b, c, d], rfl, ⟨rfl, by simp [UnitByte, ha, hb, hc, hd]⟩,
        fun rest' => by simp [readHex4, ha, hb, hc, hd]⟩
    · simp at h
  · simp at h

/-- The reader of a code unit looks at nothing after it. -/
theorem readUnicode_extent (h : readUnicode s = some (d, rest)) :
    ∃ t, s = t ++ rest ∧ (4 ≤ t.length ∧ ∀ b ∈ t, UnitByte b) ∧ (∃ v, d = encodeScalar v) ∧
      ∀ rest', readUnicode (t ++ rest') = some (d, rest') := by
  unfold readUnicode at h
  split at h
  · simp at h
  · rename_i v r hv
    obtain ⟨t, rfl, ⟨hlen, hall⟩, ht⟩ := readHex4_extent hv
    split_ifs at h with h1 h2
    · split at h
      · rename_i b u r'
        split_ifs at h with hbu
        split at h
        · simp at h
        · rename_i w r'' hw
          obtain ⟨t', rfl, ⟨-, hall'⟩, ht'⟩ := readHex4_extent hw
          split_ifs at h with h3
          obtain ⟨rfl, rfl⟩ : _ = d ∧ r'' = rest := by simpa using h
          have hb : UnitByte b := .inr (.inl (UInt8.toNat_inj.mp hbu.1))
          have hu : UnitByte u := .inr (.inr (UInt8.toNat_inj.mp hbu.2))
          refine ⟨t ++ b :: u :: t', by simp, ⟨by simp; omega, ?_⟩, ⟨_, rfl⟩, fun rest' => ?_⟩
          · simp only [List.forall_mem_append, List.forall_mem_cons]
            exact ⟨hall, hb, hu, hall'⟩
          have hfirst := ht (b :: u :: (t' ++ rest'))
          simp only [List.append_assoc, List.cons_append] at hfirst ⊢
          rw [readUnicode, hfirst]
          simp only [if_pos h1, if_pos hbu, ht', if_pos h3]
      · simp at h
    · obtain ⟨rfl, rfl⟩ : _ = d ∧ r = rest := by simpa using h
      refine ⟨t, rfl, ⟨hlen.ge, hall⟩, ⟨v, rfl⟩, fun rest' => ?_⟩
      rw [readUnicode, ht rest']
      simp only [if_neg h1, if_neg h2]

/-- The letters of the escapes that stand for one byte, with that byte. -/
def escapeLetters : List (UInt8 × UInt8) :=
  [(0x22, 0x22), (0x5c, 0x5c), (0x2f, 0x2f), (0x62, 0x08), (0x66, 0x0c), (0x6e, 0x0a), (0x72, 0x0d),
    (0x74, 0x09)]

theorem readEscape_letter {p : UInt8 × UInt8} (hp : p ∈ escapeLetters) (rest : Bytes) :
    readEscape (p.1 :: rest) = some ([p.2], rest) := by
  simp only [escapeLetters, List.mem_cons, List.not_mem_nil, or_false] at hp
  rcases hp with rfl | rfl | rfl | rfl | rfl | rfl | rfl | rfl <;> rfl

/-- An escape is a letter for one byte or a code unit. -/
theorem readEscape_cases (h : readEscape s = some (d, rest)) :
    (∃ p ∈ escapeLetters, s = p.1 :: rest ∧ d = [p.2]) ∨
      ∃ t, s = 0x75 :: t ∧ readUnicode t = some (d, rest) := by
  cases s with
  | nil => simp [readEscape] at h
  | cons e u =>
    have letter : ∀ a c : UInt8, e.toNat = a.toNat → (a, c) ∈ escapeLetters →
        some ([c], u) = some (d, rest) → ∃ p ∈ escapeLetters, e :: u = p.1 :: rest ∧ d = [p.2] := by
      intro a c he hp heq
      obtain ⟨rfl, rfl⟩ : [c] = d ∧ u = rest := by simpa using heq
      exact ⟨(a, c), hp, by rw [eq_of_toNat_eq he], rfl⟩
    rw [readEscape] at h
    split_ifs at h with h1 h2 h3 h4 h5 h6 h7 h8 h9
    · exact .inl (letter 0x22 0x22 h1 (by decide) h)
    · exact .inl (letter 0x5c 0x5c h2 (by decide) h)
    · exact .inl (letter 0x2f 0x2f h3 (by decide) h)
    · exact .inl (letter 0x62 0x08 h4 (by decide) h)
    · exact .inl (letter 0x66 0x0c h5 (by decide) h)
    · exact .inl (letter 0x6e 0x0a h6 (by decide) h)
    · exact .inl (letter 0x72 0x0d h7 (by decide) h)
    · exact .inl (letter 0x74 0x09 h8 (by decide) h)
    · exact .inr ⟨u, by rw [show e = 0x75 from eq_of_toNat_eq h9], h⟩

end Escapes
end Cubicle.JsonText
