import Cubicle.ByteText

/-!
# Scanning C strings

The parts of the C library with which text protocols and text files are taken apart: number
conversion with its clamping, the `scanf` directives, reading a file line by line through a
buffer of fixed size, and splitting a line into fields.
-/

namespace Cubicle.CStrings
open ByteText List

def isCSpace (b : UInt8) : Bool := b.toNat = 0x20 || (0x09 ≤ b.toNat && b.toNat ≤ 0x0d)

def isCDigit (b : UInt8) : Bool := 0x30 ≤ b.toNat && b.toNat ≤ 0x39

def decimalValue (ds : Bytes) : ℕ := ds.foldl (fun v d => v * 10 + (d.toNat - 0x30)) 0

/-- Sign and digits at the start of a text, after leading space; nothing without a digit. -/
def signedDigits (s : Bytes) : Option (Bool × Bytes × Bytes) :=
  let t := s.dropWhile isCSpace
  let negative := t.head? = some 0x2d
  let u := if t.head? = some 0x2d ∨ t.head? = some 0x2b then t.drop 1 else t
  if (u.takeWhile isCDigit).isEmpty then none
  else some (negative, u.takeWhile isCDigit, u.dropWhile isCDigit)

/-- `strtoll` in base ten: out of range values are clamped. -/
def longLongValue (negative : Bool) (digits : Bytes) : ℤ :=
  if negative then -(min (decimalValue digits) (2 ^ 63) : ℕ)
  else (min (decimalValue digits) (2 ^ 63 - 1) : ℕ)

/-- `strtoull` in base ten: a sign negates modulo `2 ^ 64`, and overflow gives the maximum. -/
def unsignedValue (negative : Bool) (digits : Bytes) : ℕ :=
  if 2 ^ 64 ≤ decimalValue digits then 2 ^ 64 - 1
  else if negative then (2 ^ 64 - decimalValue digits) % 2 ^ 64
  else decimalValue digits

/-- The `%lld` directive. -/
def scanLongLong (s : Bytes) : Option (ℤ × Bytes) :=
  (signedDigits s).map fun (negative, digits, rest) => (longLongValue negative digits, rest)

/-- The `%u` directive: the value read as `unsigned long` is stored in 32 bits. -/
def scanUnsigned (s : Bytes) : Option (ℕ × Bytes) :=
  (signedDigits s).map fun (negative, digits, rest) =>
    (unsignedValue negative digits % 2 ^ 32, rest)

/-- The `%d` directive: the value read as `long` is stored in 32 bits. -/
def scanInt (s : Bytes) : Option (ℤ × Bytes) :=
  (signedDigits s).map fun (negative, digits, rest) =>
    (Int.bmod (longLongValue negative digits) (2 ^ 32), rest)

/-- The `%Ns` directive: at most `width` bytes up to the next space. -/
def scanWord (width : ℕ) (s : Bytes) : Option (Bytes × Bytes) :=
  let t := s.dropWhile isCSpace
  let word := (t.takeWhile fun b => !isCSpace b).take width
  if word.isEmpty then none else some (word, t.drop word.length)

/-- `strtoull` with no digits is zero. -/
def strtoull (s : Bytes) : ℕ :=
  match signedDigits (cstr s) with
  | none => 0
  | some (negative, digits, _) => unsignedValue negative digits

theorem longLongValue_bounds (negative : Bool) (digits : Bytes) :
    -2 ^ 63 ≤ longLongValue negative digits ∧ longLongValue negative digits < 2 ^ 63 := by
  unfold longLongValue
  cases negative
  · simp only [Bool.false_eq_true, if_false]
    omega
  · simp only [if_true]
    omega

theorem scanLongLong_bounds {s rest : Bytes} {z : ℤ} (h : scanLongLong s = some (z, rest)) :
    -2 ^ 63 ≤ z ∧ z < 2 ^ 63 := by
  obtain ⟨⟨negative, digits, r⟩, -, heq⟩ := Option.map_eq_some_iff.mp h
  obtain ⟨rfl, -⟩ := Prod.mk.inj heq
  exact longLongValue_bounds negative digits

theorem strtoull_lt (s : Bytes) : strtoull s < 2 ^ 64 := by
  unfold strtoull
  split
  · decide
  · unfold unsignedValue
    split_ifs <;> omega

theorem decimalValue_dec (n : ℕ) : decimalValue (dec n) = n := by
  refine dec_induction (P := fun n t => decimalValue t = n) ?_ ?_ n
  · intro n hn
    simp only [decimalValue, foldl_cons, foldl_nil]
    rw [toNat_ofNat_lt (by omega)]
    omega
  · intro n hn ih
    rw [decimalValue, foldl_append]
    simp only [foldl_cons, foldl_nil]
    rw [toNat_ofNat_lt (by omega)]
    rw [decimalValue] at ih
    rw [ih]
    omega

theorem isCDigit_of_mem_dec {n : ℕ} {b : UInt8} (h : b ∈ dec n) : isCDigit b = true := by
  obtain ⟨hlow, hhigh⟩ := between_of_mem_dec n b h
  simp [isCDigit, hlow, hhigh]

theorem signedDigits_dec (n : ℕ) : signedDigits (dec n) = some (false, dec n, []) := by
  have hdigits : ∀ b ∈ dec n, isCDigit b = true := fun b hb => isCDigit_of_mem_dec hb
  have hne := dec_ne_nil n
  cases htext : dec n with
  | nil => exact absurd htext hne
  | cons b t =>
    obtain ⟨hlow, hhigh⟩ := between_of_mem_dec n b (by simp [htext])
    have hspace : isCSpace b = false := by
      simp only [isCSpace, Bool.or_eq_false_iff, Bool.and_eq_false_iff, decide_eq_false_iff_not]
      omega
    have hsign : b ≠ 0x2d ∧ b ≠ 0x2b := by
      constructor <;> rintro rfl <;> exact absurd hlow (by decide)
    rw [htext] at hdigits
    have htake : (b :: t).takeWhile isCDigit = b :: t := takeWhile_eq_self_iff.mpr hdigits
    have hdrop : (b :: t).dropWhile isCDigit = [] := dropWhile_eq_nil_iff.mpr hdigits
    have hskip : (b :: t).dropWhile isCSpace = b :: t := by simp [hspace]
    rw [signedDigits, hskip]
    simp [hsign.1, hsign.2, htake, hdrop]

theorem strtoull_dec {n : ℕ} (h : n < 2 ^ 64) : strtoull (dec n) = n := by
  rw [strtoull, cstr_eq_self (zero_notMem_dec n), signedDigits_dec]
  simp only [unsignedValue, decimalValue_dec, Bool.false_eq_true, if_false]
  rw [if_neg (by omega)]

/-- What one `fgets` takes from a file through a buffer of `size` bytes: up to and with the
next newline, and never more than `size - 1` bytes. -/
def fgetsLine (size : ℕ) (file : Bytes) : Bytes :=
  let upTo := file.takeWhile (· ≠ 0x0a)
  if upTo.length < file.length ∧ upTo.length < size - 1 then upTo ++ [0x0a]
  else upTo.take (size - 1)

/-- The lines `fgets` yields until the end of the file. -/
def fgetsFrom (size : ℕ) : ℕ → Bytes → List Bytes
  | 0, _ => []
  | fuel + 1, file =>
    if file.isEmpty then []
    else fgetsLine size file :: fgetsFrom size fuel (file.drop (fgetsLine size file).length)

/-- The lines of a file, each as the C string the buffer holds. -/
def fgetsLines (size : ℕ) (file : Bytes) : List Bytes :=
  (fgetsFrom size file.length file).map cstr

/-- `line[strcspn(line, "\n")] = 0`. -/
def cutNewline (line : Bytes) : Bytes := line.takeWhile (· ≠ 0x0a)

theorem cutNewline_append {line : Bytes} (h : 0x0a ∉ line) (rest : Bytes) :
    cutNewline (line ++ 0x0a :: rest) = line := by
  have hline : ∀ b ∈ line, decide (b ≠ 0x0a) = true :=
    fun b hb => decide_eq_true fun heq => h (heq ▸ hb)
  rw [cutNewline, takeWhile_append_of_pos hline]
  simp

end Cubicle.CStrings
