import Mathlib

/-!
# Byte strings

Byte strings as a C program sees them: literals, the string that ends at the first NUL,
the decimal text of a number, and the lines and fields that text files are cut into.
-/

namespace Cubicle.ByteText
open List

abbrev Bytes := List UInt8

/-- The bytes of a literal made of ASCII characters. -/
def ascii (s : String) : Bytes := s.toList.map fun c => UInt8.ofNat c.toNat

/-- The C string held in a buffer: the bytes before the first NUL. -/
def cstr (s : Bytes) : Bytes := s.takeWhile (· ≠ 0)

/-- A byte between two bounds, both included. -/
def Between (low high : ℕ) (b : UInt8) : Prop := low ≤ b.toNat ∧ b.toNat ≤ high

instance (low high : ℕ) (b : UInt8) : Decidable (Between low high b) :=
  inferInstanceAs (Decidable (_ ∧ _))

theorem toNat_lt (b : UInt8) : b.toNat < 256 := b.toNat_lt

theorem eq_of_toNat_eq {b c : UInt8} (h : b.toNat = c.toNat) : b = c :=
  UInt8.toNat_inj.mp h

variable {n k : ℕ}

theorem toNat_ofNat_lt (h : n < 256) : (UInt8.ofNat n).toNat = n := by
  simp [Nat.mod_eq_of_lt h]

@[simp] theorem cstr_nil : cstr [] = [] := rfl

theorem cstr_eq_self {s : Bytes} (h : 0 ∉ s) : cstr s = s := by
  unfold cstr
  rw [takeWhile_eq_self_iff]
  intro b hb
  have hne : b ≠ 0 := fun h0 => h (h0 ▸ hb)
  simpa using hne

theorem zero_notMem_cstr (s : Bytes) : 0 ∉ cstr s := by
  intro h
  have := mem_takeWhile_imp h
  simp at this

@[simp] theorem cstr_cstr (s : Bytes) : cstr (cstr s) = cstr s :=
  cstr_eq_self (zero_notMem_cstr s)

theorem cstr_prefix_self (s : Bytes) : cstr s <+: s := List.takeWhile_prefix _

theorem cstr_length_le (s : Bytes) : (cstr s).length ≤ s.length :=
  (cstr_prefix_self s).length_le

/-- The text `%u`, `%zu` and `%llu` print. -/
def dec (n : ℕ) : Bytes := (Nat.toDigits 10 n).map fun c => UInt8.ofNat c.toNat

/-- The text `%d` and `%lld` print. -/
def decInt (z : ℤ) : Bytes :=
  match z with
  | .ofNat n => dec n
  | .negSucc n => 0x2d :: dec (n + 1)

theorem dec_of_lt (h : n < 10) : dec n = [UInt8.ofNat (0x30 + n)] := by
  unfold dec
  rw [Nat.toDigits_of_lt_base h, map_singleton, Nat.toNat_digitChar_of_lt_ten h]

theorem dec_of_ge (h : 10 ≤ n) : dec n = dec (n / 10) ++ [UInt8.ofNat (0x30 + n % 10)] := by
  unfold dec
  rw [Nat.toDigits_of_base_le (by decide) h, map_append, map_singleton,
    Nat.toNat_digitChar_of_lt_ten (by omega)]

/-- Decimal texts, one digit at a time from the left. -/
theorem dec_induction {P : ℕ → Bytes → Prop}
    (digit : ∀ n, n < 10 → P n [UInt8.ofNat (0x30 + n)])
    (step : ∀ n, 10 ≤ n → P (n / 10) (dec (n / 10)) →
      P n (dec (n / 10) ++ [UInt8.ofNat (0x30 + n % 10)])) (n : ℕ) : P n (dec n) := by
  induction n using Nat.strong_induction_on with
  | _ n ih =>
    by_cases h : n < 10
    · rw [dec_of_lt h]
      exact digit n h
    · rw [dec_of_ge (by omega)]
      exact step n (by omega) (ih (n / 10) (by omega))

theorem between_of_mem_dec (n : ℕ) : ∀ b ∈ dec n, Between 0x30 0x39 b := by
  refine dec_induction (P := fun _ t => ∀ b ∈ t, Between 0x30 0x39 b) ?_ ?_ n
  · intro n hn b hb
    obtain rfl := mem_singleton.mp hb
    rw [Between, toNat_ofNat_lt (by omega)]
    omega
  · intro n _ ih b hb
    rcases mem_append.mp hb with hb | hb
    · exact ih b hb
    · obtain rfl := mem_singleton.mp hb
      rw [Between, toNat_ofNat_lt (by omega)]
      omega

theorem zero_notMem_dec (n : ℕ) : 0 ∉ dec n := fun h => by
  simpa [Between] using between_of_mem_dec n 0 h

theorem dec_ne_nil (n : ℕ) : dec n ≠ [] := by
  refine dec_induction (P := fun _ t => t ≠ []) ?_ ?_ n <;> simp

/-- A decimal text starts with a zero only when it is the text of zero. -/
theorem dec_leading_zero (n : ℕ) : (dec n).head? = some 0x30 → n = 0 := by
  refine dec_induction (P := fun n t => t.head? = some 0x30 → n = 0) ?_ ?_ n
  · intro n hn h
    have := congrArg UInt8.toNat (Option.some.inj h)
    rw [toNat_ofNat_lt (by omega)] at this
    have h30 : (0x30 : UInt8).toNat = 0x30 := rfl
    omega
  · intro n hn ih h
    rw [head?_append_of_ne_nil _ (dec_ne_nil _)] at h
    have := ih h
    omega

theorem dec_length_le (hk : 0 < k) (h : n < 10 ^ k) : (dec n).length ≤ k := by
  induction k generalizing n with
  | zero => omega
  | succ k ih =>
    by_cases hn : n < 10
    · rw [dec_of_lt hn]
      simp
    · rw [dec_of_ge (by omega), length_append, length_singleton]
      have hk0 : 0 < k := by
        by_contra h0
        obtain rfl : k = 0 := by omega
        simp at h
        omega
      have := ih hk0 (n := n / 10) (by rw [pow_succ] at h; omega)
      omega

theorem dec_length_le_u64 (h : n < 2 ^ 64) : (dec n).length ≤ 20 :=
  dec_length_le (by decide) (by omega)

theorem decInt_length_le {z : ℤ} (hk : 0 < k) (h : z.natAbs < 10 ^ k) :
    (decInt z).length ≤ k + 1 := by
  cases z with
  | ofNat n =>
    have := dec_length_le hk (n := n) (by simpa using h)
    simp only [decInt]
    omega
  | negSucc n =>
    have := dec_length_le hk (n := n + 1) (by simpa using h)
    simp only [decInt, length_cons]
    omega

end Cubicle.ByteText
