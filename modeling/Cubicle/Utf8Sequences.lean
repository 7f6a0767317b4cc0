import Cubicle.ByteText

/-!
# UTF-8 by its table of lead bytes

The table that says, for a lead byte, how many bytes follow it and in which range the first
of them lies. `charLength` measures the character a byte string starts with, and `Text` holds
of the concatenations of such characters.
-/

namespace Cubicle.Utf8Sequences
open ByteText List

/-- What must follow a lead byte: the number of bytes, and the range of the first of them. -/
structure Lead where
  tail : ℕ
  low : ℕ
  high : ℕ
deriving DecidableEq, Repr

/-- The table of lead bytes; ASCII bytes and bytes that start no character have no entry. -/
def leadOf (b : UInt8) : Option Lead :=
  if Between 0xc2 0xdf b then some ⟨1, 0x80, 0xbf⟩
  else if b.toNat = 0xe0 then some ⟨2, 0xa0, 0xbf⟩
  else if Between 0xe1 0xec b then some ⟨2, 0x80, 0xbf⟩
  else if b.toNat = 0xed then some ⟨2, 0x80, 0x9f⟩
  else if Between 0xee 0xef b then some ⟨2, 0x80, 0xbf⟩
  else if b.toNat = 0xf0 then some ⟨3, 0x90, 0xbf⟩
  else if Between 0xf1 0xf3 b then some ⟨3, 0x80, 0xbf⟩
  else if b.toNat = 0xf4 then some ⟨3, 0x80, 0x8f⟩
  else none

/-- A byte string holds, at its start, the bytes that `lead` asks for. -/
def Continues (lead : Lead) (s : Bytes) : Prop :=
  lead.tail ≤ s.length ∧ (∀ b ∈ s.head?, Between lead.low lead.high b) ∧
    ∀ b ∈ (s.take lead.tail).tail, Between 0x80 0xbf b

instance (lead : Lead) (s : Bytes) : Decidable (Continues lead s) :=
  inferInstanceAs (Decidable (_ ∧ _ ∧ _))

/-- Length of the character a byte string starts with. -/
def charLength : Bytes → Option ℕ
  | [] => none
  | b :: t =>
    if b.toNat < 0x80 then some 1
    else match leadOf b with
      | none => none
      | some lead => if Continues lead t then some (lead.tail + 1) else none

/-- The encoding of one character. -/
def IsChar (c : Bytes) : Prop := charLength c = some c.length

instance (c : Bytes) : Decidable (IsChar c) := inferInstanceAs (Decidable (_ = _))

/-- Concatenations of characters. -/
inductive Text : Bytes → Prop
  | nil : Text []
  | cons {c s : Bytes} : IsChar c → Text s → Text (c ++ s)

variable {b : UInt8} {s c t r a : Bytes} {n : ℕ}

variable {lead : Lead}

/-- The three groups of the table, by the number of bytes that follow. -/
theorem leadOf_ranges (h : leadOf b = some lead) :
    0xc2 ≤ b.toNat ∧ b.toNat ≤ 0xdf ∧ lead = ⟨1, 0x80, 0xbf⟩ ∨
      0xe0 ≤ b.toNat ∧ b.toNat ≤ 0xef ∧ lead.tail = 2 ∧ 0x80 ≤ lead.low ∧ lead.high ≤ 0xbf ∧
        (b.toNat = 0xe0 → lead.low = 0xa0) ∧ (b.toNat = 0xed → lead.high = 0x9f) ∨
      0xf0 ≤ b.toNat ∧ b.toNat ≤ 0xf4 ∧ lead.tail = 3 ∧ 0x80 ≤ lead.low ∧ lead.high ≤ 0xbf ∧
        (b.toNat = 0xf0 → lead.low = 0x90) ∧ (b.toNat = 0xf4 → lead.high = 0x8f) := by
  unfold leadOf at h
  split_ifs at h with h1 h2 h3 h4 h5 h6 h7 h8 <;> obtain rfl := Option.some.inj h <;>
    simp only [Between] at *
  all_goals simp; omega

theorem leadOf_cases (h : leadOf b = some lead) :
    0x80 ≤ b.toNat ∧ (lead.tail = 1 ∨ lead.tail = 2 ∨ lead.tail = 3) := by
  obtain ⟨h1, -, rfl⟩ | ⟨h1, -, h2, -⟩ | ⟨h1, -, h2, -⟩ := leadOf_ranges h
  · exact ⟨by omega, .inl rfl⟩
  · exact ⟨by omega, .inr (.inl h2)⟩
  · exact ⟨by omega, .inr (.inr h2)⟩

theorem leadOf_tail_pos (h : leadOf b = some lead) : 0 < lead.tail := by
  have := (leadOf_cases h).2
  omega

theorem leadOf_ascii (h : b.toNat < 0x80) : leadOf b = none := by
  cases hl : leadOf b with
  | none => rfl
  | some lead => have := (leadOf_cases hl).1; omega

theorem continues_append (hpos : 0 < lead.tail) (h : lead.tail ≤ s.length) (rest : Bytes) :
    Continues lead (s ++ rest) ↔ Continues lead s := by
  obtain ⟨b, t, rfl⟩ := exists_cons_of_length_pos (by omega : 0 < s.length)
  unfold Continues
  rw [take_append_of_le_length h]
  simp only [cons_append, head?_cons, length_cons, length_append] at h ⊢
  constructor
  · rintro ⟨-, h2, h3⟩
    exact ⟨h, h2, h3⟩
  · rintro ⟨-, h2, h3⟩
    exact ⟨by omega, h2, h3⟩

theorem continues_length (h : Continues lead s) : lead.tail ≤ s.length := h.1

theorem charLength_ascii (h : b.toNat < 0x80) (t : Bytes) : charLength (b :: t) = some 1 := by
  simp [charLength, h]

theorem charLength_lead (h : leadOf b = some lead) (t : Bytes) :
    charLength (b :: t) = if Continues lead t then some (lead.tail + 1) else none := by
  have hb : ¬ b.toNat < 0x80 := by have := (leadOf_cases h).1; omega
  simp [charLength, hb, h]

theorem charLength_cases (h : charLength s = some n) :
    (∃ b t, s = b :: t ∧ b.toNat < 0x80 ∧ n = 1) ∨
      ∃ b t lead, s = b :: t ∧ leadOf b = some lead ∧ Continues lead t ∧ n = lead.tail + 1 := by
  cases s with
  | nil => simp [charLength] at h
  | cons b t =>
    by_cases hb : b.toNat < 0x80
    · rw [charLength_ascii hb] at h
      exact .inl ⟨b, t, rfl, hb, by simpa using h.symm⟩
    · cases hl : leadOf b with
      | none => simp [charLength, hb, hl] at h
      | some lead =>
        rw [charLength_lead hl] at h
        split_ifs at h with hc
        exact .inr ⟨b, t, lead, rfl, hl, hc, by simpa using h.symm⟩

theorem charLength_pos (h : charLength s = some n) : 0 < n := by
  obtain ⟨_, _, _, _, rfl⟩ | ⟨_, _, _, _, _, _, rfl⟩ := charLength_cases h <;> omega

theorem charLength_le (h : charLength s = some n) : n ≤ s.length := by
  obtain ⟨b, t, rfl, _, rfl⟩ | ⟨b, t, lead, rfl, _, hc, rfl⟩ := charLength_cases h
  · simp
  · have := continues_length hc
    simp only [length_cons]
    omega

theorem charLength_append (h : charLength s = some n) (rest : Bytes) :
    charLength (s ++ rest) = some n := by
  obtain ⟨b, t, rfl, hb, rfl⟩ | ⟨b, t, lead, rfl, hl, hc, rfl⟩ := charLength_cases h
  · exact charLength_ascii hb _
  · rw [cons_append, charLength_lead hl, if_pos]
    exact (continues_append (leadOf_tail_pos hl) hc.1 rest).mpr hc

theorem isChar_take (h : charLength s = some n) : IsChar (s.take n) := by
  have hle := charLength_le h
  unfold IsChar
  rw [length_take, min_eq_left hle]
  obtain ⟨b, t, rfl, hb, rfl⟩ | ⟨b, t, lead, rfl, hl, hc, rfl⟩ := charLength_cases h
  · exact charLength_ascii hb _
  · rw [take_succ_cons, charLength_lead hl, if_pos]
    have hlen : lead.tail ≤ (t.take lead.tail).length := by
      rw [length_take]; have := hc.1; omega
    rw [← continues_append (leadOf_tail_pos hl) hlen (t.drop lead.tail), take_append_drop]
    exact hc

theorem IsChar.ne_nil (h : IsChar c) : c ≠ [] := by
  rintro rfl
  simp [IsChar, charLength] at h

theorem IsChar.charLength_append (h : IsChar c) (rest : Bytes) :
    charLength (c ++ rest) = some c.length :=
  Utf8Sequences.charLength_append h rest

theorem isChar_ascii (h : b.toNat < 0x80) : IsChar [b] := charLength_ascii h []

/-- A character is one ASCII byte, or bytes from 0x80 up only. -/
theorem isChar_cases (h : IsChar c) :
    (∃ b : UInt8, b.toNat < 0x80 ∧ c = [b]) ∨ ∀ b ∈ c, 0x80 ≤ b.toNat := by
  obtain ⟨b, t, rfl, hb, hn⟩ | ⟨b, t, lead, rfl, hl, ⟨-, hhead, htail⟩, hn⟩ := charLength_cases h
  · obtain rfl : t = [] := length_eq_zero_iff.mp (by simpa using hn)
    exact .inl ⟨b, hb, rfl⟩
  · right
    have hlen : t.length = lead.tail := by simpa using hn
    rw [← hlen, take_length] at htail
    have hlow : 0x80 ≤ lead.low := by
      obtain ⟨-, -, rfl⟩ | ⟨-, -, -, h, -⟩ | ⟨-, -, -, h, -⟩ := leadOf_ranges hl
      · exact le_rfl
      · exact h
      · exact h
    intro c hc
    rcases mem_cons.mp hc with rfl | hc
    · exact (leadOf_cases hl).1
    · cases t with
      | nil => simp at hc
      | cons d u =>
        rcases mem_cons.mp hc with rfl | hc
        · have := (hhead c (by simp)).1
          omega
        · exact (htail c (by simpa using hc)).1

theorem text_singleton (h : IsChar c) : Text c := by
  simpa using Text.cons h .nil

theorem text_append (hs : Text s) (ht : Text t) : Text (s ++ t) := by
  induction hs with
  | nil => exact ht
  | cons hc _ ih => rw [append_assoc]; exact .cons hc ih

theorem text_ascii (h : ∀ b ∈ s, b.toNat < 0x80) : Text s := by
  induction s with
  | nil => exact .nil
  | cons b t ih =>
    exact .cons (isChar_ascii (h b (by simp))) (ih fun c hc => h c (by simp [hc]))

theorem text_dec (n : ℕ) : Text (dec n) :=
  text_ascii fun b hb => by have := (between_of_mem_dec n b hb).2; omega

/-- The first character of a text is found by measuring. -/
theorem text_uncons (h : Text s) (hne : s ≠ []) : ∃ n, charLength s = some n ∧ Text (s.drop n) := by
  cases h with
  | nil => exact absurd rfl hne
  | @cons c t hc ht => exact ⟨c.length, hc.charLength_append t, by simpa using ht⟩

theorem text_of_append (h : Text (s ++ t)) (hs : Text s) : Text t := by
  induction hs with
  | nil => exact h
  | @cons c u hc _ ih =>
    rw [append_assoc] at h
    obtain ⟨n, hn, hd⟩ := text_uncons h (by simp [hc.ne_nil])
    rw [hc.charLength_append] at hn
    obtain rfl := Option.some.inj hn
    exact ih (by simpa using hd)

/-- No character straddles an ASCII byte. -/
theorem text_split_ascii {u : Bytes} (hb : b.toNat < 0x80) (h : Text (s ++ b :: u)) :
    Text s ∧ Text u := by
  generalize hw : s ++ b :: u = w at h
  induction h generalizing s with
  | nil => simp at hw
  | @cons c w hc htail ih =>
    rcases append_eq_append_iff.mp hw with ⟨v, rfl, hv⟩ | ⟨v, rfl, hv⟩
    · cases v with
      | nil =>
        obtain rfl : b :: u = w := by simpa using hv
        rw [append_nil] at hc
        exact ⟨text_singleton hc, text_of_append (s := [b]) htail (text_ascii (by simpa using hb))⟩
      | cons x v =>
        obtain ⟨rfl, rfl⟩ : b = x ∧ u = v ++ w := by simpa using hv
        rcases isChar_cases hc with ⟨y, -, hy⟩ | hhigh
        · cases s with
          | nil =>
            obtain ⟨-, rfl⟩ : b = y ∧ v = [] := by simpa using hy
            exact ⟨.nil, by simpa using htail⟩
          | cons z s => simp at hy
        · have := hhigh b (by simp)
          omega
    · obtain ⟨hs, hu⟩ := ih hv.symm
      exact ⟨.cons hc hs, hu⟩

/-- The check that a byte string is a text, one character after the other. -/
def isTextFrom : ℕ → Bytes → Bool
  | 0, s => s.isEmpty
  | fuel + 1, s =>
    match charLength s with
    | none => s.isEmpty
    | some n => isTextFrom fuel (s.drop n)

theorem isTextFrom_iff (fuel : ℕ) (s : Bytes) (h : s.length ≤ fuel) :
    isTextFrom fuel s = true ↔ Text s := by
  induction fuel generalizing s with
  | zero =>
    obtain rfl : s = [] := length_eq_zero_iff.mp (by omega)
    simp [isTextFrom, Text.nil]
  | succ fuel ih =>
    rw [isTextFrom]
    cases hc : charLength s with
    | none =>
      constructor
      · intro he
        obtain rfl := List.isEmpty_iff.mp he
        exact .nil
      · intro ht
        rw [List.isEmpty_iff]
        by_contra hne
        obtain ⟨n, hn, -⟩ := text_uncons ht hne
        simp [hc] at hn
    | some n =>
      have hpos := charLength_pos hc
      have hle := charLength_le hc
      rw [ih (s.drop n) (by rw [length_drop]; omega)]
      constructor
      · intro ht
        rw [← take_append_drop n s]
        exact .cons (isChar_take hc) ht
      · intro ht
        obtain ⟨m, hm, hd⟩ := text_uncons ht (by rintro rfl; simp [charLength] at hc)
        rw [hc] at hm
        obtain rfl := Option.some.inj hm
        exact hd

instance (s : Bytes) : Decidable (Text s) :=
  decidable_of_iff _ (isTextFrom_iff s.length s le_rfl)

theorem isChar_of_lead (hl : leadOf b = some lead) (hc : Continues lead t)
    (ht : t.length = lead.tail) : IsChar (b :: t) := by
  unfold IsChar
  rw [charLength_lead hl, if_pos hc, length_cons, ht]

theorem leadOf_eq_of_toNat (n : ℕ) (h : n < 256) :
    leadOf (UInt8.ofNat n) =
      if 0xc2 ≤ n ∧ n ≤ 0xdf then some ⟨1, 0x80, 0xbf⟩
      else if n = 0xe0 then some ⟨2, 0xa0, 0xbf⟩
      else if 0xe1 ≤ n ∧ n ≤ 0xec then some ⟨2, 0x80, 0xbf⟩
      else if n = 0xed then some ⟨2, 0x80, 0x9f⟩
      else if 0xee ≤ n ∧ n ≤ 0xef then some ⟨2, 0x80, 0xbf⟩
      else if n = 0xf0 then some ⟨3, 0x90, 0xbf⟩
      else if 0xf1 ≤ n ∧ n ≤ 0xf3 then some ⟨3, 0x80, 0xbf⟩
      else if n = 0xf4 then some ⟨3, 0x80, 0x8f⟩
      else none := by
  simp only [leadOf, Between, toNat_ofNat_lt h]

theorem isChar_utf8EncodeChar (c : Char) : IsChar (String.utf8EncodeChar c) := by
  have hv : c.val.toNat < 0xd800 ∨ (0xdfff < c.val.toNat ∧ c.val.toNat < 0x110000) := c.valid
  unfold String.utf8EncodeChar
  generalize c.val.toNat = v at hv
  dsimp only
  split_ifs with h1 h2 h3
  · exact isChar_ascii (by rw [toNat_ofNat_lt] <;> omega)
  · refine isChar_of_lead (show leadOf _ = some ⟨1, 0x80, 0xbf⟩ from ?_) ?_ rfl
    · rw [leadOf_eq_of_toNat _ (by omega), if_pos (by omega)]
    · simp [Continues, Between]; omega
  · have hb : v / 4096 % 16 + 0xe0 < 256 := by omega
    have hlow : ∃ lead, leadOf (UInt8.ofNat (v / 4096 % 16 + 0xe0)) = some lead ∧ lead.tail = 2 ∧
        lead.low ≤ v / 64 % 64 + 0x80 ∧ v / 64 % 64 + 0x80 ≤ lead.high := by
      rw [leadOf_eq_of_toNat _ hb]
      split_ifs <;> first | omega | exact ⟨_, rfl, rfl, by dsimp only; omega, by dsimp only; omega⟩
    obtain ⟨⟨tail, low, high⟩, hl, rfl, hlo, hhi⟩ := hlow
    dsimp only at hlo hhi
    refine isChar_of_lead hl ?_ rfl
    simp [Continues, Between]
    omega
  · have hb : v / 262144 % 8 + 0xf0 < 256 := by omega
    have hlow : ∃ lead, leadOf (UInt8.ofNat (v / 262144 % 8 + 0xf0)) = some lead ∧
        lead.tail = 3 ∧ lead.low ≤ v / 4096 % 64 + 0x80 ∧ v / 4096 % 64 + 0x80 ≤ lead.high := by
      rw [leadOf_eq_of_toNat _ hb]
      split_ifs <;> first | omega | exact ⟨_, rfl, rfl, by dsimp only; omega, by dsimp only; omega⟩
    obtain ⟨⟨tail, low, high⟩, hl, rfl, hlo, hhi⟩ := hlow
    dsimp only at hlo hhi
    refine isChar_of_lead hl ?_ rfl
    simp [Continues, Between]
    omega

theorem ofNat_eq (h : n = b.toNat) : UInt8.ofNat n = b := by
  subst h
  exact UInt8.ofNat_toNat

/-- The beginning of a character that is cut before its end. -/
def CutChar (r : Bytes) : Prop := ∃ c, IsChar c ∧ r <+: c ∧ r.length < c.length

/-- What is read from the beginning of a text is a text followed by at most one cut character. -/
theorem text_prefix_cases (ht : Text t) (hs : s <+: t) :
    ∃ a r, s = a ++ r ∧ Text a ∧ (r = [] ∨ r ≠ [] ∧ CutChar r) := by
  induction ht generalizing s with
  | nil => exact ⟨[], [], by simpa using hs, .nil, .inl rfl⟩
  | @cons c t hc _ ih =>
    by_cases hlen : s.length < c.length
    · have hpre : s <+: c := prefix_of_prefix_length_le hs (c.prefix_append t) hlen.le
      by_cases hnil : s = []
      · exact ⟨[], [], by simpa using hnil, .nil, .inl rfl⟩
      · exact ⟨[], s, rfl, .nil, .inr ⟨hnil, c, hc, hpre, hlen⟩⟩
    · obtain ⟨u, rfl⟩ := prefix_of_prefix_length_le (c.prefix_append t) hs (by omega)
      obtain ⟨a, r, rfl, ha, hr⟩ := ih ((prefix_append_right_inj c).mp hs)
      exact ⟨c ++ a, r, by simp, .cons hc ha, hr⟩

theorem charLength_cut (h : CutChar r) : charLength r = none := by
  obtain ⟨c, hc, ⟨u, rfl⟩, hlt⟩ := h
  cases hr : charLength r with
  | none => rfl
  | some n =>
    have hle := charLength_le hr
    have hsame := (charLength_append hr u).symm.trans hc
    obtain rfl := Option.some.inj hsame
    omega

theorem not_text_cut (hne : r ≠ []) (h : CutChar r) : ¬ Text r := by
  intro ht
  obtain ⟨n, hn, -⟩ := text_uncons ht hne
  rw [charLength_cut h] at hn
  simp at hn

/-- The length of the complete characters at the start of a byte string. -/
def completeFrom : ℕ → Bytes → ℕ
  | 0, _ => 0
  | fuel + 1, s =>
    match charLength s with
    | none => 0
    | some n => n + completeFrom fuel (s.drop n)

def completeLength (s : Bytes) : ℕ := completeFrom s.length s

theorem completeFrom_cut (ha : Text a) (hr : r = [] ∨ r ≠ [] ∧ CutChar r) (fuel : ℕ)
    (hf : (a ++ r).length ≤ fuel) : completeFrom fuel (a ++ r) = a.length := by
  induction ha generalizing fuel with
  | nil =>
    cases fuel with
    | zero => rfl
    | succ fuel =>
      have hnone : charLength r = none := by
        rcases hr with rfl | ⟨-, hcut⟩
        · rfl
        · exact charLength_cut hcut
      simp [completeFrom, hnone]
  | @cons c s hc _ ih =>
    have hpos : 0 < c.length := length_pos_iff.mpr hc.ne_nil
    obtain ⟨fuel, rfl⟩ : ∃ k, fuel = k + 1 := ⟨fuel - 1, by simp at hf; omega⟩
    rw [append_assoc] at hf ⊢
    rw [completeFrom, hc.charLength_append]
    dsimp only
    rw [drop_left, ih fuel (by simp at hf ⊢; omega), length_append]

/-- The complete characters of a cut text are all but the cut one. -/
theorem completeLength_cut (ha : Text a) (hr : r = [] ∨ r ≠ [] ∧ CutChar r) :
    completeLength (a ++ r) = a.length :=
  completeFrom_cut ha hr _ le_rfl

end Cubicle.Utf8Sequences
