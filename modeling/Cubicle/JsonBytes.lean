import Cubicle.JsonUtf8
import Cubicle.JsonEncoding

/-!
# Bytes in JSON strings

Output of a process is any bytes, and travels as a JSON string. What a reader gets of it is said
here without the code: characters stay, and a byte that is part of no character becomes the
character with its value. The cut of a page is compared with the last boundary between characters.
-/

namespace Cubicle.JsonBytes
open ByteText Utf8Sequences JsonText JsonSpelling JsonEncoding List

/-- Characters are kept, and a byte at which none starts becomes a character of its own. -/
inductive Repairs : Bytes → Bytes → Prop
  | nil : Repairs [] []
  | char {c s d : Bytes} (hc : IsChar c) (h : Repairs s d) : Repairs (c ++ s) (c ++ d)
  | byte {b : UInt8} {s d : Bytes} (hb : ∀ c, IsChar c → ¬ c <+: b :: s) (h : Repairs s d) :
      Repairs (b :: s) (encodeScalar b.toNat ++ d)

variable {s a r : Bytes}

theorem isChar_prefix_iff : (∃ c, IsChar c ∧ c <+: s) ↔ ∃ n, charLength s = some n := by
  constructor
  · rintro ⟨c, hc, u, rfl⟩
    exact ⟨c.length, hc.charLength_append u⟩
  · rintro ⟨n, hn⟩
    exact ⟨s.take n, isChar_take hn, List.take_prefix n s⟩

theorem repairs_transcodeFrom (fuel : ℕ) (s : Bytes) (hf : s.length ≤ fuel) :
    Repairs s (transcodeFrom fuel s) := by
  induction fuel generalizing s with
  | zero =>
    rw [length_eq_zero_iff.mp (Nat.le_zero.mp hf)]
    exact .nil
  | succ fuel ih =>
    cases s with
    | nil => exact .nil
    | cons b t =>
      rw [transcodeFrom]
      cases hn : charLength (b :: t) with
      | none =>
        refine .byte (fun c hc hpre => ?_) (ih t (by simpa using hf))
        obtain ⟨n, hn'⟩ := isChar_prefix_iff.mp ⟨c, hc, hpre⟩
        rw [hn] at hn'
        cases hn'
      | some n =>
        have hpos := charLength_pos hn
        have hrest := ih ((b :: t).drop n) (by rw [length_drop]; omega)
        have hrepairs := Repairs.char (isChar_take hn) hrest
        rwa [take_append_drop] at hrepairs

/-- There is one way to repair a byte string. -/
theorem Repairs.unique {d e : Bytes} (hd : Repairs s d) (he : Repairs s e) : d = e := by
  induction hd generalizing e with
  | nil =>
    generalize hs : ([] : Bytes) = s at he
    cases he with
    | nil => rfl
    | char hc _ => exact absurd (append_eq_nil_iff.mp hs.symm).1 hc.ne_nil
    | byte _ _ => cases hs
  | @char c s d hc _ ih =>
    generalize hw : c ++ s = w at he
    cases he with
    | nil => exact absurd (append_eq_nil_iff.mp hw).1 hc.ne_nil
    | @char c' s' d' hc' h' =>
      -- Both characters start the same bytes, so they have the same length.
      have hlen := (hc.charLength_append s).symm.trans
        ((congrArg charLength hw).trans (hc'.charLength_append s'))
      obtain ⟨rfl, rfl⟩ := append_inj hw (Option.some.inj hlen)
      rw [ih h']
    | byte hb _ => exact absurd ⟨s, hw⟩ (hb c hc)
  | @byte b s d hb _ ih =>
    generalize hw : b :: s = w at he
    cases he with
    | nil => cases hw
    | @char c' s' d' hc' _ => exact absurd ⟨s', hw.symm⟩ (hb c' hc')
    | byte _ h' =>
      obtain ⟨rfl, rfl⟩ := List.cons.inj hw
      rw [ih h']

/-- The text that is appended for a byte string is a JSON string in UTF-8. It is read as the byte
string with everything that is not UTF-8 repaired, and as the byte string itself if it is UTF-8. -/
theorem appended_string_holds (s : Bytes) :
    Text (appendStringN s) ∧
      (∃ d, readDocument (appendStringN s) = some (.str d) ∧ ∀ e, Repairs s e ↔ e = d) ∧
      (Text s → readDocument (appendStringN s) = some (.str s)) := by
  have hread := readDocument_spelled (spells_appendStringN s)
  refine ⟨(JsonUtf8.text_of_readDocument hread).1, ⟨transcode s, hread, fun e => ?_⟩, fun hs => ?_⟩
  · have hrepairs := repairs_transcodeFrom s.length s le_rfl
    exact ⟨fun he => he.unique hrepairs, fun he => he ▸ hrepairs⟩
  · rw [hread, (transcode_eq_self_iff s).mpr hs]

/-- A place between characters, or at an end. -/
def Boundary (s : Bytes) (k : ℕ) : Prop := k ≤ s.length ∧ Text (s.take k)

/-- The first byte of a character of three or four bytes. -/
def LongLead (b : UInt8) : Prop := 0xe0 ≤ b.toNat ∧ b.toNat ≤ 0xf4

instance (b : UInt8) : Decidable (LongLead b) := inferInstanceAs (Decidable (_ ∧ _))

theorem longLead_iff (b : UInt8) : LongLead b ↔ ∃ lead, leadOf b = some lead ∧ 2 ≤ lead.tail := by
  constructor
  · rintro ⟨hlow, hhigh⟩
    cases hl : leadOf b with
    | none =>
      unfold leadOf at hl
      split_ifs at hl
      simp only [Between] at *
      omega
    | some lead =>
      refine ⟨lead, rfl, ?_⟩
      obtain ⟨-, h, -⟩ | ⟨-, -, h, -⟩ | ⟨-, -, h, -⟩ := leadOf_ranges hl <;> omega
  · rintro ⟨lead, hl, htail⟩
    obtain ⟨-, -, rfl⟩ | ⟨h, h', -⟩ | ⟨h, h', -⟩ := leadOf_ranges hl
    · exact absurd htail (by decide)
    · exact ⟨h, by omega⟩
    · exact ⟨by omega, h'⟩

theorem leadOf_tail_eq_none {c : Bytes} (hc : IsChar c) : ∀ b ∈ c.tail, leadOf b = none := by
  obtain ⟨x, t, rfl, hx, hn⟩ | ⟨x, t, lead, rfl, hl, ⟨-, hhead, htail⟩, hn⟩ := charLength_cases hc
  · obtain rfl : t = [] := length_eq_zero_iff.mp (by simpa using hn)
    simp
  · have hlen : t.length = lead.tail := by simpa using hn
    rw [← hlen, take_length] at htail
    have hhigh : lead.high ≤ 0xbf := by
      obtain ⟨-, -, rfl⟩ | ⟨-, -, -, -, h, -⟩ | ⟨-, -, -, -, h, -⟩ := leadOf_ranges hl
      · exact le_rfl
      · exact h
      · exact h
    intro b hb
    have hle : b.toNat ≤ 0xbf := by
      cases t with
      | nil => simp at hb
      | cons y u =>
        rcases mem_cons.mp hb with rfl | hu
        · exact (hhead b (by simp)).2.trans hhigh
        · exact (htail b hu).2
    cases hlead : leadOf b with
    | none => rfl
    | some l =>
      have := leadOf_ranges hlead
      omega

theorem getLast?_eq_head_or_mem_tail {α : Type*} {l : List α} {b : α} (h : b ∈ l.getLast?) :
    l = [b] ∨ b ∈ l.tail := by
  cases l with
  | nil => cases h
  | cons x t =>
    rw [getLast?_cons, Option.mem_some_iff] at h
    cases ht : t.getLast? with
    | none =>
      obtain rfl := getLast?_eq_none_iff.mp ht
      exact .inl (by simpa using h)
    | some y =>
      obtain rfl : y = b := by simpa [ht] using h
      exact .inr (mem_of_getLast? ht)

/-- A text does not end in a byte that starts a longer character. -/
theorem not_longLead_of_text (ha : Text a) : ∀ b ∈ a.getLast?, ¬ LongLead b := by
  induction ha with
  | nil => simp
  | @cons c s hc _ ih =>
    intro b hb hlong
    by_cases hs : s = []
    · rw [hs, append_nil] at hb
      obtain ⟨lead, hl, -⟩ := (longLead_iff b).mp hlong
      rcases getLast?_eq_head_or_mem_tail hb with rfl | hmem
      · -- Alone, a lead byte is no character.
        have hpos := leadOf_tail_pos hl
        have hchar : charLength [b] = some 1 := hc
        rw [charLength_lead hl, if_neg (fun hcont => by have := hcont.1; simp at this; omega)]
          at hchar
        cases hchar
      · rw [leadOf_tail_eq_none hc b hmem] at hl
        cases hl
    · rw [getLast?_append_of_ne_nil _ hs] at hb
      exact ih b hb hlong

/-- Complete characters end at the last boundary before the cut. -/
theorem greatest_boundary {n : ℕ} (hsplit : s.take n = a ++ r) (ha : Text a)
    (hr : r = [] ∨ r ≠ [] ∧ CutChar r) : IsGreatest {k | k ≤ n ∧ Boundary s k} a.length := by
  have hlen : a.length + r.length = min n s.length := by
    rw [← length_append, ← hsplit, length_take]
  have htake : ∀ k ≤ n, s.take k = (a ++ r).take k := fun k hk => by
    rw [← hsplit, take_take, min_eq_left hk]
  refine ⟨⟨by omega, by omega, ?_⟩, fun k ⟨hkn, hks, hk⟩ => ?_⟩
  · rw [htake _ (by omega), take_left]
    exact ha
  · by_contra hlt
    rw [Nat.not_le] at hlt
    -- Past the complete characters, a boundary would make a text of a cut character.
    have hcut : Text (r.take (k - a.length)) := by
      refine text_of_append ?_ ha
      rwa [htake k hkn, take_append, take_of_length_le hlt.le] at hk
    have hne : r.take (k - a.length) ≠ [] := by
      intro hnil
      have := congrArg List.length hnil
      rw [length_take, length_nil] at this
      omega
    rcases hr with rfl | ⟨-, c, hc, hpre, hlt'⟩
    · simp at hne
    · refine not_text_cut hne ⟨c, hc, (List.take_prefix _ r).trans hpre, ?_⟩ hcut
      rw [length_take]
      omega

/-- The last byte tells whether all that is left of a cut character is the byte that starts it. -/
theorem loneLead_iff (ha : Text a) (hr : r = [] ∨ r ≠ [] ∧ CutChar r) :
    LoneLead r ↔ ∃ b ∈ (a ++ r).getLast?, LongLead b := by
  rcases hr with rfl | ⟨hne, c, hc, hpre, hlt⟩
  · rw [append_nil]
    constructor
    · rintro ⟨b, lead, h, -⟩
      cases h
    · rintro ⟨b, hb, hlong⟩
      exact absurd hlong (not_longLead_of_text ha b hb)
  · rw [getLast?_append_of_ne_nil _ hne]
    constructor
    · rintro ⟨b, lead, rfl, hl, htail⟩
      exact ⟨b, by simp, (longLead_iff b).mpr ⟨lead, hl, htail⟩⟩
    · rintro ⟨b, hb, hlong⟩
      obtain ⟨lead, hl, htail⟩ := (longLead_iff b).mp hlong
      rcases getLast?_eq_head_or_mem_tail hb with rfl | hmem
      · exact ⟨b, lead, rfl, hl, htail⟩
      · obtain ⟨u, rfl⟩ := hpre
        have hmem' : b ∈ (r ++ u).tail := by
          rw [tail_append_of_ne_nil hne]
          exact mem_append_left u hmem
        rw [leadOf_tail_eq_none hc b hmem'] at hl
        cases hl

/-- The cut of a UTF-8 text is its last boundary exactly when the last byte before the cut does not
start a character of three or four bytes. -/
theorem cut_at_last_boundary_iff {s : Bytes} (hs : Text s) (n : ℕ) :
    IsGreatest {k | k ≤ n ∧ Boundary s k} (safeUtf8PrefixLength (s.take n)) ↔
      ∀ b ∈ (s.take n).getLast?, ¬ LongLead b := by
  obtain ⟨a, r, hsplit, ha, hr⟩ := text_prefix_cases hs (List.take_prefix n s)
  have hgreatest := greatest_boundary hsplit ha hr
  have hlone := loneLead_iff ha hr
  rw [hsplit, safeUtf8PrefixLength_cut ha hr]
  by_cases hl : LoneLead r
  · rw [if_pos hl]
    obtain ⟨b, hb, hlong⟩ := hlone.mp hl
    refine iff_of_false (fun h => ?_) (fun h => h b hb hlong)
    have := h.unique hgreatest
    omega
  · rw [if_neg hl, Nat.add_zero]
    refine iff_of_true hgreatest (fun b hb hlong => hl (hlone.mpr ⟨b, hb, hlong⟩))

theorem isChar_euro_sign : IsChar [0xe2, 0x82, 0xac] := by
  simp [IsChar, charLength, leadOf, Between, Continues]

/-- The euro sign, of three bytes, cut after two of them. -/
theorem cut_inside_euro_sign :
    Text [0xe2, 0x82, 0xac] ∧
      IsGreatest {k | k ≤ 2 ∧ Boundary [0xe2, 0x82, 0xac] k}
        (safeUtf8PrefixLength ([0xe2, 0x82, 0xac].take 2)) := by
  have htext : Text [0xe2, 0x82, 0xac] := .cons isChar_euro_sign .nil
  exact ⟨htext, (cut_at_last_boundary_iff htext 2).mpr (by simp [LongLead])⟩

/-- Cut after its first byte, the byte is kept: the cut is inside the character. -/
theorem euro_sign_cut_after_first_byte :
    Text [0xe2, 0x82, 0xac] ∧ safeUtf8PrefixLength ([0xe2, 0x82, 0xac].take 1) = 1 ∧
      ¬ IsGreatest {k | k ≤ 1 ∧ Boundary [0xe2, 0x82, 0xac] k}
        (safeUtf8PrefixLength ([0xe2, 0x82, 0xac].take 1)) := by
  refine ⟨.cons isChar_euro_sign .nil, by rfl, fun h => ?_⟩
  have htext : Text [0xe2] := h.1.2.2
  exact not_text_cut (by simp) ⟨_, isChar_euro_sign, by simp, by simp⟩ htext

/-- `cubicle_json_builder_append_string`, with `cubicle_json_builder_append_escaped`. -/
def appendString (value : Bytes) : Bytes := 0x22 :: escapeText (cstr value) ++ [0x22]

theorem stringBodyFrom_text {s : Bytes} (h : Text s) {fuel : ℕ} (hf : s.length ≤ fuel) :
    stringBodyFrom fuel s = escapeText s := by
  induction h generalizing fuel with
  | nil => cases fuel <;> rfl
  | @cons c s hc _ ih =>
    obtain ⟨b, t, rfl⟩ := exists_cons_of_ne_nil hc.ne_nil
    rw [length_append, length_cons] at hf
    obtain ⟨fuel, rfl⟩ : ∃ k, fuel = k + 1 := ⟨fuel - 1, by omega⟩
    rw [escapeText_append, ← ih (show s.length ≤ fuel by omega), cons_append, stringBodyFrom]
    rcases isChar_cases hc with ⟨a, ha, heq⟩ | hhigh
    · obtain ⟨rfl, rfl⟩ := cons.inj heq
      simp only [escapeText, escapedByte, flatMap_singleton, nil_append]
      split
      · rfl
      · split_ifs
        · rfl
        · omega
        · rfl
    · have hb := hhigh b mem_cons_self
      have hs : shortEscape b = none := Option.eq_none_iff_forall_not_mem.mpr fun e he => by
        have := shortEscape_lt he
        omega
      rw [escapeText_high hhigh, hs, ← cons_append, hc.charLength_append s]
      dsimp only
      rw [if_neg (by omega), if_pos hb, take_left, drop_left]

/-- Exactly the values in UTF-8 are printed as well-formed JSON by the function that copies their
bytes, and for these it prints what the one that repairs them prints. -/
theorem appendString_eq_appendStringN_iff (value : Bytes) :
    (appendString value = appendStringN (cstr value) ↔ Text (cstr value)) ∧
      ((readDocument (appendString value)).isSome ↔ Text (cstr value)) := by
  have hsame : Text (cstr value) → appendString value = appendStringN (cstr value) := fun h => by
    rw [appendString, appendStringN, stringBody, stringBodyFrom_text h le_rfl]
  have htext : (readDocument (appendString value)).isSome → Text (cstr value) := fun h => by
    obtain ⟨v, hv⟩ := Option.isSome_iff_exists.mp h
    have hquoted := (JsonUtf8.text_of_readDocument hv).1
    have hopen := text_of_append (s := [0x22]) hquoted (text_ascii (by simp))
    exact (text_escapeText_iff _).mp (text_split_ascii (by decide) hopen).1
  have hread := readDocument_spelled (spells_appendStringN (cstr value))
  refine ⟨⟨fun h => htext ?_, hsame⟩, htext, fun h => ?_⟩
  · rw [h, hread]
    rfl
  · rw [hsame h, hread]
    rfl

end Cubicle.JsonBytes
