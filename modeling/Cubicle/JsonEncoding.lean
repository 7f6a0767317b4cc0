import Cubicle.JsonSpelling
import Cubicle.JsonUtf8

/-!
# How the RPC layer prints JSON strings

`jsonEscape` prints a C string into a buffer and passes bytes from 0x80 up through;
`appendStringN` prints counted bytes and turns every byte outside a well-formed UTF-8
sequence into a `\u00xx` escape. The reader gives back what the first was given when that is
UTF-8, and `transcode` of what the second was given. `safeUtf8PrefixLength` is the cut point
of a page of output.
-/

namespace Cubicle.JsonEncoding
open ByteText Utf8Sequences JsonText JsonSpelling List

def hexDigit (n : ℕ) : UInt8 := UInt8.ofNat (if n < 10 then 0x30 + n else 0x61 + (n - 10))

/-- The letter of a two-character escape. -/
def shortEscape (b : UInt8) : Option UInt8 :=
  if b.toNat = 0x22 then some 0x22
  else if b.toNat = 0x5c then some 0x5c
  else if b.toNat = 0x08 then some 0x62
  else if b.toNat = 0x0c then some 0x66
  else if b.toNat = 0x0a then some 0x6e
  else if b.toNat = 0x0d then some 0x72
  else if b.toNat = 0x09 then some 0x74
  else none

/-- The text `\u%04x` prints for a byte. -/
def unicodeEscape (b : UInt8) : Bytes :=
  [0x5c, 0x75, 0x30, 0x30, hexDigit (b.toNat / 16), hexDigit (b.toNat % 16)]

def escapedByte (b : UInt8) : Bytes :=
  match shortEscape b with
  | some e => [0x5c, e]
  | none => if b.toNat < 0x20 then unicodeEscape b else [b]

/-- All the chunks `jsonEscape` appends. -/
def escapeText (s : Bytes) : Bytes := s.flatMap escapedByte

/-- Append to a buffer of `size` bytes, which keeps room for the terminating NUL. -/
def appendRaw (size : ℕ) (used value : Bytes) : Option Bytes :=
  if size ≤ used.length + value.length then none else some (used ++ value)

theorem appendRaw_of_lt {size : ℕ} {used value : Bytes} (h : (used ++ value).length < size) :
    appendRaw size used value = some (used ++ value) := by
  rw [List.length_append] at h
  exact if_neg (Nat.not_le.mpr h)

def appendAll (size : ℕ) (used : Bytes) (values : List Bytes) : Option Bytes :=
  values.foldlM (appendRaw size) used

def jsonEscape (size : ℕ) (value : Bytes) : Option Bytes :=
  appendAll size [] ((cstr value).map escapedByte)

/-- The body `appendStringN` prints between the quotes. -/
def stringBodyFrom : ℕ → Bytes → Bytes
  | 0, _ => []
  | _ + 1, [] => []
  | fuel + 1, b :: t =>
    match shortEscape b with
    | some e => [0x5c, e] ++ stringBodyFrom fuel t
    | none =>
      if b.toNat < 0x20 then unicodeEscape b ++ stringBodyFrom fuel t
      else if 0x80 ≤ b.toNat then
        match charLength (b :: t) with
        | some n => (b :: t).take n ++ stringBodyFrom fuel ((b :: t).drop n)
        | none => unicodeEscape b ++ stringBodyFrom fuel t
      else b :: stringBodyFrom fuel t

def stringBody (s : Bytes) : Bytes := stringBodyFrom s.length s

def appendStringN (s : Bytes) : Bytes := 0x22 :: stringBody s ++ [0x22]

/-- What a reader decodes from `stringBody`: bytes outside a well-formed sequence come back as
the two-byte encoding of the code point with the byte's value. -/
def transcodeFrom : ℕ → Bytes → Bytes
  | 0, _ => []
  | _ + 1, [] => []
  | fuel + 1, b :: t =>
    match charLength (b :: t) with
    | some n => (b :: t).take n ++ transcodeFrom fuel ((b :: t).drop n)
    | none => encodeScalar b.toNat ++ transcodeFrom fuel t

def transcode (s : Bytes) : Bytes := transcodeFrom s.length s

/-- One round of the cut-point loop: the bytes to advance by, or nothing on `break`. -/
def safeStep : Bytes → Option ℕ
  | [] => none
  | ch :: t =>
    match leadOf ch with
    | none => some 1
    | some lead =>
      if lead.tail = 1 then
        match t with
        | [] => none
        | b :: _ => if Between lead.low lead.high b then some 2 else some 1
      else if t.length < lead.tail then
        match t with
        | [] => some 1
        | b :: u =>
          if Between lead.low lead.high b ∧ ∀ c ∈ u.head?, Between 0x80 0xbf c then none
          else some 1
      else if Continues lead t then some (lead.tail + 1)
      else some 1

def safeFrom : ℕ → Bytes → ℕ
  | 0, _ => 0
  | fuel + 1, s =>
    match safeStep s with
    | none => 0
    | some n => n + safeFrom fuel (s.drop n)

def safeUtf8PrefixLength (s : Bytes) : ℕ := safeFrom s.length s

variable {size : ℕ} {r s c a : Bytes} {b e : UInt8}

theorem appendRaw_some {used value : Bytes} (h : appendRaw size used value = some r) :
    used ++ value = r ∧ r.length < size := by
  unfold appendRaw at h
  split_ifs at h with hfit
  obtain rfl := Option.some.inj h
  exact ⟨rfl, by rw [length_append]; omega⟩

theorem appendAll_eq (used : Bytes) (values : List Bytes) (h : used.length < size) :
    appendAll size used values =
      if size ≤ used.length + values.flatten.length then none
      else some (used ++ values.flatten) := by
  induction values generalizing used with
  | nil =>
    rw [if_neg (by simpa using h)]
    simp [appendAll]
  | cons v vs ih =>
    simp only [appendAll, foldlM_cons, appendRaw] at ih ⊢
    by_cases hv : size ≤ used.length + v.length
    · rw [if_pos hv, if_pos (by simp only [flatten_cons, length_append]; omega)]
      rfl
    · have hlen : (used ++ v).length < size := by rw [length_append]; omega
      rw [if_neg hv]
      simp only [Option.bind_eq_bind, Option.bind_some]
      rw [ih (used ++ v) hlen]
      simp only [length_append, flatten_cons, append_assoc, Nat.add_assoc]

theorem jsonEscape_eq (h : 0 < size) (value : Bytes) :
    jsonEscape size value =
      if size ≤ (escapeText (cstr value)).length then none
      else some (escapeText (cstr value)) := by
  rw [jsonEscape, appendAll_eq [] _ h]
  simp [escapeText, flatMap_def]

theorem hexValue_hexDigit : ∀ n < 16, hexValue (hexDigit n) = some n := by decide

theorem readHex4_escape (b : UInt8) (rest : Bytes) :
    readHex4 (0x30 :: 0x30 :: hexDigit (b.toNat / 16) :: hexDigit (b.toNat % 16) :: rest) =
      some (b.toNat, rest) := by
  have hb := toNat_lt b
  have h0 : hexValue 0x30 = some 0 := by decide
  simp only [readHex4, h0, hexValue_hexDigit _ (show b.toNat / 16 < 16 by omega),
    hexValue_hexDigit _ (show b.toNat % 16 < 16 by omega)]
  congr 2
  omega

theorem spellsItem_unicodeEscape (b : UInt8) :
    SpellsItem (unicodeEscape b) (encodeScalar b.toNat) := by
  refine ⟨⟨0x5c, _, rfl, by decide⟩, fun rest => ?_⟩
  have hb := toNat_lt b
  have hread := readHex4_escape b rest
  simp only [unicodeEscape, cons_append, nil_append]
  rw [readStringItem, if_pos (by decide), readEscape]
  simp only [show (0x75 : UInt8).toNat = 0x75 from rfl, Nat.reduceEqDiff, if_false, if_true]
  rw [readUnicode, hread]
  simp only
  rw [if_neg (by omega), if_neg (by omega)]

theorem char_ofNat_val (b : UInt8) : (Char.ofNat b.toNat).val.toNat = b.toNat := by
  have hb := toNat_lt b
  have h : (Char.ofNat b.toNat).toNat = b.toNat := by
    rw [Char.toNat_ofNat, if_pos (.inl (by omega))]
  exact h

theorem encodeScalar_ascii (h : b.toNat < 0x80) : encodeScalar b.toNat = [b] := by
  have hv := char_ofNat_val b
  simp only [encodeScalar, String.utf8EncodeChar, hv]
  rw [if_pos (by omega), ofNat_eq rfl]

theorem readEscape_shortEscape (h : shortEscape b = some e) (rest : Bytes) :
    readEscape (e :: rest) = some ([b], rest) := by
  unfold shortEscape at h
  split_ifs at h with h1 h2 h3 h4 h5 h6 h7 <;> obtain rfl := Option.some.inj h
  · rw [eq_of_toNat_eq (b := b) (c := 0x22) h1]; rfl
  · rw [eq_of_toNat_eq (b := b) (c := 0x5c) h2]; rfl
  · rw [eq_of_toNat_eq (b := b) (c := 0x08) h3]; rfl
  · rw [eq_of_toNat_eq (b := b) (c := 0x0c) h4]; rfl
  · rw [eq_of_toNat_eq (b := b) (c := 0x0a) h5]; rfl
  · rw [eq_of_toNat_eq (b := b) (c := 0x0d) h6]; rfl
  · rw [eq_of_toNat_eq (b := b) (c := 0x09) h7]; rfl

theorem shortEscape_lt (h : shortEscape b = some e) : b.toNat < 0x80 := by
  unfold shortEscape at h
  split_ifs at h <;> omega

theorem shortEscape_none (h : shortEscape b = none) : b.toNat ≠ 0x22 ∧ b.toNat ≠ 0x5c := by
  unfold shortEscape at h
  split_ifs at h with h1 h2
  exact ⟨h1, h2⟩

/-- Every byte below 0x80 comes back from its escaped form. -/
theorem spellsItem_escapedByte (h : b.toNat < 0x80) : SpellsItem (escapedByte b) [b] := by
  unfold escapedByte
  cases hs : shortEscape b with
  | some e => exact spellsItem_escape (readEscape_shortEscape hs)
  | none =>
    obtain ⟨h1, h2⟩ := shortEscape_none hs
    dsimp only
    split_ifs with h3
    · rw [← encodeScalar_ascii h]
      exact spellsItem_unicodeEscape b
    · exact spellsItem_char (isChar_ascii h) (by simpa using ⟨h1, h2, by omega⟩)

/-- The strings `appendStringN` prints are read back as the transcoded bytes. -/
theorem spells_stringBodyFrom (fuel : ℕ) (s : Bytes) :
    SpellsString (stringBodyFrom fuel s) (transcodeFrom fuel s) := by
  induction fuel generalizing s with
  | zero => exact .nil
  | succ fuel ih =>
    cases s with
    | nil => exact .nil
    | cons b t =>
      by_cases hb : b.toNat < 0x80
      · have hbody : stringBodyFrom (fuel + 1) (b :: t) =
            escapedByte b ++ stringBodyFrom fuel t := by
          rw [stringBodyFrom, escapedByte]
          cases hs : shortEscape b with
          | some e => rfl
          | none =>
            dsimp only
            split_ifs with h1 h2
            · rfl
            · omega
            · rfl
        have hcode : transcodeFrom (fuel + 1) (b :: t) = [b] ++ transcodeFrom fuel t := by
          rw [transcodeFrom, charLength_ascii hb]
          rfl
        rw [hbody, hcode]
        exact .cons (spellsItem_escapedByte hb) (ih t)
      · have hs : shortEscape b = none := by
          cases h : shortEscape b with
          | none => rfl
          | some e => exact absurd (shortEscape_lt h) hb
        rw [stringBodyFrom, transcodeFrom, hs]
        dsimp only
        rw [if_neg (by omega), if_pos (by omega)]
        cases hc : charLength (b :: t) with
        | none => exact .cons (spellsItem_unicodeEscape b) (ih t)
        | some n =>
          refine .cons (spellsItem_char (isChar_take hc) ?_) (ih _)
          have hpos := charLength_pos hc
          intro c hc'
          obtain ⟨n, rfl⟩ : ∃ k, n = k + 1 := ⟨n - 1, by omega⟩
          obtain rfl : b = c := by simpa using hc'
          omega

theorem stringBodyFrom_length_le (fuel : ℕ) (s : Bytes) :
    (stringBodyFrom fuel s).length ≤ 6 * s.length := by
  induction fuel generalizing s with
  | zero => simp [stringBodyFrom]
  | succ fuel ih =>
    cases s with
    | nil => simp [stringBodyFrom]
    | cons b t =>
      have ht := ih t
      rw [stringBodyFrom]
      split
      · simp only [length_append, length_cons, length_nil]
        omega
      · split_ifs
        · simp only [length_append, unicodeEscape, length_cons, length_nil]
          omega
        · split
          · rename_i n hn
            have hle := charLength_le hn
            have hd := ih ((b :: t).drop n)
            simp only [length_append, length_take, length_drop] at hd ⊢
            omega
          · simp only [length_append, unicodeEscape, length_cons, length_nil]
            omega
        · simp only [length_cons]
          omega

theorem visible_unicodeEscape (b : UInt8) : ∀ c ∈ unicodeEscape b, 0x20 ≤ c.toNat := by
  have hdigit : ∀ n < 16, 0x20 ≤ (hexDigit n).toNat := by decide
  have hhigh := hdigit (b.toNat / 16) (by have := toNat_lt b; omega)
  have hlow := hdigit (b.toNat % 16) (by omega)
  simp only [unicodeEscape, forall_mem_cons, not_mem_nil, false_imp_iff, implies_true,
    and_true]
  exact ⟨by decide, by decide, by decide, by decide, hhigh, hlow⟩

theorem appendStringN_length_le (s : Bytes) : (appendStringN s).length ≤ 6 * s.length + 2 := by
  have := stringBodyFrom_length_le s.length s
  simp only [appendStringN, stringBody, length_append, length_cons, length_nil]
  omega

theorem spells_stringBody (s : Bytes) : SpellsString (stringBody s) (transcode s) :=
  spells_stringBodyFrom _ s

theorem spells_appendStringN (s : Bytes) : Spells (appendStringN s) (.str (transcode s)) :=
  spells_str (spells_stringBody s)

theorem text_transcodeFrom (fuel : ℕ) (s : Bytes) : Text (transcodeFrom fuel s) := by
  induction fuel generalizing s with
  | zero => exact .nil
  | succ fuel ih =>
    cases s with
    | nil => exact .nil
    | cons b t =>
      rw [transcodeFrom]
      cases hc : charLength (b :: t) with
      | none => exact text_append (JsonUtf8.text_encodeScalar _) (ih t)
      | some n => exact .cons (isChar_take hc) (ih _)

theorem transcodeFrom_text (h : Text s) (fuel : ℕ) (hf : s.length ≤ fuel) :
    transcodeFrom fuel s = s := by
  induction h generalizing fuel with
  | nil => cases fuel <;> rfl
  | @cons c s hc _ ih =>
    obtain ⟨b, t, rfl⟩ := exists_cons_of_ne_nil hc.ne_nil
    rw [length_append, length_cons] at hf
    obtain ⟨fuel, rfl⟩ : ∃ k, fuel = k + 1 := ⟨fuel - 1, by omega⟩
    have hlen := hc.charLength_append s
    rw [cons_append] at hlen ⊢
    rw [transcodeFrom, hlen]
    dsimp only
    rw [← cons_append, take_left, drop_left, ih fuel (by omega)]

theorem encodeScalar_length_le (b : UInt8) : (encodeScalar b.toNat).length ≤ 2 := by
  have hb := toNat_lt b
  simp only [encodeScalar, String.utf8EncodeChar, char_ofNat_val]
  split_ifs <;> first | omega | simp

theorem transcodeFrom_length_le (fuel : ℕ) (s : Bytes) :
    (transcodeFrom fuel s).length ≤ 2 * s.length := by
  induction fuel generalizing s with
  | zero => simp [transcodeFrom]
  | succ fuel ih =>
    cases s with
    | nil => simp [transcodeFrom]
    | cons b t =>
      rw [transcodeFrom]
      cases hc : charLength (b :: t) with
      | none =>
        have h1 := encodeScalar_length_le b
        have h2 := ih t
        simp only [length_append, length_cons]
        omega
      | some n =>
        have hle := charLength_le hc
        have h2 := ih ((b :: t).drop n)
        simp only [length_append, length_take, length_drop] at h2 ⊢
        omega

theorem transcode_length_le (s : Bytes) : (transcode s).length ≤ 2 * s.length :=
  transcodeFrom_length_le _ s

theorem encodeScalar_byte (hb : b ≠ 0) : encodeScalar b.toNat ≠ [] ∧ 0 ∉ encodeScalar b.toNat := by
  have hall : ∀ n : Fin 256, n ≠ 0 → encodeScalar n ≠ [] ∧ 0 ∉ encodeScalar n := by
    decide +kernel
  exact hall ⟨b.toNat, b.toNat_lt⟩ fun h => hb (eq_of_toNat_eq (congrArg Fin.val h))

theorem transcodeFrom_nonzero {fuel : ℕ} (hf : s.length ≤ fuel) (h0 : 0 ∉ s) :
    s.length ≤ (transcodeFrom fuel s).length ∧ 0 ∉ transcodeFrom fuel s := by
  induction fuel generalizing s with
  | zero =>
    obtain rfl : s = [] := length_eq_zero_iff.mp (by omega)
    simp [transcodeFrom]
  | succ fuel ih =>
    cases s with
    | nil => simp [transcodeFrom]
    | cons b t =>
      rw [transcodeFrom]
      cases hc : charLength (b :: t) with
      | none =>
        have hb := encodeScalar_byte (b := b) fun h => h0 (by simp [h])
        have hpos : 0 < (encodeScalar b.toNat).length := length_pos_iff.mpr hb.1
        obtain ⟨hlen, hzero⟩ := ih (s := t) (by simpa using hf) fun h => h0 (by simp [h])
        simp only [length_append, length_cons, mem_append, not_or]
        exact ⟨by omega, hb.2, hzero⟩
      | some n =>
        have hle := charLength_le hc
        have hpos := charLength_pos hc
        obtain ⟨hlen, hzero⟩ := ih (s := (b :: t).drop n)
          (by rw [length_drop]; omega) fun h => h0 (mem_of_mem_drop h)
        simp only [length_append, length_take, mem_append, not_or] at hlen ⊢
        rw [length_drop] at hlen
        exact ⟨by omega, fun h => h0 (mem_of_mem_take h), hzero⟩

theorem transcode_eq_self_iff (s : Bytes) : transcode s = s ↔ Text s := by
  constructor
  · intro h
    rw [← h]
    exact text_transcodeFrom _ s
  · intro h
    exact transcodeFrom_text h _ le_rfl

theorem escapeText_append (s t : Bytes) : escapeText (s ++ t) = escapeText s ++ escapeText t :=
  flatMap_append

theorem escapedByte_high (h : 0x80 ≤ b.toNat) : escapedByte b = [b] := by
  have hs : shortEscape b = none := by
    cases hs : shortEscape b with
    | none => rfl
    | some e => have := shortEscape_lt hs; omega
  simp only [escapedByte, hs]
  rw [if_neg (by omega)]

theorem escapeText_high (h : ∀ b ∈ c, 0x80 ≤ b.toNat) : escapeText c = c := by
  induction c with
  | nil => rfl
  | cons b t ih =>
    rw [escapeText, flatMap_cons, escapedByte_high (h b (by simp)), ← escapeText,
      ih fun c hc => h c (by simp [hc])]
    rfl

theorem spells_escapeText (h : Text s) : SpellsString (escapeText s) s := by
  induction h with
  | nil => exact .nil
  | @cons c s hc _ ih =>
    rw [escapeText_append]
    refine spellsString_append ?_ ih
    rcases isChar_cases hc with ⟨b, hb, rfl⟩ | hhigh
    · simpa [escapeText] using spellsString_item (spellsItem_escapedByte hb)
    · rw [escapeText_high hhigh]
      refine spellsString_item (spellsItem_char hc ?_)
      intro b hb
      have := hhigh b (mem_of_mem_head? hb)
      omega

theorem hexDigit_lt : ∀ n < 16, (hexDigit n).toNat < 0x80 := by decide

theorem escapedByte_ascii (h : b.toNat < 0x80) : ∀ c ∈ escapedByte b, c.toNat < 0x80 := by
  unfold escapedByte shortEscape
  have h1 := hexDigit_lt (b.toNat / 16) (by omega)
  have h2 := hexDigit_lt (b.toNat % 16) (by omega)
  split_ifs <;> simp [unicodeEscape, h1, h2, h]

theorem escapedByte_ne_nil (b : UInt8) : escapedByte b ≠ [] := by
  unfold escapedByte unicodeEscape
  split
  · simp
  · split_ifs <;> simp

theorem zero_notMem_escapeText (s : Bytes) : 0 ∉ escapeText s := by
  simp only [escapeText, mem_flatMap, not_exists, not_and]
  intro b _ h0
  have hhex : ∀ n < 16, hexDigit n ≠ 0 := by decide
  have h1 := hhex (b.toNat / 16) (by have := toNat_lt b; omega)
  have h2 := hhex (b.toNat % 16) (by omega)
  unfold escapedByte shortEscape at h0
  split_ifs at h0 <;> simp [unicodeEscape, h1.symm, h2.symm] at h0
  subst h0
  contradiction

theorem length_le_escapeText (s : Bytes) : s.length ≤ (escapeText s).length := by
  induction s with
  | nil => simp
  | cons b t ih =>
    have hb : 0 < (escapedByte b).length := length_pos_iff.mpr (escapedByte_ne_nil b)
    rw [escapeText, flatMap_cons, ← escapeText, length_append, length_cons]
    omega

/-- A beginning of the escaped text without ASCII bytes is a beginning of the text itself. -/
theorem escapeText_high_prefix {u : Bytes} (hc : ∀ b ∈ c, 0x80 ≤ b.toNat)
    (h : escapeText s = c ++ u) : ∃ t, s = c ++ t ∧ u = escapeText t := by
  induction c generalizing s with
  | nil => exact ⟨s, rfl, h.symm⟩
  | cons x c ih =>
    have hx := hc x (by simp)
    cases s with
    | nil => simp [escapeText] at h
    | cons b t =>
      rw [escapeText, flatMap_cons] at h
      by_cases hb : b.toNat < 0x80
      · obtain ⟨y, ys, hy⟩ := exists_cons_of_ne_nil (escapedByte_ne_nil b)
        have hlt := escapedByte_ascii hb y (by simp [hy])
        rw [hy, cons_append, cons_append] at h
        obtain rfl := (List.cons.inj h).1
        omega
      · rw [escapedByte_high (by omega), singleton_append, cons_append] at h
        obtain ⟨rfl, htail⟩ := List.cons.inj h
        obtain ⟨t', rfl, hu⟩ := ih (fun y hy => hc y (by simp [hy])) htail
        exact ⟨t', rfl, hu⟩

theorem text_of_escapeText (n : ℕ) (s : Bytes) (hn : s.length ≤ n) (h : Text (escapeText s)) :
    Text s := by
  induction n generalizing s with
  | zero =>
    obtain rfl : s = [] := length_eq_zero_iff.mp (by omega)
    exact .nil
  | succ n ih =>
    cases s with
    | nil => exact .nil
    | cons b t =>
      rw [length_cons] at hn
      by_cases hb : b.toNat < 0x80
      · rw [escapeText, flatMap_cons, ← escapeText] at h
        exact .cons (isChar_ascii hb)
          (ih t (by omega) (text_of_append h (text_ascii (escapedByte_ascii hb))))
      · generalize hs : b :: t = s at *
        generalize he : escapeText s = e at h
        cases h with
        | nil =>
          subst hs
          simp [escapeText, escapedByte_ne_nil] at he
        | @cons c u hc hu =>
          have hhigh : ∀ x ∈ c, 0x80 ≤ x.toNat := by
            rcases isChar_cases hc with ⟨x, hx, rfl⟩ | hhigh
            · subst hs
              rw [escapeText, flatMap_cons, escapedByte_high (by omega)] at he
              obtain rfl : b = x := by simpa using (List.cons.inj he).1
              exact absurd hx hb
            · exact hhigh
          obtain ⟨t', rfl, rfl⟩ := escapeText_high_prefix hhigh he
          have hpos : 0 < c.length := length_pos_iff.mpr hc.ne_nil
          have hlen := congrArg List.length hs
          rw [length_append, length_cons] at hlen
          exact .cons hc (ih t' (by omega) hu)

theorem text_escapeText_iff (s : Bytes) : Text (escapeText s) ↔ Text s := by
  constructor
  · exact text_of_escapeText s.length s le_rfl
  · intro h
    induction h with
    | nil => exact .nil
    | @cons c s hc _ ih =>
      rw [escapeText_append]
      refine text_append ?_ ih
      rcases isChar_cases hc with ⟨b, hb, rfl⟩ | hhigh
      · simpa [escapeText] using text_ascii (escapedByte_ascii hb)
      · rw [escapeText_high hhigh]
        exact text_singleton hc

theorem safeStep_char (h : IsChar c) (rest : Bytes) : safeStep (c ++ rest) = some c.length := by
  obtain ⟨b, t, rfl, hb, hn⟩ | ⟨b, t, lead, rfl, hl, hc, hn⟩ := charLength_cases h
  · rw [hn, cons_append, safeStep, leadOf_ascii hb]
  · have hlen : t.length = lead.tail := by simpa using hn
    have hpos := leadOf_tail_pos hl
    have hcont := (continues_append hpos hlen.ge rest).mpr hc
    rw [hn, cons_append, safeStep, hl]
    dsimp only
    split_ifs with h1 h2
    · obtain ⟨x, rfl⟩ := length_eq_one_iff.mp (hlen.trans h1)
      have hx := hc.2.1 x (by simp)
      simp [hx, h1]
    · rw [length_append] at h2
      omega
    · rfl

theorem safeFrom_text (h : Text a) (rest : Bytes) (fuel : ℕ) (hf : (a ++ rest).length ≤ fuel) :
    ∃ fuel', rest.length ≤ fuel' ∧ safeFrom fuel (a ++ rest) = a.length + safeFrom fuel' rest := by
  induction h generalizing fuel with
  | nil => exact ⟨fuel, hf, by simp⟩
  | @cons c s hc _ ih =>
    have hpos : 0 < c.length := length_pos_iff.mpr hc.ne_nil
    rw [append_assoc, length_append] at hf
    obtain ⟨fuel, rfl⟩ : ∃ k, fuel = k + 1 := ⟨fuel - 1, by omega⟩
    obtain ⟨fuel', hle, heq⟩ := ih fuel (by omega)
    refine ⟨fuel', hle, ?_⟩
    rw [append_assoc, safeFrom, safeStep_char hc]
    dsimp only
    rw [drop_left, heq, length_append, Nat.add_assoc]

/-- The lead byte of a character of three or four bytes, alone at the end of a page. -/
def LoneLead (r : Bytes) : Prop := ∃ b lead, r = [b] ∧ leadOf b = some lead ∧ 2 ≤ lead.tail

instance (r : Bytes) : Decidable (LoneLead r) :=
  match r with
  | [b] =>
    match h : leadOf b with
    | some lead =>
      if h2 : 2 ≤ lead.tail then .isTrue ⟨b, lead, rfl, h, h2⟩
      else .isFalse (by
        rintro ⟨c, l, hr, hl, h3⟩
        obtain rfl : b = c := by simpa using hr
        rw [h] at hl
        obtain rfl := Option.some.inj hl
        exact h2 h3)
    | none => .isFalse (by
        rintro ⟨c, l, hr, hl, -⟩
        obtain rfl : b = c := by simpa using hr
        simp [h] at hl)
  | [] => .isFalse (by rintro ⟨b, l, h, -⟩; simp at h)
  | _ :: _ :: _ => .isFalse (by rintro ⟨b, l, h, -⟩; simp at h)

/-- The three ways a character can be cut, and what the loop does with each. -/
theorem safeStep_cut (h : CutChar r) (hne : r ≠ []) :
    safeStep r = if LoneLead r then some 1 else none := by
  obtain ⟨c, hc, hpre, hlt⟩ := h
  obtain ⟨b, t, rfl, hb, hn⟩ | ⟨b, t, lead, rfl, hl, ⟨-, hhead, htail⟩, hn⟩ := charLength_cases hc
  · have : 0 < r.length := length_pos_iff.mpr hne
    omega
  · have hlen : t.length = lead.tail := by simpa using hn
    rw [← hlen, take_length] at htail
    obtain ⟨x, u, rfl⟩ := exists_cons_of_ne_nil hne
    obtain ⟨rfl, hu⟩ := cons_prefix_cons.mp hpre
    have hult : u.length < lead.tail := by simp only [length_cons] at hlt; omega
    rw [safeStep, hl]
    dsimp only
    cases u with
    | nil =>
      by_cases h1 : lead.tail = 1
      · have hno : ¬ LoneLead [x] := by
          rintro ⟨y, l, hy, hl', h2⟩
          obtain rfl : x = y := by simpa using hy
          rw [hl] at hl'
          obtain rfl := Option.some.inj hl'
          omega
        rw [if_pos h1, if_neg hno]
      · have hpos := leadOf_tail_pos hl
        rw [if_neg h1, if_pos hult, if_pos ⟨x, lead, rfl, hl, by omega⟩]
    | cons y w =>
      obtain ⟨t', rfl⟩ := hu
      rw [cons_append] at hhead htail
      have hy := hhead y (by simp)
      have hw : ∀ z ∈ w.head?, Between 0x80 0xbf z := by
        intro z hz
        exact htail z (by simpa using .inl (mem_of_mem_head? hz))
      have hno : ¬ LoneLead (x :: y :: w) := by
        rintro ⟨z, l, hz, -⟩
        simp at hz
      rw [length_cons] at hult
      rw [if_neg (by omega), if_pos (by simpa using hult), if_neg hno]
      dsimp only
      rw [if_pos ⟨hy, hw⟩]

/-- The cut point of complete characters followed by a cut one: before the cut character, save
when all that is left of it is the lead byte of a character of three or four bytes. -/
theorem safeUtf8PrefixLength_cut (ha : Text a) (hr : r = [] ∨ r ≠ [] ∧ CutChar r) :
    safeUtf8PrefixLength (a ++ r) = a.length + if LoneLead r then 1 else 0 := by
  obtain ⟨fuel, hle, heq⟩ := safeFrom_text ha r _ le_rfl
  rw [safeUtf8PrefixLength, heq]
  congr 1
  rcases hr with rfl | ⟨hne, hcut⟩
  · have hno : ¬ LoneLead [] := by rintro ⟨b, l, h, -⟩; simp at h
    rw [if_neg hno]
    cases fuel <;> rfl
  · have hpos : 0 < r.length := length_pos_iff.mpr hne
    obtain ⟨fuel, rfl⟩ : ∃ k, fuel = k + 1 := ⟨fuel - 1, by omega⟩
    rw [safeFrom, safeStep_cut hcut hne]
    by_cases hl : LoneLead r
    · rw [if_pos hl, if_pos hl]
      obtain ⟨b, lead, rfl, -, -⟩ := hl
      cases fuel <;> rfl
    · rw [if_neg hl, if_neg hl]

theorem escapedByte_length_le (b : UInt8) : (escapedByte b).length ≤ 6 := by
  unfold escapedByte unicodeEscape
  split
  · simp
  · split_ifs <;> simp

theorem escapeText_length_le (s : Bytes) : (escapeText s).length ≤ 6 * s.length := by
  induction s with
  | nil => simp [escapeText]
  | cons b t ih =>
    have hb := escapedByte_length_le b
    rw [escapeText, flatMap_cons, ← escapeText, length_append, length_cons]
    omega

def boolText (b : Bool) : Bytes := ascii (if b then "true" else "false")

theorem boolText_length_le (b : Bool) : (boolText b).length ≤ 5 := by
  cases b <;> decide

end Cubicle.JsonEncoding
