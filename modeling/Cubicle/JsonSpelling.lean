import Cubicle.JsonText

/-!
# Texts that spell a JSON value

`Spells t v` says that the text `t` is read as the value `v` wherever it stands, whatever
follows it. The rules below build such texts the way programs print them: strings out of
characters and escapes, numbers, and objects and arrays with commas between their items.
-/

namespace Cubicle.JsonSpelling
open ByteText Utf8Sequences JsonText List

/-- A text that may follow a value: nothing, or a comma, a closing bracket or space. -/
def Delimited (rest : Bytes) : Prop :=
  ∀ b ∈ rest.head?, b.toNat = 0x2c ∨ b.toNat = 0x7d ∨ b.toNat = 0x5d ∨ isSpace b = true

/-- `item` is read as one character of a string, with decoded bytes `d`. -/
structure SpellsItem (item d : Bytes) : Prop where
  start : ∃ b t, item = b :: t ∧ b.toNat ≠ 0x22
  reads : ∀ rest, readStringItem (item ++ rest) = some (d, rest)

/-- `t`, followed by a quote, is read as the string with bytes `d`. -/
inductive SpellsString : Bytes → Bytes → Prop
  | nil : SpellsString [] []
  | cons {item d t ds : Bytes} :
      SpellsItem item d → SpellsString t ds → SpellsString (item ++ t) (d ++ ds)

structure Spells (t : Bytes) (v : Json) : Prop where
  start : ∃ b u, t = b :: u ∧ isSpace b = false ∧ b.toNat ≠ 0x5d ∧ b.toNat ≠ 0x7d
  reads : ∀ fuel rest, t.length ≤ fuel → Delimited rest →
    readValue fuel (t ++ rest) = some (v, rest)

theorem delimited_nil : Delimited [] := by simp [Delimited]

theorem delimited_comma (rest : Bytes) : Delimited (0x2c :: rest) := by simp [Delimited]

theorem delimited_brace (rest : Bytes) : Delimited (0x7d :: rest) := by simp [Delimited]

variable {b close : UInt8} {t d rest : Bytes} {n fuel : ℕ} {ts : List Bytes} {v : Json}

theorem skipSpace_cons (h : isSpace b = false) (t : Bytes) : skipSpace (b :: t) = b :: t := by
  simp [skipSpace, h]

theorem spellsItem_char {c : Bytes} (h : IsChar c)
    (hc : ∀ b ∈ c.head?, b.toNat ≠ 0x22 ∧ b.toNat ≠ 0x5c ∧ 0x20 ≤ b.toNat) : SpellsItem c c := by
  obtain ⟨b, t, rfl⟩ := exists_cons_of_ne_nil h.ne_nil
  simp only [head?_cons, Option.mem_some_iff, forall_eq'] at hc
  refine ⟨⟨b, t, rfl, hc.1⟩, fun rest => ?_⟩
  have hlen := h.charLength_append rest
  rw [cons_append] at hlen
  rw [cons_append, readStringItem, if_neg hc.2.1, if_neg (by omega), hlen]
  simp

theorem spellsItem_escape {e d : UInt8}
    (h : ∀ rest, readEscape (e :: rest) = some ([d], rest)) : SpellsItem [0x5c, e] [d] :=
  ⟨⟨0x5c, [e], rfl, by decide⟩, fun rest => h rest⟩

theorem readStringFrom_spelled (h : SpellsString t d) (fuel : ℕ) (rest : Bytes)
    (hf : t.length < fuel) : readStringFrom fuel (t ++ 0x22 :: rest) = some (d, rest) := by
  induction h generalizing fuel with
  | nil =>
    obtain ⟨fuel, rfl⟩ : ∃ k, fuel = k + 1 := ⟨fuel - 1, by simp at hf; omega⟩
    simp [readStringFrom]
  | @cons item d t ds hi _ ih =>
    obtain ⟨b, u, rfl, hb⟩ := hi.start
    obtain ⟨fuel, rfl⟩ : ∃ k, fuel = k + 1 := ⟨fuel - 1, by omega⟩
    have hitem := hi.reads (t ++ 0x22 :: rest)
    simp only [cons_append, append_assoc, length_cons, length_append] at *
    rw [readStringFrom, if_neg hb, hitem]
    simp only
    rw [ih fuel (by omega)]
    rfl

theorem readString_spelled (h : SpellsString t d) (rest : Bytes) :
    readString (t ++ 0x22 :: rest) = some (d, rest) :=
  readStringFrom_spelled h _ rest (by simp)

theorem spellsString_append {u e : Bytes} (ht : SpellsString t d) (hu : SpellsString u e) :
    SpellsString (t ++ u) (d ++ e) := by
  induction ht with
  | nil => exact hu
  | cons hi _ ih => rw [append_assoc, append_assoc]; exact .cons hi ih

theorem spellsString_item {item : Bytes} (h : SpellsItem item d) : SpellsString item d := by
  simpa using SpellsString.cons h .nil

/-- A byte that stands for itself in a string. -/
def Plain (b : UInt8) : Prop :=
  0x20 ≤ b.toNat ∧ b.toNat < 0x80 ∧ b.toNat ≠ 0x22 ∧ b.toNat ≠ 0x5c

instance (b : UInt8) : Decidable (Plain b) := inferInstanceAs (Decidable (_ ∧ _ ∧ _ ∧ _))

theorem spellsString_plain {s : Bytes} (h : ∀ b ∈ s, Plain b) : SpellsString s s := by
  induction s with
  | nil => exact .nil
  | cons b t ih =>
    obtain ⟨h1, h2, h3, h4⟩ := h b (by simp)
    have hitem : SpellsItem [b] [b] :=
      spellsItem_char (isChar_ascii h2) (by simpa using ⟨h3, h4, h1⟩)
    exact .cons hitem (ih fun c hc => h c (by simp [hc]))

theorem spells_str (h : SpellsString t d) : Spells (0x22 :: t ++ [0x22]) (.str d) := by
  refine ⟨⟨0x22, t ++ [0x22], by simp, by decide, by decide, by decide⟩, ?_⟩
  intro fuel rest hf _
  obtain ⟨fuel, rfl⟩ : ∃ k, fuel = k + 1 := ⟨fuel - 1, by simp at hf; omega⟩
  have hread := readString_spelled h rest
  simp [readValue, hread]

theorem spells_bool (b : Bool) : Spells (ascii (if b then "true" else "false")) (.bool b) := by
  cases b
  · refine ⟨⟨0x66, ascii "alse", rfl, by decide, by decide, by decide⟩, ?_⟩
    intro fuel rest hf _
    obtain ⟨fuel, rfl⟩ : ∃ k, fuel = k + 1 := ⟨fuel - 1, by simp [ascii] at hf; omega⟩
    simp [ascii, readValue, isDigit, readLiteral]
  · refine ⟨⟨0x74, ascii "rue", rfl, by decide, by decide, by decide⟩, ?_⟩
    intro fuel rest hf _
    obtain ⟨fuel, rfl⟩ : ∃ k, fuel = k + 1 := ⟨fuel - 1, by simp [ascii] at hf; omega⟩
    simp [ascii, readValue, isDigit, readLiteral]

theorem isDigit_iff (b : UInt8) : isDigit b = true ↔ Between 0x30 0x39 b := by
  simp [isDigit, Between]

theorem delimited_not_digit (h : Delimited (b :: rest)) :
    isDigit b = false ∧ b.toNat ≠ 0x2e ∧ b.toNat ≠ 0x65 ∧ b.toNat ≠ 0x45 := by
  have hb := h b (by simp)
  simp only [isSpace, Bool.or_eq_true, decide_eq_true_eq] at hb
  simp only [isDigit, Bool.and_eq_false_iff, decide_eq_false_iff_not]
  omega

theorem takeWhile_digits {ds : Bytes} (hds : ∀ b ∈ ds, Between 0x30 0x39 b) (hrest :
    Delimited rest) :
    (ds ++ rest).takeWhile isDigit = ds ∧ (ds ++ rest).dropWhile isDigit = rest := by
  induction ds with
  | nil =>
    cases rest with
    | nil => simp
    | cons b t => simp [(delimited_not_digit hrest).1]
  | cons b t ih =>
    have hb : isDigit b = true := (isDigit_iff b).mpr (hds b (by simp))
    have := ih fun c hc => hds c (by simp [hc])
    simp [hb, this.1, this.2]

theorem digitsValue_append (ds : Bytes) (b : UInt8) :
    digitsValue (ds ++ [b]) = digitsValue ds * 10 + (b.toNat - 0x30) := by
  simp [digitsValue, foldl_append]

theorem digitsValue_dec (n : ℕ) : digitsValue (dec n) = n := by
  refine dec_induction (P := fun n t => digitsValue t = n) ?_ ?_ n
  · intro n hn
    simp only [digitsValue, foldl_cons, foldl_nil]
    rw [toNat_ofNat_lt (by omega)]
    omega
  · intro n hn ih
    rw [digitsValue_append, ih, toNat_ofNat_lt (by omega)]
    omega

theorem readFraction_delimited (h : Delimited rest) : readFraction rest = some (none, rest) := by
  cases rest with
  | nil => rfl
  | cons b t => simp [readFraction, (delimited_not_digit h).2.1]

theorem readExponent_delimited (h : Delimited rest) : readExponent rest = some (none, rest) := by
  cases rest with
  | nil => rfl
  | cons b t => simp [readExponent, (delimited_not_digit h).2.2]

theorem readUnsigned_dec (negative : Bool) (whole : Bytes) (n : ℕ) (h : Delimited rest) :
    readUnsigned negative whole (dec n ++ rest) =
      (integerValue negative (dec n) (whole.take (whole.length - rest.length))).map
        fun v => (v, rest) := by
  obtain ⟨htake, hdrop⟩ := takeWhile_digits (between_of_mem_dec n) h
  have hzero : ¬ ((dec n).isEmpty ∨ ((dec n).head? = some 0x30 ∧ 1 < (dec n).length)) := by
    rintro (he | ⟨hh, hl⟩)
    · exact dec_ne_nil n (List.isEmpty_iff.mp he)
    · rw [dec_leading_zero n hh, dec_of_lt (by decide)] at hl
      simp at hl
  simp only [readUnsigned, htake, hdrop, if_neg hzero, readFraction_delimited h,
    readExponent_delimited h]

theorem dec_start (n : ℕ) : ∃ b t, dec n = b :: t ∧ Between 0x30 0x39 b := by
  obtain ⟨b, t, h⟩ := exists_cons_of_ne_nil (dec_ne_nil n)
  exact ⟨b, t, h, between_of_mem_dec n b (by simp [h])⟩

theorem spells_uint (hn : n < 2 ^ 64) : Spells (dec n) (.uint n) := by
  obtain ⟨b, t, hdec, hb⟩ := dec_start n
  have hdigit : isDigit b = true := (isDigit_iff b).mpr hb
  obtain ⟨hb1, hb2⟩ := hb
  refine ⟨⟨b, t, hdec, ?_, by omega, by omega⟩, ?_⟩
  · simp only [isSpace, Bool.or_eq_false_iff, decide_eq_false_iff_not]
    omega
  intro fuel rest hf hrest
  obtain ⟨fuel, rfl⟩ : ∃ k, fuel = k + 1 := ⟨fuel - 1, by simp [hdec] at hf; omega⟩
  have hread := readUnsigned_dec false (dec n ++ rest) n hrest
  rw [hdec, cons_append] at hread ⊢
  rw [readValue, if_neg (by omega), if_neg (by omega), if_neg (by omega), if_pos (.inr hdigit),
    readNumber, if_neg (by omega), hread, ← hdec]
  simp only [integerValue, digitsValue_dec, if_pos hn, Bool.false_eq_true, if_false,
    Option.map_some]

theorem spells_sint (hn : n + 1 ≤ 2 ^ 63) : Spells (decInt (.negSucc n)) (.sint (.negSucc n)) := by
  refine ⟨⟨0x2d, dec (n + 1), rfl, by decide, by decide, by decide⟩, ?_⟩
  intro fuel rest hf hrest
  obtain ⟨fuel, rfl⟩ : ∃ k, fuel = k + 1 := ⟨fuel - 1, by simp [decInt] at hf; omega⟩
  have hread := readUnsigned_dec true (0x2d :: dec (n + 1) ++ rest) (n + 1) hrest
  simp only [cons_append] at hread
  simp only [decInt, cons_append]
  rw [readValue, if_neg (by decide), if_neg (by decide), if_neg (by decide),
    if_pos (.inl (by decide)), readNumber, if_pos (by decide), hread]
  have hv : integerValue true (dec (n + 1)) ((0x2d :: (dec (n + 1) ++ rest)).take
      ((0x2d :: (dec (n + 1) ++ rest)).length - rest.length)) = some (.sint (.negSucc n)) := by
    simp only [integerValue, digitsValue_dec, if_pos hn, if_true]
    rfl
  rw [hv]
  rfl

/-- A number as the reader returns it. -/
def intJson : ℤ → Json
  | .ofNat n => .uint n
  | .negSucc n => .sint (.negSucc n)

theorem spells_decInt {z : ℤ} (hlow : -2 ^ 63 ≤ z) (hhigh : z < 2 ^ 63) :
    Spells (decInt z) (intJson z) := by
  cases z with
  | ofNat n => exact spells_uint (by simp at hhigh; omega)
  | negSucc n => exact spells_sint (by omega)

theorem spells_int32 (z : Int32) : Spells (decInt z.toInt) (intJson z.toInt) := by
  have hlow := z.le_toInt
  have hhigh := z.toInt_lt
  exact spells_decInt (by omega) (by omega)

def joinComma : List Bytes → Bytes
  | [] => []
  | [t] => t
  | t :: u :: ts => t ++ 0x2c :: joinComma (u :: ts)

theorem joinComma_cons (t : Bytes) (ts : List Bytes) :
    joinComma (t :: ts) = t ++ ts.flatMap (0x2c :: ·) := by
  induction ts generalizing t with
  | nil => simp [joinComma]
  | cons u us ih => rw [joinComma, ih, flatMap_cons, cons_append]

/-- The items of a joined text are UTF-8 when all of it is. -/
theorem text_of_joinComma (hb : b.toNat < 0x80) (h : Text (joinComma ts ++ b :: rest)) :
    ∀ t ∈ ts, Text t := by
  induction ts with
  | nil => simp
  | cons t ts ih =>
    cases ts with
    | nil => simpa [joinComma] using (text_split_ascii hb h).1
    | cons u us =>
      rw [joinComma, append_assoc, cons_append] at h
      obtain ⟨ht, hrest⟩ := text_split_ascii (by decide) h
      intro x hx
      rcases mem_cons.mp hx with rfl | hx
      · exact ht
      · exact ih hrest x hx

theorem zero_notMem_joinComma (h : ∀ t ∈ ts, 0 ∉ t) : 0 ∉ joinComma ts := by
  cases ts with
  | nil => simp [joinComma]
  | cons t ts =>
    rw [joinComma_cons]
    simp only [mem_append, mem_flatMap, mem_cons, not_or, not_exists, not_and]
    exact ⟨h t (by simp), fun u hu => ⟨by decide, h u (by simp [hu])⟩⟩

theorem length_le_joinComma (h : t ∈ ts) : t.length ≤ (joinComma ts).length := by
  induction ts with
  | nil => simp at h
  | cons u us ih =>
    cases us with
    | nil => simp [mem_singleton.mp h, joinComma]
    | cons w ws =>
      simp only [joinComma, length_append, length_cons]
      rcases mem_cons.mp h with rfl | h
      · omega
      · have := ih h
        omega

theorem count_le_joinComma (h : ∀ t ∈ ts, t ≠ []) : ts.length ≤ (joinComma ts).length := by
  induction ts with
  | nil => simp
  | cons u us ih =>
    have hu : 0 < u.length := length_pos_iff.mpr (h u (by simp))
    cases us with
    | nil => simp only [joinComma, length_singleton]; omega
    | cons w ws =>
      have := ih fun t ht => h t (by simp [ht])
      simp only [joinComma, length_append, length_cons] at *
      omega

/-- `t` starts like an item and the reader `item` reads it as `x` before a comma or `close`. -/
def ReadsAs {α : Type} (close : UInt8) (item : Bytes → Option (α × Bytes)) (t : Bytes)
    (x : α) : Prop :=
  (∃ b u, t = b :: u ∧ isSpace b = false) ∧
    ∀ sep rest, sep = 0x2c ∨ sep = close → item (t ++ sep :: rest) = some (x, sep :: rest)

theorem readItems_joinComma {α : Type} (hspace : isSpace close = false)
    (hcomma : close.toNat ≠ 0x2c) {item : Bytes → Option (α × Bytes)} (ps : List (Bytes × α))
    (h : ∀ p ∈ ps, ReadsAs close item p.1 p.2) (hne : ps ≠ []) (fuel : ℕ) (hf : ps.length ≤ fuel)
    (rest : Bytes) :
    readItems close.toNat item fuel (joinComma (ps.map Prod.fst) ++ close :: rest) =
      some (ps.map Prod.snd, rest) := by
  induction ps generalizing fuel with
  | nil => exact absurd rfl hne
  | cons p ps ih =>
    obtain ⟨⟨b, u, hstart, hb⟩, hreads⟩ := h p (by simp)
    obtain ⟨t, x⟩ := p
    obtain rfl : t = b :: u := hstart
    obtain ⟨fuel, rfl⟩ : ∃ k, fuel = k + 1 := ⟨fuel - 1, by simp at hf; omega⟩
    cases ps with
    | nil =>
      have hitem := hreads close rest (.inr rfl)
      simp only [map_cons, map_nil, joinComma, cons_append] at hitem ⊢
      rw [readItems, skipSpace_cons hb, hitem]
      simp only [skipSpace_cons hspace, if_true]
    | cons q qs =>
      have hitem := hreads 0x2c (joinComma ((q :: qs).map Prod.fst) ++ close :: rest) (.inl rfl)
      have htail := ih (fun p hp => h p (by simp [hp])) (by simp) fuel (by simpa using hf)
      simp only [map_cons, joinComma, cons_append, append_assoc] at hitem htail ⊢
      rw [readItems, skipSpace_cons hb, hitem]
      simp only [skipSpace_cons (show isSpace 0x2c = false by decide)]
      have hc : (0x2c : UInt8).toNat = 0x2c := rfl
      rw [if_neg (by omega), if_pos hc, htail]
      rfl

theorem readSequence_joinComma {α : Type} (close : UInt8) (item : Bytes → Option (α × Bytes))
    (hspace : isSpace close = false) (hcomma : close.toNat ≠ 0x2c) (ps : List (Bytes × α))
    (h : ∀ p ∈ ps, ReadsAs close item p.1 p.2)
    (hclose : ∀ p ∈ ps, ∀ b ∈ p.1.head?, b.toNat ≠ close.toNat) (rest : Bytes) :
    readSequence close.toNat item (joinComma (ps.map Prod.fst) ++ close :: rest) =
      some (ps.map Prod.snd, rest) := by
  cases ps with
  | nil => simp [readSequence, joinComma, skipSpace_cons hspace]
  | cons p ps =>
    have hnonempty : ∀ t ∈ (p :: ps).map Prod.fst, t ≠ [] := by
      intro t ht
      obtain ⟨q, hq, rfl⟩ := mem_map.mp ht
      obtain ⟨⟨b, u, hqt, -⟩, -⟩ := h q hq
      simp [hqt]
    have hcount := count_le_joinComma hnonempty
    obtain ⟨⟨b, u, hstart, hb⟩, -⟩ := h p (by simp)
    have hhead : ∃ w, joinComma ((p :: ps).map Prod.fst) ++ close :: rest = b :: w := by
      cases ps with
      | nil => exact ⟨u ++ close :: rest, by simp [joinComma, hstart]⟩
      | cons q qs =>
        exact ⟨u ++ 0x2c :: joinComma ((q :: qs).map Prod.fst) ++ close :: rest,
          by simp [joinComma, hstart]⟩
    obtain ⟨w, hw⟩ := hhead
    have hbc : b.toNat ≠ close.toNat := hclose p (by simp) b (by simp [hstart])
    have hitems := readItems_joinComma hspace hcomma (p :: ps) h (by simp)
      (joinComma ((p :: ps).map Prod.fst) ++ close :: rest).length
      (by rw [length_map] at hcount; rw [length_append]; omega) rest
    rw [hw] at hitems ⊢
    rw [readSequence, skipSpace_cons hb]
    simp only
    rw [if_neg hbc, hitems]

def arrayText (ts : List Bytes) : Bytes := 0x5b :: joinComma ts ++ [0x5d]

/-- A member: a quoted key, a colon, and the text of the value. -/
def memberText (p : Bytes × Bytes) : Bytes := 0x22 :: p.1 ++ 0x22 :: 0x3a :: p.2

/-- An object with the given keys and value texts. -/
def objectText (ps : List (Bytes × Bytes)) : Bytes :=
  0x7b :: joinComma (ps.map memberText) ++ [0x7d]

theorem Spells.readsAs (h : Spells t v) (hclose : close.toNat = 0x5d ∨ close.toNat = 0x7d)
    (hf : t.length ≤ fuel) : ReadsAs close (readValue fuel) t v := by
  obtain ⟨b, u, ht, hb, -⟩ := h.start
  refine ⟨⟨b, u, ht, hb⟩, ?_⟩
  intro sep rest hsep
  refine h.reads fuel _ hf ?_
  intro c hc
  obtain rfl : sep = c := by simpa using hc
  rcases hsep with rfl | rfl
  · exact .inl rfl
  · rcases hclose with hc | hc
    · exact .inr (.inr (.inl hc))
    · exact .inr (.inl hc)

theorem spells_arr (ps : List (Bytes × Json)) (h : ∀ p ∈ ps, Spells p.1 p.2) :
    Spells (arrayText (ps.map Prod.fst)) (.arr (ps.map Prod.snd)) := by
  refine ⟨⟨0x5b, joinComma (ps.map Prod.fst) ++ [0x5d], rfl, by decide, by decide, by decide⟩, ?_⟩
  intro fuel rest hf _
  obtain ⟨fuel, rfl⟩ : ∃ k, fuel = k + 1 := ⟨fuel - 1, by simp [arrayText] at hf; omega⟩
  have hseq := readSequence_joinComma 0x5d (readValue fuel) (by decide)
    (by decide) ps
    (fun p hp => (h p hp).readsAs (.inl rfl) (by
      have := length_le_joinComma (mem_map_of_mem (f := Prod.fst) hp)
      simp only [arrayText, length_cons, length_append, cons_append] at hf
      omega))
    (fun p hp b hb => by
      obtain ⟨c, u, ht, -, h1, -⟩ := (h p hp).start
      obtain rfl : c = b := by simpa [ht] using hb
      exact h1)
    rest
  have h5b : (0x5b : UInt8).toNat = 0x5b := rfl
  have h5d : (0x5d : UInt8).toNat = 0x5d := rfl
  rw [h5d] at hseq
  simp only [arrayText, cons_append, append_assoc, nil_append, readValue]
  rw [if_neg (by decide), if_pos h5b, hseq]
  rfl

/-- A member is its key and what is read behind the colon. -/
theorem readMember_of_value {k rest' : Bytes} (hk : SpellsString k d)
    (hvalue : readValue fuel (skipSpace (t ++ rest)) = some (v, rest')) :
    readMember (readValue fuel) (memberText (k, t) ++ rest) = some ((d, v), rest') := by
  have hkey := readString_spelled hk (0x3a :: t ++ rest)
  simp only [memberText, cons_append, append_assoc] at hkey ⊢
  rw [readMember, if_pos (by decide), hkey]
  simp only
  rw [skipSpace_cons (by decide)]
  simp only
  rw [if_pos (by decide), hvalue]
  rfl

theorem readMember_spelled {k : Bytes} (hk : SpellsString k d) (h : Spells t v)
    (hf : t.length ≤ fuel) (rest : Bytes) (hrest : Delimited rest) :
    readMember (readValue fuel) (memberText (k, t) ++ rest) = some ((d, v), rest) := by
  obtain ⟨b, u, rfl, hb, -⟩ := h.start
  refine readMember_of_value hk ?_
  rw [cons_append, skipSpace_cons hb]
  exact h.reads fuel rest hf hrest

/-- One member of an object: the text of its key and its value, and what they are read as. -/
structure Field where
  keyText : Bytes
  key : Bytes
  valueText : Bytes
  value : Json
  spells_key : SpellsString keyText key
  spells_value : Spells valueText value

def Field.text (f : Field) : Bytes × Bytes := (f.keyText, f.valueText)

def Field.member (f : Field) : Bytes × Json := (f.key, f.value)

/-- A member whose key stands for itself. -/
def Field.plain (name : String) (h : (ascii name).all (fun b => decide (Plain b)) = true)
    {t : Bytes} {v : Json} (hv : Spells t v) : Field :=
  ⟨ascii name, ascii name, t, v, spellsString_plain (by simpa using h), hv⟩

/-- Objects are spelled by their members, in whatever way these are read. -/
theorem spells_obj_of {α : Type} {text : α → Bytes × Bytes} {member : α → Bytes × Json}
    {read : ℕ → Bytes → Option ((Bytes × Json) × Bytes)} (hread : ∀ fuel s,
      readSequence 0x7d (read fuel) s = readSequence 0x7d (readMember (readValue fuel)) s)
    {xs : List α} (h : ∀ x ∈ xs, ∀ fuel, (text x).2.length ≤ fuel → ∀ sep : UInt8, ∀ rest,
      sep = 0x2c ∨ sep = 0x7d →
        read fuel (memberText (text x) ++ sep :: rest) = some (member x, sep :: rest)) :
    Spells (objectText (xs.map text)) (.obj (xs.map member)) := by
  refine ⟨⟨0x7b, joinComma ((xs.map text).map memberText) ++ [0x7d], rfl, by decide,
    by decide, by decide⟩, ?_⟩
  intro fuel rest hf _
  obtain ⟨fuel, rfl⟩ : ∃ k, fuel = k + 1 := ⟨fuel - 1, by simp [objectText] at hf; omega⟩
  have hlen : ∀ x ∈ xs, (text x).2.length ≤ fuel := by
    intro x hmem
    have := length_le_joinComma
      (mem_map_of_mem (f := memberText) (mem_map_of_mem (f := text) hmem))
    simp only [objectText, memberText, length_cons, length_append, cons_append,
      length_nil] at hf this
    omega
  have hseq := readSequence_joinComma 0x7d (read fuel)
    (by decide) (by decide) (xs.map fun x => (memberText (text x), member x))
    (by
      intro p hp
      obtain ⟨x, hmem, rfl⟩ := mem_map.mp hp
      exact ⟨⟨0x22, (text x).1 ++ 0x22 :: 0x3a :: (text x).2, rfl, by decide⟩,
        h x hmem fuel (hlen x hmem)⟩)
    (by
      intro p hp b hb
      obtain ⟨x, -, rfl⟩ := mem_map.mp hp
      obtain rfl : 0x22 = b := by simpa [memberText] using hb
      decide)
    rest
  have h7b : (0x7b : UInt8).toNat = 0x7b := rfl
  have h7d : (0x7d : UInt8).toNat = 0x7d := rfl
  rw [h7d, hread, map_map, map_map] at hseq
  have htexts : (xs.map text).map memberText =
      xs.map (Prod.fst ∘ fun x => (memberText (text x), member x)) := by
    rw [map_map]; rfl
  simp only [objectText, cons_append, append_assoc, nil_append, readValue]
  rw [if_pos h7b, htexts, hseq]
  rfl

theorem spells_obj (fs : List Field) :
    Spells (objectText (fs.map Field.text)) (.obj (fs.map Field.member)) := by
  refine spells_obj_of (fun _ _ => rfl) fun f _ fuel hf sep rest hsep => ?_
  refine readMember_spelled f.spells_key f.spells_value hf _ ?_
  rcases hsep with rfl | rfl
  · exact delimited_comma rest
  · exact delimited_brace rest

theorem readDocument_spelled (h : Spells t v) : readDocument t = some v := by
  obtain ⟨b, u, ht, hb, -⟩ := h.start
  have hread := h.reads t.length [] le_rfl delimited_nil
  rw [append_nil] at hread
  have hskip : skipSpace t = t := by rw [ht]; exact skipSpace_cons hb u
  rw [readDocument, hskip, hread]
  simp [skipSpace]

end Cubicle.JsonSpelling
