import Cubicle.JsonSpelling

/-!
# Every value that is read was spelled

The reader looks at the text of a value and at nothing after it, apart from where a number ends.
Whatever it reads as a value from the front of its input is therefore a text that spells that value,
and is read the same in any other place. A document is such a text with space around it.
-/

namespace Cubicle.JsonExtents
open ByteText Utf8Sequences JsonText JsonSpelling List

variable {s rest d space t : Bytes} {v : Json} {b : UInt8} {fuel close : ℕ} {negative : Bool}
  {e : Option ℤ}

theorem readEscape_extent (h : readEscape s = some (d, rest)) :
    ∃ t, s = t ++ rest ∧ ∀ rest', readEscape (t ++ rest') = some (d, rest') := by
  rcases readEscape_cases h with ⟨p, hp, rfl, rfl⟩ | ⟨u, rfl, hunicode⟩
  · exact ⟨[p.1], rfl, readEscape_letter hp⟩
  · obtain ⟨t, rfl, -, -, ht⟩ := readUnicode_extent hunicode
    exact ⟨0x75 :: t, rfl, ht⟩

theorem readStringItem_extent (hb : b.toNat ≠ 0x22) (h : readStringItem (b :: s) = some (d, rest)) :
    ∃ t, b :: s = t ++ rest ∧ SpellsItem t d := by
  rw [readStringItem] at h
  split_ifs at h with hescape hcontrol
  · obtain ⟨t, rfl, ht⟩ := readEscape_extent h
    refine ⟨b :: t, rfl, ⟨b, t, rfl, hb⟩, fun rest' => ?_⟩
    rw [cons_append, readStringItem, if_pos hescape, ht]
  · split at h
    · simp at h
    · rename_i n hn
      obtain ⟨rfl, rfl⟩ : (b :: s).take n = d ∧ (b :: s).drop n = rest := by simpa using h
      have hpos := charLength_pos hn
      obtain ⟨k, rfl⟩ : ∃ k, n = k + 1 := ⟨n - 1, by omega⟩
      refine ⟨(b :: s).take (k + 1), (take_append_drop _ _).symm, ?_⟩
      refine spellsItem_char (isChar_take hn) fun c hc => ?_
      obtain rfl : b = c := by simpa using hc
      exact ⟨hb, hescape, by omega⟩

theorem readStringFrom_extent (h : readStringFrom fuel s = some (d, rest)) :
    ∃ t, s = t ++ 0x22 :: rest ∧ SpellsString t d := by
  induction fuel generalizing s d rest with
  | zero => simp [readStringFrom] at h
  | succ fuel ih =>
    cases s with
    | nil => simp [readStringFrom] at h
    | cons b u =>
      rw [readStringFrom] at h
      split_ifs at h with hquote
      · obtain ⟨rfl, rfl⟩ : [] = d ∧ u = rest := by simpa using h
        obtain rfl : b = 0x22 := eq_of_toNat_eq hquote
        exact ⟨[], rfl, .nil⟩
      · split at h
        · simp at h
        · rename_i e r hitem
          obtain ⟨t, ht, hspells⟩ := readStringItem_extent hquote hitem
          obtain ⟨⟨ds, r'⟩, hrest, heq⟩ := Option.map_eq_some_iff.mp h
          obtain ⟨rfl, rfl⟩ : e ++ ds = d ∧ r' = rest := by simpa using heq
          obtain ⟨t', rfl, hspells'⟩ := ih hrest
          exact ⟨t ++ t', by rw [ht, append_assoc], .cons hspells hspells'⟩

theorem readString_extent (h : readString s = some (d, rest)) :
    ∃ t, s = t ++ 0x22 :: rest ∧ SpellsString t d := readStringFrom_extent h

/-- A text that ends a number: it does not go on with digits, a point or an exponent. -/
def EndsNumber (rest : Bytes) : Prop :=
  ∀ b ∈ rest.head?, isDigit b = false ∧ b.toNat ≠ 0x2e ∧ b.toNat ≠ 0x65 ∧ b.toNat ≠ 0x45

theorem Delimited.endsNumber (h : Delimited rest) : EndsNumber rest := by
  cases rest with
  | nil => simp [EndsNumber]
  | cons b t =>
    intro c hc
    obtain rfl : b = c := by simpa using hc
    exact delimited_not_digit h

/-- No digit comes next. -/
def EndsDigits (rest : Bytes) : Prop := ∀ b ∈ rest.head?, isDigit b = false

theorem span_digits {ds : Bytes} (hds : ∀ b ∈ ds, isDigit b = true) (hrest : EndsDigits rest) :
    (ds ++ rest).takeWhile isDigit = ds ∧ (ds ++ rest).dropWhile isDigit = rest := by
  have hnext : rest.takeWhile isDigit = [] ∧ rest.dropWhile isDigit = rest := by
    cases rest with
    | nil => exact ⟨rfl, rfl⟩
    | cons b t =>
      have hb := hrest b rfl
      simp [hb]
  rw [takeWhile_append_of_pos hds, dropWhile_append_of_pos hds, hnext.1, hnext.2]
  exact ⟨append_nil ds, rfl⟩

theorem isDigit_of_mem_takeWhile (h : b ∈ s.takeWhile isDigit) :
    isDigit b = true := mem_takeWhile_imp h

theorem readFraction_extent {f : Option Bytes} (h : readFraction s = some (f, rest)) :
    ∃ t, s = t ++ rest ∧ (∀ b ∈ t.head?, b.toNat = 0x2e) ∧ ∀ rest', EndsDigits rest' →
      (∀ b ∈ rest'.head?, b.toNat ≠ 0x2e) → readFraction (t ++ rest') = some (f, rest') := by
  have hnone : ∀ rest' : Bytes, (∀ b ∈ rest'.head?, b.toNat ≠ 0x2e) →
      readFraction rest' = some (none, rest') := by
    intro rest' hpoint
    cases rest' with
    | nil => rfl
    | cons b t => simp [readFraction, hpoint b rfl]
  cases s with
  | nil =>
    obtain ⟨rfl, rfl⟩ : none = f ∧ [] = rest := by simpa [readFraction] using h
    exact ⟨[], rfl, by simp, fun rest' _ hpoint => hnone rest' hpoint⟩
  | cons b t =>
    rw [readFraction] at h
    split_ifs at h with hpoint hempty
    · obtain ⟨rfl, rfl⟩ : some (t.takeWhile isDigit) = f ∧ t.dropWhile isDigit = rest := by
        simpa using h
      refine ⟨b :: t.takeWhile isDigit, by simp, by simpa using hpoint, fun rest' hdigits _ => ?_⟩
      obtain ⟨htake, hdrop⟩ := span_digits (fun c hc => isDigit_of_mem_takeWhile hc) hdigits
      rw [cons_append, readFraction, if_pos hpoint, htake, hdrop, if_neg hempty]
    · obtain ⟨rfl, rfl⟩ : none = f ∧ b :: t = rest := by simpa using h
      exact ⟨[], rfl, by simp, fun rest' _ hpoint => hnone rest' hpoint⟩

theorem readExponentDigits_extent (h : readExponentDigits negative s = some (e, rest)) :
    ∃ t, s = t ++ rest ∧ (∀ b ∈ t.head?, isDigit b = true) ∧ t ≠ [] ∧ ∀ rest', EndsDigits rest' →
      readExponentDigits negative (t ++ rest') = some (e, rest') := by
  unfold readExponentDigits at h
  by_cases hempty : (s.takeWhile isDigit).isEmpty = true
  · simp [hempty] at h
  rw [if_neg hempty] at h
  obtain ⟨rfl, rfl⟩ := Prod.mk.inj (Option.some.inj h)
  refine ⟨s.takeWhile isDigit, by simp, ?_, by simpa using hempty, fun rest' hdigits => ?_⟩
  · intro b hb
    exact isDigit_of_mem_takeWhile (mem_of_mem_head? hb)
  · obtain ⟨htake, hdrop⟩ := span_digits (fun c hc => isDigit_of_mem_takeWhile hc) hdigits
    rw [readExponentDigits, htake, hdrop, if_neg hempty]

theorem readExponent_extent (h : readExponent s = some (e, rest)) :
    ∃ t, s = t ++ rest ∧ (∀ b ∈ t.head?, b.toNat = 0x65 ∨ b.toNat = 0x45) ∧
      ∀ rest', EndsNumber rest' → readExponent (t ++ rest') = some (e, rest') := by
  have hnone : ∀ rest' : Bytes, EndsNumber rest' → readExponent rest' = some (none, rest') := by
    intro rest' hend
    cases rest' with
    | nil => rfl
    | cons b t => simp [readExponent, (hend b rfl).2.2]
  cases s with
  | nil =>
    obtain ⟨rfl, rfl⟩ : none = e ∧ [] = rest := by simpa [readExponent] using h
    exact ⟨[], rfl, by simp, hnone⟩
  | cons b t =>
    simp only [readExponent] at h
    split_ifs at h with hletter
    · cases t with
      | nil => simp at h
      | cons c u =>
        have hdigits : ∀ rest', EndsNumber rest' → EndsDigits rest' :=
          fun rest' hend d hd => (hend d hd).1
        dsimp only at h
        split_ifs at h with hminus hplus
        · obtain ⟨t', rfl, -, -, ht⟩ := readExponentDigits_extent h
          refine ⟨b :: c :: t', rfl, by simpa using hletter, fun rest' hend => ?_⟩
          simp [readExponent, hletter, hminus, ht rest' (hdigits rest' hend)]
        · obtain ⟨t', rfl, -, -, ht⟩ := readExponentDigits_extent h
          refine ⟨b :: c :: t', rfl, by simpa using hletter, fun rest' hend => ?_⟩
          simp [readExponent, hletter, hplus, ht rest' (hdigits rest' hend)]
        · obtain ⟨t', ht', -, hne, ht⟩ := readExponentDigits_extent h
          obtain ⟨d, t'', rfl⟩ := exists_cons_of_ne_nil hne
          obtain ⟨rfl, rfl⟩ : c = d ∧ u = t'' ++ rest := by simpa using ht'
          refine ⟨b :: c :: t'', rfl, by simpa using hletter, fun rest' hend => ?_⟩
          have hread := ht rest' (hdigits rest' hend)
          rw [cons_append] at hread
          simp [readExponent, hletter, hminus, hplus, hread]
    · obtain ⟨rfl, rfl⟩ : none = e ∧ b :: t = rest := by simpa using h
      exact ⟨[], rfl, by simp, hnone⟩

def numberOf (negative : Bool) (digits : Bytes) (fraction : Option Bytes) (exponent : Option ℤ)
    (text : Bytes) : Option Json :=
  if fraction = none ∧ exponent = none then integerValue negative digits text
  else if overflowsDouble (digitsValue (digits ++ fraction.getD []))
      (exponent.getD 0 - (fraction.getD []).length) then none
  else some (.real text)

theorem readUnsigned_eq {whole afterFraction : Bytes} {fraction : Option Bytes}
    {exponent : Option ℤ}
    (hdigits : ¬ ((s.takeWhile isDigit).isEmpty ∨ ((s.takeWhile isDigit).head? = some 0x30 ∧
      1 < (s.takeWhile isDigit).length)))
    (hfraction : readFraction (s.dropWhile isDigit) = some (fraction, afterFraction))
    (hexponent : readExponent afterFraction = some (exponent, rest)) :
    readUnsigned negative whole s = (numberOf negative (s.takeWhile isDigit) fraction exponent
      (whole.take (whole.length - rest.length))).map fun v => (v, rest) := by
  unfold readUnsigned numberOf
  dsimp only
  rw [if_neg hdigits, hfraction]
  dsimp only
  rw [hexponent]
  cases fraction with
  | none =>
    cases exponent with
    | none => simp
    | some e => simp [apply_ite]
  | some f => simp [apply_ite]

theorem readUnsigned_extent (front : Bytes)
    (h : readUnsigned negative (front ++ s) s = some (v, rest)) :
    ∃ t, s = t ++ rest ∧ (∃ b u, t = b :: u ∧ isDigit b = true) ∧ ∀ rest', EndsNumber rest' →
      readUnsigned negative (front ++ (t ++ rest')) (t ++ rest') = some (v, rest') := by
  have hparts : ¬ ((s.takeWhile isDigit).isEmpty ∨
      ((s.takeWhile isDigit).head? = some 0x30 ∧ 1 < (s.takeWhile isDigit).length)) ∧
      ∃ fraction afterFraction exponent rest₀,
        readFraction (s.dropWhile isDigit) = some (fraction, afterFraction) ∧
        readExponent afterFraction = some (exponent, rest₀) := by
    unfold readUnsigned at h
    dsimp only at h
    split_ifs at h with hbad
    split at h
    · simp at h
    rename_i fraction afterFraction hfraction
    split at h
    · simp at h
    rename_i exponent rest₀ hexponent
    exact ⟨hbad, fraction, afterFraction, exponent, rest₀, hfraction, hexponent⟩
  obtain ⟨hbad, fraction, afterFraction, exponent, rest₀, hfraction, hexponent⟩ := hparts
  rw [readUnsigned_eq hbad hfraction hexponent] at h
  obtain ⟨w, hw, heq⟩ := Option.map_eq_some_iff.mp h
  obtain ⟨rfl, rfl⟩ : w = v ∧ rest₀ = rest := by simpa using heq
  obtain ⟨t₁, ht₁, hhead₁, hread₁⟩ := readFraction_extent hfraction
  obtain ⟨t₂, rfl, hhead₂, hread₂⟩ := readExponent_extent hexponent
  generalize hds : s.takeWhile isDigit = ds at hw hbad
  have hsplit : s = ds ++ (t₁ ++ t₂) ++ rest₀ := by
    rw [append_assoc, append_assoc, ← ht₁, ← hds, takeWhile_append_dropWhile]
  have hdigits : ∀ b ∈ ds, isDigit b = true := by
    rw [← hds]
    exact fun b hb => isDigit_of_mem_takeWhile hb
  have hwhole : ∀ r : Bytes, (front ++ (ds ++ (t₁ ++ t₂) ++ r)).take
      ((front ++ (ds ++ (t₁ ++ t₂) ++ r)).length - r.length) = front ++ (ds ++ (t₁ ++ t₂)) := by
    intro r
    rw [← append_assoc, length_append, Nat.add_sub_cancel, take_left]
  refine ⟨ds ++ (t₁ ++ t₂), hsplit, ?_, fun r hr => ?_⟩
  · cases ds with
    | nil => simp at hbad
    | cons b u => exact ⟨b, u ++ (t₁ ++ t₂), rfl, hdigits b (by simp)⟩
  · have hafter : ∀ b ∈ (t₂ ++ r).head?, isDigit b = false ∧ b.toNat ≠ 0x2e := by
      cases t₂ with
      | nil => exact fun b hb => ⟨(hr b hb).1, (hr b hb).2.1⟩
      | cons c u =>
        intro b hb
        obtain rfl : c = b := by simpa using hb
        have hletter := hhead₂ c rfl
        simp only [isDigit, Bool.and_eq_false_iff, decide_eq_false_iff_not]
        omega
    have hends : EndsDigits (t₁ ++ (t₂ ++ r)) := by
      cases t₁ with
      | nil => exact fun b hb => (hafter b hb).1
      | cons c u =>
        intro b hb
        obtain rfl : c = b := by simpa using hb
        have hpoint := hhead₁ c rfl
        simp only [isDigit, Bool.and_eq_false_iff, decide_eq_false_iff_not]
        omega
    obtain ⟨htake, hdrop⟩ := span_digits hdigits hends
    have hassoc : ds ++ (t₁ ++ t₂) ++ r = ds ++ (t₁ ++ (t₂ ++ r)) := by simp
    rw [hsplit, hwhole] at hw
    have hfraction' : readFraction ((ds ++ (t₁ ++ t₂) ++ r).dropWhile isDigit) =
        some (fraction, t₂ ++ r) := by
      rw [hassoc, hdrop]
      exact hread₁ _ (fun b hb => (hafter b hb).1) fun b hb => (hafter b hb).2
    have hbad' := hbad
    rw [← htake, ← hassoc] at hbad'
    rw [readUnsigned_eq hbad' hfraction' (hread₂ r hr), hwhole, hassoc, htake, hw]
    rfl

theorem readNumber_extent (h : readNumber s = some (v, rest)) :
    ∃ t, s = t ++ rest ∧ (∃ b u, t = b :: u ∧ (b.toNat = 0x2d ∨ isDigit b = true)) ∧
      ∀ rest', Delimited rest' → readNumber (t ++ rest') = some (v, rest') := by
  cases s with
  | nil => simp [readNumber] at h
  | cons b u =>
    rw [readNumber] at h
    split_ifs at h with hminus
    · obtain ⟨t, rfl, -, ht⟩ := readUnsigned_extent [b] h
      refine ⟨b :: t, rfl, ⟨b, t, rfl, .inl hminus⟩, fun rest' hrest => ?_⟩
      rw [cons_append, readNumber, if_pos hminus]
      exact ht rest' (Delimited.endsNumber hrest)
    · obtain ⟨t, ht', ⟨c, w, rfl, hc⟩, ht⟩ := readUnsigned_extent [] h
      obtain ⟨rfl, rfl⟩ : b = c ∧ u = w ++ rest := by simpa using ht'
      refine ⟨b :: w, rfl, ⟨b, w, rfl, .inr hc⟩, fun rest' hrest => ?_⟩
      rw [cons_append, readNumber, if_neg hminus]
      exact ht rest' (Delimited.endsNumber hrest)

theorem readLiteral_extent (h : readLiteral s = some (v, rest)) :
    ∃ t, s = t ++ rest ∧ (t = ascii "true" ∨ t = ascii "false" ∨ t = ascii "null") ∧
      ∀ rest', readLiteral (t ++ rest') = some (v, rest') := by
  unfold readLiteral at h
  split_ifs at h with h1 h2 h3
  · obtain ⟨u, rfl⟩ := h1
    obtain ⟨rfl, rfl⟩ : Json.bool true = v ∧ u = rest := by simpa [ascii] using h
    exact ⟨ascii "true", rfl, .inl rfl, fun rest' => by simp [readLiteral, ascii]⟩
  · obtain ⟨u, rfl⟩ := h2
    obtain ⟨rfl, rfl⟩ : Json.bool false = v ∧ u = rest := by simpa [ascii] using h
    exact ⟨ascii "false", rfl, .inr (.inl rfl), fun rest' => by simp [readLiteral, ascii]⟩
  · obtain ⟨u, rfl⟩ := h3
    obtain ⟨rfl, rfl⟩ : Json.null = v ∧ u = rest := by simpa [ascii] using h
    exact ⟨ascii "null", rfl, .inr (.inr rfl), fun rest' => by simp [readLiteral, ascii]⟩

theorem skipSpace_split (s : Bytes) :
    ∃ space, s = space ++ skipSpace s ∧ ∀ b ∈ space, isSpace b = true :=
  ⟨s.takeWhile isSpace, takeWhile_append_dropWhile.symm, fun _ => mem_takeWhile_imp⟩

theorem skipSpace_append (hspace : ∀ b ∈ space, isSpace b = true) (hb : isSpace b = false)
    (t : Bytes) : skipSpace (space ++ b :: t) = b :: t := by
  rw [skipSpace, dropWhile_append_of_pos hspace]
  exact skipSpace_cons hb t

theorem isSpace_of_skipSpace (h : skipSpace s = b :: t) : isSpace b = false := by
  have hne : s.dropWhile isSpace ≠ [] := by
    rw [show s.dropWhile isSpace = b :: t from h]
    simp
  have hhead := head_dropWhile_not isSpace hne
  simpa [show s.dropWhile isSpace = b :: t from h] using hhead

theorem delimited_space (hspace : ∀ b ∈ space, isSpace b = true)
    (hb : b.toNat = 0x2c ∨ b.toNat = 0x7d ∨ b.toNat = 0x5d) (t : Bytes) :
    Delimited (space ++ b :: t) := by
  intro c hc
  cases space with
  | nil =>
    obtain rfl : b = c := by simpa using hc
    omega
  | cons d u =>
    obtain rfl : d = c := by simpa using hc
    exact .inr (.inr (.inr (hspace d (by simp))))

/-- A reader of items reads each from a text of its own, which a reader with enough fuel reads
wherever it stands. -/
def ItemExtent {α : Type} (item : Bytes → Option (α × Bytes))
    (item' : ℕ → Bytes → Option (α × Bytes)) : Prop :=
  ∀ s x rest, item s = some (x, rest) → ∃ t, s = t ++ rest ∧
    (∃ b u, t = b :: u ∧ isSpace b = false) ∧
    ∀ fuel rest', t.length ≤ fuel → Delimited rest' → item' fuel (t ++ rest') = some (x, rest')

theorem readItems_extent {α : Type} (hclose : close = 0x5d ∨ close = 0x7d)
    {item : Bytes → Option (α × Bytes)} {item' : ℕ → Bytes → Option (α × Bytes)}
    (hitem : ItemExtent item item') {xs : List α}
    (h : readItems close item fuel s = some (xs, rest)) :
    ∃ t, s = t ++ rest ∧ (∃ space b u, t = space ++ b :: u ∧ (∀ c ∈ space, isSpace c = true) ∧
        isSpace b = false) ∧
      ∀ n m rest', t.length ≤ n → t.length ≤ m →
        readItems close (item' n) m (t ++ rest') = some (xs, rest') := by
  induction fuel generalizing s xs rest with
  | zero => simp [readItems] at h
  | succ fuel ih =>
    rw [readItems] at h
    cases hread : item (skipSpace s) with
    | none => simp [hread] at h
    | some pair =>
      obtain ⟨x, afterItem⟩ := pair
      obtain ⟨t₁, ht₁, ⟨b₁, u₁, rfl, hb₁⟩, hread₁⟩ := hitem _ _ _ hread
      obtain ⟨space₁, hs, hspace₁⟩ := skipSpace_split s
      obtain ⟨space₂, hafter, hspace₂⟩ := skipSpace_split afterItem
      simp only [hread] at h
      cases hskip : skipSpace afterItem with
      | nil => simp [hskip] at h
      | cons b after =>
        have hb := isSpace_of_skipSpace hskip
        simp only [hskip] at h
        rw [hskip] at hafter
        -- The reader on the text of the item, with something else after it.
        have hnext : ∀ n m (r : Bytes), (b₁ :: u₁).length ≤ n →
            (b.toNat = 0x2c ∨ b.toNat = 0x7d ∨ b.toNat = 0x5d) →
            readItems close (item' n) (m + 1) (space₁ ++ (b₁ :: u₁ ++ (space₂ ++ b :: r))) =
              if b.toNat = close then some ([x], r)
              else if b.toNat = 0x2c then
                (readItems close (item' n) m r).map fun p => (x :: p.1, p.2)
              else none := by
          intro n m r hn hdelim
          have hone := hread₁ n (space₂ ++ b :: r) hn (delimited_space hspace₂ hdelim r)
          rw [readItems, cons_append, skipSpace_append hspace₁ hb₁, ← cons_append, hone]
          simp only [skipSpace_append hspace₂ hb]
        split_ifs at h with hend hcomma
        · obtain ⟨rfl, rfl⟩ : [x] = xs ∧ after = rest := by simpa using h
          refine ⟨space₁ ++ (b₁ :: u₁ ++ (space₂ ++ [b])), ?_,
            ⟨space₁, b₁, u₁ ++ (space₂ ++ [b]), rfl, hspace₁, hb₁⟩, fun n m r hn hm => ?_⟩
          · rw [hs, ht₁, hafter]
            simp
          · obtain ⟨m, rfl⟩ : ∃ k, m = k + 1 := ⟨m - 1, by simp at hm; omega⟩
            have hstep := hnext n m r (by simp at hn ⊢; omega) (by omega)
            rw [if_pos hend] at hstep
            simpa using hstep
        · obtain ⟨⟨ys, r₀⟩, hmore, heq⟩ := Option.map_eq_some_iff.mp h
          obtain ⟨rfl, rfl⟩ : x :: ys = xs ∧ r₀ = rest := by simpa using heq
          obtain ⟨t₂, rfl, -, hread₂⟩ := ih hmore
          refine ⟨space₁ ++ (b₁ :: u₁ ++ (space₂ ++ b :: t₂)), ?_,
            ⟨space₁, b₁, u₁ ++ (space₂ ++ b :: t₂), rfl, hspace₁, hb₁⟩, fun n m r hn hm => ?_⟩
          · rw [hs, ht₁, hafter]
            simp
          · obtain ⟨m, rfl⟩ : ∃ k, m = k + 1 := ⟨m - 1, by simp at hm; omega⟩
            have hstep := hnext n m (t₂ ++ r) (by simp at hn ⊢; omega) (by omega)
            rw [if_neg hend, if_pos hcomma, hread₂ n m r (by simp at hn; omega)
              (by simp at hm; omega)] at hstep
            simpa using hstep

theorem readSequence_extent {α : Type} (hclose : close = 0x5d ∨ close = 0x7d)
    {item : Bytes → Option (α × Bytes)} {item' : ℕ → Bytes → Option (α × Bytes)}
    (hitem : ItemExtent item item') {xs : List α} (h : readSequence close item s = some (xs,
      rest)) :
    ∃ t, s = t ++ rest ∧ ∀ n rest', t.length ≤ n →
      readSequence close (item' n) (t ++ rest') = some (xs, rest') := by
  unfold readSequence at h
  cases hskip : skipSpace s with
  | nil => simp [hskip] at h
  | cons b after =>
    have hb := isSpace_of_skipSpace hskip
    simp only [hskip] at h
    split_ifs at h with hend
    · obtain ⟨rfl, rfl⟩ : [] = xs ∧ after = rest := by simpa using h
      obtain ⟨space, hs, hspace⟩ := skipSpace_split s
      refine ⟨space ++ [b], by rw [hs, hskip]; simp, fun n r _ => ?_⟩
      rw [append_assoc, singleton_append, readSequence, skipSpace_append hspace hb]
      simp only [if_pos hend]
    · obtain ⟨t, hs, ⟨space, c, u, rfl, hspace, hc⟩, hread⟩ := readItems_extent hclose hitem h
      have hhead : skipSpace s = c :: (u ++ rest) := by
        rw [hs, append_assoc, cons_append, skipSpace_append hspace hc]
      obtain ⟨rfl, rfl⟩ : c = b ∧ u ++ rest = after := by simpa [hhead] using hskip
      refine ⟨space ++ c :: u, hs, fun n r hn => ?_⟩
      have hitems := hread n (space ++ c :: u ++ r).length r hn (by simp)
      rw [append_assoc, cons_append] at hitems ⊢
      rw [readSequence, skipSpace_append hspace hc]
      simp only [if_neg hend]
      exact hitems

theorem itemExtent_readMember {value : Bytes → Option (Json × Bytes)}
    {value' : ℕ → Bytes → Option (Json × Bytes)} (hvalue : ItemExtent value value') :
    ItemExtent (readMember value) fun fuel => readMember (value' fuel) := by
  intro s x rest h
  cases s with
  | nil => simp [readMember] at h
  | cons b s =>
    rw [readMember] at h
    split_ifs at h with hquote
    cases hstring : readString s with
    | none => simp [hstring] at h
    | some pair =>
      obtain ⟨key, afterKey⟩ := pair
      obtain ⟨k, rfl, hkey⟩ := readString_extent hstring
      simp only [hstring] at h
      cases hskip : skipSpace afterKey with
      | nil => simp [hskip] at h
      | cons c afterColon =>
        have hc := isSpace_of_skipSpace hskip
        simp only [hskip] at h
        split_ifs at h with hcolon
        obtain ⟨⟨v, r₀⟩, hread, heq⟩ := Option.map_eq_some_iff.mp h
        obtain ⟨rfl, rfl⟩ : (key, v) = x ∧ r₀ = rest := by simpa using heq
        obtain ⟨t, ht, ⟨d, u, rfl, hd⟩, hvalue'⟩ := hvalue _ _ _ hread
        obtain ⟨space₁, hafterKey, hspace₁⟩ := skipSpace_split afterKey
        obtain ⟨space₂, hafterColon, hspace₂⟩ := skipSpace_split afterColon
        rw [hskip] at hafterKey
        rw [ht] at hafterColon
        refine ⟨b :: (k ++ 0x22 :: (space₁ ++ c :: (space₂ ++ d :: u))), ?_,
          ⟨b, _, rfl, ?_⟩, fun fuel r hfuel hr => ?_⟩
        · rw [hafterKey, hafterColon]
          simp
        · obtain rfl : b = 0x22 := eq_of_toNat_eq hquote
          decide
        · have hone := readString_spelled hkey (space₁ ++ c :: (space₂ ++ d :: (u ++ r)))
          have htwo := hvalue' fuel r (by simp at hfuel ⊢; omega) hr
          simp only [cons_append, append_assoc] at hone htwo ⊢
          rw [readMember, if_pos hquote, hone]
          simp only [skipSpace_append hspace₁ hc, if_pos hcolon, skipSpace_append hspace₂ hd, htwo]
          rfl

theorem spells_of_readValue (h : readValue fuel s = some (v, rest)) :
    ∃ t, s = t ++ rest ∧ Spells t v := by
  induction fuel generalizing s v rest with
  | zero => simp [readValue] at h
  | succ fuel ih =>
    have hitem : ItemExtent (readValue fuel) readValue := by
      intro s x rest hread
      obtain ⟨t, ht, hspells⟩ := ih hread
      obtain ⟨b, u, hstart, hb, -⟩ := hspells.start
      exact ⟨t, ht, ⟨b, u, hstart, hb⟩, hspells.reads⟩
    cases s with
    | nil => simp [readValue] at h
    | cons b s =>
      rw [readValue] at h
      split_ifs at h with hbrace hbracket hquote hnumber
      · obtain ⟨⟨ms, r₀⟩, hread, heq⟩ := Option.map_eq_some_iff.mp h
        obtain ⟨rfl, rfl⟩ : Json.obj ms = v ∧ r₀ = rest := by simpa using heq
        obtain ⟨t, rfl, ht⟩ := readSequence_extent (.inr rfl) (itemExtent_readMember hitem) hread
        obtain rfl : b = 0x7b := eq_of_toNat_eq hbrace
        refine ⟨0x7b :: t, rfl, ⟨0x7b, t, rfl, by decide, by decide, by decide⟩, ?_⟩
        intro n r hn _
        obtain ⟨n, rfl⟩ : ∃ k, n = k + 1 := ⟨n - 1, by simp at hn; omega⟩
        rw [cons_append, readValue, if_pos hbrace, ht n r (by simpa using hn)]
        rfl
      · obtain ⟨⟨vs, r₀⟩, hread, heq⟩ := Option.map_eq_some_iff.mp h
        obtain ⟨rfl, rfl⟩ : Json.arr vs = v ∧ r₀ = rest := by simpa using heq
        obtain ⟨t, rfl, ht⟩ := readSequence_extent (.inl rfl) hitem hread
        obtain rfl : b = 0x5b := eq_of_toNat_eq hbracket
        refine ⟨0x5b :: t, rfl, ⟨0x5b, t, rfl, by decide, by decide, by decide⟩, ?_⟩
        intro n r hn _
        obtain ⟨n, rfl⟩ : ∃ k, n = k + 1 := ⟨n - 1, by simp at hn; omega⟩
        rw [cons_append, readValue, if_neg hbrace, if_pos hbracket, ht n r (by simpa using hn)]
        rfl
      · obtain ⟨⟨d, r₀⟩, hread, heq⟩ := Option.map_eq_some_iff.mp h
        obtain ⟨rfl, rfl⟩ : Json.str d = v ∧ r₀ = rest := by simpa using heq
        obtain ⟨t, rfl, ht⟩ := readString_extent hread
        obtain rfl : b = 0x22 := eq_of_toNat_eq hquote
        exact ⟨0x22 :: t ++ [0x22], by simp, spells_str ht⟩
      · obtain ⟨t, hs, ⟨c, u, rfl, hc⟩, ht⟩ := readNumber_extent h
        obtain ⟨rfl, rfl⟩ : b = c ∧ s = u ++ rest := by simpa using hs
        have hstart : isSpace b = false ∧ b.toNat ≠ 0x5d ∧ b.toNat ≠ 0x7d := by
          simp only [isDigit, Bool.and_eq_true, decide_eq_true_eq] at hc
          simp only [isSpace, Bool.or_eq_false_iff, decide_eq_false_iff_not]
          omega
        refine ⟨b :: u, rfl, ⟨b, u, rfl, hstart⟩, fun n r hn hr => ?_⟩
        obtain ⟨n, rfl⟩ : ∃ k, n = k + 1 := ⟨n - 1, by simp at hn; omega⟩
        have hread := ht r hr
        rw [cons_append] at hread ⊢
        rw [readValue, if_neg hbrace, if_neg hbracket, if_neg hquote, if_pos hnumber, hread]
      · obtain ⟨t, hs, hliteral, ht⟩ := readLiteral_extent h
        have hstart : ∃ c u, t = c :: u ∧ isSpace c = false ∧ c.toNat ≠ 0x5d ∧ c.toNat ≠ 0x7d := by
          rcases hliteral with rfl | rfl | rfl
          · exact ⟨0x74, ascii "rue", rfl, by decide, by decide, by decide⟩
          · exact ⟨0x66, ascii "alse", rfl, by decide, by decide, by decide⟩
          · exact ⟨0x6e, ascii "ull", rfl, by decide, by decide, by decide⟩
        refine ⟨t, hs, hstart, fun n r hn _ => ?_⟩
        obtain ⟨c, u, rfl, -⟩ := hstart
        obtain ⟨rfl, rfl⟩ : b = c ∧ s = u ++ rest := by simpa using hs
        obtain ⟨n, rfl⟩ : ∃ k, n = k + 1 := ⟨n - 1, by simp at hn; omega⟩
        have hread := ht r
        rw [cons_append] at hread ⊢
        rw [readValue, if_neg hbrace, if_neg hbracket, if_neg hquote, if_neg hnumber, hread]

/-- A text that spells a value, with space around it. -/
def SpellsPadded (t : Bytes) (v : Json) : Prop :=
  ∃ before core after, t = before ++ (core ++ after) ∧ (∀ b ∈ before, isSpace b = true) ∧
    (∀ b ∈ after, isSpace b = true) ∧ Spells core v

theorem padded_of_spells (h : Spells t v) : SpellsPadded t v :=
  ⟨[], t, [], by simp, by simp, by simp, h⟩

theorem spellsPadded_of_readDocument (h : readDocument s = some v) : SpellsPadded s v := by
  unfold readDocument at h
  cases hread : readValue s.length (skipSpace s) with
  | none => simp [hread] at h
  | some pair =>
    obtain ⟨w, rest⟩ := pair
    simp only [hread] at h
    split_ifs at h with hempty
    obtain rfl := Option.some.inj h
    obtain ⟨core, hcore, hspells⟩ := spells_of_readValue hread
    obtain ⟨before, hbefore, hspace⟩ := skipSpace_split s
    obtain ⟨after, hafter, hspace'⟩ := skipSpace_split rest
    rw [List.isEmpty_iff.mp hempty, append_nil] at hafter
    refine ⟨before, core, rest, by rw [← hcore, ← hbefore], hspace, ?_, hspells⟩
    rw [hafter]
    exact hspace'

theorem skipSpace_skipSpace (s : Bytes) : skipSpace (skipSpace s) = skipSpace s :=
  dropWhile_idempotent _ s

/-- Space after an item makes no difference. -/
def skipAfter {α : Type} (item : Bytes → Option (α × Bytes)) (s : Bytes) : Option (α × Bytes) :=
  (item s).map fun p => (p.1, skipSpace p.2)

theorem readItems_skipAfter {α : Type} (close : ℕ) (item : Bytes → Option (α × Bytes)) (fuel : ℕ)
    (s : Bytes) : readItems close (skipAfter item) fuel s = readItems close item fuel s := by
  induction fuel generalizing s with
  | zero => rfl
  | succ fuel ih =>
    simp only [readItems, skipAfter]
    cases item (skipSpace s) with
    | none => rfl
    | some p =>
      simp only [Option.map_some, skipSpace_skipSpace]
      cases skipSpace p.2 with
      | nil => rfl
      | cons b rest =>
        simp only
        rw [← ih rest]

theorem readSequence_skipAfter {α : Type} (close : ℕ) (item : Bytes → Option (α × Bytes))
    (s : Bytes) : readSequence close (skipAfter item) s = readSequence close item s := by
  simp only [readSequence, readItems_skipAfter]

/-- One member of an object, whose value may have space around it. -/
structure PaddedField where
  key : Bytes
  valueText : Bytes
  value : Json
  plain_key : ∀ b ∈ key, Plain b
  spells_value : SpellsPadded valueText value

def PaddedField.text (f : PaddedField) : Bytes × Bytes := (f.key, f.valueText)

def PaddedField.member (f : PaddedField) : Bytes × Json := (f.key, f.value)

def PaddedField.plain (name : String) (h : (ascii name).all (fun b => decide (Plain b)) = true)
    {t : Bytes} {v : Json} (hv : SpellsPadded t v) : PaddedField :=
  ⟨ascii name, t, v, by simpa using h, hv⟩

/-- A member without space around its value. -/
def PaddedField.tight (name : String) (h : (ascii name).all (fun b => decide (Plain b)) = true)
    {t : Bytes} {v : Json} (hv : Spells t v) : PaddedField := .plain name h (padded_of_spells hv)

theorem readMember_padded (f : PaddedField) (hf : f.valueText.length ≤ fuel) {sep : UInt8}
    (hsep : sep.toNat = 0x2c ∨ sep.toNat = 0x7d) (rest : Bytes) :
    skipAfter (readMember (readValue fuel)) (memberText f.text ++ sep :: rest) =
      some (f.member, sep :: rest) := by
  obtain ⟨before, core, after, htext, hbefore, hafter, hspells⟩ := f.spells_value
  obtain ⟨b, u, hstart, hb, -⟩ := hspells.start
  have hnospace : isSpace sep = false := by
    simp only [isSpace, Bool.or_eq_false_iff, decide_eq_false_iff_not]
    omega
  have hvalue := hspells.reads fuel (after ++ sep :: rest)
    (by rw [htext] at hf; simp at hf; omega)
    (delimited_space hafter (hsep.imp_right .inl) rest)
  have hmember : readMember (readValue fuel) (memberText f.text ++ sep :: rest) =
      some (f.member, after ++ sep :: rest) := by
    refine readMember_of_value (spellsString_plain f.plain_key) ?_
    subst hstart
    simp only [htext, cons_append, append_assoc] at hvalue ⊢
    rw [skipSpace_append hbefore hb, hvalue]
  rw [skipAfter, hmember, Option.map_some, skipSpace_append hafter hnospace]

/-- Objects are spelled by their members also with space around the values. -/
theorem spells_obj_padded (fs : List PaddedField) :
    Spells (objectText (fs.map PaddedField.text)) (.obj (fs.map PaddedField.member)) := by
  refine spells_obj_of (fun fuel => readSequence_skipAfter _ (readMember (readValue fuel)))
    fun f _ fuel hf sep rest hsep => ?_
  refine readMember_padded f hf ?_ rest
  rcases hsep with rfl | rfl
  · exact .inl rfl
  · exact .inr rfl

/-- A byte that stands for itself in a string. -/
def Unescaped (b : UInt8) : Prop := 0x20 ≤ b.toNat ∧ b.toNat ≠ 0x22 ∧ b.toNat ≠ 0x5c

instance (b : UInt8) : Decidable (Unescaped b) := inferInstanceAs (Decidable (_ ∧ _ ∧ _))

theorem encodeScalar_length_le (v : ℕ) : (encodeScalar v).length ≤ 4 := by
  unfold encodeScalar
  rw [String.length_utf8EncodeChar]
  exact Char.utf8Size_le_four _

theorem ne_quote_of_unitByte (h : UnitByte b) : 0x22 ≠ b := by
  rintro rfl
  revert h
  unfold UnitByte
  decide

theorem readEscape_length (h : readEscape s = some (d, rest)) :
    ∃ t, s = t ++ rest ∧ d.length ≤ t.length ∧ (t = [0x22] ∧ d = [0x22] ∨ 0x22 ∉ t) := by
  rcases readEscape_cases h with ⟨p, hp, rfl, rfl⟩ | ⟨u, rfl, hunicode⟩
  · have hquote : ∀ p ∈ escapeLetters, p = (0x22, 0x22) ∨ 0x22 ≠ p.1 := by
      simp [escapeLetters]
    refine ⟨[p.1], rfl, le_rfl, (hquote p hp).imp ?_ (by simp)⟩
    rintro rfl
    exact ⟨rfl, rfl⟩
  · obtain ⟨t, rfl, ⟨hlen, hall⟩, ⟨v, rfl⟩, -⟩ := readUnicode_extent hunicode
    have hd := encodeScalar_length_le v
    have ht : 0x22 ∉ t := fun hmem => ne_quote_of_unitByte (hall _ hmem) rfl
    exact ⟨0x75 :: t, rfl, by simp; omega, .inr (by simp [ht])⟩

/-- An item is a character for itself or an escape, which is longer than what it stands for; a
quote only occurs in its own escape. -/
theorem spellsItem_cases {item : Bytes} (h : SpellsItem item d) :
    (item = d ∧ ∀ b ∈ item, Unescaped b) ∨ (item = [0x5c, 0x22] ∧ d = [0x22]) ∨
      (0x5c ∈ item ∧ 0x22 ∉ item ∧ d.length < item.length) := by
  obtain ⟨b, t, rfl, hb⟩ := h.start
  have hread := h.reads []
  rw [append_nil, readStringItem] at hread
  split_ifs at hread with hescape hcontrol
  · right
    obtain rfl : b = 0x5c := eq_of_toNat_eq hescape
    obtain ⟨t', ht, hlen, hcases⟩ := readEscape_length hread
    rw [append_nil] at ht
    subst ht
    rcases hcases with ⟨rfl, rfl⟩ | hquote
    · exact .inl ⟨rfl, rfl⟩
    · exact .inr ⟨by simp, by simp [hquote], by simp; omega⟩
  · left
    split at hread
    · cases hread
    · rename_i n hn
      obtain ⟨htake, hdrop⟩ : (b :: t).take n = d ∧ (b :: t).drop n = [] := by simpa using hread
      have hall : (b :: t).take n = b :: t := by
        rw [← append_nil ((b :: t).take n), ← hdrop, take_append_drop]
      have hchar := isChar_take hn
      rw [hall] at hchar htake
      refine ⟨htake, fun c hc => ?_⟩
      rcases isChar_cases hchar with ⟨c', hc', heq⟩ | hhigh
      · rw [heq, mem_singleton] at hc
        obtain ⟨rfl, -⟩ := List.cons.inj heq
        exact hc ▸ ⟨by omega, hb, hescape⟩
      · have := hhigh c hc
        exact ⟨by omega, by omega, by omega⟩

/-- Decoding never makes a string longer, and one that keeps its length is spelled by itself. -/
theorem spellsString_length (h : SpellsString t d) :
    d.length ≤ t.length ∧ (t.length ≤ d.length → t = d ∧ ∀ b ∈ t, Unescaped b) := by
  induction h with
  | nil => simp
  | @cons item d t ds hitem _ ih =>
    rw [length_append, length_append]
    rcases spellsItem_cases hitem with ⟨rfl, hplain⟩ | ⟨rfl, rfl⟩ | ⟨-, -, hlt⟩
    · refine ⟨by omega, fun hle => ?_⟩
      obtain ⟨rfl, hrest⟩ := ih.2 (by omega)
      exact ⟨rfl, fun b hb => (mem_append.mp hb).elim (hplain b) (hrest b)⟩
    · simp only [length_cons, length_nil]
      exact ⟨by omega, fun hle => by omega⟩
    · exact ⟨by omega, fun hle => by omega⟩

theorem spellsString_eq_of_no_escape (h : SpellsString t d) (hno : 0x5c ∉ t) : t = d := by
  induction h with
  | nil => rfl
  | cons hitem _ ih =>
    rw [mem_append, not_or] at hno
    rw [ih hno.2]
    rcases spellsItem_cases hitem with ⟨rfl, -⟩ | ⟨rfl, rfl⟩ | ⟨hmem, -⟩
    · rfl
    · exact absurd hno.1 (by simp)
    · exact absurd hmem hno.1

/-- A quote inside a string comes after a backslash, and what follows it is spelled on its own. -/
theorem spellsString_quote {x y : Bytes} (h : SpellsString t d) (ht : t = x ++ 0x22 :: y) :
    ∃ t₁ d₁ d₂, x = t₁ ++ [0x5c] ∧ SpellsString t₁ d₁ ∧ SpellsString y d₂ ∧
      d = d₁ ++ 0x22 :: d₂ := by
  induction h generalizing x with
  | nil => simp at ht
  | @cons item d t ds hitem hrest ih =>
    rcases append_eq_append_iff.mp ht with ⟨x', rfl, ht'⟩ | ⟨w, rfl, hw⟩
    · obtain ⟨t₁, d₁, d₂, rfl, h₁, h₂, rfl⟩ := ih ht'
      exact ⟨item ++ t₁, d ++ d₁, d₂, by simp, .cons hitem h₁, h₂, by simp⟩
    · cases w with
      | nil =>
        obtain ⟨t₁, d₁, d₂, hx, h₁, h₂, rfl⟩ := ih (x := []) hw.symm
        simp at hx
      | cons c w =>
        obtain ⟨rfl, rfl⟩ := List.cons.inj hw
        rcases spellsItem_cases hitem with ⟨-, hplain⟩ | ⟨hx, rfl⟩ | ⟨-, hquote, -⟩
        · exact absurd rfl (hplain 0x22 (by simp)).2.1
        · obtain ⟨rfl, rfl⟩ : x = [0x5c] ∧ w = [] := by
            rcases x with _ | ⟨a, _ | ⟨c, x⟩⟩ <;> simp at hx
            exact ⟨by rw [hx.1], hx.2⟩
          exact ⟨[], [], ds, rfl, .nil, hrest, rfl⟩
        · exact absurd (by simp) hquote

/-- If a string is read from a text that starts with `id` and then ends a string, and it is `id`
or continues it after a NUL, then `id` is spelled by itself. -/
theorem unescaped_of_readString {id u : Bytes}
    (h : readString (id ++ 0x22 :: 0x2c :: 0x22 :: u) = some (d, rest)) (hid : cstr d = id) :
    ∀ b ∈ id, Unescaped b := by
  obtain ⟨t, ht, hspells⟩ := readString_extent h
  have hlen := spellsString_length hspells
  have hle : id.length ≤ d.length := hid ▸ cstr_length_le d
  rcases append_eq_append_iff.mp ht with ⟨w, hw, hrest⟩ | ⟨w, hw, hrest⟩
  · cases w with
    | nil =>
      rw [append_nil] at hw
      rw [← hw]
      exact (hlen.2 (by rw [hw]; exact hle)).2
    | cons c y =>
      -- The quote after `id` is read as part of the string, so `id` ends in a backslash.
      obtain ⟨rfl, hy⟩ := List.cons.inj hrest
      obtain ⟨t₁, d₁, d₂, hx, h₁, h₂, rfl⟩ := spellsString_quote hspells hw
      have hcomma : y = [0x2c] := by
        rcases y with _ | ⟨a, _ | ⟨c, y⟩⟩
        · cases (List.cons.inj hy).1
        · rw [(List.cons.inj hy).1]
        · obtain ⟨rfl, hy'⟩ := List.cons.inj hy
          obtain ⟨rfl, -⟩ := List.cons.inj hy'
          obtain ⟨t', -, -, ht', -⟩ := spellsString_quote (x := [0x2c]) h₂ rfl
          have := congrArg List.getLast? ht'
          simp at this
      subst hcomma
      obtain rfl := spellsString_eq_of_no_escape h₂ (by simp)
      have hshort := (spellsString_length h₁).1
      have hpre : t₁ ++ [0x5c] <+: d₁ ++ [0x22, 0x2c] := by
        rw [← hx, ← hid]
        exact cstr_prefix_self _
      obtain ⟨z, hz⟩ := hpre
      rw [append_assoc, singleton_append] at hz
      rcases append_eq_append_iff.mp hz with ⟨w, rfl, hw⟩ | ⟨w, rfl, hw⟩
      · obtain rfl : w = [] := length_eq_zero_iff.mp (by simpa using hshort)
        cases (List.cons.inj hw).1
      · have hmem : (0x5c : UInt8) ∈ [0x22, 0x2c] := by rw [hw]; simp
        simp at hmem
  · have hlenw := congrArg List.length hw
    rw [length_append] at hlenw
    obtain rfl : w = [] := length_eq_zero_iff.mp (by omega)
    rw [append_nil] at hw
    rw [hw]
    exact (hlen.2 (by omega)).2

end Cubicle.JsonExtents
