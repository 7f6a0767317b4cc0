import Cubicle.JsonText

/-!
# Accepted JSON texts are UTF-8

Whatever the reader consumes is a UTF-8 text without NUL bytes, and every string it decodes
is UTF-8. A byte string that is not UTF-8 is therefore no document.
-/

namespace Cubicle.JsonUtf8
open ByteText Utf8Sequences JsonText

/-- Between `s` and `rest` a UTF-8 text without NUL was consumed. -/
def Consumes (s rest : Bytes) : Prop := ∃ t, s = t ++ rest ∧ Text t ∧ 0 ∉ t

theorem Consumes.refl (s : Bytes) : Consumes s s := ⟨[], rfl, .nil, by simp⟩

variable {s t rest d : Bytes} {b : UInt8} {n fuel close : ℕ} {negative : Bool} {e : Option ℤ}
  {v : Json}

theorem Consumes.trans {u : Bytes} (h : Consumes s t) (h' : Consumes t u) : Consumes s u := by
  obtain ⟨a, rfl, ha, ha0⟩ := h
  obtain ⟨b, rfl, hb, hb0⟩ := h'
  exact ⟨a ++ b, by simp, text_append ha hb, by simp [ha0, hb0]⟩

/-- An ASCII byte other than NUL. -/
def Marked (b : UInt8) : Prop := 0 < b.toNat ∧ b.toNat < 0x80

theorem zero_notMem (h : ∀ b ∈ t, 0 < b.toNat) : 0 ∉ t := fun h0 => by
  simpa using h 0 h0

theorem Consumes.cons {b : UInt8} {s rest : Bytes} (hb : Marked b) (h : Consumes s rest) :
    Consumes (b :: s) rest := by
  obtain ⟨t, rfl, ht, h0⟩ := h
  refine ⟨b :: t, rfl, .cons (isChar_ascii hb.2) ht, ?_⟩
  rw [List.mem_cons, not_or]
  exact ⟨fun he => by simpa [← he] using hb.1, h0⟩

theorem Consumes.ascii (h : ∀ b ∈ t, Marked b) (rest : Bytes) : Consumes (t ++ rest) rest :=
  ⟨t, rfl, text_ascii fun b hb => (h b hb).2, zero_notMem fun b hb => (h b hb).1⟩

/-- Bytes that are skipped by a test that only ASCII passes. -/
theorem consumes_dropWhile {p : UInt8 → Bool} (hp : ∀ b, p b = true → Marked b)
    (s : Bytes) : Consumes s (s.dropWhile p) := by
  have h := Consumes.ascii (t := s.takeWhile p) (fun b hb => hp b (List.mem_takeWhile_imp hb))
    (s.dropWhile p)
  rwa [List.takeWhile_append_dropWhile] at h

theorem isSpace_lt (h : isSpace b = true) : Marked b := by
  simp only [isSpace, Bool.or_eq_true, decide_eq_true_eq] at h
  unfold Marked
  omega

theorem isDigit_lt (h : isDigit b = true) : Marked b := by
  simp only [isDigit, Bool.and_eq_true, decide_eq_true_eq] at h
  unfold Marked
  omega

theorem consumes_skipSpace (s : Bytes) : Consumes s (skipSpace s) :=
  consumes_dropWhile (fun _ => isSpace_lt) s

theorem consumes_digits (s : Bytes) : Consumes s (s.dropWhile isDigit) :=
  consumes_dropWhile (fun _ => isDigit_lt) s

/-- Escaped code units are spelled in ASCII. -/
theorem unitByte_lt (h : UnitByte b) : Marked b := by
  unfold Marked
  obtain h | rfl | rfl := h
  · unfold hexValue at h
    split_ifs at h
    all_goals first | omega | cases h
  · decide
  · decide

theorem text_encodeScalar (v : ℕ) : Text (encodeScalar v) :=
  text_singleton (isChar_utf8EncodeChar _)

theorem readEscape_text (h : readEscape s = some (d, rest)) : Consumes s rest ∧ Text d := by
  rcases readEscape_cases h with ⟨p, hp, rfl, rfl⟩ | ⟨u, rfl, hunicode⟩
  · have hall : ∀ p ∈ escapeLetters, (0 < p.1.toNat ∧ p.1.toNat < 0x80) ∧ p.2.toNat < 0x80 := by
      simp [escapeLetters]
    exact ⟨.cons (hall p hp).1 (.refl _), text_singleton (isChar_ascii (hall p hp).2)⟩
  · obtain ⟨t, rfl, ⟨-, hall⟩, ⟨v, rfl⟩, -⟩ := readUnicode_extent hunicode
    exact ⟨.cons ⟨by decide, by decide⟩ (.ascii (fun b hb => unitByte_lt (hall b hb)) rest),
      text_encodeScalar v⟩

/-- One character of a string, escaped or not. -/
theorem readStringItem_text (h : readStringItem s = some (d, rest)) : Consumes s rest ∧ Text d := by
  cases s with
  | nil => simp [readStringItem] at h
  | cons b t =>
    rw [readStringItem] at h
    split_ifs at h with h1 h2
    · obtain ⟨hc, ht⟩ := readEscape_text h
      exact ⟨.cons ⟨by omega, by omega⟩ hc, ht⟩
    · cases hn : charLength (b :: t) with
      | none => simp [hn] at h
      | some n =>
        obtain ⟨rfl, rfl⟩ : (b :: t).take n = d ∧ (b :: t).drop n = rest := by
          simpa [hn] using h
        have htext := text_singleton (isChar_take hn)
        refine ⟨⟨_, (List.take_append_drop n _).symm, htext, zero_notMem ?_⟩, htext⟩
        rcases isChar_cases (isChar_take hn) with ⟨c, -, hc⟩ | hhigh
        · have hpos := charLength_pos hn
          obtain ⟨n, rfl⟩ : ∃ k, n = k + 1 := ⟨n - 1, by omega⟩
          obtain ⟨rfl, hnil⟩ : b = c ∧ t.take n = [] := by simpa using hc
          intro x hx
          obtain rfl : x = b := by simpa [hnil] using hx
          omega
        · intro x hx
          have := hhigh x hx
          omega

theorem readStringFrom_text (h : readStringFrom fuel s = some (d, rest)) :
    Consumes s rest ∧ Text d := by
  induction fuel generalizing s d with
  | zero => simp [readStringFrom] at h
  | succ fuel ih =>
    cases s with
    | nil => simp [readStringFrom] at h
    | cons b t =>
      rw [readStringFrom] at h
      split_ifs at h with hb
      · obtain ⟨rfl, rfl⟩ : [] = d ∧ t = rest := by simpa using h
        exact ⟨.cons ⟨by omega, by omega⟩ (.refl _), .nil⟩
      · cases hi : readStringItem (b :: t) with
        | none => simp [hi] at h
        | some p =>
          obtain ⟨⟨ds, r⟩, hrec, heq⟩ : ∃ q, readStringFrom fuel p.2 = some q ∧
              (p.1 ++ q.1, q.2) = (d, rest) := by simpa [hi] using h
          obtain ⟨rfl, rfl⟩ : p.1 ++ ds = d ∧ r = rest := by simpa using heq
          obtain ⟨hc, ht⟩ := readStringItem_text hi
          obtain ⟨hc', ht'⟩ := ih hrec
          exact ⟨hc.trans hc', text_append ht ht'⟩

theorem readString_text (h : readString s = some (d, rest)) :
    Consumes s rest ∧ Text d := readStringFrom_text h

theorem consumes_readFraction {f : Option Bytes} (h : readFraction s = some (f, rest)) :
    Consumes s rest := by
  cases s with
  | nil =>
    obtain ⟨-, rfl⟩ : none = f ∧ [] = rest := by simpa [readFraction] using h
    exact .refl _
  | cons b t =>
    rw [readFraction] at h
    split_ifs at h with hb he
    · obtain ⟨-, rfl⟩ : _ ∧ t.dropWhile isDigit = rest := by simpa using h
      exact .cons ⟨by omega, by omega⟩ (consumes_digits t)
    · obtain ⟨-, rfl⟩ : _ ∧ b :: t = rest := by simpa using h
      exact .refl _

theorem consumes_readExponentDigits (h : readExponentDigits negative s = some (e, rest)) :
    Consumes s rest := by
  unfold readExponentDigits at h
  split_ifs at h
  all_goals
    obtain ⟨-, rfl⟩ : _ ∧ s.dropWhile isDigit = rest := by simpa using h
    exact consumes_digits s

theorem consumes_readExponent (h : readExponent s = some (e, rest)) : Consumes s rest := by
  cases s with
  | nil =>
    obtain ⟨-, rfl⟩ : none = e ∧ [] = rest := by simpa [readExponent] using h
    exact .refl _
  | cons b t =>
    simp only [readExponent] at h
    split_ifs at h with hb
    · cases t with
      | nil => simp at h
      | cons c u =>
        simp only at h
        split_ifs at h with h1 h2
        · exact .cons ⟨by omega, by omega⟩ (.cons ⟨by omega, by omega⟩ (consumes_readExponentDigits h))
        · exact .cons ⟨by omega, by omega⟩ (.cons ⟨by omega, by omega⟩ (consumes_readExponentDigits h))
        · exact .cons ⟨by omega, by omega⟩ (consumes_readExponentDigits h)
    · obtain ⟨-, rfl⟩ : _ ∧ b :: t = rest := by simpa using h
      exact .refl _

theorem consumes_readUnsigned {whole : Bytes} (h : readUnsigned negative whole s = some (v, rest)) :
    Consumes s rest := by
  unfold readUnsigned at h
  dsimp only at h
  split_ifs at h
  split at h
  · simp at h
  · rename_i f r hf
    split at h
    · simp at h
    · rename_i e r' he
      have hconsumed : Consumes s r' := (consumes_digits s).trans
        ((consumes_readFraction hf).trans (consumes_readExponent he))
      have hrest : r' = rest := by
        split at h
        · obtain ⟨w, -, hw⟩ := Option.map_eq_some_iff.mp h
          exact (Prod.mk.inj hw).2
        · split_ifs at h
          exact (Prod.mk.inj (Option.some.inj h)).2
      exact hrest ▸ hconsumed

theorem consumes_readNumber (h : readNumber s = some (v, rest)) : Consumes s rest := by
  cases s with
  | nil => simp [readNumber] at h
  | cons b t =>
    rw [readNumber] at h
    split_ifs at h with hb
    · exact .cons ⟨by omega, by omega⟩ (consumes_readUnsigned h)
    · exact consumes_readUnsigned h

theorem consumes_readLiteral (h : readLiteral s = some (v, rest)) : Consumes s rest := by
  have literal : ∀ t : Bytes, t <+: s → (∀ b ∈ t, Marked b) → s.drop t.length = rest →
      Consumes s rest := by
    rintro t ⟨u, rfl⟩ ht rfl
    rw [List.drop_left]
    exact .ascii ht u
  unfold readLiteral at h
  split_ifs at h with h1 h2 h3
  · exact literal _ h1 (by simp [ByteText.ascii, Marked]) (Prod.mk.inj (Option.some.inj h)).2
  · exact literal _ h2 (by simp [ByteText.ascii, Marked]) (Prod.mk.inj (Option.some.inj h)).2
  · exact literal _ h3 (by simp [ByteText.ascii, Marked]) (Prod.mk.inj (Option.some.inj h)).2

theorem consumes_readItems {α : Type} (hclose : 0 < close ∧ close < 0x80)
    {item : Bytes → Option (α × Bytes)}
    (hitem : ∀ s x rest, item s = some (x, rest) → Consumes s rest) {xs : List α}
    (h : readItems close item fuel s = some (xs, rest)) : Consumes s rest := by
  induction fuel generalizing s xs with
  | zero => simp [readItems] at h
  | succ fuel ih =>
    rw [readItems] at h
    split at h
    · simp at h
    · rename_i x t hx
      have hconsumed := (consumes_skipSpace s).trans (hitem _ _ _ hx)
      split at h
      · simp at h
      · rename_i b r hb
        have hconsumed' := hconsumed.trans (consumes_skipSpace t)
        rw [hb] at hconsumed'
        split_ifs at h with h1 h2
        · obtain ⟨-, rfl⟩ : _ ∧ r = rest := by simpa using h
          exact hconsumed'.trans (.cons ⟨by omega, by omega⟩ (.refl _))
        · obtain ⟨p, hp, heq⟩ := Option.map_eq_some_iff.mp h
          obtain ⟨-, rfl⟩ := Prod.mk.inj heq
          exact hconsumed'.trans (.cons ⟨by omega, by omega⟩ (ih hp))

/-- What lies between the brackets is consumed if each item is. -/
theorem consumes_readSequence {α : Type} (hclose : 0 < close ∧ close < 0x80)
    {item : Bytes → Option (α × Bytes)}
    (hitem : ∀ s x rest, item s = some (x, rest) → Consumes s rest) {xs : List α}
    (h : readSequence close item s = some (xs, rest)) : Consumes s rest := by
  unfold readSequence at h
  split at h
  · simp at h
  · rename_i b r hb
    split_ifs at h with h1
    · obtain ⟨-, rfl⟩ : _ ∧ r = rest := by simpa using h
      have := consumes_skipSpace s
      rw [hb] at this
      exact this.trans (.cons ⟨by omega, by omega⟩ (.refl _))
    · exact consumes_readItems hclose hitem h

theorem consumes_readMember {value : Bytes → Option (Json × Bytes)}
    (hvalue : ∀ s v rest, value s = some (v, rest) → Consumes s rest) {m : Bytes × Json}
    (h : readMember value s = some (m, rest)) : Consumes s rest := by
  cases s with
  | nil => simp [readMember] at h
  | cons b t =>
    rw [readMember] at h
    split_ifs at h with hb
    split at h
    · simp at h
    · rename_i key r hkey
      have hkey' := (readString_text hkey).1
      split at h
      · simp at h
      · rename_i c r' hc
        split_ifs at h with hcolon
        obtain ⟨p, hp, heq⟩ := Option.map_eq_some_iff.mp h
        obtain ⟨-, rfl⟩ := Prod.mk.inj heq
        have hskip := consumes_skipSpace r
        rw [hc] at hskip
        exact .cons ⟨by omega, by omega⟩ (hkey'.trans (hskip.trans
          (.cons ⟨by omega, by omega⟩ ((consumes_skipSpace r').trans (hvalue _ _ _ hp)))))

/-- A value of any kind is consumed. -/
theorem consumes_readValue (h : readValue fuel s = some (v, rest)) : Consumes s rest := by
  induction fuel generalizing s v rest with
  | zero => simp [readValue] at h
  | succ fuel ih =>
    cases s with
    | nil => simp [readValue] at h
    | cons b t =>
      rw [readValue] at h
      split_ifs at h with h1 h2 h3 h4
      · obtain ⟨p, hp, heq⟩ := Option.map_eq_some_iff.mp h
        obtain ⟨-, rfl⟩ := Prod.mk.inj heq
        exact .cons ⟨by omega, by omega⟩ (consumes_readSequence (by decide)
          (fun _ _ _ hm => consumes_readMember (fun _ _ _ hv => ih hv) hm) hp)
      · obtain ⟨p, hp, heq⟩ := Option.map_eq_some_iff.mp h
        obtain ⟨-, rfl⟩ := Prod.mk.inj heq
        exact .cons ⟨by omega, by omega⟩ (consumes_readSequence (by decide) (fun _ _ _ hv => ih hv) hp)
      · obtain ⟨p, hp, heq⟩ := Option.map_eq_some_iff.mp h
        obtain ⟨-, rfl⟩ := Prod.mk.inj heq
        exact .cons ⟨by omega, by omega⟩ (readString_text hp).1
      · exact consumes_readNumber h
      · exact consumes_readLiteral h

/-- A document is UTF-8 without NUL. -/
theorem text_of_readDocument (h : readDocument s = some v) : Text s ∧ 0 ∉ s := by
  unfold readDocument at h
  split at h
  · simp at h
  · rename_i w rest hw
    split_ifs at h with he
    have hrest : skipSpace rest = [] := List.isEmpty_iff.mp he
    have hall := ((consumes_skipSpace s).trans (consumes_readValue hw)).trans
      (consumes_skipSpace rest)
    rw [hrest] at hall
    obtain ⟨t, rfl, ht⟩ := hall
    simpa using ht

end Cubicle.JsonUtf8
