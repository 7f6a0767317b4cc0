import Cubicle.JsonUtf8

/-!
# The strings of a value

A string of a document is read by itself, wherever it stands, so all of them are UTF-8.
-/

namespace Cubicle.JsonStrings
open ByteText Utf8Sequences JsonText JsonUtf8

/-- A string somewhere in a value, keys apart. -/
inductive HasString (d : Bytes) : Json → Prop
  | str : HasString d (.str d)
  | arr {items : List Json} {v : Json} (hv : v ∈ items) (h : HasString d v) :
    HasString d (.arr items)
  | obj {members : List (Bytes × Json)} {m : Bytes × Json} (hm : m ∈ members)
    (h : HasString d m.2) : HasString d (.obj members)

variable {close fuel : ℕ} {s rest d : Bytes} {negative : Bool} {v : Json}

/-- Each item of a list was read at some place of the input. -/
theorem exists_read_of_mem_readItems {α : Type} {item : Bytes → Option (α × Bytes)} {xs : List α}
    (h : readItems close item fuel s = some (xs, rest)) {x : α} (hx : x ∈ xs) :
    ∃ s' rest', item s' = some (x, rest') := by
  induction fuel generalizing s rest xs with
  | zero => simp [readItems] at h
  | succ fuel ih =>
    rw [readItems] at h
    split at h
    · simp at h
    · rename_i y t hy
      split at h
      · simp at h
      · split_ifs at h
        · obtain ⟨rfl, -⟩ := Prod.mk.inj (Option.some.inj h)
          obtain rfl := List.mem_singleton.mp hx
          exact ⟨_, _, hy⟩
        · obtain ⟨p, hp, heq⟩ := Option.map_eq_some_iff.mp h
          obtain ⟨rfl, -⟩ := Prod.mk.inj heq
          rcases List.mem_cons.mp hx with rfl | hx
          · exact ⟨_, _, hy⟩
          · exact ih hp hx

theorem exists_read_of_mem_readSequence {α : Type} {item : Bytes → Option (α × Bytes)} {xs : List α}
    (h : readSequence close item s = some (xs, rest)) {x : α} (hx : x ∈ xs) :
    ∃ s' rest', item s' = some (x, rest') := by
  unfold readSequence at h
  split at h
  · simp at h
  · split_ifs at h
    · obtain ⟨rfl, -⟩ := Prod.mk.inj (Option.some.inj h)
      simp at hx
    · exact exists_read_of_mem_readItems h hx

theorem integerValue_noString {digits text : Bytes} (h : integerValue negative digits text =
    some v) :
    ¬ HasString d v := by
  dsimp only [integerValue] at h
  split_ifs at h
  all_goals
    obtain rfl := Option.some.inj h
    rintro ⟨⟩

theorem readUnsigned_noString {whole : Bytes} (h : readUnsigned negative whole s = some (v, rest)) :
    ¬ HasString d v := by
  unfold readUnsigned at h
  dsimp only at h
  split_ifs at h
  split at h
  · simp at h
  · split at h
    · simp at h
    · split at h
      · obtain ⟨w, hw, heq⟩ := Option.map_eq_some_iff.mp h
        obtain ⟨rfl, -⟩ := Prod.mk.inj heq
        exact integerValue_noString hw
      · split_ifs at h
        obtain ⟨rfl, -⟩ := Prod.mk.inj (Option.some.inj h)
        rintro ⟨⟩

theorem readNumber_noString (h : readNumber s = some (v, rest)) : ¬ HasString d v := by
  cases s with
  | nil => simp [readNumber] at h
  | cons b t =>
    rw [readNumber] at h
    split_ifs at h
    · exact readUnsigned_noString h
    · exact readUnsigned_noString h

theorem readLiteral_noString (h : readLiteral s = some (v, rest)) : ¬ HasString d v := by
  unfold readLiteral at h
  split_ifs at h
  all_goals
    obtain ⟨rfl, -⟩ := Prod.mk.inj (Option.some.inj h)
    rintro ⟨⟩

theorem exists_value_of_readMember {value : Bytes → Option (Json × Bytes)} {m : Bytes × Json}
    (h : readMember value s = some (m, rest)) : ∃ s' rest', value s' = some (m.2, rest') := by
  cases s with
  | nil => simp [readMember] at h
  | cons b t =>
    rw [readMember] at h
    split_ifs at h
    split at h
    · simp at h
    · split at h
      · simp at h
      · split_ifs at h
        obtain ⟨p, hp, heq⟩ := Option.map_eq_some_iff.mp h
        obtain ⟨rfl, -⟩ := Prod.mk.inj heq
        exact ⟨_, _, hp⟩

theorem text_of_readValue (h : readValue fuel s = some (v, rest)) (hd : HasString d v) :
    Text d := by
  induction fuel generalizing s v rest with
  | zero => simp [readValue] at h
  | succ fuel ih =>
    cases s with
    | nil => simp [readValue] at h
    | cons b t =>
      rw [readValue] at h
      split_ifs at h
      · obtain ⟨p, hp, heq⟩ := Option.map_eq_some_iff.mp h
        obtain ⟨rfl, -⟩ := Prod.mk.inj heq
        cases hd with
        | obj hm hd =>
          obtain ⟨s', rest', hread⟩ := exists_read_of_mem_readSequence hp hm
          obtain ⟨s'', rest'', hvalue⟩ := exists_value_of_readMember hread
          exact ih hvalue hd
      · obtain ⟨p, hp, heq⟩ := Option.map_eq_some_iff.mp h
        obtain ⟨rfl, -⟩ := Prod.mk.inj heq
        cases hd with
        | arr hv hd =>
          obtain ⟨s', rest', hread⟩ := exists_read_of_mem_readSequence hp hv
          exact ih hread hd
      · obtain ⟨p, hp, heq⟩ := Option.map_eq_some_iff.mp h
        obtain ⟨rfl, -⟩ := Prod.mk.inj heq
        cases hd
        exact (readString_text hp).2
      · exact absurd hd (readNumber_noString h)
      · exact absurd hd (readLiteral_noString h)

/-- Every string in a document is UTF-8. -/
theorem text_of_hasString (h : readDocument s = some v) (hd : HasString d v) : Text d := by
  unfold readDocument at h
  split at h
  · simp at h
  · rename_i w rest hw
    split_ifs at h
    obtain rfl := Option.some.inj h
    exact text_of_readValue hw hd

end Cubicle.JsonStrings
