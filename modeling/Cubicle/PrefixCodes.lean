import Mathlib.Data.List.Basic
import Mathlib.Logic.Function.Basic

/-!
# Self-delimiting codes

A code is self-delimiting when its words can be read off the front of any text: two texts that
start with words of the code and are equal start with the same word. Such codes can be written
one after the other without losing anything.
-/

namespace Cubicle.PrefixCodes

variable {α ν σ : Type}

/-- Whatever follows two words, equal texts have the same word in front. -/
def SelfDelimiting (code : α → List σ) : Prop :=
  ∀ a b s t, code a ++ s = code b ++ t → a = b ∧ s = t

variable {code : α → List σ}

theorem SelfDelimiting.injective (h : SelfDelimiting code) : Function.Injective code := by
  intro a b hab
  exact (h a b [] [] (by rw [hab])).1

theorem selfDelimiting_of_length (hcode : Function.Injective code) {n : ℕ}
    (hlength : ∀ a, (code a).length = n) : SelfDelimiting code := by
  intro a b s t h
  obtain ⟨hword, hrest⟩ := List.append_inj h (by rw [hlength, hlength])
  exact ⟨hcode hword, hrest⟩

/-- A word behind a self-delimiting count of its letters. -/
theorem SelfDelimiting.counted {count : ν → List σ} (hcount : SelfDelimiting count)
    {size : α → ν} {word : α → List σ} (hword : Function.Injective word)
    (hsize : ∀ a b, size a = size b → (word a).length = (word b).length) :
    SelfDelimiting fun a => count (size a) ++ word a := by
  intro a b s t h
  simp only [List.append_assoc] at h
  obtain ⟨hab, hrest⟩ := hcount _ _ _ _ h
  obtain ⟨heq, hrest⟩ := List.append_inj hrest (hsize a b hab)
  exact ⟨hword heq, hrest⟩

end Cubicle.PrefixCodes
