import Mathlib.Data.List.Perm.Subperm
import Mathlib.Data.List.Nodup
import Mathlib.Data.List.Range

/-!
# Tables with a fixed number of slots

A table is a list of slots, each free or in use. An entry goes to a free slot, or in the place of
the entry with the least time when no slot is free; then the table has the latest entries.
-/

namespace Cubicle.SlotTables
open List

variable {α : Type} {slots : List (Option α)}

def used (slots : List (Option α)) : List α := slots.filterMap id

variable {a : α}

@[simp] theorem mem_used : a ∈ used slots ↔ some a ∈ slots := by
  simp [used]

theorem used_perm {others : List (Option α)} (h : slots.Perm others) :
    (used slots).Perm (used others) := h.filterMap id

variable {i : ℕ}

theorem used_set (hi : i < slots.length) (a : α) :
    (used (slots.set i (some a))).Perm (a :: used (slots.eraseIdx i)) :=
  used_perm (set_perm_cons_eraseIdx hi (some a))

theorem used_clear (hi : i < slots.length) :
    (used (slots.set i none)).Perm (used (slots.eraseIdx i)) := by
  have hperm := used_perm (set_perm_cons_eraseIdx hi none)
  exact hperm

/-- The entries but for one slot, when this slot is free. -/
theorem used_free (hi : slots[i]? = some none) : (used slots).Perm (used (slots.eraseIdx i)) := by
  obtain ⟨hlt, hslot⟩ := List.getElem?_eq_some_iff.mp hi
  have hperm := used_perm (getElem_cons_eraseIdx_perm hlt).symm
  rwa [hslot] at hperm

variable {d : α}

/-- The entries but for one slot, when this slot is in use. -/
theorem used_taken (hi : slots[i]? = some (some d)) :
    (used slots).Perm (d :: used (slots.eraseIdx i)) := by
  obtain ⟨hlt, hslot⟩ := List.getElem?_eq_some_iff.mp hi
  have hperm := used_perm (getElem_cons_eraseIdx_perm hlt).symm
  rwa [hslot] at hperm

theorem length_used_of_full (h : none ∉ slots) : (used slots).length = slots.length := by
  induction slots with
  | nil => rfl
  | cons slot slots ih =>
    simp only [mem_cons, not_or] at h
    cases slot with
    | none => exact absurd rfl h.1
    | some a => simpa [used] using ih h.2

/-- Going through the slots and keeping the better one ends at the first slot that is least. -/
theorem foldl_least (f : ℕ → ℕ) (is : List ℕ) (best : ℕ) :
    let least := is.foldl (fun best i => if f i < f best then i else best) best
    (least = best ∨ least ∈ is) ∧ f least ≤ f best ∧ ∀ i ∈ is, f least ≤ f i := by
  induction is generalizing best with
  | nil => simp
  | cons i is ih =>
    obtain ⟨hmem, hbest, hall⟩ := ih (if f i < f best then i else best)
    simp only [foldl_cons, mem_cons, forall_eq_or_imp]
    generalize is.foldl _ _ = least at hmem hbest hall ⊢
    split_ifs at hmem hbest with hlt
    · refine ⟨?_, hbest.trans hlt.le, hbest, hall⟩
      rcases hmem with rfl | hmem
      · exact .inr (.inl rfl)
      · exact .inr (.inr hmem)
    · refine ⟨?_, hbest, hbest.trans (not_lt.mp hlt), hall⟩
      rcases hmem with rfl | hmem
      · exact .inl rfl
      · exact .inr (.inr hmem)

/-- Of the saved entries, given in the order of their times, the table has as many as it can hold,
and none that is older than one it does not have. -/
structure KeepsLatest (time : α → ℕ) (saved : List α) (slots : List (Option α)) : Prop where
  nodup : (used slots).Nodup
  subset : ∀ a ∈ used slots, a ∈ saved
  length : (used slots).length = min saved.length slots.length
  latest : ∀ a ∈ saved, a ∉ used slots → ∀ k ∈ used slots, time a ≤ time k

namespace KeepsLatest
variable {time : α → ℕ} {saved : List α}

theorem empty (capacity : ℕ) : KeepsLatest time [] (List.replicate capacity none) := by
  have hused : used (List.replicate capacity (none : Option α)) = [] := by
    simp [used]
  constructor <;> simp [hused]

/-- What is saved goes in the place of an entry or of none. -/
theorem set (h : KeepsLatest time saved slots) (hnew : a ∉ saved)
    (htime : ∀ b ∈ saved, time b ≤ time a) (hi : i < slots.length) (gone : List α)
    (hgone : (used slots).Perm (gone ++ used (slots.eraseIdx i)))
    (hlength : min saved.length slots.length + 1 =
      gone.length + min (saved.length + 1) slots.length)
    (hleast : ∀ d ∈ gone, ∀ k ∈ used slots, time d ≤ time k) :
    KeepsLatest time (saved ++ [a]) (slots.set i (some a)) := by
  have hperm := used_set hi a
  have hold : ∀ b, b ∈ used slots ↔ b ∈ gone ∨ b ∈ used (slots.eraseIdx i) := fun b =>
    hgone.mem_iff.trans mem_append
  have hmem : ∀ b, b ∈ used (slots.set i (some a)) ↔ b = a ∨ b ∈ used (slots.eraseIdx i) :=
    fun b => hperm.mem_iff.trans mem_cons
  refine ⟨hperm.nodup_iff.mpr (nodup_cons.mpr ⟨fun ha => ?_, ?_⟩), fun b hb => ?_, ?_,
    fun b hb hout k hk => ?_⟩
  · exact hnew (h.subset a ((hold a).mpr (.inr ha)))
  · exact (hgone.nodup_iff.mp h.nodup).of_append_right
  · rcases (hmem b).mp hb with rfl | hb
    · exact mem_append_right _ (mem_singleton_self b)
    · exact mem_append_left _ (h.subset b ((hold b).mpr (.inr hb)))
  · have hbefore := h.length
    rw [hgone.length_eq, length_append] at hbefore
    rw [hperm.length_eq, length_cons, length_append, length_set,
      length_singleton]
    omega
  · rw [hmem, not_or] at hout
    have hbsaved : b ∈ saved := by simpa [hout.1] using hb
    rcases (hmem k).mp hk with rfl | hk
    · exact htime b hbsaved
    · have hkused : k ∈ used slots := (hold k).mpr (.inr hk)
      by_cases hbused : b ∈ used slots
      · exact hleast b (((hold b).mp hbused).resolve_right hout.2) k hkused
      · exact h.latest b hbsaved hbused k hkused

theorem set_free (h : KeepsLatest time saved slots) (hnew : a ∉ saved)
    (htime : ∀ b ∈ saved, time b ≤ time a) (hi : slots[i]? = some none) :
    KeepsLatest time (saved ++ [a]) (slots.set i (some a)) := by
  obtain ⟨hlt, -⟩ := List.getElem?_eq_some_iff.mp hi
  have hfree := used_free hi
  refine h.set hnew htime hlt [] hfree ?_ (by simp)
  have hless : (used (slots.eraseIdx i)).length ≤ slots.length - 1 := by
    rw [← length_eraseIdx_of_lt hlt]
    exact length_filterMap_le _ _
  rw [← hfree.length_eq, h.length] at hless
  rw [length_nil]
  omega

theorem set_least (h : KeepsLatest time saved slots) (hnew : a ∉ saved)
    (htime : ∀ b ∈ saved, time b ≤ time a) (hfull : none ∉ slots) (hi : slots[i]? = some (some d))
    (hleast : ∀ k ∈ used slots, time d ≤ time k) :
    KeepsLatest time (saved ++ [a]) (slots.set i (some a)) := by
  obtain ⟨hlt, -⟩ := List.getElem?_eq_some_iff.mp hi
  refine h.set hnew htime hlt [d] (used_taken hi) ?_ (by simpa using hleast)
  have hlength := h.length
  rw [length_used_of_full hfull] at hlength
  rw [length_singleton]
  omega

/-- With times that all differ, the table has exactly the last entries. -/
theorem perm_drop (h : KeepsLatest time saved slots)
    (htimes : saved.Pairwise fun a b => time a < time b) :
    (used slots).Perm (saved.drop (saved.length - slots.length)) := by
  have hsplit := take_append_drop (saved.length - slots.length) saved
  set late := saved.drop (saved.length - slots.length) with hlate
  have hlength : late.length = (used slots).length := by
    rw [h.length, hlate, length_drop]
    omega
  have hsub : late ⊆ used slots := by
    intro a ha
    by_contra hout
    -- some entry in use is not among the last ones, so it is older than one that is missing
    obtain ⟨k, hk, hklate⟩ : ∃ k ∈ used slots, k ∉ late := by
      by_contra hall
      push Not at hall
      have hperm : (used slots).Perm late :=
        (h.nodup.subperm hall).perm_of_length_le hlength.le
      exact hout (hperm.mem_iff.mpr ha)
    have hkearly : k ∈ saved.take (saved.length - slots.length) := by
      have := h.subset k hk
      rw [← hsplit, mem_append] at this
      exact this.resolve_right hklate
    rw [← hsplit, pairwise_append] at htimes
    have hlt := htimes.2.2 k hkearly a ha
    have hle := h.latest a (mem_of_mem_drop ha) hout k hk
    omega
  have hnodup : late.Nodup := by
    rw [← hsplit, pairwise_append] at htimes
    exact htimes.2.1.imp fun hlt heq => by simp [heq] at hlt
  exact ((hnodup.subperm hsub).perm_of_length_le hlength.ge).symm

end KeepsLatest

end Cubicle.SlotTables
