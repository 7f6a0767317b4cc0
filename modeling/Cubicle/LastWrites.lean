import Mathlib.Data.List.Nodup
import Mathlib.Tactic

/-!
# Tables that keep the last write

A table in which a record takes the place of the one with the same key, or is put at the end. After
any writes it holds the last one of every key, and each key once.
-/

namespace Cubicle.LastWrites
open List

variable {α κ : Type*} [DecidableEq κ] (key : α → κ)

/-- A write: the record replaces the one with its key, or goes to the end. -/
def upsert (r : α) (rs : List α) : List α :=
  (rs.map fun a => if key a = key r then r else a) ++
    if rs.any fun a => key a = key r then [] else [r]

variable {r : α} {rs : List α}

theorem mem_upsert {a : α} : a ∈ upsert key r rs ↔ a = r ∨ (a ∈ rs ∧ key a ≠ key r) := by
  have hany : (rs.any fun a => key a = key r) = true ↔ ∃ b ∈ rs, key b = key r := by simp
  constructor
  · intro h
    rcases mem_append.mp h with h | h
    · obtain ⟨b, hb, rfl⟩ := mem_map.mp h
      split_ifs with hkey
      · exact Or.inl rfl
      · exact Or.inr ⟨hb, hkey⟩
    · split_ifs at h
      · simp at h
      · exact Or.inl (mem_singleton.mp h)
  · rintro (rfl | ⟨ha, hkey⟩)
    · by_cases hfound : ∃ b ∈ rs, key b = key a
      · obtain ⟨b, hb, hkey⟩ := hfound
        exact mem_append_left _ (mem_map.mpr ⟨b, hb, if_pos hkey⟩)
      · refine mem_append_right _ ?_
        rw [if_neg (mt hany.mp hfound)]
        exact mem_singleton_self a
    · exact mem_append_left _ (mem_map.mpr ⟨a, ha, if_neg hkey⟩)

theorem nodup_upsert (h : (rs.map key).Nodup) : ((upsert key r rs).map key).Nodup := by
  have hmap : (rs.map fun a => if key a = key r then r else a).map key = rs.map key := by
    rw [map_map]
    refine map_congr_left fun a _ => ?_
    simp only [Function.comp_apply]
    split_ifs with hkey
    · exact hkey.symm
    · rfl
  rw [upsert, map_append, hmap]
  split_ifs with hany
  · simpa using h
  · have hfresh : key r ∉ rs.map key := by
      intro hmem
      obtain ⟨a, ha, hkey⟩ := mem_map.mp hmem
      exact hany (any_eq_true.mpr ⟨a, ha, decide_eq_true hkey⟩)
    rw [map_singleton, ← concat_eq_append]
    exact h.concat hfresh

/-- A write that no later one has replaced. -/
def LastWritten (writes : List α) (r : α) : Prop :=
  ∃ before after, writes = before ++ r :: after ∧ ∀ b ∈ after, key b ≠ key r

omit [DecidableEq κ] in
theorem lastWritten_append {writes : List α} {w : α} :
    LastWritten key (writes ++ [w]) r ↔ r = w ∨ (LastWritten key writes r ∧ key r ≠ key w) := by
  constructor
  · rintro ⟨before, after, heq, hafter⟩
    rcases eq_nil_or_concat after with rfl | ⟨after, last, rfl⟩
    · have hlast := (append_inj' heq rfl).2
      exact Or.inl (by simpa using hlast.symm)
    · rw [concat_eq_append, ← cons_append, ← append_assoc] at heq
      obtain ⟨hwrites, hlast⟩ := append_inj' heq rfl
      obtain rfl : w = last := by simpa using hlast
      refine Or.inr ⟨⟨before, after, hwrites, fun b hb => hafter b (by simp [hb])⟩, ?_⟩
      exact (hafter w (by simp)).symm
  · rintro (rfl | ⟨⟨before, after, rfl, hafter⟩, hkey⟩)
    · exact ⟨writes, [], rfl, by simp⟩
    · refine ⟨before, after ++ [w], by simp, fun b hb => ?_⟩
      rcases mem_append.mp hb with hb | hb
      · exact hafter b hb
      · obtain rfl := mem_singleton.mp hb
        exact hkey.symm

/-- The table after some writes. -/
def tableOf (writes : List α) : List α := writes.foldl (fun rs r => upsert key r rs) []

theorem tableOf_append (writes : List α) (w : α) :
    tableOf key (writes ++ [w]) = upsert key w (tableOf key writes) := by
  simp [tableOf]

/-- The table has exactly the writes that were not replaced. -/
theorem mem_tableOf {writes : List α} : r ∈ tableOf key writes ↔ LastWritten key writes r := by
  induction writes using List.reverseRecOn with
  | nil => simp [tableOf, LastWritten]
  | append_singleton writes w ih => rw [tableOf_append, mem_upsert, lastWritten_append, ih]

theorem nodup_tableOf (writes : List α) : ((tableOf key writes).map key).Nodup := by
  induction writes using List.reverseRecOn with
  | nil => exact nodup_nil
  | append_singleton writes w ih =>
    rw [tableOf_append]
    exact nodup_upsert key ih

end Cubicle.LastWrites
