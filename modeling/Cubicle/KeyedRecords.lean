import Mathlib.Data.List.Pairwise
import Mathlib.Tactic.SplitIfs

/-!
# Records found by any of several keys

A record may be looked up by each of its keys, for instance by an identifier and by a name. As long
as different records share no key, a lookup finds the record it is meant for and no other.
-/

namespace Cubicle.KeyedRecords
open List

variable {α β κ : Type} {keys : α → List κ} {rs : List α}

/-- No two records share a key. -/
def Separate (keys : α → List κ) (rs : List α) : Prop :=
  rs.Pairwise fun a b => (keys a).Disjoint (keys b)

theorem separate_nil : Separate keys ([] : List α) := List.Pairwise.nil

theorem Separate.disjoint (h : Separate keys rs) {a b : α} (ha : a ∈ rs) (hb : b ∈ rs)
    (hne : a ≠ b) : (keys a).Disjoint (keys b) :=
  have : Std.Symm fun a b => (keys a).Disjoint (keys b) := ⟨fun _ _ hab _ hka hkb => hab hkb hka⟩
  List.Pairwise.forall h ha hb hne

variable {r : α} {k : κ} {p : α → Bool}

/-- A lookup by a key of one record selects this record alone. -/
theorem Separate.filter_eq (h : Separate keys rs) (hr : r ∈ rs) (hk : k ∈ keys r)
    (hp : ∀ a, p a = true ↔ k ∈ keys a) : rs.filter p = [r] := by
  induction rs with
  | nil => simp at hr
  | cons a rs ih =>
    obtain ⟨hhead, htail⟩ := pairwise_cons.mp h
    rcases mem_cons.mp hr with rfl | hr
    · have hrest : rs.filter p = [] := by
        rw [filter_eq_nil_iff]
        exact fun b hb hpb => hhead b hb hk ((hp b).mp hpb)
      rw [filter_cons_of_pos ((hp r).mpr hk), hrest]
    · have hne : ¬ p a = true := fun hpa => hhead r hr ((hp a).mp hpa) hk
      rw [filter_cons_of_neg hne, ih htail hr]

theorem Separate.find?_eq (h : Separate keys rs) (hr : r ∈ rs) (hk : k ∈ keys r)
    (hp : ∀ a, p a = true ↔ k ∈ keys a) : rs.find? p = some r := by
  rw [← head?_filter, h.filter_eq hr hk hp]
  rfl

theorem Separate.sublist {rs' : List α} (h : Separate keys rs) (hsub : rs'.Sublist rs) :
    Separate keys rs' :=
  List.Pairwise.sublist hsub h

theorem Separate.append_singleton (h : Separate keys rs)
    (hnew : ∀ a ∈ rs, (keys a).Disjoint (keys r)) : Separate keys (rs ++ [r]) := by
  rw [Separate, pairwise_append]
  refine ⟨h, pairwise_singleton _ _, fun a ha b hb => ?_⟩
  obtain rfl := mem_singleton.mp hb
  exact hnew a ha

/-- Changes that leave the keys alone keep records apart. -/
theorem Separate.map {keys' : β → List κ} (h : Separate keys rs) {f : α → β}
    (hf : ∀ a ∈ rs, keys' (f a) = keys a) : Separate keys' (rs.map f) := by
  rw [Separate, pairwise_map]
  refine h.imp_of_mem fun ha hb hab => ?_
  rwa [hf _ ha, hf _ hb]

/-- One record may take new keys that no other record has. -/
theorem Separate.map_ite (h : Separate keys rs) {p : α → Prop} [DecidablePred p] {f : α → α}
    (hone : ∀ a ∈ rs, ∀ b ∈ rs, p a → p b → ¬ (keys a).Disjoint (keys b))
    (hnew : ∀ a ∈ rs, ∀ b ∈ rs, p a → ¬ p b → (keys (f a)).Disjoint (keys b)) :
    Separate keys (rs.map fun a => if p a then f a else a) := by
  rw [Separate, pairwise_map]
  refine h.imp_of_mem fun {a b} ha hb hab => ?_
  by_cases hpa : p a
  · have hpb : ¬ p b := fun hpb => hone a ha b hb hpa hpb hab
    rw [if_pos hpa, if_neg hpb]
    exact hnew a ha b hb hpa hpb
  · rw [if_neg hpa]
    split_ifs with hpb
    · exact fun k hka hkb => hnew b hb a ha hpb hpa hkb hka
    · exact hab

end Cubicle.KeyedRecords
