import Mathlib.Data.List.Sort
import Mathlib.Tactic

/-!
# Exchange sort

The sort in which every place is compared with all places behind it, and exchanged with each one
that holds something smaller. What is compared is a key of the entries.
-/

namespace Cubicle.ExchangeSorts
open List

variable {α κ : Type*} [LinearOrder κ] (key : α → κ)

/-- One place against all places behind it: what it holds in the end, and what they hold. -/
def exchange (x : α) : List α → α × List α
  | [] => (x, [])
  | y :: rest =>
    if key y < key x then ((exchange y rest).1, x :: (exchange y rest).2)
    else ((exchange x rest).1, y :: (exchange x rest).2)

theorem exchange_perm (x : α) (rest : List α) :
    ((exchange key x rest).1 :: (exchange key x rest).2).Perm (x :: rest) := by
  induction rest generalizing x with
  | nil => exact List.Perm.refl _
  | cons y rest ih =>
    rw [exchange]
    split_ifs
    · exact (List.Perm.swap x _ _).trans ((ih y).cons x)
    · exact ((List.Perm.swap y _ _).trans ((ih x).cons y)).trans (List.Perm.swap x y rest)

theorem exchange_length (x : α) (rest : List α) : (exchange key x rest).2.length = rest.length := by
  have h := (exchange_perm key x rest).length_eq
  simpa using h

theorem exchange_le_start (x : α) (rest : List α) : key (exchange key x rest).1 ≤ key x := by
  induction rest generalizing x with
  | nil => exact le_rfl
  | cons y rest ih =>
    rw [exchange]
    split_ifs with h
    · exact (ih y).trans h.le
    · exact ih x

/-- The place holds a smallest entry in the end. -/
theorem exchange_le (x : α) (rest : List α) :
    ∀ z ∈ (exchange key x rest).2, key (exchange key x rest).1 ≤ key z := by
  induction rest generalizing x with
  | nil => simp [exchange]
  | cons y rest ih =>
    rw [exchange]
    split_ifs with h
    · rintro z hz
      rcases mem_cons.mp hz with rfl | hz
      · exact (exchange_le_start key y rest).trans h.le
      · exact ih y z hz
    · rintro z hz
      rcases mem_cons.mp hz with rfl | hz
      · exact (exchange_le_start key x rest).trans (not_lt.mp h)
      · exact ih x z hz

/-- All places in turn. -/
def exchangeSort : List α → List α
  | [] => []
  | x :: rest => (exchange key x rest).1 :: exchangeSort (exchange key x rest).2
termination_by l => l.length
decreasing_by simp [exchange_length]

theorem exchangeSort_perm (l : List α) : (exchangeSort key l).Perm l := by
  induction l using exchangeSort.induct key with
  | case1 => simp [exchangeSort]
  | case2 x rest ih =>
    rw [exchangeSort]
    exact (ih.cons _).trans (exchange_perm key x rest)

theorem exchangeSort_pairwise (l : List α) :
    (exchangeSort key l).Pairwise fun a b => key a ≤ key b := by
  induction l using exchangeSort.induct key with
  | case1 => simp [exchangeSort]
  | case2 x rest ih =>
    rw [exchangeSort]
    refine pairwise_cons.mpr ⟨fun z hz => ?_, ih⟩
    exact exchange_le key x rest z ((exchangeSort_perm key _).subset hz)

/-- Entries with different keys have one order only. -/
theorem exchangeSort_eq {l sorted : List α} (hperm : l.Perm sorted)
    (hsorted : sorted.Pairwise fun a b => key a < key b) : exchangeSort key l = sorted := by
  have hle : ∀ {l : List α}, (l.Pairwise fun a b => key a ≤ key b) → (l.map key).SortedLE :=
    fun h => (pairwise_map.mpr h).sortedLE
  have hmap : (exchangeSort key l).map key = sorted.map key :=
    (((exchangeSort_perm key l).trans hperm).map key).eq_of_sortedLE
      (hle (exchangeSort_pairwise key l)) (hle (hsorted.imp le_of_lt))
  have hinj : ∀ a ∈ sorted, ∀ b ∈ sorted, key a = key b → a = b := by
    have hnodup : (sorted.map key).Nodup :=
      (pairwise_map.mpr hsorted).imp fun hlt => ne_of_lt hlt
    exact fun a ha b hb => inj_on_of_nodup_map hnodup ha hb
  have hsub : ∀ a ∈ exchangeSort key l, a ∈ sorted := fun a ha =>
    ((exchangeSort_perm key l).trans hperm).subset ha
  refine ext_getElem (by simpa using congrArg List.length hmap) fun n h1 h2 => ?_
  refine hinj _ (hsub _ (getElem_mem h1)) _ (getElem_mem h2) ?_
  have hn : n < ((exchangeSort key l).map key).length := by simpa using h1
  have hget : ((exchangeSort key l).map key)[n] = key (exchangeSort key l)[n] := by simp
  rw [← hget]
  simp [hmap]

end Cubicle.ExchangeSorts
