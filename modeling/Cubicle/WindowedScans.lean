import Mathlib.Data.List.DropRight
import Cubicle.RingBuffers

/-!
# Scanning a stream through a window

A scanner looks at every position of a stream for something that starts there, and remembers the
last thing it found. It is given the stream in chunks and keeps only the last `w` elements of what
came before. It finds what a scan of the whole stream finds, if nothing that is longer than the
window when a chunk begins is completed by that chunk.
-/

namespace Cubicle.WindowedScans
open RingBuffers List

variable {α β : Type*}

/-- What is found at the last position at which something is found. -/
def lastOf (f : List α → Option β) : List α → Option β
  | [] => none
  | x :: s => (lastOf f s).or (f (x :: s))

theorem lastOf_append (f : List α → Option β) (s t : List α) :
    lastOf f (s ++ t) = (lastOf f t).or (lastOf (fun u => f (u ++ t)) s) := by
  induction s with
  | nil => simp [lastOf]
  | cons x s ih => rw [cons_append, lastOf, ih, lastOf, Option.or_assoc, cons_append]

variable {f : List α → Option β} {s t : List α}

theorem lastOf_congr {g : List α → Option β} (h : ∀ u, u ≠ [] → u <:+ s → f u = g u) :
    lastOf f s = lastOf g s := by
  induction s with
  | nil => rfl
  | cons x s ih =>
    rw [lastOf, lastOf, h (x :: s) (by simp) (suffix_refl _),
      ih fun u hu hs => h u hu (hs.trans (suffix_cons x s))]

theorem lastOf_eq_none_iff : lastOf f s = none ↔ ∀ u, u ≠ [] → u <:+ s → f u = none := by
  induction s with
  | nil =>
    simp only [lastOf, true_iff]
    exact fun u hu hs => absurd (suffix_nil.mp hs) hu
  | cons x s ih =>
    rw [lastOf, Option.or_eq_none_iff, ih]
    constructor
    · rintro ⟨hrest, hhead⟩ u hu hs
      rcases suffix_cons_iff.mp hs with rfl | hs
      · exact hhead
      · exact hrest u hu hs
    · intro h
      exact ⟨fun u hu hs => h u hu (hs.trans (suffix_cons x s)),
        h _ (by simp) (suffix_refl _)⟩

/-- The end of a stream decides, if anything is found there. -/
theorem lastOf_of_suffix {b : β} (h : t <:+ s) (ht : lastOf f t = some b) :
    lastOf f s = some b := by
  obtain ⟨u, rfl⟩ := h
  rw [lastOf_append, ht]
  rfl

/-- What is found stays when more of the stream is known. -/
def Stable (f : List α → Option β) : Prop := ∀ s b, f s = some b → ∀ t, f (s ++ t) = some b

theorem Stable.lastOf_eq_none (hf : Stable f) (h : lastOf f (s ++ t) = none) :
    lastOf f s = none := by
  rw [lastOf_append, Option.or_eq_none_iff, lastOf_eq_none_iff (s := s)] at h
  rw [lastOf_eq_none_iff]
  intro u hu hs
  by_contra hne
  obtain ⟨b, hb⟩ := Option.ne_none_iff_exists'.mp hne
  have hmore := h.2 u hu hs
  rw [hf u b hb t] at hmore
  cases hmore

theorem rtake_append_drop (s : List α) (w : ℕ) : s.take (s.length - w) ++ s.rtake w = s :=
  take_append_drop _ s

theorem rtake_suffix (s : List α) (w : ℕ) : s.rtake w <:+ s := List.drop_suffix _ s

/-- The window is found again at the end of the longer stream. -/
theorem rtake_rtake_append (s t : List α) (w : ℕ) :
    (s.rtake w ++ t).rtake w = (s ++ t).rtake w := by
  have hlength := length_rtake s w
  nth_rewrite 2 [← rtake_append_drop s w]
  generalize s.rtake w = window at hlength ⊢
  generalize hfront : s.take (s.length - w) = front
  have hfrontLength := congrArg List.length hfront
  rw [length_take] at hfrontLength
  have hdrop : ∀ k, front.length ≤ k →
      (front ++ (window ++ t)).drop k = (window ++ t).drop (k - front.length) := fun k hk => by
    rw [drop_append, drop_eq_nil_of_le hk, nil_append]
  rw [append_assoc, List.rtake, List.rtake,
    hdrop _ (by simp only [length_append]; omega)]
  congr 1
  simp only [length_append]
  omega

/-- A scan of the window and the next chunk, on top of what was found before, finds what a scan of
the whole stream finds. -/
theorem lastOf_window (hf : Stable f) {w : ℕ}
    (hcut : ∀ u, u <:+ s → w < u.length → f (u ++ t) = f u) :
    lastOf f (s ++ t) = (lastOf f (s.rtake w ++ t)).or (lastOf f s) := by
  have hsplit := rtake_append_drop s w
  generalize hfront : s.take (s.length - w) = front at hsplit
  generalize hwindow : s.rtake w = window at hsplit
  have hlong : ∀ u, u ≠ [] → u <:+ front → w < (u ++ window).length := by
    intro u hu hs
    have hlength := length_rtake s w
    have hfrontLength := congrArg List.length hfront
    have huLength := hs.length_le
    have hpos := length_pos_iff.mpr hu
    rw [hwindow] at hlength
    rw [length_take] at hfrontLength
    rw [length_append]
    omega
  have hcongr : lastOf (fun u => f (u ++ (window ++ t))) front =
      lastOf (fun u => f (u ++ window)) front := by
    refine lastOf_congr fun u hu hs => ?_
    have hsuffix : u ++ window <:+ s := by
      obtain ⟨v, rfl⟩ := hs
      exact ⟨v, by rw [← append_assoc, hsplit]⟩
    have := hcut (u ++ window) hsuffix (hlong u hu hs)
    rwa [append_assoc] at this
  rw [← hsplit, append_assoc, lastOf_append f front, lastOf_append f front, hcongr]
  cases hfound : lastOf f (window ++ t) with
  | none => rw [hf.lastOf_eq_none hfound, Option.none_or, Option.none_or]
  | some b => rw [Option.some_or, Option.some_or]

end Cubicle.WindowedScans
