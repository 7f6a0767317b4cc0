import Mathlib

/-!
# Ring buffers

A queue of bounded length in an array that is used in a circle. `Shows` says which queue an array
with a head holds; appending to a full array drops the oldest element.
-/

namespace Cubicle.RingBuffers
open List

variable {α : Type*}

/-- The slot of the `i`-th element of a queue. -/
def slotOf (capacity head i : ℕ) : ℕ := (head + i) % capacity

variable {capacity n : ℕ} {slots : List (Option α)} {queue xs : List α}

theorem slotOf_lt (h : 0 < capacity) (head i : ℕ) : slotOf capacity head i < capacity :=
  Nat.mod_lt _ h

variable {head : ℕ}

theorem slotOf_inj {i j : ℕ} (hi : i < capacity) (hj : j < capacity)
    (h : slotOf capacity head i = slotOf capacity head j) : i = j :=
  Nat.ModEq.eq_of_lt_of_lt (Nat.ModEq.add_left_cancel' head h) hi hj

/-- The element after the head is the first one for the next head. -/
theorem slotOf_succ (capacity head i : ℕ) :
    slotOf capacity ((head + 1) % capacity) i = slotOf capacity head (i + 1) := by
  rw [slotOf, slotOf, Nat.mod_add_mod, Nat.add_assoc, Nat.add_comm 1 i]

theorem slotOf_zero (h : head < capacity) : slotOf capacity head 0 = head :=
  Nat.mod_eq_of_lt h

/-- Around the circle once, the head is met again. -/
theorem slotOf_capacity (capacity head : ℕ) :
    slotOf capacity head capacity = slotOf capacity head 0 := by
  rw [slotOf, slotOf, Nat.add_mod_right, Nat.add_zero]

/-- The array holds the queue, from the head on. -/
structure Shows (slots : List (Option α)) (head : ℕ) (queue : List α) : Prop where
  fits : queue.length ≤ slots.length
  holds : ∀ i < queue.length, slots[slotOf slots.length head i]? = some queue[i]?

theorem shows_nil (slots : List (Option α)) (head : ℕ) : Shows slots head [] :=
  ⟨by simp, by simp⟩

theorem Shows.append (h : Shows slots head queue) (hroom : queue.length < slots.length) (x : α) :
    Shows (slots.set (slotOf slots.length head queue.length) (some x)) head (queue ++ [x]) := by
  refine ⟨by simpa using hroom, fun i hi => ?_⟩
  rw [length_append, length_singleton] at hi
  rw [length_set]
  by_cases hlast : i = queue.length
  · subst hlast
    rw [getElem?_set_self (slotOf_lt (by omega) head _)]
    simp
  · have hne : slotOf slots.length head queue.length ≠ slotOf slots.length head i := fun heq =>
      hlast (slotOf_inj hroom (by omega) heq).symm
    rw [getElem?_set_ne hne, h.holds i (by omega), getElem?_append_left (by omega)]

theorem Shows.replace (h : Shows slots head queue) (hfull : queue.length = slots.length)
    (hhead : head < slots.length) (x : α) :
    Shows (slots.set head (some x)) ((head + 1) % slots.length) (queue.tail ++ [x]) := by
  have hlength : (queue.tail ++ [x]).length = slots.length := by simp; omega
  refine ⟨by rw [hlength, length_set], fun i hi => ?_⟩
  rw [hlength] at hi
  rw [length_set, slotOf_succ]
  by_cases hlast : i + 1 = slots.length
  · have hi' : i = queue.tail.length := by simp; omega
    rw [hlast, slotOf_capacity, slotOf_zero hhead, getElem?_set_self hhead, hi']
    simp
  · have hne : head ≠ slotOf slots.length head (i + 1) := fun heq => by
      have := slotOf_inj (i := 0) (by omega) (by omega) ((slotOf_zero hhead).trans heq)
      omega
    rw [getElem?_set_ne hne, h.holds (i + 1) (by omega),
      getElem?_append_left (by simp; omega), getElem?_tail]

/-- The slots of the queue, one after the other. -/
def contents (slots : List (Option α)) (head count : ℕ) : List (Option α) :=
  (List.range count).map fun i => (slots[slotOf slots.length head i]?).join

theorem Shows.contents_eq (h : Shows slots head queue) :
    contents slots head queue.length = queue.map some := by
  refine ext_getElem (by simp [contents]) fun i h₁ h₂ => ?_
  have hi : i < queue.length := by simpa using h₂
  simp only [contents, getElem_map, getElem_range, h.holds i hi]
  simp [hi]

theorem length_rtake (xs : List α) (n : ℕ) : (xs.rtake n).length = min xs.length n := by
  rw [List.rtake, length_drop]
  omega

theorem rtake_append_of_lt (h : xs.length < n) (x : α) :
    (xs ++ [x]).rtake n = xs.rtake n ++ [x] := by
  rw [List.rtake, List.rtake, length_append, length_singleton,
    Nat.sub_eq_zero_of_le (by omega), Nat.sub_eq_zero_of_le (by omega), drop_zero,
    drop_zero]

theorem rtake_append_of_le (hn : 0 < n) (h : n ≤ xs.length) (x : α) :
    (xs ++ [x]).rtake n = (xs.rtake n).tail ++ [x] := by
  obtain ⟨k, rfl⟩ : ∃ k, n = k + 1 := ⟨n - 1, by omega⟩
  rw [rtake_concat_succ, List.rtake, List.rtake, tail_drop]
  congr 2
  omega

end Cubicle.RingBuffers
