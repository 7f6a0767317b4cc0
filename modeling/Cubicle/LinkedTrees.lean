import Mathlib.Data.List.Perm.Basic
import Mathlib.Data.List.Nodup
import Mathlib.Data.List.Induction
import Mathlib.Data.Int.Order.Basic

/-!
# Binary trees in an array

Nodes refer to their children by index. A heap says what is at each index, and a tree with its
indices is in the heap when every node is where its parent says. A tree and one of its subtrees are
a list of frames, from the inside out, around the subtree, so a change at one place is a change of
what is in the frames.
-/

namespace Cubicle.LinkedTrees
open List

/-- What is at an index. -/
inductive Cell (α β : Type)
  | leaf (a : α)
  | split (b : β) (first second : ℤ)

abbrev Heap (α β : Type) := ℤ → Option (Cell α β)

/-- A tree that knows the index of every node. -/
inductive LinkedTree (α β : Type)
  | leaf (index : ℤ) (a : α)
  | split (index : ℤ) (b : β) (first second : LinkedTree α β)

variable {α β : Type}

namespace LinkedTree

def index : LinkedTree α β → ℤ
  | leaf i _ => i
  | split i _ _ _ => i

def indices : LinkedTree α β → List ℤ
  | leaf i _ => [i]
  | split i _ first second => i :: (first.indices ++ second.indices)

def leaves : LinkedTree α β → List α
  | leaf _ a => [a]
  | split _ _ first second => first.leaves ++ second.leaves

/-- The leaves with their indices. -/
def entries : LinkedTree α β → List (ℤ × α)
  | leaf i a => [(i, a)]
  | split _ _ first second => first.entries ++ second.entries

def depth : LinkedTree α β → ℕ
  | leaf _ _ => 1
  | split _ _ first second => max first.depth second.depth + 1

def innerIndices : LinkedTree α β → List ℤ
  | leaf _ _ => []
  | split _ _ first second => first.indices ++ second.indices

def Holds (heap : Heap α β) : LinkedTree α β → Prop
  | leaf i a => heap i = some (.leaf a)
  | split i b first second => heap i = some (.split b first.index second.index) ∧
      first.Holds heap ∧ second.Holds heap

@[simp] theorem index_leaf (i : ℤ) (a : α) : (leaf i a : LinkedTree α β).index = i := rfl

@[simp] theorem index_split (i : ℤ) (b : β) (first second : LinkedTree α β) :
    (split i b first second).index = i := rfl

theorem indices_eq (t : LinkedTree α β) : t.indices = t.index :: t.innerIndices := by
  cases t <;> rfl

theorem index_mem_indices (t : LinkedTree α β) : t.index ∈ t.indices := by
  rw [indices_eq]
  exact mem_cons_self

theorem exists_succ_of_depth_le {t : LinkedTree α β} {fuel : ℕ} (h : t.depth ≤ fuel) :
    ∃ n, fuel = n + 1 := by
  cases t <;> exact ⟨fuel - 1, by simp only [depth] at h; omega⟩

theorem depth_le_length_indices (t : LinkedTree α β) : t.depth ≤ t.indices.length := by
  induction t with
  | leaf => simp [depth, indices]
  | split i b first second ih₁ ih₂ =>
    simp only [depth, indices, length_cons, length_append]
    omega

variable {heap : Heap α β}

theorem Holds.isSome {t : LinkedTree α β} (h : t.Holds heap) {i : ℤ} (hi : i ∈ t.indices) :
    (heap i).isSome = true := by
  induction t with
  | leaf j a =>
    obtain rfl : i = j := by simpa [indices] using hi
    rw [Holds] at h
    rw [h]
    rfl
  | split j b first second ih₁ ih₂ =>
    obtain ⟨hroot, hfirst, hsecond⟩ := h
    simp only [indices, mem_cons, mem_append] at hi
    rcases hi with rfl | hi | hi
    · rw [hroot]
      rfl
    · exact ih₁ hfirst hi
    · exact ih₂ hsecond hi

theorem leaves_eq_map_entries (t : LinkedTree α β) : t.leaves = t.entries.map Prod.snd := by
  induction t with
  | leaf => rfl
  | split i b first second ih₁ ih₂ => rw [leaves, entries, ih₁, ih₂, map_append]

theorem mem_entries {t : LinkedTree α β} (h : t.Holds heap) {i : ℤ} {a : α} (hi : i ∈ t.indices)
    (ha : heap i = some (.leaf a)) : (i, a) ∈ t.entries := by
  induction t with
  | leaf j a' =>
    obtain rfl : i = j := by simpa [indices] using hi
    have hsame := Eq.trans (Eq.symm h) ha
    obtain rfl : a' = a := by simpa using hsame
    exact mem_singleton_self _
  | split j b first second ih₁ ih₂ =>
    obtain ⟨hroot, hfirst, hsecond⟩ := h
    simp only [indices, mem_cons, mem_append] at hi
    rw [entries, mem_append]
    rcases hi with rfl | hi | hi
    · simp [hroot] at ha
    · exact .inl (ih₁ hfirst hi)
    · exact .inr (ih₂ hsecond hi)

/-- A heap has one tree at most at an index. -/
theorem Holds.unique {t t' : LinkedTree α β} (h : t.Holds heap) (h' : t'.Holds heap)
    (hindex : t.index = t'.index) : t = t' := by
  induction t generalizing t' with
  | leaf i a =>
    cases t' with
    | leaf j a' =>
      obtain rfl : i = j := hindex
      rw [Holds] at h h'
      rw [h] at h'
      simpa using h'
    | split j b first second =>
      obtain rfl : i = j := hindex
      have hroot := Eq.trans (Eq.symm h) h'.1
      simp at hroot
  | split i b first second ih₁ ih₂ =>
    cases t' with
    | leaf j a' =>
      obtain rfl : i = j := hindex
      have hroot := Eq.trans h.1.symm h'
      simp at hroot
    | split j b' first' second' =>
      obtain rfl : i = j := hindex
      rw [Holds] at h h'
      have hroot := h.1.symm.trans h'.1
      simp only [Option.some.injEq, Cell.split.injEq] at hroot
      rw [hroot.1, ih₁ h.2.1 h'.2.1 hroot.2.1, ih₂ h.2.2 h'.2.2 hroot.2.2]

end LinkedTree

open LinkedTree

/-- A split without one of its children. -/
structure Frame (α β : Type) where
  index : ℤ
  info : β
  holeFirst : Bool
  other : LinkedTree α β

namespace Frame

def plug (f : Frame α β) (t : LinkedTree α β) : LinkedTree α β :=
  if f.holeFirst then .split f.index f.info t f.other else .split f.index f.info f.other t

def indices (f : Frame α β) : List ℤ := f.index :: f.other.indices

def cell (f : Frame α β) (hole : ℤ) : Cell α β :=
  if f.holeFirst then .split f.info hole f.other.index else .split f.info f.other.index hole

@[simp] theorem index_plug (f : Frame α β) (t : LinkedTree α β) : (f.plug t).index = f.index := by
  unfold plug
  split_ifs <;> rfl

theorem indices_plug (f : Frame α β) (t : LinkedTree α β) :
    (f.plug t).indices.Perm (t.indices ++ f.indices) := by
  unfold plug indices
  split_ifs
  · exact (perm_middle).symm
  · refine List.Perm.trans ?_ perm_middle.symm
    exact perm_append_comm.cons _

theorem leaves_plug (f : Frame α β) (t : LinkedTree α β) :
    (f.plug t).leaves.Perm (t.leaves ++ f.other.leaves) := by
  unfold plug
  split_ifs
  · exact List.Perm.refl _
  · exact perm_append_comm

theorem holds_plug {heap : Heap α β} (f : Frame α β) (t : LinkedTree α β) :
    (f.plug t).Holds heap ↔
      t.Holds heap ∧ heap f.index = some (f.cell t.index) ∧ f.other.Holds heap := by
  unfold plug cell
  split_ifs
  · simp only [Holds]
    tauto
  · simp only [Holds]
    tauto

end Frame

/-- A tree in frames, the innermost first. -/
def fill (frames : List (Frame α β)) (t : LinkedTree α β) : LinkedTree α β :=
  frames.foldl (fun t f => f.plug t) t

def frameIndices (frames : List (Frame α β)) : List ℤ := frames.flatMap Frame.indices

def frameLeaves (frames : List (Frame α β)) : List α := frames.flatMap fun f => f.other.leaves

@[simp] theorem fill_nil (t : LinkedTree α β) : fill [] t = t := rfl

@[simp] theorem fill_cons (f : Frame α β) (frames : List (Frame α β)) (t : LinkedTree α β) :
    fill (f :: frames) t = fill frames (f.plug t) := rfl

theorem fill_append (inside outside : List (Frame α β)) (t : LinkedTree α β) :
    fill (inside ++ outside) t = fill outside (fill inside t) :=
  foldl_append

theorem perm_fill {γ : Type*} {whole : LinkedTree α β → List γ} {part : Frame α β → List γ}
    (h : ∀ f t, (whole (f.plug t)).Perm (whole t ++ part f)) (frames : List (Frame α β))
    (t : LinkedTree α β) : (whole (fill frames t)).Perm (whole t ++ frames.flatMap part) := by
  induction frames generalizing t with
  | nil => simp
  | cons f frames ih =>
    refine (ih (f.plug t)).trans ?_
    rw [flatMap_cons, ← append_assoc]
    exact (h f t).append_right _

theorem indices_fill (frames : List (Frame α β)) (t : LinkedTree α β) :
    (fill frames t).indices.Perm (t.indices ++ frameIndices frames) :=
  perm_fill Frame.indices_plug frames t

theorem leaves_fill (frames : List (Frame α β)) (t : LinkedTree α β) :
    (fill frames t).leaves.Perm (t.leaves ++ frameLeaves frames) :=
  perm_fill Frame.leaves_plug frames t

variable {t : LinkedTree α β} {i : ℤ} {frames : List (Frame α β)} {p : α → Bool}

theorem holds_of_holds_fill {heap : Heap α β} (h : (fill frames t).Holds heap) : t.Holds heap := by
  induction frames generalizing t with
  | nil => exact h
  | cons f frames ih => exact ((f.holds_plug t).mp (ih h)).1

theorem depth_le_fill (frames : List (Frame α β)) (t : LinkedTree α β) :
    t.depth ≤ (fill frames t).depth := by
  induction frames generalizing t with
  | nil => exact Nat.le_refl _
  | cons f frames ih =>
    refine Nat.le_trans ?_ (ih (f.plug t))
    unfold Frame.plug
    split_ifs <;> simp only [depth] <;> omega

/-- Every node of a tree is the root of what is in some frames. -/
theorem exists_fill (h : i ∈ t.indices) : ∃ frames u, t = fill frames u ∧ u.index = i := by
  induction t with
  | leaf j a =>
    obtain rfl : i = j := by simpa [indices] using h
    exact ⟨[], _, rfl, rfl⟩
  | split j b first second ih₁ ih₂ =>
    simp only [indices, mem_cons, mem_append] at h
    rcases h with rfl | h | h
    · exact ⟨[], _, rfl, rfl⟩
    · obtain ⟨frames, u, rfl, hu⟩ := ih₁ h
      exact ⟨frames ++ [⟨j, b, true, second⟩], u, by rw [fill_append]; rfl, hu⟩
    · obtain ⟨frames, u, rfl, hu⟩ := ih₂ h
      exact ⟨frames ++ [⟨j, b, false, first⟩], u, by rw [fill_append]; rfl, hu⟩

/-- The index of the first leaf with a property. -/
def LinkedTree.findLeaf (p : α → Bool) : LinkedTree α β → Option ℤ
  | .leaf i a => if p a then some i else none
  | .split _ _ first second => (first.findLeaf p).or (second.findLeaf p)

theorem findLeaf_eq_none : t.findLeaf p = none ↔ ∀ a ∈ t.leaves, p a = false := by
  induction t with
  | leaf i a => simp [findLeaf, leaves]
  | split i b first second ih₁ ih₂ =>
    simp only [findLeaf, leaves, Option.or_eq_none_iff, ih₁, ih₂, mem_append]
    constructor
    · rintro ⟨h₁, h₂⟩ a (ha | ha)
      · exact h₁ a ha
      · exact h₂ a ha
    · exact fun h => ⟨fun a ha => h a (.inl ha), fun a ha => h a (.inr ha)⟩

theorem exists_fill_of_findLeaf (h : t.findLeaf p = some i) :
    ∃ frames a, t = fill frames (.leaf i a) ∧ p a = true := by
  induction t with
  | leaf j a =>
    simp only [findLeaf, Option.ite_none_right_eq_some, Option.some.injEq] at h
    obtain ⟨ha, rfl⟩ := h
    exact ⟨[], a, rfl, ha⟩
  | split j b first second ih₁ ih₂ =>
    rw [findLeaf, Option.or_eq_some_iff] at h
    rcases h with h | ⟨-, h⟩
    · obtain ⟨frames, a, rfl, ha⟩ := ih₁ h
      exact ⟨frames ++ [⟨j, b, true, second⟩], a, by rw [fill_append]; rfl, ha⟩
    · obtain ⟨frames, a, rfl, ha⟩ := ih₂ h
      exact ⟨frames ++ [⟨j, b, false, first⟩], a, by rw [fill_append]; rfl, ha⟩

/-- The index of the first split that has a child at an index. -/
def LinkedTree.findParent (child : ℤ) : LinkedTree α β → Option ℤ
  | .leaf _ _ => none
  | .split i _ first second =>
    if first.index = child ∨ second.index = child then some i
    else (first.findParent child).or (second.findParent child)

theorem findParent_eq_none {child : ℤ} (h : child ∉ t.innerIndices) :
    t.findParent child = none := by
  induction t with
  | leaf => rfl
  | split i b first second ih₁ ih₂ =>
    rw [innerIndices, mem_append, not_or, indices_eq first, indices_eq second, mem_cons,
      mem_cons, not_or, not_or] at h
    rw [findParent, if_neg (by tauto), ih₁ h.1.2, ih₂ h.2.2]
    rfl

theorem index_mem_inner_fill (f : Frame α β) (frames : List (Frame α β)) (t : LinkedTree α β) :
    t.index ∈ (fill (f :: frames) t).innerIndices := by
  have hplug : ∀ (g : Frame α β) (u : LinkedTree α β), t.index ∈ u.indices →
      t.index ∈ (g.plug u).innerIndices := by
    intro g u hu
    unfold Frame.plug
    split_ifs <;> simp [innerIndices, hu]
  rw [fill_cons]
  induction frames using List.reverseRecOn with
  | nil => exact hplug f t t.index_mem_indices
  | append_singleton frames g ih =>
    rw [fill_append]
    refine hplug g _ ?_
    rw [indices_eq]
    exact mem_cons_of_mem _ ih

/-- The parent of what is in frames is the innermost frame. -/
theorem findParent_fill {f : Frame α β} (h : (fill (f :: frames) t).indices.Nodup) :
    (fill (f :: frames) t).findParent t.index = some f.index := by
  induction frames using List.reverseRecOn with
  | nil =>
    rw [fill_cons, fill_nil, Frame.plug]
    split_ifs <;> simp [findParent]
  | append_singleton frames g ih =>
    rw [← cons_append, fill_append] at h ⊢
    have hinner := index_mem_inner_fill f frames t
    generalize fill (f :: frames) t = u at h ih hinner ⊢
    rw [fill_cons, fill_nil] at h ⊢
    have hparts := (g.indices_plug u).nodup_iff.mp h
    obtain ⟨hu, -, hdisjoint⟩ := nodup_append.mp hparts
    have hne : u.index ≠ t.index := by
      rw [indices_eq, nodup_cons] at hu
      exact fun heq => hu.1 (heq ▸ hinner)
    have hmem : t.index ∈ u.indices := by
      rw [indices_eq]
      exact mem_cons_of_mem _ hinner
    have hout : t.index ∉ g.other.indices := fun hin =>
      hdisjoint _ hmem _ (mem_cons_of_mem _ hin) rfl
    have hother : g.other.index ≠ t.index := fun heq => hout (heq ▸ g.other.index_mem_indices)
    have hnone : g.other.findParent t.index = none := by
      refine findParent_eq_none fun hin => hout ?_
      rw [indices_eq]
      exact mem_cons_of_mem _ hin
    unfold Frame.plug
    split_ifs
    · rw [findParent, if_neg (by tauto), ih hu]
      rfl
    · rw [findParent, if_neg (by tauto), hnone, ih hu]
      rfl

theorem findParent_root (h : t.indices.Nodup) : t.findParent t.index = none := by
  rw [indices_eq, nodup_cons] at h
  exact findParent_eq_none h.1

end Cubicle.LinkedTrees
