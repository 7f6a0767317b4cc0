import Cubicle.RpcEnvelope

/-!
# The limits of a JSON document

The recursive check of a parsed document, with its early exits, against a statement about the nodes
of the tree: how deep each of them is and how large it may be.
-/

namespace Cubicle.JsonLimits
open ByteText JsonText JsonSpelling RpcEnvelope List

/-- The nodes of a tree whose root is at depth `d`, with their depths. -/
inductive NodeAt : ℕ → Json → ℕ → Json → Prop
  | root (d : ℕ) (v : Json) : NodeAt d v d v
  | item {d e : ℕ} {items : List Json} {v u : Json} (hv : v ∈ items) (h : NodeAt (d + 1) v e u) :
      NodeAt d (.arr items) e u
  | member {d e : ℕ} {members : Members} {key : Bytes} {v u : Json} (hv : (key, v) ∈ members)
      (h : NodeAt (d + 1) v e u) : NodeAt d (.obj members) e u

/-- The sizes a single node may have. -/
def Fits : Json → Prop
  | .str s => s.length ≤ maxStringBytes
  | .arr items => items.length ≤ maxArrayElements
  | .obj members =>
    members.length ≤ maxObjectMembers ∧ (members.map Prod.fst).Nodup ∧
      ∀ m ∈ members, m.1.length ≤ maxStringBytes
  | _ => True

/-- Every node is within the limits. -/
def Within (d : ℕ) (v : Json) : Prop := ∀ e u, NodeAt d v e u → e ≤ maxDepth ∧ Fits u

theorem validKeys_iff (keys : List Bytes) :
    validKeys keys = true ↔ keys.Nodup ∧ ∀ k ∈ keys, k.length ≤ maxStringBytes := by
  induction keys with
  | nil => simp [validKeys]
  | cons key keys ih =>
    simp only [validKeys, Bool.and_eq_true, decide_eq_true_eq, ih, Bool.not_eq_true',
      any_eq_false, nodup_cons, forall_mem_cons]
    constructor
    · rintro ⟨⟨hlen, hnot⟩, hnodup, hall⟩
      exact ⟨⟨fun hmem => hnot key hmem rfl, hnodup⟩, hlen, hall⟩
    · rintro ⟨⟨hnot, hnodup⟩, hlen, hall⟩
      exact ⟨⟨hlen, fun k hk heq => hnot (heq ▸ hk)⟩, hnodup, hall⟩

theorem validateItems_iff (d : ℕ) (items : List Json) :
    validateItems d items = true ↔ ∀ v ∈ items, validateValue d v = true := by
  induction items with
  | nil => simp [validateItems]
  | cons v vs ih => simp [validateItems, ih]

variable {v : Json}

theorem within_leaf {d : ℕ} (harr : ∀ items, v ≠ .arr items) (hobj : ∀ members, v ≠ .obj members) :
    Within d v ↔ d ≤ maxDepth ∧ Fits v := by
  constructor
  · exact fun h => h d v (.root d v)
  · intro h e u hnode
    cases hnode with
    | root => exact h
    | item => exact absurd rfl (harr _)
    | member => exact absurd rfl (hobj _)

theorem within_arr (d : ℕ) (items : List Json) :
    Within d (.arr items) ↔
      d ≤ maxDepth ∧ Fits (.arr items) ∧ ∀ v ∈ items, Within (d + 1) v := by
  constructor
  · intro h
    obtain ⟨hd, hfits⟩ := h d _ (.root d _)
    exact ⟨hd, hfits, fun v hv e u hnode => h e u (.item hv hnode)⟩
  · rintro ⟨hd, hfits, hitems⟩ e u hnode
    cases hnode with
    | root => exact ⟨hd, hfits⟩
    | item hv hnode => exact hitems _ hv e u hnode

theorem within_obj (d : ℕ) (members : Members) :
    Within d (.obj members) ↔
      d ≤ maxDepth ∧ Fits (.obj members) ∧ ∀ m ∈ members, Within (d + 1) m.2 := by
  constructor
  · intro h
    obtain ⟨hd, hfits⟩ := h d _ (.root d _)
    exact ⟨hd, hfits, fun m hm e u hnode => h e u (.member (show (m.1, m.2) ∈ members from hm) hnode)⟩
  · rintro ⟨hd, hfits, hmembers⟩ e u hnode
    cases hnode with
    | root => exact ⟨hd, hfits⟩
    | member hv hnode => exact hmembers _ hv e u hnode

theorem sizeOf_member_lt {members : Members} {m : Bytes × Json} (h : m ∈ members) :
    sizeOf m.2 < sizeOf (Json.obj members) := by
  have hmem := sizeOf_lt_of_mem h
  have hpair : sizeOf m.2 < sizeOf m := by
    obtain ⟨key, v⟩ := m
    simp only [Prod.mk.sizeOf_spec]
    omega
  simp only [Json.obj.sizeOf_spec]
  omega

theorem sizeOf_item_lt {items : List Json} (h : v ∈ items) :
    sizeOf v < sizeOf (Json.arr items) := by
  have hmem := sizeOf_lt_of_mem h
  simp only [Json.arr.sizeOf_spec]
  omega

/-- The recursive check says that every node is within the limits. -/
theorem validateValue_iff (v : Json) (d : ℕ) : validateValue d v = true ↔ Within d v := by
  cases v with
  | arr items =>
    have ih : ∀ v ∈ items, validateValue (d + 1) v = true ↔ Within (d + 1) v :=
      fun v hv => validateValue_iff v (d + 1)
    rw [within_arr, validateValue]
    simp only [Bool.and_eq_true, decide_eq_true_eq, and_assoc, Fits, validateItems_iff]
    exact and_congr_right fun _ => and_congr_right fun _ => forall₂_congr ih
  | obj members =>
    have ih : ∀ m ∈ members, validateValue (d + 1) m.2 = true ↔ Within (d + 1) m.2 :=
      fun m hm => validateValue_iff m.2 (d + 1)
    rw [within_obj, validateValue, validateMembers_eq]
    simp only [Bool.and_eq_true, decide_eq_true_eq, and_assoc, Fits, validKeys_iff,
      all_eq_true, forall_mem_map]
    exact and_congr_right fun _ => and_congr_right fun _ => and_congr_right fun _ =>
      and_congr_right fun _ => forall₂_congr ih
  | _ =>
    rw [within_leaf (by simp) (by simp)]
    simp [validateValue, Fits]
termination_by sizeOf v
decreasing_by
  · exact sizeOf_item_lt hv
  · exact sizeOf_member_lt hm

/-- A text is parsed exactly when it is at most 16 MiB long, the reader reads it and every node
of the tree is within the limits; the tree is then the one the reader gives. -/
theorem parse_eq_some_iff (json : Bytes) (v : Json) :
    parse json = some v ↔
      (cstr json).length ≤ maxDocumentBytes ∧ readDocument (cstr json) = some v ∧ Within 1 v := by
  rw [parse, ← validateValue_iff]
  by_cases hlen : maxDocumentBytes < (cstr json).length
  · rw [if_pos hlen]
    simp [Nat.not_le.mpr hlen]
  · rw [if_neg hlen]
    have hle := Nat.not_lt.mp hlen
    cases readDocument (cstr json) with
    | none => simp
    | some w =>
      dsimp only
      split_ifs with hw
      · constructor
        · intro h
          obtain rfl := Option.some.inj h
          exact ⟨hle, rfl, hw⟩
        · exact fun h => h.2.1
      · refine iff_of_false (by simp) (fun h => ?_)
        obtain rfl := Option.some.inj h.2.1
        exact hw h.2.2

/-- The digit zero followed by `n` blanks. -/
def paddedZero (n : ℕ) : Bytes := 0x30 :: List.replicate n 0x20

theorem cstr_paddedZero (n : ℕ) : cstr (paddedZero n) = paddedZero n := by
  refine cstr_eq_self fun h => ?_
  rcases mem_cons.mp h with h | h
  · cases h
  · cases eq_of_mem_replicate h

theorem readDocument_paddedZero (n : ℕ) : readDocument (paddedZero n) = some (.uint 0) := by
  have hblanks : skipSpace (List.replicate n 0x20) = [] := by
    rw [skipSpace, dropWhile_eq_nil_iff]
    exact fun b hb => eq_of_mem_replicate hb ▸ rfl
  have hdelimited : Delimited (List.replicate n 0x20) := fun b hb =>
    .inr (.inr (.inr (eq_of_mem_replicate (mem_of_head? hb) ▸ rfl)))
  have hdec : dec 0 = [0x30] := rfl
  have hread := (spells_uint (n := 0) (by decide)).reads (n + 1) (List.replicate n 0x20)
    (by rw [hdec]; simp) hdelimited
  have hskip : skipSpace (paddedZero n) = paddedZero n := skipSpace_cons rfl _
  rw [hdec, singleton_append] at hread
  rw [readDocument, hskip, paddedZero, length_cons, length_replicate, hread]
  simp [hblanks]

/-- Sixteen mebibytes of blanks after a zero are refused, for the length alone. -/
theorem long_padded_zero_refused :
    readDocument (cstr (paddedZero maxDocumentBytes)) = some (.uint 0) ∧ Within 1 (.uint 0) ∧
      parse (paddedZero maxDocumentBytes) = none := by
  refine ⟨by rw [cstr_paddedZero, readDocument_paddedZero],
    (validateValue_iff _ 1).mp (by simp [validateValue, maxDepth]), ?_⟩
  rw [parse, cstr_paddedZero, if_pos]
  rw [paddedZero, length_cons, length_replicate]
  exact Nat.lt_succ_self _

end Cubicle.JsonLimits
