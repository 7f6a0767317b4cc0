import Mathlib.Logic.Function.Basic
import Mathlib.Data.List.Basic

/-!
# Tables of grants

Which rights a key has in a scope, when keys are added, changed and revoked. A key may be added
many times; the oldest addition that is not revoked is the one in force.
-/

namespace Cubicle.GrantTables

variable {σ κ γ : Type}

/-- One addition of a key. -/
structure Entry (γ : Type) where
  rights : γ
  revoked : Bool
deriving DecidableEq

/-- The additions of every key in every scope, oldest first. -/
abbrev Table (σ κ γ : Type) := σ → κ → List (Entry γ)

inductive Operation (γ : Type)
  | add (rights : γ)
  | update (rights : γ)
  | revoke
deriving DecidableEq

def Operation.isAdd : Operation γ → Bool
  | .add _ => true
  | _ => false

/-- What an operation does to the additions of the key it is for. -/
def Operation.apply : Operation γ → List (Entry γ) → List (Entry γ)
  | .add rights, es => es ++ [⟨rights, false⟩]
  | .update rights, es => es.map fun e => { e with rights := rights }
  | .revoke, es => es.map fun e => { e with revoked := true }

/-- The rights in force. -/
def granted (es : List (Entry γ)) : Option γ :=
  (es.find? fun e => !e.revoked).map Entry.rights

def AllRevoked (es : List (Entry γ)) : Prop := ∀ e ∈ es, e.revoked = true

theorem granted_eq_none_iff (es : List (Entry γ)) : granted es = none ↔ AllRevoked es := by
  simp [granted, AllRevoked]

theorem allRevoked_revoke (es : List (Entry γ)) : AllRevoked (Operation.revoke.apply es) := by
  intro e he
  obtain ⟨d, -, rfl⟩ := List.mem_map.mp he
  rfl

variable {op : Operation γ}

theorem AllRevoked.apply {es : List (Entry γ)} (h : AllRevoked es) (hop : op.isAdd = false) :
    AllRevoked (op.apply es) := by
  cases op with
  | add rights => simp [Operation.isAdd] at hop
  | update rights =>
    intro e he
    obtain ⟨d, hd, rfl⟩ := List.mem_map.mp he
    exact h d hd
  | revoke => exact allRevoked_revoke es

/-- What is asked for last: the rights of the most recent addition or change, and none after a
revocation. -/
def Operation.asked (before : Option γ) : Operation γ → Option γ
  | .add rights => some rights
  | .update rights => before.map fun _ => rights
  | .revoke => none

/-- An addition asks for nothing but the rights that are in force already. -/
def Operation.Agrees (inForce : Option γ) : Operation γ → Prop
  | .add rights => ∀ r ∈ inForce, r = rights
  | _ => True

@[simp] theorem granted_add (es : List (Entry γ)) (rights : γ) :
    granted ((Operation.add rights).apply es) = (granted es).or (some rights) := by
  rw [Operation.apply, granted, granted, List.find?_append, Option.map_or]
  rfl

@[simp] theorem granted_update (es : List (Entry γ)) (rights : γ) :
    granted ((Operation.update rights).apply es) = (granted es).map fun _ => rights := by
  simp only [Operation.apply, granted, List.find?_map, Option.map_map]
  rfl

@[simp] theorem granted_revoke (es : List (Entry γ)) :
    granted (Operation.revoke.apply es) = none :=
  (granted_eq_none_iff _).mpr (allRevoked_revoke es)

/-- What was asked for is in force exactly when no other rights were in force before. -/
theorem granted_apply_eq_asked_iff (es : List (Entry γ)) (op : Operation γ) :
    granted (op.apply es) = op.asked (granted es) ↔ op.Agrees (granted es) := by
  cases op with
  | add rights => cases hgranted : granted es <;> simp [Operation.asked, Operation.Agrees, hgranted]
  | update rights => simp [Operation.asked, Operation.Agrees]
  | revoke => simp [Operation.asked, Operation.Agrees]

section
variable [DecidableEq σ] [DecidableEq κ]

/-- An operation for one key in one scope. -/
def Table.perform (t : Table σ κ γ) (s : σ) (k : κ) (op : Operation γ) : Table σ κ γ :=
  fun s' k' => if s' = s ∧ k' = k then op.apply (t s' k') else t s' k'

@[simp] theorem Table.perform_self (t : Table σ κ γ) (s : σ) (k : κ) (op : Operation γ) :
    t.perform s k op s k = op.apply (t s k) := by
  simp [perform]

variable {s s' : σ} {k k' : κ}

theorem Table.perform_other (t : Table σ κ γ) (op : Operation γ) (h : ¬ (s' = s ∧ k' = k)) :
    t.perform s k op s' k' = t s' k' := if_neg h

theorem Table.allRevoked_perform {t : Table σ κ γ} (h : AllRevoked (t s k))
    (hop : s' = s ∧ k' = k → op.isAdd = false) : AllRevoked (t.perform s' k' op s k) := by
  by_cases heq : s' = s ∧ k' = k
  · obtain ⟨rfl, rfl⟩ := heq
    rw [perform_self]
    exact h.apply (hop ⟨rfl, rfl⟩)
  · rwa [perform_other t op fun hc => heq ⟨hc.1.symm, hc.2.symm⟩]

end

end Cubicle.GrantTables
