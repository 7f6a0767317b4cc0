import Cubicle.ByteText

/-!
# Writes to descriptors

What the operating system may answer to the `write` calls on one descriptor, and the loop that
writes a buffer out. The answers are a list that the calls consume from the front; when it is
used up, every further call takes all it is given.
-/

namespace Cubicle.PartialWrites
open ByteText

/-- One answer to `write`: some bytes were taken (`wrote n` takes `n + 1`, or all when there are
fewer), the call was interrupted, or it failed. -/
inductive Answer
  | wrote (n : ℕ)
  | interrupted
  | refused (errno : Int32)
deriving DecidableEq, Repr

structure Outcome where
  accepted : Bytes
  error : Option Int32
  answers : List Answer

/-- The loop that retries interrupted and partial writes and stops at the first failure. -/
def writeLoop : List Answer → Bytes → Outcome
  | answers, [] => ⟨[], none, answers⟩
  | [], data => ⟨data, none, []⟩
  | .wrote n :: answers, data =>
    let tail := writeLoop answers (data.drop (n + 1))
    ⟨data.take (n + 1) ++ tail.accepted, tail.error, tail.answers⟩
  | .interrupted :: answers, data => writeLoop answers data
  | .refused errno :: answers, _ => ⟨[], some errno, answers⟩

@[simp] theorem writeLoop_nil (answers : List Answer) :
    writeLoop answers [] = ⟨[], none, answers⟩ := by
  cases answers <;> rfl

@[simp] theorem writeLoop_willing (data : Bytes) : writeLoop [] data = ⟨data, none, []⟩ := by
  cases data <;> rfl

/-- What was accepted is the beginning of the data, and all of it when no call failed. -/
theorem writeLoop_accepted (answers : List Answer) (data : Bytes) :
    (writeLoop answers data).accepted <+: data ∧
      ((writeLoop answers data).error = none → (writeLoop answers data).accepted = data) := by
  induction answers generalizing data with
  | nil => simp
  | cons a answers ih =>
    cases data with
    | nil => simp
    | cons b t =>
      cases a with
      | wrote n =>
        obtain ⟨hpre, hall⟩ := ih ((b :: t).drop (n + 1))
        constructor
        · obtain ⟨u, hu⟩ := hpre
          refine ⟨u, ?_⟩
          simp only [writeLoop, List.append_assoc]
          rw [hu, List.take_append_drop]
        · intro he
          simp only [writeLoop] at he ⊢
          rw [hall he, List.take_append_drop]
      | interrupted => exact ih (b :: t)
      | refused errno => simp [writeLoop]

def Answer.isRefused : Answer → Bool
  | .refused _ => true
  | _ => false

/-- No write fails. -/
def Accepting (answers : List Answer) : Prop := ∀ a ∈ answers, a.isRefused = false

instance (answers : List Answer) : Decidable (Accepting answers) :=
  inferInstanceAs (Decidable (∀ a ∈ answers, _))

theorem writeLoop_accepting {answers : List Answer} (h : Accepting answers) (data : Bytes) :
    (writeLoop answers data).error = none ∧ (writeLoop answers data).accepted = data ∧
      Accepting (writeLoop answers data).answers := by
  suffices herror : (writeLoop answers data).error = none ∧
      Accepting (writeLoop answers data).answers from
    ⟨herror.1, (writeLoop_accepted answers data).2 herror.1, herror.2⟩
  induction answers generalizing data with
  | nil => simpa using h
  | cons a answers ih =>
    have htail : Accepting answers := fun a' hmem => h a' (List.mem_cons_of_mem a hmem)
    cases data with
    | nil => simpa using h
    | cons b t =>
      cases a with
      | wrote n => exact ih htail _
      | interrupted => exact ih htail _
      | refused errno => exact absurd (h _ (List.mem_cons_self ..)) (by simp [Answer.isRefused])

/-- The first call that is not interrupted fails. -/
def refusesFirst : List Answer → Bool
  | .refused _ :: _ => true
  | .interrupted :: answers => refusesFirst answers
  | _ => false

/-- Nothing is accepted only when there is nothing to write or the first write is refused. -/
theorem writeLoop_accepted_nil_iff (answers : List Answer) (data : Bytes) :
    (writeLoop answers data).accepted = [] ↔ data = [] ∨ refusesFirst answers = true := by
  cases data with
  | nil => simp
  | cons b t =>
    induction answers with
    | nil => simp [refusesFirst]
    | cons a answers ih =>
      cases a with
      | wrote n => simp [writeLoop, refusesFirst]
      | interrupted => simpa [writeLoop, refusesFirst] using ih
      | refused errno => simp [writeLoop, refusesFirst]

end Cubicle.PartialWrites
