import Cubicle.ControllerDelivery
import Cubicle.ControllerReporting

/-!
# The terminal model and the log

What the terminal model was given, next to the output log and its offset. The three are updated
one after the other, and every failure on the way ends the loop.
-/

namespace Cubicle.Controller
open ByteText CStrings PartialWrites JsonText JsonEncoding RpcEnvelope List

/-- There is a terminal model after a step exactly when there was one before it. -/
def Keeps (s s' : Shared) : Prop := s'.terminal.isSome = s.terminal.isSome

theorem reporting_keeps : Reporting False Keeps where
  trans := fun h h' => Eq.trans h' h
  quiet := fun _ hterminal => hterminal
  event := fun _ _ _ => rfl

namespace World

theorem keeps_step {w : World} {a : Action}
    (ha : ∀ shared, a = .surroundings shared → Keeps w.shared shared) :
    Keeps w.shared (w.step a).shared :=
  related_step reporting_keeps False.elim ha fun _ _ _ _ _ _ _ => rfl

/-- What a step adds to the log of the standard output. -/
def logged (w : World) : Action → Bytes
  | .output .stdout data _ =>
    if w.running = true ∧ (w.process.stdout.bytes ++ data).length < 2 ^ 63 then data else []
  | _ => []

theorem stdout_step (w : World) (a : Action) :
    (w.step a).process.stdout.bytes = w.process.stdout.bytes ++ w.logged a := by
  unfold step
  split
  · rename_i hrunning
    cases a with
    | accept =>
      simp only [accept, logged, append_nil]
      split
      · rfl
      · rfl
    | reapIdle => simp [reapIdle, mapClients, logged]
    | read i incoming =>
      simp only [read, logged, append_nil]
      repeat' split
      all_goals rfl
    | flush i answers =>
      simp only [flush, logged, append_nil]
      split
      · rfl
      · rfl
    | forward i incoming =>
      simp only [forward, logged, append_nil]
      split
      · rfl
      · rfl
    | hangup i =>
      simp only [hangup, logged, append_nil]
      split
      · rfl
      · rfl
    | output stream data reaction =>
      cases stream with
      | stdout =>
        simp only [output, logged, Process.log, hrunning, true_and]
        split
        · split
          · rfl
          · rfl
        · simp [stop]
      | stderr =>
        simp only [output, logged, append_nil]
        repeat' split
        all_goals rfl
    | complete result => simp [complete, mapClients, logged]
    | surroundings shared => simp [logged]
    | abort => simp [stop, logged]
  · rename_i hstopped
    cases a with
    | output stream data reaction =>
      cases stream with
      | stdout => simp [logged, hstopped]
      | stderr => simp [logged]
    | _ => simp [logged]

end World

/-- `cubicle_terminal_model_feed`: the terminal library takes the data in parts. When it takes
nothing, the rest is given up, and that is no failure. -/
def modelFeed : List ℕ → Bytes → Bytes
  | _, [] => []
  | [], data => data
  | 0 :: _, _ => []
  | (n + 1) :: parts, data => data.take (n + 1) ++ modelFeed parts (data.drop (n + 1))

theorem modelFeed_eq {parts : List ℕ} (h : ∀ n ∈ parts, 0 < n) (data : Bytes) :
    modelFeed parts data = data := by
  induction parts generalizing data with
  | nil => cases data <;> simp only [modelFeed]
  | cons n parts ih =>
    cases data with
    | nil => simp only [modelFeed]
    | cons b rest =>
      cases n with
      | zero => simp at h
      | succ n =>
        rw [modelFeed, ih (fun m hm => h m (by simp [hm])), take_append_drop]
        simp

/-- The controller, the offset it has counted and what its terminal model was given. -/
structure Fed where
  world : World
  offset : ℕ
  fed : Bytes

def Fed.start (process : Process) (shared : Shared) : Fed where
  world := .start process shared
  offset := 0
  fed := []

/-- The offset and the terminal model come after the log. -/
def Fed.step (f : Fed) (a : Action) (parts : List ℕ) : Fed where
  world := f.world.step a
  offset := f.offset + (f.world.logged a).length
  fed := f.fed ++
    if f.world.shared.terminal.isSome then modelFeed parts (f.world.logged a) else []

/-- Output that cannot be shown or logged ends the loop, with part of it in the log. -/
def Fed.failOutput (f : Fed) (data : Bytes) (written : ℕ) : Fed :=
  let log := f.world.process.stdout.bytes ++ data.take written
  if h : log.length < 2 ^ 63 then
    { f with world := { f.world with
        process := f.world.process.setLog .stdout ⟨log, h⟩ }.stop f.world.shared }
  else { f with world := f.world.stop f.world.shared }

/-- Runs in which the terminal model stays and its library takes something of what it is given. -/
inductive Fed.Run (start : Fed) : Fed → Prop
  | start : Fed.Run start start
  | step {f : Fed} (h : Fed.Run start f) (a : Action) (parts : List ℕ)
      (hstays : ∀ shared, a = .surroundings shared → Keeps f.world.shared shared)
      (htakes : ∀ n ∈ parts, 0 < n) : Fed.Run start (f.step a parts)
  | failOutput {f : Fed} (h : Fed.Run start f) (data : Bytes) (written : ℕ) :
      Fed.Run start (f.failOutput data written)

/-- While the loop runs, the offset is the length of the log and the terminal model has it all. -/
structure Fed.Follows (f : Fed) : Prop where
  offset : f.world.running = true → f.offset = f.world.process.stdout.bytes.length
  fed : f.world.running = true → f.world.shared.terminal.isSome = true →
    f.fed = f.world.process.stdout.bytes

theorem World.running_of_step {w : World} {a : Action} (h : (w.step a).running = true) :
    w.running = true := by
  by_contra hstopped
  simp only [World.step, hstopped, if_false] at h

theorem Fed.failOutput_running (f : Fed) (data : Bytes) (written : ℕ) :
    (f.failOutput data written).world.running = false := by
  unfold Fed.failOutput
  dsimp only
  split
  · rfl
  · rfl

theorem Fed.Run.trans {start f g : Fed} (hf : Fed.Run start f) (hg : Fed.Run f g) :
    Fed.Run start g := by
  induction hg with
  | start => exact hf
  | step _ a parts hstays htakes ih => exact .step ih a parts hstays htakes
  | failOutput _ data written ih => exact .failOutput ih data written

theorem Fed.Run.follows {start f : Fed} (hstart : start.Follows) (h : Fed.Run start f) :
    f.Follows := by
  induction h with
  | start => exact hstart
  | @step f _ a parts hstays htakes ih =>
    constructor
    · intro hrunning
      have hbefore := World.running_of_step hrunning
      simp only [Fed.step, World.stdout_step, length_append, ih.offset hbefore]
    · intro hrunning hterminal
      have hbefore := World.running_of_step hrunning
      have hkept : f.world.shared.terminal.isSome = true := by
        rw [← World.keeps_step hstays]
        exact hterminal
      simp only [Fed.step, World.stdout_step, ih.fed hbefore hkept, hkept, if_true,
        modelFeed_eq htakes]
  | @failOutput f _ data written =>
    have hstopped := f.failOutput_running data written
    exact ⟨fun h => by simp [hstopped] at h, fun h => by simp [hstopped] at h⟩

theorem Fed.Run.log_isPrefix {start f : Fed} (h : Fed.Run start f)  :
    start.world.process.stdout.bytes <+: f.world.process.stdout.bytes := by
  induction h with
  | start => exact prefix_rfl
  | step _ a parts _ _ ih =>
    simp only [Fed.step, World.stdout_step]
    exact ih.trans (prefix_append _ _)
  | @failOutput f _ data written ih =>
    refine ih.trans ?_
    unfold Fed.failOutput
    dsimp only
    split
    · exact prefix_append _ _
    · exact prefix_rfl

theorem Fed.Run.world_eq {process : Process} {shared : Shared} {f : Fed}
    (h : Fed.Run (.start process shared) f) :
    (∃ actions, f.world = (World.start process shared).run actions) ∨
      f.world.running = false ∧ ∀ i, f.world.clients i = .init := by
  induction h with
  | start => exact .inl ⟨[], rfl⟩
  | step _ a parts _ _ ih =>
    rcases ih with ⟨actions, hworld⟩ | ⟨hstopped, hclients⟩
    · refine .inl ⟨actions ++ [a], ?_⟩
      rw [World.run, foldl_append]
      simp only [Fed.step, hworld]
      rfl
    · right
      simp only [Fed.step, World.step, hstopped, Bool.false_eq_true, if_false, true_and]
      exact hclients
  | failOutput _ data written ih =>
    right
    unfold Fed.failOutput
    dsimp only
    split
    · exact ⟨rfl, fun _ => rfl⟩
    · exact ⟨rfl, fun _ => rfl⟩

/-- While the loop runs, the terminal model has what the log of the standard output has, the
offset of a snapshot is its length, and a client that attaches at that offset, at any time later,
gets after its header the rest of the log. -/
theorem snapshot_and_stream_cover_log {process : Process} (hlog : process.stdout.bytes = [])
    {shared : Shared} {f : Fed} (hrun : Fed.Run (.start process shared) f)
    (hrunning : f.world.running = true) (hterminal : f.world.shared.terminal.isSome = true) :
    f.fed = f.world.process.stdout.bytes ∧
      f.offset = f.fed.length ∧
      (∀ terminal, f.world.shared.terminal = some terminal → ∀ snapshot,
        snapshotJson terminal f.offset responseMax = some snapshot →
          (controllerSnapshot f.world.process f.world.shared).2 = .success snapshot) ∧
      ∀ g, Fed.Run f g → ∀ i, (g.world.clients i).kind = .attachedStdout → ∀ word first,
        LineCommand.ofLine (cstr (g.world.clients i).request) = .attach (some (word, first)) →
          first.toNat = f.offset → ∃ length rest,
            g.world.sent i ++ (g.world.clients i).pending =
              attachHeader word first length ++ rest ∧
            f.fed ++ rest = g.world.process.stdout.bytes := by
  have hfollows : f.Follows := by
    refine hrun.follows ⟨fun _ => ?_, fun _ _ => ?_⟩
    · simp [Fed.start, World.start, hlog]
    · simp [Fed.start, World.start, hlog]
  have hfed := hfollows.fed hrunning hterminal
  have hoffset : f.offset = f.fed.length := by rw [hfed, hfollows.offset hrunning]
  refine ⟨hfed, hoffset, ?_, ?_⟩
  · intro terminal hsome snapshot hjson
    rw [hoffset, hfed] at hjson
    simp only [controllerSnapshot, hsome, hjson]
  · intro g hlater i hkind word first hline hfirst
    rcases (hrun.trans hlater).world_eq with ⟨actions, hworld⟩ | ⟨-, hclients⟩
    · rw [hworld] at hkind hline
      obtain ⟨word', first', length, hline', -, -, -, -, -, hsent⟩ :=
        World.run_attached_follows_log process shared actions i .stdout hkind
      obtain ⟨rfl, rfl⟩ : word = word' ∧ first = first' := by
        rw [hline] at hline'
        simpa using hline'
      refine ⟨length, g.world.process.stdout.bytes.drop f.offset, ?_, ?_⟩
      · rw [hworld, hsent, hfirst]
        rfl
      · obtain ⟨rest, hrest⟩ := hlater.log_isPrefix
        rw [← hrest, ← hfed, hoffset, drop_left]
    · simp [hclients i, ControlClient.init] at hkind

/-- A terminal model that takes its input one byte at a time. -/
def fedRun : Fed :=
  (Fed.start (.started 1) .sized).step (.output .stdout (ascii "hi") ⟨[], []⟩) [1]

theorem fedRun_covers_log :
    fedRun.world.running = true ∧ fedRun.fed = fedRun.world.process.stdout.bytes ∧
      fedRun.fed = ascii "hi" := by
  have hrun : Fed.Run (.start (.started 1) .sized) fedRun :=
    .step .start _ _ (fun _ h => by simp at h) (fun n hn => by simp at hn; omega)
  have hrunning : fedRun.world.running = true := by decide
  refine ⟨hrunning, ?_, by decide⟩
  exact (snapshot_and_stream_cover_log rfl hrun hrunning (by decide)).1

/-- The library takes one byte and then nothing: the log has two bytes and the offset counts them,
the terminal model has one, and the loop goes on. -/
theorem output_not_fed :
    let f := (Fed.start (.started 1) .sized).step (.output .stdout (ascii "hi") ⟨[], []⟩) [1, 0]
    f.world.running = true ∧ f.world.shared.terminal.isSome = true ∧ f.offset = 2 ∧
      f.world.process.stdout.bytes = ascii "hi" ∧ f.fed = ascii "h" := by
  decide

end Cubicle.Controller
