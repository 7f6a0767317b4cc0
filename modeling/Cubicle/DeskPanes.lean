import Cubicle.ControllerFeeds
import Cubicle.OutputPages

/-!
# The terminal model of a desk pane

A pane follows the output of its process over two connections. One carries requests: a snapshot of
the terminal, which sets the attachment's read offset, and pages of output where there is no stream.
The other is the stream, which carries the log from the offset at which it was started, in order and
at its own pace. The terminal model is loaded with snapshots and fed with what is read.
-/

namespace Cubicle.Desk
open ByteText Utf8Sequences JsonEncoding OutputPages

/-- The log of the controller, the place in it up to which the stream has been read (if there is a
stream), the read offset of the attachment, the offset of the last snapshot and what the terminal
model was fed after it. -/
structure PaneFeed where
  log : Bytes
  streamed : Option ℕ
  readOffset : ℕ
  snapshotAt : ℕ
  applied : Bytes

inductive PaneEvent
  | output (data : Bytes)
  | startStream
  | recv (count : ℕ) (parts : List ℕ)
  | poll (parts : List ℕ)
  | reload

namespace PaneFeed

def attach (log : Bytes) : PaneFeed := ⟨log, none, log.length, log.length, []⟩

/-- `cubicle_attachment_read_stream` from the stream: at most `count` of the bytes that are there,
which are fed to the model. -/
def recv (p : PaneFeed) (place count : ℕ) (parts : List ℕ) : PaneFeed :=
  let data := (p.log.drop place).take (min count 4096)
  { p with
    streamed := some (place + data.length)
    readOffset := p.readOffset + data.length
    applied := p.applied ++ Controller.modelFeed parts data }

/-- `cubicle_attachment_read_stream` without a stream: the controller answers with a page. An
offset past the end of the log is an error. -/
def poll (p : PaneFeed) (parts : List ℕ) : PaneFeed :=
  if p.log.length < p.readOffset then p
  else
    let page := pageOf p.log p.readOffset 2048
    { p with
      readOffset := p.readOffset + page.length
      applied := p.applied ++ Controller.modelFeed parts (transcode page) }

/-- `reload_pane_snapshot`, also after every resize: the snapshot is of all the log so far, and the
stream goes on where it is. -/
def reload (p : PaneFeed) : PaneFeed :=
  { p with readOffset := p.log.length, snapshotAt := p.log.length, applied := [] }

def step (p : PaneFeed) : PaneEvent → PaneFeed
  | .output data => { p with log := p.log ++ data }
  | .startStream => { p with streamed := some (p.streamed.getD p.readOffset) }
  | .recv count parts =>
    match p.streamed with
    | none => p
    | some place => p.recv place count parts
  | .poll parts => if p.streamed.isSome then p else p.poll parts
  | .reload => p.reload

/-- The model has a snapshot and each byte of the log from there to the read offset. -/
structure Exact (p : PaneFeed) : Prop where
  applied : p.applied = (p.log.drop p.snapshotAt).take (p.readOffset - p.snapshotAt)
  snapshot_le : p.snapshotAt ≤ p.readOffset
  offset_le : p.readOffset ≤ p.log.length

/-- The snapshot is taken when the stream has nothing left, pages are text, and the terminal
library takes something of what it is given. -/
def Meets (p : PaneFeed) : PaneEvent → Prop
  | .output _ => True
  | .startStream => True
  | .recv _ parts => ∀ n ∈ parts, 0 < n
  | .poll parts => (∀ n ∈ parts, 0 < n) ∧ Text (pageOf p.log p.readOffset 2048)
  | .reload => ∀ place, p.streamed = some place → place = p.log.length

/-- The states of a pane in runs that meet the condition. -/
inductive Run (log : Bytes) : PaneFeed → Prop
  | attach : Run log (attach log)
  | step {p : PaneFeed} (h : Run log p) (e : PaneEvent) (hmeets : p.Meets e) : Run log (p.step e)

/-- The stream is where the read offset is. -/
structure Follows (p : PaneFeed) : Prop extends p.Exact where
  streamed : ∀ place, p.streamed = some place → place = p.readOffset

/-- Reading the next bytes of the log and feeding them. -/
theorem Exact.advance {p : PaneFeed} (h : p.Exact) {data : Bytes}
    (hdata : data <+: p.log.drop p.readOffset) :
    p.applied ++ data =
        (p.log.drop p.snapshotAt).take (p.readOffset + data.length - p.snapshotAt) ∧
      p.readOffset + data.length ≤ p.log.length := by
  rw [h.applied]
  exact ⟨stretch_append h.snapshot_le hdata, stretch_length_le h.offset_le hdata⟩

theorem Follows.step {p : PaneFeed} (h : p.Follows) {e : PaneEvent} (hmeets : p.Meets e) :
    (p.step e).Follows := by
  have hoffset := h.offset_le
  have hsnapshot := h.snapshot_le
  cases e with
  | output data =>
    refine ⟨⟨?_, hsnapshot, ?_⟩, h.streamed⟩
    · simp only [PaneFeed.step]
      rw [List.drop_append_of_le_length (hsnapshot.trans hoffset), List.take_append_of_le_length,
        h.applied]
      rw [List.length_drop]
      omega
    · simp only [PaneFeed.step, List.length_append]
      omega
  | startStream =>
    refine ⟨⟨h.applied, hsnapshot, hoffset⟩, fun place hplace => ?_⟩
    change place = p.readOffset
    simp only [PaneFeed.step, Option.some.injEq] at hplace
    cases hstreamed : p.streamed with
    | none => simpa [hstreamed, eq_comm] using hplace
    | some place' =>
      rw [hstreamed, Option.getD_some] at hplace
      exact hplace ▸ h.streamed place' hstreamed
  | recv count parts =>
    simp only [PaneFeed.step]
    cases hstreamed : p.streamed with
    | none => exact h
    | some place =>
      obtain rfl := h.streamed place hstreamed
      obtain ⟨happlied, hle⟩ := h.toExact.advance
        (List.take_prefix (min count 4096) (p.log.drop p.readOffset))
      refine ⟨⟨?_, ?_, hle⟩, ?_⟩
      · simp only [PaneFeed.recv, Controller.modelFeed_eq hmeets]
        exact happlied
      · exact hsnapshot.trans (Nat.le_add_right _ _)
      · intro place hplace
        simpa [PaneFeed.recv, eq_comm] using hplace
  | poll parts =>
    simp only [PaneFeed.step]
    cases hstreamed : p.streamed with
    | some place => simpa using h
    | none =>
      simp only [Option.isSome_none, Bool.false_eq_true, if_false, PaneFeed.poll]
      rw [if_neg (by omega)]
      obtain ⟨happlied, hle⟩ := h.toExact.advance (pageOf_prefix_drop p.log p.readOffset 2048)
      refine ⟨⟨?_, ?_, hle⟩, ?_⟩
      · simp only [Controller.modelFeed_eq hmeets.1, (transcode_eq_self_iff _).mpr hmeets.2]
        exact happlied
      · exact hsnapshot.trans (Nat.le_add_right _ _)
      · intro place hplace
        simp [hstreamed] at hplace
  | reload =>
    refine ⟨⟨?_, le_rfl, le_rfl⟩, hmeets⟩
    simp [PaneFeed.step, reload]

/-- In every run that meets the condition, the model of the pane has at every moment a snapshot of
the log up to some offset and after it the log from there to the read offset. -/
theorem pane_follows_log {log : Bytes} {p : PaneFeed} (h : Run log p) :
    p.applied = (p.log.drop p.snapshotAt).take (p.readOffset - p.snapshotAt) ∧
      p.snapshotAt ≤ p.readOffset ∧ p.readOffset ≤ p.log.length := by
  have hfollows : p.Follows := by
    induction h with
    | attach => exact ⟨⟨by simp [attach], le_rfl, le_rfl⟩, fun place hplace => by
        simp [attach] at hplace⟩
    | step _ e hmeets ih => exact ih.step hmeets
  exact ⟨hfollows.applied, hfollows.snapshot_le, hfollows.offset_le⟩

/-- Output is read to its end before the snapshot is taken again, and goes on after it. -/
theorem pane_reloaded_in_time :
    let p := [.startStream, .output (ascii "ab"), .recv 4096 [], .reload, .output (ascii "cd"),
      .recv 4096 []].foldl step (attach [])
    p.snapshotAt = 2 ∧ p.readOffset = 4 ∧
      p.applied = (p.log.drop p.snapshotAt).take (p.readOffset - p.snapshotAt) := by
  have hread : Run [] _ := ((Run.attach.step .startStream trivial).step (.output (ascii "ab")) trivial).step
    (.recv 4096 []) (fun n hn => absurd hn List.not_mem_nil)
  have hreloaded := hread.step .reload fun place hplace => (Option.some.inj hplace).symm
  have hrun := (hreloaded.step (.output (ascii "cd")) trivial).step (.recv 4096 [])
    (fun n hn => absurd hn List.not_mem_nil)
  exact ⟨rfl, rfl, (pane_follows_log hrun).1⟩

/-- The snapshot contains two bytes that are still on the stream: they are applied again, and the
read offset is past the end of the log. -/
theorem pane_applies_twice :
    let p := ((((attach []).step .startStream).step (.output (ascii "ab"))).step .reload).step
      (.recv 4096 [])
    p.log = ascii "ab" ∧ p.snapshotAt = 2 ∧ p.applied = ascii "ab" ∧ p.readOffset = 4 := by
  decide

end PaneFeed
end Cubicle.Desk
