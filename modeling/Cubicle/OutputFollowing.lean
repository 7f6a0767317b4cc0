import Cubicle.OutputPages

/-!
# Following the output of a process

`cube logs --follow` polls: it reads a page of each selected stream and then asks whether the
process has ended. When it has, and the pages reached the end of their logs, the command returns.
The three observations are made one after the other while the process writes and ends.
-/

namespace Cubicle.Following
open ByteText Utf8Sequences JsonEncoding OutputPages

inductive Mode
  | stream | tty | term
deriving DecidableEq

structure LogOptions where
  mode : Mode
  stdoutOnly : Bool
  stderrOnly : Bool

/-- The first stream is the terminal of a process that has one, or else its standard output. -/
def LogOptions.readsFirst (o : LogOptions) : Bool := !o.stderrOnly

/-- The second stream is the standard error. -/
def LogOptions.readsSecond (o : LogOptions) : Bool := o.mode ≠ .tty && !o.stdoutOnly

/-- How far a stream was read, what was printed of it and whether its last page was at its end. -/
structure Reading where
  offset : ℕ
  printed : Bytes
  atEnd : Bool

def Reading.start (offset : ℕ) : Reading := ⟨offset, [], false⟩

/-- `read_process_output_once` of a log as it is at the time; an offset past its end is an
error. -/
def Reading.read (r : Reading) (log : Bytes) : Option Reading :=
  if log.length < r.offset then none
  else
    let page := pageOf log r.offset 8192
    some ⟨r.offset + page.length, r.printed ++ cstr (transcode page),
      log.length ≤ r.offset + page.length⟩

/-- What one round sees: the log of each stream when it is read, and then whether the process has
ended. -/
structure Poll where
  firstLog : Bytes
  secondLog : Bytes
  ended : Bool

def Poll.reads (p : Poll) (o : LogOptions) (a b : Reading) : Option (Reading × Reading) := do
  let a ← if o.readsFirst then a.read p.firstLog else some a
  let b ← if o.readsSecond then b.read p.secondLog else some b
  return (a, b)

/-- The test after a round. -/
def LogOptions.finished (o : LogOptions) (p : Poll) (a b : Reading) : Bool :=
  p.ended && (!o.readsFirst || a.atEnd) && (!o.readsSecond || b.atEnd)

/-- `follow_process_output`: what was read when it returned with success, if it did. -/
def followProcessOutput (o : LogOptions) : List Poll → Reading → Reading →
    Option (Reading × Reading)
  | [], _, _ => none
  | p :: rest, a, b =>
    match p.reads o a b with
    | none => none
    | some (a, b) => if o.finished p a b then some (a, b) else followProcessOutput o rest a b

/-- The log from the start offset to the offset reached has been printed. -/
structure Reading.Exact (final : Bytes) (start : ℕ) (r : Reading) : Prop where
  printed : r.printed = (final.drop start).take (r.offset - start)
  start_le : start ≤ r.offset
  offset_le : r.offset ≤ final.length
  text : Text r.printed

variable {final : Bytes} {r a b : Reading} {o : LogOptions}

variable {start : ℕ}

theorem Reading.exact_start (h : start ≤ final.length) :
    (Reading.start start).Exact final start := by
  refine ⟨?_, le_rfl, h, .nil⟩
  simp [Reading.start]

/-- What has been printed and what has not make up the log. -/
theorem Reading.Exact.split (hr : r.Exact final start) :
    final.drop start = r.printed ++ final.drop r.offset := by
  have hdrop : (final.drop start).drop (r.offset - start) = final.drop r.offset := by
    rw [List.drop_drop, Nat.add_sub_cancel' hr.start_le]
  rw [hr.printed, ← hdrop, List.take_append_drop]

theorem Reading.Exact.whole (hr : r.Exact final start) (hend : final.length ≤ r.offset) :
    r.printed = final.drop start := by
  rw [hr.split, List.drop_eq_nil_of_le hend, List.append_nil]

/-- A read whose window ends cleanly prints what it moves over. -/
theorem Reading.Exact.read {final log : Bytes} {start : ℕ} {r r' : Reading}
    (hr : r.Exact final start) (htext : Text (final.drop start)) (hzero : 0 ∉ final)
    (hlog : log <+: final) (hclean : CleanCut (windowOf log r.offset 8192))
    (hread : r.read log = some r') :
    r'.Exact final start ∧ (r'.atEnd = true → log.length ≤ r'.offset) := by
  unfold Reading.read at hread
  split_ifs at hread with hpast
  cases hread
  have hsplit := hr.split
  have hrest : Text (final.drop r.offset) := text_of_append (hsplit ▸ htext) hr.text
  have hdrop : log.drop r.offset <+: final.drop r.offset := hlog.drop r.offset
  have hpage := (pageOf_prefix_drop log r.offset 8192).trans hdrop
  have hpageText := (text_pageOf_iff log r.offset 8192 hrest
    ((List.take_prefix _ _).trans hdrop)).mpr hclean
  generalize pageOf log r.offset 8192 = page at hpage hpageText ⊢
  have hnul : 0 ∉ page := fun h => hzero (List.mem_of_mem_drop (hpage.subset h))
  have hprinted : cstr (transcode page) = page := by
    rw [(transcode_eq_self_iff page).mpr hpageText, cstr_eq_self hnul]
  refine ⟨⟨?_, ?_, ?_, ?_⟩, fun hend => by simpa using hend⟩
  · rw [hprinted, hr.printed]
    exact stretch_append hr.start_le hpage
  · exact hr.start_le.trans (Nat.le_add_right _ _)
  · exact stretch_length_le hr.offset_le hpage
  · rw [hprinted]
    exact text_append hr.text hpageText

/-- The command returns after this round. -/
def Poll.Returns (p : Poll) (o : LogOptions) (a b : Reading) : Prop :=
  ∃ pair, p.reads o a b = some pair ∧ o.finished p pair.1 pair.2 = true

/-- What a round may see of a stream that is read: part of its final log, with a window that ends
between characters, and all of the log in the round that returns. -/
structure Poll.StreamMeets (final log : Bytes) (returns : Prop) (r : Reading) : Prop where
  part : log <+: final
  clean : CleanCut (windowOf log r.offset 8192)
  whole : returns → log = final

/-- Every round up to the end of the command meets the condition. -/
def Meets (o : LogOptions) (first second : Bytes) : List Poll → Reading → Reading → Prop
  | [], _, _ => True
  | p :: rest, a, b =>
    (o.readsFirst = true → Poll.StreamMeets first p.firstLog (p.Returns o a b) a) ∧
      (o.readsSecond = true → Poll.StreamMeets second p.secondLog (p.Returns o a b) b) ∧
      ∀ a' b', p.reads o a b = some (a', b') → Meets o first second rest a' b'

theorem Poll.reads_eq_some {p : Poll} {a' b' : Reading} (h : p.reads o a b = some (a', b')) :
    (o.readsFirst = true → a.read p.firstLog = some a') ∧
      (o.readsSecond = true → b.read p.secondLog = some b') := by
  unfold Poll.reads at h
  cases hfirst : o.readsFirst <;> cases hsecond : o.readsSecond <;>
    simp only [hfirst, hsecond, Bool.false_eq_true, if_true, if_false, Option.bind_eq_bind,
      Option.bind_some, Option.pure_def, Option.bind_eq_some_iff, Option.some.injEq,
      Prod.mk.injEq] at h ⊢ <;>
    grind

/-- From readings that are exact, a run that returns ends with all of each selected stream. -/
theorem printed_of_followed {first second : Bytes}
    (hfirst : o.readsFirst = true → Text (first.drop start) ∧ 0 ∉ first)
    (hsecond : o.readsSecond = true → Text (second.drop start) ∧ 0 ∉ second) {polls : List Poll}
    {a₀ b₀ : Reading} (ha₀ : o.readsFirst = true → a₀.Exact first start)
    (hb₀ : o.readsSecond = true → b₀.Exact second start) (hmeets : Meets o first second polls a₀ b₀)
    (hreturned : followProcessOutput o polls a₀ b₀ = some (a, b)) :
    (o.readsFirst = true → a.printed = first.drop start) ∧
      (o.readsSecond = true → b.printed = second.drop start) := by
  induction polls generalizing a₀ b₀ with
  | nil => simp [followProcessOutput] at hreturned
  | cons p rest ih =>
    obtain ⟨hp₁, hp₂, hrest⟩ := hmeets
    rw [followProcessOutput] at hreturned
    cases hreads : p.reads o a₀ b₀ with
    | none => simp [hreads] at hreturned
    | some pair =>
      obtain ⟨a₁, b₁⟩ := pair
      obtain ⟨hread₁, hread₂⟩ := Poll.reads_eq_some hreads
      have ha₁ := fun hsel => (ha₀ hsel).read (hfirst hsel).1 (hfirst hsel).2
        (hp₁ hsel).part (hp₁ hsel).clean (hread₁ hsel)
      have hb₁ := fun hsel => (hb₀ hsel).read (hsecond hsel).1 (hsecond hsel).2
        (hp₂ hsel).part (hp₂ hsel).clean (hread₂ hsel)
      simp only [hreads] at hreturned
      split_ifs at hreturned with hfinished
      · obtain ⟨rfl, rfl⟩ : a₁ = a ∧ b₁ = b := by simpa using hreturned
        have hreturns : p.Returns o a₀ b₀ := ⟨_, hreads, hfinished⟩
        simp only [LogOptions.finished, Bool.and_eq_true, Bool.or_eq_true,
          Bool.not_eq_true'] at hfinished
        obtain ⟨⟨-, hend₁⟩, hend₂⟩ := hfinished
        -- The logs read in the round that returns are the final ones.
        refine ⟨fun hsel => (ha₁ hsel).1.whole ?_, fun hsel => (hb₁ hsel).1.whole ?_⟩
        · rw [← (hp₁ hsel).whole hreturns]
          exact (ha₁ hsel).2 (hend₁.resolve_left (by simp [hsel]))
        · rw [← (hp₂ hsel).whole hreturns]
          exact (hb₁ hsel).2 (hend₂.resolve_left (by simp [hsel]))
      · exact ih (fun hsel => (ha₁ hsel).1) (fun hsel => (hb₁ hsel).1) (hrest _ _ hreads) hreturned

/-- When the command returns with success, it has printed each selected stream from the start
offset to the end of its final log. -/
theorem followed_to_the_end {o : LogOptions} {first second : Bytes} {start : ℕ}
    (hfirst : o.readsFirst = true → Text (first.drop start) ∧ 0 ∉ first ∧ start ≤ first.length)
    (hsecond : o.readsSecond = true →
      Text (second.drop start) ∧ 0 ∉ second ∧ start ≤ second.length)
    {polls : List Poll} (hmeets : Meets o first second polls (.start start) (.start start))
    {a b : Reading}
    (hreturned : followProcessOutput o polls (.start start) (.start start) = some (a, b)) :
    (o.readsFirst = true → a.printed = first.drop start) ∧
      (o.readsSecond = true → b.printed = second.drop start) :=
  printed_of_followed (fun hsel => ⟨(hfirst hsel).1, (hfirst hsel).2.1⟩)
    (fun hsel => ⟨(hsecond hsel).1, (hsecond hsel).2.1⟩)
    (fun hsel => Reading.exact_start (hfirst hsel).2.2)
    (fun hsel => Reading.exact_start (hsecond hsel).2.2) hmeets hreturned

/-- A process that ends before the last round. -/
theorem followed_hi :
    followProcessOutput ⟨.tty, false, false⟩ [⟨ascii "h", [], false⟩, ⟨ascii "hi", [], true⟩]
        (.start 0) (.start 0) = some (⟨2, ascii "hi", true⟩, ⟨0, [], false⟩) ∧
      ascii "hi" = (ascii "hi").drop 0 := by
  have hreturned : followProcessOutput ⟨.tty, false, false⟩
      [⟨ascii "h", [], false⟩, ⟨ascii "hi", [], true⟩] (.start 0) (.start 0) =
        some (⟨2, ascii "hi", true⟩, ⟨0, [], false⟩) := by
    rfl
  have hmeets : Meets ⟨.tty, false, false⟩ (ascii "hi") []
      [⟨ascii "h", [], false⟩, ⟨ascii "hi", [], true⟩] (.start 0) (.start 0) := by
    refine ⟨fun _ => ⟨by decide, by decide, fun ⟨_, _, hlast⟩ => by cases hlast⟩,
      fun h => absurd h (by decide), ?_⟩
    intro a b h
    have hreads : (⟨ascii "h", [], false⟩ : Poll).reads ⟨.tty, false, false⟩ (.start 0) (.start 0) =
        some (⟨1, ascii "h", true⟩, ⟨0, [], false⟩) := rfl
    obtain ⟨rfl, rfl⟩ := Prod.mk.inj (Option.some.inj (hreads.symm.trans h))
    exact ⟨fun _ => ⟨by decide, by decide, fun _ => rfl⟩, fun h => absurd h (by decide),
      fun _ _ _ => trivial⟩
  refine ⟨hreturned, ?_⟩
  exact (followed_to_the_end (fun _ => ⟨by decide, by decide, by decide⟩)
    (fun h => absurd h (by decide)) hmeets hreturned).1 rfl

/-- The second byte is written after the page was read and before the process is seen to have
ended: the command returns without it. -/
theorem followed_too_short :
    ascii "h" <+: ascii "hi" ∧
      followProcessOutput ⟨.tty, false, false⟩ [⟨ascii "h", [], true⟩] (.start 0) (.start 0) =
        some (⟨1, ascii "h", true⟩, ⟨0, [], false⟩) := by
  exact ⟨by decide, rfl⟩

end Cubicle.Following
