import Cubicle.ControllerLoop

/-!
# Clients attached to an output stream

What was sent to an attached client and what it still has to be sent are, together, the header of
its attach answer and the log of the stream from its start offset on, in every state the event
loop reaches.
-/

namespace Cubicle.Controller
open ByteText PartialWrites CStrings List

/-- The lengths that the logs have had. -/
abbrev Past := Stream → ℕ → Prop

/-- The client asked for `which` from some offset on, when the log ended `length` bytes later, and
is given exactly that. -/
def Follows (p : Process) (past : Past) (c : ControlClient) (sent : Bytes) (which : Stream) :
    Prop :=
  ∃ word start length,
    LineCommand.ofLine (cstr c.request) = .attach (some (word, start)) ∧
    streamOf word = some which ∧ 0 ≤ start ∧
    (past which (start.toNat + length) ∧
      start.toNat + length ≤ (p.log which).bytes.length) ∧
    c.responseOffset ≤ c.response.length ∧
    sent ++ c.pending = attachHeader word start length ++ (p.log which).bytes.drop start.toNat

/-- A line client is sent nothing before its request; an attached one follows its stream. -/
structure Served (p : Process) (past : Past) (c : ControlClient) (sent : Bytes) : Prop where
  fresh : c.kind = .reading → c.framedRequest = false → sent = []
  attached : ∀ which, c.kind = attachedKind which → Follows p past c sent which

variable {past : Past}

theorem served_init (p : Process) (sent : Bytes) : Served p past .init sent :=
  ⟨by simp [ControlClient.init], fun which hk => by
    cases which <;> simp [ControlClient.init, attachedKind] at hk⟩

theorem attachedKind_ne (which : Stream) :
    attachedKind which ≠ .reading ∧ attachedKind which ≠ .responding ∧
      attachedKind which ≠ .attachingStdin ∧ attachedKind which ≠ .attachedStdin := by
  cases which <;> simp [attachedKind]

theorem attachedKind_injective {a b : Stream} (h : attachedKind a = attachedKind b) : a = b := by
  cases a <;> cases b <;> simp [attachedKind] at h ⊢

variable {p : Process} {c c' : ControlClient} {s : Shared}

variable {sent : Bytes} {which : Stream}

theorem served_of_kind
    (h : c.kind = .responding ∨ c.kind = .attachingStdin ∨ c.kind = .attachedStdin) :
    Served p past c sent := by
  constructor
  · intro hk
    rcases h with h | h | h <;> simp [h] at hk
  · intro which hk
    obtain ⟨-, h1, h2, h3⟩ := attachedKind_ne which
    rw [hk] at h
    rcases h with h | h | h
    · exact absurd h h1
    · exact absurd h h2
    · exact absurd h h3

/-- An attach request starts the client with the header and the log so far. -/
theorem served_attached {word : Bytes} {start : ℤ} (hc : Reading c)
    (hpast : past which (p.log which).bytes.length) (request : Bytes)
    (hcmd : LineCommand.ofLine (cstr request) = .attach (some (word, start)))
    (h : AttachedBy p { c with request := request } word start which c') :
    Served p past c' [] := by
  obtain ⟨h1, -⟩ := attachedKind_ne which
  rw [h.client]
  refine ⟨fun hk => absurd hk h1, fun which' hk => ?_⟩
  obtain rfl := attachedKind_injective hk
  refine ⟨word, start, (p.log which).bytes.length - start.toNat, hcmd, h.stream, h.start_nonneg,
    ?_, by simp [hc.offset], ?_⟩
  · rw [Nat.add_sub_cancel' h.start_le]
    exact ⟨hpast, le_rfl⟩
  · simp [ControlClient.pending, hc.offset, hc.response]

theorem served_finishControlRequest (hc : Reading c)
    (hpast : ∀ which, past which (p.log which).bytes.length) (s : Shared) :
    Served p past (finishControlRequest p c s).1 [] := by
  rcases dispatchControlRequest_outcome (p := p) { c with request := lineRequest c } s with
    hinit | hout
  · rw [finishControlRequest, hinit]
    exact served_init p []
  · rw [finishControlRequest]
    generalize (dispatchControlRequest p { c with request := lineRequest c } s).1 = c' at hout ⊢
    cases hout with
    | responding kind => exact served_of_kind (.inl kind)
    | attaching kind => exact served_of_kind (.inr (.inl kind))
    | attached command hattached => 
      exact served_attached hc (hpast _) (lineRequest c) command hattached

theorem served_read {s' : Shared} {bytes : Bytes} (h : ReadCase p s c bytes c' s' true)
    (hk : c.kind = .reading) (hpast : ∀ which, past which (p.log which).bytes.length)
    (hserved : Served p past c sent) : Served p past c' sent := by
  generalize htrue : true = ok at h
  cases h with
  | waiting reading unframed noFrame =>
    refine ⟨fun _ hf => hserved.fresh hk (unframed hf), fun which hw => ?_⟩
    exact absurd (hw.symm.trans reading.kind) (attachedKind_ne which).1
  | frame complete request response dispatched =>
    rcases dispatchApiRequest_kind dispatched with hr | hno
    · exact served_of_kind (.inl hr)
    · simp [hno] at htrue
  | line reading request unframed dispatched noFrame =>
    rw [dispatched, hserved.fresh hk unframed]
    exact served_finishControlRequest reading hpast s
  | gone gone noFrame =>
    rcases gone with hr | rfl
    · exact served_of_kind (.inl hr)
    · exact served_init p sent

theorem pending_advance (c : ControlClient) (n : ℕ) :
    ({ c with responseOffset := c.responseOffset + n } : ControlClient).pending =
      c.pending.drop n := by
  simp [ControlClient.pending, drop_drop]

theorem served_flushed (s : Shared) (hne : c.kind ≠ .reading) (hserved : Served p past c sent)
    (hall : c.pending = []) : Served p past (flushed c s).1 sent := by
  unfold flushed
  dsimp only
  split
  · split_ifs with hf
    · refine ⟨fun _ hf' => by simp [hf.1] at hf', fun which hw => ?_⟩
      exact absurd hw.symm (attachedKind_ne which).1
    · exact served_init p sent
  · exact served_of_kind (.inr (.inr rfl))
  · refine ⟨fun hk => absurd hk hne, fun which hw => ?_⟩
    obtain ⟨word, start, length, hcmd, hstream, h0, hle, -, hsent⟩ := hserved.attached which hw
    rw [hall] at hsent
    exact ⟨word, start, length, hcmd, hstream, h0, hle, by simp, by
      simpa [ControlClient.pending] using hsent⟩

/-- Whatever part of the response is sent, nothing is lost or sent twice. -/
theorem served_flush (hne : c.kind ≠ .reading) (hserved : Served p past c sent) (s : Shared)
    (answers : List Answer) :
    Served p past (flushControlClientResponse c s answers).client
      (sent ++ (flushControlClientResponse c s answers).sent) := by
  obtain ⟨hpre, hall⟩ := writeLoop_accepted answers c.pending
  unfold flushControlClientResponse
  dsimp only
  generalize writeLoop answers c.pending = outcome at hpre hall ⊢
  -- the client after the accepted bytes, whatever comes of it
  have hadvance : Served p past { c with responseOffset := c.responseOffset + outcome.accepted.length }
      (sent ++ outcome.accepted) := by
    refine ⟨fun hk => absurd hk hne, fun which hw => ?_⟩
    obtain ⟨word, start, length, hcmd, hstream, h0, hle, hoff, hsent⟩ := hserved.attached which hw
    have hlen : outcome.accepted.length ≤ c.pending.length := hpre.length_le
    refine ⟨word, start, length, hcmd, hstream, h0, hle, ?_, ?_⟩
    · simp only [ControlClient.pending, length_drop] at hlen
      dsimp only
      omega
    · obtain ⟨rest, hrest⟩ := hpre
      rw [pending_advance, ← hrest, drop_left, append_assoc, hrest]
      exact hsent
  cases herr : outcome.error with
  | some errno =>
    dsimp only
    split_ifs
    · exact hadvance
    · exact served_init p _
  | none =>
    refine served_flushed s hne hadvance ?_
    rw [pending_advance, hall herr, drop_length]

theorem setLog_same (p : Process) (stream : Stream) (log : Log) :
    (p.setLog stream log).log stream = log := by
  cases stream <;> rfl

theorem setLog_other (p : Process) {stream : Stream} (h : which ≠ stream) (log : Log) :
    (p.setLog stream log).log which = p.log which := by
  cases stream <;> cases which <;> first | rfl | exact absurd rfl h

/-- New output reaches every client attached to its stream, or the client is closed. -/
theorem served_broadcastTo (hserved : Served p past c sent) (s : Shared) (stream : Stream)
    (data : Bytes) (log : Log) (hlog : log.bytes = (p.log stream).bytes ++ data) :
    Served (p.setLog stream log) past (broadcastTo c s stream data).1 sent := by
  unfold broadcastTo
  split_ifs with hk
  · split
    · rename_i c' heq
      obtain rfl := enqueueResponse_true heq
      refine ⟨fun hr => absurd (hk.symm.trans hr) (attachedKind_ne stream).1, fun which hw => ?_⟩
      obtain rfl := attachedKind_injective (hk.symm.trans hw)
      obtain ⟨word, start, length, hcmd, hstream, h0, hle, hoff, hsent⟩ := hserved.attached _ hk
      refine ⟨word, start, length, hcmd, hstream, h0, ?_, ?_, ?_⟩
      · rw [setLog_same, hlog, length_append]
        exact ⟨hle.1, by omega⟩
      · dsimp only
        rw [length_append]
        omega
      · rw [setLog_same, hlog, drop_append_of_le_length (by omega), ← append_assoc,
          ← hsent, append_assoc]
        simp only [ControlClient.pending]
        rw [drop_append_of_le_length hoff]
    · exact served_init _ sent
  · refine ⟨hserved.fresh, fun which hw => ?_⟩
    have hother : which ≠ stream := fun h => hk (h ▸ hw)
    obtain ⟨word, start, length, hcmd, hstream, h0, hle, hoff, hsent⟩ := hserved.attached which hw
    exact ⟨word, start, length, hcmd, hstream, h0, by rwa [setLog_other p hother], hoff,
      by rwa [setLog_other p hother]⟩

namespace World

def AllServed (w : World) (past : Past) : Prop :=
  ∀ i, Served w.process past (w.clients i) (w.sent i)

theorem allServed_start (process : Process) (shared : Shared) :
    (start process shared).AllServed past := fun _ => served_init _ _

variable {w : World}

theorem allServed_setClient (h : w.AllServed past) {i : Fin maxControlClients}
    {hc : c.kind = .reading → Reading c} (hserved : Served w.process past c sent) :
    (w.setClient i c s sent hc).AllServed past := by
  intro j
  by_cases hji : j = i
  · subst hji
    simpa [setClient] using hserved
  · simpa [setClient, Function.update_of_ne hji] using h j

theorem allServed_stop (w : World) (s : Shared) : (w.stop s).AllServed past := fun _ => served_init _ _

theorem allServed_accept (h : w.AllServed past) : w.accept.AllServed past := by
  unfold accept
  split
  · exact h
  · refine allServed_setClient h ⟨fun _ _ => rfl, fun which hw => ?_⟩
    exact absurd hw.symm (attachedKind_ne which).1

theorem allServed_mapClients (h : w.AllServed past)
    {f : ControlClient → Shared → ControlClient × Shared}
    {hf : ∀ c s, (c.kind = .reading → Reading c) → (f c s).1.kind = .reading → Reading (f c s).1}
    (hserved : ∀ c sent, Served w.process past c sent →
      Served w.process past (f c w.shared).1 sent) :
    (w.mapClients f hf).AllServed past :=
  fun i => hserved _ _ (h i)

theorem allServed_reapIdle (h : w.AllServed past) : w.reapIdle.AllServed past := by
  refine allServed_mapClients h fun c sent hc => ?_
  split_ifs
  · exact served_init _ sent
  · exact hc

theorem allServed_read (h : w.AllServed past)
    (hpast : ∀ which, past which (w.process.log which).bytes.length) (i : Fin maxControlClients)
    (incoming : List Incoming) : (w.read i incoming).AllServed past := by
  unfold read
  split_ifs with hkind
  · dsimp only
    split_ifs with hok
    · have hcase := readControlClientRequest_case (p := w.process) (w.wf i hkind) w.shared incoming
      rw [hok] at hcase
      exact allServed_setClient h (served_read hcase hkind hpast (h i))
    · exact allServed_stop w _
  · exact h

theorem allServed_flush (h : w.AllServed past) (i : Fin maxControlClients) (answers : List Answer) :
    (w.flush i answers).AllServed past := by
  unfold flush
  split_ifs with hp
  · have hne : (w.clients i).kind ≠ .reading := fun hk => hp (w.wf i hk).pending_eq
    exact allServed_setClient h (served_flush hne (h i) w.shared answers)
  · exact h

theorem allServed_forward (h : w.AllServed past) (i : Fin maxControlClients)
    (incoming : List Incoming) : (w.forward i incoming).AllServed past := by
  unfold forward
  split_ifs with hk
  · refine allServed_setClient h ?_
    rcases forwardAttachedStdin_client (w.clients i) w.shared incoming with hc | hc
    · rw [hc]
      exact h i
    · rw [hc]
      exact served_init _ _
  · exact h

theorem allServed_hangup (h : w.AllServed past) (i : Fin maxControlClients) :
    (w.hangup i).AllServed past := by
  unfold hangup
  split_ifs
  · exact allServed_setClient h (served_init _ _)
  · exact h

theorem allServed_output (h : w.AllServed past) (stream : Stream) (data : Bytes)
    (reaction : TerminalReaction) : (w.output stream data reaction).AllServed past := by
  unfold output
  dsimp only
  split_ifs with hfits hrecorded
  · exact fun i => served_broadcastTo (h i) _ stream data _ rfl
  · exact allServed_stop _ _
  · exact allServed_stop _ _

theorem allServed_step (a : Action) (hpast : ∀ which, past which (w.process.log which).bytes.length)
    (h : w.AllServed past) : (w.step a).AllServed past := by
  unfold step
  split_ifs
  · cases a with
    | accept => exact allServed_accept h
    | reapIdle => exact allServed_reapIdle h
    | read i incoming => exact allServed_read h hpast i incoming
    | flush i answers => exact allServed_flush h i answers
    | forward i incoming => exact allServed_forward h i incoming
    | hangup i => exact allServed_hangup h i
    | output stream data reaction => exact allServed_output h stream data reaction
    | complete result => exact fun _ => served_init _ _
    | surroundings shared => exact h
    | abort => exact allServed_stop w _
  · exact h

/-- The lengths that the logs have had in the course of a run. -/
def lengthsIn (w : World) (actions : List Action) : Past := fun which n =>
  ∃ before, before <+: actions ∧ ((w.run before).process.log which).bytes.length = n

theorem AllServed.mono {past' : Past} (h : w.AllServed past)
    (hle : ∀ which n, past which n → past' which n) : w.AllServed past' := by
  intro i
  refine ⟨(h i).fresh, fun which hw => ?_⟩
  obtain ⟨word, first, length, hcmd, hstream, h0, hlen, hrest⟩ := (h i).attached which hw
  exact ⟨word, first, length, hcmd, hstream, h0, ⟨hle _ _ hlen.1, hlen.2⟩, hrest⟩

theorem allServed_run (process : Process) (shared : Shared) (actions : List Action) :
    ((start process shared).run actions).AllServed ((start process shared).lengthsIn actions) := by
  induction actions using List.reverseRecOn with
  | nil => exact allServed_start process shared
  | append_singleton actions a ih =>
    have hstep := allServed_step a (fun which => ⟨actions, prefix_rfl, rfl⟩) ih
    have hrun : (start process shared).run (actions ++ [a]) =
        ((start process shared).run actions).step a := by
      simp [run]
    rw [hrun]
    refine hstep.mono ?_
    rintro which n ⟨before, hbefore, hn⟩
    exact ⟨before, hbefore.trans (prefix_append _ _), hn⟩

/-- In every state of every run, a client attached to an output stream was sent a part of the header
of its attach answer followed by the log from its start offset on, and the rest of that is what it
still has to be sent. -/
theorem run_attached_follows_log (process : Process) (shared : Shared) (actions : List Action)
    (i : Fin maxControlClients) (which : Stream)
    (hattached : (((start process shared).run actions).clients i).kind = attachedKind which) :
    ∃ word first length,
      LineCommand.ofLine (cstr (((start process shared).run actions).clients i).request) =
        .attach (some (word, first)) ∧
      streamOf word = some which ∧ 0 ≤ first ∧
      (start process shared).lengthsIn actions which (first.toNat + length) ∧
      first.toNat + length ≤
        (((start process shared).run actions).process.log which).bytes.length ∧
      ((start process shared).run actions).sent i <+:
        attachHeader word first length ++
          (((start process shared).run actions).process.log which).bytes.drop first.toNat ∧
      ((start process shared).run actions).sent i ++
          (((start process shared).run actions).clients i).pending =
        attachHeader word first length ++
          (((start process shared).run actions).process.log which).bytes.drop first.toNat := by
  obtain ⟨word, first, length, hcmd, hstream, h0, hlen, -, hsent⟩ :=
    (allServed_run process shared actions i).attached which hattached
  exact ⟨word, first, length, hcmd, hstream, h0, hlen.1, hlen.2, ⟨_, hsent⟩, hsent⟩

/-- A client attaches to an empty log, output arrives, and four bytes of the answer are sent. -/
def attachRun : List Action :=
  [.accept, .read 0 [.data 0x61 (ascii "ttach stdout 0\n")], .output .stdout (ascii "hi") ⟨[], []⟩,
    .flush 0 [.wrote 3, .refused EAGAIN]]

theorem attachRun_follows_log :
    (((start (.started 1) .started).run attachRun).clients 0).kind = .attachedStdout ∧
      ∃ word first length, ((start (.started 1) .started).run attachRun).sent 0 <+:
        attachHeader word first length ++
          (((start (.started 1) .started).run attachRun).process.log .stdout).bytes.drop
            first.toNat := by
  have hkind : (((start (.started 1) .started).run attachRun).clients 0).kind = .attachedStdout := by
    decide +kernel
  obtain ⟨word, first, length, -, -, -, -, -, hsent, -⟩ :=
    run_attached_follows_log (.started 1) .started attachRun 0 .stdout hkind
  exact ⟨hkind, word, first, length, hsent⟩

end World
end Cubicle.Controller
