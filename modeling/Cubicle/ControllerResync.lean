import Cubicle.ControllerSessions

/-!
# After a rejected frame

A frame that announces no payload or too much of it is rejected when its fourth byte is read. The
announced length is not kept, and what the client sends next is read as a new frame. Here each
dispatched request is traced back to the place in the stream of the connection where it begins.
-/

namespace Cubicle.Controller
open ByteText PartialWrites List

variable {p : Process}

variable {c c' : ControlClient} {b : UInt8}

theorem Extends.framedRequest (h : Extends c c' b)
    (hframed : c.framedRequest = true ∨ (c.request ++ [b]).head? = some 0) :
    c'.framedRequest = true := by
  by_contra hf
  rw [Bool.not_eq_true] at hf
  obtain ⟨-, -, hzero, -⟩ := h.reading.line hf
  rcases hframed with hc | hnul
  · simp [h.unframed hf] at hc
  · exact hzero (by rw [h.request]; exact mem_of_head? hnul)

theorem head_append_cons (r : Bytes) (b : UInt8) (t : Bytes) :
    (r ++ b :: t).head? = (r ++ [b]).head? := by
  cases r <;> rfl

/-- A framed request cannot end before its header is complete. -/
theorem readBytes_short (h : Reading c) (s : Shared) {bytes : Bytes}
    (hframed : c.framedRequest = true ∨ (c.request ++ bytes).head? = some 0)
    (hshort : (c.request ++ bytes).length < 4) : ∃ c', readBytes p c s bytes = .more c' := by
  induction bytes generalizing c with
  | nil => exact ⟨c, rfl⟩
  | cons b t ih =>
    rw [head_append_cons] at hframed
    have hopen : ¬ Ended c.framedRequest (c.request ++ [b]) := by
      rw [Ended, if_pos hframed]
      simp only [length_append, length_cons, length_nil] at hshort ⊢
      omega
    obtain ⟨c', hmore, grown, -, -⟩ := readByte_more (p := p) h s hopen
    rw [readBytes, hmore]
    exact ih grown.reading (.inl (grown.framedRequest hframed))
      (by simpa [grown.request] using hshort)

/-- What a framed client has dispatched from a read is a frame that its bytes begin with. -/
theorem frameOf_of_requestsIn (h : Reading c) (s : Shared) {bytes : Bytes}
    (hframed : c.framedRequest = true ∨ (c.request ++ bytes).head? = some 0)
    (hdispatched : requestsIn p c s bytes ≠ []) :
    ∃ payload, frameOf (c.request ++ bytes) = some payload := by
  induction bytes generalizing c with
  | nil => exact absurd rfl hdispatched
  | cons b t ih =>
    rw [head_append_cons] at hframed
    have hcase := readByte_case (p := p) h s b
    rw [requestsIn] at hdispatched
    cases hstep : readByte p c s b with
    | more c' =>
      rw [hstep] at hdispatched hcase
      cases hcase with
      | more grown =>
        have hrest := ih grown.reading (.inl (grown.framedRequest hframed)) hdispatched
        simpa [grown.request] using hrest
    | stop c' s' ok =>
      rw [hstep] at hdispatched
      simp only [requestAt, if_pos ((head_zero_iff h b).mp hframed)] at hdispatched
      cases hframe : frameOf (c.request ++ [b]) with
      | none => simp [hframe] at hdispatched
      | some payload => exact ⟨payload, by simpa using frameOf_append hframe t⟩

theorem ByteCase.kind_ne_reading {s s' : Shared} (h : ByteCase p s c b (.stop c' s' true)) :
    c'.kind ≠ .reading := by
  generalize hend : Progress.stop c' s' true = progress at h
  cases h with
  | more grown => simp at hend
  | frame complete dispatched =>
    injection hend with hc hs hok
    rcases dispatchApiRequest_kind dispatched with hk | hno
    · rw [hc, hk]
      simp
    · simp [← hok] at hno
  | line unframed newline dispatched noFrame =>
    injection hend with hc hs hok
    rw [hc, dispatched]
    exact finishControlRequest_kind _ _
  | rejected gone noFrame =>
    injection hend with hc hs hok
    rcases gone with hk | hk
    · rw [hc, hk]
      simp
    · rw [hc, hk]
      simp [ControlClient.init]

namespace World

/-- A client that is reading again after its answer was sent begins a new frame. -/
theorem settle_reading {w : World} {i : Fin maxControlClients} (hne : (w.clients i).kind ≠ .reading)
    (hk : ((w.settle i).clients i).kind = .reading) :
    (w.clients i).kind = .responding ∧ ((w.settle i).clients i).request = [] ∧
      ((w.settle i).clients i).framedRequest = true := by
  unfold settle step flush at hk ⊢
  split_ifs at hk ⊢ with hrun
  · dsimp only at hk ⊢
    split_ifs at hk ⊢ with hp
    · simp only [setClient, Function.update_self, flushControlClientResponse, writeLoop_willing]
        at hk ⊢
      unfold flushed at hk ⊢
      dsimp only at hk ⊢
      split at hk
      · rename_i hresponding
        split_ifs at hk ⊢ with hframed
        · exact ⟨hresponding, rfl, hframed.1⟩
        · simp [closeControlClient, ControlClient.init] at hk
      · simp at hk
      · exact absurd hk hne
    · exact absurd hk hne
  · exact absurd hk hne

end World

namespace Session

/-- The next read is taken for a request. -/
def Ready (σ : Session) (i : Fin maxControlClients) : Prop :=
  (σ.world.settle i).running = true ∧ (σ.clientAt i).kind = .reading

instance (σ : Session) (i : Fin maxControlClients) : Decidable (σ.Ready i) :=
  inferInstanceAs (Decidable (_ ∧ _))

/-- The requests dispatched from some reads, each with the place in the stream where it begins;
`received` bytes came before these reads. -/
def dispatches (σ : Session) (i : Fin maxControlClients) (received : ℕ) :
    List (UInt8 × Bytes) → List (ℕ × Request)
  | [] => []
  | r :: reads =>
    (if σ.Ready i then
      ((σ.world.settle i).requests i (.data r.1 r.2)).map
        fun request => (received - (σ.clientAt i).request.length, request)
    else []) ++
    (σ.receive i (.data r.1 r.2)).dispatches i (received + (r.1 :: r.2).length) reads

variable {σ : Session} {i : Fin maxControlClients} {t stream rest : Bytes}

/-- A connection that reads no requests does not begin to. -/
theorem not_ready_receive (h : ¬ σ.Ready i) (incoming : Incoming) :
    ¬ (σ.receive i incoming).Ready i := by
  have hreceive : σ.receive i incoming =
      ⟨(σ.world.settle i).step (.forward i [incoming]), σ.requests⟩ := if_neg h
  rw [hreceive]
  by_cases hlive : (σ.world.settle i).running = true ∧
      ((σ.world.settle i).clients i).kind = .attachedStdin
  · rintro ⟨-, hk⟩
    obtain ⟨-, -, hclient, -⟩ := step_forward_live hlive.1 hlive.2 [incoming]
    have hkind : (((σ.world.settle i).step (.forward i [incoming])).clients i).kind =
          .attachedStdin ∨
        (((σ.world.settle i).step (.forward i [incoming])).clients i).kind = .empty := by
      rw [hclient]
      rcases World.forwardAttachedStdin_client ((σ.world.settle i).clients i)
        (σ.world.settle i).shared [incoming] with heq | heq
      · exact .inl (by rw [heq, hlive.2])
      · exact .inr (by rw [heq]; rfl)
    obtain ⟨hresponding, -⟩ := World.settle_reading
      (by rcases hkind with hk' | hk' <;> simp [hk']) hk
    rcases hkind with hk' | hk' <;> simp [hk'] at hresponding
  · rw [step_forward_dead hlive]
    simpa [Ready, clientAt, World.settle_settle] using h

/-- After a read of a framed connection its request has grown by the whole read, or a new one is to
begin and the old one was at least a header. -/
theorem ready_receive (h : σ.Ready i)
    (hframed : (σ.clientAt i).framedRequest = true ∨ ((σ.clientAt i).request ++ b :: t).head? =
      some 0)
    (h' : (σ.receive i (.data b t)).Ready i) :
    ((σ.receive i (.data b t)).clientAt i).framedRequest = true ∧
      (((σ.receive i (.data b t)).clientAt i).request = (σ.clientAt i).request ++ b :: t ∨
        ((σ.receive i (.data b t)).clientAt i).request = [] ∧
          4 ≤ ((σ.clientAt i).request ++ b :: t).length) := by
  obtain ⟨hrun, hkind⟩ := h
  have hreceive : σ.receive i (.data b t) = ⟨(σ.world.settle i).step (.read i [.data b t]),
      σ.requests ++ (σ.world.settle i).requests i (.data b t)⟩ := if_pos ⟨hrun, hkind⟩
  rw [hreceive] at h' ⊢
  unfold clientAt at hkind hframed ⊢
  obtain ⟨hrun', hkind'⟩ := h'
  unfold clientAt at hkind'
  generalize σ.world.settle i = w at *
  have hreading := (w.wf i hkind).touch w.shared.system.now
  cases hbytes : readBytes w.process { w.clients i with lastActivityMs := w.shared.system.now }
    w.shared (b :: t) with
  | more c =>
    have hread : readControlClientRequest w.process (w.clients i) w.shared [.data b t] =
        ⟨c, w.shared, true, []⟩ := by
      simp only [readControlClientRequest, hbytes]
    obtain ⟨hc, hrequest, hunframed⟩ := readBytes_more hreading hbytes
    have hstep := World.step_read_ok hrun hkind hread rfl fun _ => hc
    have hclient : (w.step (.read i [.data b t])).clients i = c := by
      rw [hstep]
      simp [World.setClient]
    have hsettle : (w.step (.read i [.data b t])).settle i = w.step (.read i [.data b t]) :=
      World.settle_of_pending (by rw [hclient]; exact hc.pending_eq)
    rw [hsettle, hclient]
    refine ⟨?_, .inl hrequest⟩
    by_contra hf
    rw [Bool.not_eq_true] at hf
    obtain ⟨-, -, hzero, -⟩ := hc.line hf
    rcases hframed with hwas | hnul
    · exact absurd hwas (by simpa using hunframed hf)
    · exact hzero (by rw [hrequest]; exact mem_of_head? hnul)
  | stop c s ok =>
    have hread : readControlClientRequest w.process (w.clients i) w.shared [.data b t] =
        ⟨c, s, ok, []⟩ := by
      simp only [readControlClientRequest, hbytes]
    have hlong : 4 ≤ ((w.clients i).request ++ b :: t).length := by
      by_contra hshort
      obtain ⟨c', hmore⟩ := readBytes_short (p := w.process) hreading w.shared hframed
        (by simpa using hshort)
      rw [hbytes] at hmore
      simp at hmore
    cases ok with
    | false =>
      rw [World.settle_running, World.step_read_failed hrun hkind hread (by simp)] at hrun'
      simp [World.stop] at hrun'
    | true =>
      obtain ⟨before, x, after, d, -, -, -, -, hcase⟩ := readBytes_stop hreading hbytes
      have hne := hcase.kind_ne_reading
      have hstep := World.step_read_ok hrun hkind hread rfl fun hk => absurd hk hne
      have hclient : (w.step (.read i [.data b t])).clients i = c := by
        rw [hstep]
        simp [World.setClient]
      obtain ⟨-, hrequest, hf⟩ := World.settle_reading (by rw [hclient]; exact hne) hkind'
      exact ⟨hf, .inr ⟨hrequest, hlong⟩⟩

/-- With `received` bytes of the stream taken, the request so far is the part of it that begins at
`start`; it is the first request or comes after a whole header. -/
structure Traced (σ : Session) (i : Fin maxControlClients) (stream : Bytes) (received start : ℕ) :
    Prop where
  start_cases : start = 0 ∨ 4 ≤ start
  received_eq : received = start + (σ.clientAt i).request.length
  stream_eq : stream.drop start = (σ.clientAt i).request ++ stream.drop received
  framed : (σ.clientAt i).framedRequest = true ∨ (stream.drop start).head? = some 0

theorem Traced.head {received start : ℕ} (h : σ.Traced i stream received start)
    (hstream : stream.drop received = b :: t ++ rest) :
    (σ.clientAt i).framedRequest = true ∨
      ((σ.clientAt i).request ++ b :: t).head? = some 0 := by
  refine h.framed.imp_right fun hnul => ?_
  rw [h.stream_eq, hstream, cons_append, head_append_cons] at hnul
  rw [head_append_cons, hnul]

/-- A dispatched frame is one that the stream has where it begins. -/
theorem Traced.frameOf_stream {received start : ℕ} (h : σ.Traced i stream received start)
    (hready : σ.Ready i) (hstream : stream.drop received = b :: t ++ rest) {request : Request}
    (hrequest : request ∈ (σ.world.settle i).requests i (.data b t)) :
    ∃ payload, frameOf (stream.drop start) = some payload := by
  obtain ⟨payload, hframe⟩ := frameOf_of_requestsIn (p := (σ.world.settle i).process)
    (((σ.world.settle i).wf i hready.2).touch (σ.world.settle i).shared.system.now)
    (σ.world.settle i).shared (h.head hstream) (ne_nil_of_mem hrequest)
  refine ⟨payload, ?_⟩
  rw [h.stream_eq, hstream, ← append_assoc]
  exact frameOf_append hframe rest

/-- One read keeps a connection traced. -/
theorem Traced.receive {received start : ℕ} (h : σ.Traced i stream received start)
    (hready : σ.Ready i) (hstream : stream.drop received = b :: t ++ rest)
    (hready' : (σ.receive i (.data b t)).Ready i) :
    ∃ start', (σ.receive i (.data b t)).Traced i stream (received + (b :: t).length) start' := by
  have hrest : stream.drop (received + (b :: t).length) = rest := by
    rw [← drop_drop, hstream, drop_left]
  obtain ⟨hframed, hgrown | ⟨hnew, hlong⟩⟩ := ready_receive hready (h.head hstream) hready'
  · refine ⟨start, h.start_cases, ?_, ?_, .inl hframed⟩
    · rw [hgrown, length_append, h.received_eq, Nat.add_assoc]
    · rw [hgrown, hrest, h.stream_eq, hstream, append_assoc]
  · refine ⟨received + (b :: t).length, .inr ?_, by simp [hnew], by simp [hnew], .inl hframed⟩
    rw [h.received_eq]
    rw [length_append] at hlong
    omega

/-- No request begins where the stream has no frame. -/
theorem dispatches_start_ge {limit : ℕ}
    (hclean : ∀ start < limit, start = 0 ∨ 4 ≤ start → frameOf (stream.drop start) = none)
    {reads : List (UInt8 × Bytes)} {received : ℕ} (hreads : stream.drop received = bytesOf reads)
    (htraced : σ.Ready i → ∃ start, σ.Traced i stream received start) :
    ∀ d ∈ σ.dispatches i received reads, limit ≤ d.1 := by
  induction reads generalizing σ received with
  | nil => simp [dispatches]
  | cons r reads ih =>
    have hstream : stream.drop received = r.1 :: r.2 ++ bytesOf reads := by
      rw [hreads]
      rfl
    intro d hd
    rw [dispatches] at hd
    rcases mem_append.mp hd with hd | hd
    · split_ifs at hd with hready
      · obtain ⟨start, h⟩ := htraced hready
        obtain ⟨request, hrequest, rfl⟩ := mem_map.mp hd
        have hstart : received - (σ.clientAt i).request.length = start := by
          rw [h.received_eq, Nat.add_sub_cancel]
        dsimp only
        rw [hstart]
        by_contra hlt
        have hnone := hclean start (by omega) h.start_cases
        obtain ⟨payload, hframe⟩ := h.frameOf_stream hready hstream hrequest
        simp [hframe] at hnone
      · simp at hd
    · have hnext : stream.drop (received + (r.1 :: r.2).length) = bytesOf reads := by
        rw [← drop_drop, hstream, drop_left]
      refine ih hnext (fun hready' => ?_) d hd
      by_cases hready : σ.Ready i
      · obtain ⟨start, h⟩ := htraced hready
        exact h.receive hready hstream hready'
      · exact absurd hready' (not_ready_receive hready _)

/-- When no frame can be read from any place within the announced payload, whatever is dispatched
after the rejected frame begins after its announced end, however the stream is split into reads. -/
theorem dispatches_after_rejected {σ : Session} {i : Fin maxControlClients}
    (hbetween : (σ.clientAt i).request = []) {header : Bytes} (hlength : header.length = 4)
    (hframed : (σ.clientAt i).framedRequest = true ∨ header.head? = some 0)
    (hbad : frameLength header = 0 ∨ requestMax - 4 ≤ frameLength header) {body : Bytes}
    (hclean : ∀ place < frameLength header, frameOf (body.drop place) = none)
    {reads : List (UInt8 × Bytes)} (hreads : bytesOf reads = header ++ body) :
    ∀ d ∈ σ.dispatches i 0 reads, 4 + frameLength header ≤ d.1 := by
  have hstarts : ∀ start < 4 + frameLength header, start = 0 ∨ 4 ≤ start →
      frameOf ((header ++ body).drop start) = none := by
    rintro start hlt (rfl | hfour)
    · have hsame : frameLength (header ++ body) = frameLength header := by
        rw [frameLength, frameLength, take_append_of_le_length hlength.ge]
      rw [drop_zero, frameOf, hsame, if_neg]
      rintro ⟨-, hpos, hsmall, -⟩
      omega
    · rw [drop_append, drop_of_length_le (by omega), nil_append]
      exact hclean _ (by omega)
  apply dispatches_start_ge hstarts
  · rw [hreads, drop_zero]
  · intro _
    refine ⟨0, .inl rfl, by simp [hbetween], by simp [hbetween], ?_⟩
    refine hframed.imp_right fun hnul => ?_
    cases header with
    | nil => simp at hlength
    | cons b t => simpa using hnul

theorem frameOf_drop_of_nonzero {body : Bytes} (h : 0 ∉ body) (place : ℕ) :
    frameOf (body.drop place) = none := by
  cases hdrop : body.drop place with
  | nil => exact frameOf_short (by simp)
  | cons b t =>
    refine frameOf_eq_none_of_head fun hb => h ?_
    rw [← hb]
    exact mem_of_mem_drop (by rw [hdrop]; exact mem_cons_self)

/-- The text of a request behind a rejected header is not taken for one. -/
theorem opened_rejected_text :
    (opened.dispatches 0 0 [(0, [0, 0x20, 0]), readOf "\x7b\"params\":\x7b\x7d\x7d"]).all
      (fun d => 4 + frameLength [0, 0, 0x20, 0] ≤ d.1) = true := by
  have hclean : ∀ place < frameLength [0, 0, 0x20, 0],
      frameOf ((ascii "\x7b\"params\":\x7b\x7d\x7d").drop place) = none :=
    fun place _ => frameOf_drop_of_nonzero (by decide) place
  rw [all_eq_true]
  intro d hd
  rw [decide_eq_true_eq]
  refine dispatches_after_rejected ?_ ?_ ?_ ?_ hclean ?_ d hd
  · decide
  · rfl
  · exact .inr rfl
  · decide
  · decide

/-- A frame within the announced 8192 bytes of a rejected one. -/
def innerRequest : String :=
  "\x7b\"protocol_major\":0,\"protocol_minor\":1,\"request_id\":\"1\",\"session_id\":\"s\"," ++
    "\"method\":\"controller.close_input\",\"params\":\x7b\x7d\x7d"

/-- The inner frame is dispatched, and closes the input of the child. -/
theorem opened_rejected_dispatches :
    frameLength [0, 0, 0x20, 0] = 8192 ∧
      opened.dispatches 0 0 [(0, [0, 0x20, 0]), (0, [0, 0, 119] ++ ascii innerRequest)] =
        [(4, .frame (ascii innerRequest))] ∧
      (opened.receiveAll 0 [(0, [0, 0x20, 0]),
        (0, [0, 0, 119] ++ ascii innerRequest)]).world.shared.stdin.isOpen = false := by
  decide +kernel

end Session
end Cubicle.Controller
