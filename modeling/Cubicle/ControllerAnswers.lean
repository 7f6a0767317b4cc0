import Cubicle.ControllerLoop

/-!
# Which framed requests can be answered

An error answer always fits. A result is refused when the request id grows too much by escaping,
when a snapshot has too many cells, cells that are not UTF-8 or is too long for a frame, and when
an event list shows a line that is not UTF-8. Nothing else makes the dispatcher fail.
-/

namespace Cubicle.Controller
open ByteText Utf8Sequences PartialWrites JsonText JsonSpelling JsonEncoding RpcEnvelope List
  OutputPages

variable {p : Process}

variable {c : ControlClient} {message id r : Bytes} {s : Shared} {channels : ℕ} {params : Members}

theorem enqueueResponse_ok {data : Bytes} (h : c.response.length + data.length ≤ responseMax) :
    enqueueResponse c data = ({ c with response := c.response ++ data }, true) := by
  unfold enqueueResponse
  rw [if_neg (by omega)]

theorem enqueueApiFrame_ok_iff (hc : c.response = []) (json : Bytes) :
    (enqueueApiFrame c json).2 = true ↔ json.length ≤ responseMax - 4 := by
  have hmax : responseMax = 4194304 := rfl
  unfold enqueueApiFrame
  by_cases hlong : responseMax - 4 < json.length
  · rw [if_pos (.inr hlong)]
    simp only [Bool.false_eq_true, false_iff]
    omega
  · rw [if_neg (by omega)]
    dsimp only
    rw [enqueueResponse_ok (by simp [hc, bigEndian32, hmax])]
    dsimp only
    rw [if_pos rfl, enqueueResponse_ok (by simp [hc, bigEndian32]; omega)]
    simp only [true_iff]
    omega

/-- Error envelopes are short when the id and the message are. -/
theorem rpcError_some (id : Bytes) (code : ErrorCode) (retryable : Bool) (errno : Int32)
    (hid : (cstr id).length ≤ 63) (hmessage : message.length ≤ 64) :
    rpcError 2048 id code message retryable errno =
        some (errorText id code (escapeText (cstr message)) retryable errno) ∧
      (errorText id code (escapeText (cstr message)) retryable errno).length < 2048 := by
  have hesc := escapeText_length_le (cstr message)
  have hcstr := cstr_length_le message
  have hcode := errorCode_name_length_le code
  have hbool : (ascii (if retryable then "true" else "false")).length ≤ 5 :=
    boolText_length_le retryable
  have herrno := decInt_int32_length_le errno
  have hlen : (errorText id code (escapeText (cstr message)) retryable errno).length < 2048 := by
    simp only [errorText, length_append]
    simp only [ascii, length_map] at hbool ⊢
    simp
    omega
  refine ⟨?_, hlen⟩
  unfold rpcError
  rw [jsonEscape_eq (by decide), if_neg (by omega)]
  simp only [Option.bind_eq_bind, Option.bind_some]
  rw [if_neg (by omega)]

/-- Every error with a short message is answered. -/
theorem enqueueApiError_ok (hc : c.response = []) (code : ErrorCode) (retryable : Bool)
    (errno : Int32) (hid : (cstr id).length ≤ 63) (hmessage : message.length ≤ 64) :
    (enqueueApiError c id code message retryable errno).2 = true := by
  obtain ⟨htext, hlen⟩ := rpcError_some id code retryable errno hid hmessage
  unfold enqueueApiError
  rw [htext]
  refine (enqueueApiFrame_ok_iff hc _).mpr ?_
  unfold responseMax
  omega

/-- The escaped id is too long for the buffer of its answer when it has grown by more than 85
bytes. -/
def idFits (id : Bytes) : Prop := (escapeText (cstr id)).length ≤ (cstr id).length + 85

instance (id : Bytes) : Decidable (idFits id) := inferInstanceAs (Decidable (_ ≤ _))

theorem enqueueApiSuccess_ok_iff (hc : c.response = []) (id result : Bytes)
    (hid : (cstr id).length ≤ 63) :
    (enqueueApiSuccess c id result).2 = true ↔
      fragmentValid result = true ∧ idFits id ∧
        (successText id result).length ≤ responseMax - 4 := by
  have hesc := escapeText_length_le (cstr id)
  have hlen := successText_length id result
  unfold enqueueApiSuccess
  rw [rpcSuccess_eq id result (by omega)]
  unfold idFits
  by_cases hfits : fragmentValid result = true ∧ (escapeText (cstr id)).length < 1024 ∧
      (successText id result).length < (cstr id).length + (cstr result).length + 128
  · rw [if_pos hfits]
    dsimp only
    rw [enqueueApiFrame_ok_iff hc]
    constructor
    · intro hframe
      exact ⟨hfits.1, by omega, hframe⟩
    · exact fun h => h.2.2
  · rw [if_neg hfits]
    simp only [Bool.false_eq_true, false_iff]
    rintro ⟨hvalid, hgrown, -⟩
    exact hfits ⟨hvalid, by omega, by omega⟩

def eventFile (s : Shared) : Bytes :=
  if (nextAnswer s.system.opens).1.isNone then s.journal.file else []

/-- The request is one that its method answers with a result. -/
def ApiMethod.Accepted (p : Process) (s : Shared) (params : Members) : ApiMethod → Prop
  | .status => True
  | .read => ∃ stream offset maximumLength which,
      getRequiredString params (ascii "stream") 32 = some stream ∧
      getU64 params (ascii "offset") = some offset ∧
      getU64 params (ascii "maximum_length") = some maximumLength ∧ maximumLength ≤ 8192 ∧
      streamOf stream = some which ∧ offset ≤ (p.log which).bytes.length ∧
      (nextAnswer s.system.opens).1 = none ∧ (nextAnswer s.system.reads).1 = none
  | .snapshot => ∃ t r, s.terminal = some t ∧
      snapshotJson t p.stdout.bytes.length responseMax = some r
  | .write => p.completed = false ∧ s.stdin.isOpen = true ∧
      ∃ data, getRequiredString params (ascii "data") 4096 = some data ∧
        (writeLoop s.stdin.answers data).error = none
  | .closeInput => s.terminal = none
  | .resize => p.completed = false ∧ p.resizable = true ∧
      ∃ rows columns, getU64 params (ascii "rows") = some rows ∧
        getU64 params (ascii "columns") = some columns ∧
        validDimension rows = true ∧ validDimension columns = true ∧
        (applyResize p s rows columns).2 = none
  | .attach => ∃ channels mode, attachRequest params = some (channels, mode) ∧
      acceptedChannels p s channels mode ≠ 0 ∧
      (activateAttachment (attachEvents s (acceptedChannels p s channels mode))
        (acceptedChannels p s channels mode) mode).2 = none
  | .detach => True
  | .signal => p.completed = false ∧
      ∃ number, getU64 params (ascii "signal_number") = some number ∧ number ≠ 0 ∧
        number < maxSignalNumber ∧ (nextAnswer s.system.kills).1 = none
  | .terminate => p.completed = false ∧ (nextAnswer s.system.kills).1 = none
  | .eventsAfter => ∃ after limit r, getU64 params (ascii "after_sequence") = some after ∧
      getU64 params (ascii "limit") = some limit ∧ limit ≤ 1024 ∧
      eventsAfterJson (eventFile s) after limit = some r

def ApiMethod.Result (p : Process) (s : Shared) (params : Members) (r : Bytes) : ApiMethod → Prop
  | .snapshot => ∃ t, s.terminal = some t ∧
      snapshotJson t p.stdout.bytes.length responseMax = some r
  | .eventsAfter => ∃ after limit, getU64 params (ascii "after_sequence") = some after ∧
      getU64 params (ascii "limit") = some limit ∧
      eventsAfterJson (eventFile s) after limit = some r
  | _ => fragmentValid r = true ∧ r.length ≤ 65536

/-- A method either succeeds with a result of its kind, and then the request was an accepted
one, or it fails with a short message, and then it was not. -/
def Decided (accepted : Prop) (result : Bytes → Prop) : Reply → Prop
  | .success r => accepted ∧ result r
  | .failure _ message _ _ => ¬ accepted ∧ message.length ≤ 64

theorem fragmentValid_empty : fragmentValid (ascii "\x7b\x7d") = true := by decide

theorem decided_empty {accepted : Prop} {result : Bytes → Prop} (h : accepted)
    (hr : ∀ r, (fragmentValid r = true ∧ r.length ≤ 65536) → result r) :
    Decided accepted result .empty :=
  ⟨h, hr _ ⟨fragmentValid_empty, by decide⟩⟩

theorem fragmentValid_obj {t : Bytes} {ms : Members} (h : Spells t (.obj ms))
    (hlen : t.length ≤ maxDocumentBytes) (hcount : ms.length ≤ maxObjectMembers)
    (hkeys : validKeys (ms.map Prod.fst) = true)
    (hvalues : ∀ m ∈ ms, validateValue 2 m.2 = true) : fragmentValid t = true := by
  rw [fragmentValid, parse_spelled h hlen, if_pos]
  · rfl
  · rw [validateValue, validateMembers_eq, hkeys]
    simp only [Bool.true_and, Bool.and_eq_true, decide_eq_true_eq, all_eq_true]
    exact ⟨⟨by decide, hcount⟩, hvalues⟩

theorem intJson_validate (z : ℤ) : validateValue 2 (intJson z) = true := by
  rw [intJson_valid]
  decide

theorem log_fits (p : Process) :
    p.stdout.bytes.length < 2 ^ 64 ∧ p.stderr.bytes.length < 2 ^ 64 := by
  have h1 := p.stdout.fits
  have h2 := p.stderr.fits
  omega

/-- The three members that end the results with offsets. -/
def offsetFields (p : Process) : List Field :=
  [.plain "stdout_offset" (by decide) (spells_uint (log_fits p).1),
    .plain "stderr_offset" (by decide) (spells_uint (log_fits p).2),
    .plain "tty_offset" (by decide) (spells_uint (log_fits p).1)]

def statusFields (p : Process) : List Field :=
  (.plain "state" (by decide)
      (spells_str (spellsString_plain (s := ascii (if p.completed then "completed" else "running"))
        (by cases p.completed <;> decide +kernel)))) ::
    (.plain "pid" (by decide) (spells_int32 p.pid)) ::
    (.plain "pgid" (by decide) (spells_int32 p.pid)) ::
    ((if p.completed then [.plain "result" (by decide) (spells_int32 p.result)] else []) ++
      offsetFields p)

theorem objectText_statusFields (p : Process) :
    objectText ((statusFields p).map Field.text) = statusText p := by
  cases h : p.completed <;>
    simp [statusFields, offsetFields, h, statusText, offsetsText, objectText, joinComma, memberText,
      Field.text, Field.plain, ascii]

theorem offsets_length_le (p : Process) : (offsetsText p).length ≤ 120 := by
  have h1 := dec_length_le_u64 (log_fits p).1
  have h2 := dec_length_le_u64 (log_fits p).2
  simp [offsetsText, ascii]
  omega

theorem statusText_length_lt (p : Process) : (statusText p).length < 512 := by
  have h1 := offsets_length_le p
  have h2 := decInt_int32_length_le p.pid
  have h3 := decInt_int32_length_le p.result
  unfold statusText
  cases p.completed <;> simp [ascii] <;> omega

theorem fragmentValid_statusText (p : Process) : fragmentValid (statusText p) = true := by
  have hlen := statusText_length_lt p
  have hspell := spells_obj (statusFields p)
  rw [objectText_statusFields] at hspell
  refine fragmentValid_obj hspell (by unfold maxDocumentBytes; omega) ?_ ?_ ?_
  · cases h : p.completed <;> simp [statusFields, offsetFields, h, maxObjectMembers]
  · cases h : p.completed <;>
      simp only [statusFields, offsetFields, h, Field.member, Field.plain, map_cons,
        map_nil, cons_append, nil_append, if_true, Bool.false_eq_true, if_false] <;>
      decide
  · cases h : p.completed <;>
      simp [statusFields, offsetFields, h, Field.member, Field.plain, validateValue,
        intJson_validate, maxDepth] <;>
      decide

theorem status_decided (s : Shared) (params : Members) :
    Decided (ApiMethod.status.Accepted p s params)
      (fun r => ApiMethod.status.Result p s params r) (controllerStatus p s).2 := by
  have hlen := statusText_length_lt p
  exact ⟨trivial, fragmentValid_statusText p, by omega⟩

theorem readStreamJson_ok_iff (s : Shared) (stream : Bytes) (offset maximumLength : ℕ) :
    (∃ page, (readStreamJson p s stream offset maximumLength).2 = .ok page) ↔
      maximumLength ≤ 8192 ∧ ∃ which, streamOf stream = some which ∧
        offset ≤ (p.log which).bytes.length ∧ (nextAnswer s.system.opens).1 = none ∧
        (nextAnswer s.system.reads).1 = none := by
  unfold readStreamJson
  by_cases hmax : 8192 < maximumLength
  · rw [if_pos hmax]
    simp; omega
  rw [if_neg hmax]
  cases hstream : streamOf stream with
  | none => simp
  | some which =>
    dsimp only
    by_cases hoffset : (p.log which).bytes.length < offset
    · rw [if_pos hoffset]
      simp; omega
    rw [if_neg hoffset]
    cases hopen : (nextAnswer s.system.opens).1 with
    | some errno => simp [openLog, hopen]
    | none =>
      cases hread : (nextAnswer s.system.reads).1 with
      | some errno => simp [openLog, readLog, hopen, hread]
      | none =>
        simp [openLog, readLog, hopen, hread]
        omega

theorem readStreamJson_page {stream : Bytes} {offset maximumLength : ℕ} {page : Bytes}
    (h : (readStreamJson p s stream offset maximumLength).2 = .ok page) :
    fragmentValid page = true ∧ page.length ≤ 65536 := by
  obtain ⟨hmax, which, hstream, hoffset, hopen, hread⟩ := (readStreamJson_ok_iff s stream offset
    maximumLength).mp ⟨page, h⟩
  unfold readStreamJson at h
  rw [if_neg (by omega), hstream] at h
  dsimp only at h
  rw [if_neg (by omega)] at h
  simp only [openLog, readLog, hopen, hread, Except.ok.injEq] at h
  have hfits := (p.log which).fits
  have hpage := pageOf_length_le (p.log which).bytes offset maximumLength
  have hnext : offset + (pageOf (p.log which).bytes offset maximumLength).length < 2 ^ 64 := by
    omega
  have hlen := pageJson_length_le (p.log which).bytes.length hnext
  rw [← h]
  refine ⟨?_, by omega⟩
  rw [fragmentValid, parse_pageJson _ (by omega) hnext]
  rfl

theorem read_decided (s : Shared) (params : Members) :
    Decided (ApiMethod.read.Accepted p s params)
      (fun r => ApiMethod.read.Result p s params r) (controllerRead p s params).2 := by
  unfold controllerRead
  split
  · rename_i stream offset maximumLength hstream hoffset hmax
    have hiff := readStreamJson_ok_iff (p := p) s stream offset maximumLength
    split
    · rename_i s' page hread
      have hok : (readStreamJson p s stream offset maximumLength).2 = .ok page := by rw [hread]
      obtain ⟨hle, which, hrest⟩ := hiff.mp ⟨page, hok⟩
      exact ⟨⟨stream, offset, maximumLength, which, hstream, hoffset, hmax, hle, hrest⟩,
        readStreamJson_page hok⟩
    · rename_i s' errno hread
      refine ⟨?_, by decide⟩
      rintro ⟨stream', offset', maximumLength', which, h1, h2, h3, hrest⟩
      obtain rfl : stream = stream' := Option.some.inj (hstream.symm.trans h1)
      obtain rfl : offset = offset' := Option.some.inj (hoffset.symm.trans h2)
      obtain rfl : maximumLength = maximumLength' := Option.some.inj (hmax.symm.trans h3)
      obtain ⟨page, hpage⟩ := hiff.mpr ⟨hrest.1, which, hrest.2⟩
      rw [hread] at hpage
      simp at hpage
  · rename_i hnone
    refine ⟨?_, by decide⟩
    rintro ⟨stream, offset, maximumLength, which, h1, h2, h3, -⟩
    exact hnone _ _ _ h1 h2 h3

theorem snapshot_decided (s : Shared) (params : Members) :
    Decided (ApiMethod.snapshot.Accepted p s params)
      (fun r => ApiMethod.snapshot.Result p s params r) (controllerSnapshot p s).2 := by
  unfold controllerSnapshot
  split
  · rename_i hnone
    refine ⟨?_, by decide⟩
    rintro ⟨t, r, ht, -⟩
    simp [hnone] at ht
  · rename_i t ht
    split
    · rename_i hnone
      refine ⟨?_, by decide⟩
      rintro ⟨t', r, ht', hr⟩
      obtain rfl : t = t' := Option.some.inj (ht.symm.trans ht')
      simp [hnone] at hr
    · rename_i r hr
      exact ⟨⟨t, r, ht, hr⟩, t, ht, hr⟩

theorem write_decided (s : Shared) (params : Members) :
    Decided (ApiMethod.write.Accepted p s params)
      (fun r => ApiMethod.write.Result p s params r) (controllerWrite p s params).2 := by
  unfold controllerWrite
  split_ifs with hdone
  · exact ⟨fun ⟨h, _⟩ => by simp [hdone] at h, by decide⟩
  · split
    · rename_i data hopen hdata
      have hwrite : (writeStdin s data).2 = (writeLoop s.stdin.answers data).error := by
        simp [writeStdin, hopen]
      split
      · rename_i s' errno heq
        refine ⟨?_, by decide⟩
        rintro ⟨-, -, data', hdata', herr⟩
        obtain rfl : data = data' := Option.some.inj (hdata.symm.trans hdata')
        rw [heq, herr] at hwrite
        simp at hwrite
      · rename_i s' heq
        rw [heq] at hwrite
        exact decided_empty ⟨by simpa using hdone, hopen, data, hdata, hwrite.symm⟩ fun r h => h
    · rename_i hnone
      refine ⟨?_, by decide⟩
      rintro ⟨-, hopen, data, hdata, -⟩
      exact hnone data hopen hdata

theorem closeInput_decided (s : Shared) (params : Members) :
    Decided (ApiMethod.closeInput.Accepted p s params)
      (fun r => ApiMethod.closeInput.Result p s params r) (controllerCloseInput s).2 := by
  unfold controllerCloseInput
  split_ifs with hterminal hopen
  · refine ⟨fun h => ?_, by decide⟩
    simp only [ApiMethod.Accepted] at h
    simp [h] at hterminal
  · exact decided_empty (by simpa [ApiMethod.Accepted] using hterminal) fun r h => h
  · exact decided_empty (by simpa [ApiMethod.Accepted] using hterminal) fun r h => h

theorem resize_decided (s : Shared) (params : Members) :
    Decided (ApiMethod.resize.Accepted p s params)
      (fun r => ApiMethod.resize.Result p s params r) (controllerResize p s params).2 := by
  unfold controllerResize
  split_ifs with hdone
  · exact ⟨fun ⟨h, _⟩ => by simp [hdone] at h, by decide⟩
  · split
    · rename_i rows columns hresizable hrows hcolumns
      split_ifs with hvalid
      · rw [Bool.and_eq_true] at hvalid
        split
        · rename_i s' errno heq
          refine ⟨?_, by decide⟩
          rintro ⟨-, -, rows', columns', h1, h2, -, -, hnone⟩
          obtain rfl : rows = rows' := Option.some.inj (hrows.symm.trans h1)
          obtain rfl : columns = columns' := Option.some.inj (hcolumns.symm.trans h2)
          rw [heq] at hnone
          simp at hnone
        · rename_i s' heq
          exact decided_empty ⟨by simpa using hdone, hresizable, rows, columns, hrows, hcolumns,
            hvalid.1, hvalid.2, by rw [heq]⟩ fun r h => h
      · refine ⟨?_, by decide⟩
        rintro ⟨-, -, rows', columns', h1, h2, h3, h4, -⟩
        obtain rfl : rows = rows' := Option.some.inj (hrows.symm.trans h1)
        obtain rfl : columns = columns' := Option.some.inj (hcolumns.symm.trans h2)
        simp [h3, h4] at hvalid
    · rename_i hnone
      refine ⟨?_, by decide⟩
      rintro ⟨-, hresizable, rows, columns, h1, h2, -⟩
      exact hnone rows columns hresizable h1 h2

theorem attachText_length_lt (h : channels < 2 ^ 64) : (attachText p channels).length < 512 := by
  have h1 := offsets_length_le p
  have h2 := dec_length_le_u64 h
  simp [attachText, ascii]
  omega

theorem fragmentValid_attachText (h : channels < 2 ^ 64) :
    fragmentValid (attachText p channels) = true := by
  have hlen := attachText_length_lt (p := p) h
  have hspell := spells_obj
    (.plain "accepted_channels" (by decide) (spells_uint h) :: offsetFields p)
  have htext : objectText ((Field.plain "accepted_channels" (by decide) (spells_uint h) ::
      offsetFields p).map Field.text) = attachText p channels := by
    simp [offsetFields, attachText, offsetsText, objectText, joinComma, memberText, Field.text,
      Field.plain, ascii]
  rw [htext] at hspell
  refine fragmentValid_obj hspell (by unfold maxDocumentBytes; omega) ?_ ?_ ?_
  · simp [offsetFields, maxObjectMembers]
  · simp only [offsetFields, Field.member, Field.plain, map_cons, map_nil]
    decide
  · simp [offsetFields, Field.member, Field.plain, validateValue, maxDepth]

theorem attachRequest_channels {mode : Bytes} (h : attachRequest params = some (channels, mode)) :
    channels ≤ allChannels := by
  simp only [attachRequest, Option.bind_eq_bind, Option.bind_eq_some_iff] at h
  obtain ⟨token, -, channels', -, mode', -, hif⟩ := h
  split_ifs at hif with hcond
  simp only [Option.pure_def, Option.some.injEq, Prod.mk.injEq] at hif
  obtain ⟨rfl, rfl⟩ := hif
  rw [← hcond.2.2.1]
  exact Nat.and_le_right

theorem attach_decided (s : Shared) (params : Members) :
    Decided (ApiMethod.attach.Accepted p s params)
      (fun r => ApiMethod.attach.Result p s params r) (controllerAttach p s params).2 := by
  unfold controllerAttach
  split
  · rename_i hnone
    refine ⟨?_, by decide⟩
    rintro ⟨channels, mode, h, -⟩
    simp [hnone] at h
  · rename_i channels mode hrequest
    dsimp only
    split_ifs with hzero
    · refine ⟨?_, by decide⟩
      rintro ⟨channels', mode', h, hne, -⟩
      obtain ⟨rfl, rfl⟩ : channels = channels' ∧ mode = mode' := by simpa [hrequest] using h
      exact hne hzero
    · split
      · rename_i s' errno heq
        refine ⟨?_, by decide⟩
        rintro ⟨channels', mode', h, -, hnone⟩
        obtain ⟨rfl, rfl⟩ : channels = channels' ∧ mode = mode' := by simpa [hrequest] using h
        rw [heq] at hnone
        simp at hnone
      · rename_i s' heq
        have hle := acceptedChannels_le p s channels mode
        have hall := attachRequest_channels hrequest
        have hlt : acceptedChannels p s channels mode < 2 ^ 64 := by unfold allChannels at hall; omega
        have hlen := attachText_length_lt (p := p) hlt
        exact ⟨⟨channels, mode, hrequest, hzero, by rw [heq]⟩, fragmentValid_attachText hlt,
          by omega⟩

theorem killGroup_eq (s : Shared) (signal : ℤ) :
    (killGroup s signal).2 = (nextAnswer s.system.kills).1 := by
  unfold killGroup
  dsimp only
  split <;> rename_i h <;> rw [h]

theorem signal_decided (s : Shared) (params : Members) :
    Decided (ApiMethod.signal.Accepted p s params)
      (fun r => ApiMethod.signal.Result p s params r) (controllerSignal p s params).2 := by
  unfold controllerSignal
  dsimp only
  split
  · rename_i number hdone hnumber
    have hkill := killGroup_eq s number
    split_ifs with hrange
    · refine ⟨?_, by decide⟩
      rintro ⟨-, number', h, h0, hlt, -⟩
      obtain rfl : number = number' := Option.some.inj (hnumber.symm.trans h)
      omega
    · split
      · rename_i s' errno heq
        refine ⟨?_, by decide⟩
        rintro ⟨-, number', h, -, -, hnone⟩
        rw [heq, hnone] at hkill
        simp at hkill
      · rename_i s' heq
        rw [heq] at hkill
        exact decided_empty ⟨hdone, number, hnumber, by omega, by omega, hkill.symm⟩ fun r h => h
  · rename_i hnone
    refine ⟨?_, by decide⟩
    rintro ⟨hdone, number, h, -⟩
    exact hnone number hdone h

theorem terminate_decided (s : Shared) (params : Members) :
    Decided (ApiMethod.terminate.Accepted p s params)
      (fun r => ApiMethod.terminate.Result p s params r) (controllerTerminate p s).2 := by
  have hkill := killGroup_eq s SIGTERM
  unfold controllerTerminate
  split_ifs with hdone
  · exact ⟨fun ⟨h, _⟩ => by simp [hdone] at h, by decide⟩
  · split
    · rename_i s' errno heq
      refine ⟨?_, by decide⟩
      rintro ⟨-, hnone⟩
      rw [heq, hnone] at hkill
      simp at hkill
    · rename_i s' heq
      rw [heq] at hkill
      exact decided_empty ⟨by simpa using hdone, hkill.symm⟩ fun r h => h

theorem eventsAfter_decided (s : Shared) (params : Members) :
    Decided (ApiMethod.eventsAfter.Accepted p s params)
      (fun r => ApiMethod.eventsAfter.Result p s params r) (controllerEventsAfter s params).2 := by
  unfold controllerEventsAfter
  split
  · rename_i after limit hafter hlimit
    split_ifs with hbig
    · refine ⟨?_, by decide⟩
      rintro ⟨after', limit', r, -, h, hle, -⟩
      obtain rfl : limit = limit' := Option.some.inj (hlimit.symm.trans h)
      omega
    · dsimp only [openLog]
      split
      · rename_i heq
        have hnone : eventsAfterJson (eventFile s) after limit = none := heq
        refine ⟨?_, by decide⟩
        rintro ⟨after', limit', r, h1, h2, -, hr⟩
        obtain rfl : after = after' := Option.some.inj (hafter.symm.trans h1)
        obtain rfl : limit = limit' := Option.some.inj (hlimit.symm.trans h2)
        simp [hnone] at hr
      · rename_i events heq
        have hevents : eventsAfterJson (eventFile s) after limit = some events := heq
        exact ⟨⟨after, limit, events, hafter, hlimit, by omega, hevents⟩, after, limit, hafter, hlimit,
          hevents⟩
  · rename_i hnone
    refine ⟨?_, by decide⟩
    rintro ⟨after, limit, r, h1, h2, -⟩
    exact hnone after limit h1 h2

theorem handle_decided (s : Shared) (params : Members) (m : ApiMethod) :
    Decided (m.Accepted p s params) (fun r => m.Result p s params r) (m.handle p s params).2 := by
  cases m with
  | status => exact status_decided s params
  | read => exact read_decided s params
  | snapshot => exact snapshot_decided s params
  | write => exact write_decided s params
  | closeInput => exact closeInput_decided s params
  | resize => exact resize_decided s params
  | attach => exact attach_decided s params
  | detach => exact decided_empty trivial fun r h => h
  | signal => exact signal_decided s params
  | terminate => exact terminate_decided s params
  | eventsAfter => exact eventsAfter_decided s params

/-- The result of an accepted request can be put into an answer. -/
def ApiMethod.Deliverable (p : Process) (s : Shared) (params : Members) (id : Bytes)
    (m : ApiMethod) : Prop :=
  idFits id ∧
  (m = .snapshot → ∀ t r, s.terminal = some t →
    snapshotJson t p.stdout.bytes.length responseMax = some r →
      t.rows * t.cols ≤ maxArrayElements ∧ t.Utf8 ∧
        (successText id r).length ≤ responseMax - 4) ∧
  (m = .eventsAfter → ∀ after limit, getU64 params (ascii "after_sequence") = some after →
    getU64 params (ascii "limit") = some limit →
      ∀ e ∈ shownEvents (eventFile s) after limit, EventUtf8 e)

/-- If the payload is a request that is accepted, its result can be delivered. -/
def Survivable (p : Process) (s : Shared) (payload : Bytes) : Prop :=
  ∀ envelope, decodeRequest payload = some envelope →
    ∀ m, ApiMethod.ofName envelope.method = some m → m.Accepted p s envelope.params →
      m.Deliverable p s envelope.params envelope.requestId

theorem decodeRequest_requestId {json : Bytes} {envelope : RequestEnvelope}
    (h : decodeRequest json = some envelope) : (cstr envelope.requestId).length ≤ 63 := by
  obtain ⟨root, -, hid, -⟩ := decodeRequest_fields h
  have hlen := getString_length hid
  have := cstr_length_le envelope.requestId
  omega

theorem successText_flat_length (hid : (cstr id).length ≤ 63) (hfits : idFits id)
    (hr : r.length ≤ 65536) : (successText id r).length ≤ responseMax - 4 := by
  have hlen := successText_length id r
  have hcstr := cstr_length_le r
  unfold idFits at hfits
  unfold responseMax
  omega

/-- Whether a result can be delivered is decided by the conditions on its method. -/
theorem result_deliverable {m : ApiMethod} (hid : (cstr id).length ≤ 63) (h :
    m.Result p s params r) :
    fragmentValid r = true ∧ idFits id ∧ (successText id r).length ≤ responseMax - 4 ↔
      m.Deliverable p s params id := by
  have hflat : m ≠ .snapshot → m ≠ .eventsAfter → fragmentValid r = true → r.length ≤ 65536 →
      (fragmentValid r = true ∧ idFits id ∧ (successText id r).length ≤ responseMax - 4 ↔
        m.Deliverable p s params id) := by
    intro h1 h2 hvalid hlen
    constructor
    · exact fun h => ⟨h.2.1, fun hm => absurd hm h1, fun hm => absurd hm h2⟩
    · exact fun h => ⟨hvalid, h.1, successText_flat_length hid h.1 hlen⟩
  cases m with
  | snapshot =>
    obtain ⟨t, ht, hr⟩ := h
    have hvalid := fragmentValid_snapshotJson hr (by decide) (log_fits p).1
    rw [hvalid]
    constructor
    · rintro ⟨⟨hcells, hutf⟩, hfits, hlen⟩
      refine ⟨hfits, fun _ t' r' ht' hr' => ?_, fun hm => by simp at hm⟩
      obtain rfl : t = t' := Option.some.inj (ht.symm.trans ht')
      obtain rfl : r = r' := Option.some.inj (hr.symm.trans hr')
      exact ⟨hcells, hutf, hlen⟩
    · intro h
      obtain ⟨hcells, hutf, hlen⟩ := h.2.1 rfl t r ht hr
      exact ⟨⟨hcells, hutf⟩, h.1, hlen⟩
  | eventsAfter =>
    obtain ⟨after, limit, hafter, hlimit, hr⟩ := h
    have hshort : r.length ≤ 65536 := by have := (eventsAfterJson_some hr).2; omega
    rw [fragmentValid_eventsAfterJson hr]
    constructor
    · rintro ⟨hutf, hfits, -⟩
      refine ⟨hfits, fun hm => by simp at hm, fun _ after' limit' h1 h2 => ?_⟩
      obtain rfl : after = after' := Option.some.inj (hafter.symm.trans h1)
      obtain rfl : limit = limit' := Option.some.inj (hlimit.symm.trans h2)
      exact hutf
    · intro h
      exact ⟨h.2.2 rfl after limit hafter hlimit, h.1, successText_flat_length hid h.1 hshort⟩
  | status | read | write | closeInput | resize | attach | detach | signal | terminate =>
    exact hflat (by simp) (by simp) h.1 h.2

/-- The dispatcher fails exactly on the accepted requests whose result cannot be delivered. -/
theorem dispatchApiRequest_ok_iff (hc : c.response = []) (s : Shared) :
    (dispatchApiRequest p c s).2.2 = true ↔ Survivable p s c.request := by
  unfold dispatchApiRequest
  split
  · rename_i hnone
    refine iff_of_true ?_ fun envelope h => by simp [hnone] at h
    dsimp only
    have hid : (cstr []).length ≤ 63 := by decide
    have hmessage : (ascii "invalid request envelope").length ≤ 64 := by decide
    exact enqueueApiError_ok hc .protocol false 0 hid hmessage
  · rename_i envelope hsome
    have hid := decodeRequest_requestId hsome
    have hsurvive : Survivable p s c.request ↔
        ∀ m, ApiMethod.ofName envelope.method = some m → m.Accepted p s envelope.params →
          m.Deliverable p s envelope.params envelope.requestId := by
      refine ⟨fun h => h envelope hsome, fun h envelope' h' => ?_⟩
      obtain rfl : envelope = envelope' := Option.some.inj (hsome.symm.trans h')
      exact h
    rw [hsurvive]
    dsimp only
    unfold handleMethod
    cases hmethod : ApiMethod.ofName envelope.method with
    | none =>
      refine iff_of_true ?_ fun m hm => by simp at hm
      have hmessage : (ascii "method is not implemented").length ≤ 64 := by decide
      exact enqueueApiError_ok hc .unsupported false 0 hid hmessage
    | some m =>
      have hdecided := handle_decided (p := p) s envelope.params m
      dsimp only
      cases hreply : (m.handle p s envelope.params).2 with
      | failure code message retryable errno =>
        rw [hreply] at hdecided
        refine iff_of_true (enqueueApiError_ok hc _ _ _ hid hdecided.2) ?_
        intro m' hm' haccepted
        obtain rfl := Option.some.inj hm'
        exact absurd haccepted hdecided.1
      | success r =>
        rw [hreply] at hdecided
        have hdeliver := result_deliverable hid hdecided.2
        rw [← enqueueApiSuccess_ok_iff hc _ _ hid] at hdeliver
        refine hdeliver.trans ⟨fun h m' hm' _ => ?_, fun h => h m rfl hdecided.1⟩
        obtain rfl := Option.some.inj hm'
        exact h

end Cubicle.Controller
