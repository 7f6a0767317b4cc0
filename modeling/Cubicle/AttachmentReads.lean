import Cubicle.OutputPages
import Cubicle.RpcMessages

/-!
# Reading through an attachment

`cubicle_attachment_read_stream` has two ways to the output of a process: a stream connection, on
which the bytes of the log arrive as they are, and `controller.read` requests, which answer with
pages of the log in JSON. A request asks for half of the buffer, so that a page whose bytes all take
two in the answer still fits; for a buffer of one byte there is no half.
-/

namespace Cubicle.Client
open List
open ByteText Utf8Sequences JsonText JsonSpelling JsonExtents JsonEncoding RpcEnvelope OutputPages

/-- `json_object_field`, with the JSON library's printer. -/
def jsonObjectField (copyValue : Json → Option Bytes) (json key : Bytes) : Option Bytes :=
  match parse json with
  | some (.obj members) => (getObject members key).bind fun object => copyValue (.obj object)
  | _ => none

def jsonU64Field (json key : Bytes) : Option ℕ :=
  match parse json with
  | some (.obj members) => getU64 members key
  | _ => none

def jsonBoolField (json key : Bytes) : Option Bool :=
  match parse json with
  | some (.obj members) => getBool members key
  | _ => none

/-- The data of a result, if it is a string. -/
def dataField (json : Bytes) : Option Bytes :=
  match parse json with
  | some (.obj members) =>
    match objectGet members (ascii "data") with
    | some (.str data) => some data
    | _ => none
  | _ => none

/-- The length a read with the given buffer asks for. -/
def readLength (length : ℕ) : ℕ :=
  let maximumLength := if 8192 < length then 8192 else length
  if 1 < maximumLength then maximumLength / 2 else maximumLength

/-- What is done with the response to a `controller.read` at an offset, for a buffer of the given
length: the data, the next offset and whether the stream ends there. -/
def readResponse (copyValue : Json → Option Bytes) (offset length : ℕ) (response : Bytes) :
    Except ErrorCode (Bytes × ℕ × Bool) :=
  match jsonObjectField copyValue response (ascii "result") with
  | none => .error .protocol
  | some result =>
    match jsonU64Field result (ascii "next_offset"),
        jsonBoolField result (ascii "end_of_stream") with
    | some next, some ends =>
      if next < offset then .error .protocol
      else match dataField result with
        | none => .error .protocol
        | some data => if length < data.length then .error .protocol else .ok (data, next, ends)
    | _, _ => .error .protocol

/-- How far a reader is: its offset, what it was given, and whether a read was refused with a
protocol error. -/
structure ReadState where
  offset : ℕ
  delivered : Bytes
  refused : Bool
deriving DecidableEq

def ReadState.start (offset : ℕ) : ReadState := ⟨offset, [], false⟩

/-- A read by request: how much of the log there is, the length of the buffer and the id of the
request. -/
structure RequestRead where
  available : ℕ
  length : ℕ
  requestId : Bytes

def RequestRead.page (r : RequestRead) (log : Bytes) (offset : ℕ) : Bytes :=
  pageOf (log.take r.available) offset (readLength r.length)

def RequestRead.response (r : RequestRead) (log : Bytes) (offset : ℕ) : Bytes :=
  successText r.requestId (pageJson offset (r.page log offset) (log.take r.available).length)

/-- `cubicle_attachment_read_stream` by a request that is answered. -/
def readByRequest (copyValue : Json → Option Bytes) (log : Bytes) (st : ReadState)
    (r : RequestRead) : ReadState :=
  match readResponse copyValue st.offset r.length (r.response log st.offset) with
  | .ok (data, next, _) => { st with offset := next, delivered := st.delivered ++ data }
  | .error _ => { st with refused := true }

/-- A read from the stream connection: how many bytes have arrived, and the length of the buffer. -/
structure StreamRead where
  arrived : ℕ
  length : ℕ

/-- `cubicle_attachment_read_stream` by `recv`; the connection carries the log from the offset
on. -/
def readByStream (log : Bytes) (st : ReadState) (r : StreamRead) : ReadState :=
  let data := (log.drop st.offset).take (min r.arrived r.length)
  { st with offset := st.offset + data.length, delivered := st.delivered ++ data }

/-- The printer of the JSON library prints the value of a page as a text of that value. -/
def PrintsPages (copyValue : Json → Option Bytes) : Prop :=
  ∀ offset page available, page.length ≤ 8192 → offset + page.length < 2 ^ 64 →
    ∃ t, copyValue (.obj (pageMembers offset page available)) = some t ∧
      Spells t (.obj (pageMembers offset page available)) ∧ t.length ≤ maxDocumentBytes

theorem readLength_le {length : ℕ} (h : 1 ≤ length) :
    1 ≤ readLength length ∧ readLength length ≤ length ∧ readLength length ≤ 8192 ∧
      (2 ≤ length → 2 * readLength length ≤ length) := by
  dsimp only [readLength]
  split_ifs <;> omega

/-- A response with a page is taken with the transcoded page, if that fits the buffer. -/
theorem readResponse_page {copyValue : Json → Option Bytes} (hcopy : PrintsPages copyValue)
    {requestId : Bytes} (hid : Text (cstr requestId)) (hidLength : (cstr requestId).length < 64)
    {offset : ℕ} {page : Bytes} (available length : ℕ) (hpage : page.length ≤ 8192)
    (hoffset : offset + page.length < 2 ^ 64) :
    readResponse copyValue offset length
        (successText requestId (pageJson offset page available)) =
      if length < (transcode page).length then .error .protocol
      else .ok (transcode page, offset + page.length, decide (available ≤ offset + page.length)) := by
  obtain ⟨t, hprint, hspells, hshort⟩ := hcopy offset page available hpage hoffset
  have hspellsPage := spells_pageJson available hoffset
  have hlength := pageJson_length_le available hoffset
  have hzero := zero_notMem_spelled hspellsPage
  have hresponse : parse (successText requestId (pageJson offset page available)) =
      some (.obj (successMembers (cstr requestId) (.obj (pageMembers offset page available)))) := by
    refine parse_successText hid hidLength ?_
      (validateValue_pageMembers (by decide) _ _ hpage) ?_
    · rw [cstr_eq_self hzero]
      exact padded_of_spells hspellsPage
    · have hescaped := escapeText_length_le (cstr requestId)
      rw [successText_length, cstr_eq_self hzero]
      unfold maxDocumentBytes
      omega
  have hparse : parse t = some (.obj (pageMembers offset page available)) := by
    rw [parse_spelled hspells hshort, if_pos (validateValue_pageMembers (by decide) _ _ hpage)]
  have hobject : jsonObjectField copyValue
      (successText requestId (pageJson offset page available)) (ascii "result") = some t := by
    rw [jsonObjectField, hresponse]
    simpa [getObject, objectGet, successMembers, ascii] using hprint
  have hnext : jsonU64Field t (ascii "next_offset") = some (offset + page.length) := by
    rw [jsonU64Field, hparse]
    simp [getU64, objectGet, pageMembers, ascii]
  have hends : jsonBoolField t (ascii "end_of_stream") =
      some (decide (available ≤ offset + page.length)) := by
    rw [jsonBoolField, hparse]
    simp [getBool, objectGet, pageMembers, ascii]
  have hdata : dataField t = some (transcode page) := by
    rw [dataField, hparse]
    simp [objectGet, pageMembers, ascii]
  rw [readResponse, hobject]
  dsimp only
  rw [hnext, hends]
  dsimp only
  rw [if_neg (by omega), hdata]

/-- Nothing was refused, and what was delivered is the log from the start to the offset. -/
structure ReadState.Exact (log : Bytes) (start : ℕ) (st : ReadState) : Prop where
  accepted : st.refused = false
  delivered_eq : st.delivered = (log.drop start).take (st.offset - start)
  offset_eq : st.offset = start + st.delivered.length

theorem ReadState.exact_start (log : Bytes) (start : ℕ) :
    (ReadState.start start).Exact log start :=
  ⟨rfl, by simp [ReadState.start], by simp [ReadState.start]⟩

variable {st : ReadState}

variable {log : Bytes} {start : ℕ}

/-- The bytes that come next in the log keep a reader exact. -/
theorem ReadState.Exact.advance {data : Bytes} (h : st.Exact log start)
    (hdata : data <+: log.drop st.offset) :
    ReadState.Exact log start
      { st with offset := st.offset + data.length, delivered := st.delivered ++ data } := by
  have hstart : start ≤ st.offset := by
    rw [h.offset_eq]
    omega
  refine ⟨h.accepted, ?_, ?_⟩
  · dsimp only
    rw [← stretch_append hstart hdata, ← h.delivered_eq]
  · dsimp only
    rw [length_append, ← Nat.add_assoc, ← h.offset_eq]

/-- Exact in every state on the way. -/
def AlwaysExact {ρ : Type} (read : ReadState → ρ → ReadState) (log : Bytes) (start : ℕ) :
    List ρ → ReadState → Prop
  | [], st => st.Exact log start
  | r :: rest, st => st.Exact log start ∧ AlwaysExact read log start rest (read st r)

theorem alwaysExact_stream (reads : List StreamRead) (h : st.Exact log start) :
    AlwaysExact (readByStream log) log start reads st := by
  induction reads generalizing st with
  | nil => exact h
  | cons r rest ih => exact ⟨h, ih (h.advance (List.take_prefix _ _))⟩

/-- Every page that is read on the way is UTF-8. -/
def PagesText (copyValue : Json → Option Bytes) (log : Bytes) : List RequestRead → ReadState → Prop
  | [], _ => True
  | r :: rest, st =>
    Text (r.page log st.offset) ∧ PagesText copyValue log rest (readByRequest copyValue log st r)

/-- Requests that can be made one after the other: there is always as much of the log as before. -/
structure Requests (log : Bytes) (reads : List RequestRead) (offset : ℕ) : Prop where
  length_pos : ∀ r ∈ reads, 1 ≤ r.length
  requestId : ∀ r ∈ reads, Text (cstr r.requestId) ∧ (cstr r.requestId).length < 64
  available : ∀ r ∈ reads, offset ≤ r.available ∧ r.available ≤ log.length
  grows : reads.Pairwise fun r r' => r.available ≤ r'.available

section Requested
variable {copyValue : Json → Option Bytes} (hcopy : PrintsPages copyValue) {log : Bytes}
  (hlog : log.length < 2 ^ 64) {r : RequestRead} {st : ReadState}

theorem RequestRead.page_length (r : RequestRead) (log : Bytes) (hlength : 1 ≤ r.length)
    (offset : ℕ) : (r.page log offset).length ≤ readLength r.length ∧
      (r.page log offset).length ≤ 8192 ∧ (r.page log offset).length ≤ r.available - offset := by
  have hpage := pageOf_length_le (log.take r.available) offset (readLength r.length)
  have hread := readLength_le hlength
  rw [length_take] at hpage
  rw [page]
  omega

include hcopy hlog in
theorem readByRequest_eq (hlength : 1 ≤ r.length) (hid : Text (cstr r.requestId))
    (hidLength : (cstr r.requestId).length < 64)
    (havailable : st.offset ≤ r.available ∧ r.available ≤ log.length) :
    readByRequest copyValue log st r =
      if r.length < (transcode (r.page log st.offset)).length then { st with refused := true }
      else { st with offset := st.offset + (r.page log st.offset).length,
                     delivered := st.delivered ++ transcode (r.page log st.offset) } := by
  obtain ⟨-, hpage, hrest⟩ := r.page_length log hlength st.offset
  rw [readByRequest, RequestRead.response,
    readResponse_page hcopy hid hidLength _ r.length hpage (by omega)]
  split_ifs
  · rfl
  · rfl

include hcopy hlog in
theorem exact_readByRequest_iff (h : st.Exact log start) (hlength : 1 ≤ r.length)
    (hid : Text (cstr r.requestId)) (hidLength : (cstr r.requestId).length < 64)
    (havailable : st.offset ≤ r.available ∧ r.available ≤ log.length) :
    (readByRequest copyValue log st r).Exact log start ↔ Text (r.page log st.offset) := by
  have hprefix : r.page log st.offset <+: log.drop st.offset :=
    (pageOf_prefix_drop _ _ _).trans ((List.take_prefix _ _).drop _)
  have hbounds := r.page_length log hlength st.offset
  have hread := readLength_le hlength
  have hnext := h.advance hprefix
  rw [readByRequest_eq hcopy hlog hlength hid hidLength havailable]
  generalize r.page log st.offset = page at hprefix hbounds hnext ⊢
  constructor
  · intro hexact
    split_ifs at hexact
    · exact absurd hexact.accepted (by simp)
    · have hdelivered : st.delivered ++ transcode page = st.delivered ++ page :=
        hexact.delivered_eq.trans hnext.delivered_eq.symm
      exact (transcode_eq_self_iff page).mp (append_cancel_left hdelivered)
  · intro htext
    rw [(transcode_eq_self_iff page).mpr htext, if_neg (by omega)]
    exact hnext

include hcopy hlog in
theorem alwaysExact_requests_iff {reads : List RequestRead} (h : st.Exact log start)
    (hreads : Requests log reads st.offset) :
    AlwaysExact (readByRequest copyValue log) log start reads st ↔
      PagesText copyValue log reads st := by
  induction reads generalizing st with
  | nil => exact iff_of_true h trivial
  | cons r rest ih =>
    obtain ⟨hlength, hids, havailable, hgrows⟩ := hreads
    rw [forall_mem_cons] at hlength hids havailable
    rw [pairwise_cons] at hgrows
    have hstep := exact_readByRequest_iff hcopy hlog h hlength.1 hids.1.1 hids.1.2 havailable.1
    -- the next offset is still within what the later reads see
    have hlater : (readByRequest copyValue log st r).offset ≤ r.available := by
      obtain ⟨-, -, hpage⟩ := r.page_length log hlength.1 st.offset
      rw [readByRequest_eq hcopy hlog hlength.1 hids.1.1 hids.1.2 havailable.1]
      split_ifs
      · exact havailable.1.1
      · dsimp only
        omega
    have hrest : Requests log rest (readByRequest copyValue log st r).offset :=
      ⟨hlength.2, hids.2, fun r' hr' => ⟨hlater.trans (hgrows.1 r' hr'), (havailable.2 r' hr').2⟩,
        hgrows.2⟩
    constructor
    · rintro ⟨-, hall⟩
      have hnext : (readByRequest copyValue log st r).Exact log start := by
        cases rest with
        | nil => exact hall
        | cons r' rest => exact hall.1
      exact ⟨hstep.mp hnext, (ih hnext hrest).mp hall⟩
    · rintro ⟨htext, hall⟩
      have hnext := hstep.mpr htext
      exact ⟨h, (ih hnext hrest).mpr hall⟩

include hcopy hlog in
/-- The two ways of reading deliver the same bytes, with the right offsets and without refusing any,
exactly when every page the requests read is UTF-8. -/
theorem read_modes_agree_iff {start : ℕ} {requests : List RequestRead}
    (hrequests : Requests log requests start) (reads : List StreamRead) :
    (AlwaysExact (readByRequest copyValue log) log start requests (.start start) ∧
      AlwaysExact (readByStream log) log start reads (.start start)) ↔
    PagesText copyValue log requests (.start start) := by
  rw [alwaysExact_requests_iff hcopy hlog (ReadState.exact_start log start) hrequests]
  exact and_iff_left (alwaysExact_stream reads (ReadState.exact_start log start))

end Requested

/-- Print the value of a page, with its members in their order. -/
def printPage : Json → Option Bytes
  | .obj [(_, .uint start), (_, .uint next), (_, .bool ends), (_, .str data), (_, .uint length)] =>
    some (ascii "\x7b\"start_offset\":" ++ dec start ++ ascii ",\"next_offset\":" ++ dec next ++
      ascii ",\"end_of_stream\":" ++ boolText ends ++ ascii ",\"data\":" ++ appendStringN data ++
      ascii ",\"length\":" ++ dec length ++ ascii "\x7d")
  | _ => none

theorem printsPages_printPage : PrintsPages printPage := by
  intro offset page available hpage h
  have htranscode : transcode (transcode page) = transcode page :=
    (transcode_eq_self_iff _).mpr (text_transcodeFrom _ _)
  have hspells := spells_obj
    [.plain "start_offset" (by decide) (spells_uint (n := offset) (by omega)),
      .plain "next_offset" (by decide) (spells_uint (n := offset + page.length) h),
      .plain "end_of_stream" (by decide)
        (spells_bool (decide (available ≤ offset + page.length))),
      .plain "data" (by decide) (spells_appendStringN (transcode page)),
      .plain "length" (by decide) (spells_uint (n := page.length) (by omega))]
  refine ⟨_, rfl, ?_, ?_⟩
  · convert hspells using 1
    · simp [objectText, joinComma, memberText, Field.text, Field.plain, ascii, boolText]
    · simp [pageMembers, Field.member, Field.plain, htranscode]
  · have h1 := dec_length_le_u64 (n := offset) (by omega)
    have h2 := dec_length_le_u64 h
    have h3 := dec_length_le_u64 (n := page.length) (by omega)
    have h4 := appendStringN_length_le (transcode page)
    have h5 := boolText_length_le (decide (available ≤ offset + page.length))
    have h6 := transcode_length_le page
    simp [ascii, maxDocumentBytes]
    omega

/-- A log of two letters, read through a buffer of two bytes. -/
theorem read_modes_agree_hi :
    AlwaysExact (readByRequest printPage (ascii "hi")) (ascii "hi") 0
      [⟨2, 2, ascii "req-1"⟩, ⟨2, 2, ascii "req-2"⟩] (.start 0) ∧
    AlwaysExact (readByStream (ascii "hi")) (ascii "hi") 0 [⟨1, 2⟩, ⟨1, 2⟩] (.start 0) := by
  have hids : ∀ id ∈ [ascii "req-1", ascii "req-2"], Text (cstr id) ∧ (cstr id).length < 64 := by
    simp only [forall_mem_cons, not_mem_nil, false_imp_iff, implies_true, and_true]
    exact ⟨⟨text_ascii (by decide +kernel), by decide⟩, text_ascii (by decide +kernel), by decide⟩
  have hrequests : Requests (ascii "hi") [⟨2, 2, ascii "req-1"⟩, ⟨2, 2, ascii "req-2"⟩] 0 := by
    simp only [forall_mem_cons] at hids
    refine ⟨by simp, ?_, by simp [ascii], by simp⟩
    simp only [forall_mem_cons]
    exact ⟨hids.1, hids.2.1, by simp⟩
  have hoffset : (readByRequest printPage (ascii "hi") (.start 0) ⟨2, 2, ascii "req-1"⟩).offset =
      1 := by
    decide +kernel
  refine (read_modes_agree_iff printsPages_printPage (by decide) hrequests _).mpr ⟨?_, ?_, trivial⟩
  · exact text_ascii (by decide +kernel)
  · rw [hoffset]
    exact text_ascii (by decide +kernel)

/-- One byte that is not UTF-8: a request delivers two bytes for it, or with a buffer of one byte
refuses it; the stream delivers it. -/
theorem read_modes_differ :
    readByRequest printPage [0xff] (.start 0) ⟨1, 2, ascii "req-1"⟩ = ⟨1, [0xc3, 0xbf], false⟩ ∧
    readByRequest printPage [0xff] (.start 0) ⟨1, 1, ascii "req-1"⟩ = ⟨0, [], true⟩ ∧
    readByStream [0xff] (.start 0) ⟨1, 1⟩ = ⟨1, [0xff], false⟩ := by
  decide +kernel

end Cubicle.Client
