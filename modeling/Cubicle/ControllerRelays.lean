import Cubicle.AttachmentWrites
import Cubicle.ControllerResync
import Cubicle.SlotTables
import Cubicle.WriteFrames

/-!
# The connections a manager keeps to controllers

A manager connection relays calls to the controllers and keeps up to sixteen connections to them
open, by socket path. It reads one frame for each request. No path ever has two open entries. The
frame read is the answer to the request as long as the controller sends one frame for each request,
which it does for those that fit its request buffer.
-/

namespace Cubicle.Relays
open List

open ByteText JsonText JsonSpelling JsonEncoding RpcEnvelope RpcRoundTrips SlotTables
open Client Controller

/-- An open `manager_controller_cache_entry_t`. What the controller has sent on the connection and
the manager has not read yet is in no field of the source. -/
structure CacheEntry where
  socketPath : Bytes
  lastUsedMs : ℕ
  unread : Bytes
deriving DecidableEq

/-- The slots of `controller_cache`; those whose descriptor is -1 are free. -/
abbrev Cache := List (Option CacheEntry)

def cacheSize : ℕ := 16

def maxIdleMs : ℕ := 90000

def pathMax : ℕ := 4096

/-- The size of `sun_path`. -/
def sunPathMax : ℕ := 108

def proxyMaxFrame : ℕ := 4 * 1024 * 1024

/-- `manager_controller_cache_init` -/
def Cache.init : Cache := List.replicate cacheSize none

/-- The test of the idle time. A clock that failed reads zero, and the difference is one of
unsigned numbers. -/
def isExpired (nowMs lastUsedMs : ℕ) : Bool :=
  decide (0 < nowMs) && decide (0 < lastUsedMs) &&
    decide (maxIdleMs < (nowMs + 2 ^ 64 - lastUsedMs) % 2 ^ 64)

/-- What the loop of `manager_controller_cache_get` finds. -/
inductive Found
  | current (slot : ℕ)
  | expired (slot : ℕ)
  | absent (emptySlot : Option ℕ)
deriving DecidableEq

/-- The loop of `manager_controller_cache_get`, at a slot and with the first free slot before it. -/
def search (path : Bytes) (nowMs : ℕ) : Cache → ℕ → Option ℕ → Found
  | [], _, emptySlot => .absent emptySlot
  | none :: slots, i, emptySlot =>
    search path nowMs slots (i + 1) (if emptySlot.isNone then some i else emptySlot)
  | some entry :: slots, i, emptySlot =>
    if entry.socketPath = path then
      if isExpired nowMs entry.lastUsedMs then .expired i else .current i
    else search path nowMs slots (i + 1) emptySlot

/-- The end of `manager_controller_cache_get`, at the slot for the new connection. -/
def connectAt (cache : Cache) (i : ℕ) (path : Bytes) (nowMs : ℕ) (connects : Bool) :
    Cache × Option ℕ :=
  if path.length < sunPathMax ∧ connects then (cache.set i (some ⟨path, nowMs, []⟩), some i)
  else (cache.set i none, none)

/-- `manager_controller_cache_get`: the slot of an open connection to the path. -/
def cacheGet (cache : Cache) (path : Bytes) (nowMs : ℕ) (connects : Bool) : Cache × Option ℕ :=
  if pathMax ≤ path.length then (cache, none)
  else
    match search path nowMs cache 0 none with
    | .current i => (cache, some i)
    | .expired i => connectAt (cache.set i none) i path nowMs connects
    | .absent (some i) => connectAt cache i path nowMs connects
    | .absent none => connectAt (cache.set 0 none) 0 path nowMs connects

/-- A call to relay, with what its surroundings do: the clock before and after it, whether
`connect`, the two writes and the allocation succeed, what the controller sends for the request, and
how many bytes come before a read fails or times out. -/
structure RelayedCall where
  socketPath : Bytes
  method : Bytes
  params : Bytes
  nowMs : ℕ
  laterMs : ℕ
  connects : Bool
  wrote : Bool
  allocates : Bool
  sends : Bytes
  arrives : ℕ

def RelayedCall.request (call : RelayedCall) : Option Bytes :=
  rpcRequest apiMaxFrame relayId (ascii "manager-relay") call.method call.params

/-- `controller_rpc_read_all_timeout` -/
def readAll (stream : Bytes) (length : ℕ) : Option Bytes :=
  if length ≤ stream.length then some (stream.take length) else none

/-- The response `controller_rpc_call_fd` reads from what comes. -/
def readFrame (stream : Bytes) (allocates : Bool) : Option Bytes :=
  match readAll stream 4 with
  | none => none
  | some header =>
    if bigEndianValue header = 0 ∨ proxyMaxFrame < bigEndianValue header ∨ !allocates then none
    else readAll (stream.drop 4) (bigEndianValue header)

/-- `controller_rpc_call_fd`, on a connection with what is unread on it. -/
def controllerRpcCallFd (unread : Bytes) (call : RelayedCall) : Option Bytes :=
  if call.request.isSome ∧ call.wrote then
    readFrame ((unread ++ call.sends).take call.arrives) call.allocates
  else none

/-- `manager_connection_controller_rpc_call` -/
def relay (cache : Cache) (call : RelayedCall) : Cache × Option Bytes :=
  match cacheGet cache call.socketPath call.nowMs call.connects with
  | (cache, none) => (cache, none)
  | (cache, some i) =>
    match cache[i]?.join with
    | none => (cache, none)
    | some entry =>
      match controllerRpcCallFd entry.unread call with
      | none => (cache.set i none, none)
      | some response =>
        (cache.set i (some ⟨entry.socketPath, call.laterMs,
          (entry.unread ++ call.sends).drop (4 + response.length)⟩), some response)

/-- The calls one after the other, with the response returned for each. -/
def relayAll (cache : Cache) : List RelayedCall → Cache × List (Option Bytes)
  | [] => (cache, [])
  | call :: calls =>
    ((relayAll (relay cache call).1 calls).1, (relay cache call).2 ::
      (relayAll (relay cache call).1 calls).2)

variable {call : RelayedCall} {cache : Cache} {i : ℕ} {entry : CacheEntry} {c : ControlClient}
  {id : Bytes}

variable {request response : Bytes}

theorem controllerRpcCallFd_eq (hrequest : call.request = some request) (hwrote : call.wrote = true)
    (unread : Bytes) :
    controllerRpcCallFd unread call =
      readFrame ((unread ++ call.sends).take call.arrives) call.allocates := by
  rw [controllerRpcCallFd, hrequest, if_pos ⟨rfl, hwrote⟩]

theorem relay_eq {next : Cache}
    (hget : cacheGet cache call.socketPath call.nowMs call.connects = (next, some i))
    (hentry : next[i]?.join = some entry)
    (hcall : controllerRpcCallFd entry.unread call = some response) :
    relay cache call = (next.set i (some ⟨entry.socketPath, call.laterMs,
      (entry.unread ++ call.sends).drop (4 + response.length)⟩), some response) := by
  unfold relay
  rw [hget]
  dsimp only
  rw [hentry]
  dsimp only
  rw [hcall]

/-- No two open entries have the same path. -/
def Distinct (cache : Cache) : Prop := ((used cache).map CacheEntry.socketPath).Nodup

/-- No open entry but that of the slot has the path. -/
def OnlyAt (cache : Cache) (i : ℕ) (path : Bytes) : Prop :=
  i < cache.length ∧ ∀ entry ∈ used (cache.eraseIdx i), entry.socketPath ≠ path

theorem used_eraseIdx_sublist (cache : Cache) (i : ℕ) :
    (used (cache.eraseIdx i)).Sublist (used cache) :=
  (eraseIdx_sublist cache i).filterMap id

theorem used_clear_subset (h : entry ∈ used (cache.set i none)) : entry ∈ used cache := by
  by_cases hi : i < cache.length
  · exact (used_eraseIdx_sublist cache i).subset ((used_clear hi).subset h)
  · rwa [set_eq_of_length_le (not_lt.mp hi)] at h

theorem Distinct.clear (h : Distinct cache) (i : ℕ) : Distinct (cache.set i none) := by
  by_cases hi : i < cache.length
  · have hperm := (used_clear hi).map CacheEntry.socketPath
    exact hperm.nodup_iff.mpr (List.Nodup.sublist ((used_eraseIdx_sublist cache i).map _) h)
  · rwa [set_eq_of_length_le (not_lt.mp hi)]

theorem Distinct.set (h : Distinct cache) (honly : OnlyAt cache i entry.socketPath) :
    Distinct (cache.set i (some entry)) := by
  have hperm := (used_set honly.1 entry).map CacheEntry.socketPath
  refine hperm.nodup_iff.mpr (nodup_cons.mpr ⟨fun hmem => ?_, ?_⟩)
  · obtain ⟨other, hother, hpath⟩ := mem_map.mp hmem
    exact honly.2 other hother hpath
  · exact List.Nodup.sublist ((used_eraseIdx_sublist cache i).map _) h

theorem Distinct.onlyAt (h : Distinct cache) (hi : cache[i]? = some (some entry)) :
    OnlyAt cache i entry.socketPath := by
  have hperm := (used_taken hi).map CacheEntry.socketPath
  obtain ⟨hout, -⟩ := nodup_cons.mp (hperm.nodup_iff.mp h)
  refine ⟨(List.getElem?_eq_some_iff.mp hi).1, fun other hother hpath => hout ?_⟩
  rw [← hpath]
  exact mem_map_of_mem hother

/-- What the search finds: an entry of the path, or none and the free slot it passed. -/
theorem search_spec (path : Bytes) (nowMs : ℕ) (slots : Cache) :
    ∀ (before : Cache) (emptySlot : Option ℕ),
      (∀ entry ∈ used before, entry.socketPath ≠ path) →
      (∀ i, emptySlot = some i → i < before.length) →
      match search path nowMs slots before.length emptySlot with
      | .current i | .expired i => ∃ entry, (before ++ slots)[i]? = some (some entry) ∧
          entry.socketPath = path
      | .absent emptySlot => (∀ entry ∈ used (before ++ slots), entry.socketPath ≠ path) ∧
          ∀ i, emptySlot = some i → i < (before ++ slots).length := by
  induction slots with
  | nil =>
    intro before emptySlot hbefore hempty
    rw [search, append_nil]
    exact ⟨hbefore, hempty⟩
  | cons slot slots ih =>
    intro before emptySlot hbefore hempty
    have hshift : before ++ slot :: slots = (before ++ [slot]) ++ slots := by simp
    have hlength : before.length + 1 = (before ++ [slot]).length := by simp
    cases slot with
    | none =>
      rw [search, hshift, hlength]
      refine ih _ _ (fun entry hentry => hbefore entry (by simpa using hentry)) fun i hi => ?_
      rw [← hlength]
      split_ifs at hi with hnone
      · obtain rfl := Option.some.inj hi
        exact Nat.lt_succ_self _
      · exact (hempty i hi).trans (Nat.lt_succ_self _)
    | some entry =>
      rw [search]
      by_cases hpath : entry.socketPath = path
      · rw [if_pos hpath]
        split_ifs
        · exact ⟨entry, by simp, hpath⟩
        · exact ⟨entry, by simp, hpath⟩
      · rw [if_neg hpath, hshift, hlength]
        refine ih _ _ (fun other hother => ?_) fun i hi => ?_
        · rcases mem_append.mp (mem_used.mp hother) with hother | hother
          · exact hbefore other (mem_used.mpr hother)
          · obtain rfl : other = entry := by simpa using hother
            exact hpath
        · rw [← hlength]
          exact (hempty i hi).trans (Nat.lt_succ_self _)

/-- The slot that `manager_controller_cache_get` returns: an entry of the path that was open before,
or a new connection, on which nothing is unread. -/
inductive Obtained (cache : Cache) (path : Bytes) : Cache → ℕ → CacheEntry → Prop
  | kept {i : ℕ} {entry : CacheEntry} (slot : cache[i]? = some (some entry))
      (samePath : entry.socketPath = path) : Obtained cache path cache i entry
  | opened {i : ℕ} (only : OnlyAt cache i path) (nowMs : ℕ) :
      Obtained cache path (cache.set i (some ⟨path, nowMs, []⟩)) i ⟨path, nowMs, []⟩

theorem connectAt_cases (cache : Cache) (i : ℕ) (path : Bytes) (nowMs : ℕ) (connects : Bool) :
    connectAt cache i path nowMs connects = (cache.set i none, none) ∨
      connectAt cache i path nowMs connects =
        (cache.set i (some ⟨path, nowMs, []⟩), some i) := by
  unfold connectAt
  split_ifs
  · exact .inr rfl
  · exact .inl rfl

/-- `manager_controller_cache_get` frees a slot at most, or returns an entry of the path. -/
theorem cacheGet_cases (h : Distinct cache) (hsize : 0 < cache.length) (path : Bytes) (nowMs : ℕ)
    (connects : Bool) :
    cacheGet cache path nowMs connects = (cache, none) ∨
    (∃ i, cacheGet cache path nowMs connects = (cache.set i none, none)) ∨
    ∃ next i entry, cacheGet cache path nowMs connects = (next, some i) ∧
      Obtained cache path next i entry := by
  have hconnect : ∀ {i : ℕ} (slots : Cache), OnlyAt cache i path →
      (∀ slot, slots.set i slot = cache.set i slot) →
      (∃ i', connectAt slots i path nowMs connects = (cache.set i' none, none)) ∨
      ∃ next i' entry, connectAt slots i path nowMs connects = (next, some i') ∧
        Obtained cache path next i' entry := by
    intro i slots honly hset
    rcases connectAt_cases slots i path nowMs connects with hno | hyes
    · exact .inl ⟨i, by rw [hno, hset]⟩
    · exact .inr ⟨_, i, _, by rw [hyes, hset], .opened honly nowMs⟩
  have hspec := search_spec path nowMs cache [] none (by simp [used]) (by simp)
  rw [nil_append, length_nil] at hspec
  unfold cacheGet
  split_ifs
  · exact .inl rfl
  · cases hfound : search path nowMs cache 0 none with
    | current i =>
      rw [hfound] at hspec
      obtain ⟨entry, hslot, hpath⟩ := hspec
      exact .inr (.inr ⟨cache, i, entry, rfl, .kept hslot hpath⟩)
    | expired i =>
      rw [hfound] at hspec
      obtain ⟨entry, hslot, hpath⟩ := hspec
      exact .inr (hconnect _ (hpath ▸ h.onlyAt hslot) fun slot => set_set ..)
    | absent emptySlot =>
      rw [hfound] at hspec
      obtain ⟨hother, hlt⟩ := hspec
      have honly : ∀ i < cache.length, OnlyAt cache i path := fun i hi =>
        ⟨hi, fun entry hentry => hother entry ((used_eraseIdx_sublist cache i).subset hentry)⟩
      cases emptySlot with
      | none => exact .inr (hconnect _ (honly 0 hsize) fun slot => set_set ..)
      | some i => exact .inr (hconnect _ (honly i (hlt i rfl)) fun _ => rfl)

/-- A relayed call frees a slot at most, or reads its response from an entry of its path. -/
theorem relay_cases (h : Distinct cache) (hsize : 0 < cache.length) (call : RelayedCall) :
    relay cache call = (cache, none) ∨
    (∃ i, relay cache call = (cache.set i none, none)) ∨
    ∃ i entry response, OnlyAt cache i call.socketPath ∧ entry.socketPath = call.socketPath ∧
      (entry ∈ used cache ∨ entry.unread = []) ∧
      controllerRpcCallFd entry.unread call = some response ∧
      relay cache call = (cache.set i (some ⟨entry.socketPath, call.laterMs,
        (entry.unread ++ call.sends).drop (4 + response.length)⟩), some response) := by
  unfold relay
  rcases cacheGet_cases h hsize call.socketPath call.nowMs call.connects with
    hget | ⟨i, hget⟩ | ⟨next, i, entry, hget, hobtained⟩
  · exact .inl (by rw [hget])
  · exact .inr (.inl ⟨i, by rw [hget]⟩)
  · rw [hget]
    dsimp only
    have hnext : next[i]?.join = some entry ∧ OnlyAt cache i call.socketPath ∧
        entry.socketPath = call.socketPath ∧ (entry ∈ used cache ∨ entry.unread = []) ∧
        ∀ slot, next.set i slot = cache.set i slot := by
      cases hobtained with
      | kept hslot hpath =>
        exact ⟨by rw [hslot]; rfl, hpath ▸ h.onlyAt hslot, hpath,
          .inl (mem_used.mpr (mem_of_getElem? hslot)), fun _ => rfl⟩
      | opened honly nowMs =>
        exact ⟨by simp [getElem?_set_self honly.1], honly, rfl, .inr rfl,
          fun slot => set_set ..⟩
    obtain ⟨hjoin, honly, hpath, hunread, hset⟩ := hnext
    rw [hjoin]
    dsimp only
    cases hcall : controllerRpcCallFd entry.unread call with
    | none => exact .inr (.inl ⟨i, by rw [hset]⟩)
    | some response =>
      refine .inr (.inr ⟨i, entry, response, honly, hpath, hunread, hcall, ?_⟩)
      dsimp only
      rw [hset]

theorem Distinct.relay (h : Distinct cache) (hsize : 0 < cache.length) (call : RelayedCall) :
    Distinct (relay cache call).1 := by
  rcases relay_cases h hsize call with hrelay | ⟨i, hrelay⟩ |
    ⟨i, entry, response, honly, hpath, -, -, hrelay⟩
  · rwa [hrelay]
  · rw [hrelay]
    exact h.clear i
  · rw [hrelay]
    exact h.set (hpath ▸ honly)

theorem length_relay (h : Distinct cache) (hsize : 0 < cache.length) (call : RelayedCall) :
    (relay cache call).1.length = cache.length := by
  rcases relay_cases h hsize call with hrelay | ⟨i, hrelay⟩ |
    ⟨i, entry, response, -, -, -, -, hrelay⟩ <;> simp [hrelay]

theorem distinct_relayAll (h : Distinct cache) (hsize : 0 < cache.length) (calls :
    List RelayedCall) :
    Distinct (relayAll cache calls).1 := by
  induction calls generalizing cache with
  | nil => exact h
  | cons call calls ih =>
    exact ih (h.relay hsize call) ((length_relay h hsize call).symm ▸ hsize)

theorem distinct_init : Distinct Cache.init := nodup_nil

/-- What a controller sends for the frame of a request: its answer, and nothing when it did not
survive the request. -/
def sentFor (peer : Peer) (request : Bytes) : Bytes :=
  if (peer.serve request).ok then (peer.serve request).client.response else []

def frame (text : Bytes) : Bytes := bigEndian32 text.length ++ text

def AtMostOne (sent : Bytes) : Prop :=
  sent = [] ∨ ∃ text, text.length ≤ responseMax - 4 ∧ sent = frame text

theorem enqueueApiFrame_frame (hc : c.response = []) {json : Bytes}
    (hok : (enqueueApiFrame c json).2 = true) : AtMostOne (enqueueApiFrame c json).1.response := by
  have hlength := (enqueueApiFrame_ok_iff hc json).mp hok
  rw [enqueueApiFrame_eq hc hlength]
  exact .inr ⟨json, hlength, rfl⟩

theorem enqueueApiError_frame (hc : c.response = []) {message : Bytes} {code : ErrorCode}
    {retryable : Bool} {errno : Int32}
    (hok : (enqueueApiError c id code message retryable errno).2 = true) :
    AtMostOne (enqueueApiError c id code message retryable errno).1.response := by
  unfold enqueueApiError at hok ⊢
  split at hok
  · exact .inl hc
  · exact enqueueApiFrame_frame hc hok

theorem enqueueReply_frame (hc : c.response = []) {reply : Reply}
    (hok : (enqueueReply c id reply).2 = true) :
    AtMostOne (enqueueReply c id reply).1.response := by
  cases reply with
  | success result =>
    unfold enqueueReply enqueueApiSuccess at hok ⊢
    dsimp only at hok ⊢
    split at hok
    · exact .inl hc
    · exact enqueueApiFrame_frame hc hok
  | failure code message retryable errno => exact enqueueApiError_frame hc hok

theorem dispatchApiRequest_frame {p : Process} {s : Shared} (hc : c.response = [])
    (hok : (dispatchApiRequest p c s).2.2 = true) :
    AtMostOne (dispatchApiRequest p c s).1.response := by
  unfold dispatchApiRequest at hok ⊢
  cases hdecode : decodeRequest c.request with
  | none =>
    rw [hdecode] at hok
    dsimp only at hok ⊢
    exact enqueueApiError_frame hc hok
  | some envelope =>
    rw [hdecode] at hok
    exact enqueueReply_frame hc hok

/-- A controller sends at most one frame for a request that fits its buffer. -/
theorem sentFor_atMostOne (peer : Peer) (hpos : 0 < request.length)
    (hfits : request.length < requestMax - 4) : AtMostOne (sentFor peer request) := by
  have hmax : requestMax = 8192 := rfl
  unfold sentFor
  split_ifs with hok
  · obtain ⟨d, -, -, -, hresponse, hclient, -, hserved⟩ | ⟨hno, -⟩ :=
      peer.serve_case (show request.length < 2 ^ 24 by omega)
    · rw [hclient]
      exact dispatchApiRequest_frame hresponse (hserved.symm.trans hok)
    · exact absurd ⟨hpos, hfits⟩ hno
  · exact .inl rfl

/-- The controller sends what it has to send for a request that fits its request buffer. -/
def RelayedCall.Served (call : RelayedCall) : Prop :=
  ∀ request, call.request = some request → request.length < requestMax - 4 →
    ∃ peer : Peer, call.sends = sentFor peer request

/-- The request fits the request buffer of the controller. -/
def RelayedCall.Fits (call : RelayedCall) : Prop :=
  ∀ request, call.request = some request → request.length < requestMax - 4

/-- Nothing that was sent on an open connection is unread. -/
def InStep (cache : Cache) : Prop := ∀ entry ∈ used cache, entry.unread = []

theorem inStep_init : InStep Cache.init := by
  simp [InStep, Cache.init]

theorem InStep.clear (h : InStep cache) (i : ℕ) : InStep (cache.set i none) :=
  fun entry hentry => h entry (used_clear_subset hentry)

theorem InStep.set (h : InStep cache) (hi : i < cache.length) (hunread : entry.unread = []) :
    InStep (cache.set i (some entry)) := by
  intro other hother
  rcases mem_cons.mp ((used_set hi entry).subset hother) with rfl | hother
  · exact hunread
  · exact h other ((used_eraseIdx_sublist cache i).subset hother)

theorem RelayedCall.request_pos (h : call.request = some request) : 0 < request.length := by
  obtain ⟨rfl, -⟩ := rpcRequest_some h
  rw [requestText_length]
  omega

theorem RelayedCall.atMostOne (hserved : call.Served) (hfits : call.Fits)
    (h : call.request = some request) : AtMostOne call.sends := by
  obtain ⟨peer, hsends⟩ := hserved request h (hfits request h)
  rw [hsends]
  exact sentFor_atMostOne peer (request_pos h) (hfits request h)

theorem readFrame_frame {text : Bytes} {arrives : ℕ} {allocates : Bool}
    (hlength : text.length < 2 ^ 32)
    (h : readFrame ((frame text).take arrives) allocates = some response) : response = text := by
  have hsize : (bigEndian32 text.length).length = 4 := rfl
  unfold readFrame readAll at h
  split_ifs at h with hheader
  · have harrives : 4 ≤ arrives := by
      rw [length_take] at hheader
      omega
    have hvalue : bigEndianValue (((frame text).take arrives).take 4) = text.length := by
      rw [take_take, min_eq_left harrives, frame, ← hsize, take_left,
        bigEndianValue_bigEndian32 hlength]
    dsimp only at h
    rw [hvalue] at h
    split_ifs at h with hbad hbody
    rw [frame, drop_take, ← hsize, drop_left] at hbody h
    rw [← Option.some.inj h, take_take, length_take] at *
    rw [min_eq_left (by omega), take_length]

/-- The response to a call on a connection in step is what the controller sends for the call, and
the connection stays in step. -/
theorem controllerRpcCallFd_inStep (hserved : call.Served) (hfits : call.Fits)
    (h : controllerRpcCallFd [] call = some response) : call.sends = frame response := by
  have hmax : responseMax = 4194304 := rfl
  unfold controllerRpcCallFd at h
  split_ifs at h with hready
  obtain ⟨request, hrequest⟩ := Option.isSome_iff_exists.mp hready.1
  rw [nil_append] at h
  rcases RelayedCall.atMostOne hserved hfits hrequest with hnone | ⟨text, hlength, hone⟩
  · simp [hnone, readFrame, readAll] at h
  · rw [hone] at h ⊢
    rw [readFrame_frame (by omega) h]

theorem InStep.relay (h : InStep cache) (hdistinct : Distinct cache) (hsize : 0 < cache.length)
    (hserved : call.Served) (hfits : call.Fits) :
    InStep (relay cache call).1 ∧
      ∀ response, (relay cache call).2 = some response → call.sends = frame response := by
  rcases relay_cases hdistinct hsize call with hrelay | ⟨i, hrelay⟩ |
    ⟨i, entry, response, honly, -, hentry, hcall, hrelay⟩
  · rw [hrelay]
    exact ⟨h, by simp⟩
  · rw [hrelay]
    exact ⟨h.clear i, by simp⟩
  · have hunread : entry.unread = [] := hentry.elim (h entry) id
    rw [hunread] at hcall hrelay
    have hsends := controllerRpcCallFd_inStep hserved hfits hcall
    rw [hrelay]
    refine ⟨h.set honly.1 ?_, fun answer hanswer => ?_⟩
    · rw [hsends, nil_append]
      simp [frame, bigEndian32]
      omega
    · rw [hsends, Option.some.inj hanswer]

theorem responses_inStep (h : InStep cache) (hdistinct : Distinct cache) (hsize : 0 < cache.length)
    {calls : List RelayedCall} (hserved : ∀ call ∈ calls, call.Served)
    (hfits : ∀ call ∈ calls, call.Fits) :
    List.Forall₂ (fun call returned => ∀ response, returned = some response →
      call.sends = frame response) calls (relayAll cache calls).2 := by
  induction calls generalizing cache with
  | nil => exact .nil
  | cons call calls ih =>
    obtain ⟨hnext, hresponse⟩ := h.relay hdistinct hsize
      (hserved call mem_cons_self) (hfits call mem_cons_self)
    exact .cons hresponse (ih hnext (hdistinct.relay hsize call)
      ((length_relay hdistinct hsize call).symm ▸ hsize)
      (fun other hother => hserved other (mem_cons_of_mem call hother))
      (fun other hother => hfits other (mem_cons_of_mem call hother)))

/-- No run has two open entries of the same path, and in a run whose requests all fit the request
buffer of the controllers each response is what the controller sent for this very call. -/
theorem relayed_responses {calls : List RelayedCall} (hserved : ∀ call ∈ calls, call.Served) :
    ((used (relayAll Cache.init calls).1).map CacheEntry.socketPath).Nodup ∧
    ((∀ call ∈ calls, ∀ request, call.request = some request →
        request.length < requestMax - 4) →
      List.Forall₂ (fun call returned => ∀ response, returned = some response →
        call.sends = frame response) calls (relayAll Cache.init calls).2) :=
  ⟨distinct_relayAll distinct_init (by decide) calls, fun hfits =>
    responses_inStep inStep_init distinct_init (by decide) hserved hfits⟩

/-- A call to close the input, to a controller that has just accepted the connection. -/
def closeInput : RelayedCall where
  socketPath := ascii "/s"
  method := ascii "controller.close_input"
  params := ascii "\x7b\x7d"
  nowMs := 1
  laterMs := 1
  connects := true
  wrote := true
  allocates := true
  sends := sentFor (Peer.started []) (requestText relayId (ascii "manager-relay")
    (ascii "controller.close_input") (ascii "\x7b\x7d"))
  arrives := 1024

theorem closeInput_request : closeInput.request = some (requestText relayId
    (ascii "manager-relay") (ascii "controller.close_input") (ascii "\x7b\x7d")) := by
  decide +kernel

theorem closeInput_sends (h : closeInput.request = some request) :
    closeInput.sends = sentFor (Peer.started []) request := by
  rw [← Option.some.inj (closeInput_request.symm.trans h)]
  unfold closeInput
  dsimp only

theorem closeInput_served : closeInput.Served := fun _ hrequest _ =>
  ⟨Peer.started [], closeInput_sends hrequest⟩

def closed : Bytes := successText relayId (ascii "\x7b\x7d")

theorem closeInput_sends_closed : closeInput.sends = frame closed := by decide +kernel

/-- The entry of the connection, with what is unread on it. -/
def onConnection (unread : Bytes) : Cache := Cache.init.set 0 (some ⟨ascii "/s", 1, unread⟩)

theorem cacheGet_init : cacheGet Cache.init (ascii "/s") 1 true = (onConnection [], some 0) := by
  decide +kernel

theorem cacheGet_onConnection (unread : Bytes) :
    cacheGet (onConnection unread) (ascii "/s") 1 true = (onConnection unread, some 0) := by
  have hslots : onConnection unread =
      some ⟨ascii "/s", 1, unread⟩ :: List.replicate 15 none := rfl
  have hsearch : search (ascii "/s") 1 (onConnection unread) 0 none = .current 0 := by
    rw [hslots, search, if_pos rfl, if_neg (show ¬ isExpired 1 1 = true by decide)]
  rw [cacheGet, if_neg (by decide), hsearch]

theorem join_onConnection (unread : Bytes) :
    (onConnection unread)[0]?.join = some ⟨ascii "/s", 1, unread⟩ := rfl

theorem set_onConnection (unread others : Bytes) :
    (onConnection unread).set 0 (some ⟨ascii "/s", 1, others⟩) = onConnection others := rfl

/-- What is read for the call depends on what is unread before it. -/
theorem relay_closeInput {unread : Bytes}
    (hget : cacheGet cache (ascii "/s") 1 true = (onConnection unread, some 0))
    (hread : readFrame ((unread ++ frame closed).take 1024) true = some response) :
    relay cache closeInput =
      (onConnection ((unread ++ frame closed).drop (4 + response.length)), some response) := by
  have hcall : controllerRpcCallFd unread closeInput = some response := by
    rw [controllerRpcCallFd_eq closeInput_request rfl, closeInput_sends_closed]
    exact hread
  have hget' : cacheGet cache closeInput.socketPath closeInput.nowMs closeInput.connects =
      (onConnection unread, some 0) := hget
  rw [relay_eq hget' (join_onConnection unread) hcall, closeInput_sends_closed]
  exact congrArg (·, some response) (set_onConnection unread _)

/-- The second of two calls on one connection gets its own answer. -/
theorem closeInput_responses :
    (relayAll Cache.init [closeInput, closeInput]).2.all Option.isSome = true ∧
      List.Forall₂ (fun call returned => ∀ response, returned = some response →
          call.sends = frame response) [closeInput, closeInput]
        (relayAll Cache.init [closeInput, closeInput]).2 := by
  have hcalls : ∀ call ∈ [closeInput, closeInput], call = closeInput := by simp
  have hread : readFrame (([] ++ frame closed).take 1024) true = some closed := by decide +kernel
  have hrest : ([] ++ frame closed).drop (4 + closed.length) = [] := by decide +kernel
  refine ⟨?_, (relayed_responses fun call hcall => ?_).2 fun call hcall request hrequest => ?_⟩
  · simp only [relayAll, relay_closeInput cacheGet_init hread, hrest,
      relay_closeInput (cacheGet_onConnection []) hread]
    rfl
  · rw [hcalls call hcall]
    exact closeInput_served
  · rw [hcalls call hcall, closeInput_request] at hrequest
    rw [← Option.some.inj hrequest]
    decide +kernel

/-- The answer of a controller to a frame that does not fit its request buffer. -/
def rejection : Bytes :=
  errorText [] .resourceLimit (escapeText (cstr (ascii "invalid frame length"))) false 0

/-- Parameters with the same number three hundred and fifty times. -/
def numbers (text : Bytes) : Bytes :=
  ascii "\x7b\"n\":[" ++ text ++ (List.replicate 349 (0x2c :: text)).flatten ++ ascii "]\x7d"

/-- How `1e20` is printed by a manager that has read it. -/
def printedReal : Bytes := ascii "100000000000000000000.0"

/-- A call that came with `1e20` as its numbers and is relayed with their digits, in a request of
8536 bytes. -/
def overlongCall : RelayedCall where
  socketPath := ascii "/s"
  method := ascii "controller.write"
  params := numbers printedReal
  nowMs := 1
  laterMs := 1
  connects := true
  wrote := true
  allocates := true
  sends := frame rejection ++ frame rejection
  arrives := 1024

theorem overlongCall_request :
    ∃ request, overlongCall.request = some request ∧ request.length = 8536 ∧
      ascii "\x7b\"protocol_major\":0," <+: request := by
  have hid : (escapeText (cstr relayId)).length = 7 := by decide
  have hsession : (escapeText (cstr (ascii "manager-relay"))).length = 13 := by decide
  have hmethod : (escapeText (cstr (ascii "controller.write"))).length = 16 := by decide
  have hparams : (cstr (numbers printedReal)).length = 8407 := by decide +kernel
  have hvalid : fragmentValid (numbers printedReal) = true := by decide +kernel
  have hlength := requestText_length relayId (ascii "manager-relay") (ascii "controller.write")
    (numbers printedReal)
  rw [hid, hsession, hmethod, hparams] at hlength
  refine ⟨_, ?_, hlength, ?_⟩
  · unfold RelayedCall.request overlongCall
    dsimp only
    refine rpcRequest_ok hvalid (by omega) (by omega) (by omega) ?_
    rw [hlength]
    decide
  · simp only [requestText, append_assoc]
    exact List.IsPrefix.trans (by decide) (prefix_append _ _)

/-- The controller rejects the announced length, and then takes the first bytes of the request for
another one, so it sends two frames. -/
theorem overlongCall_sends :
    ((Session.opened.receiveAll 0 [(0, [0, 0x21, 0x58]),
      Session.readOf "\x7b\"protocol_major\":0,"]).observed 0).2.1 = overlongCall.sends := by
  decide +kernel

theorem relay_overlongCall :
    relay Cache.init overlongCall = (onConnection (frame rejection), some rejection) := by
  obtain ⟨request, hrequest, -⟩ := overlongCall_request
  have hread : readFrame (([] ++ (frame rejection ++ frame rejection)).take 1024) true =
      some rejection := by decide +kernel
  have hrest : ([] ++ (frame rejection ++ frame rejection)).drop (4 + rejection.length) =
      frame rejection := by decide +kernel
  have hcall : controllerRpcCallFd [] overlongCall = some rejection := by
    rw [controllerRpcCallFd_eq hrequest rfl]
    exact hread
  have hget : cacheGet Cache.init overlongCall.socketPath overlongCall.nowMs
      overlongCall.connects = (onConnection [], some 0) := cacheGet_init
  have hsends : overlongCall.sends = frame rejection ++ frame rejection := rfl
  rw [relay_eq hget (join_onConnection []) hcall, hsends, hrest]
  exact congrArg (·, some rejection) (set_onConnection [] _)

/-- A request that grows to 8536 bytes when it is relayed is answered by two frames. The first is
returned for its call, and the second for the next call, on the same connection. -/
theorem next_response_stale :
    (fragmentValid (numbers (ascii "1e20")) = true ∧ (numbers (ascii "1e20")).length = 1757) ∧
    (∃ request, overlongCall.request = some request ∧
      Session.bytesOf [(0, [0, 0x21, 0x58]), Session.readOf "\x7b\"protocol_major\":0,"] <+:
        frame request) ∧
    ((Session.opened.receiveAll 0 [(0, [0, 0x21, 0x58]),
      Session.readOf "\x7b\"protocol_major\":0,"]).observed 0).2.1 = overlongCall.sends ∧
    (∃ peer request, closeInput.request = some request ∧
      closeInput.sends = sentFor peer request) ∧
    (relayAll Cache.init [overlongCall, closeInput]).2 = [some rejection, some rejection] ∧
    closeInput.sends ≠ frame rejection := by
  refine ⟨by decide +kernel, ?_, overlongCall_sends,
    ⟨_, _, closeInput_request, closeInput_sends closeInput_request⟩, ?_, ?_⟩
  · obtain ⟨request, hrequest, hlength, rest, rfl⟩ := overlongCall_request
    refine ⟨_, hrequest, rest, ?_⟩
    rw [frame, hlength, ← append_assoc]
    exact congrArg (· ++ rest) (by decide +kernel)
  · have hread : readFrame ((frame rejection ++ frame closed).take 1024) true =
        some rejection := by decide +kernel
    simp only [relayAll, relay_overlongCall,
      relay_closeInput (cacheGet_onConnection (frame rejection)) hread]
  · rw [closeInput_sends_closed]
    decide +kernel

end Cubicle.Relays
