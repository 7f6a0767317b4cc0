import Cubicle.ControllerState
import Cubicle.PrefixCodes

/-!
# What authentication signs

The byte strings that a client signs when it authenticates, and that it authenticates when it
resumes a session. Both are sequences of fields of known size and of strings behind their length.
-/

namespace Cubicle.Auth
open ByteText Controller PrefixCodes List

/-- An array of bytes, all of which count. -/
@[ext] structure Block (n : ℕ) where
  bytes : Bytes
  length_eq : bytes.length = n

/-- A character array, of which the string up to the first NUL counts. -/
@[ext] structure CharArray (size : ℕ) where
  text : Bytes
  zero_notMem : 0 ∉ text
  length_lt : text.length < size

/-- `cubicle_auth_transcript_t`. -/
@[ext] structure Transcript where
  protocolMajor : UInt32
  protocolMinor : UInt32
  managerPublicKey : Block 32
  clientPublicKey : Block 32
  clientNonce : Block 32
  managerNonce : Block 32
  connectionId : Block 16
  capabilities : UInt64
  managerGeneration : UInt64
  peerUid : UInt32
  peerGid : UInt32
  workspaceRef : CharArray 256

/-- `cubicle_auth_resume_t`. -/
@[ext] structure Resume where
  managerKeyId : CharArray 33
  sessionId : CharArray 33
  clientNonce : Block 32
  serverNonce : Block 32
  connectionId : Block 16
  managerGeneration : UInt64
  peerUid : UInt32
  peerGid : UInt32

def appendBytes (size : ℕ) (used data : Bytes) : Option Bytes :=
  if size - used.length < data.length then none else some (used ++ data)

def u32 (value : UInt32) : Bytes := bigEndian32 value.toNat

/-- The high half comes first. -/
def u64 (value : UInt64) : List Bytes :=
  [bigEndian32 (value.toNat / 2 ^ 32), bigEndian32 (value.toNat % 2 ^ 32)]

/-- `append_string`: the length, and the bytes if there are any. -/
def string (text : Bytes) : List Bytes := [u32 (UInt32.ofNat text.length), text]

def transcriptDomain : Bytes := ascii "CUBICLE-AUTH-V0" ++ [0]

def resumeDomain : Bytes := ascii "CUBICLE-RESUME-V0" ++ [0]

/-- What `cubicle_auth_encode_transcript` appends, in its order. -/
def Transcript.pieces (t : Transcript) : List Bytes :=
  [transcriptDomain, u32 t.protocolMajor, u32 t.protocolMinor, t.managerPublicKey.bytes,
    t.clientPublicKey.bytes, t.clientNonce.bytes, t.managerNonce.bytes, t.connectionId.bytes] ++
    u64 t.capabilities ++ u64 t.managerGeneration ++ u64 t.peerUid.toUInt64 ++
    u64 t.peerGid.toUInt64 ++ string t.workspaceRef.text

/-- What `cubicle_auth_encode_resume` appends, in its order. -/
def Resume.pieces (r : Resume) : List Bytes :=
  [resumeDomain] ++ string r.managerKeyId.text ++ string r.sessionId.text ++
    [r.clientNonce.bytes, r.serverNonce.bytes, r.connectionId.bytes] ++
    u64 r.managerGeneration ++ u64 r.peerUid.toUInt64 ++ u64 r.peerGid.toUInt64

def encodeTranscript (size : ℕ) (t : Transcript) : Option Bytes :=
  t.pieces.foldlM (appendBytes size) []

def encodeResume (size : ℕ) (r : Resume) : Option Bytes :=
  r.pieces.foldlM (appendBytes size) []

variable {size : ℕ}

theorem foldlM_appendBytes {pieces : List Bytes} {used : Bytes}
    (h : used.length + pieces.flatten.length ≤ size) :
    pieces.foldlM (appendBytes size) used = some (used ++ pieces.flatten) := by
  induction pieces generalizing used with
  | nil => simp
  | cons piece rest ih =>
    simp only [flatten_cons, length_append] at h
    have hfits : ¬ size - used.length < piece.length := by omega
    have happend : appendBytes size used piece = some (used ++ piece) := if_neg hfits
    rw [foldlM_cons, happend]
    change List.foldlM (appendBytes size) (used ++ piece) rest = _
    rw [ih (by rw [length_append]; omega), flatten_cons, append_assoc]

@[simp] theorem bigEndian32_length (n : ℕ) : (bigEndian32 n).length = 4 := rfl

@[simp] theorem u32_length (value : UInt32) : (u32 value).length = 4 := rfl

theorem Transcript.length_le (t : Transcript) : t.pieces.flatten.length ≤ 459 := by
  have hdomain : transcriptDomain.length = 16 := rfl
  have href := t.workspaceRef.length_lt
  simp only [pieces, u64, string, flatten_append, flatten_cons, flatten_nil,
    length_append, length_nil, u32_length, bigEndian32_length, hdomain,
    Block.length_eq]
  omega

theorem Resume.length_le (r : Resume) : r.pieces.flatten.length ≤ 194 := by
  have hdomain : resumeDomain.length = 18 := rfl
  have hkey := r.managerKeyId.length_lt
  have hsession := r.sessionId.length_lt
  simp only [pieces, u64, string, flatten_append, flatten_cons, flatten_nil,
    length_append, length_nil, u32_length, bigEndian32_length, hdomain,
    Block.length_eq]
  omega

theorem encodeTranscript_eq (t : Transcript) :
    encodeTranscript 512 t = some t.pieces.flatten := by
  have hlength := t.length_le
  exact foldlM_appendBytes (by simp only [length_nil]; omega)

theorem encodeResume_eq (r : Resume) : encodeResume 512 r = some r.pieces.flatten := by
  have hlength := r.length_le
  exact foldlM_appendBytes (by simp only [length_nil]; omega)

theorem bigEndian32_inj {m n : ℕ} (hm : m < 2 ^ 32) (hn : n < 2 ^ 32)
    (h : bigEndian32 m = bigEndian32 n) : m = n := by
  simp only [bigEndian32, List.cons.injEq, and_true] at h
  obtain ⟨h1, h2, h3, h4⟩ := h
  have h1 := congrArg UInt8.toNat h1
  have h2 := congrArg UInt8.toNat h2
  have h3 := congrArg UInt8.toNat h3
  have h4 := congrArg UInt8.toNat h4
  simp only [UInt8.toNat_ofNat'] at h1 h2 h3 h4
  omega

theorem selfDelimiting_u32 : SelfDelimiting u32 := by
  refine selfDelimiting_of_length ?_ u32_length
  intro a b h
  exact UInt32.toNat_inj.mp (bigEndian32_inj a.toNat_lt b.toNat_lt h)

theorem selfDelimiting_u64 : SelfDelimiting fun value => (u64 value).flatten := by
  refine selfDelimiting_of_length ?_ (n := 8) fun _ => rfl
  intro a b h
  have ha := a.toNat_lt
  have hb := b.toNat_lt
  simp only [u64, flatten_cons, flatten_nil, append_nil] at h
  obtain ⟨hhigh, hlow⟩ := append_inj h rfl
  have hhigh := bigEndian32_inj (by omega) (by omega) hhigh
  have hlow := bigEndian32_inj (by omega) (by omega) hlow
  exact UInt64.toNat_inj.mp (by omega)

theorem selfDelimiting_block (n : ℕ) : SelfDelimiting (Block.bytes (n := n)) :=
  selfDelimiting_of_length (fun _ _ h => Block.ext h) Block.length_eq

theorem selfDelimiting_charArray (hsize : size ≤ 2 ^ 32) :
    SelfDelimiting fun a : CharArray size => (string a.text).flatten := by
  have hcounted : SelfDelimiting fun a : CharArray size =>
      u32 (UInt32.ofNat a.text.length) ++ a.text := by
    refine selfDelimiting_u32.counted (fun _ _ h => CharArray.ext h) ?_
    intro a b h
    have ha := a.length_lt
    have hb := b.length_lt
    have h := congrArg UInt32.toNat h
    simp only [UInt32.toNat_ofNat'] at h
    omega
  simpa [string] using hcounted

theorem selfDelimiting_domain (domain : Bytes) : SelfDelimiting fun _ : Unit => domain :=
  selfDelimiting_of_length (fun _ _ _ => rfl) fun _ => rfl

theorem Transcript.pieces_injective : Function.Injective fun t : Transcript => t.pieces.flatten := by
  intro t t' h
  simp only [pieces, flatten_append, flatten_cons, flatten_nil, append_nil,
    append_assoc] at h
  obtain ⟨-, h⟩ := selfDelimiting_domain transcriptDomain () () _ _ h
  obtain ⟨hmajor, h⟩ := selfDelimiting_u32 _ _ _ _ h
  obtain ⟨hminor, h⟩ := selfDelimiting_u32 _ _ _ _ h
  obtain ⟨hmanagerKey, h⟩ := selfDelimiting_block 32 _ _ _ _ h
  obtain ⟨hclientKey, h⟩ := selfDelimiting_block 32 _ _ _ _ h
  obtain ⟨hclientNonce, h⟩ := selfDelimiting_block 32 _ _ _ _ h
  obtain ⟨hmanagerNonce, h⟩ := selfDelimiting_block 32 _ _ _ _ h
  obtain ⟨hconnection, h⟩ := selfDelimiting_block 16 _ _ _ _ h
  obtain ⟨hcapabilities, h⟩ := selfDelimiting_u64 _ _ _ _ h
  obtain ⟨hgeneration, h⟩ := selfDelimiting_u64 _ _ _ _ h
  obtain ⟨huid, h⟩ := selfDelimiting_u64 _ _ _ _ h
  obtain ⟨hgid, h⟩ := selfDelimiting_u64 _ _ _ _ h
  have href := (selfDelimiting_charArray (by decide)).injective h
  exact Transcript.ext hmajor hminor hmanagerKey hclientKey hclientNonce hmanagerNonce hconnection
    hcapabilities hgeneration (UInt32.toUInt64_inj.mp huid) (UInt32.toUInt64_inj.mp hgid) href

theorem Resume.pieces_injective : Function.Injective fun r : Resume => r.pieces.flatten := by
  intro r r' h
  simp only [pieces, flatten_append, flatten_cons, flatten_nil, append_nil,
    append_assoc] at h
  obtain ⟨-, h⟩ := selfDelimiting_domain resumeDomain () () _ _ h
  obtain ⟨hkey, h⟩ := selfDelimiting_charArray (by decide) _ _ _ _ h
  obtain ⟨hsession, h⟩ := selfDelimiting_charArray (by decide) _ _ _ _ h
  obtain ⟨hclientNonce, h⟩ := selfDelimiting_block 32 _ _ _ _ h
  obtain ⟨hserverNonce, h⟩ := selfDelimiting_block 32 _ _ _ _ h
  obtain ⟨hconnection, h⟩ := selfDelimiting_block 16 _ _ _ _ h
  obtain ⟨hgeneration, h⟩ := selfDelimiting_u64 _ _ _ _ h
  obtain ⟨huid, h⟩ := selfDelimiting_u64 _ _ _ _ h
  have hgid := selfDelimiting_u64.injective h
  exact Resume.ext hkey hsession hclientNonce hserverNonce hconnection hgeneration
    (UInt32.toUInt64_inj.mp huid) (UInt32.toUInt64_inj.mp hgid)

theorem pieces_ne (t : Transcript) (r : Resume) : t.pieces.flatten ≠ r.pieces.flatten := by
  intro h
  have htranscript : t.pieces.flatten.take 9 = ascii "CUBICLE-A" := rfl
  have hresume : r.pieces.flatten.take 9 = ascii "CUBICLE-R" := rfl
  rw [h, hresume] at htranscript
  exact absurd htranscript (by decide)

/-- Messages are determined by what is signed, neither kind passes for the other, and the
buffers of the manager hold them all. -/
theorem encodings_unambiguous :
    Function.Injective (encodeTranscript 512) ∧ Function.Injective (encodeResume 512) ∧
      (∀ t r, encodeTranscript 512 t ≠ encodeResume 512 r) ∧
      (∀ t, (encodeTranscript 512 t).isSome) ∧ ∀ r, (encodeResume 512 r).isSome := by
  refine ⟨?_, ?_, ?_, ?_, ?_⟩
  · intro t t' h
    rw [encodeTranscript_eq, encodeTranscript_eq] at h
    exact Transcript.pieces_injective (Option.some.inj h)
  · intro r r' h
    rw [encodeResume_eq, encodeResume_eq] at h
    exact Resume.pieces_injective (Option.some.inj h)
  · intro t r h
    rw [encodeTranscript_eq, encodeResume_eq] at h
    exact pieces_ne t r (Option.some.inj h)
  · intro t
    rw [encodeTranscript_eq, Option.isSome_some]
  · intro r
    rw [encodeResume_eq, Option.isSome_some]

end Cubicle.Auth
