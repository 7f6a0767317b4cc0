import Cubicle.ManagerState

/-!
# Requests to the manager

A request first makes its checks, each with the reply of its own that ends the request, and then
acts. What it did is its outcome: the registry afterwards, what it did to controllers and to the
manager itself, and the reply.
-/

namespace Cubicle.Manager
open ByteText CStrings RecordFiles JsonText JsonEncoding RpcEnvelope

/-- What a request does outside the registry. -/
inductive Effect
  | launch (processId : Bytes)
  | terminate (process : ProcessRecord)
  | signal (process : ProcessRecord) (number : ℤ)
  | removeState (processId : Bytes)
  | relay (process : ProcessRecord) (method : Bytes)
  | shutdown
deriving DecidableEq

/-- The error reply of a check that fails. -/
structure Refusal where
  code : ErrorCode
  message : Bytes
  retryable : Bool
  systemErrno : Int32
deriving DecidableEq

def Refusal.refusal (code : ErrorCode) (message : String) : Refusal := ⟨code, ascii message, false, 0⟩

def Refusal.ioFailure (message : String) (errno : Int32) : Refusal :=
  ⟨.io, ascii message, true, errno⟩

def Refusal.reply (r : Refusal) : Reply := .failure r.code r.message r.retryable r.systemErrno

@[simp] theorem Refusal.reply_isSuccess (r : Refusal) : r.reply.isSuccess = false := rfl

structure Outcome where
  reg : Registry
  effects : List Effect
  reply : Reply

/-- A reply with nothing done. -/
def Outcome.only (reg : Registry) (reply : Reply) : Outcome := ⟨reg, [], reply⟩

/-- The action runs when all checks pass. -/
def guarded {α : Type} (reg : Registry) (checks : Except Refusal α) (act : α → Outcome) : Outcome :=
  match checks with
  | .error r => .only reg r.reply
  | .ok a => act a

def orRefuse {α : Type} (x : Option α) (refusal : Refusal) : Except Refusal α :=
  match x with
  | some a => .ok a
  | none => .error refusal

def require (condition : Bool) (refusal : Refusal) : Except Refusal Unit :=
  if condition then .ok () else .error refusal

def lockState (env : Surroundings) : Except Refusal Unit :=
  match env.lock with
  | some errno => .error (.ioFailure "failed to lock manager state" errno)
  | none => .ok ()

/-- `cubicle_generate_hex_id` for a new record. -/
def drawId (env : Surroundings) (message : String) : Except Refusal Unit :=
  match env.idFailure with
  | some errno => .error ⟨.internal, ascii message, false, errno⟩
  | none => .ok ()

/-- The workspace a request names, by id or by name. -/
def namedWorkspace (reg : Registry) (ref : Bytes) : Except Refusal WorkspaceRecord :=
  orRefuse (findWorkspace reg ref) (.refusal .notFound "workspace not found")

/-- The workspace a request may name; an empty reference names none. -/
def scopeOf (reg : Registry) (ref : Option Bytes) : Except Refusal (Option Bytes) :=
  match ref with
  | none | some [] => .ok none
  | some ref => do return some (← namedWorkspace reg ref).id

/-- `resolve_directory_path`. -/
def resolveDirectory (env : Surroundings) (directory : Bytes) : Option Bytes :=
  (if directory = [] then env.workingDirectory else env.realpath directory).bind fun path =>
    if (cstr path).length < 4096 then some (cstr path) else none

variable {α β : Type}

theorem bind_eq_ok {x : Except Refusal α} {f : α → Except Refusal β} {b : β} :
    (x >>= f) = .ok b ↔ ∃ a, x = .ok a ∧ f a = .ok b := by
  cases x with
  | error r => simp [bind, Except.bind]
  | ok a => simp [bind, Except.bind]

variable {a : α} {u : Unit} {env : Surroundings}

@[simp] theorem orRefuse_eq_ok {x : Option α} {refusal : Refusal} :
    orRefuse x refusal = .ok a ↔ x = some a := by
  cases x <;> simp [orRefuse]

@[simp] theorem require_eq_ok {condition : Bool} {refusal : Refusal} :
    require condition refusal = .ok u ↔ condition = true := by
  cases condition <;> simp [require]

@[simp] theorem lockState_eq_ok : lockState env = .ok u ↔ env.lock = none := by
  unfold lockState
  cases env.lock <;> simp

@[simp] theorem drawId_eq_ok {message : String} :
    drawId env message = .ok u ↔ env.idFailure = none := by
  unfold drawId
  cases env.idFailure <;> simp

@[simp] theorem namedWorkspace_eq_ok {reg : Registry} {ref : Bytes} {w : WorkspaceRecord} :
    namedWorkspace reg ref = .ok w ↔ findWorkspace reg ref = some w := orRefuse_eq_ok

@[simp] theorem pure_eq_ok {b : α} : (pure a : Except Refusal α) = .ok b ↔ a = b := by
  simp [pure, Except.pure]

@[simp] theorem guarded_error (reg : Registry) (r : Refusal) (act : α → Outcome) :
    guarded reg (.error r) act = .only reg r.reply := rfl

@[simp] theorem guarded_ok (reg : Registry) (a : α) (act : α → Outcome) :
    guarded reg (.ok a) act = act a := rfl

/-- A request either acts after its checks, or replies with nothing done. -/
theorem guarded_cases (reg : Registry) (checks : Except Refusal α) (act : α → Outcome) :
    (∃ r, checks = .error r ∧ guarded reg checks act = .only reg r.reply) ∨
      ∃ a, checks = .ok a ∧ guarded reg checks act = act a := by
  cases checks with
  | error r => exact .inl ⟨r, rfl, rfl⟩
  | ok a => exact .inr ⟨a, rfl, rfl⟩

theorem resolveDirectory_bounds {directory path : Bytes}
    (h : resolveDirectory env directory = some path) : path.length < 4096 ∧ 0 ∉ path := by
  unfold resolveDirectory at h
  obtain ⟨full, -, hfull⟩ := Option.bind_eq_some_iff.mp h
  split_ifs at hfull with hlength
  obtain rfl := Option.some.inj hfull
  exact ⟨hlength, zero_notMem_cstr full⟩

end Cubicle.Manager
