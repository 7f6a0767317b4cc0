import Cubicle.ConfigFiles
import Cubicle.RecordFiles

/-!
# Loading the configuration

The configuration is made of layers: built-in values, the files of the system, then the files of the
user, each file followed by its drop-ins. A step of loading changes the configuration and may end
the loading with an error, and a file is a sequence of such steps. The settings that decide which
manager runs and as what are read only where the layer may set them.
-/

namespace Cubicle.Config
open ByteText CStrings RecordFiles List

def pathMax : ℕ := 4096

def endpointUriMax : ℕ := 512

inductive SourceKind
  | builtin | system | user | override
deriving DecidableEq

inductive Key
  | installationBindir | installationLibexecdir | managerStateDir | managerRuntimeDir
  | managerLogDir | managerListen | managerSocketMode | managerSocketGroup
  | managerControllerBinary | controllerDebug | cubeDebug | cubeAutomanager | deskDebug
  | deskAutomanager | deskScrollbackLines | clientManager | clientServerIdentity
  | defaultsLaunch | defaultsMode | defaultsKillCleanup | deskPrefix | deskKeys
deriving DecidableEq

structure Origin where
  kind : SourceKind
  sourcePath : Bytes

/-- A key as `cubicle_config_parse_desk_key_name` reads it. -/
structure DeskKey where
  usesPrefix : Bool
  sequence : Bytes
  name : Bytes

structure DeskKeyBinding extends DeskKey where
  command : Bytes
  builtin : Bool

inductive Launch
  | foreground | background

inductive Mode
  | stream | tty | term

structure ManagerControl where
  bindir : Bytes
  libexecdir : Bytes
  managerStateDir : Bytes
  managerRuntimeDir : Bytes
  managerListenUri : Bytes
  managerSocketMode : ℕ
  managerSocketGroup : Bytes
  controllerBinary : Bytes
  controllerDebugInput : Bool
  controllerDebugLibrary : Bool
  controllerDebugTerminal : Bool
deriving DecidableEq

structure Settings extends ManagerControl where
  managerLogDir : Bytes
  cubeDebugLibrary : Bool
  cubeAutomanager : Bool
  deskDebugLibrary : Bool
  deskDebugTerminal : Bool
  deskAutomanager : Bool
  deskScrollbackLines : ℕ
  deskPrefixSequence : Bytes
  deskPrefixKeyName : Bytes
  deskKeyBindings : List DeskKeyBinding
  clientManagerUri : Bytes
  clientServerIdentity : Bytes
  defaultLaunch : Launch
  defaultMode : Mode
  defaultKillCleanup : Bool
  source : Bytes
  origins : Key → Origin

/-- The configuration after a step, and the error that ends the loading. -/
abbrev Step := Settings → Settings × Option Bytes

def Step.skip : Step := fun c => (c, none)

def Step.fail (message : Bytes) : Step := fun c => (c, some message)

def Step.change (f : Settings → Settings) : Step := fun c => (f c, none)

def Step.andThen (f g : Step) : Step := fun c =>
  match f c with
  | (c, none) => g c
  | (c, some message) => (c, some message)

def Step.all : List Step → Step
  | [] => .skip
  | f :: rest => f.andThen (Step.all rest)

def Step.allowed (allow : Bool) (f : Step) : Step := if allow then f else .skip

def setOrigin (key : Key) (kind : SourceKind) (source : Bytes) : Step :=
  .change fun c =>
    let path := if source = [] then ascii "unknown" else source
    { c with origins := fun k => if k = key then ⟨kind, clip pathMax path⟩ else c.origins k }

def parseLaunch (value : Bytes) : Step :=
  if value = ascii "foreground" then .change fun c => { c with defaultLaunch := .foreground }
  else if value = ascii "background" then .change fun c => { c with defaultLaunch := .background }
  else .fail (ascii "defaults.launch must be foreground or background")

def parseMode (value : Bytes) : Step :=
  if value = ascii "stream" then .change fun c => { c with defaultMode := .stream }
  else if value = ascii "tty" then .change fun c => { c with defaultMode := .tty }
  else if value = ascii "term" then .change fun c => { c with defaultMode := .term }
  else .fail (ascii "defaults.mode must be stream, tty, or term")

def parseBool (name : Bytes) (set : Bool → Settings → Settings) (value : Bytes) : Step :=
  if value = ascii "true" ∨ value = ascii "yes" ∨ value = ascii "1" ∨ value = ascii "on" then
    .change (set true)
  else if value = ascii "false" ∨ value = ascii "no" ∨ value = ascii "0" ∨ value = ascii "off" then
    .change (set false)
  else .fail (name ++ ascii " must be true or false")

/-- `strtoul` of a whole text, unless it overflows. -/
def strtoul (base : ℕ) (text : Bytes) : Option ℕ :=
  let t := text.dropWhile isCSpace
  let digits := if t.head? = some 0x2d ∨ t.head? = some 0x2b then t.drop 1 else t
  if digits = [] ∨ ¬ ∀ d ∈ digits, 0x30 ≤ d.toNat ∧ d.toNat < 0x30 + base then none
  else
    let value := digits.foldl (fun v d => v * base + (d.toNat - 0x30)) 0
    if 2 ^ 64 ≤ value then none
    else if t.head? = some 0x2d then some ((2 ^ 64 - value) % 2 ^ 64)
    else some value

def parseUintRange (name : Bytes) (low high : ℕ) (set : ℕ → Settings → Settings) (value : Bytes) :
    Step :=
  match (strtoul 10 value).filter fun n => low ≤ n ∧ n ≤ high with
  | none => .fail (name ++ ascii " must be between " ++ dec low ++ ascii " and " ++ dec high)
  | some n => .change (set n)

def parseSocketMode (value : Bytes) : Step :=
  match (strtoul 8 value).filter (· ≤ 0o777) with
  | none => .fail (ascii "manager.socket_mode must be an octal mode such as 0660")
  | some mode => .change fun c => { c with managerSocketMode := mode }

/-- Words that switch everything off. -/
def IsOff (value : Bytes) : Prop :=
  value = ascii "none" ∨ value = ascii "off" ∨ value = ascii "false"

instance (value : Bytes) : Decidable (IsOff value) := by
  unfold IsOff
  infer_instance

def parseLibraryDebug (name : Bytes) (set : Bool → Settings → Settings) (value : Bytes) : Step :=
  if value = ascii "library" then .change (set true)
  else if IsOff value then .change (set false)
  else .fail (name ++ ascii " must be library, none, off, or false")

def parseParts (set : Bytes → Option (Settings → Settings)) (message : Bytes) : List Bytes → Step
  | [] => .skip
  | part :: rest =>
    match set part with
    | none => .fail message
    | some f => (Step.change f).andThen (parseParts set message rest)

/-- A list of words separated by commas, each of which switches something on. -/
def parseDebug (name : Bytes) (reset : Settings → Settings) (trimPart : Bytes → Bytes)
    (set : Bytes → Option (Settings → Settings)) (words : Bytes) (value : Bytes) : Step :=
  (Step.change reset).andThen
    (if IsOff value then .skip
    else if 128 ≤ value.length then .fail (name ++ ascii " is too long")
    else parseParts set (name ++ ascii " must contain " ++ words)
      (((value.splitOn 0x2c).filter (· ≠ [])).map trimPart))

def trimPart (part : Bytes) : Bytes :=
  ((part.dropWhile fun b => b = 0x20 ∨ b = 0x09).reverse.dropWhile fun b =>
    b = 0x20 ∨ b = 0x09 ∨ b = 0x0d ∨ b = 0x0a).reverse

def parseDeskDebug : Bytes → Step :=
  parseDebug (ascii "desk.debug")
    (fun c => { c with deskDebugLibrary := false, deskDebugTerminal := false }) trimPart
    (fun part =>
      if part = ascii "library" then some fun c => { c with deskDebugLibrary := true }
      else if part = ascii "terminal" then some fun c => { c with deskDebugTerminal := true }
      else none)
    (ascii "library, terminal, none, off, or false")

def parseControllerDebug : Bytes → Step :=
  parseDebug (ascii "controller.debug")
    (fun c => { c with
      controllerDebugInput := false, controllerDebugLibrary := false,
      controllerDebugTerminal := false }) id
    (fun part =>
      if part = ascii "input" then some fun c => { c with controllerDebugInput := true }
      else if part = ascii "library" then some fun c => { c with controllerDebugLibrary := true }
      else if part = ascii "terminal" then some fun c => { c with controllerDebugTerminal := true }
      else none)
    (ascii "input, library, terminal, none, off, or false")

def deskCommands : List Bytes :=
  ["pane.next", "pane.previous", "pane.left", "pane.right", "pane.above", "pane.below",
    "layout.zoom", "layout.resize.toggle", "layout.movepane", "layout.transpose",
    "layout.addleft", "layout.addright", "layout.addtop", "layout.addbottom",
    "layout.split.horizontal", "layout.split.vertical", "layout.delete", "layout.reset",
    "layout.zoom.horizontal", "layout.zoom.vertical", "layout.save", "layout.load",
    "bindings.show", "scroll.page_up", "scroll.page_down", "scroll.line_up",
    "scroll.line_down", "scroll.top", "scroll.bottom", "menu.open", "mouse.toggle",
    "quit"].map ascii

section Keys

-- What a key name means is a matter of its own: its parser writes nothing but its result.
variable (parseDeskKeyName : Bytes → Except Bytes DeskKey)

/-- What happens to the table when a binding is added to it. -/
def bindIn (binding : DeskKeyBinding) (bindings : List DeskKeyBinding) :
    Except Bytes (List DeskKeyBinding) :=
  let unbind := binding.command = ascii "none"
  match bindings.findIdx? fun e =>
      e.usesPrefix = binding.usesPrefix ∧ e.sequence = binding.sequence with
  | some i =>
    if unbind then .ok (bindings.eraseIdx i)
    else if (bindings[i]?.map DeskKeyBinding.builtin).getD false then .ok (bindings.set i binding)
    else .error (ascii "duplicate desk.keys binding for " ++ binding.name)
  | none => if unbind then .ok bindings else .ok (bindings ++ [binding])

def addDeskKeyBinding (keyName command : Bytes) (builtin : Bool) : Step := fun c =>
  if 64 ≤ c.deskKeyBindings.length then (c, some (ascii "desk.keys has too many bindings"))
  else
    match parseDeskKeyName keyName with
    | .error message => (c, some message)
    | .ok key =>
      if command ≠ ascii "none" ∧ deskCommands.contains command = false then
        (c, some (ascii "unknown desk command '" ++ command ++ ascii "' in desk.keys"))
      else if 64 ≤ command.length then (c, some (ascii "desk command name is too long"))
      else
        match bindIn ⟨key, command, builtin⟩ c.deskKeyBindings with
        | .error message => (c, some message)
        | .ok bindings => ({ c with deskKeyBindings := bindings }, none)

def parseDeskBindingValue (value : Bytes) : Step :=
  let blank : UInt8 → Bool := fun b => b = 0x20 ∨ b = 0x09
  let text := value.dropWhile blank
  let key := text.takeWhile fun b => !blank b
  let rest := text.drop key.length
  let command := trimPart rest
  if 160 ≤ value.length then .fail (ascii "desk.keys binding is too long")
  else if rest = [] ∨ key = [] ∨ command = [] then
    .fail (ascii "desk.keys binding must be KEY COMMAND")
  else addDeskKeyBinding parseDeskKeyName key command false

/-- `desk.prefix`: the bytes of a key with a prefix are stored before it is refused. -/
def parseDeskPrefix (value : Bytes) : Step :=
  let prefixed := ascii "desk.prefix must not include Prefix-"
  match parseDeskKeyName value with
  | .error message =>
    if (ascii "Prefix-").isPrefixOf value ∨ (ascii "prefix-").isPrefixOf value then .fail prefixed
    else .fail message
  | .ok key =>
    (Step.change fun c => { c with deskPrefixSequence := key.sequence }).andThen
      (if key.usesPrefix then .fail prefixed
      else .change fun c => { c with deskPrefixKeyName := key.name })

/-- What `get_optional_string` leaves in its buffer, and how it ends. -/
structure Fetched where
  written : Option Bytes
  error : Option Bytes

def getOptionalString (file : ConfigFile) (group key : Bytes) (size : ℕ) : Fetched :=
  match file.getString group key with
  | .notFound => ⟨none, none⟩
  | .error message =>
    ⟨none, some (group ++ ascii "." ++ key ++ ascii ": " ++
      if message = [] then ascii "parse error" else message)⟩
  | .value value =>
    if value = [] then ⟨none, some (key ++ ascii " must not be empty")⟩
    else if size ≤ value.length then ⟨some (clip size value), some (key ++ ascii " is too long")⟩
    else ⟨some value, none⟩

variable (file : ConfigFile) (kind : SourceKind) (source : Bytes)

/-- A setting whose buffer is in the configuration: a value that is too long is cut there before it
is refused. -/
def textSetting (origin : Key) (group key : Bytes) (size : ℕ) (set : Bytes → Settings → Settings) :
    Step :=
  let got := getOptionalString file group key size
  match got.written, got.error with
  | none, none => .skip
  | some value, none => (Step.change (set value)).andThen (setOrigin origin kind source)
  | none, some message => .fail message
  | some value, some message => (Step.change (set value)).andThen (.fail message)

/-- A setting that is parsed from a buffer of its own. -/
def parsedSetting (origin : Key) (group key : Bytes) (size : ℕ) (parse : Bytes → Step) : Step :=
  let got := getOptionalString file group key size
  match got.error, got.written with
  | some message, _ => .fail message
  | none, none => .skip
  | none, some value => (parse value).andThen (setOrigin origin kind source)

def deskKeysSetting : Step :=
  match file.getKeys (ascii "desk.keys") with
  | .error message =>
    .fail (ascii "desk.keys: " ++ if message = [] then ascii "parse error" else message)
  | .ok keys =>
    .all ((keys.filter fun key => (ascii "bind.").isPrefixOf key).map fun key =>
      parsedSetting file kind source .deskKeys (ascii "desk.keys") key 160
        (parseDeskBindingValue parseDeskKeyName))

def applyConfigFile (allow : Bool) : Step :=
  .all
    [.allowed allow (textSetting file kind source .installationBindir
      (ascii "installation") (ascii "bindir") pathMax fun v c => { c with bindir := v }),
    .allowed allow (textSetting file kind source .installationLibexecdir
      (ascii "installation") (ascii "libexecdir") pathMax fun v c => { c with libexecdir := v }),
    .allowed allow (textSetting file kind source .managerStateDir
      (ascii "manager") (ascii "state_dir") pathMax fun v c => { c with managerStateDir := v }),
    .allowed allow (textSetting file kind source .managerRuntimeDir
      (ascii "manager") (ascii "runtime_dir") pathMax fun v c => { c with managerRuntimeDir := v }),
    textSetting file kind source .managerLogDir
      (ascii "manager") (ascii "log_dir") pathMax fun v c => { c with managerLogDir := v },
    .allowed allow (textSetting file kind source .managerListen
      (ascii "manager") (ascii "listen") endpointUriMax
      fun v c => { c with managerListenUri := v }),
    .allowed allow (textSetting file kind source .managerSocketGroup
      (ascii "manager") (ascii "socket_group") 256 fun v c => { c with managerSocketGroup := v }),
    .allowed allow (textSetting file kind source .managerControllerBinary
      (ascii "manager") (ascii "controller_binary") pathMax
      fun v c => { c with controllerBinary := v }),
    textSetting file kind source .clientManager
      (ascii "client") (ascii "manager") endpointUriMax fun v c => { c with clientManagerUri := v },
    textSetting file kind source .clientServerIdentity
      (ascii "client") (ascii "server_identity") 256
      fun v c => { c with clientServerIdentity := v },
    .allowed allow (parsedSetting file kind source .controllerDebug
      (ascii "controller") (ascii "debug") 64 parseControllerDebug),
    parsedSetting file kind source .cubeDebug (ascii "cube") (ascii "debug") 64
      (parseLibraryDebug (ascii "cube.debug") fun v c => { c with cubeDebugLibrary := v }),
    parsedSetting file kind source .cubeAutomanager (ascii "cube") (ascii "automanager") 64
      (parseBool (ascii "cube.automanager") fun v c => { c with cubeAutomanager := v }),
    parsedSetting file kind source .deskDebug (ascii "desk") (ascii "debug") 64 parseDeskDebug,
    parsedSetting file kind source .deskAutomanager (ascii "desk") (ascii "automanager") 64
      (parseBool (ascii "desk.automanager") fun v c => { c with deskAutomanager := v }),
    parsedSetting file kind source .deskScrollbackLines (ascii "desk") (ascii "scrollback_lines") 64
      (parseUintRange (ascii "desk.scrollback_lines") 1 200000
        fun n c => { c with deskScrollbackLines := n }),
    parsedSetting file kind source .deskPrefix (ascii "desk") (ascii "prefix") 64
      (parseDeskPrefix parseDeskKeyName),
    deskKeysSetting parseDeskKeyName file kind source,
    parsedSetting file kind source .defaultsLaunch (ascii "defaults") (ascii "launch") 64
      parseLaunch,
    .allowed allow (parsedSetting file kind source .managerSocketMode
      (ascii "manager") (ascii "socket_mode") 64 parseSocketMode),
    parsedSetting file kind source .defaultsMode (ascii "defaults") (ascii "mode") 64 parseMode,
    parsedSetting file kind source .defaultsKillCleanup (ascii "defaults") (ascii "kill_cleanup") 64
      (parseBool (ascii "defaults.kill_cleanup") fun v c => { c with defaultKillCleanup := v })]

end Keys

inductive ReadAnswer
  | noFile
  | failed (message : Bytes)
  | file (file : ConfigFile)

inductive DirAnswer
  | absent
  | failed (message : Bytes)
  | names (names : List Bytes)

structure Files where
  read : Bytes → ReadAnswer
  list : Bytes → DirAnswer

def Files.absent : Files := ⟨fun _ => .noFile, fun _ => .absent⟩

/-- `strcmp(a, b) <= 0`. -/
def strcmpLe : Bytes → Bytes → Bool
  | [], _ => true
  | _ :: _, [] => false
  | a :: s, b :: t => if a = b then strcmpLe s t else decide (a < b)

/-- `has_cfg_suffix`, for names that are not hidden. -/
def isDropin (name : Bytes) : Bool :=
  name.head? ≠ some 0x2e && 4 < name.length && (ascii ".cfg").isSuffixOf name

section Paths
variable (parseDeskKeyName : Bytes → Except Bytes DeskKey) (files : Files) (kind : SourceKind)

def applyConfigPath (required allow : Bool) (path : Bytes) : Step :=
  match files.read path with
  | .noFile => if required then .fail (path ++ ascii ": file not found") else .skip
  | .failed message =>
    .fail (path ++ ascii ": " ++ if message = [] then ascii "file not found" else message)
  | .file file =>
    (applyConfigFile parseDeskKeyName file kind path allow).andThen
      (.change fun c => { c with source := clip pathMax path })

def loadDropinDir (allow : Bool) (directory : Bytes) : Step :=
  match files.list directory with
  | .absent => .skip
  | .failed message => .fail (directory ++ ascii ": " ++ message)
  | .names names =>
    .all (((names.filter isDropin).mergeSort strcmpLe).map fun name =>
      let path := directory ++ ascii "/" ++ name
      if pathMax ≤ path.length then .fail (ascii "config drop-in path is too long")
      else applyConfigPath parseDeskKeyName files kind true allow path)

def applyConfigPathWithDropins (required allow : Bool) (path : Bytes) : Step :=
  (applyConfigPath parseDeskKeyName files kind required allow path).andThen
    (let directory := path ++ ascii ".d"
    if pathMax ≤ directory.length then .fail (ascii "config drop-in directory is too long")
    else loadDropinDir parseDeskKeyName files kind allow directory)

end Paths

structure Environment where
  euid : ℕ
  home : Option Bytes
  passwdDir : Option Bytes
  xdgStateHome : Option Bytes
  xdgRuntimeDir : Option Bytes
  xdgConfigHome : Option Bytes
  cubicleConfig : Option Bytes

namespace Environment

/-- A variable that is set and not empty. -/
def given (v : Option Bytes) : Option Bytes := v.filter (· ≠ [])

def homeDirectory (env : Environment) : Option Bytes := (given env.home).or env.passwdDir

/-- `snprintf` into a buffer that has to hold all of the text. -/
def fitted (size : ℕ) (text : Bytes) : Option Bytes :=
  if text.length < size then some text else none

/-- `set_user_defaults`: nothing if one of the paths is too long. -/
def userDefaults (env : Environment) : Option (Bytes × Bytes × Bytes × Bytes) := do
  let state ← fitted pathMax <|
    match given env.xdgStateHome, given env.homeDirectory with
    | some directory, _ => directory ++ ascii "/cubicle"
    | none, some home => home ++ ascii "/.local/state/cubicle"
    | none, none => ascii "/tmp/cubicle-state-" ++ dec env.euid
  let log ← fitted pathMax (state ++ ascii "/log")
  let runtime ← fitted pathMax <|
    match given env.xdgRuntimeDir with
    | some directory => directory ++ ascii "/cubicle"
    | none => ascii "/run/user/" ++ dec env.euid ++ ascii "/cubicle"
  let listen ← fitted endpointUriMax (ascii "unix://" ++ runtime ++ ascii "/manager.sock")
  return (state, log, runtime, listen)

/-- The directories and the address a user that is not root starts with. -/
def directories (env : Environment) : Bytes × Bytes × Bytes × Bytes :=
  if env.euid = 0 then
    (ascii "/var/lib/cubicle", ascii "/var/log/cubicle", ascii "/run/cubicle",
      ascii "unix:///run/cubicle/manager.sock")
  else
    env.userDefaults.getD
      (ascii "/tmp/cubicle-state-" ++ dec env.euid, ascii "/tmp/cubicle-log-" ++ dec env.euid,
        ascii "/run/user/" ++ dec env.euid ++ ascii "/cubicle",
        ascii "unix:///run/user/" ++ dec env.euid ++ ascii "/cubicle/manager.sock")

end Environment

/-- The bindings of `cubicle_config_defaults`. -/
def builtinBindings : List (Bytes × Bytes) :=
  [("Prefix-n", "pane.next"), ("Prefix-p", "pane.previous"), ("Prefix-Space", "layout.zoom"),
    ("Prefix-s", "layout.resize.toggle"), ("Prefix-M", "layout.movepane"),
    ("Prefix-m", "mouse.toggle"), ("Prefix-o", "menu.open"), ("Prefix-:", "layout.save"),
    ("Prefix-;", "layout.load"), ("Prefix-?", "bindings.show"),
    ("Prefix-PageUp", "scroll.page_up"), ("Prefix-PageDown", "scroll.page_down"),
    ("Prefix-Home", "scroll.top"), ("Prefix-End", "scroll.bottom"),
    ("Prefix-q", "quit")].map fun (key, command) => (ascii key, ascii command)

section Load
variable (parseDeskKeyName : Bytes → Except Bytes DeskKey)

def configDefaults (env : Environment) : Settings :=
  let (state, log, runtime, listen) := env.directories
  let config : Settings :=
    { bindir := ascii "/usr/bin"
      libexecdir := ascii "/usr/libexec/cubicle"
      managerStateDir := state
      managerRuntimeDir := runtime
      managerLogDir := log
      managerListenUri := listen
      managerSocketMode := 0o660
      managerSocketGroup := []
      controllerBinary := ascii "/usr/libexec/cubicle/cubicle-controller"
      controllerDebugInput := false
      controllerDebugLibrary := false
      controllerDebugTerminal := false
      cubeDebugLibrary := false
      cubeAutomanager := true
      deskDebugLibrary := false
      deskDebugTerminal := false
      deskAutomanager := true
      deskScrollbackLines := 10000
      deskPrefixSequence := [0x18]
      deskPrefixKeyName := ascii "C-X"
      deskKeyBindings := []
      clientManagerUri := listen
      clientServerIdentity := []
      defaultLaunch := .foreground
      defaultMode := .tty
      defaultKillCleanup := false
      source := ascii "built-in defaults"
      origins := fun _ => ⟨.builtin, ascii "built-in defaults"⟩ }
  builtinBindings.foldl
    (fun c (key, command) => (addDeskKeyBinding parseDeskKeyName key command true c).1) config

/-- `validate_host_port_uri` without the scheme. -/
def hostPortValid (authority : Bytes) : Bool :=
  let isPort (port : Bytes) : Bool := !port.isEmpty && port.all isCDigit
  match authority with
  | 0x5b :: inner =>
    let host := inner.takeWhile (· ≠ 0x5d)
    match inner.drop host.length with
    | 0x5d :: 0x3a :: port => !host.isEmpty && isPort port
    | _ => false
  | _ =>
    let port := (authority.reverse.takeWhile (· ≠ 0x3a)).reverse
    0x3a ∈ authority && port.length + 1 < authority.length && isPort port

/-- `validate_endpoint_uri`. -/
def endpointValid (uri : Bytes) : Bool :=
  ((ascii "unix:///").isPrefixOf uri && (uri.drop 7).length < pathMax) ||
    ((ascii "tcp://").isPrefixOf uri && hostPortValid (uri.drop 6)) ||
    ((ascii "tls://").isPrefixOf uri && hostPortValid (uri.drop 6))

def pathChecks (c : Settings) : List (Bytes × Bytes) :=
  [(c.bindir, ascii "installation.bindir"), (c.libexecdir, ascii "installation.libexecdir"),
    (c.managerStateDir, ascii "manager.state_dir"),
    (c.managerRuntimeDir, ascii "manager.runtime_dir"),
    (c.managerLogDir, ascii "manager.log_dir"),
    (c.controllerBinary, ascii "manager.controller_binary")]

/-- `validate_desk_key_conflicts`: the first binding that comes again. -/
def conflict : List DeskKeyBinding → Option Bytes
  | [] => none
  | left :: rest =>
    if rest.any fun right =>
        left.usesPrefix = right.usesPrefix ∧ left.sequence = right.sequence then
      some (ascii "duplicate desk.keys binding for " ++ left.name)
    else conflict rest

def endpointRule : Bytes :=
  ascii (" must be an absolute unix:// endpoint, tcp://host:port endpoint, or " ++
    "tls://host:port endpoint")

def configValidate : Step := fun c =>
  match (pathChecks c).find? fun (path, _) => path.head? ≠ some 0x2f with
  | some (_, name) => (c, some (name ++ ascii " must be an absolute path"))
  | none =>
    if !endpointValid c.managerListenUri then (c, some (ascii "manager.listen" ++ endpointRule))
    else if !endpointValid c.clientManagerUri then
      (c, some (ascii "client.manager" ++ endpointRule))
    else (c, conflict c.deskKeyBindings)

inductive UserPath
  | path (path : Bytes)
  | absent
  | tooLong

def Environment.userPath (env : Environment) : UserPath :=
  let fit (path : Bytes) : UserPath := if path.length < pathMax then .path path else .tooLong
  match given env.xdgConfigHome, given env.homeDirectory with
  | some directory, _ => fit (directory ++ ascii "/cubicle/config.cfg")
  | none, some home => fit (home ++ ascii "/.config/cubicle/config.cfg")
  | none, none => .absent

def systemPaths : List Bytes :=
  [ascii "/usr/lib/cubicle/config.cfg", ascii "/etc/cubicle/config.cfg",
    ascii "/run/cubicle/config.cfg"]

/-- The layer of the system, without the override. -/
def systemLayer (system : Files) : List Step :=
  systemPaths.map (applyConfigPathWithDropins parseDeskKeyName system .system false true)

def userLayer (env : Environment) (user : Files) (userKeys : Bool) : Step :=
  match env.userPath with
  | .path path => applyConfigPathWithDropins parseDeskKeyName user .user false userKeys path
  | .absent => .skip
  | .tooLong => .fail (ascii "user config path could not be resolved: File name too long")

/-- `cubicle_config_load_with_user_policy`. What is read as a file of the system and what is read
as a file of the user are two arguments. -/
def configLoadWithUserPolicy (env : Environment) (system user : Files) (userKeys : Bool) :
    Settings × Option Bytes :=
  match Environment.given env.cubicleConfig with
  | some path =>
    Step.all [applyConfigPathWithDropins parseDeskKeyName system .override true true path,
      configValidate] (configDefaults parseDeskKeyName env)
  | none =>
    Step.all (systemLayer parseDeskKeyName system ++
      [userLayer parseDeskKeyName env user userKeys, configValidate])
      (configDefaults parseDeskKeyName env)

def configLoad (env : Environment) (system user : Files) : Settings × Option Bytes :=
  configLoadWithUserPolicy parseDeskKeyName env system user true

def configLoadClient (env : Environment) (system user : Files) : Settings × Option Bytes :=
  configLoadWithUserPolicy parseDeskKeyName env system user false

/-- A step that takes every configuration to a related one. -/
def Step.Within (R : Settings → Settings → Prop) (f : Step) : Prop := ∀ c, R c (f c).1

/-- A relation that holds along the loading: it looks only at the settings that control the manager
and at the table of keys, it allows what files may do to the former, and bindings keep it. -/
structure LoadRelation (allow : Bool) (R : Settings → Settings → Prop) : Prop where
  trans : ∀ {a b c}, R a b → R b c → R a c
  other : ∀ {c d : Settings}, d.toManagerControl = c.toManagerControl →
    d.deskKeyBindings = c.deskKeyBindings → R c d
  control : allow = true → ∀ {c d : Settings}, d.deskKeyBindings = c.deskKeyBindings → R c d
  bind : ∀ keyName command builtin,
    (addDeskKeyBinding parseDeskKeyName keyName command builtin).Within R

namespace Step.Within
variable {parseDeskKeyName} {allow : Bool} {R : Settings → Settings → Prop}
  (hR : LoadRelation parseDeskKeyName allow R)
include hR

theorem skip : Step.skip.Within R := fun _ => hR.other rfl rfl

theorem fail (message : Bytes) : (Step.fail message).Within R := fun _ => hR.other rfl rfl

variable {f : Step}

theorem andThen {g : Step} (hf : f.Within R) (hg : g.Within R) : (f.andThen g).Within R := by
  intro c
  have h := hf c
  unfold Step.andThen
  generalize f c = r at h ⊢
  obtain ⟨c', message⟩ := r
  cases message with
  | none => exact hR.trans h (hg c')
  | some message => exact h

theorem all {steps : List Step} (h : ∀ f ∈ steps, f.Within R) : (Step.all steps).Within R := by
  induction steps with
  | nil => exact skip hR
  | cons f rest ih =>
    exact andThen hR (h f (by simp)) (ih fun g hg => h g (by simp [hg]))

theorem allowed (h : allow = true → f.Within R) : (Step.allowed allow f).Within R := by
  unfold Step.allowed
  split_ifs with hallow
  · exact h hallow
  · exact skip hR

variable {set : Bytes → Option (Settings → Settings)}

theorem parseParts (message : Bytes) (hset : ∀ part f, set part = some f → (Step.change f).Within R)
    (parts : List Bytes) : (parseParts set message parts).Within R := by
  induction parts with
  | nil => exact skip hR
  | cons part rest ih =>
    unfold Config.parseParts
    cases h : set part with
    | none => exact fail hR message
    | some f => exact andThen hR (hset part f h) ih

theorem parseDebug {name : Bytes} {reset : Settings → Settings} {trimPart : Bytes → Bytes}
    {words : Bytes} (hreset : (Step.change reset).Within R)
    (hset : ∀ part f, set part = some f → (Step.change f).Within R) (value : Bytes) :
    (parseDebug name reset trimPart set words value).Within R := by
  refine andThen hR hreset ?_
  split_ifs
  · exact skip hR
  · exact fail hR _
  · exact parseParts hR _ hset _

section OneSetting
variable (file : ConfigFile) (kind : SourceKind) (source : Bytes)

theorem setOrigin (key : Key) : (setOrigin key kind source).Within R := fun _ => hR.other rfl rfl

theorem textSetting (origin : Key) (group key : Bytes) (size : ℕ)
    {set : Bytes → Settings → Settings} (hset : ∀ v, (Step.change (set v)).Within R) :
    (textSetting file kind source origin group key size set).Within R := by
  unfold Config.textSetting
  dsimp only
  split
  · exact skip hR
  · exact andThen hR (hset _) (setOrigin hR _ _ _)
  · exact fail hR _
  · exact andThen hR (hset _) (fail hR _)

theorem parsedSetting (origin : Key) (group key : Bytes) (size : ℕ) {parse : Bytes → Step}
    (hparse : ∀ v, (parse v).Within R) :
    (parsedSetting file kind source origin group key size parse).Within R := by
  unfold Config.parsedSetting
  dsimp only
  split
  · exact fail hR _
  · exact skip hR
  · exact andThen hR (hparse _) (setOrigin hR _ _ _)

theorem parseBool (name : Bytes) {set : Bool → Settings → Settings}
    (hset : ∀ v, (Step.change (set v)).Within R) (value : Bytes) :
    (parseBool name set value).Within R := by
  unfold Config.parseBool
  split_ifs
  · exact hset true
  · exact hset false
  · exact fail hR _

theorem parseLibraryDebug (name : Bytes) {set : Bool → Settings → Settings}
    (hset : ∀ v, (Step.change (set v)).Within R) (value : Bytes) :
    (parseLibraryDebug name set value).Within R := by
  unfold Config.parseLibraryDebug
  split_ifs
  · exact hset true
  · exact hset false
  · exact fail hR _

theorem parseUintRange (name : Bytes) (low high : ℕ) {set : ℕ → Settings → Settings}
    (hset : ∀ n, (Step.change (set n)).Within R) (value : Bytes) :
    (parseUintRange name low high set value).Within R := by
  unfold Config.parseUintRange
  split
  · exact fail hR _
  · exact hset _

theorem parseLaunch (value : Bytes) : (parseLaunch value).Within R := by
  unfold Config.parseLaunch
  split_ifs <;> exact fun _ => hR.other rfl rfl

theorem parseMode (value : Bytes) : (parseMode value).Within R := by
  unfold Config.parseMode
  split_ifs <;> exact fun _ => hR.other rfl rfl

theorem parseSocketMode (hallow : allow = true) (value : Bytes) :
    (parseSocketMode value).Within R := by
  unfold Config.parseSocketMode
  split
  · exact fail hR _
  · exact fun _ => hR.control hallow rfl

theorem parseDeskBindingValue (value : Bytes) :
    (parseDeskBindingValue parseDeskKeyName value).Within R := by
  unfold Config.parseDeskBindingValue
  dsimp only
  split_ifs
  · exact fail hR _
  · exact fail hR _
  · exact hR.bind _ _ _

theorem parseDeskPrefix (value : Bytes) : (parseDeskPrefix parseDeskKeyName value).Within R := by
  unfold Config.parseDeskPrefix
  dsimp only
  split
  · split_ifs <;> exact fail hR _
  · refine andThen hR (fun _ => hR.other rfl rfl) ?_
    split_ifs
    · exact fail hR _
    · exact fun _ => hR.other rfl rfl

theorem deskKeysSetting : (deskKeysSetting parseDeskKeyName file kind source).Within R := by
  unfold Config.deskKeysSetting
  split
  · exact fail hR _
  · refine all hR fun f hf => ?_
    obtain ⟨key, -, rfl⟩ := mem_map.mp hf
    exact parsedSetting hR _ _ _ _ _ _ _ (parseDeskBindingValue hR)

theorem applyConfigFile : (applyConfigFile parseDeskKeyName file kind source allow).Within R := by
  refine all hR fun f hf => ?_
  simp only [mem_cons, not_mem_nil, or_false] at hf
  rcases hf with rfl | rfl | rfl | rfl | rfl | rfl | rfl | rfl | rfl | rfl | rfl | rfl | rfl |
    rfl | rfl | rfl | rfl | rfl | rfl | rfl | rfl | rfl
  all_goals first
    | exact textSetting hR _ _ _ _ _ _ _ fun _ _ => hR.other rfl rfl
    | exact allowed hR fun hallow =>
        textSetting hR _ _ _ _ _ _ _ fun _ _ => hR.control hallow rfl
    | exact deskKeysSetting hR _ _ _
    | refine allowed hR fun hallow => parsedSetting hR _ _ _ _ _ _ _ ?_
    | refine parsedSetting hR _ _ _ _ _ _ _ ?_
  · refine parseDebug hR (fun _ => hR.control hallow rfl) fun part f hpart => ?_
    split_ifs at hpart <;> cases hpart <;> exact fun _ => hR.control hallow rfl
  · exact parseLibraryDebug hR _ fun _ _ => hR.other rfl rfl
  · exact parseBool hR _ fun _ _ => hR.other rfl rfl
  · refine parseDebug hR (fun _ => hR.other rfl rfl) fun part f hpart => ?_
    split_ifs at hpart <;> cases hpart <;> exact fun _ => hR.other rfl rfl
  · exact parseBool hR _ fun _ _ => hR.other rfl rfl
  · exact parseUintRange hR _ _ _ fun _ _ => hR.other rfl rfl
  · exact parseDeskPrefix hR
  · exact parseLaunch hR
  · exact parseSocketMode hR hallow
  · exact parseMode hR
  · exact parseBool hR _ fun _ _ => hR.other rfl rfl

end OneSetting

theorem applyConfigPath (files : Files) (kind : SourceKind) (required : Bool) (path : Bytes) :
    (applyConfigPath parseDeskKeyName files kind required allow path).Within R := by
  unfold Config.applyConfigPath
  split
  · split_ifs
    · exact fail hR _
    · exact skip hR
  · exact fail hR _
  · exact andThen hR (applyConfigFile hR _ _ _) fun _ => hR.other rfl rfl

theorem applyConfigPathWithDropins (files : Files) (kind : SourceKind) (required : Bool)
    (path : Bytes) :
    (applyConfigPathWithDropins parseDeskKeyName files kind required allow path).Within R := by
  refine andThen hR (applyConfigPath hR files kind required path) ?_
  dsimp only
  split_ifs
  · exact fail hR _
  · unfold loadDropinDir
    split
    · exact skip hR
    · exact fail hR _
    · refine all hR fun f hf => ?_
      obtain ⟨name, -, rfl⟩ := mem_map.mp hf
      dsimp only
      split_ifs
      · exact fail hR _
      · exact applyConfigPath hR files kind true _

theorem userLayer (env : Environment) (user : Files) :
    (userLayer parseDeskKeyName env user allow).Within R := by
  unfold Config.userLayer
  split
  · exact applyConfigPathWithDropins hR user .user false _
  · exact skip hR
  · exact fail hR _

theorem configValidate : configValidate.Within R := by
  intro c
  have hrefl : R c c := hR.other rfl rfl
  unfold Config.configValidate
  split
  · exact hrefl
  · split_ifs
    · exact hrefl
    · exact hrefl
    · exact hrefl

end Step.Within

/-- A step that changes none of the settings that control the manager. -/
def Step.KeepsControl (f : Step) : Prop := ∀ c, (f c).1.toManagerControl = c.toManagerControl

/-- A file that may not set the control settings does not set them. -/
theorem LoadRelation.keepsControl :
    LoadRelation parseDeskKeyName false fun c d => d.toManagerControl = c.toManagerControl where
  trans hab hbc := hbc.trans hab
  other hcontrol _ := hcontrol
  control hallow := absurd hallow (by decide)
  bind keyName command builtin c := by
    unfold addDeskKeyBinding
    split
    · rfl
    · split
      · rfl
      · split_ifs
        · rfl
        · rfl
        · split
          · rfl
          · rfl

include parseDeskKeyName in
theorem Step.control_append {before after : List Step} (h : ∀ f ∈ after, f.KeepsControl)
    (c : Settings) :
    (Step.all (before ++ after) c).1.toManagerControl =
      (Step.all before c).1.toManagerControl := by
  induction before generalizing c with
  | nil => exact Step.Within.all (.keepsControl parseDeskKeyName) h c
  | cons f rest ih =>
    simp only [cons_append, Step.all, Step.andThen]
    generalize f c = r
    obtain ⟨c', message⟩ := r
    cases message with
    | none => exact ih c'
    | some message => rfl

/-- The files of a user have no say in the settings that control the manager: a client loads the
ones it would load without them, whether or not the loading succeeds. -/
theorem client_control_settings (env : Environment) (system user : Files) :
    (configLoadClient parseDeskKeyName env system user).1.toManagerControl =
      (configLoadClient parseDeskKeyName env system .absent).1.toManagerControl := by
  have hkeeps : ∀ files : Files, ∀ f ∈ [userLayer parseDeskKeyName env files false, configValidate],
      f.KeepsControl := by
    intro files f hf
    rcases mem_pair.mp hf with rfl | rfl
    · exact Step.Within.userLayer (.keepsControl parseDeskKeyName) env files
    · exact Step.Within.configValidate (.keepsControl parseDeskKeyName)
  unfold configLoadClient configLoadWithUserPolicy
  split
  · rfl
  · rw [Step.control_append parseDeskKeyName (hkeeps user),
      Step.control_append parseDeskKeyName (hkeeps .absent)]

end Load
end Cubicle.Config
