import Cubicle.ConfigLoading

/-!
# Names of keys

How the name of a key is read: an optional prefix, modifiers, and a special key or a character.
Reading gives the bytes that the terminal sends for the key and a normalised name. The normalised
name is the one that is written to a configuration file, so it matters that it is read as the same
key.
-/

namespace Cubicle.Config
open ByteText CStrings List

deriving instance DecidableEq for DeskKey

/-- `tolower` of the C locale. -/
def toLower (b : UInt8) : UInt8 := if 0x41 ≤ b.toNat ∧ b.toNat ≤ 0x5a then b + 0x20 else b

def stringEqualsCase (left right : Bytes) : Bool := left.map toLower = right.map toLower

/-- `parse_control_key_char`: bytes from `0x80` on are outside of the range, whatever the sign of a
`char`. -/
def parseControlKeyChar (ch : UInt8) : Option UInt8 :=
  let ch := if 0x61 ≤ ch.toNat ∧ ch.toNat ≤ 0x7a then ch - 0x20 else ch
  if ch = 0x20 ∨ ch = 0x40 then some 0
  else if ch.toNat < 0x41 ∨ 0x5f < ch.toNat then none
  else some (ch - 0x40)

structure Modifiers where
  shift : Bool
  alt : Bool
  control : Bool
deriving DecidableEq

namespace Modifiers

def unset : Modifiers := ⟨false, false, false⟩

/-- `modifier_value`. -/
def value (m : Modifiers) : ℕ :=
  1 + (if m.shift then 1 else 0) + (if m.alt then 2 else 0) + (if m.control then 4 else 0)

/-- `parse_modifier_token`. -/
def parseToken (token : Bytes) (m : Modifiers) : Option Modifiers :=
  if stringEqualsCase token (ascii "S") || stringEqualsCase token (ascii "Shift") then
    some { m with shift := true }
  else if stringEqualsCase token (ascii "M") || stringEqualsCase token (ascii "Meta") ||
      stringEqualsCase token (ascii "Alt") then
    some { m with alt := true }
  else if stringEqualsCase token (ascii "C") || stringEqualsCase token (ascii "Ctrl") ||
      stringEqualsCase token (ascii "Control") then
    some { m with control := true }
  else none

/-- The loop over the modifiers of a name; what is left is the base. -/
def skip : ℕ → Modifiers → Bytes → Modifiers × Bytes
  | 0, m, base => (m, base)
  | fuel + 1, m, base =>
    if 0x2d ∈ base then
      match parseToken (base.takeWhile (· ≠ 0x2d)) m with
      | none => (m, base)
      | some m => skip fuel m ((base.dropWhile (· ≠ 0x2d)).drop 1)
    else (m, base)

/-- The modifiers and the base of a name. -/
def split (name : Bytes) : Modifiers × Bytes := skip name.length unset name

/-- The name that `canonical_modifier_prefix` prints. -/
def canonical (m : Modifiers) (base : Bytes) : Bytes :=
  (if m.control then ascii "C-" else []) ++ (if m.alt then ascii "M-" else []) ++
    (if m.shift then ascii "S-" else []) ++ base

end Modifiers

/-- Whether a refused name is reported. -/
inductive KeyError
  | invalid | silent
deriving DecidableEq

def deskKeyNameMax : ℕ := 64

def canonicalModifierPrefix (m : Modifiers) (base : Bytes) : Except KeyError Bytes :=
  if (m.canonical base).length < deskKeyNameMax then .ok (m.canonical base) else .error .silent

inductive Special
  | tilde (code : ℕ)
  | csi (final : UInt8)
  | ss3 (final : UInt8)
deriving DecidableEq

/-- The function keys of `special_key_code`. -/
def functionKey (number : ℕ) : Special :=
  if number ≤ 4 then .ss3 (UInt8.ofNat (0x4f + number))
  else .tilde ([0, 0, 0, 0, 0, 15, 17, 18, 19, 20, 21, 23, 24].getD number 0)

def specialKeyCode (base : Bytes) : Option Special :=
  let named (names : List String) := names.any fun name => stringEqualsCase base (ascii name)
  if named ["Up"] then some (.csi 0x41)
  else if named ["Down"] then some (.csi 0x42)
  else if named ["Right"] then some (.csi 0x43)
  else if named ["Left"] then some (.csi 0x44)
  else if named ["Home"] then some (.csi 0x48)
  else if named ["End"] then some (.csi 0x46)
  else if named ["Insert", "Ins"] then some (.tilde 2)
  else if named ["Delete", "Del"] then some (.tilde 3)
  else if named ["PageUp", "PgUp"] then some (.tilde 5)
  else if named ["PageDown", "PgDn"] then some (.tilde 6)
  else
    match base with
    | letter :: first :: digits =>
      if (letter = 0x46 ∨ letter = 0x66) ∧ 0x31 ≤ first.toNat ∧ first.toNat ≤ 0x39 ∧
          digits.all isCDigit ∧ decimalValue (first :: digits) ≤ 12 then
        some (functionKey (decimalValue (first :: digits)))
      else none
    | _ => none

namespace Special

/-- The bytes of a special key with modifiers. -/
def modified (mod : ℕ) : Special → Bytes
  | tilde code => ascii "\x1b[" ++ dec code ++ ascii ";" ++ dec mod ++ ascii "~"
  | csi final => ascii "\x1b[1;" ++ dec mod ++ [final]
  | ss3 final => ascii "\x1b[1;" ++ dec mod ++ [final]

/-- The bytes of a special key alone. -/
def plain : Special → Bytes
  | tilde code => ascii "\x1b[" ++ dec code ++ ascii "~"
  | csi final => ascii "\x1b[" ++ [final]
  | ss3 final => ascii "\x1bO" ++ [final]

end Special

/-- The bytes and the normalised name of a control character. -/
def controlNamed (parsed : UInt8) : Except KeyError (Bytes × Bytes) :=
  (canonicalModifierPrefix ⟨false, false, true⟩
    (if parsed = 0 then ascii "Space" else [parsed + 0x40])).map fun name => ([parsed], name)

/-- What stands after `Control-`, `Ctrl-` or `C-`. -/
def controlKey (ch : Bytes) : Except KeyError (Bytes × Bytes) :=
  if stringEqualsCase ch (ascii "Space") then controlNamed 0
  else
    match ch with
    | [c] =>
      match parseControlKeyChar c with
      | some parsed => controlNamed parsed
      | none => .error .invalid
    | _ => .error .invalid

/-- The keys with a name and a byte of their own, with the name they are normalised to. -/
def namedKeys : List (List String × String × UInt8) :=
  [(["Space"], "Space", 0x20), (["Enter", "Return"], "Enter", 0x0d),
    (["Escape", "Esc"], "Escape", 0x1b), (["Backspace"], "Backspace", 0x7f),
    (["Tab"], "Tab", 0x09)]

def namedKey (name : Bytes) : Option (String × UInt8) :=
  (namedKeys.find? fun (names, _) =>
    names.any fun n => stringEqualsCase name (ascii n)).map Prod.snd

def modifiedSpecial (m : Modifiers) (base : Bytes) (special : Special) :
    Except KeyError (Bytes × Bytes) :=
  (canonicalModifierPrefix m base).map fun name => (special.modified m.value, name)

/-- A character with modifiers: only Alt goes with one, alone or together with Control. -/
def modifiedChar (m : Modifiers) (base : Bytes) : Except KeyError (Bytes × Bytes) :=
  match base with
  | [c] =>
    if m.alt && !m.shift then
      match if m.control then parseControlKeyChar c else some c with
      | some parsed =>
        (canonicalModifierPrefix ⟨false, true, m.control⟩ base).map fun name =>
          ([0x1b, parsed], name)
      | none => .error .invalid
    else .error .invalid
  | _ => .error .invalid

/-- A name without modifiers that is none of the named keys. -/
def unmodified (name : Bytes) : Except KeyError (Bytes × Bytes) :=
  match specialKeyCode name with
  | some special =>
    if name.length < deskKeyNameMax then .ok (special.plain, name) else .error .silent
  | none => if name.length = 1 then .ok (name, name) else .error .invalid

/-- The bytes of a key and its normalised name, without the prefix. -/
def readName (name : Bytes) : Except KeyError (Bytes × Bytes) :=
  let (m, base) := Modifiers.split name
  let starts (long : List String) := long.any fun start => (ascii start).isPrefixOf name
  if name.length = 2 ∧ name.head? = some 0x5e then
    match parseControlKeyChar (name.getD 1 0) with
    | some parsed => controlNamed parsed
    | none => .error .invalid
  else if starts ["Control-", "control-"] ∧ 0x2d ∉ name.drop 8 then controlKey (name.drop 8)
  else if starts ["Ctrl-", "ctrl-"] ∧ 0x2d ∉ name.drop 5 then controlKey (name.drop 5)
  else if starts ["C-", "c-"] then
    match specialKeyCode base with
    | some special => modifiedSpecial m base special
    | none => controlKey (name.drop 2)
  else
    match namedKey name with
    | some (normalised, byte) => .ok ([byte], ascii normalised)
    | none =>
      if m ≠ .unset then
        match specialKeyCode base with
        | some special => modifiedSpecial m base special
        | none => modifiedChar m base
      else unmodified name

/-- Whether a name asks for the prefix key first. -/
def hasPrefix (text : Bytes) : Bool :=
  (ascii "Prefix-").isPrefixOf text || (ascii "prefix-").isPrefixOf text

/-- The name of a key without the prefix. -/
def unprefixed (text : Bytes) : Bytes := if hasPrefix text then text.drop 7 else text

/-- The name of a key with the prefix in front of it. -/
def prefixed (usesPrefix : Bool) (name : Bytes) : Bytes :=
  if usesPrefix then ascii "Prefix-" ++ name else name

/-- The key with the bytes and the name that were read. -/
def finishKey (usesPrefix : Bool) (r : Bytes × Bytes) : Except KeyError DeskKey :=
  if r.1 = [] ∨ 16 < r.1.length then .error .invalid
  else if usesPrefix ∧ deskKeyNameMax ≤ (prefixed usesPrefix r.2).length then .error .silent
  else .ok ⟨usesPrefix, r.1, prefixed usesPrefix r.2⟩

def readKey (text : Bytes) : Except KeyError DeskKey :=
  if deskKeyNameMax ≤ (unprefixed text).length then .error .invalid
  else (readName (unprefixed text)).bind (finishKey (hasPrefix text))

/-- `cubicle_config_parse_desk_key_name`, into a buffer for the longest name; no message is written
where a name does not fit. -/
def parseDeskKeyName (text : Bytes) : Except Bytes DeskKey :=
  if cstr text = [] then .error (ascii "desk key name must not be empty")
  else
    match readKey (cstr text) with
    | .ok key => .ok key
    | .error .invalid => .error (ascii "invalid desk key name '" ++ cstr text ++ ascii "'")
    | .error .silent => .error []

example : parseDeskKeyName (ascii "Prefix-ctrl-b") = .ok ⟨true, [0x02], ascii "Prefix-C-B"⟩ := by
  decide

example : parseDeskKeyName (ascii "S-Alt-PgUp") =
    .ok ⟨false, ascii "\x1b[5;4~", ascii "M-S-PgUp"⟩ := by
  decide

variable {left right base rest : Bytes} {c letter parsed : UInt8} {m : Modifiers}
  {r : Bytes × Bytes} {usesPrefix : Bool} {key : DeskKey}

theorem length_eq_of_stringEqualsCase (h : stringEqualsCase left right = true) :
    left.length = right.length := by
  have hmap : left.map toLower = right.map toLower := of_decide_eq_true h
  simpa using congrArg List.length hmap

theorem toLower_eq_dash {b : UInt8} : toLower b = 0x2d ↔ b = 0x2d := by
  unfold toLower
  split_ifs with h
  · constructor
    · intro heq
      have hnat := congrArg UInt8.toNat heq
      rw [UInt8.toNat_add] at hnat
      simp only [UInt8.reduceToNat] at hnat
      omega
    · rintro rfl
      simp at h
  · rfl

theorem dash_mem_of_stringEqualsCase (h : stringEqualsCase left right = true) :
    0x2d ∈ left → 0x2d ∈ right := by
  have hmap : left.map toLower = right.map toLower := of_decide_eq_true h
  intro hmem
  have hlower : 0x2d ∈ right.map toLower := by
    rw [← hmap]
    exact mem_map.mpr ⟨0x2d, hmem, by decide⟩
  obtain ⟨b, hb, heq⟩ := mem_map.mp hlower
  rwa [toLower_eq_dash.mp heq] at hb

variable {name text : Bytes}

theorem stringEqualsCase_singleton (h : name.length ≠ 1) : stringEqualsCase [c] name = false := by
  refine Bool.eq_false_iff.mpr fun heq => h ?_
  rw [← length_eq_of_stringEqualsCase heq]
  rfl

theorem specialKeyCode_singleton (c : UInt8) : specialKeyCode [c] = none := by
  have hno : ∀ name : Bytes, name.length ≠ 1 → stringEqualsCase [c] name = false :=
    fun name => stringEqualsCase_singleton
  simp [specialKeyCode, hno, ascii]

namespace Modifiers

/-- The modifier that a token stands for does not depend on the ones before it. -/
theorem parseToken_eq_none {token : Bytes} {m : Modifiers} (h : parseToken token m = none)
    (m' : Modifiers) : parseToken token m' = none := by
  unfold parseToken at h ⊢
  split_ifs at h ⊢
  rfl

/-- A base: it does not start with a modifier. -/
def IsBase (base : Bytes) : Prop :=
  0x2d ∈ base → parseToken (base.takeWhile (· ≠ 0x2d)) unset = none

theorem isBase_of_notMem {base : Bytes} (h : 0x2d ∉ base) : IsBase base := fun hmem => absurd hmem h

theorem skip_of_isBase {base : Bytes} (h : IsBase base) (fuel : ℕ) (m : Modifiers) :
    skip fuel m base = (m, base) := by
  cases fuel with
  | zero => rfl
  | succ fuel =>
    rw [skip]
    split_ifs with hmem
    · rw [parseToken_eq_none (h hmem)]
    · rfl

theorem skip_token (token : Bytes) {m m' : Modifiers} (hdash : 0x2d ∉ token)
    (h : parseToken token m = some m') (fuel : ℕ) (rest : Bytes) :
    skip (fuel + 1) m (token ++ 0x2d :: rest) = skip fuel m' rest := by
  have hall : ∀ b ∈ token, decide (b ≠ 0x2d) = true := by
    intro b hb
    exact decide_eq_true fun heq => hdash (heq ▸ hb)
  have htake : (token ++ 0x2d :: rest).takeWhile (· ≠ 0x2d) = token := by
    rw [takeWhile_append_of_pos hall]
    simp
  have hdrop : ((token ++ 0x2d :: rest).dropWhile (· ≠ 0x2d)).drop 1 = rest := by
    rw [dropWhile_append_of_pos hall]
    simp
  rw [skip, if_pos (by simp), htake, h, hdrop]

/-- What the loop leaves is a base, as every turn takes at least the dash. -/
theorem isBase_skip (fuel : ℕ) (m : Modifiers) (name : Bytes) (h : name.length ≤ fuel) :
    IsBase (skip fuel m name).2 := by
  induction fuel generalizing m name with
  | zero =>
    rw [length_eq_zero_iff.mp (Nat.le_zero.mp h)]
    exact isBase_of_notMem (by simp [skip])
  | succ fuel ih =>
    rw [skip]
    split_ifs with hmem
    · cases htoken : parseToken (name.takeWhile (· ≠ 0x2d)) m with
      | none => exact fun _ => parseToken_eq_none htoken unset
      | some m' =>
        refine ih m' _ ?_
        have hle : (name.dropWhile (· ≠ 0x2d)).length ≤ name.length :=
          (dropWhile_sublist _).length_le
        rw [length_drop]
        omega
    · exact isBase_of_notMem hmem

theorem skip_control (fuel : ℕ) (m : Modifiers) (name : Bytes) (h : m.control = true) :
    (skip fuel m name).1.control = true := by
  induction fuel generalizing m name with
  | zero => exact h
  | succ fuel ih =>
    rw [skip]
    split_ifs
    · cases htoken : parseToken (name.takeWhile (· ≠ 0x2d)) m with
      | none => exact h
      | some m' =>
        refine ih m' _ ?_
        unfold parseToken at htoken
        split_ifs at htoken <;> simp [← Option.some.inj htoken, h]
    · exact h

/-- A name that starts with Control has it among its modifiers. -/
theorem split_control {start : Bytes} (token : String) (hstart : start = ascii token ++ [0x2d])
    (htoken : 0x2d ∉ ascii token)
    (hparse : parseToken (ascii token) unset = some ⟨false, false, true⟩) (rest : Bytes) :
    (split (start ++ rest)).1.control = true := by
  have hlength : (start ++ rest).length = (ascii token).length + rest.length + 1 := by
    simp [hstart]
    omega
  rw [split, hlength, hstart, append_assoc, singleton_append,
    skip_token _ htoken hparse]
  exact skip_control _ _ _ rfl

theorem skip_suffix (fuel : ℕ) (m : Modifiers) (name : Bytes) : (skip fuel m name).2 <:+ name := by
  induction fuel generalizing m name with
  | zero => exact suffix_rfl
  | succ fuel ih =>
    rw [skip]
    split_ifs
    · cases parseToken (name.takeWhile (· ≠ 0x2d)) m with
      | none => exact suffix_rfl
      | some m' =>
        exact (ih m' _).trans ((List.drop_suffix _ _).trans (List.dropWhile_suffix _))
    · exact suffix_rfl

theorem split_suffix (name : Bytes) : (split name).2 <:+ name := skip_suffix _ _ _

theorem isBase_split (name : Bytes) : IsBase (split name).2 := isBase_skip _ _ _ le_rfl

theorem split_of_notMem (h : 0x2d ∉ name) : split name = (unset, name) :=
  skip_of_isBase (isBase_of_notMem h) _ _

/-- A canonical name has the modifiers and the base it was made of. -/
theorem split_canonical (m : Modifiers) {base : Bytes} (h : IsBase base) :
    split (m.canonical base) = (m, base) := by
  have hC : ∀ (fuel : ℕ) (m : Modifiers) (rest : Bytes),
      skip (fuel + 1) m (0x43 :: 0x2d :: rest) = skip fuel { m with control := true } rest :=
    fun fuel m rest => skip_token [0x43] (by decide) rfl fuel rest
  have hM : ∀ (fuel : ℕ) (m : Modifiers) (rest : Bytes),
      skip (fuel + 1) m (0x4d :: 0x2d :: rest) = skip fuel { m with alt := true } rest :=
    fun fuel m rest => skip_token [0x4d] (by decide) rfl fuel rest
  have hS : ∀ (fuel : ℕ) (m : Modifiers) (rest : Bytes),
      skip (fuel + 1) m (0x53 :: 0x2d :: rest) = skip fuel { m with shift := true } rest :=
    fun fuel m rest => skip_token [0x53] (by decide) rfl fuel rest
  obtain ⟨shift, alt, control⟩ := m
  cases control <;> cases alt <;> cases shift <;>
    simp [split, canonical, ascii, unset, hC, hM, hS, skip_of_isBase h]

end Modifiers

open Modifiers

theorem namedKey_of_dash (h : 0x2d ∈ name) : namedKey name = none := by
  have hno : ∀ other : Bytes, 0x2d ∉ other → stringEqualsCase name other = false :=
    fun other hother => Bool.eq_false_iff.mpr fun heq => hother (dash_mem_of_stringEqualsCase heq h)
  simp [namedKey, namedKeys, hno, ascii]

theorem readName_control (rest : Bytes) :
    readName (0x43 :: 0x2d :: rest) =
      match specialKeyCode (split (0x43 :: 0x2d :: rest)).2 with
      | some special => modifiedSpecial (split (0x43 :: 0x2d :: rest)).1
          (split (0x43 :: 0x2d :: rest)).2 special
      | none => controlKey rest := by
  simp [readName, ascii, List.isPrefixOf]

theorem readName_modified (hletter : letter = 0x4d ∨ letter = 0x53)
    (hm : (split (letter :: 0x2d :: rest)).1 ≠ .unset) :
    readName (letter :: 0x2d :: rest) =
      match specialKeyCode (split (letter :: 0x2d :: rest)).2 with
      | some special => modifiedSpecial (split (letter :: 0x2d :: rest)).1
          (split (letter :: 0x2d :: rest)).2 special
      | none => modifiedChar (split (letter :: 0x2d :: rest)).1
          (split (letter :: 0x2d :: rest)).2 := by
  have hnamed : namedKey (letter :: 0x2d :: rest) = none := namedKey_of_dash (by simp)
  rcases hletter with rfl | rfl
  · simp [readName, ascii, List.isPrefixOf, hnamed, hm]
  · simp [readName, ascii, List.isPrefixOf, hnamed, hm]

theorem parseControlKeyChar_bounds (h : parseControlKeyChar c = some parsed) :
    parsed.toNat < 32 ∧ c ≠ 0x2d := by
  constructor
  · unfold parseControlKeyChar at h
    generalize (if 0x61 ≤ c.toNat ∧ c.toNat ≤ 0x7a then c - 0x20 else c) = ch at h
    dsimp only at h
    split_ifs at h with hzero hrange
    · rw [← Option.some.inj h]
      decide
    · rw [← Option.some.inj h, UInt8.toNat_sub]
      simp only [UInt8.reduceToNat]
      omega
  · rintro rfl
    simp [parseControlKeyChar] at h

theorem parseControlKeyChar_letter (h : parsed.toNat < 32) :
    parseControlKeyChar (parsed + 0x40) = some parsed := by
  have hnat : parsed = UInt8.ofNat parsed.toNat := UInt8.ofNat_toNat.symm
  generalize parsed.toNat = n at h hnat
  subst hnat
  interval_cases n <;> rfl

theorem readName_controlNamed (h : parsed.toNat < 32) (hr : controlNamed parsed = .ok r) :
    readName r.2 = .ok r := by
  by_cases hzero : parsed = 0
  · subst hzero
    have : r = ([0], ascii "C-Space") := by
      simpa [controlNamed, canonicalModifierPrefix, canonical, deskKeyNameMax, ascii, Except.map,
        eq_comm] using hr
    subst this
    decide
  · have hdash : parsed + 0x40 ≠ 0x2d := by
      intro heq
      have := congrArg UInt8.toNat heq
      rw [UInt8.toNat_add] at this
      simp only [UInt8.reduceToNat] at this
      omega
    have hbase : IsBase [parsed + 0x40] := isBase_of_notMem (by simpa using hdash.symm)
    have hsplit := split_canonical ⟨false, false, true⟩ hbase
    have hname : canonical ⟨false, false, true⟩ [parsed + 0x40] =
        0x43 :: 0x2d :: [parsed + 0x40] := rfl
    have hr' : r = ([parsed], 0x43 :: 0x2d :: [parsed + 0x40]) := by
      simpa [controlNamed, canonicalModifierPrefix, hname, hzero, deskKeyNameMax, Except.map,
        eq_comm] using hr
    rw [hname] at hsplit
    rw [hr', readName_control, hsplit]
    simp only [specialKeyCode_singleton, controlKey]
    rw [stringEqualsCase_singleton (by decide), parseControlKeyChar_letter h]
    simp only [Bool.false_eq_true, if_false]
    rw [hr, hr']

theorem controlNamed_of_controlKey {ch : Bytes} (hr : controlKey ch = .ok r) :
    0x2d ∉ ch ∧ ∃ parsed : UInt8, parsed.toNat < 32 ∧ controlNamed parsed = .ok r := by
  unfold controlKey at hr
  split_ifs at hr with hspace
  · exact ⟨fun hmem => absurd (dash_mem_of_stringEqualsCase hspace hmem) (by decide),
      0, by decide, hr⟩
  · split at hr
    · rename_i c
      split at hr
      · rename_i parsed hparsed
        obtain ⟨hlt, hdash⟩ := parseControlKeyChar_bounds hparsed
        exact ⟨by simpa using hdash.symm, parsed, hlt, hr⟩
      · cases hr
    · cases hr

theorem readName_modifiedSpecial {special : Special} (hm : m ≠ .unset) (hbase : IsBase base)
    (hspecial : specialKeyCode base = some special) (hr : modifiedSpecial m base special = .ok r) :
    readName r.2 = .ok r := by
  have hsplit := split_canonical m hbase
  have hname : r.2 = m.canonical base := by
    unfold modifiedSpecial canonicalModifierPrefix at hr
    split_ifs at hr
    · exact (congrArg Prod.snd (Except.ok.inj hr)).symm
    · cases hr
  rw [hname]
  obtain ⟨shift, alt, control⟩ := m
  cases control
  · cases alt
    · cases shift
      · exact absurd rfl hm
      · change split (0x53 :: 0x2d :: base) = _ at hsplit
        change readName (0x53 :: 0x2d :: base) = _
        rw [readName_modified (Or.inr rfl) (by rw [hsplit]; exact hm), hsplit]
        simp only [hspecial]
        exact hr
    · change split (0x4d :: 0x2d :: _) = _ at hsplit
      change readName (0x4d :: 0x2d :: _) = _
      rw [readName_modified (Or.inl rfl) (by rw [hsplit]; exact hm), hsplit]
      simp only [hspecial]
      exact hr
  · change split (0x43 :: 0x2d :: _) = _ at hsplit
    change readName (0x43 :: 0x2d :: _) = _
    rw [readName_control, hsplit]
    simp only [hspecial]
    exact hr

def ControlAltChar (name : Bytes) : Prop :=
  (split name).1.alt = true ∧ (split name).1.control = true ∧ (split name).2.length = 1

instance (name : Bytes) : Decidable (ControlAltChar name) := inferInstanceAs (Decidable (_ ∧ _ ∧ _))

theorem not_controlAltChar_of_alt (h : (split name).1.alt = false) : ¬ ControlAltChar name := by
  rintro ⟨halt, -⟩
  rw [h] at halt
  cases halt

theorem not_controlAltChar_of_notMem (h : 0x2d ∉ name) : ¬ ControlAltChar name :=
  not_controlAltChar_of_alt (by rw [split_of_notMem h]; rfl)

theorem not_controlAltChar_of_control {token : Bytes} (htoken : 0x2d ∉ token)
    (hparse : parseToken token .unset = some ⟨false, false, true⟩) (hrest : 0x2d ∉ rest) :
    ¬ ControlAltChar (token ++ 0x2d :: rest) := by
  refine not_controlAltChar_of_alt ?_
  have hlength : (token ++ 0x2d :: rest).length = token.length + rest.length + 1 := by
    simp
    omega
  rw [split, hlength, skip_token token htoken hparse, skip_of_isBase (isBase_of_notMem hrest)]

/-- A character with Alt is read again unless Control goes with it: then the canonical name puts
Control first, where no character is taken after another modifier. -/
theorem readName_modifiedChar (hbase : IsBase base) (hr : modifiedChar m base = .ok r) :
    base.length = 1 ∧ m.alt = true ∧ (readName r.2 = .ok r ↔ m.control = false) := by
  obtain ⟨shift, alt, control⟩ := m
  unfold modifiedChar at hr
  split at hr
  on_goal 2 => cases hr
  rename_i c
  have hmods : (alt && !shift) = true := by
    by_contra hno
    rw [if_neg hno] at hr
    cases hr
  obtain ⟨rfl, rfl⟩ : alt = true ∧ shift = false := by simpa using hmods
  refine ⟨rfl, rfl, ?_⟩
  have hsplit := split_canonical ⟨false, true, control⟩ hbase
  cases control
  · have hname : canonical ⟨false, true, false⟩ [c] = 0x4d :: 0x2d :: [c] := rfl
    have hr' : r = ([0x1b, c], 0x4d :: 0x2d :: [c]) := by
      simpa [canonicalModifierPrefix, hname, deskKeyNameMax, Except.map, eq_comm] using hr
    rw [hname] at hsplit
    rw [hr', readName_modified (Or.inl rfl) (by rw [hsplit]; simp [unset]), hsplit]
    simp [specialKeyCode_singleton, modifiedChar, canonicalModifierPrefix, hname, deskKeyNameMax,
      Except.map]
  · have hname : canonical ⟨false, true, true⟩ [c] = 0x43 :: 0x2d :: 0x4d :: 0x2d :: [c] := rfl
    have hr' : r.2 = 0x43 :: 0x2d :: 0x4d :: 0x2d :: [c] := by
      simp only [Bool.not_false, Bool.and_self, if_true] at hr
      split at hr
      · simp only [canonicalModifierPrefix, hname] at hr
        exact (congrArg Prod.snd (Except.ok.inj hr)).symm
      · cases hr
    have hspace : stringEqualsCase [0x4d, 0x2d, c] (ascii "Space") = false := by
      refine Bool.eq_false_iff.mpr fun heq => ?_
      have hlength := length_eq_of_stringEqualsCase heq
      simp [ascii] at hlength
    rw [hname] at hsplit
    rw [hr', readName_control, hsplit]
    simp [specialKeyCode_singleton, controlKey, hspace]

theorem namedKey_spec {normalised : String} {byte : UInt8}
    (h : namedKey name = some (normalised, byte)) :
    0x2d ∉ name ∧ readName (ascii normalised) = .ok ([byte], ascii normalised) := by
  refine ⟨fun hmem => ?_, ?_⟩
  · rw [namedKey_of_dash hmem] at h
    cases h
  · obtain ⟨⟨names, entry⟩, hfind, hentry⟩ := Option.map_eq_some_iff.mp h
    have hall : ∀ e ∈ namedKeys,
        readName (ascii e.2.1) = .ok ([e.2.2], ascii e.2.1) := by decide
    have := hall _ (mem_of_find?_eq_some hfind)
    rwa [show entry = (normalised, byte) from hentry] at this

theorem exists_of_starts {long short : String} (k : ℕ) (hlong : (ascii long).length = k)
    (hshort : (ascii short).length = k)
    (h : [long, short].any (fun start => (ascii start).isPrefixOf name) = true) :
    ∃ rest, name.drop k = rest ∧ (name = ascii long ++ rest ∨ name = ascii short ++ rest) := by
  simp only [any_cons, any_nil, Bool.or_false, Bool.or_eq_true,
    List.isPrefixOf_iff_prefix] at h
  rcases h with ⟨rest, rfl⟩ | ⟨rest, rfl⟩
  · exact ⟨rest, by rw [← hlong, drop_left], Or.inl rfl⟩
  · exact ⟨rest, by rw [← hshort, drop_left], Or.inr rfl⟩

inductive Reading (name : Bytes) (r : Bytes × Bytes) : Prop
  | control (parsed : UInt8) (hlt : parsed.toNat < 32) (hr : controlNamed parsed = .ok r)
      (hno : ¬ ControlAltChar name)
  | named (normalised : String) (byte : UInt8) (hkey : namedKey name = some (normalised, byte))
      (hr : r = ([byte], ascii normalised))
  | special (special : Special) (hm : (split name).1 ≠ .unset)
      (hspecial : specialKeyCode (split name).2 = some special)
      (hr : modifiedSpecial (split name).1 (split name).2 special = .ok r)
  | char (hr : modifiedChar (split name).1 (split name).2 = .ok r)
  | unmodified (hm : (split name).1 = .unset) (hread : Config.unmodified name = .ok r)
      (hr : r.2 = name)

theorem Reading.of_controlKey {start : Bytes} (token : String)
    (hstart : start = ascii token ++ [0x2d]) (htoken : 0x2d ∉ ascii token)
    (hparse : parseToken (ascii token) .unset = some ⟨false, false, true⟩)
    (hr : controlKey rest = .ok r) : Reading (start ++ rest) r := by
  obtain ⟨hdash, parsed, hlt, hnamed⟩ := controlNamed_of_controlKey hr
  refine .control parsed hlt hnamed ?_
  rw [hstart, append_assoc]
  exact not_controlAltChar_of_control htoken hparse hdash

theorem Reading.of_unmodified (hm : (split name).1 = .unset) (h : Config.unmodified name = .ok r) :
    Reading name r := by
  refine .unmodified hm h ?_
  unfold Config.unmodified at h
  split at h
  · split_ifs at h
    rw [← Except.ok.inj h]
  · split_ifs at h
    rw [← Except.ok.inj h]

theorem reading_of_readName (h : readName name = .ok r) : Reading name r := by
  unfold readName at h
  dsimp only at h
  split_ifs at h with hcaret hcontrol hctrl hc hm
  · obtain ⟨c, rfl⟩ : ∃ c, name = [0x5e, c] := by
      obtain ⟨a, c, rfl⟩ := length_eq_two.mp hcaret.1
      exact ⟨c, by simpa using hcaret.2⟩
    simp only [getD_cons_succ, getD_cons_zero] at h
    split at h
    · rename_i parsed hparsed
      obtain ⟨hlt, hdash⟩ := parseControlKeyChar_bounds hparsed
      exact .control parsed hlt h (not_controlAltChar_of_notMem (by simpa using hdash.symm))
    · cases h
  · obtain ⟨rest, hrest, rfl | rfl⟩ := exists_of_starts 8 (by decide) (by decide) hcontrol.1
    · rw [hrest] at h
      exact .of_controlKey "Control" (by decide) (by decide) (by decide) h
    · rw [hrest] at h
      exact .of_controlKey "control" (by decide) (by decide) (by decide) h
  · obtain ⟨rest, hrest, rfl | rfl⟩ := exists_of_starts 5 (by decide) (by decide) hctrl.1
    · rw [hrest] at h
      exact .of_controlKey "Ctrl" (by decide) (by decide) (by decide) h
    · rw [hrest] at h
      exact .of_controlKey "ctrl" (by decide) (by decide) (by decide) h
  · obtain ⟨rest, hrest, hname⟩ := exists_of_starts 2 (by decide) (by decide) hc
    split at h
    · rename_i special hspecial
      have hset : (split name).1.control = true := by
        rcases hname with rfl | rfl
        · exact split_control "C" (by decide) (by decide) (by decide) rest
        · exact split_control "c" (by decide) (by decide) (by decide) rest
      exact .special special (fun hunset => by simp [hunset, unset] at hset) hspecial h
    · rw [hrest] at h
      rcases hname with rfl | rfl
      · exact .of_controlKey "C" (by decide) (by decide) (by decide) h
      · exact .of_controlKey "c" (by decide) (by decide) (by decide) h
  · split at h
    · rename_i normalised byte hnamed
      exact .named normalised byte hnamed (Except.ok.inj h).symm
    · split at h
      · rename_i special hspecial
        exact .special special hm hspecial h
      · exact .char h
  · split at h
    · rename_i normalised byte hnamed
      exact .named normalised byte hnamed (Except.ok.inj h).symm
    · exact .of_unmodified (not_not.mp hm) h

/-- A name that is read is read as the same key from its normalised form, unless it has Control and
Alt on a character. -/
theorem readName_normalised (h : readName name = .ok r) :
    readName r.2 = .ok r ↔ ¬ ControlAltChar name := by
  cases reading_of_readName h with
  | control parsed hlt hr hno => exact iff_of_true (readName_controlNamed hlt hr) hno
  | named normalised byte hkey hr =>
    obtain ⟨hdash, hagain⟩ := namedKey_spec hkey
    rw [hr]
    exact iff_of_true hagain (not_controlAltChar_of_notMem hdash)
  | special special hm hspecial hr =>
    refine iff_of_true (readName_modifiedSpecial hm (isBase_split name) hspecial hr) ?_
    rintro ⟨-, -, hlength⟩
    obtain ⟨c, hc⟩ := length_eq_one_iff.mp hlength
    rw [hc, specialKeyCode_singleton] at hspecial
    cases hspecial
  | char hr =>
    obtain ⟨hlength, halt, hiff⟩ := readName_modifiedChar (isBase_split name) hr
    rw [hiff, ControlAltChar]
    simp [hlength, halt]
  | unmodified hm _ hr =>
    rw [hr]
    refine iff_of_true h (not_controlAltChar_of_alt ?_)
    rw [hm]
    rfl

theorem canonicalModifierPrefix_eq_ok (h : canonicalModifierPrefix m base = .ok name) :
    name = m.canonical base ∧ name.length < deskKeyNameMax := by
  unfold canonicalModifierPrefix at h
  split_ifs at h with hfits
  rw [← Except.ok.inj h]
  exact ⟨rfl, hfits⟩

/-- What every normalised name has, so that it can be read as a whole. -/
structure Fits (name : Bytes) : Prop where
  zero_notMem : 0 ∉ name
  length_lt : name.length < deskKeyNameMax
  ne_nil : name ≠ []

theorem hasPrefix_cons (h : letter ≠ 0x50 ∧ letter ≠ 0x70) (rest : Bytes) :
    hasPrefix (letter :: rest) = false := by
  simp [hasPrefix, ascii, List.isPrefixOf, h.1.symm, h.2.symm]

theorem fits_canonical (hm : m ≠ .unset) (hzero : 0 ∉ base)
    (hlength : (m.canonical base).length < deskKeyNameMax) :
    Fits (m.canonical base) ∧ hasPrefix (m.canonical base) = false := by
  obtain ⟨shift, alt, control⟩ := m
  refine ⟨⟨?_, hlength, ?_⟩, ?_⟩
  · cases control <;> cases alt <;> cases shift <;> simpa [canonical, ascii] using hzero
  · cases control <;> cases alt <;> cases shift <;>
      first | exact absurd rfl hm | simp [canonical, ascii]
  · cases control <;> cases alt <;> cases shift <;>
      first | exact absurd rfl hm | exact hasPrefix_cons (by decide) _

theorem fits_of_map_canonical {sequence : Bytes} (hm : m ≠ .unset) (hzero : 0 ∉ base)
    (hr : (canonicalModifierPrefix m base).map (fun name => (sequence, name)) = .ok r) :
    Fits r.2 ∧ hasPrefix r.2 = false := by
  cases hname : canonicalModifierPrefix m base with
  | error e =>
    rw [hname] at hr
    cases hr
  | ok name =>
    rw [hname] at hr
    obtain ⟨rfl, hlength⟩ := canonicalModifierPrefix_eq_ok hname
    rw [← Except.ok.inj hr]
    exact fits_canonical hm hzero hlength

theorem fits_of_readName (h : readName name = .ok r) (hzero : 0 ∉ name)
    (hlength : name.length < deskKeyNameMax) :
    Fits r.2 ∧ (hasPrefix r.2 = true → hasPrefix name = true) := by
  have hbase : 0 ∉ (split name).2 := fun hmem => hzero ((split_suffix name).subset hmem)
  have hno : ∀ {r : Bytes × Bytes}, Fits r.2 ∧ hasPrefix r.2 = false →
      Fits r.2 ∧ (hasPrefix r.2 = true → hasPrefix name = true) := by
    rintro r ⟨hfits, hstarts⟩
    refine ⟨hfits, fun htrue => ?_⟩
    rw [hstarts] at htrue
    cases htrue
  cases reading_of_readName h with
  | control parsed hlt hr _ =>
    refine hno (fits_of_map_canonical (by decide) ?_ hr)
    split_ifs
    · decide
    · intro hmem
      have hnat := congrArg UInt8.toNat (mem_singleton.mp hmem)
      rw [UInt8.toNat_add] at hnat
      simp only [UInt8.reduceToNat] at hnat
      omega
  | named normalised byte hkey hr =>
    obtain ⟨⟨names, entry⟩, hfind, hentry⟩ := Option.map_eq_some_iff.mp hkey
    have hall : ∀ e ∈ namedKeys, (0 ∉ ascii e.2.1 ∧ (ascii e.2.1).length < deskKeyNameMax ∧
        ascii e.2.1 ≠ []) ∧ hasPrefix (ascii e.2.1) = false := by decide
    have hthis := hall _ (mem_of_find?_eq_some hfind)
    rw [show entry = (normalised, byte) from hentry] at hthis
    obtain ⟨⟨hz, hl, hn⟩, hp⟩ := hthis
    rw [hr]
    exact hno ⟨⟨hz, hl, hn⟩, hp⟩
  | special special hm hspecial hr => exact hno (fits_of_map_canonical hm hbase hr)
  | char hr =>
    unfold modifiedChar at hr
    split at hr
    · split at hr
      · split at hr
        · exact hno (fits_of_map_canonical (by simp [unset]) hbase hr)
        · cases hr
      · cases hr
    · cases hr
  | unmodified hm _ hr =>
    rw [hr]
    refine ⟨⟨hzero, hlength, ?_⟩, id⟩
    rintro rfl
    cases h

theorem finishKey_eq_ok :
    finishKey usesPrefix r = .ok key ↔
      (r.1 ≠ [] ∧ r.1.length ≤ 16) ∧
      (usesPrefix = true → (prefixed usesPrefix r.2).length < deskKeyNameMax) ∧
      key = ⟨usesPrefix, r.1, prefixed usesPrefix r.2⟩ := by
  unfold finishKey
  split_ifs with hsequence hlong
  · simp only [false_iff, not_and]
    rintro ⟨hne, hle⟩
    exact absurd hsequence (not_or.mpr ⟨hne, Nat.not_lt.mpr hle⟩)
  · simp only [false_iff, not_and]
    rintro - hfit
    exact absurd (hfit hlong.1) (Nat.not_lt.mpr hlong.2)
  · obtain ⟨hne, hle⟩ := not_or.mp hsequence
    rw [Except.ok.injEq, eq_comm]
    refine ⟨fun hkey => ⟨⟨hne, Nat.not_lt.mp hle⟩, fun huses => ?_, hkey⟩, fun hkey => hkey.2.2⟩
    exact Nat.not_le.mp fun hge => hlong ⟨huses, hge⟩

theorem readKey_eq_ok :
    readKey text = .ok key ↔ (unprefixed text).length < deskKeyNameMax ∧
      ∃ r, readName (unprefixed text) = .ok r ∧ finishKey (hasPrefix text) r = .ok key := by
  unfold readKey
  split_ifs with hlength
  · simp [Nat.not_lt.mpr hlength]
  · cases readName (unprefixed text) with
    | error e => simp [Except.bind]
    | ok r => simp [Except.bind, Nat.not_le.mp hlength]

theorem parseDeskKeyName_eq_ok :
    parseDeskKeyName text = .ok key ↔ cstr text ≠ [] ∧ readKey (cstr text) = .ok key := by
  unfold parseDeskKeyName
  split_ifs with hnil
  · simp [hnil]
  · cases readKey (cstr text) with
    | ok key => simp [hnil]
    | error e => cases e <;> simp

theorem unprefixed_prefixed (h : usesPrefix = false → hasPrefix name = false) :
    hasPrefix (prefixed usesPrefix name) = usesPrefix ∧
      unprefixed (prefixed usesPrefix name) = name := by
  cases usesPrefix
  · simp [prefixed, unprefixed, h rfl]
  · have hhas : hasPrefix (prefixed true name) = true := by
      simp [hasPrefix, prefixed, ascii, List.isPrefixOf]
    exact ⟨hhas, by rw [unprefixed, hhas]; rfl⟩

/-- A key is read again from its normalised name exactly when it is not a character with both
Control and Alt: no name with Control first is accepted for such a key. -/
theorem parseDeskKeyName_normalised {text : Bytes} {key : DeskKey}
    (h : parseDeskKeyName text = .ok key) :
    parseDeskKeyName key.name = .ok key ↔ ¬ ControlAltChar (unprefixed (cstr text)) := by
  obtain ⟨-, hkey⟩ := parseDeskKeyName_eq_ok.mp h
  obtain ⟨hlength, r, hread, hfinish⟩ := readKey_eq_ok.mp hkey
  obtain ⟨-, hfit, rfl⟩ := finishKey_eq_ok.mp hfinish
  have hzero : 0 ∉ unprefixed (cstr text) := by
    have hcstr := zero_notMem_cstr text
    unfold unprefixed
    split_ifs
    · exact fun hmem => hcstr (mem_of_mem_drop hmem)
    · exact hcstr
  obtain ⟨hfits, hagain⟩ := fits_of_readName hread hzero hlength
  have hplain : hasPrefix (cstr text) = false → hasPrefix r.2 = false := by
    intro hno
    refine Bool.eq_false_iff.mpr fun hyes => ?_
    have hname := hagain hyes
    rw [unprefixed, hno] at hname
    simp [hno] at hname
  obtain ⟨hhas, hun⟩ := unprefixed_prefixed hplain
  have hcstr : cstr (prefixed (hasPrefix (cstr text)) r.2) =
      prefixed (hasPrefix (cstr text)) r.2 := by
    refine cstr_eq_self ?_
    unfold prefixed
    split_ifs
    · simpa [ascii] using hfits.zero_notMem
    · exact hfits.zero_notMem
  have hne : prefixed (hasPrefix (cstr text)) r.2 ≠ [] := by
    unfold prefixed
    split_ifs
    · simp [ascii]
    · exact hfits.ne_nil
  rw [← readName_normalised hread, parseDeskKeyName_eq_ok, hcstr, readKey_eq_ok, hun, hhas]
  constructor
  · rintro ⟨-, -, r', hread', hfinish'⟩
    obtain ⟨-, -, heq⟩ := finishKey_eq_ok.mp hfinish'
    have hsequence : r.1 = r'.1 := congrArg DeskKey.sequence heq
    have hname : prefixed (hasPrefix (cstr text)) r.2 = prefixed (hasPrefix (cstr text)) r'.2 :=
      congrArg DeskKey.name heq
    have hname' : r.2 = r'.2 := by
      unfold prefixed at hname
      split_ifs at hname
      · exact append_cancel_left hname
      · exact hname
    rw [hread', Prod.ext hsequence hname']
  · exact fun hread' => ⟨hne, hfits.length_lt, r, hread', hfinish⟩

theorem alt_control_x_not_read_again :
    parseDeskKeyName (ascii "M-C-x") = .ok ⟨false, [0x1b, 0x18], ascii "C-M-x"⟩ ∧
      parseDeskKeyName (ascii "C-M-x") = .error (ascii "invalid desk key name 'C-M-x'") := by
  decide

theorem alt_pageUp_read_again :
    parseDeskKeyName (ascii "Prefix-alt-PgUp") =
        .ok ⟨true, ascii "\x1b[5;3~", ascii "Prefix-M-PgUp"⟩ ∧
      parseDeskKeyName (ascii "Prefix-M-PgUp") =
        .ok ⟨true, ascii "\x1b[5;3~", ascii "Prefix-M-PgUp"⟩ := by
  have h : parseDeskKeyName (ascii "Prefix-alt-PgUp") =
      .ok ⟨true, ascii "\x1b[5;3~", ascii "Prefix-M-PgUp"⟩ := by decide
  exact ⟨h, (parseDeskKeyName_normalised h).mpr (by decide)⟩

end Cubicle.Config
