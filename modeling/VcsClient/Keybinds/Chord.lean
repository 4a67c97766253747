import VcsClient.Lib.Text
import Mathlib.Data.UInt

/-!
# Chords

`internal/chord`: keyboard chords, their text and the keys they can name. A
chord that is printed is read back, and what is read prints to text that is read
as the same chord.
-/

namespace VcsClient.Keybinds

open VcsClient.Lib

/-- `Mod`, a bitmask. -/
abbrev Mod := UInt8

inductive ChordError where
  | empty
  | modifierOnly
  | unknownKey
  | duplicateModifier
  deriving DecidableEq

structure Chord where
  mods : Mod
  key : String
  deriving DecidableEq

def Chord.isZero (c : Chord) : Bool := c.key == ""

def modOrder : List (Mod × String) := [(1, "Ctrl"), (2, "Alt"), (4, "Shift"), (8, "Super")]

/-- The keys that `codeToKey` names like the code. -/
def namedKeys : List String :=
  ["Space", "Escape", "Enter", "Tab", "Backspace", "Delete", "Insert", "Home", "End", "PageUp",
    "PageDown", "ArrowUp", "ArrowDown", "ArrowLeft", "ArrowRight", "Minus", "Equal", "BracketLeft",
    "BracketRight", "Semicolon", "Quote", "Backquote", "Backslash", "Comma", "Period", "Slash",
    "NumpadAdd", "NumpadSubtract", "NumpadMultiply", "NumpadDivide", "NumpadDecimal",
    "NumpadEnter"]

def letters : List String :=
  ["A", "B", "C", "D", "E", "F", "G", "H", "I", "J", "K", "L", "M", "N", "O", "P", "Q", "R", "S",
    "T", "U", "V", "W", "X", "Y", "Z"]

def digits : List String := ["0", "1", "2", "3", "4", "5", "6", "7", "8", "9"]

def functionKeys : List String :=
  ["F1", "F2", "F3", "F4", "F5", "F6", "F7", "F8", "F9", "F10", "F11", "F12", "F13", "F14", "F15",
    "F16", "F17", "F18", "F19", "F20", "F21", "F22", "F23", "F24"]

/-- `codeToKey`: the code of a browser, and the canonical name. -/
def codeToKey : List (String × String) :=
  namedKeys.map (fun k => (k, k)) ++ letters.map (fun c => ("Key" ++ c, c)) ++
    digits.map (fun d => ("Digit" ++ d, d)) ++
    digits.map (fun d => ("Numpad" ++ d, "Numpad" ++ d)) ++ functionKeys.map fun k => (k, k)

def modifierCodes : List String :=
  ["ControlLeft", "ControlRight", "AltLeft", "AltRight", "ShiftLeft", "ShiftRight", "MetaLeft",
    "MetaRight", "CapsLock"]

def validKey (k : String) : Bool := codeToKey.any fun e => e.2 == k

/-- `FromCode`. -/
def Chord.fromCode (code : String) (ctrl alt shift super : Bool) : Except ChordError Chord :=
  if isBlank code.toList then .error .empty
  else if modifierCodes.contains code then .error .modifierOnly
  else
    match codeToKey.lookup code with
    | none => .error .unknownKey
    | some key =>
      let mods : Mod := (if ctrl then 1 else 0) ||| (if alt then 2 else 0) |||
        (if shift then 4 else 0) ||| (if super then 8 else 0)
      .ok ⟨mods, key⟩

/-- The names of the modifiers that are set. -/
def modNames (m : Mod) : List String := (modOrder.filter fun e => m &&& e.1 != 0).map (·.2)

/-- `String`. -/
def Chord.text (c : Chord) : List Char :=
  if c.isZero then []
  else ((modNames c.mods).flatMap fun name => name.toList ++ ['+']) ++ c.key.toList

def modNamed (p : List Char) : Option Mod :=
  (modOrder.find? fun e => e.2.toList == p).map (·.1)

/-- The loop of `Parse`. -/
def parseParts (c : Chord) : List (List Char) → Except ChordError Chord
  | [] => if c.key = "" then .error .modifierOnly else .ok c
  | p :: ps =>
    match modNamed p with
    | some bit =>
      if c.mods &&& bit ≠ 0 then .error .duplicateModifier
      else parseParts { c with mods := c.mods ||| bit } ps
    | none =>
      if ps ≠ [] then .error .unknownKey
      else if ¬ validKey (String.ofList p) then .error .unknownKey
      else parseParts { c with key := String.ofList p } ps

/-- `Parse`. -/
def Chord.parse (s : List Char) : Except ChordError Chord :=
  if isBlank s then .error .empty else parseParts ⟨0, ""⟩ (s.splitOn '+')

/-- What `FromCode` and `Parse` build. -/
structure Chord.Valid (c : Chord) : Prop where
  key : validKey c.key = true
  mods : c.mods < 16

/-! ## The tables -/

/-- The key can be told from a separator, a modifier and blank text. -/
def plainKey (k : String) : Bool :=
  k != "" && !k.toList.contains '+' && !k.toList.contains ':' && (modNamed k.toList).isNone &&
    !isBlank k.toList

theorem plainKey_of_valid {k : String} (h : validKey k = true) : plainKey k = true := by
  have hall : ∀ e ∈ codeToKey, plainKey e.2 = true := by decide +kernel
  obtain ⟨e, he, hk⟩ := List.any_eq_true.1 h
  rw [← beq_iff_eq.1 hk]
  exact hall e he

/-- The modifiers that are named, added to `m`. -/
def addMods (m : Mod) : List String → Option Mod
  | [] => some m
  | name :: names => (modNamed name.toList).bind fun bit =>
    if m &&& bit ≠ 0 then none else addMods (m ||| bit) names

theorem addMods_modNames {m : Mod} (h : m < 16) : addMods 0 (modNames m) = some m := by
  have hall : ∀ n < 16, addMods 0 (modNames (UInt8.ofNat n)) = some (UInt8.ofNat n) := by
    decide +kernel
  have hm : UInt8.ofNat m.toNat = m := UInt8.ofNat_toNat
  rw [← hm]
  exact hall m.toNat (UInt8.lt_iff_toNat_lt.1 h)

theorem plus_notMem_modNames (m : Mod) : ∀ name ∈ modNames m, '+' ∉ name.toList := by
  have hall : ∀ e ∈ modOrder, '+' ∉ e.2.toList := by decide +kernel
  intro name hname
  obtain ⟨e, he, rfl⟩ := List.mem_map.1 hname
  exact hall e (List.mem_of_mem_filter he)

theorem colon_notMem_modNames (m : Mod) : ∀ name ∈ modNames m, ':' ∉ name.toList := by
  have hall : ∀ e ∈ modOrder, ':' ∉ e.2.toList := by decide +kernel
  intro name hname
  obtain ⟨e, he, rfl⟩ := List.mem_map.1 hname
  exact hall e (List.mem_of_mem_filter he)

theorem or_lt_16 {p : List Char} {bit m : Mod} (hp : modNamed p = some bit) (h : m < 16) :
    m ||| bit < 16 := by
  obtain ⟨e, he, rfl⟩ := Option.map_eq_some_iff.1 hp
  have hall : ∀ e ∈ modOrder, e.1.toNat < 2 ^ 4 := by decide
  have hbit := hall e (List.mem_of_find?_eq_some he)
  rw [UInt8.lt_iff_toNat_lt] at h ⊢
  rw [UInt8.toNat_or]
  exact Nat.or_lt_two_pow h hbit

/-! ## Round trip -/

theorem parseParts_names {names : List String} {c : Chord} {m : Mod} (ps : List (List Char))
    (h : addMods c.mods names = some m) :
    parseParts c (names.map String.toList ++ ps) = parseParts { c with mods := m } ps := by
  induction names generalizing c with
  | nil =>
    cases h
    rfl
  | cons name names ih =>
    obtain ⟨bit, hbit, h⟩ := Option.bind_eq_some_iff.1 h
    split at h
    · cases h
    · next hfree =>
      rw [List.map_cons, List.cons_append, parseParts]
      simp only [hbit, if_neg hfree]
      exact ih (c := { c with mods := c.mods ||| bit }) h

theorem splitOn_names {names : List String} {k : List Char}
    (hnames : ∀ name ∈ names, '+' ∉ name.toList) (hk : '+' ∉ k) :
    ((names.flatMap fun name => name.toList ++ ['+']) ++ k).splitOn '+' =
      names.map String.toList ++ [k] := by
  induction names with
  | nil => exact List.splitOn_eq_singleton hk
  | cons name names ih =>
    rw [List.flatMap_cons, List.append_assoc, List.append_assoc, List.singleton_append,
      List.splitOn_append_cons_self_of_not_mem (hnames name List.mem_cons_self),
      ih fun n hn => hnames n (List.mem_cons_of_mem _ hn)]
    rfl

namespace Chord

variable {c : Chord}

theorem Valid.plain (h : c.Valid) : c.key ≠ "" ∧ '+' ∉ c.key.toList ∧ ':' ∉ c.key.toList ∧
    modNamed c.key.toList = none ∧ isBlank c.key.toList = false := by
  have := plainKey_of_valid h.key
  simp only [plainKey, Bool.and_eq_true, bne_iff_ne, Bool.not_eq_true', List.contains_eq_mem,
    decide_eq_false_iff_not, Option.isNone_iff_eq_none] at this
  exact ⟨this.1.1.1.1, this.1.1.1.2, this.1.1.2, this.1.2, this.2⟩

theorem Valid.text_eq (h : c.Valid) :
    c.text = ((modNames c.mods).flatMap fun name => name.toList ++ ['+']) ++ c.key.toList := by
  unfold text isZero
  rw [if_neg (by simpa using h.plain.1)]

theorem Valid.not_isBlank (h : c.Valid) : isBlank c.text = false := by
  have hkey := h.plain.2.2.2.2
  unfold isBlank at *
  rw [h.text_eq, List.all_append, hkey, Bool.and_false]

theorem Valid.parse_text (h : c.Valid) : parse c.text = .ok c := by
  obtain ⟨hne, hplus, -, hmod, -⟩ := h.plain
  unfold parse
  rw [h.not_isBlank, if_neg (by simp), h.text_eq,
    splitOn_names (plus_notMem_modNames c.mods) hplus,
    parseParts_names (c := ⟨0, ""⟩) [c.key.toList] (addMods_modNames h.mods)]
  simp [parseParts, hmod, String.ofList_toList, h.key, hne]

theorem parseParts_valid {ps : List (List Char)} {c c' : Chord} (hmods : c.mods < 16)
    (hkey : c.key ≠ "" → validKey c.key = true) (h : parseParts c ps = .ok c') : c'.Valid := by
  induction ps generalizing c with
  | nil =>
    unfold parseParts at h
    split at h
    · cases h
    · next hne =>
      cases h
      exact ⟨hkey hne, hmods⟩
  | cons p ps ih =>
    unfold parseParts at h
    split at h
    · next bit hbit =>
      split at h
      · cases h
      · exact ih (c := { c with mods := c.mods ||| bit }) (or_lt_16 hbit hmods) hkey h
    · split at h
      · cases h
      · split at h
        · cases h
        · next hvalid =>
          exact ih (c := { c with key := String.ofList p }) hmods (fun _ => by simpa using hvalid) h

theorem parse_valid {s : List Char} (h : parse s = .ok c) : c.Valid := by
  unfold parse at h
  split at h
  · cases h
  · exact parseParts_valid (by decide) (fun hne => absurd rfl hne) h

end Chord

end VcsClient.Keybinds
