import VcsClient.Keybinds.Chord

/-!
# Triggers

`internal/trigger`: a keyboard chord or a joystick input, and the text it is
stored as. `Kind` tells the two apart; a value carries only the part its kind
uses, as `Key` and `Joy` build it.
-/

namespace VcsClient.Keybinds

open VcsClient.Lib

abbrev DeviceID := String

/-- `Button`: plain buttons below `hatBase`, then eight directions for each hat. -/
abbrev Button := UInt16

def maxButton : Button := 127

def hatBase : Button := 128

def hatCount : ℕ := 4

def hatDirs : ℕ := 8

def hatDirNames : List String :=
  ["up", "up_right", "right", "down_right", "down", "down_left", "left", "up_left"]

/-- `HatButton`. -/
def hatButton (hat dir : ℕ) : Button := hatBase + UInt16.ofNat (hat * hatDirs + dir)

namespace Button

def isHat (b : Button) : Bool := hatBase ≤ b

/-- `Hat`. -/
def hat (b : Button) : ℕ × ℕ :=
  let n := (b - hatBase).toNat
  (n / hatDirs, n % hatDirs)

end Button

def validDeviceChar (c : Char) : Bool :=
  ('a' ≤ c && c ≤ 'z') || ('A' ≤ c && c ≤ 'Z') || ('0' ≤ c && c ≤ '9') || c == '_' || c == '-' ||
    c == '.'

/-- `ValidDeviceID`. -/
def validDeviceID (s : List Char) : Bool := s ≠ [] && s.all validDeviceChar

structure JoyButton where
  device : DeviceID
  button : Button
  deriving DecidableEq

structure JoyBinding where
  device : DeviceID
  button : Button
  modifier : Option JoyButton
  deriving DecidableEq

def JoyBinding.main (b : JoyBinding) : JoyButton := ⟨b.device, b.button⟩

inductive Trigger where
  | key (c : Chord)
  | joy (b : JoyBinding)
  deriving DecidableEq

inductive TriggerError where
  | empty
  | badDevice (dev : List Char)
  /-- with the input it quotes, if any -/
  | badInput (s : Option (List Char))
  | badModifier
  | chord (e : ChordError)
  deriving DecidableEq

namespace Trigger

def isKey : Trigger → Bool
  | .key _ => true
  | .joy _ => false

def isZero : Trigger → Bool
  | .key c => c.isZero
  | .joy b => b.device == ""

/-- `Equal`. -/
def equal : Trigger → Trigger → Bool
  | .key c, .key c' => c == c'
  | .joy b, .joy b' =>
    if b.device ≠ b'.device ∨ b.button ≠ b'.button then false
    else
      match b.modifier, b'.modifier with
      | none, none => true
      | some m, some m' => m == m'
      | _, _ => false
  | _, _ => false

end Trigger

/-- `inputString`. -/
def inputText (b : Button) : List Char :=
  if b.isHat then
    "hat".toList ++ Nat.toDigits 10 (b.hat.1 + 1) ++
      '.' :: (hatDirNames.getD b.hat.2 "").toList
  else "btn".toList ++ Nat.toDigits 10 (b.toNat + 1)

/-- `refString`. -/
def JoyButton.text (j : JoyButton) : List Char := j.device.toList ++ ':' :: inputText j.button

def joyPrefix : List Char := "joy:".toList

/-- `String`. -/
def Trigger.text (t : Trigger) : List Char :=
  if t.isZero then []
  else
    match t with
    | .key c => c.text
    | .joy b =>
      joyPrefix ++ ((b.modifier.map fun m => m.text ++ ['+']).getD []) ++ b.main.text

/-- `parseInput`. -/
def parseInput (s : List Char) : Except TriggerError Button :=
  if "btn".toList.isPrefixOf s then
    match atoi (s.drop 3) with
    | none => .error (.badInput (some s))
    | some n =>
      if n < 1 ∨ maxButton.toNat + 1 < n then .error (.badInput (some s))
      else .ok (UInt16.ofNat (n - 1).toNat)
  else if "hat".toList.isPrefixOf s then
    match cut '.' (s.drop 3) with
    | none => .error (.badInput (some s))
    | some (num, dir) =>
      match atoi num with
      | none => .error (.badInput (some s))
      | some n =>
        if n < 1 ∨ hatCount < n then .error (.badInput (some s))
        else
          match hatDirNames.findIdx? fun name => name.toList == dir with
          | some d => .ok (hatButton (n - 1).toNat d)
          | none => .error (.badInput (some s))
  else .error (.badInput (some s))

/-- `parseRef`. -/
def parseRef (s : List Char) : Except TriggerError JoyButton :=
  match cut ':' s with
  | none => .error (.badInput none)
  | some (dev, input) =>
    if validDeviceID dev = false then .error (.badDevice dev)
    else (parseInput input).map fun b => ⟨String.ofList dev, b⟩

/-- `Parse`. -/
def Trigger.parse (s : List Char) : Except TriggerError Trigger :=
  if isBlank s then .error .empty
  else if joyPrefix.isPrefixOf s = false then
    match Chord.parse s with
    | .error e => .error (.chord e)
    | .ok c => .ok (.key c)
  else
    match (s.drop joyPrefix.length).splitOn '+' with
    | [main] => (parseRef main).map fun m => .joy ⟨m.device, m.button, none⟩
    | [mod, main] =>
      match parseRef main with
      | .error e => .error e
      | .ok m => (parseRef mod).map fun q => .joy ⟨m.device, m.button, some q⟩
    | _ => .error .badModifier

/-- A device id that is valid, and a button or hat in range. -/
structure JoyButton.Valid (j : JoyButton) : Prop where
  device : validDeviceID j.device.toList = true
  button : j.button < 160

def Trigger.Valid : Trigger → Prop
  | .key c => c.Valid
  | .joy b => b.main.Valid ∧ ∀ m ∈ b.modifier, m.Valid

/-! ## Equality -/

namespace Trigger

variable {t t' : Trigger}

theorem equal_iff : t.equal t' = true ↔ t = t' := by
  cases t with
  | key c =>
    cases t' with
    | key c' => simp [equal]
    | joy b' => simp [equal]
  | joy b =>
    cases t' with
    | key c' => simp [equal]
    | joy b' =>
      obtain ⟨d, n, m⟩ := b
      obtain ⟨d', n', m'⟩ := b'
      cases m with
      | none =>
        cases m' with
        | none => simp [equal]
        | some m' => simp [equal]
      | some m =>
        cases m' with
        | none => simp [equal]
        | some m' => simp [equal]; tauto

end Trigger

/-! ## Round trip -/

/-- Every button and every hat direction in range is read back. -/
theorem parseInput_inputText {b : Button} (h : b < 160) : parseInput (inputText b) = .ok b := by
  have hall : ∀ n < 160, (parseInput (inputText (UInt16.ofNat n))).toOption =
      some (UInt16.ofNat n) := by decide +kernel
  have hb := hall b.toNat (UInt16.lt_iff_toNat_lt.1 h)
  rw [UInt16.ofNat_toNat] at hb
  cases hp : parseInput (inputText b) with
  | error e => rw [hp] at hb; cases hb
  | ok b' => rw [hp] at hb; cases hb; rfl

theorem plus_notMem_inputText {b : Button} (h : b < 160) : '+' ∉ inputText b := by
  have hall : ∀ n < 160, '+' ∉ inputText (UInt16.ofNat n) := by decide +kernel
  rw [← UInt16.ofNat_toNat (x := b)]
  exact hall b.toNat (UInt16.lt_iff_toNat_lt.1 h)

theorem notMem_of_validDeviceID {s : List Char} {c : Char} (h : validDeviceID s = true)
    (hc : validDeviceChar c = false) : c ∉ s := by
  intro hmem
  unfold validDeviceID at h
  have := List.all_eq_true.1 (Bool.and_eq_true_iff.1 h).2 c hmem
  rw [hc] at this
  cases this

namespace JoyButton

variable {j : JoyButton}

theorem Valid.plus_notMem (h : j.Valid) : '+' ∉ j.text := by
  unfold text
  rw [List.mem_append, List.mem_cons]
  rintro (hd | hc | hi)
  · exact notMem_of_validDeviceID h.device (by decide) hd
  · exact absurd hc (by decide)
  · exact plus_notMem_inputText h.button hi

theorem Valid.parseRef_text (h : j.Valid) : parseRef j.text = .ok j := by
  unfold parseRef text
  rw [cut_append (notMem_of_validDeviceID h.device (by decide))]
  simp only [h.device, Bool.true_eq_false, if_false, parseInput_inputText h.button]
  simp [Except.map, String.ofList_toList]

end JoyButton

theorem parseInput_lt {s : List Char} {b : Button} (h : parseInput s = .ok b) : b < 160 := by
  have hplain : ∀ k < 128, UInt16.ofNat k < 160 := by decide
  have hhat : ∀ hat < hatCount, ∀ dir < hatDirs, hatButton hat dir < 160 := by decide
  unfold parseInput at h
  split at h
  · split at h
    · cases h
    · next n hn =>
      split at h
      · cases h
      · next hrange =>
        cases h
        have : maxButton.toNat = 127 := rfl
        exact hplain _ (by omega)
  · split at h
    · split at h
      · cases h
      · split at h
        · cases h
        · next n hn =>
          split at h
          · cases h
          · next hrange =>
            split at h
            · next d hd =>
              cases h
              obtain ⟨hlt, -⟩ := List.findIdx?_eq_some_iff_getElem.1 hd
              have : hatCount = 4 := rfl
              exact hhat _ (by omega) d hlt
            · cases h
    · cases h

theorem parseRef_valid {s : List Char} {j : JoyButton} (h : parseRef s = .ok j) : j.Valid := by
  unfold parseRef at h
  split at h
  · cases h
  · next dev input hcut =>
    split at h
    · cases h
    · next hdev =>
      cases hb : parseInput input with
      | error e =>
        rw [hb] at h
        cases h
      | ok b =>
        rw [hb] at h
        cases h
        refine ⟨?_, parseInput_lt hb⟩
        rw [String.toList_ofList]
        simpa using hdev

namespace Trigger

variable {t : Trigger} {s : List Char}

theorem joyPrefix_not_prefix {c : Chord} (h : c.Valid) : joyPrefix.isPrefixOf c.text = false := by
  have hcolon : ':' ∉ c.text := by
    rw [h.text_eq, List.mem_append]
    rintro (hm | hk)
    · obtain ⟨name, hname, hc⟩ := List.mem_flatMap.1 hm
      rcases List.mem_append.1 hc with hc | hc
      · exact colon_notMem_modNames c.mods name hname hc
      · exact absurd (List.mem_singleton.1 hc) (by decide)
    · exact h.plain.2.2.1 hk
  by_contra hpre
  have hsub := (List.isPrefixOf_iff_prefix.1 (Bool.not_eq_false _ ▸ hpre)).subset
  exact hcolon (hsub (by decide))

theorem device_ne_empty {j : JoyButton} (h : j.Valid) : j.device ≠ "" := by
  intro he
  have := h.device
  rw [he] at this
  exact absurd this (by decide)

theorem parse_joyPrefix (rest : List Char) : parse (joyPrefix ++ rest) =
    match rest.splitOn '+' with
    | [main] => (parseRef main).map fun m => .joy ⟨m.device, m.button, none⟩
    | [mod, main] =>
      match parseRef main with
      | .error e => .error e
      | .ok m => (parseRef mod).map fun q => .joy ⟨m.device, m.button, some q⟩
    | _ => .error .badModifier := by
  have hblank : isBlank (joyPrefix ++ rest) = false :=
    not_isBlank_of_mem (c := 'j') (List.mem_append_left _ (by decide)) (by decide)
  have hpre : joyPrefix.isPrefixOf (joyPrefix ++ rest) = true :=
    List.isPrefixOf_iff_prefix.2 (List.prefix_append _ _)
  unfold parse
  rw [hblank, hpre, List.drop_left]
  rfl

theorem Valid.parse_text (h : t.Valid) : parse t.text = .ok t := by
  cases t with
  | key c =>
    have hc : c.Valid := h
    have htext : (Trigger.key c).text = c.text := by
      unfold text isZero Chord.isZero
      rw [if_neg (by simpa using hc.plain.1)]
    unfold parse
    rw [htext, hc.not_isBlank, joyPrefix_not_prefix hc]
    simp [hc.parse_text]
  | joy b =>
    obtain ⟨device, button, modifier⟩ := b
    obtain ⟨hmain, hmod⟩ := h
    have hzero : (Trigger.joy ⟨device, button, modifier⟩).isZero = false := by
      simpa [isZero] using (show device ≠ "" from device_ne_empty hmain)
    unfold text
    rw [hzero, if_neg (by simp)]
    cases modifier with
    | none =>
      show parse (joyPrefix ++ [] ++ (JoyBinding.main _).text) = _
      rw [List.append_nil, parse_joyPrefix, List.splitOn_eq_singleton hmain.plus_notMem]
      simp only [hmain.parseRef_text]
      rfl
    | some m =>
      have hm : m.Valid := hmod m rfl
      show parse (joyPrefix ++ (m.text ++ ['+']) ++ (JoyBinding.main _).text) = _
      rw [List.append_assoc, List.append_assoc, List.singleton_append, parse_joyPrefix,
        List.splitOn_append_cons_self_of_not_mem hm.plus_notMem,
        List.splitOn_eq_singleton hmain.plus_notMem]
      simp only [hmain.parseRef_text, hm.parseRef_text]
      rfl

theorem parse_valid (h : parse s = .ok t) : t.Valid := by
  unfold parse at h
  split at h
  · cases h
  · split at h
    · split at h
      · cases h
      · next c hc =>
        cases h
        exact Chord.parse_valid hc
    · split at h
      · next main hsplit =>
        cases hm : parseRef main with
        | error e =>
          rw [hm] at h
          cases h
        | ok m =>
          rw [hm] at h
          cases h
          exact ⟨parseRef_valid hm, fun m hm => by cases hm⟩
      · next mod main hsplit =>
        split at h
        · cases h
        · next m hm =>
          cases hq : parseRef mod with
          | error e =>
            rw [hq] at h
            cases h
          | ok q =>
            rw [hq] at h
            cases h
            exact ⟨parseRef_valid hm, fun m' hm' => by cases hm'; exact parseRef_valid hq⟩
      · cases h

theorem Valid.text_ne_nil (h : t.Valid) : t.text ≠ [] := by
  intro he
  have := h.parse_text
  rw [he] at this
  cases this

end Trigger

end VcsClient.Keybinds
