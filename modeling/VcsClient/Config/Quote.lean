import VcsClient.Lib.Text
import VcsClient.Lib.Toml

/-!
# Keybinds as TOML

`quoteTOML` and `KeybindValue` of `internal/config/config.go`. What is written is read back
by a reader of TOML, and the text behind it is left (`keybinds_roundtrip`): a keybind stays
within its own quotation marks.
-/

namespace VcsClient.Config

open VcsClient.Lib VcsClient.Lib.Toml

/-- A digit of `%X`. -/
def upperHex (d : ℕ) : Char := if d < 10 then Char.ofNat (48 + d) else Char.ofNat (55 + d)

/-- `%04X`, of a number that has no more digits. -/
def hex4 (n : ℕ) : List Char :=
  [upperHex (n / 4096 % 16), upperHex (n / 256 % 16), upperHex (n / 16 % 16), upperHex (n % 16)]

/-- What one turn of the loop of `quoteTOML` writes. -/
def quoteRune (r : Char) : List Char :=
  if r = '"' then ['\\', '"']
  else if r = '\\' then ['\\', '\\']
  else if r = '\x08' then ['\\', 'b']
  else if r = '\t' then ['\\', 't']
  else if r = '\n' then ['\\', 'n']
  else if r = '\x0c' then ['\\', 'f']
  else if r = '\r' then ['\\', 'r']
  else if r.toNat < 0x20 ∨ r.toNat = 0x7F then '\\' :: 'u' :: hex4 r.toNat
  else [r]

/-- `quoteTOML`. -/
def quoteTOML (s : List UInt8) : List Char := '"' :: (runes s).flatMap quoteRune ++ ['"']

/-- `joyPrefix`: `joy:`. A string of the source is its bytes. -/
def joyPrefix : List UInt8 := [0x6A, 0x6F, 0x79, 0x3A]

/-- The array form of `MarshalTOML`. -/
def marshalArray (k : List (List UInt8)) : List Char :=
  '[' :: [',', ' '].intercalate (k.map quoteTOML) ++ [']']

/-- `KeybindValue.MarshalTOML`. -/
def marshalTOML : List (List UInt8) → List Char
  | [s] => if ¬joyPrefix.isPrefixOf s then quoteTOML s else marshalArray [s]
  | k => marshalArray k

inductive KeybindError where
  /-- keybind entry, want string -/
  | entry
  /-- keybind value, want string or array of strings -/
  | value

/-- One turn of the loop of `UnmarshalTOML`. -/
def unmarshalEntry : Data → Except KeybindError (List Char)
  | .string s => .ok s
  | _ => .error .entry

/-- `KeybindValue.UnmarshalTOML`; the strings have been decoded. -/
def unmarshalTOML : Data → Except KeybindError (List (List Char))
  | .string v => .ok [v]
  | .array v => v.mapM unmarshalEntry
  | .other => .error .value

/-! ## One character -/

variable {cs rest : List Char}

theorem hexVal_upperHex {d : ℕ} (h : d < 16) : hexVal (upperHex d) = some d := by
  have hall : ∀ d < 16, hexVal (upperHex d) = some d := by decide
  exact hall d h

theorem hex4_value {n : ℕ} (h : n < 65536) :
    16 * (16 * (16 * (n / 4096 % 16) + n / 256 % 16) + n / 16 % 16) + n % 16 = n := by
  omega

theorem scalar_toNat (r : Char) : scalar r.toNat = some r := by
  unfold scalar
  rw [if_pos (show r.toNat.isValidChar from r.valid), Char.ofNat_toNat]

/-- **What is written for a character** is read as that character. -/
theorem basicChars_quoteRune (r : Char) (cs : List Char) :
    basicChars .plain (quoteRune r ++ cs) = push r (basicChars .plain cs) := by
  unfold quoteRune
  split_ifs with hquote hslash hb ht hn hf hr hctl
  · subst hquote
    exact basicChars_shorthand rfl
  · subst hslash
    exact basicChars_shorthand rfl
  · subst hb
    exact basicChars_shorthand rfl
  · subst ht
    exact basicChars_shorthand rfl
  · subst hn
    exact basicChars_shorthand rfl
  · subst hf
    exact basicChars_shorthand rfl
  · subst hr
    exact basicChars_shorthand rfl
  · -- a control character
    have hsmall : r.toNat < 65536 := by omega
    refine basicChars_escape (hexVal_upperHex (Nat.mod_lt _ (by omega)))
      (hexVal_upperHex (Nat.mod_lt _ (by omega))) (hexVal_upperHex (Nat.mod_lt _ (by omega)))
      (hexVal_upperHex (Nat.mod_lt _ (by omega))) ?_
    rw [hex4_value hsmall, scalar_toNat]
  · have hne : ∀ c : Char, r ≠ c → r.toNat ≠ c.toNat := fun c h he => h (Char.toNat_inj.1 he)
    have h1 := hne _ hquote
    have h2 := hne _ hslash
    refine basicChars_unescaped ?_
    unfold isBasicUnescaped
    rw [not_or] at hctl
    simp only [Bool.or_eq_true, Bool.and_eq_true, decide_eq_true_iff]
    right
    refine ⟨⟨⟨by omega, h1⟩, h2⟩, hctl.2⟩

/-! ## Strings -/

/-- **A quoted string is read back**, and the text behind it is left. -/
theorem basicString_quoteTOML (s : List UInt8) (rest : List Char) :
    basicString (quoteTOML s ++ rest) = some (runes s, rest) := by
  have hchars : ∀ rs : List Char,
      basicChars .plain (rs.flatMap quoteRune ++ '"' :: rest) = some (rs, rest) := by
    intro rs
    induction rs with
    | nil => exact basicChars_quote
    | cons r rs ih =>
      rw [List.flatMap_cons, List.append_assoc, basicChars_quoteRune, ih]
      rfl
  have hquote : quoteTOML s ++ rest = '"' :: ((runes s).flatMap quoteRune ++ '"' :: rest) := by
    simp [quoteTOML]
  rw [hquote, basicString_quote]
  exact hchars (runes s)

/-! ## Lists -/

theorem quoteTOML_eq (s : List UInt8) (rest : List Char) :
    ∃ t, quoteTOML s ++ rest = '"' :: t :=
  ⟨(runes s).flatMap quoteRune ++ ['"'] ++ rest, rfl⟩

theorem elements_marshal (k : List (List UInt8)) (rest : List Char) {bound : ℕ}
    (h : k.length < bound) :
    elements bound ([',', ' '].intercalate (k.map quoteTOML) ++ ']' :: rest) =
      some (k.map runes, rest) := by
  induction k generalizing bound with
  | nil =>
    cases bound with
    | zero => cases h
    | succ bound => rfl
  | cons s k ih =>
    cases bound with
    | zero => cases h
    | succ bound =>
      rw [List.length_cons] at h
      cases k with
      | nil =>
        have hread := basicString_quoteTOML s (']' :: rest)
        obtain ⟨t, ht⟩ := quoteTOML_eq s (']' :: rest)
        rw [ht] at hread
        rw [List.map_singleton, List.intercalate_singleton, ht, elements_last hread]
        rfl
      | cons s' k =>
        let more := [',', ' '].intercalate ((s' :: k).map quoteTOML) ++ ']' :: rest
        have hread := basicString_quoteTOML s (',' :: ' ' :: more)
        obtain ⟨t, ht⟩ := quoteTOML_eq s (',' :: ' ' :: more)
        have htext : [',', ' '].intercalate ((s :: s' :: k).map quoteTOML) ++ ']' :: rest =
            quoteTOML s ++ ',' :: ' ' :: more := by
          simp [more, List.intercalate_cons_cons]
        rw [ht] at hread
        rw [htext, ht, elements_next hread, elements_space, ih (by omega)]
        rfl

theorem length_le_intercalate (k : List (List UInt8)) :
    k.length ≤ ([',', ' '].intercalate (k.map quoteTOML)).length := by
  induction k with
  | nil => exact Nat.le_refl 0
  | cons s k ih =>
    have hpos : 1 ≤ (quoteTOML s).length := by simp [quoteTOML]
    cases k with
    | nil => simpa using hpos
    | cons s' k =>
      rw [List.map_cons, List.map_cons, List.intercalate_cons_cons, List.length_append,
        List.length_append, List.length_cons]
      rw [List.map_cons] at ih
      omega

theorem value_marshalArray (k : List (List UInt8)) (rest : List Char) :
    value (marshalArray k ++ rest) = some (.array ((k.map runes).map .string), rest) := by
  have htext : marshalArray k ++ rest =
      '[' :: ([',', ' '].intercalate (k.map quoteTOML) ++ ']' :: rest) := by
    simp [marshalArray]
  have hbound := length_le_intercalate k
  rw [htext, value, elements_marshal k rest]
  · rfl
  · rw [List.length_append]
    omega

theorem unmarshal_strings (vs : List (List Char)) :
    unmarshalTOML (.array (vs.map .string)) = .ok vs := by
  show (vs.map Data.string).mapM unmarshalEntry = .ok vs
  induction vs with
  | nil => rfl
  | cons v vs ih =>
    rw [List.map_cons, List.mapM_cons, ih]
    rfl

/-- **A written value is read back**, and the text behind it is left. -/
theorem value_marshalTOML (k : List (List UInt8)) (rest : List Char) :
    ∃ data, value (marshalTOML k ++ rest) = some (data, rest) ∧
      unmarshalTOML data = .ok (k.map runes) := by
  have harray : ∃ data, value (marshalArray k ++ rest) = some (data, rest) ∧
      unmarshalTOML data = .ok (k.map runes) :=
    ⟨_, value_marshalArray k rest, unmarshal_strings _⟩
  unfold marshalTOML
  split
  · next s =>
    split
    · obtain ⟨t, ht⟩ := quoteTOML_eq s rest
      have hread := basicString_quoteTOML s rest
      rw [ht] at hread ⊢
      exact ⟨.string (runes s), by rw [value_of_quote, hread]; rfl, rfl⟩
    · exact harray
  · exact harray

/-- **Keybinds are read back**: a quoted string as its characters and a marshalled value as
its list, each with the text behind it left; a keyboard chord alone is a quoted string. -/
theorem keybinds_roundtrip :
    (∀ s rest, basicString (quoteTOML s ++ rest) = some (runes s, rest)) ∧
    (∀ cs rest, basicString (quoteTOML (utf8 cs) ++ rest) = some (cs, rest)) ∧
    (∀ k rest, ∃ data, value (marshalTOML k ++ rest) = some (data, rest) ∧
      unmarshalTOML data = .ok (k.map runes)) ∧
    ∀ s, joyPrefix.isPrefixOf s = false → marshalTOML [s] = quoteTOML s := by
  refine ⟨basicString_quoteTOML, fun cs rest => ?_, value_marshalTOML, fun s hs => ?_⟩
  · rw [basicString_quoteTOML, runes_utf8]
  · unfold marshalTOML
    exact if_pos (by simp [hs])

end VcsClient.Config
