import Mathlib.Data.List.Basic
import Mathlib.Tactic.Common

/-!
# Strings and arrays of TOML

A reader of basic strings as TOML 1.0 defines them, and of values that are a basic string
or an array of basic strings. Each reader gives what it has read and the text that is left.
-/

namespace VcsClient.Lib.Toml

/-- Where a reader of a basic string stands. -/
inductive Mode where
  | plain
  /-- behind a backslash -/
  | escaped
  /-- in the digits of a code point -/
  | hex (left value : ℕ)

/-- What may stand for itself in a basic string. -/
def isBasicUnescaped (c : Char) : Bool :=
  c.toNat = 0x09 || (0x20 ≤ c.toNat && c.toNat ≠ 0x22 && c.toNat ≠ 0x5C && c.toNat ≠ 0x7F)

def shorthand (c : Char) : Option Char :=
  match c with
  | 'b' => some '\x08'
  | 't' => some '\t'
  | 'n' => some '\n'
  | 'f' => some '\x0c'
  | 'r' => some '\r'
  | '"' => some '"'
  | '\\' => some '\\'
  | _ => none

def hexVal (c : Char) : Option ℕ :=
  if '0' ≤ c ∧ c ≤ '9' then some (c.toNat - '0'.toNat)
  else if 'a' ≤ c ∧ c ≤ 'f' then some (c.toNat - 'a'.toNat + 10)
  else if 'A' ≤ c ∧ c ≤ 'F' then some (c.toNat - 'A'.toNat + 10)
  else none

/-- The character of a code point; a surrogate has none. -/
def scalar (n : ℕ) : Option Char := if n.isValidChar then some (Char.ofNat n) else none

/-- A character before what is read after it. -/
def push (c : Char) (r : Option (List Char × List Char)) : Option (List Char × List Char) :=
  r.map fun p => (c :: p.1, p.2)

/-- The rest of a basic string, up to its quotation mark. -/
def basicChars : Mode → List Char → Option (List Char × List Char)
  | _, [] => none
  | .plain, c :: cs =>
    if c = '"' then some ([], cs)
    else if c = '\\' then basicChars .escaped cs
    else if isBasicUnescaped c then push c (basicChars .plain cs)
    else none
  | .escaped, c :: cs =>
    if c = 'u' then basicChars (.hex 4 0) cs
    else if c = 'U' then basicChars (.hex 8 0) cs
    else
      match shorthand c with
      | some r => push r (basicChars .plain cs)
      | none => none
  | .hex left value, c :: cs =>
    match hexVal c with
    | none => none
    | some d =>
      if left = 1 then
        match scalar (16 * value + d) with
        | some r => push r (basicChars .plain cs)
        | none => none
      else basicChars (.hex (left - 1) (16 * value + d)) cs

def basicString : List Char → Option (List Char × List Char)
  | [] => none
  | c :: cs => if c = '"' then basicChars .plain cs else none

/-- White space, line ends and comments; `true` in a comment. -/
def skip : Bool → List Char → List Char
  | _, [] => []
  | true, c :: cs => if c = '\n' then skip false cs else skip true cs
  | false, c :: cs =>
    if c = ' ' ∨ c = '\t' ∨ c = '\n' ∨ c = '\r' then skip false cs
    else if c = '#' then skip true cs
    else c :: cs

/-- The elements of an array of strings, up to its bracket; the bound is on their number. -/
def elements : ℕ → List Char → Option (List (List Char) × List Char)
  | 0, _ => none
  | bound + 1, cs =>
    match skip false cs with
    | ']' :: rest => some ([], rest)
    | cs =>
      match basicString cs with
      | none => none
      | some (s, cs) =>
        match skip false cs with
        | ',' :: cs => (elements bound cs).map fun p => (s :: p.1, p.2)
        | ']' :: rest => some ([s], rest)
        | _ => none

inductive Data where
  | string (s : List Char)
  | array (elements : List Data)
  /-- a number, a Boolean, a date or a table -/
  | other

/-- A value that is a string or an array of strings. -/
def value : List Char → Option (Data × List Char)
  | '[' :: cs => (elements (cs.length + 1) cs).map fun p => (.array (p.1.map .string), p.2)
  | cs => (basicString cs).map fun p => (.string p.1, p.2)

variable {c : Char} {cs s rest : List Char}

theorem basicChars_quote : basicChars .plain ('"' :: cs) = some ([], cs) := rfl

theorem basicChars_unescaped (h : isBasicUnescaped c = true) :
    basicChars .plain (c :: cs) = push c (basicChars .plain cs) := by
  have hquote : c ≠ '"' := by
    rintro rfl
    exact absurd h (by decide)
  have hslash : c ≠ '\\' := by
    rintro rfl
    exact absurd h (by decide)
  rw [basicChars, if_neg hquote, if_neg hslash, if_pos h]

theorem basicChars_shorthand {r : Char} (h : shorthand c = some r) :
    basicChars .plain ('\\' :: c :: cs) = push r (basicChars .plain cs) := by
  have hu : c ≠ 'u' := by
    rintro rfl
    cases h
  have hU : c ≠ 'U' := by
    rintro rfl
    cases h
  show basicChars .escaped (c :: cs) = _
  rw [basicChars, if_neg hu, if_neg hU, h]

theorem basicChars_hex {d : ℕ} (h : hexVal c = some d) (left value : ℕ) :
    basicChars (.hex left value) (c :: cs) =
      if left = 1 then
        match scalar (16 * value + d) with
        | some r => push r (basicChars .plain cs)
        | none => none
      else basicChars (.hex (left - 1) (16 * value + d)) cs := by
  rw [basicChars, h]

/-- A digit of a code point that is not the last one. -/
theorem basicChars_digit {left value d : ℕ} (h : hexVal c = some d) (hleft : left ≠ 0) :
    basicChars (.hex (left + 1) value) (c :: cs) =
      basicChars (.hex left (16 * value + d)) cs := by
  rw [basicChars_hex h, if_neg (by omega), Nat.add_sub_cancel]

/-- **An escape of four digits** stands for its code point. -/
theorem basicChars_escape {a b x y : Char} {p q v w : ℕ} {r : Char} (ha : hexVal a = some p)
    (hb : hexVal b = some q) (hx : hexVal x = some v) (hy : hexVal y = some w)
    (hr : scalar (16 * (16 * (16 * p + q) + v) + w) = some r) :
    basicChars .plain ('\\' :: 'u' :: a :: b :: x :: y :: cs) =
      push r (basicChars .plain cs) := by
  show basicChars (.hex 4 0) (a :: b :: x :: y :: cs) = _
  rw [basicChars_digit ha (by omega), basicChars_digit hb (by omega),
    basicChars_digit hx (by omega), basicChars_hex hy, if_pos rfl, Nat.mul_zero, Nat.zero_add, hr]

theorem basicString_quote (cs : List Char) : basicString ('"' :: cs) = basicChars .plain cs := rfl

theorem elements_quote (bound : ℕ) (t : List Char) : elements (bound + 1) ('"' :: t) =
    match basicString ('"' :: t) with
    | none => none
    | some (s, cs) =>
      match skip false cs with
      | ',' :: cs => (elements bound cs).map fun p => (s :: p.1, p.2)
      | ']' :: rest => some ([s], rest)
      | _ => none := rfl

theorem elements_next {bound : ℕ} {t : List Char}
    (h : basicString ('"' :: t) = some (s, ',' :: cs)) :
    elements (bound + 1) ('"' :: t) = (elements bound cs).map fun p => (s :: p.1, p.2) := by
  rw [elements_quote, h]
  rfl

theorem elements_last {bound : ℕ} {t : List Char}
    (h : basicString ('"' :: t) = some (s, ']' :: rest)) :
    elements (bound + 1) ('"' :: t) = some ([s], rest) := by
  rw [elements_quote, h]
  rfl

theorem elements_space (bound : ℕ) (cs : List Char) :
    elements bound (' ' :: cs) = elements bound cs := by
  cases bound with
  | zero => rfl
  | succ bound => rfl

theorem value_of_quote (cs : List Char) :
    value ('"' :: cs) = (basicString ('"' :: cs)).map fun p => (.string p.1, p.2) := rfl

end VcsClient.Lib.Toml
