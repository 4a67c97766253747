import VcsClient.Lib.Binary64
import VcsClient.Lib.Text

/-!
# JSON

A value of JSON is read off the front of a text: its literals, its strings with their
escapes, its numbers as they are written, and its arrays and objects down to a depth. What
is left of the text is a suffix of it.

A byte of a string that begins no UTF-8 sequence reads as U+FFFD, and so does a surrogate
that is not half of a pair.
-/

namespace VcsClient.Lib

/-- A JSON value; a number is its literal. -/
inductive Json where
  | null
  | bool (b : Bool)
  | number (literal : List Char)
  | string (s : List Char)
  | array (elems : List Json)
  | object (fields : List (List Char × Json))

namespace Json

def isSpace (c : UInt8) : Bool := c = 32 || c = 9 || c = 13 || c = 10

def skipSpace (s : List UInt8) : List UInt8 := s.dropWhile isSpace

def isDigit (c : UInt8) : Bool := 48 ≤ c && c ≤ 57

/-! ## Numbers -/

def scanDigits (s : List UInt8) : Option (List UInt8 × List UInt8) :=
  if s.takeWhile isDigit = [] then none else some (s.takeWhile isDigit, s.dropWhile isDigit)

def scanInt : List UInt8 → Option (List UInt8 × List UInt8)
  | 48 :: s => some ([48], s)
  | s => scanDigits s

def scanFrac : List UInt8 → Option (List UInt8 × List UInt8)
  | 46 :: s => (scanDigits s).map fun p => (46 :: p.1, p.2)
  | s => some ([], s)

def scanSign : List UInt8 → List UInt8 × List UInt8
  | 43 :: s => ([43], s)
  | 45 :: s => ([45], s)
  | s => ([], s)

def scanExp : List UInt8 → Option (List UInt8 × List UInt8)
  | c :: s =>
    if c = 69 ∨ c = 101 then
      (scanDigits (scanSign s).2).map fun p => (c :: (scanSign s).1 ++ p.1, p.2)
    else some ([], c :: s)
  | [] => some ([], [])

def scanMinus : List UInt8 → List UInt8 × List UInt8
  | 45 :: s => ([45], s)
  | s => ([], s)

def scanNumber (s : List UInt8) : Option (Json × List UInt8) := do
  let sign := scanMinus s
  let int ← scanInt sign.2
  let frac ← scanFrac int.2
  let exp ← scanExp frac.2
  some (.number (runes (sign.1 ++ int.1 ++ frac.1 ++ exp.1)), exp.2)

/-! ## Strings -/

def hexDigit (c : UInt8) : Option ℕ :=
  if 48 ≤ c ∧ c ≤ 57 then some (c.toNat - 48)
  else if 97 ≤ c ∧ c ≤ 102 then some (c.toNat - 87)
  else if 65 ≤ c ∧ c ≤ 70 then some (c.toNat - 55)
  else none

def scanHex : List UInt8 → Option (ℕ × List UInt8)
  | a :: b :: c :: d :: s => do
    let a ← hexDigit a
    let b ← hexDigit b
    let c ← hexDigit c
    let d ← hexDigit d
    some (((a * 16 + b) * 16 + c) * 16 + d, s)
  | _ => none

/-- The low half of a surrogate pair, if it is next. -/
def scanLow : List UInt8 → Option (ℕ × List UInt8)
  | 92 :: 117 :: s => (scanHex s).bind fun p =>
    if 0xDC00 ≤ p.1 ∧ p.1 < 0xE000 then some p else none
  | _ => none

/-- The character of an escape of `code`, and what is left of `s` after it. -/
def unescape (code : ℕ) (s : List UInt8) : Char × List UInt8 :=
  if 0xD800 ≤ code ∧ code < 0xDC00 then
    match scanLow s with
    | some (low, s) => (Char.ofNat ((code - 0xD800) * 0x400 + (low - 0xDC00) + 0x10000), s)
    | none => ('\uFFFD', s)
  else if 0xDC00 ≤ code ∧ code < 0xE000 then ('\uFFFD', s)
  else (Char.ofNat code, s)

/-- What an escape of one letter is for. -/
def escapeOf (c : UInt8) : Option UInt8 :=
  if c = 34 ∨ c = 92 ∨ c = 47 then some c
  else if c = 98 then some 8
  else if c = 102 then some 12
  else if c = 110 then some 10
  else if c = 114 then some 13
  else if c = 116 then some 9
  else none

/-- The bytes of a string up to its closing quote, escapes in UTF-8. -/
def scanChars : ℕ → List UInt8 → Option (List UInt8 × List UInt8)
  | 0, _ => none
  | _ + 1, [] => none
  | _ + 1, 34 :: s => some ([], s)
  | n + 1, 92 :: 117 :: s => do
    let code ← scanHex s
    let char := unescape code.1 code.2
    let tail ← scanChars n char.2
    some (String.utf8EncodeChar char.1 ++ tail.1, tail.2)
  | n + 1, 92 :: c :: s => do
    let char ← escapeOf c
    let tail ← scanChars n s
    some (char :: tail.1, tail.2)
  | n + 1, c :: s =>
    if c < 32 then none else (scanChars n s).map fun p => (c :: p.1, p.2)

/-- A string, after its opening quote. -/
def scanString (s : List UInt8) : Option (List Char × List UInt8) :=
  (scanChars (s.length + 1) s).map fun p => (runes p.1, p.2)

/-! ## Values -/

/-- What is left after a word. -/
def scanWord (word : String) (s : List UInt8) : Option (List UInt8) :=
  if word.toUTF8.toList.isPrefixOf s then some (s.drop word.utf8ByteSize) else none

def scanScalar (s : List UInt8) : Option (Json × List UInt8) :=
  match s with
  | 34 :: t => (scanString t).map fun p => (.string p.1, p.2)
  | 110 :: _ => (scanWord "null" s).map fun t => (.null, t)
  | 116 :: _ => (scanWord "true" s).map fun t => (.bool true, t)
  | 102 :: _ => (scanWord "false" s).map fun t => (.bool false, t)
  | _ => scanNumber s

variable (value : List UInt8 → Option (Json × List UInt8))

/-- The elements of an array, of which there is one at least. -/
def scanElems : ℕ → List UInt8 → Option (List Json × List UInt8)
  | 0, _ => none
  | n + 1, s => do
    let v ← value (skipSpace s)
    match skipSpace v.2 with
    | 44 :: t =>
      let tail ← scanElems n t
      some (v.1 :: tail.1, tail.2)
    | 93 :: t => some ([v.1], t)
    | _ => none

def scanArray (s : List UInt8) : Option (Json × List UInt8) :=
  match skipSpace s with
  | 93 :: t => some (.array [], t)
  | _ => (scanElems value s.length s).map fun p => (.array p.1, p.2)

/-- A key, the colon and the value. -/
def scanMember (s : List UInt8) : Option ((List Char × Json) × List UInt8) :=
  match skipSpace s with
  | 34 :: t => do
    let key ← scanString t
    match skipSpace key.2 with
    | 58 :: t =>
      let v ← value (skipSpace t)
      some ((key.1, v.1), v.2)
    | _ => none
  | _ => none

/-- The members of an object, of which there is one at least. -/
def scanMembers : ℕ → List UInt8 → Option (List (List Char × Json) × List UInt8)
  | 0, _ => none
  | n + 1, s => do
    let e ← scanMember value s
    match skipSpace e.2 with
    | 44 :: t =>
      let tail ← scanMembers n t
      some (e.1 :: tail.1, tail.2)
    | 125 :: t => some ([e.1], t)
    | _ => none

def scanObject (s : List UInt8) : Option (Json × List UInt8) :=
  match skipSpace s with
  | 125 :: t => some (.object [], t)
  | _ => (scanMembers value s.length s).map fun p => (.object p.1, p.2)

/-- A value that nests to `depth` at most, with no space before it. -/
def scanValue : ℕ → List UInt8 → Option (Json × List UInt8)
  | 0, s => scanScalar s
  | depth + 1, s =>
    match s with
    | 123 :: t => scanObject (scanValue depth) t
    | 91 :: t => scanArray (scanValue depth) t
    | _ => scanScalar s

/-! ## What is left is a suffix -/

variable {value} {s rest : List UInt8}

theorem skipSpace_suffix (s : List UInt8) : skipSpace s <:+ s := List.dropWhile_suffix _

theorem scanDigits_suffix {ds : List UInt8} (h : scanDigits s = some (ds, rest)) : rest <:+ s := by
  unfold scanDigits at h
  split at h
  · cases h
  · obtain ⟨-, rfl⟩ := Prod.mk.inj (Option.some.inj h)
    exact List.dropWhile_suffix _

theorem scanInt_suffix {ds : List UInt8} (h : scanInt s = some (ds, rest)) : rest <:+ s := by
  unfold scanInt at h
  split at h
  · obtain ⟨-, rfl⟩ := Prod.mk.inj (Option.some.inj h)
    exact List.suffix_cons _ _
  · exact scanDigits_suffix h

theorem scanFrac_suffix {ds : List UInt8} (h : scanFrac s = some (ds, rest)) : rest <:+ s := by
  unfold scanFrac at h
  split at h
  · obtain ⟨p, hp, he⟩ := Option.map_eq_some_iff.1 h
    obtain ⟨-, rfl⟩ := Prod.mk.inj he
    exact (scanDigits_suffix hp).trans (List.suffix_cons _ _)
  · obtain ⟨-, rfl⟩ := Prod.mk.inj (Option.some.inj h)
    exact List.suffix_rfl

theorem scanSign_suffix (s : List UInt8) : (scanSign s).2 <:+ s := by
  unfold scanSign
  split
  · exact List.suffix_cons _ _
  · exact List.suffix_cons _ _
  · exact List.suffix_rfl

theorem scanExp_suffix {ds : List UInt8} (h : scanExp s = some (ds, rest)) : rest <:+ s := by
  unfold scanExp at h
  split at h
  · split at h
    · obtain ⟨p, hp, he⟩ := Option.map_eq_some_iff.1 h
      obtain ⟨-, rfl⟩ := Prod.mk.inj he
      exact (scanDigits_suffix hp).trans ((scanSign_suffix _).trans (List.suffix_cons _ _))
    · obtain ⟨-, rfl⟩ := Prod.mk.inj (Option.some.inj h)
      exact List.suffix_rfl
  · obtain ⟨-, rfl⟩ := Prod.mk.inj (Option.some.inj h)
    exact List.suffix_rfl

theorem scanMinus_suffix (s : List UInt8) : (scanMinus s).2 <:+ s := by
  unfold scanMinus
  split
  · exact List.suffix_cons _ _
  · exact List.suffix_rfl

theorem scanNumber_suffix {v : Json} (h : scanNumber s = some (v, rest)) : rest <:+ s := by
  unfold scanNumber at h
  simp only [Option.bind_eq_bind, Option.bind_eq_some_iff] at h
  obtain ⟨⟨i, s₁⟩, hi, ⟨f, s₂⟩, hf, ⟨e, s₃⟩, he, h⟩ := h
  obtain ⟨-, rfl⟩ := Prod.mk.inj (Option.some.inj h)
  exact (scanExp_suffix he).trans ((scanFrac_suffix hf).trans
    ((scanInt_suffix hi).trans (scanMinus_suffix s)))

theorem scanHex_suffix {n : ℕ} (h : scanHex s = some (n, rest)) : rest <:+ s := by
  unfold scanHex at h
  split at h
  · simp only [Option.bind_eq_bind, Option.bind_eq_some_iff] at h
    obtain ⟨_, -, _, -, _, -, _, -, h⟩ := h
    obtain ⟨-, rfl⟩ := Prod.mk.inj (Option.some.inj h)
    exact ⟨[_, _, _, _], rfl⟩
  · cases h

theorem scanLow_suffix {n : ℕ} (h : scanLow s = some (n, rest)) : rest <:+ s := by
  unfold scanLow at h
  split at h
  · obtain ⟨⟨n, t⟩, hp, h⟩ := Option.bind_eq_some_iff.1 h
    split at h
    · obtain ⟨-, rfl⟩ := Prod.mk.inj (Option.some.inj h)
      exact (scanHex_suffix hp).trans ⟨[_, _], rfl⟩
    · cases h
  · cases h

theorem unescape_suffix (code : ℕ) (s : List UInt8) : (unescape code s).2 <:+ s := by
  unfold unescape
  split
  · split
    · next hlow => exact scanLow_suffix hlow
    · exact List.suffix_rfl
  · split <;> exact List.suffix_rfl

theorem scanChars_suffix {n : ℕ} {cs : List UInt8} (h : scanChars n s = some (cs, rest)) :
    rest <:+ s := by
  fun_induction scanChars n s generalizing cs with
  | case1 => cases h
  | case2 => cases h
  | case3 n s =>
    obtain ⟨-, rfl⟩ := Prod.mk.inj (Option.some.inj h)
    exact List.suffix_cons _ _
  | case4 n s ih =>
    simp only [Option.bind_eq_bind, Option.bind_eq_some_iff] at h
    obtain ⟨⟨code, t⟩, hhex, ⟨tail, t'⟩, htail, h⟩ := h
    obtain ⟨-, rfl⟩ := Prod.mk.inj (Option.some.inj h)
    exact (ih _ htail).trans ((unescape_suffix code t).trans
      ((scanHex_suffix hhex).trans ⟨[_, _], rfl⟩))
  | case5 n c s _ ih =>
    simp only [Option.bind_eq_bind, Option.bind_eq_some_iff] at h
    obtain ⟨char, -, ⟨tail, t'⟩, htail, h⟩ := h
    obtain ⟨-, rfl⟩ := Prod.mk.inj (Option.some.inj h)
    exact (ih htail).trans ⟨[_, _], rfl⟩
  | case6 => cases h
  | case7 n c s _ _ _ _ ih =>
    obtain ⟨⟨tail, t'⟩, htail, he⟩ := Option.map_eq_some_iff.1 h
    obtain ⟨-, rfl⟩ := Prod.mk.inj he
    exact (ih htail).trans (List.suffix_cons _ _)

theorem scanString_suffix {cs : List Char} (h : scanString s = some (cs, rest)) : rest <:+ s := by
  obtain ⟨⟨tail, t⟩, htail, he⟩ := Option.map_eq_some_iff.1 h
  obtain ⟨-, rfl⟩ := Prod.mk.inj he
  exact scanChars_suffix htail

theorem scanWord_suffix {word : String} (h : scanWord word s = some rest) : rest <:+ s := by
  unfold scanWord at h
  split at h
  · obtain rfl := Option.some.inj h
    exact List.drop_suffix _ _
  · cases h

theorem scanScalar_suffix {v : Json} (h : scanScalar s = some (v, rest)) : rest <:+ s := by
  have word : ∀ {word : String} {v' : Json},
      (scanWord word s).map (fun t => (v', t)) = some (v, rest) → rest <:+ s := by
    intro word v' h
    obtain ⟨t, ht, he⟩ := Option.map_eq_some_iff.1 h
    obtain ⟨-, rfl⟩ := Prod.mk.inj he
    exact scanWord_suffix ht
  unfold scanScalar at h
  split at h
  · obtain ⟨⟨cs, t⟩, ht, he⟩ := Option.map_eq_some_iff.1 h
    obtain ⟨-, rfl⟩ := Prod.mk.inj he
    exact (scanString_suffix ht).trans (List.suffix_cons _ _)
  · exact word h
  · exact word h
  · exact word h
  · exact scanNumber_suffix h

section

variable (hvalue : ∀ {s rest v}, value s = some (v, rest) → rest <:+ s)
include hvalue

theorem scanElems_suffix {n : ℕ} {vs : List Json} (h : scanElems value n s = some (vs, rest)) :
    rest <:+ s := by
  induction n generalizing s vs with
  | zero => cases h
  | succ n ih =>
    rw [scanElems] at h
    simp only [Option.bind_eq_bind, Option.bind_eq_some_iff] at h
    obtain ⟨⟨v, t⟩, hv, h⟩ := h
    have hs : skipSpace t <:+ s :=
      (skipSpace_suffix t).trans ((hvalue hv).trans (skipSpace_suffix s))
    split at h
    · next u hu =>
      simp only [Option.bind_eq_some_iff] at h
      obtain ⟨⟨tail, t'⟩, htail, h⟩ := h
      obtain ⟨-, rfl⟩ := Prod.mk.inj (Option.some.inj h)
      exact (ih htail).trans ((List.suffix_cons _ _).trans (hu ▸ hs))
    · next u hu =>
      obtain ⟨-, rfl⟩ := Prod.mk.inj (Option.some.inj h)
      exact (List.suffix_cons _ _).trans (hu ▸ hs)
    · cases h

theorem scanArray_suffix {v : Json} (h : scanArray value s = some (v, rest)) : rest <:+ s := by
  unfold scanArray at h
  split at h
  · next t ht =>
    obtain ⟨-, rfl⟩ := Prod.mk.inj (Option.some.inj h)
    exact (List.suffix_cons _ _).trans (ht ▸ skipSpace_suffix s)
  · obtain ⟨⟨vs, t⟩, hvs, he⟩ := Option.map_eq_some_iff.1 h
    obtain ⟨-, rfl⟩ := Prod.mk.inj he
    exact scanElems_suffix hvalue hvs

theorem scanMember_suffix {e : List Char × Json} (h : scanMember value s = some (e, rest)) :
    rest <:+ s := by
  unfold scanMember at h
  split at h
  · next t ht =>
    simp only [Option.bind_eq_bind, Option.bind_eq_some_iff] at h
    obtain ⟨⟨key, u⟩, hkey, h⟩ := h
    have hu : skipSpace u <:+ s :=
      (skipSpace_suffix u).trans ((scanString_suffix hkey).trans
        ((List.suffix_cons _ _).trans (ht ▸ skipSpace_suffix s)))
    split at h
    · next w hw =>
      simp only [Option.bind_eq_some_iff] at h
      obtain ⟨⟨v, x⟩, hv, h⟩ := h
      obtain ⟨-, rfl⟩ := Prod.mk.inj (Option.some.inj h)
      exact (hvalue hv).trans ((skipSpace_suffix w).trans
        ((List.suffix_cons _ _).trans (hw ▸ hu)))
    · cases h
  · cases h

theorem scanMembers_suffix {n : ℕ} {es : List (List Char × Json)}
    (h : scanMembers value n s = some (es, rest)) : rest <:+ s := by
  induction n generalizing s es with
  | zero => cases h
  | succ n ih =>
    rw [scanMembers] at h
    simp only [Option.bind_eq_bind, Option.bind_eq_some_iff] at h
    obtain ⟨⟨e, t⟩, he, h⟩ := h
    have hs : skipSpace t <:+ s := (skipSpace_suffix t).trans (scanMember_suffix hvalue he)
    split at h
    · next u hu =>
      simp only [Option.bind_eq_some_iff] at h
      obtain ⟨⟨tail, t'⟩, htail, h⟩ := h
      obtain ⟨-, rfl⟩ := Prod.mk.inj (Option.some.inj h)
      exact (ih htail).trans ((List.suffix_cons _ _).trans (hu ▸ hs))
    · next u hu =>
      obtain ⟨-, rfl⟩ := Prod.mk.inj (Option.some.inj h)
      exact (List.suffix_cons _ _).trans (hu ▸ hs)
    · cases h

theorem scanObject_suffix {v : Json} (h : scanObject value s = some (v, rest)) : rest <:+ s := by
  unfold scanObject at h
  split at h
  · next t ht =>
    obtain ⟨-, rfl⟩ := Prod.mk.inj (Option.some.inj h)
    exact (List.suffix_cons _ _).trans (ht ▸ skipSpace_suffix s)
  · obtain ⟨⟨vs, t⟩, hvs, he⟩ := Option.map_eq_some_iff.1 h
    obtain ⟨-, rfl⟩ := Prod.mk.inj he
    exact scanMembers_suffix hvalue hvs

end

/-- **What is left** after a value is the end of the text. -/
theorem scanValue_suffix {depth : ℕ} {v : Json} (h : scanValue depth s = some (v, rest)) :
    rest <:+ s := by
  induction depth generalizing s rest v with
  | zero => exact scanScalar_suffix h
  | succ depth ih =>
    unfold scanValue at h
    split at h
    · exact (scanObject_suffix (fun h => ih h) h).trans (List.suffix_cons _ _)
    · exact (scanArray_suffix (fun h => ih h) h).trans (List.suffix_cons _ _)
    · exact scanScalar_suffix h

/-! ## The value of a number -/

/-- `strconv.ParseFloat`, of the literal of a number. -/
def parseFloat (literal : List Char) : Option ℚ :=
  let (sign, s) : ℚ × List Char :=
    match literal with
    | '-' :: s => (-1, s)
    | s => (1, s)
  let mantissa := s.takeWhile fun c => c ≠ 'e' ∧ c ≠ 'E'
  let exp : ℤ :=
    match s.dropWhile fun c => c ≠ 'e' ∧ c ≠ 'E' with
    | _ :: '-' :: ds => -Nat.ofDigitChars 10 ds 0
    | _ :: '+' :: ds => Nat.ofDigitChars 10 ds 0
    | _ :: ds => Nat.ofDigitChars 10 ds 0
    | [] => 0
  let frac := (mantissa.dropWhile fun c => c ≠ '.').length - 1
  let digits : ℕ := Nat.ofDigitChars 10 (mantissa.filter Char.isDigit) 0
  let x := round64 (digits * 10 ^ (exp - frac))
  if x < 2 ^ 1024 then some (sign * x) else none

end Json

end VcsClient.Lib
