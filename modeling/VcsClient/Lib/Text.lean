import Mathlib.Algebra.Ring.Int.Defs
import Mathlib.Algebra.Ring.Nat
import Mathlib.Data.Int.Notation
import Mathlib.Data.List.Basic
import Mathlib.Tactic.Common

/-!
# Text

Characters as the standard library of the source reads them: `strings.TrimSpace`,
`strings.Cut` at a character and `strconv.Atoi`. What was printed before a separator
is read back.

`runes` are the characters that a loop over a string of bytes yields: a byte that
begins no UTF-8 sequence is read as U+FFFD, and the loop goes on at the next one.
Text that is UTF-8 yields its characters.
-/

namespace VcsClient.Lib

section Characters

/-- `unicode.IsSpace`. -/
def isSpace (c : Char) : Bool :=
  [0x09, 0x0A, 0x0B, 0x0C, 0x0D, 0x20, 0x85, 0xA0, 0x1680, 0x2028, 0x2029, 0x202F, 0x205F,
    0x3000].contains c.toNat || (0x2000 ≤ c.toNat && c.toNat ≤ 0x200A)

/-- Nothing is left of it by `strings.TrimSpace`. -/
def isBlank (s : List Char) : Bool := s.all isSpace

/-- `strings.TrimSpace`. -/
def trimSpace (s : List Char) : List Char :=
  ((s.dropWhile isSpace).reverse.dropWhile isSpace).reverse

/-- `strconv.Itoa`. -/
def itoa : ℤ → List Char
  | .ofNat n => Nat.toDigits 10 n
  | .negSucc n => '-' :: Nat.toDigits 10 (n + 1)

/-- `strings.Contains`. -/
def contains (pat : List Char) : List Char → Bool
  | [] => pat.isPrefixOf []
  | c :: s => pat.isPrefixOf (c :: s) || contains pat s

/-- `strings.Cut`. -/
def cut (sep : Char) : List Char → Option (List Char × List Char)
  | [] => none
  | c :: s => if c = sep then some ([], s) else (cut sep s).map fun p => (c :: p.1, p.2)

/-- `strconv.Atoi`. -/
def atoi (s : List Char) : Option ℤ :=
  let (sign, digits) : ℤ × List Char :=
    match s with
    | '+' :: ds => (1, ds)
    | '-' :: ds => (-1, ds)
    | ds => (1, ds)
  if digits ≠ [] ∧ digits.all Char.isDigit then
    let n := sign * Nat.ofDigitChars 10 digits 0
    if -2 ^ 63 ≤ n ∧ n < 2 ^ 63 then some n else none
  else none

variable {sep : Char} {a b : List Char}

theorem cut_append (h : sep ∉ a) : cut sep (a ++ sep :: b) = some (a, b) := by
  induction a with
  | nil => simp [cut]
  | cons c a ih =>
    have hne : c ≠ sep := fun he => h (he ▸ List.mem_cons_self)
    have hnot : sep ∉ a := fun hm => h (List.mem_cons_of_mem _ hm)
    simp [cut, hne, ih hnot]

/-- A printed number has digits, and a sign before them at most. -/
theorem isDigit_of_mem_itoa {n : ℤ} {c : Char} (h : c ∈ itoa n) : c.isDigit = true ∨ c = '-' := by
  have hdigit : ∀ k, c ∈ Nat.toDigits 10 k → c.isDigit = true := fun k hk =>
    Nat.isDigit_of_mem_toDigits (by omega) (Nat.le_refl 10) hk
  cases n with
  | ofNat n => exact .inl (hdigit _ h)
  | negSucc n =>
    obtain rfl | h := List.mem_cons.1 h
    · exact .inr rfl
    · exact .inl (hdigit _ h)

theorem itoa_ne_nil (n : ℤ) : itoa n ≠ [] := by
  cases n with
  | ofNat n => exact Nat.toDigits_ne_nil
  | negSucc n => exact List.cons_ne_nil _ _

theorem not_isBlank_of_mem {s : List Char} {c : Char} (hc : c ∈ s) (hs : isSpace c = false) :
    isBlank s = false := by
  unfold isBlank
  rw [List.all_eq_false]
  exact ⟨c, hc, by simp [hs]⟩

end Characters

/-! ## Runes -/

section Runes

/-- The characters from where `skip` bytes are still of the last one. -/
def runesFrom : ℕ → List UInt8 → List Char
  | _, [] => []
  | skip + 1, _ :: s => runesFrom skip s
  | 0, b :: s =>
    match (b :: s).toByteArray.utf8DecodeChar? 0 with
    | some c => c :: runesFrom (c.utf8Size - 1) s
    | none => '\uFFFD' :: runesFrom 0 s

def runes (s : List UInt8) : List Char := runesFrom 0 s

def utf8 (cs : List Char) : List UInt8 := cs.flatMap String.utf8EncodeChar

theorem runesFrom_append (a s : List UInt8) : runesFrom a.length (a ++ s) = runesFrom 0 s := by
  induction a with
  | nil => rfl
  | cons b a ih => exact ih

/-- **Text that is UTF-8** yields its characters. -/
theorem runes_utf8 (cs : List Char) : runes (utf8 cs) = cs := by
  induction cs with
  | nil => rfl
  | cons c cs ih =>
    have hdecode : (utf8 (c :: cs)).toByteArray.utf8DecodeChar? 0 = some c :=
      List.utf8DecodeChar?_utf8Encode_cons
    have hlen : (String.utf8EncodeChar c).length = c.utf8Size := String.length_utf8EncodeChar c
    have happend : utf8 (c :: cs) = String.utf8EncodeChar c ++ utf8 cs := rfl
    unfold runes
    cases henc : String.utf8EncodeChar c with
    | nil =>
      have := c.utf8Size_pos
      rw [henc] at hlen
      simp at hlen
      omega
    | cons b bs =>
      rw [happend, henc, List.cons_append] at hdecode ⊢
      rw [runesFrom, hdecode]
      rw [henc, List.length_cons] at hlen
      dsimp only
      rw [show c.utf8Size - 1 = bs.length by omega, runesFrom_append]
      exact congrArg _ ih

end Runes

end VcsClient.Lib
