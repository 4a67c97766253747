import Mathlib.Tactic.LinearCombination
import VcsClient.Lib.Decimal
import VcsClient.Voice.Freq

/-!
# The frequency display

`shared/freq.ts` and `LcdFreq.tsx`: a frequency is edited as an integer, digit by digit or
typed, and becomes a float at the edge. The float is taken in two roundings where the backend
takes one; for a frequency of the wire they agree.
-/

namespace VcsClient.Shared

open VcsClient.Lib VcsClient.Voice

def minKhz : ℤ := 0

def maxKhz : ℤ := 16777215

/-- `Math.round` leaves an integer as it is. -/
def clampKhz (khz : ℤ) : ℤ := min maxKhz (max minKhz khz)

def mhzToKhz (mhz : ℚ) : ℤ := round (round64 (mhz * 1000))

/-- `khz / 1000` is a double before `Math.fround`. -/
def khzToMhz (khz : ℤ) : ℚ := round32 (round64 (khz / 1000))

/-- A rendered character; the separator has no place. -/
structure FreqCell where
  char : Char
  place : Option ℕ
  deriving DecidableEq

def mhzPad : ℕ := 3

/-- The cells of a run of digits whose last one has the place `low`. -/
def placed (low : ℕ) (s : List Char) : List FreqCell :=
  s.zipIdx.map fun ci => ⟨ci.1, some (s.length - 1 - ci.2 + low)⟩

def digitsOf (khz : ℤ) : List FreqCell :=
  let k := (clampKhz khz).toNat
  let mhzPart := padStart mhzPad '0' (Nat.toDigits 10 (k / 1000))
  let khzPart := padStart 3 '0' (Nat.toDigits 10 (k % 1000))
  placed 3 mhzPart ++ [⟨'.', none⟩] ++ placed 0 khzPart

inductive Dir where
  | up | down
  deriving DecidableEq

def Dir.sign : Dir → ℤ
  | .up => 1
  | .down => -1

/-- A step that would leave the wire range is refused. -/
def stepDigit (khz : ℤ) (place : ℕ) (dir : Dir) : ℤ :=
  let next := clampKhz khz + dir.sign * 10 ^ place
  if next < minKhz ∨ maxKhz < next then clampKhz khz else next

/-! ## The display -/

structure LcdFreq where
  khz : ℤ
  draft : Option (List Char)
  place : ℕ
  /-- What `onChange` was called with, newest first. -/
  changes : List ℤ

/-- What the display is told. `props` is a new value from its owner. -/
inductive LcdEvent where
  | props (khz : ℤ)
  | digitWheel (place : ℕ) (dir : Dir)
  | digitClick (place : ℕ) (shift : Bool)
  | digitKey (d : Fin 10)
  | backspace
  | enter
  | escape
  | arrowLeft
  | arrowRight
  | arrowUp
  | arrowDown
  | lcdWheel (dir : Dir)
  | blur

namespace LcdFreq

def init (khz : ℤ) : LcdFreq := ⟨khz, none, 0, []⟩

/-- The places of the cells, the largest first. -/
def places (s : LcdFreq) : List ℕ := (digitsOf s.khz).filterMap (·.place)

def step (s : LcdFreq) (p : ℕ) (dir : Dir) : LcdFreq :=
  if s.draft.isSome then s
  else
    let next := stepDigit s.khz p dir
    { s with place := p, changes := if next = clampKhz s.khz then s.changes else next :: s.changes }

/-- While a draft is open no cell has a place. -/
def moveCursor (s : LcdFreq) (right : Bool) : LcdFreq :=
  let places := if s.draft.isSome then [] else s.places
  let last := places.length - 1
  let i := places.idxOf s.place
  let start := if i < places.length then i else last
  let next := if right then min last (start + 1) else start - 1
  { s with place := places.getD next s.place }

/-- `Number.parseInt(draft, 10)`; what a double makes of a long draft is beyond the range, too. -/
def draftValue (draft : List Char) : ℤ := Nat.ofDigitChars 10 draft 0

def commitDraft (s : LcdFreq) : LcdFreq :=
  match s.draft with
  | none => s
  | some draft => { s with draft := none, changes := clampKhz (draftValue draft) :: s.changes }

def handle (s : LcdFreq) : LcdEvent → LcdFreq
  | .props khz => { s with khz := khz }
  | .digitWheel p dir => s.step p dir
  | .digitClick p shift => s.step p (if shift then .down else .up)
  | .digitKey d => { s with draft := some (s.draft.getD [] ++ [Nat.digitChar d]) }
  | .backspace => { s with draft := s.draft.map (·.dropLast) }
  | .enter => s.commitDraft
  | .escape | .blur => { s with draft := none }
  | .arrowLeft => s.moveCursor false
  | .arrowRight => s.moveCursor true
  | .arrowUp => s.step s.place .up
  | .arrowDown => s.step s.place .down
  | .lcdWheel dir =>
    match s.draft with
    | none => s
    | some draft =>
      { s with draft := none, changes := clampKhz (draftValue draft + dir.sign) :: s.changes }

end LcdFreq

/-! ## What is shown -/

theorem clampKhz_mem (khz : ℤ) : 0 ≤ clampKhz khz ∧ clampKhz khz ≤ maxKhz := by
  unfold clampKhz minKhz maxKhz
  omega

theorem stepDigit_mem (khz : ℤ) (place : ℕ) (dir : Dir) :
    0 ≤ stepDigit khz place dir ∧ stepDigit khz place dir ≤ maxKhz := by
  have h := clampKhz_mem khz
  unfold stepDigit minKhz
  dsimp only
  split_ifs <;> omega

theorem map_char_placed (low : ℕ) (s : List Char) : (placed low s).map (·.char) = s := by
  simp [placed, List.map_map, Function.comp_def]

theorem place_of_mem_placed {low : ℕ} {s : List Char} {c : FreqCell} (h : c ∈ placed low s) :
    c.place.isSome := by
  obtain ⟨ci, -, rfl⟩ := List.mem_map.1 h
  rfl

theorem filterMap_place_placed (low : ℕ) (s : List Char) :
    (placed low s).filterMap (·.place) = (List.range s.length).map (s.length - 1 - · + low) := by
  rw [placed, List.filterMap_map, List.range_eq_range', ← List.zipIdx_map_snd, List.map_map,
    ← List.filterMap_eq_map]
  rfl

/-- **What is shown is the frequency.** The digits, read in order, are the number of kHz, and
their places count down to that of 1 kHz. -/
theorem digits_read_back (khz : ℤ) :
    (Nat.ofDigitChars 10 (((digitsOf khz).filter (·.place.isSome)).map (·.char)) 0 : ℤ) =
        clampKhz khz ∧
      ∃ n, 6 ≤ n ∧ n ≤ 8 ∧ (digitsOf khz).filterMap (·.place) = (List.range n).reverse := by
  have hmem := clampKhz_mem khz
  obtain ⟨k, hk⟩ := Int.eq_ofNat_of_zero_le hmem.1
  rw [hk] at hmem
  have hmax : k ≤ 16777215 := by simpa [maxKhz] using hmem.2
  set mhzPart := padStart mhzPad '0' (Nat.toDigits 10 (k / 1000)) with hmhz
  set khzPart := padStart 3 '0' (Nat.toDigits 10 (k % 1000)) with hkhz
  have hcells : digitsOf khz = placed 3 mhzPart ++ [⟨'.', none⟩] ++ placed 0 khzPart := by
    rw [digitsOf, hk]
    rfl
  have hm := length_padStart (n := mhzPad) (e := 5)
    (length_toDigits_le (m := k / 1000) (by norm_num) (by omega)) (by norm_num [mhzPad])
  have hf := length_padStart (n := 3) (e := 3)
    (length_toDigits_le (m := k % 1000) (by norm_num) (by omega)) le_rfl
  rw [← hmhz] at hm
  rw [← hkhz] at hf
  have hkept : ∀ low s, (placed low s).filter (·.place.isSome) = placed low s := fun low s =>
    List.filter_eq_self.2 fun _ => place_of_mem_placed
  constructor
  · rw [hcells, List.filter_append, List.filter_append, hkept, hkept, List.filter_cons_of_neg,
      List.filter_nil, List.append_nil, List.map_append, map_char_placed, map_char_placed,
      Nat.ofDigitChars_append, ofDigitChars_padStart, Nat.ofDigitChars_eq_ofDigitChars_zero,
      ofDigitChars_padStart, hk]
    · have hlen : khzPart.length = 3 := by omega
      rw [hlen]
      norm_cast
      omega
    · simp
  · refine ⟨mhzPart.length + 3, by simpa [mhzPad] using hm.1, by omega, ?_⟩
    rw [hcells, List.filterMap_append, List.filterMap_append, filterMap_place_placed,
      filterMap_place_placed, List.filterMap_cons_none rfl, List.filterMap_nil, List.append_nil]
    refine List.ext_getElem (by simp; omega) fun i h₁ h₂ => ?_
    simp only [List.length_reverse, List.length_range] at h₂
    simp only [List.getElem_append, List.getElem_map, List.getElem_range, List.getElem_reverse,
      List.length_map, List.length_range]
    split <;> omega

/-! ## What is emitted -/

theorem khzToMhz_eq {k : KHz} (hk : k.toNat ≤ maxKHz) : khzToMhz k.toNat = mhz32 k := by
  obtain hzero | hpos := Nat.eq_zero_or_pos k.toNat
  · obtain rfl : k = 0 := UInt32.toNat_inj.1 hzero
    decide +kernel
  have hk' : (k.toNat : ℚ) + 1 ≤ 16777216 := by
    exact_mod_cast Nat.lt_of_le_sub_one (by norm_num) hk
  have h1 : (1 : ℚ) ≤ k.toNat := by exact_mod_cast hpos
  set x : ℚ := k.toNat / 1000 with hx
  have hxpos : 0 < x := by positivity
  have hlow : -10 ≤ Int.log 2 x := (Int.zpow_le_iff_le_log (b := 2) (by norm_num) hxpos).1
    (by norm_num; rw [hx]; linarith)
  have hhigh : Int.log 2 x < 15 := (Int.lt_zpow_iff_log_lt (b := 2) (by norm_num) hxpos).1
    (by norm_num; rw [hx]; linarith)
  have hplace : placeAt 23 (-149) x = Int.log 2 x - 23 := max_eq_left (by omega)
  have hplace' : placeAt 52 (-1074) x = Int.log 2 x - 52 := max_eq_left (by omega)
  rw [khzToMhz, mhz32_eq hk, Int.cast_natCast, round64_eq_roundAt, ← hx]
  refine roundAt_roundAt hxpos (by norm_num) (by omega) (by omega) fun n hne => ?_
  rw [hplace] at hne ⊢
  rw [hplace']
  -- a multiple of 1/1000 and one of the half place differ by a thousandth of that place
  obtain ⟨i, hi⟩ := Int.eq_ofNat_of_zero_le (a := -(Int.log 2 x - 23 - 1)) (by omega)
  set u : ℚ := 2 ^ (Int.log 2 x - 23 - 1) with hu
  have hupos : 0 < u := zpow_pos (by norm_num) _
  have hui : (2 : ℚ) ^ i * u = 1 := by
    rw [hu, show Int.log 2 x - 23 - 1 = -(i : ℤ) by omega, zpow_neg, zpow_natCast,
      mul_inv_cancel₀ (by positivity)]
  have hdist : x - n * u = ((k.toNat * 2 ^ i - 1000 * n : ℤ) : ℚ) * (u / 1000) := by
    push_cast
    rw [hx]
    linear_combination (-(k.toNat : ℚ) / 1000) * hui
  have hnz : (k.toNat * 2 ^ i - 1000 * n : ℤ) ≠ 0 := by
    intro h0
    rw [h0, Int.cast_zero, zero_mul, sub_eq_zero] at hdist
    exact hne hdist
  have hfine : (2 : ℚ) ^ (Int.log 2 x - 52) / 2 = u / 2 ^ 29 := by
    rw [show Int.log 2 x - 52 = Int.log 2 x - 23 - 1 + -28 by omega, zpow_add₀ (by norm_num), hu]
    norm_num
    ring
  have hone : (1 : ℚ) ≤ |((k.toNat * 2 ^ i - 1000 * n : ℤ) : ℚ)| := by
    exact_mod_cast Int.one_le_abs hnz
  rw [hfine, hdist, abs_mul, abs_of_pos (a := u / 1000) (by positivity)]
  calc u / 2 ^ 29 < 1 * (u / 1000) := by rw [one_mul]; gcongr; norm_num
    _ ≤ |((k.toNat * 2 ^ i - 1000 * n : ℤ) : ℚ)| * (u / 1000) := by gcongr

namespace LcdFreq

variable {s : LcdFreq}

def InRange (s : LcdFreq) : Prop := ∀ v ∈ s.changes, 0 ≤ v ∧ v ≤ maxKhz

theorem InRange.step (h : s.InRange) (p : ℕ) (dir : Dir) : (s.step p dir).InRange := by
  unfold LcdFreq.step
  split
  · exact h
  · intro v hv
    dsimp only at hv
    split at hv
    · exact h v hv
    · obtain rfl | hv := List.mem_cons.1 hv
      · exact stepDigit_mem _ _ _
      · exact h v hv

theorem InRange.clamped (h : s.InRange) {s' : LcdFreq} {khz : ℤ}
    (hs : s'.changes = clampKhz khz :: s.changes) : s'.InRange := by
  intro v hv
  rw [hs] at hv
  obtain rfl | hv := List.mem_cons.1 hv
  · exact clampKhz_mem khz
  · exact h v hv

theorem InRange.handle (h : s.InRange) (e : LcdEvent) : (s.handle e).InRange := by
  cases e with
  | digitWheel p dir => exact h.step p dir
  | digitClick p shift => exact h.step p _
  | arrowUp => exact h.step s.place .up
  | arrowDown => exact h.step s.place .down
  | enter =>
    simp only [LcdFreq.handle, commitDraft]
    split
    · exact h
    · exact h.clamped rfl
  | lcdWheel dir =>
    simp only [LcdFreq.handle]
    split
    · exact h
    · exact h.clamped rfl
  | _ => exact h

end LcdFreq

/-- **What the display emits.** In every run of the display each value it reports is a frequency
of the wire, its float is the one the backend computes for it, and up to 16.384 GHz the float is
shown as that value again. -/
theorem lcd_emits (khz : ℤ) (es : List LcdEvent) (v : ℤ)
    (hv : v ∈ (es.foldl LcdFreq.handle (.init khz)).changes) :
    0 ≤ v ∧ v ≤ maxKhz ∧ khzToMhz v = mhz32 (UInt32.ofNat v.toNat) ∧
      (v ≤ 16384000 → mhzToKhz (khzToMhz v) = v) := by
  have hrange : (es.foldl LcdFreq.handle (.init khz)).InRange := by
    refine List.foldlRecOn es LcdFreq.handle (motive := LcdFreq.InRange) ?_
      fun s h e _ => h.handle e
    intro v hv
    cases hv
  obtain ⟨h0, hmax⟩ := hrange v hv
  obtain ⟨n, rfl⟩ := Int.eq_ofNat_of_zero_le h0
  have hn : n ≤ maxKHz := by simpa [maxKhz, maxKHz] using hmax
  have hk : (UInt32.ofNat n).toNat = n :=
    UInt32.toNat_ofNat_of_lt' (by unfold maxKHz at hn; simp [UInt32.size]; omega)
  have hfloat : khzToMhz n = mhz32 (UInt32.ofNat n) := by
    conv_lhs => rw [← hk]
    exact khzToMhz_eq (by rw [hk]; exact hn)
  refine ⟨h0, hmax, hfloat, fun hexact => ?_⟩
  rw [hfloat, mhzToKhz]
  obtain rfl | hpos := Nat.eq_zero_or_pos n
  · decide +kernel
  have hround := abs_mhz32_sub_lt_half (k := UInt32.ofNat n) (by rw [hk]; omega)
    (by rw [hk]; exact hpos)
  rw [hk] at hround
  exact round_of_abs_lt (n := n) hround

/-- The 10 MHz digit is wheeled up, and 121500 is typed. -/
def typedEvents : List LcdEvent :=
  [.digitWheel 4 .up, .digitKey 1, .digitKey 2, .digitKey 1, .digitKey 5, .digitKey 0, .digitKey 0,
    .enter]

theorem lcd_emits_typed :
    (typedEvents.foldl LcdFreq.handle (.init 118000)).changes = [121500, 128000] ∧
      khzToMhz 121500 = mhz32 121500 ∧ mhzToKhz (khzToMhz 121500) = 121500 := by
  have hrun : (typedEvents.foldl LcdFreq.handle (.init 118000)).changes = [121500, 128000] := by
    decide
  obtain ⟨-, -, hfloat, hback⟩ := lcd_emits 118000 typedEvents 121500 (by simp [hrun])
  exact ⟨hrun, hfloat, hback (by decide)⟩

end VcsClient.Shared
