import Mathlib
import VcsClient.Lib.Bitmap
import VcsClient.Lib.Runs

/-!
# The load test's loss ledger

`internal/loadgen/ledger.go`: a sequence number of the wire has 24 bits and stands for
the nearest number that has them (`unwrap24_nearest`). What a ledger has counted is a
matter of which numbers arrived, and not of their order (`marked_marks`).

Words of 64 bits are numbers, and the counters do not overflow.
-/

namespace VcsClient.Loadgen

open VcsClient.Lib

def mask24 : ℕ := 0xFFFFFF

def absDiff (a b : ℕ) : ℕ := if a > b then a - b else b - a

/-- `unwrap24`. -/
def unwrap24 (ref s : ℕ) : ℕ :=
  let s := s &&& mask24
  -- `ref &^ mask24`
  let hi := ref - (ref &&& mask24)
  let best := hi ||| s
  let below := (hi - 2 ^ 24) ||| s
  let best := if 2 ^ 24 ≤ hi ∧ absDiff below ref < absDiff best ref then below else best
  let above := (hi + 2 ^ 24) % 2 ^ 64 ||| s
  if absDiff above ref < absDiff best ref then above else best

structure LedgerResult where
  expected : ℕ
  unique : ℕ
  lost : ℕ
  dups : ℕ
  reordered : ℕ
  outOfRange : ℕ
  bursts : List ℕ

/-- The two results agree about what was lost. -/
def SameLoss (r r' : LedgerResult) : Prop :=
  r.unique = r'.unique ∧ r.lost = r'.lost ∧ r.bursts = r'.bursts

/-- The marks are the unique numbers, the duplicates and the ones out of range; the
unique and the lost ones are those sent; the bursts are the runs of the lost ones, and
add up to them. -/
structure Accounts (base n : ℕ) (us : List ℕ) (r : LedgerResult) : Prop where
  marks : us.length = r.unique + r.dups + r.outOfRange
  sent : r.unique + r.lost = n
  sum : r.bursts.sum = r.lost
  bursts : ∃ l, l.map Prod.snd = r.bursts ∧ IsRuns (fun i => decide (base + i ∉ us)) n l

structure RecvLedger where
  base : ℕ
  n : ℕ
  bits : Bitmap
  highest : ℕ
  seen : Bool
  unique : ℕ
  dups : ℕ
  reordered : ℕ
  outOfRange : ℕ

/-- What `Mark` reports. -/
structure Marked where
  dup : Bool
  reordered : Bool

namespace RecvLedger

/-- `NewRecvLedger`. -/
def new (base : ℕ) (n : ℤ) : RecvLedger where
  base := base
  n := n.toNat
  bits := .new n.toNat
  highest := base
  seen := false
  unique := 0
  dups := 0
  reordered := 0
  outOfRange := 0

/-- `Mark`. -/
def mark (l : RecvLedger) (seq24 : ℕ) : Marked × RecvLedger :=
  let u := unwrap24 l.highest seq24
  if u < l.base ∨ l.n ≤ u - l.base then
    (⟨false, false⟩, { l with outOfRange := l.outOfRange + 1 })
  else
    let i := u - l.base
    if l.bits.test i then (⟨true, false⟩, { l with dups := l.dups + 1 })
    else
      let l := { l with bits := l.bits.set i, unique := l.unique + 1 }
      if l.seen = true ∧ u < l.highest then
        (⟨false, true⟩, { l with reordered := l.reordered + 1 })
      else (⟨false, false⟩, { l with highest := u, seen := true })

/-- `Result`. -/
def result (l : RecvLedger) : LedgerResult where
  expected := l.n
  unique := l.unique
  lost := l.n - l.unique
  dups := l.dups
  reordered := l.reordered
  outOfRange := l.outOfRange
  bursts := runs (fun i => !l.bits.test i) l.n

/-- The ledger after the arrival of numbers of which the wire has the low 24 bits. -/
def marks (l : RecvLedger) (us : List ℕ) : RecvLedger :=
  us.foldl (fun l u => (l.mark (u % 2 ^ 24)).2) l

end RecvLedger

/-! ## Unwrapping -/

section Unwrap

variable {ref s u : ℕ}

theorem and_mask24 (x : ℕ) : x &&& mask24 = x % 2 ^ 24 := Nat.and_two_pow_sub_one_eq_mod x 24

theorem or_low {hi : ℕ} (hhi : 2 ^ 24 ∣ hi) (hs : s < 2 ^ 24) : hi ||| s = hi + s := by
  obtain ⟨k, rfl⟩ := hhi
  exact (Nat.two_pow_add_eq_or_of_lt hs k).symm

/-- The candidate that is nearest: the number with the upper bits of the reference, or
with the ones below or above. -/
theorem unwrap24_least (hs : s < 2 ^ 24) {hi above r : ℕ} (hhi : hi = ref / 2 ^ 24 * 2 ^ 24)
    (ha : above = (hi + 2 ^ 24) % 2 ^ 64) (hr : r = unwrap24 ref s) :
    (r = hi + s ∨ r = hi - 2 ^ 24 + s ∨ r = above + s) ∧
      absDiff r ref ≤ absDiff (hi + s) ref ∧
      (2 ^ 24 ≤ hi → absDiff r ref ≤ absDiff (hi - 2 ^ 24 + s) ref) ∧
      absDiff r ref ≤ absDiff (above + s) ref := by
  have hlow : s &&& mask24 = s := by rw [and_mask24, Nat.mod_eq_of_lt hs]
  have hhi' : ref - (ref &&& mask24) = hi := by
    rw [and_mask24]
    omega
  have hdvd : 2 ^ 24 ∣ hi := hhi ▸ Nat.dvd_mul_left _ _
  have hbelow : 2 ^ 24 ∣ hi - 2 ^ 24 := Nat.dvd_sub hdvd (dvd_refl _)
  have habove : 2 ^ 24 ∣ above := by
    rw [ha]
    exact (Nat.dvd_mod_iff (Nat.pow_dvd_pow 2 (by decide))).2 (Nat.dvd_add hdvd (dvd_refl _))
  unfold unwrap24 at hr
  simp only [hlow, hhi', ← ha, or_low hdvd hs, or_low hbelow hs, or_low habove hs] at hr
  clear hlow hhi' hdvd hbelow habove hhi ha hs
  rw [hr]
  split_ifs with hbest hlast hlast
  · exact ⟨.inr (.inr rfl), by omega, by omega, by omega⟩
  · exact ⟨.inr (.inl rfl), by omega, by omega, by omega⟩
  · exact ⟨.inr (.inr rfl), by omega, by omega, by omega⟩
  · exact ⟨.inl rfl, by omega, by omega, by omega⟩

/-- **The unwrapped number** has the low bits of one that is near, and is no farther
from the reference. -/
theorem unwrap24_near (href : ref < 2 ^ 64) (hu : u < 2 ^ 64) (hle : u ≤ ref + 2 ^ 23)
    (hge : ref ≤ u + 2 ^ 23) :
    unwrap24 ref (u % 2 ^ 24) % 2 ^ 24 = u % 2 ^ 24 ∧
      absDiff (unwrap24 ref (u % 2 ^ 24)) ref ≤ absDiff u ref := by
  have hs := Nat.mod_lt u (by decide : 0 < 2 ^ 24)
  obtain ⟨hr, hsame, hbelow, habove⟩ := @unwrap24_least ref _ hs _ _ _ rfl rfl rfl
  generalize unwrap24 ref (u % 2 ^ 24) = r at *
  constructor
  · have hdvd : 2 ^ 24 ∣ (ref / 2 ^ 24 * 2 ^ 24 + 2 ^ 24) % 2 ^ 64 :=
      (Nat.dvd_mod_iff (Nat.pow_dvd_pow 2 (by decide))).2
        (Nat.dvd_add (Nat.dvd_mul_left _ _) (dvd_refl _))
    omega
  · -- the block of the number is that of the reference or a neighbour of it
    have hblock : u / 2 ^ 24 = ref / 2 ^ 24 ∨ u / 2 ^ 24 + 1 = ref / 2 ^ 24 ∨
        u / 2 ^ 24 = ref / 2 ^ 24 + 1 := by
      omega
    rcases hblock with h | h | h
    · have heq : ref / 2 ^ 24 * 2 ^ 24 + u % 2 ^ 24 = u := by omega
      rwa [heq] at hsame
    · have heq : ref / 2 ^ 24 * 2 ^ 24 - 2 ^ 24 + u % 2 ^ 24 = u := by omega
      rw [heq] at hbelow
      exact hbelow (by omega)
    · have heq : (ref / 2 ^ 24 * 2 ^ 24 + 2 ^ 24) % 2 ^ 64 + u % 2 ^ 24 = u := by omega
      rwa [heq] at habove

/-- **`unwrap24`** gives the nearest of the integers with the low bits, when a number
that has them is at most half a turn away. -/
theorem unwrap24_nearest (href : ref < 2 ^ 64) (hu : u < 2 ^ 64) (hle : u ≤ ref + 2 ^ 23)
    (hge : ref ≤ u + 2 ^ 23) :
    (unwrap24 ref (u % 2 ^ 24) : ℤ) ≡ u [ZMOD 2 ^ 24] ∧
      ∀ c : ℤ, c ≡ u [ZMOD 2 ^ 24] → |(unwrap24 ref (u % 2 ^ 24) : ℤ) - ref| ≤ |c - ref| := by
  obtain ⟨hmod, hdiff⟩ := unwrap24_near href hu hle hge
  generalize unwrap24 ref (u % 2 ^ 24) = r at *
  have habs : ∀ a : ℕ, |(a : ℤ) - ref| = absDiff a ref := by
    intro a
    unfold absDiff
    split
    · rw [abs_of_nonneg (by omega)]
      omega
    · rw [abs_of_nonpos (by omega)]
      omega
  refine ⟨by rw [Int.ModEq]; omega, fun c hc => ?_⟩
  have hru : |(r : ℤ) - ref| ≤ |(u : ℤ) - ref| := by
    rw [habs, habs]
    exact_mod_cast hdiff
  refine hru.trans ?_
  -- another integer with the same low bits is a whole turn away
  rcases eq_or_ne c u with rfl | hne
  · exact le_rfl
  · rw [Int.ModEq] at hc
    have hturn : c ≤ (u : ℤ) - 2 ^ 24 ∨ (u : ℤ) + 2 ^ 24 ≤ c := by omega
    exact (abs_le'.2 ⟨by omega, by omega⟩ : _ ≤ (2 : ℤ) ^ 23).trans (le_abs.2 (by omega))

end Unwrap

/-! ## Marks -/

namespace RecvLedger

variable {base n u : ℕ} {us : List ℕ} {l : RecvLedger}

/-- A number that the ledger of `n` numbers from `base` on may be marked with. -/
def InReach (base n u : ℕ) : Prop := u < 2 ^ 64 ∧ base ≤ u + 2 ^ 22 ∧ u ≤ base + n + 2 ^ 22

/-- The ledger after numbers have arrived: the bits are those that did, and the counts
follow. -/
structure Holds (base n : ℕ) (us : List ℕ) (l : RecvLedger) : Prop where
  base_eq : l.base = base
  n_eq : l.n = n
  words : l.bits.words.length = (n + 63) / 64
  bits : ∀ i, l.bits.test i = true ↔ i < n ∧ base + i ∈ us
  highest_ge : base ≤ l.highest
  highest_le : l.highest ≤ base + (n - 1)
  highest_lt : l.highest < 2 ^ 64
  unique : l.unique = (List.range n).countP (l.bits.test ·)
  total : l.unique + l.dups + l.outOfRange = us.length

theorem holds_new (hbase : base < 2 ^ 64) : Holds base n [] (new base n) where
  base_eq := rfl
  n_eq := rfl
  words := List.length_replicate
  bits i := by simp [new]
  highest_ge := le_rfl
  highest_le := Nat.le_add_right _ _
  highest_lt := hbase
  unique := by simp [new]
  total := rfl

/-- What `Mark` takes the number for is the number, or is out of range as the number is. -/
theorem Holds.unwrapped (h : Holds base n us l) (hn : n ≤ 2 ^ 22) (hu : InReach base n u) :
    (unwrap24 l.highest (u % 2 ^ 24) < base ∨ base + n ≤ unwrap24 l.highest (u % 2 ^ 24)) ∧
        (u < base ∨ base + n ≤ u) ∨
      unwrap24 l.highest (u % 2 ^ 24) = u ∧ base ≤ u ∧ u < base + n := by
  obtain ⟨hlt, hge, hle⟩ := hu
  have hlo := h.highest_ge
  have hhi := h.highest_le
  obtain ⟨hmod, hdiff⟩ := unwrap24_near h.highest_lt hlt (by omega) (by omega)
  generalize unwrap24 l.highest (u % 2 ^ 24) = r at *
  unfold absDiff at hdiff
  by_cases hin : base ≤ u ∧ u < base + n
  · right
    refine ⟨?_, hin⟩
    split_ifs at hdiff <;> omega
  · left
    refine ⟨?_, by omega⟩
    by_contra hr
    have : r = u := by split_ifs at hdiff <;> omega
    omega

/-- **One mark.** -/
theorem Holds.mark (h : Holds base n us l) (hn : n ≤ 2 ^ 22) (hu : InReach base n u) :
    Holds base n (us ++ [u]) (l.mark (u % 2 ^ 24)).2 := by
  obtain rfl := h.base_eq
  obtain rfl := h.n_eq
  have htotal := h.total
  have hlen : (us ++ [u]).length = us.length + 1 := List.length_append
  unfold RecvLedger.mark
  rcases h.unwrapped hn hu with ⟨hr, hout⟩ | ⟨hr, hin⟩
  · have hskip : unwrap24 l.highest (u % 2 ^ 24) < l.base ∨
        l.n ≤ unwrap24 l.highest (u % 2 ^ 24) - l.base := by omega
    simp only [if_pos hskip]
    refine { h with bits := fun i => ?_, total := by simp only [hlen]; omega }
    rw [h.bits, List.mem_append, List.mem_singleton]
    refine and_congr_right fun hi => (or_iff_left ?_).symm
    omega
  · rw [hr]
    have hgo : ¬ (u < l.base ∨ l.n ≤ u - l.base) := by omega
    simp only [if_neg hgo]
    split
    · next hdup =>
      refine { h with bits := fun i => ?_, total := by simp only [hlen]; omega }
      have hmem := ((h.bits _).1 hdup).2
      rw [h.bits, List.mem_append, List.mem_singleton]
      refine and_congr_right fun hi => (or_iff_left_of_imp ?_).symm
      rintro rfl
      rwa [Nat.add_sub_cancel' hin.1] at hmem
    · next hnew =>
      have hword : (u - l.base) / 64 < l.bits.words.length := by
        rw [h.words]
        omega
      have hbits : ∀ i, (l.bits.set (u - l.base)).test i = true ↔
          i < l.n ∧ l.base + i ∈ us ++ [u] := by
        intro i
        have hplace : i = u - l.base ↔ l.base + i = u := by omega
        rw [Bitmap.test_set hword, Bool.or_eq_true, decide_eq_true_iff, h.bits, List.mem_append,
          List.mem_singleton, hplace, and_or_left, or_comm]
        refine or_congr_right (and_iff_right_of_imp fun he => ?_).symm
        omega
      have hunique : l.unique + 1 =
          (List.range l.n).countP ((l.bits.set (u - l.base)).test ·) := by
        rw [h.unique]
        exact (Bitmap.countP_set hword (by omega) (Bool.eq_false_of_not_eq_true hnew)).symm
      split
      · exact { h with
          words := (Bitmap.length_set).trans h.words
          bits := hbits
          unique := hunique
          total := by simp only [hlen]; omega }
      · exact { h with
          words := (Bitmap.length_set).trans h.words
          bits := hbits
          unique := hunique
          highest_ge := hin.1
          highest_le := by simp only; omega
          highest_lt := hu.1
          total := by simp only [hlen]; omega }

theorem holds_marks (hn : n ≤ 2 ^ 22) {new' : RecvLedger} {old : List ℕ}
    (hl : Holds base n old new') (hus : ∀ u ∈ us, InReach base n u) :
    Holds base n (old ++ us) (new'.marks us) := by
  induction us generalizing new' old with
  | nil => simpa [marks] using hl
  | cons u us ih =>
    have hu := hl.mark hn (hus u List.mem_cons_self)
    have := ih hu fun u' hu' => hus u' (List.mem_cons_of_mem _ hu')
    rwa [List.append_assoc] at this

/-- **What a ledger holds** after any arrivals within its reach. -/
theorem marked_marks (hbase : base < 2 ^ 64) (hn : n ≤ 2 ^ 22)
    (hus : ∀ u ∈ us, InReach base n u) : Holds base n us ((new base n).marks us) :=
  holds_marks hn (holds_new hbase) hus

/-- The bits of the numbers, as far as they are read. -/
theorem Holds.test_eq (h : Holds base n us l) {i : ℕ} (hi : i < n) :
    l.bits.test i = decide (base + i ∈ us) := by
  rw [Bool.eq_iff_iff, h.bits, decide_eq_true_iff]
  exact and_iff_right hi

theorem Holds.result (h : Holds base n us l) :
    l.result.unique = (List.range n).countP (fun i => decide (base + i ∈ us)) ∧
      l.result.unique + l.result.lost = n ∧
      l.result.bursts = runs (fun i => decide (base + i ∉ us)) n := by
  have hn := h.n_eq
  have hunique : l.unique = (List.range n).countP (fun i => decide (base + i ∈ us)) := by
    rw [h.unique]
    refine List.countP_congr fun i hi => ?_
    rw [h.test_eq (List.mem_range.1 hi)]
  have hle : l.unique ≤ n := by
    rw [hunique]
    exact List.countP_le_length.trans_eq List.length_range
  refine ⟨hunique, ?_, ?_⟩
  · show l.unique + (l.n - l.unique) = n
    omega
  · show runs _ l.n = _
    rw [hn]
    exact runs_congr fun i hi => by rw [h.test_eq hi, decide_not]

theorem lost_eq (n : ℕ) (p : ℕ → Bool) :
    (List.range n).countP (fun i => p i) + (List.range n).countP (fun i => !p i) = n := by
  have h := List.length_eq_countP_add_countP p (l := List.range n)
  simp only [List.length_range, Bool.not_eq_true, Bool.decide_eq_false] at h
  exact h.symm

theorem Holds.accounts (h : Holds base n us l) : Accounts base n us l.result := by
  obtain ⟨hunique, hsum, hbursts⟩ := h.result
  refine ⟨h.total.symm, hsum, ?_, hbursts ▸ runs_spec _ n⟩
  have hlost := lost_eq n fun i => decide (base + i ∈ us)
  rw [← hunique] at hlost
  have hruns := sum_runs (fun i => decide (base + i ∉ us)) n
  rw [← hbursts] at hruns
  simp only [decide_not] at hruns
  omega

/-- **The loss ledger.** For every sequence of marks within reach of the numbers sent:
each number of the wire is taken for the nearest integer; the result accounts for the
marks and for the numbers sent; and what was lost does not depend on the order of
arrival. -/
theorem ledger_counts (hbase : base < 2 ^ 64) (hn : n ≤ 2 ^ 22)
    (hus : ∀ u ∈ us, InReach base n u) :
    (∀ pre u post, us = pre ++ u :: post →
      let ref := ((new base n).marks pre).highest
      (unwrap24 ref (u % 2 ^ 24) : ℤ) ≡ u [ZMOD 2 ^ 24] ∧
        ∀ c : ℤ, c ≡ u [ZMOD 2 ^ 24] → |(unwrap24 ref (u % 2 ^ 24) : ℤ) - ref| ≤ |c - ref|) ∧
    Accounts base n us ((new base n).marks us).result ∧
    ∀ us', us'.Perm us →
      SameLoss ((new base n).marks us').result ((new base n).marks us).result := by
  have h := marked_marks hbase hn hus
  refine ⟨?_, h.accounts, fun us' hperm => ?_⟩
  · rintro pre u post rfl ref
    have hb : Holds base n pre _ :=
      marked_marks hbase hn fun u' hu' => hus u' (List.mem_append_left _ hu')
    obtain ⟨hlt, hge, hle⟩ := hus u (List.mem_append_right _ List.mem_cons_self)
    have hlo := hb.highest_ge
    have hhi := hb.highest_le
    exact unwrap24_nearest hb.highest_lt hlt (by omega) (by omega)
  · obtain ⟨hunique, hsum, hbursts⟩ := h.result
    have h' := marked_marks hbase hn fun u hu => hus u (hperm.mem_iff.1 hu)
    obtain ⟨hunique', hsum', hbursts'⟩ := h'.result
    have hsame : ∀ i, (base + i ∈ us' ↔ base + i ∈ us) := fun i => hperm.mem_iff
    simp only [hsame] at hunique' hbursts'
    have hu := hunique'.trans hunique.symm
    exact ⟨hu, by omega, hbursts'.trans hbursts.symm⟩

/-- Five numbers around the wrap: two arrive in the wrong order, one twice, one from
before. -/
theorem ledger_counts_wrap :
    Accounts 16777214 5 [16777216, 16777214, 16777216, 16777200]
      ((new 16777214 5).marks [16777216, 16777214, 16777216, 16777200]).result := by
  refine (ledger_counts (by decide) (by decide) fun u hu => ?_).2.1
  simp only [List.mem_cons, List.not_mem_nil, or_false] at hu
  rcases hu with rfl | rfl | rfl | rfl <;> exact ⟨by decide, by decide, by decide⟩

end RecvLedger

end VcsClient.Loadgen
