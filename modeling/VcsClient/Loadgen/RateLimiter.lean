import Mathlib.Data.List.Nodup
import Mathlib.Tactic.GCongr
import VcsClient.Lib.Log
import VcsClient.Lib.Machine
import VcsClient.Lib.Rounding

/-!
# The join rate limiter

`RateLimiter` of `internal/loadgen/ratelimit.go`. Callers of `Wait` reserve a slot under the lock
and sleep until it; they can be cancelled while they sleep, and a timer can be late. Times are
nanoseconds; the rates are the values of the floats.

Whatever the callers do, the slots lie a period of the rate apart, nobody starts before his slot,
and no slot is used twice (`joins_spaced`). The period is that of the largest rate a caller saw,
which falls as the net grows (`rate_antitone`).
-/

namespace VcsClient.Loadgen

open VcsClient.Lib

/-- A join that was let through. -/
structure Start where
  time : ℤ
  /-- None when the limiter was unbounded. -/
  slot : Option ℤ
  deriving DecidableEq

structure RateLimiter where
  max_ : ℚ
  scale : ℚ
  /-- `none` is the zero time. -/
  next : Option ℤ
  now : ℤ
  /-- The slots of the callers that sleep. -/
  callers : ℕ → Option ℤ
  /-- Newest first. -/
  slots : List ℤ
  started : List Start

inductive WaitOp where
  | tick (ns : ℕ)
  /-- `held` is how long the lock is held: the clock is read again before it is released. -/
  | wait (i : ℕ) (ended : Bool) (alive : ℤ) (held : ℕ)
  | wake (i : ℕ)
  /-- `ctx.Done()` while the caller sleeps. -/
  | cancel (i : ℕ)

namespace RateLimiter

def new (max_ scale : ℚ) (now : ℤ) : RateLimiter := ⟨max_, scale, none, now, fun _ => none, [], []⟩

/-- `Rate` -/
def rate (l : RateLimiter) (alive : ℤ) : ℚ :=
  let r := if 0 < l.max_ then l.max_ else 0
  if 0 < l.scale then
    let s := round64 (l.scale / round64 (max 1 alive : ℤ))
    if r = 0 ∨ s < r then s else r
  else r

/-- `time.Duration(float64(time.Second) / r)` -/
def period (r : ℚ) : ℤ := ⌊round64 (1000000000 / r)⌋

def start (l : RateLimiter) (slot : Option ℤ) : RateLimiter :=
  { l with started := ⟨l.now, slot⟩ :: l.started }

def admitTime (l : RateLimiter) : ℤ := l.next.elim l.now (max l.now)

def reserve (l : RateLimiter) (alive : ℤ) (held : ℕ) : RateLimiter :=
  { l with
    next := some (l.admitTime + period (l.rate alive))
    now := l.now + held
    slots := l.admitTime :: l.slots }

def step (l : RateLimiter) : WaitOp → Option RateLimiter
  | .tick ns => some { l with now := l.now + ns }
  | .wait i ended alive held =>
    if l.callers i ≠ none then none
    else if ended then some l
    else if l.rate alive ≤ 0 then some (l.start none)
    else
      let l' := l.reserve alive held
      if l.admitTime - l'.now ≤ 0 then some (l'.start (some l.admitTime))
      else some { l' with callers := Function.update l.callers i (some l.admitTime) }
  | .wake i =>
    match l.callers i with
    | none => none
    | some t =>
      if t ≤ l.now then
        some ({ l with callers := Function.update l.callers i none }.start (some t))
      else none
  | .cancel i =>
    match l.callers i with
    | none => none
    | some _ => some { l with callers := Function.update l.callers i none }

/-! ## The rate -/

variable {l l' : RateLimiter} {alive alive' : ℤ}

theorem round64_one : round64 1 = 1 := by
  rw [round64_eq_roundAt]
  refine roundAt_of_coarser (n := 1) (e := 0) ?_ (by norm_num)
  simp [placeAt, Int.log_one_right]

theorem one_le_divisor (alive : ℤ) : 1 ≤ round64 (max 1 alive : ℤ) :=
  round64_one.symm.le.trans (round64_mono zero_le_one (by exact_mod_cast le_max_left 1 alive))

theorem share_antitone (hs : 0 < l.scale) (h : alive ≤ alive') :
    round64 (l.scale / round64 (max 1 alive' : ℤ)) ≤
      round64 (l.scale / round64 (max 1 alive : ℤ)) := by
  have hpos := zero_lt_one.trans_le (one_le_divisor alive)
  have hpos' := zero_lt_one.trans_le (one_le_divisor alive')
  refine round64_mono (div_nonneg hs.le hpos'.le) (div_le_div_of_nonneg_left hs.le hpos ?_)
  refine round64_mono (by exact_mod_cast zero_le_one.trans (le_max_left 1 alive)) ?_
  exact_mod_cast max_le_max_left 1 h

/-- **The rate falls as the net grows.** -/
theorem rate_antitone (l : RateLimiter) (h : alive ≤ alive') : l.rate alive' ≤ l.rate alive := by
  simp only [rate]
  generalize (if 0 < l.max_ then l.max_ else 0) = r
  split
  · have hshare := share_antitone (l := l) ‹_› h
    split
    · rename_i hless'
      split
      · exact hshare
      · rename_i hless
        exact (hless'.resolve_left fun h => hless (.inl h)).le
    · rename_i hmore'
      split
      · exact (not_lt.1 fun h => hmore' (.inr h)).trans hshare
      · exact le_rfl
  · exact le_rfl

theorem period_anti {r r' : ℚ} (hr : 0 < r) (h : r ≤ r') : period r' ≤ period r := by
  have hr' := hr.trans_le h
  refine Int.floor_le_floor (round64_mono (by positivity) ?_)
  gcongr

/-! ## The slots -/

def used (l : RateLimiter) : List ℤ := l.started.filterMap (·.slot)

/-- A slot nobody uses or waits for. -/
structure Free (l : RateLimiter) (t : ℤ) : Prop where
  slot : t ∈ l.slots
  unused : t ∉ l.used
  unwaited : ∀ i, l.callers i ≠ some t

/-- The slots lie a period `p` apart, from `since` on, and each is used once at most. -/
structure Kept (p since : ℤ) (l : RateLimiter) : Prop where
  now : since ≤ l.now
  since : ∀ t ∈ l.slots, since ≤ t
  apart : Apart p l.slots
  next : ∀ t ∈ l.slots, ∃ n ∈ l.next, t + p ≤ n
  waiting : ∀ i, ∀ t ∈ l.callers i, t ∈ l.slots ∧ t ∉ l.used
  alone : ∀ i j, ∀ t ∈ l.callers i, t ∈ l.callers j → i = j
  used : ∀ t ∈ l.used, t ∈ l.slots
  once : l.used.Nodup
  early : ∀ e ∈ l.started, e.time ≤ l.now ∧ ∀ t ∈ e.slot, t ≤ e.time

variable {p since t : ℤ} {i : ℕ}

theorem kept_new (max_ scale : ℚ) (p since : ℤ) : (new max_ scale since).Kept p since where
  now := le_rfl
  since _ h := by cases h
  apart := .nil
  next _ h := by cases h
  waiting _ _ h := by cases h
  alone _ _ _ h := by cases h
  used _ h := by cases h
  once := .nil
  early _ h := by cases h

theorem Kept.tick (h : l.Kept p since) (ns : ℕ) : ({ l with now := l.now + ns }).Kept p since :=
  { h with
    now := by have := h.now; simp only; omega
    early := fun e he => ⟨by have := (h.early e he).1; simp only; omega, (h.early e he).2⟩ }

theorem now_le_admitTime (l : RateLimiter) : l.now ≤ l.admitTime := by
  cases hn : l.next <;> simp [admitTime, hn]

theorem Kept.le_admitTime (h : l.Kept p since) (ht : t ∈ l.slots) : t + p ≤ l.admitTime := by
  obtain ⟨n, hn, hle⟩ := h.next t ht
  rw [admitTime, Option.mem_def.1 hn]
  exact hle.trans (le_max_right _ _)

theorem Kept.reserve (h : l.Kept p since) (hp : 0 < p) (hperiod : p ≤ period (l.rate alive))
    (held : ℕ) : (l.reserve alive held).Kept p since ∧ (l.reserve alive held).Free l.admitTime := by
  have hnew : l.admitTime ∉ l.slots := fun hmem => by
    have := h.le_admitTime hmem
    omega
  refine ⟨{ h.tick held with
    since := ?_, apart := ?_, next := ?_, waiting := ?_, used := ?_ }, ?_⟩
  · rintro t (_ | ⟨_, ht⟩)
    · exact h.now.trans (now_le_admitTime l)
    · exact h.since t ht
  · exact List.pairwise_cons.2 ⟨fun t ht => h.le_admitTime ht, h.apart⟩
  · rintro t (_ | ⟨_, ht⟩)
    · exact ⟨_, rfl, by omega⟩
    · exact ⟨_, rfl, by have := h.le_admitTime ht; omega⟩
  · exact fun i t ht => ⟨List.mem_cons_of_mem _ (h.waiting i t ht).1, (h.waiting i t ht).2⟩
  · exact fun t ht => List.mem_cons_of_mem _ (h.used t ht)
  · exact ⟨List.mem_cons_self, fun hu => hnew (h.used _ hu), fun i hi => hnew (h.waiting i _ hi).1⟩

theorem Kept.start (h : l.Kept p since) (hfree : l.Free t) (ht : t ≤ l.now) :
    (l.start (some t)).Kept p since :=
  { h with
    waiting := fun i u hu => ⟨(h.waiting i u hu).1, fun hmem => by
      obtain rfl | hmem := List.mem_cons.1 hmem
      · exact hfree.unwaited i hu
      · exact (h.waiting i u hu).2 hmem⟩
    used := fun u hu => by
      obtain rfl | hu := List.mem_cons.1 hu
      · exact hfree.slot
      · exact h.used u hu
    once := List.nodup_cons.2 ⟨hfree.unused, h.once⟩
    early := fun e he => by
      obtain rfl | he := List.mem_cons.1 he
      · exact ⟨le_rfl, fun u hu => by cases hu; exact ht⟩
      · exact h.early e he }

theorem Kept.start_none (h : l.Kept p since) : (l.start none).Kept p since :=
  { h with
    early := fun e he => by
      obtain rfl | he := List.mem_cons.1 he
      · exact ⟨le_rfl, fun u hu => by cases hu⟩
      · exact h.early e he }

theorem Kept.sleep (h : l.Kept p since) (hfree : l.Free t) :
    ({ l with callers := Function.update l.callers i (some t) }).Kept p since :=
  { h with
    waiting := fun j u hu => by
      obtain rfl | hne := eq_or_ne j i
      · obtain rfl : t = u := by simpa using hu
        exact ⟨hfree.slot, hfree.unused⟩
      · exact h.waiting j u (by simpa [hne] using hu)
    alone := fun j k u hj hk => by
      by_cases hji : j = i <;> by_cases hki : k = i
      · rw [hji, hki]
      · obtain rfl : t = u := by simpa [hji] using hj
        exact absurd (by simpa [hki] using hk) (hfree.unwaited k)
      · obtain rfl : t = u := by simpa [hki] using hk
        exact absurd (by simpa [hji] using hj) (hfree.unwaited j)
      · exact h.alone j k u (by simpa [hji] using hj) (by simpa [hki] using hk) }

theorem Kept.leave (h : l.Kept p since) (ht : l.callers i = some t) :
    ({ l with callers := Function.update l.callers i none }).Kept p since ∧
      ({ l with callers := Function.update l.callers i none }).Free t := by
  have hold : ∀ j u, Function.update l.callers i none j = some u →
      l.callers j = some u ∧ j ≠ i := by
    intro j u hu
    obtain rfl | hne := eq_or_ne j i
    · simp at hu
    · exact ⟨by simpa [hne] using hu, hne⟩
  refine ⟨{ h with
    waiting := fun j u hu => h.waiting j u (hold j u hu).1
    alone := fun j k u hj hk => h.alone j k u (hold j u hj).1 (hold k u hk).1 }, ?_⟩
  exact ⟨(h.waiting i t ht).1, (h.waiting i t ht).2, fun j hj =>
    (hold j t hj).2 (h.alone j i t (hold j t hj).1 ht)⟩

/-- The slots a caller opens are at least `p` long. -/
def Paced (p : ℤ) (l : RateLimiter) : WaitOp → Prop
  | .wait _ _ alive _ => 0 < l.rate alive → p ≤ period (l.rate alive)
  | _ => True

theorem Kept.step (h : l.Kept p since) (hp : 0 < p) {op : WaitOp} (hop : l.Paced p op)
    (hs : l.step op = some l') : l'.Kept p since := by
  cases op with
  | tick ns =>
    cases hs
    exact h.tick ns
  | wait i ended alive held =>
    simp only [RateLimiter.step] at hs
    split at hs
    · cases hs
    split at hs
    · cases hs
      exact h
    split at hs
    · cases hs
      exact h.start_none
    · obtain ⟨hkept, hfree⟩ := h.reserve hp (hop (not_le.1 ‹_›)) held
      split at hs
      · cases hs
        exact hkept.start hfree (sub_nonpos.1 ‹_›)
      · cases hs
        exact hkept.sleep hfree
  | wake i =>
    simp only [RateLimiter.step] at hs
    split at hs
    · cases hs
    split at hs
    · cases hs
      obtain ⟨hkept, hfree⟩ := h.leave ‹_›
      exact hkept.start hfree ‹_›
    · cases hs
  | cancel i =>
    simp only [RateLimiter.step] at hs
    split at hs
    · cases hs
    · cases hs
      exact (h.leave ‹_›).1

/-! ## Runs -/

theorem step_rate {op : WaitOp} (hs : l.step op = some l') : l'.rate = l.rate := by
  cases op <;> simp only [RateLimiter.step] at hs <;> repeat' split at hs
  all_goals
    cases hs
    try rfl

/-- Every caller sees at least `alive` bots. -/
def Sees (alive : ℤ) : WaitOp → Prop
  | .wait _ _ alive' _ => alive ≤ alive'
  | _ => True

/-- **Joins are spaced.** Let every caller of a run see at least `alive` bots, and let `p` be the
period at that count. The slots given out lie `p` apart, whatever order the callers come in; each
is used once at most, and not before its time; so a stretch of `w` has at most `w / p + 1` slots,
and at most one join more than periods have passed has started. -/
theorem joins_spaced (max_ scale : ℚ) (since alive p : ℤ) (ops : List WaitOp) (l : RateLimiter)
    (hp : p = period ((new max_ scale since).rate alive)) (hpos : 0 < p)
    (hsees : ∀ op ∈ ops, Sees alive op) (hrun : exec step (new max_ scale since) ops = some l) :
    Apart p l.slots ∧ l.used.Nodup ∧ (∀ t ∈ l.used, t ∈ l.slots) ∧
      (∀ e ∈ l.started, ∀ t ∈ e.slot, t ≤ e.time) ∧
      (∀ a w, 0 ≤ w → ((l.slots.filter fun t => a ≤ t ∧ t ≤ a + w).length : ℤ) ≤ w / p + 1) ∧
      (l.used.length : ℤ) ≤ (l.now - since) / p + 1 := by
  have hkept : l.rate = (new max_ scale since).rate ∧ l.Kept p since := by
    refine exec_invariant (I := fun l => l.rate = (new max_ scale since).rate ∧ l.Kept p since)
      (fun l op l' h hop hs => ⟨(step_rate hs).trans h.1, h.2.step hpos ?_ hs⟩)
      ⟨rfl, kept_new max_ scale p since⟩ ((Meets.trivial _ _ _).and_mem hsees) hrun
    cases op with
    | wait i ended alive' held =>
      intro hrate
      rw [h.1] at hrate ⊢
      rw [hp]
      exact period_anti hrate (rate_antitone _ hop.2)
    | tick | wake | cancel => trivial
  have h := hkept.2
  refine ⟨h.apart, h.once, h.used, fun e he => (h.early e he).2, fun a w hw => ?_, ?_⟩
  · exact Apart.length_le (h.apart.filter _) hpos hw fun t ht => by
      simpa using (List.mem_filter.1 ht).2
  · have hsub : l.used.length ≤ (l.slots.filter fun t => t ≤ l.now).length := by
      refine (List.subperm_of_subset h.once fun t ht => ?_).length_le
      refine List.mem_filter.2 ⟨h.used t ht, ?_⟩
      obtain ⟨e, he, hslot⟩ := List.mem_filterMap.1 ht
      simpa using ((h.early e he).2 t hslot).trans (h.early e he).1
    refine (Nat.cast_le.2 hsub).trans ?_
    refine Apart.length_le (h.apart.filter _) hpos (sub_nonneg.2 h.now) (a := since) fun t ht => ?_
    obtain ⟨hmem, hle⟩ := List.mem_filter.1 ht
    exact ⟨h.since t hmem, by simpa using hle⟩

/-- Three callers at once, of which one gives up: it keeps its slot. -/
def pulse : List WaitOp :=
  [.wait 0 false 1 0, .wait 1 false 1 5, .wait 2 false 1 0, .cancel 1, .tick 40000000, .wake 2]

theorem joins_spaced_pulse : ∃ l, exec step (new 50 0 0) pulse = some l ∧
    Apart 20000000 l.slots ∧ l.slots = [40000000, 20000000, 0] ∧ l.used = [40000000, 0] := by
  have hrun : (exec step (new 50 0 0) pulse).map (fun l => (l.slots, l.used)) =
      some ([40000000, 20000000, 0], [40000000, 0]) := by decide +kernel
  obtain ⟨l, hl, heq⟩ := Option.map_eq_some_iff.1 hrun
  exact ⟨l, hl, (joins_spaced 50 0 0 1 20000000 pulse l (by decide +kernel) (by decide)
    (by simp [pulse, Sees]) hl).1, congrArg Prod.fst heq, congrArg Prod.snd heq⟩

end RateLimiter

end VcsClient.Loadgen
