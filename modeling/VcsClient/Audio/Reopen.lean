import Mathlib.Data.List.Chain
import VcsClient.Lib.Machine
import VcsClient.Audio.Streams

/-!
# The pace of reopening

Which opens the poll loops of `internal/audio/manager.go` attempt, for each direction:
when, at which device, after which backoff, and how it ended. The run is that of the
whole manager, `Start`, `Stop`, settings and abandoned loops included; the attempts
are written down beside it and known to no code.
-/

namespace VcsClient.Audio

open VcsClient.Lib

/-- An open that a poll loop attempts. `time` is the clock as its turn of the loop read
it, `backoff` the one in force; `opened` is how the open ended, once written back. -/
structure Attempt where
  gen : ℕ
  time : ℕ
  id : String
  cfg : String
  backoff : ℕ
  opened : Option Bool

/-- The manager, and the attempts of each direction, the newest first. -/
structure Reopens where
  manager : Manager
  attempts : Dir → List Attempt

/-- `Appears a b`: there was no device to open at `a`, and there is one at `b`. -/
def Attempt.Appears (a b : Attempt) : Prop := a.id = "" ∧ b.id ≠ ""

/-- The next attempt of a loop comes with the doubled backoff, and when it is over;
a device that appeared is not waited for. -/
def Attempt.Awaits (a b : Attempt) : Prop :=
  b.backoff = nextBackoff a.backoff ∧ (a.time + b.backoff ≤ b.time ∨ a.Appears b)

namespace Manager

/-- The attempt that `maybeReopen` makes. -/
def attempt (m : Manager) (t : PollTick) (gen : ℕ) (d : Dir) : Attempt where
  gen := gen
  time := t.now
  id := resolveDevice (t.cfg d) (t.devs d)
  cfg := t.cfg d
  backoff := (m.sides d).backoff
  opened := none

/-- The attempts of direction `d` after a loop goes on from `pc`. -/
def attempted (m : Manager) (gen : ℕ) (d : Dir) (as : List Attempt) : PollPc → List Attempt
  | .reopen t d' => if d' = d ∧ m.Ready t gen d then m.attempt t gen d :: as else as
  | .opened _ d' _ r =>
    if d' = d ∧ m.epoch = gen then
      as.modifyHead fun a => { a with opened := some r.toOption.isSome }
    else as
  | _ => as

end Manager

namespace Reopens

def new (cfg : DeviceConfig) : Reopens := ⟨.new cfg, fun _ => []⟩

def next (p : Reopens) : ManagerOp → Dir → List Attempt
  | .pollRun gen _, d =>
    match p.manager.polls.lookup gen with
    | some q => p.manager.attempted gen d (p.attempts d) q.pc
    | none => p.attempts d
  | _, d => p.attempts d

def step (p : Reopens) (op : ManagerOp) : Option Reopens :=
  (p.manager.step op).map fun m => ⟨m, p.next op⟩

/-- How the attempts of direction `d` are paced. -/
structure Spaced (p : Reopens) (d : Dir) : Prop where
  /-- As long as a generation fails to open what one setting asks for, its backoffs
  only grow, up to the maximum, and each is waited for. -/
  failing : ∀ gen cfg as, as <:+: (p.attempts d).reverse →
    (∀ a ∈ as, a.gen = gen ∧ a.cfg = cfg) → (∀ a ∈ as.dropLast, a.opened = some false) →
    (as.map (·.backoff)).Pairwise (· ≤ ·) ∧ (∀ a ∈ as, a.backoff ≤ reopenBackoffMax) ∧
      as.IsChain Attempt.Awaits
  /-- A device that appeared is tried on the spot. -/
  prompt : ∀ q t, p.manager.polls.lookup p.manager.epoch = some q → q.pc = .reopen t d →
    (p.manager.sides d).stream = none → (p.manager.sides d).targetID = "" →
    resolveDevice (t.cfg d) (t.devs d) ≠ "" → p.manager.Ready t p.manager.epoch d
  /-- A successful open resets the backoff. -/
  reset : ((p.manager.sides d).stream.isSome → (p.manager.sides d).backoff = 0) ∧
    ∀ a b, [a, b] <:+: (p.attempts d).reverse → a.gen = b.gen → a.opened = some true →
      b.backoff = 0

end Reopens

/-! ## The backoffs -/

theorem nextBackoff_le (cur : ℕ) : nextBackoff cur ≤ reopenBackoffMax := by
  unfold nextBackoff
  split
  · decide
  · split
    · exact le_refl _
    · omega

theorem le_nextBackoff {cur : ℕ} (h : cur ≤ reopenBackoffMax) : cur ≤ nextBackoff cur := by
  unfold nextBackoff
  split
  · omega
  · split
    · exact h
    · omega

/-! ## Where a loop stands towards one direction -/

/-- The turn of the loop, from its closing section until it comes to direction `d`. -/
def PollPc.due (d : Dir) : PollPc → Option PollTick
  | .stopping t _ => some t
  | .reopen t d' => if d' = .input ∨ d = .output then some t else none
  | .opening t d' _ | .opened t d' _ _ | .late t d' _ =>
    if d' = .input ∧ d = .output then some t else none
  | _ => none

/-- The open under way in direction `d`. -/
def PollPc.trying (d : Dir) : PollPc → Option (PollTick × String)
  | .opening t d' id | .opened t d' id _ => if d' = d then some (t, id) else none
  | _ => none

/-- What a step of the loop of generation `m.epoch` does to direction `d`: the side, the
place of the loop and the attempts after it. -/
inductive Manager.Turns (m : Manager) (d : Dir) (as : List Attempt) (pc : PollPc) :
    Side → PollPc → List Attempt → Prop where
  | elsewhere {pc'} (hdue : pc'.due d = pc.due d) (htrying : pc'.trying d = pc.trying d) :
      m.Turns d as pc (m.sides d) pc' as
  | close {t pc'} (hdue : pc.due d = none) (htrying : pc.trying d = none)
      (hdue' : pc'.due d = some t) (htrying' : pc'.trying d = none) :
      m.Turns d as pc (m.closeSide t d) pc' as
  | skip {t pc'} (hpc : pc = .reopen t d) (hready : ¬ m.Ready t m.epoch d)
      (hdue' : pc'.due d = none) (htrying' : pc'.trying d = none) :
      m.Turns d as pc (m.sides d) pc' as
  | attempt {t pc'} (hpc : pc = .reopen t d) (hready : m.Ready t m.epoch d)
      (hdue' : pc'.due d = none)
      (htrying' : pc'.trying d = some (t, resolveDevice (t.cfg d) (t.devs d))) :
      m.Turns d as pc
        { m.sides d with
          targetID := resolveDevice (t.cfg d) (t.devs d)
          attemptCfg := t.cfg d }
        pc' (m.attempt t m.epoch d :: as)
  | writeBack {t id pc'} (r : Opened) (hdue : pc.due d = none)
      (htrying : pc.trying d = some (t, id)) (hdue' : pc'.due d = none)
      (htrying' : pc'.trying d = none) :
      m.Turns d as pc (m.reopenedSide t m.epoch d id r) pc'
        (as.modifyHead fun a => { a with opened := some r.toOption.isSome })

namespace Manager

variable {m m' : Manager} {gen : ℕ} {q : Poll} {pc : PollPc} {ans : Answer} {d : Dir}
  {as : List Attempt}

/-- Where the loop of the current generation stands. -/
def place (m : Manager) : Option PollPc := (m.polls.lookup m.epoch).map (·.pc)

theorem place_setPoll (h : gen = m.epoch) (pc : PollPc) :
    (m.setPoll gen q pc).place = some pc := by
  subst h
  show ((assign m.polls m.epoch _).lookup m.epoch).map _ = _
  rw [lookup_assign, if_pos rfl]
  rfl

@[simp] theorem sides_setPoll (m : Manager) (gen : ℕ) (q : Poll) (pc : PollPc) :
    (m.setPoll gen q pc).sides = m.sides := rfl

@[simp] theorem sides_setSide (m : Manager) (d : Dir) (s : Side) : (m.setSide d s).sides d = s :=
  Function.update_self ..

theorem sides_setSide_ne {d' : Dir} (h : d' ≠ d) (s : Side) :
    (m.setSide d' s).sides d = m.sides d :=
  Function.update_of_ne h.symm ..

theorem due_afterSide (t : PollTick) (d d' : Dir) :
    (afterSide t d').due d = if d' = .input ∧ d = .output then some t else none := by
  cases d' <;> cases d <;> rfl

theorem trying_afterSide (t : PollTick) (d d' : Dir) : (afterSide t d').trying d = none := by
  cases d' <;> rfl

theorem due_reopen_other {t : PollTick} {d d' : Dir} (h : d' ≠ d) :
    (PollPc.reopen t d').due d = if d' = .input ∧ d = .output then some t else none := by
  cases d' <;> cases d <;> first | rfl | exact absurd rfl h

theorem not_input_and_output (h : d = .input ∧ d = .output) : False := by
  cases h.1.symm.trans h.2

/-- The section of `maybeReopen` before the open. -/
theorem reopen_turns {t : PollTick} {d' : Dir}
    (hs : m.pollRun m.epoch q (.reopen t d') .none = some m') :
    ∃ pc', m'.epoch = m.epoch ∧ m'.place = some pc' ∧
      m.Turns d as (.reopen t d') (m'.sides d) pc' (m.attempted m.epoch d as (.reopen t d')) := by
  simp only [pollRun] at hs
  by_cases hd : d' = d
  · subst hd
    split at hs
    · next hready =>
      cases hs
      refine ⟨_, rfl, place_setPoll (m := m.setSide d' _) rfl _, ?_⟩
      rw [sides_setPoll, sides_setSide, attempted, if_pos ⟨rfl, hready⟩]
      exact .attempt rfl hready (if_neg not_input_and_output) (if_pos rfl)
    · next hready =>
      cases hs
      refine ⟨_, rfl, place_setPoll rfl _, ?_⟩
      rw [attempted, if_neg fun h => hready h.2]
      refine .skip rfl hready ?_ (trying_afterSide t d' d')
      rw [due_afterSide]
      exact if_neg not_input_and_output
  · rw [attempted, if_neg fun h => hd h.1]
    split at hs
    · cases hs
      refine ⟨_, rfl, place_setPoll (m := m.setSide d' _) rfl _, ?_⟩
      rw [sides_setPoll, sides_setSide_ne hd]
      exact .elsewhere (due_reopen_other hd).symm (if_neg hd)
    · cases hs
      exact ⟨_, rfl, place_setPoll rfl _, .elsewhere
        ((due_afterSide t d d').trans (due_reopen_other hd).symm) (trying_afterSide t d d')⟩

/-- The section of `maybeReopen` after the open. -/
theorem opened_turns {t : PollTick} {d' : Dir} {id : String} {r : Opened}
    (hs : m.pollRun m.epoch q (.opened t d' id r) .none = some m') :
    ∃ pc', m'.epoch = m.epoch ∧ m'.place = some pc' ∧
      m.Turns d as (.opened t d' id r) (m'.sides d) pc'
        (m.attempted m.epoch d as (.opened t d' id r)) := by
  simp only [pollRun] at hs
  rw [if_neg (not_not.2 rfl)] at hs
  cases hs
  refine ⟨_, rfl, place_setPoll (m := m.setSide d' _) rfl _, ?_⟩
  by_cases hd : d' = d
  · subst hd
    rw [sides_setPoll, sides_setSide, attempted, if_pos ⟨rfl, rfl⟩]
    refine .writeBack r (if_neg not_input_and_output) (if_pos rfl) ?_ (trying_afterSide t d' d')
    rw [due_afterSide]
    exact if_neg not_input_and_output
  · rw [sides_setPoll, sides_setSide_ne hd, attempted, if_neg fun h => hd h.1]
    exact .elsewhere (due_afterSide t d d') ((trying_afterSide t d d').trans (if_neg hd).symm)

/-- The step of the current loop, as direction `d` sees it. -/
theorem pollRun_turns (hgen : gen = m.epoch) (hs : m.pollRun gen q pc ans = some m') :
    ∃ pc', m'.epoch = m.epoch ∧ m'.place = some pc' ∧
      m.Turns d as pc (m'.sides d) pc' (m.attempted gen d as pc) := by
  cases pc with
  | idle =>
    cases ans with
    | none =>
      cases hs
      exact ⟨_, rfl, place_setPoll hgen _, .elsewhere rfl rfl⟩
    | devices devs | opened err | time now => cases hs
  | enumerating =>
    cases ans with
    | devices devs =>
      cases devs with
      | none =>
        cases hs
        exact ⟨_, rfl, place_setPoll hgen _, .elsewhere rfl rfl⟩
      | some devs =>
        cases hs
        exact ⟨_, rfl, place_setPoll hgen _, .elsewhere rfl rfl⟩
    | none | opened err | time now => cases hs
  | enumerated devs =>
    cases ans with
    | none =>
      cases hs
      rw [if_neg (not_not.2 hgen.symm)]
      exact ⟨_, rfl, place_setPoll hgen _, .elsewhere rfl rfl⟩
    | devices devs | opened err | time now => cases hs
  | current devs =>
    cases ans with
    | time now =>
      cases hs
      exact ⟨_, rfl, place_setPoll hgen _, .elsewhere rfl rfl⟩
    | none | devices devs | opened err => cases hs
  | closing t =>
    cases ans with
    | none =>
      simp only [pollRun] at hs
      rw [if_neg (not_not.2 hgen.symm)] at hs
      cases hs
      exact ⟨_, rfl, place_setPoll (m := m) hgen _, .close rfl rfl rfl rfl⟩
    | devices devs | opened err | time now => cases hs
  | stopping t streams =>
    cases ans with
    | none =>
      cases streams with
      | nil =>
        cases hs
        exact ⟨_, rfl, place_setPoll hgen _, .elsewhere rfl rfl⟩
      | cons o streams =>
        cases hs
        exact ⟨_, rfl, place_setPoll (m := m) hgen _, .elsewhere rfl rfl⟩
    | devices devs | opened err | time now =>
      cases streams with
      | nil => cases hs
      | cons o streams => cases hs
  | reopen t d' =>
    cases ans with
    | none =>
      subst hgen
      exact reopen_turns hs
    | devices devs | opened err | time now => cases hs
  | opening t d' id =>
    cases ans with
    | opened err =>
      cases hs
      exact ⟨_, rfl, place_setPoll (m := m) hgen _, .elsewhere rfl rfl⟩
    | none | devices devs | time now => cases hs
  | opened t d' id r =>
    cases ans with
    | none =>
      subst hgen
      exact opened_turns hs
    | devices devs | opened err | time now => cases hs
  | late t d' n =>
    cases ans with
    | none =>
      cases hs
      exact ⟨_, rfl, place_setPoll (m := m) hgen _,
        .elsewhere (due_afterSide t d d') (trying_afterSide t d d')⟩
    | devices devs | opened err | time now => cases hs

end Manager

theorem Manager.closeSide_cases (m : Manager) (t : PollTick) (d : Dir) :
    (∃ o, (m.sides d).stream = some o ∧ m.closeSide t d =
      { m.sides d with stream := none, backoff := 0, retryAt := 0 }) ∨
    ((m.sides d).stream.isSome ∧ resolveDevice (t.cfg d) (t.devs d) = (m.sides d).id ∧
      m.closeSide t d = m.sides d) ∨
    ((m.sides d).stream = none ∧ t.cfg d ≠ (m.sides d).attemptCfg ∧
      m.closeSide t d = { m.sides d with backoff := 0, retryAt := 0 }) ∨
    ((m.sides d).stream = none ∧ (m.sides d).targetID = "" ∧
      resolveDevice (t.cfg d) (t.devs d) ≠ "" ∧
      m.closeSide t d = { m.sides d with retryAt := 0 }) ∨
    ((m.sides d).stream = none ∧
      ¬ ((m.sides d).targetID = "" ∧ resolveDevice (t.cfg d) (t.devs d) ≠ "") ∧
      m.closeSide t d = m.sides d) := by
  unfold closeSide superseded
  obtain hstream | ⟨o, hstream⟩ : (m.sides d).stream = none ∨ ∃ o, (m.sides d).stream = some o :=
    Option.eq_none_or_eq_some _
  · simp only [hstream, Option.isSome_none, Bool.false_eq_true, if_false]
    by_cases hcfg : t.cfg d ≠ (m.sides d).attemptCfg
    · exact .inr (.inr (.inl ⟨trivial, hcfg, if_pos hcfg⟩))
    · rw [if_neg hcfg]
      by_cases hnew : (m.sides d).targetID = "" ∧ resolveDevice (t.cfg d) (t.devs d) ≠ ""
      · exact .inr (.inr (.inr (.inl ⟨trivial, hnew.1, hnew.2, if_pos hnew⟩)))
      · exact .inr (.inr (.inr (.inr ⟨trivial, hnew, if_neg hnew⟩)))
  · simp only [hstream, Option.isSome_some, if_true, Bool.true_and, bne_iff_ne]
    by_cases hid : resolveDevice (t.cfg d) (t.devs d) = (m.sides d).id
    · exact .inr (.inl ⟨trivial, hid, if_neg (not_not.2 hid)⟩)
    · exact .inl ⟨o, rfl, if_pos hid⟩

/-! ## What the last attempt left behind -/

/-- What two attempts in a row of one direction have to do with each other. -/
def Attempt.Follows (a b : Attempt) : Prop :=
  a.gen = b.gen → (a.opened = some true → b.backoff = 0) ∧
    (a.opened = some false → a.cfg = b.cfg → a.Awaits b)

/-- The side `s` after the failed attempt `a`, with the loop at `pc`: its backoff runs,
unless a turn under way has dropped the wait for a device that appeared, or dropped
it all for another setting. -/
structure Attempt.Failed (a : Attempt) (d : Dir) (s : Side) (pc : Option PollPc) : Prop where
  closed : s.stream = none
  cfg : s.attemptCfg = a.cfg
  id : s.targetID = a.id
  waits : (s.backoff = nextBackoff a.backoff ∧ (s.retryAt = a.time + s.backoff ∨
      ∃ t, pc.bind (·.due d) = some t ∧ a.id = "" ∧ resolveDevice (t.cfg d) (t.devs d) ≠ "")) ∨
    ∃ t, pc.bind (·.due d) = some t ∧ t.cfg d ≠ a.cfg ∧ s.retryAt = 0

/-- What holds of direction `d` in generation `epoch`: of its side, the place of the
loop and the attempts. -/
structure Kept (epoch : ℕ) (d : Dir) (s : Side) (pc : Option PollPc) (as : List Attempt) :
    Prop where
  chain : as.IsChain fun b a => a.Follows b
  bounded : ∀ a ∈ as, a.backoff ≤ reopenBackoffMax
  gens : ∀ a ∈ as.head?, a.gen ≤ epoch
  backoff : s.backoff ≤ reopenBackoffMax
  open_ : s.stream.isSome → s.backoff = 0 ∧ s.id = s.targetID
  due : ∀ t, pc.bind (·.due d) = some t → s.targetID = "" →
    resolveDevice (t.cfg d) (t.devs d) ≠ "" → s.retryAt = 0
  trying : ∀ t id, pc.bind (·.trying d) = some (t, id) → s.stream = none ∧ s.targetID = id ∧
    s.attemptCfg = t.cfg d ∧ as.head? = some ⟨epoch, t.now, id, t.cfg d, s.backoff, none⟩
  last : ∀ a ∈ as.head?, a.gen = epoch →
    (a.opened = none → (pc.bind (·.trying d)).isSome) ∧
    (a.opened = some true → s.backoff = 0) ∧ (a.opened = some false → a.Failed d s pc)

namespace Kept

variable {m : Manager} {epoch epoch' : ℕ} {d : Dir} {s s' : Side} {o o' : Option PollPc}
  {pc pc' : PollPc} {as as' : List Attempt}

/-- A new generation, or none: nothing has been tried in it. -/
theorem renew (h : Kept epoch d s o as) (hepoch : ∀ a ∈ as.head?, a.gen < epoch')
    (hpc : ∀ q ∈ o', q.due d = none ∧ q.trying d = none) (hbackoff : s'.backoff ≤ reopenBackoffMax)
    (hopen : s'.stream.isSome → s'.backoff = 0 ∧ s'.id = s'.targetID) : Kept epoch' d s' o' as where
  chain := h.chain
  bounded := h.bounded
  gens a ha := (hepoch a ha).le
  backoff := hbackoff
  open_ := hopen
  due t ht := by
    obtain ⟨q, hq, hdue⟩ := Option.bind_eq_some_iff.1 ht
    rw [(hpc q hq).1] at hdue
    cases hdue
  trying t id ht := by
    obtain ⟨q, hq, htrying⟩ := Option.bind_eq_some_iff.1 ht
    rw [(hpc q hq).2] at htrying
    cases htrying
  last a ha hgen := absurd hgen (hepoch a ha).ne

theorem take (h : Kept epoch d s o as) : Kept epoch d { s with stream := none } o as :=
  { h with
    open_ := fun hs => by cases hs
    trying := fun t id ht => ⟨rfl, (h.trying t id ht).2⟩
    last := fun a ha hgen =>
      ⟨(h.last a ha hgen).1, (h.last a ha hgen).2.1, fun hf =>
        { (h.last a ha hgen).2.2 hf with closed := rfl }⟩ }

theorem elsewhere (h : Kept epoch d s o as) (hdue : o'.bind (·.due d) = o.bind (·.due d))
    (htrying : o'.bind (·.trying d) = o.bind (·.trying d)) : Kept epoch d s o' as where
  chain := h.chain
  bounded := h.bounded
  gens := h.gens
  backoff := h.backoff
  open_ := h.open_
  due t ht := h.due t (hdue ▸ ht)
  trying t id ht := h.trying t id (htrying ▸ ht)
  last a ha hgen := by
    obtain ⟨hnone, htrue, hfalse⟩ := h.last a ha hgen
    refine ⟨fun ho => ?_, htrue, fun ho => ?_⟩
    · rw [htrying]
      exact hnone ho
    · have hf := hfalse ho
      refine { hf with waits := ?_ }
      rw [hdue]
      exact hf.waits

/-- While no turn is at the direction, a failed attempt is waited for. -/
theorem waiting (h : Kept epoch d s (some pc) as) (hdue : pc.due d = none) {a : Attempt}
    (ha : a ∈ as.head?) (hgen : a.gen = epoch) (hf : a.opened = some false) :
    s.stream = none ∧ s.attemptCfg = a.cfg ∧ s.targetID = a.id ∧
      s.backoff = nextBackoff a.backoff ∧ s.retryAt = a.time + s.backoff := by
  obtain ⟨hclosed, hcfg, hid, hwaits⟩ := (h.last a ha hgen).2.2 hf
  have hnot : ∀ t, ¬ (some pc).bind (·.due d) = some t := fun t ht => by
    rw [show (some pc).bind (·.due d) = pc.due d from rfl, hdue] at ht
    cases ht
  obtain ⟨hb, hr | ⟨t, ht, -⟩⟩ | ⟨t, ht, -⟩ := hwaits
  · exact ⟨hclosed, hcfg, hid, hb, hr⟩
  · exact absurd ht (hnot t)
  · exact absurd ht (hnot t)

theorem close {t : PollTick} (h : Kept epoch d (m.sides d) (some pc) as) (hdue : pc.due d = none)
    (htrying : pc.trying d = none) (hdue' : pc'.due d = some t) (htrying' : pc'.trying d = none) :
    Kept epoch d (m.closeSide t d) (some pc') as := by
  have hwaiting := fun a => h.waiting hdue (a := a)
  have hnone : ∀ a ∈ as.head?, a.gen = epoch → a.opened ≠ none := fun a ha hgen ho => by
    have := (h.last a ha hgen).1 ho
    rw [show (some pc).bind (·.trying d) = pc.trying d from rfl, htrying] at this
    cases this
  have htrying'' : ∀ t id, (some pc').bind (·.trying d) ≠ some (t, id) := fun t id ht => by
    rw [show (some pc').bind (·.trying d) = pc'.trying d from rfl, htrying'] at ht
    cases ht
  have hdue'' : ∀ t', (some pc').bind (·.due d) = some t' → t' = t := fun t' ht => by
    rw [show (some pc').bind (·.due d) = pc'.due d from rfl, hdue'] at ht
    exact (Option.some.inj ht).symm
  obtain ⟨o, hs, he⟩ | ⟨hs, hid, he⟩ | ⟨hs, hcfg, he⟩ | ⟨hs, htarget, hnew, he⟩ | ⟨hs, hold, he⟩ :=
    m.closeSide_cases t d
  · rw [he]
    exact
      { h with
        backoff := Nat.zero_le _
        open_ := fun h => by cases h
        due := fun _ _ _ _ => rfl
        trying := fun t id ht => absurd ht (htrying'' t id)
        last := fun a ha hgen =>
          ⟨fun ho => absurd ho (hnone a ha hgen), fun _ => rfl, fun hf => by
            have := (hwaiting a ha hgen hf).1
            rw [hs] at this
            cases this⟩ }
  · rw [he]
    exact
      { h with
        due := fun t' ht htarget hnew => by
          rw [hdue'' t' ht, hid, (h.open_ hs).2] at hnew
          exact absurd htarget hnew
        trying := fun t id ht => absurd ht (htrying'' t id)
        last := fun a ha hgen =>
          ⟨fun ho => absurd ho (hnone a ha hgen), (h.last a ha hgen).2.1, fun hf => by
            have := (hwaiting a ha hgen hf).1
            rw [this] at hs
            cases hs⟩ }
  · rw [he]
    exact
      { h with
        backoff := Nat.zero_le _
        open_ := fun h => by
          rw [hs] at h
          cases h
        due := fun _ _ _ _ => rfl
        trying := fun t id ht => absurd ht (htrying'' t id)
        last := fun a ha hgen =>
          ⟨fun ho => absurd ho (hnone a ha hgen), fun _ => rfl, fun hf => by
            obtain ⟨-, hcfg', hid, -⟩ := hwaiting a ha hgen hf
            exact ⟨hs, hcfg', hid, .inr ⟨t, hdue', hcfg' ▸ hcfg, rfl⟩⟩⟩ }
  · rw [he]
    exact
      { h with
        due := fun _ _ _ _ => rfl
        trying := fun t id ht => absurd ht (htrying'' t id)
        last := fun a ha hgen =>
          ⟨fun ho => absurd ho (hnone a ha hgen), (h.last a ha hgen).2.1, fun hf => by
            obtain ⟨-, hcfg', hid, hb, -⟩ := hwaiting a ha hgen hf
            exact ⟨hs, hcfg', hid, .inl ⟨hb, .inr ⟨t, hdue', hid ▸ htarget, hnew⟩⟩⟩⟩ }
  · rw [he]
    exact
      { h with
        due := fun t' ht htarget hnew => absurd ⟨htarget, hdue'' t' ht ▸ hnew⟩ hold
        trying := fun t id ht => absurd ht (htrying'' t id)
        last := fun a ha hgen =>
          ⟨fun ho => absurd ho (hnone a ha hgen), (h.last a ha hgen).2.1, fun hf => by
            obtain ⟨-, hcfg', hid, hb, hr⟩ := hwaiting a ha hgen hf
            exact ⟨hs, hcfg', hid, .inl ⟨hb, .inl hr⟩⟩⟩ }

theorem due_reopen (t : PollTick) (d : Dir) : (PollPc.reopen t d).due d = some t :=
  if_pos (by cases d <;> simp)

/-- A turn that comes to the direction has an attempt behind it that ended. -/
theorem ended {t : PollTick} (h : Kept epoch d s (some (.reopen t d)) as) {a : Attempt}
    (ha : a ∈ as.head?) (hgen : a.gen = epoch) : a.opened ≠ none := fun ho => by
  have := (h.last a ha hgen).1 ho
  cases this

/-- The turn comes to a closed side whose last attempt failed: either it has to wait, or
the backoff is over, or nothing keeps it from trying. -/
theorem comes {t : PollTick} (h : Kept epoch d s (some (.reopen t d)) as) {a : Attempt}
    (ha : a ∈ as.head?) (hgen : a.gen = epoch) (hf : a.opened = some false) :
    (s.backoff = nextBackoff a.backoff ∧ (s.retryAt = a.time + s.backoff ∨
      s.retryAt = 0 ∧ a.id = "" ∧ resolveDevice (t.cfg d) (t.devs d) ≠ "")) ∨
    (t.cfg d ≠ a.cfg ∧ s.retryAt = 0) := by
  obtain ⟨-, -, hid, hwaits⟩ := (h.last a ha hgen).2.2 hf
  have hdue : ∀ t', (some (PollPc.reopen t d)).bind (·.due d) = some t' → t' = t := fun t' ht =>
    (Option.some.inj ((due_reopen t d).symm.trans ht)).symm
  obtain ⟨hb, hr | ⟨t', ht, hnone, hnew⟩⟩ | ⟨t', ht, hcfg, hr⟩ := hwaits
  · exact .inl ⟨hb, .inl hr⟩
  · have hr := h.due t' ht (hid.trans hnone) hnew
    rw [hdue t' ht] at hnew
    exact .inl ⟨hb, .inr ⟨hr, hnone, hnew⟩⟩
  · rw [hdue t' ht] at hcfg
    exact .inr ⟨hcfg, hr⟩

theorem skip {t : PollTick} (h : Kept m.epoch d (m.sides d) (some (.reopen t d)) as)
    (hready : ¬ m.Ready t m.epoch d) (hdue' : pc'.due d = none) (htrying' : pc'.trying d = none) :
    Kept m.epoch d (m.sides d) (some pc') as :=
  { h with
    due := fun t' ht => by
      rw [show (some pc').bind (·.due d) = pc'.due d from rfl, hdue'] at ht
      cases ht
    trying := fun t' id ht => by
      rw [show (some pc').bind (·.trying d) = pc'.trying d from rfl, htrying'] at ht
      cases ht
    last := fun a ha hgen =>
      ⟨fun ho => absurd ho (h.ended ha hgen), (h.last a ha hgen).2.1, fun hf => by
        obtain ⟨hclosed, hcfg, hid, -⟩ := (h.last a ha hgen).2.2 hf
        have hwait : (m.sides d).retryAt ≠ 0 := fun h0 =>
          hready ⟨hclosed, h0 ▸ Nat.zero_le _, rfl⟩
        obtain ⟨hb, hr | ⟨hr, -⟩⟩ | ⟨-, hr⟩ := h.comes ha hgen hf
        · exact ⟨hclosed, hcfg, hid, .inl ⟨hb, .inl hr⟩⟩
        · exact absurd hr hwait
        · exact absurd hr hwait⟩ }

theorem attempt {t : PollTick} (h : Kept m.epoch d (m.sides d) (some (.reopen t d)) as)
    (hready : m.Ready t m.epoch d) (hdue' : pc'.due d = none)
    (htrying' : pc'.trying d = some (t, resolveDevice (t.cfg d) (t.devs d))) :
    Kept m.epoch d
      { m.sides d with
        targetID := resolveDevice (t.cfg d) (t.devs d)
        attemptCfg := t.cfg d }
      (some pc') (m.attempt t m.epoch d :: as) where
  chain := by
    refine h.chain.cons fun a ha hgen => ⟨(h.last a ha hgen).2.1, fun hf hcfg => ?_⟩
    obtain ⟨hb, hr | ⟨-, hnone, hnew⟩⟩ | ⟨hcfg', -⟩ := h.comes ha hgen hf
    · exact ⟨hb, .inl (hr ▸ hready.2.1)⟩
    · exact ⟨hb, .inr ⟨hnone, hnew⟩⟩
    · exact absurd hcfg.symm hcfg'
  bounded := List.forall_mem_cons.2 ⟨h.backoff, h.bounded⟩
  gens a ha := by
    cases ha
    exact le_refl _
  backoff := h.backoff
  open_ hs := by
    rw [show Side.stream _ = _ from hready.1] at hs
    cases hs
  due t' ht := by
    rw [show (some pc').bind (·.due d) = pc'.due d from rfl, hdue'] at ht
    cases ht
  trying t' id ht := by
    rw [show (some pc').bind (·.trying d) = pc'.trying d from rfl, htrying'] at ht
    cases ht
    exact ⟨hready.1, rfl, rfl, rfl⟩
  last a ha _ := by
    cases ha
    refine ⟨fun _ => ?_, fun h => (by cases h), fun h => (by cases h)⟩
    show (pc'.trying d).isSome
    rw [htrying']
    rfl

theorem writeBack {t : PollTick} {id : String} (r : Opened)
    (h : Kept m.epoch d (m.sides d) (some pc) as) (htrying : pc.trying d = some (t, id))
    (hdue' : pc'.due d = none) (htrying' : pc'.trying d = none) :
    Kept m.epoch d (m.reopenedSide t m.epoch d id r) (some pc')
      (as.modifyHead fun a => { a with opened := some r.toOption.isSome }) := by
  obtain ⟨hclosed, hid, hcfg, hhead⟩ := h.trying t id htrying
  have hdue'' : ∀ t', (some pc').bind (·.due d) ≠ some t' := fun t' ht => by
    rw [show (some pc').bind (·.due d) = pc'.due d from rfl, hdue'] at ht
    cases ht
  have htrying'' : ∀ t id, (some pc').bind (·.trying d) ≠ some (t, id) := fun t id ht => by
    rw [show (some pc').bind (·.trying d) = pc'.trying d from rfl, htrying'] at ht
    cases ht
  obtain ⟨as, rfl⟩ : ∃ as', as = ⟨m.epoch, t.now, id, t.cfg d, (m.sides d).backoff, none⟩ :: as' := by
    cases as with
    | nil => cases hhead
    | cons a as => exact ⟨as, by rw [Option.some.inj hhead]⟩
  have hchain := List.isChain_cons.1 h.chain
  have hbounded := List.forall_mem_cons.1 h.bounded
  refine
    { chain := List.isChain_cons.2 hchain
      bounded := List.forall_mem_cons.2 hbounded
      gens := fun a ha => by
        cases ha
        exact le_refl _
      due := fun t' ht => absurd ht (hdue'' t')
      trying := fun t id ht => absurd ht (htrying'' t id)
      backoff := ?_
      open_ := ?_
      last := ?_ }
  · cases r with
    | ok n => exact Nat.zero_le _
    | error e => exact nextBackoff_le _
  · cases r with
    | ok n => exact fun _ => ⟨rfl, hid.symm⟩
    | error e =>
      intro hs
      change (m.sides d).stream.isSome = true at hs
      rw [hclosed] at hs
      cases hs
  · intro a ha _
    cases ha
    cases r with
    | ok n => exact ⟨fun h => (by cases h), fun _ => rfl, fun h => (by cases h)⟩
    | error e =>
      exact ⟨fun h => (by cases h), fun h => (by cases h), fun _ =>
        ⟨hclosed, hcfg, hid, .inl ⟨rfl, .inl rfl⟩⟩⟩

theorem turns (h : Kept m.epoch d (m.sides d) (some pc) as) (ht : m.Turns d as pc s' pc' as') :
    Kept m.epoch d s' (some pc') as' := by
  cases ht with
  | elsewhere hdue htrying => exact h.elsewhere hdue htrying
  | close hdue htrying hdue' htrying' => exact h.close hdue htrying hdue' htrying'
  | skip hpc hready hdue' htrying' =>
    subst hpc
    exact h.skip hready hdue' htrying'
  | attempt hpc hready hdue' htrying' =>
    subst hpc
    exact h.attempt hready hdue' htrying'
  | writeBack r hdue htrying hdue' htrying' => exact h.writeBack r htrying hdue' htrying'

end Kept

/-! ## The steps of the manager -/

namespace Manager

variable {m m' : Manager} {gen : ℕ} {q : Poll} {pc : PollPc} {ans : Answer} {d : Dir}
  {as : List Attempt}

theorem place_setPoll_ne (h : gen ≠ m.epoch) (pc : PollPc) : (m.setPoll gen q pc).place = m.place := by
  show ((assign m.polls gen _).lookup m.epoch).map _ = _
  rw [lookup_assign, if_neg h.symm]
  rfl

theorem pollRun_stale (hgen : gen ≠ m.epoch) (hs : m.pollRun gen q pc ans = some m') :
    m'.epoch = m.epoch ∧ m'.sides = m.sides ∧ m'.place = m.place := by
  have hready : ∀ t d, ¬ m.Ready t gen d := fun t d h => hgen h.2.2.symm
  unfold pollRun at hs
  split at hs
  · cases hs; exact ⟨rfl, rfl, place_setPoll_ne hgen _⟩
  · cases hs; exact ⟨rfl, rfl, place_setPoll_ne hgen _⟩
  · cases hs; exact ⟨rfl, rfl, place_setPoll_ne hgen _⟩
  · cases hs; exact ⟨rfl, rfl, place_setPoll_ne hgen _⟩
  · cases hs; exact ⟨rfl, rfl, place_setPoll_ne hgen _⟩
  · rw [if_pos hgen.symm] at hs
    cases hs; exact ⟨rfl, rfl, place_setPoll_ne hgen _⟩
  · cases hs; exact ⟨rfl, rfl, place_setPoll_ne hgen _⟩
  · cases hs; exact ⟨rfl, rfl, place_setPoll_ne (m := m) hgen _⟩
  · rw [if_neg (hready _ _)] at hs
    cases hs; exact ⟨rfl, rfl, place_setPoll_ne hgen _⟩
  · cases hs; exact ⟨rfl, rfl, place_setPoll_ne (m := m) hgen _⟩
  · rw [if_pos hgen.symm] at hs
    split at hs
    · cases hs; exact ⟨rfl, rfl, place_setPoll_ne hgen _⟩
    · cases hs; exact ⟨rfl, rfl, place_setPoll_ne hgen _⟩
  · cases hs; exact ⟨rfl, rfl, place_setPoll_ne (m := m) hgen _⟩
  · cases hs

theorem attempted_stale (hgen : gen ≠ m.epoch) : m.attempted gen d as pc = as := by
  unfold attempted
  split
  · exact if_neg fun h => hgen h.2.2.2.symm
  · exact if_neg fun h => hgen h.2.symm
  · rfl

/-- `Start` on its way publishes a generation, or leaves everything as it is. -/
theorem startRun_cases {pc : StartPc} (hs : m.startRun pc ans = some m') :
    (∃ cfg devs capture playback, m' = m.publish cfg devs capture playback) ∨
      m'.epoch = m.epoch ∧ m'.sides = m.sides ∧ m'.polls = m.polls := by
  unfold startRun at hs
  split at hs
  · cases hs; exact .inr ⟨rfl, rfl, rfl⟩
  · cases hs; exact .inr ⟨rfl, rfl, rfl⟩
  · cases hs; exact .inr ⟨rfl, rfl, rfl⟩
  · cases hs; exact .inr ⟨rfl, rfl, rfl⟩
  · cases hs; exact .inl ⟨_, _, _, _, rfl⟩
  · cases hs; exact .inr ⟨rfl, rfl, rfl⟩
  · cases hs

theorem pollRun_polls (hs : m.pollRun gen q pc ans = some m') :
    ∃ q', m'.polls = assign m.polls gen (some q') := by
  unfold pollRun at hs
  split at hs
  · cases hs; exact ⟨_, rfl⟩
  · cases hs; exact ⟨_, rfl⟩
  · cases hs; exact ⟨_, rfl⟩
  · cases hs; exact ⟨_, rfl⟩
  · cases hs; exact ⟨_, rfl⟩
  · split at hs
    · cases hs; exact ⟨_, rfl⟩
    · cases hs; exact ⟨_, rfl⟩
  · cases hs; exact ⟨_, rfl⟩
  · cases hs; exact ⟨_, rfl⟩
  · dsimp only at hs
    split at hs
    · cases hs; exact ⟨_, rfl⟩
    · cases hs; exact ⟨_, rfl⟩
  · cases hs; exact ⟨_, rfl⟩
  · split at hs
    · split at hs
      · cases hs; exact ⟨_, rfl⟩
      · cases hs; exact ⟨_, rfl⟩
    · cases hs; exact ⟨_, rfl⟩
  · cases hs; exact ⟨_, rfl⟩
  · cases hs

theorem place_publish (m : Manager) (cfg : DeviceConfig) (devs : Devices)
    (capture playback : Opened) : (m.publish cfg devs capture playback).place = some .idle := by
  show ((m.polls.insert (m.epoch + 1) ⟨false, .idle⟩).lookup (m.epoch + 1)).map _ = _
  rw [AList.lookup_insert]
  rfl

end Manager

namespace Reopens

variable {p p' : Reopens} {op : ManagerOp}

structure Inv (p : Reopens) : Prop where
  kept : ∀ d, Kept p.manager.epoch d (p.manager.sides d) p.manager.place (p.attempts d)
  polls_le : ∀ gen q, p.manager.polls.lookup gen = some q → gen ≤ p.manager.epoch

theorem inv_new (cfg : DeviceConfig) : (new cfg).Inv where
  kept d :=
    { chain := .nil
      bounded := fun a ha => by cases ha
      gens := fun a ha => by cases ha
      backoff := Nat.zero_le _
      open_ := fun h => by cases h
      due := fun t ht => by cases ht
      trying := fun t id ht => by cases ht
      last := fun a ha => by cases ha }
  polls_le gen q h := by cases h

/-- What the invariant reads of the manager stays as it is. -/
theorem Inv.keep (h : p.Inv) {m' : Manager} (hepoch : m'.epoch = p.manager.epoch)
    (hsides : m'.sides = p.manager.sides) (hplace : m'.place = p.manager.place)
    (hpolls : ∀ gen q, m'.polls.lookup gen = some q → gen ≤ p.manager.epoch) :
    Inv ⟨m', p.attempts⟩ where
  kept d := by
    show Kept m'.epoch d (m'.sides d) m'.place (p.attempts d)
    rw [hepoch, hsides, hplace]
    exact h.kept d
  polls_le gen q hl := hepoch ▸ hpolls gen q hl

theorem Inv.startRun (h : p.Inv) {pc : StartPc} {a : Answer} {m' : Manager}
    (hs : p.manager.startRun pc a = some m') : Inv ⟨m', p.attempts⟩ := by
  obtain ⟨cfg, devs, capture, playback, rfl⟩ | ⟨hepoch, hsides, hpolls⟩ := Manager.startRun_cases hs
  · refine ⟨fun d => (h.kept d).renew (fun a ha => ?_) (fun q hq => ?_) (Nat.zero_le _)
      fun _ => ⟨rfl, rfl⟩, fun gen q hl => ?_⟩
    · exact Nat.lt_succ_of_le ((h.kept d).gens a ha)
    · rw [Manager.place_publish] at hq
      cases hq
      exact ⟨rfl, rfl⟩
    · obtain ⟨rfl, -⟩ | hl := lookup_insert_cases hl
      · exact le_refl _
      · exact (h.polls_le gen q hl).trans (Nat.le_succ _)
  · refine h.keep hepoch hsides ?_ fun gen q hl => h.polls_le gen q (hpolls ▸ hl)
    unfold Manager.place
    rw [hpolls, hepoch]

/-- A `Stop` ends the generation. -/
theorem Inv.beginStop (h : p.Inv) : Inv ⟨p.manager.beginStop, p.attempts⟩ := by
  refine ⟨fun d => (h.kept d).renew (fun a ha => ?_) (fun q hq => ?_) (h.kept d).backoff
    (h.kept d).open_, fun gen q hl => (h.polls_le gen q hl).trans (Nat.le_succ _)⟩
  · exact Nat.lt_succ_of_le ((h.kept d).gens a ha)
  · obtain ⟨q', hl, -⟩ := Option.map_eq_some_iff.1 hq
    exact absurd (h.polls_le _ q' hl) (Nat.not_succ_le_self _)

theorem Inv.stopRun (h : p.Inv) (call : ℕ) (c : StopPc) :
    Inv ⟨p.manager.stopRun call c, p.attempts⟩ := by
  cases c with
  | joinDSP gen =>
    refine h.keep rfl rfl ?_ fun g q hl => ?_
    · show ((mapValues _ p.manager.polls).lookup p.manager.epoch).map _ = _
      rw [lookup_mapValues, Option.map_map]
      unfold Manager.place
      congr 1
      funext q
      show (if p.manager.epoch = gen then { q with stop := true } else q).pc = q.pc
      split <;> rfl
    · change (mapValues _ p.manager.polls).lookup g = some q at hl
      rw [lookup_mapValues] at hl
      obtain ⟨q', hl, -⟩ := Option.map_eq_some_iff.1 hl
      exact h.polls_le g q' hl
  | joinPoll gen => exact ⟨fun d => (h.kept d).take, h.polls_le⟩
  | stopping gen streams =>
    cases streams with
    | nil => exact h.keep rfl rfl rfl h.polls_le
    | cons o streams => exact h.keep rfl rfl rfl h.polls_le

theorem Inv.pollRun (h : p.Inv) {gen : ℕ} {q : Poll} {a : Answer} {m' : Manager}
    (hl : p.manager.polls.lookup gen = some q)
    (hs : p.manager.pollRun gen q q.pc a = some m') :
    Inv ⟨m', fun d => p.manager.attempted gen d (p.attempts d) q.pc⟩ := by
  obtain ⟨q', hpolls⟩ := Manager.pollRun_polls hs
  have hkeys : ∀ g q'', m'.polls.lookup g = some q'' → g ≤ p.manager.epoch := by
    rw [hpolls]
    exact forall_assign h.polls_le fun _ _ => h.polls_le gen q hl
  by_cases hgen : gen = p.manager.epoch
  · have hplace : p.manager.place = some q.pc := by
      unfold Manager.place
      rw [← hgen, hl]
      rfl
    have hturns : ∀ d, ∃ pc', m'.epoch = p.manager.epoch ∧ m'.place = some pc' ∧
        p.manager.Turns d (p.attempts d) q.pc (m'.sides d) pc'
          (p.manager.attempted gen d (p.attempts d) q.pc) :=
      fun d => Manager.pollRun_turns hgen hs
    have hepoch : m'.epoch = p.manager.epoch := (hturns .input).choose_spec.1
    refine ⟨fun d => ?_, fun g q'' hl' => hepoch ▸ hkeys g q'' hl'⟩
    obtain ⟨pc', -, hplace', hturn⟩ := hturns d
    show Kept m'.epoch d (m'.sides d) m'.place _
    rw [hepoch, hplace']
    exact Kept.turns (hplace ▸ h.kept d) hturn
  · -- a loop of an older generation touches no side
    obtain ⟨hepoch, hsides, hplace⟩ := Manager.pollRun_stale hgen hs
    have hattempts : (fun d => p.manager.attempted gen d (p.attempts d) q.pc) = p.attempts :=
      funext fun d => Manager.attempted_stale hgen
    rw [hattempts]
    exact h.keep hepoch hsides hplace hkeys

theorem Inv.pollExit (h : p.Inv) {gen : ℕ} {stop : Bool}
    (hl : p.manager.polls.lookup gen = some ⟨stop, .idle⟩) :
    Inv ⟨{ p.manager with polls := assign p.manager.polls gen none }, p.attempts⟩ := by
  have hkeys := forall_assign (o := none) (k := gen) h.polls_le fun _ hq => by cases hq
  by_cases hgen : gen = p.manager.epoch
  · have hplace : p.manager.place = some .idle := by
      unfold Manager.place
      rw [← hgen, hl]
      rfl
    have hplace' :
        Manager.place { p.manager with polls := assign p.manager.polls gen none } = none := by
      show ((assign p.manager.polls gen none).lookup p.manager.epoch).map _ = none
      rw [lookup_assign, if_pos hgen.symm]
      rfl
    exact ⟨fun d => (h.kept d).elsewhere (by rw [hplace, hplace']; rfl)
      (by rw [hplace, hplace']; rfl), hkeys⟩
  · refine h.keep rfl rfl ?_ hkeys
    show ((assign p.manager.polls gen none).lookup p.manager.epoch).map _ = _
    rw [lookup_assign, if_neg (Ne.symm hgen)]
    rfl

theorem Inv.step (h : p.Inv) (hs : p.step op = some p') : p'.Inv := by
  obtain ⟨m', hm, rfl⟩ := Option.map_eq_some_iff.1 hs
  cases op with
  | setConfig cfg =>
    cases hm
    exact h.keep rfl rfl rfl h.polls_le
  | start =>
    simp only [Manager.step] at hm
    split at hm
    · cases hm
      exact h.keep rfl rfl rfl h.polls_le
    · split at hm
      · cases hm
        exact h.keep rfl rfl rfl h.polls_le
      · cases hm
        exact h.keep rfl rfl rfl h.polls_le
  | startRun a =>
    obtain ⟨pc, -, hrun⟩ := Option.bind_eq_some_iff.1 hm
    exact h.startRun hrun
  | stop =>
    cases hm
    split
    · exact h.beginStop
    · exact h.keep rfl rfl rfl h.polls_le
  | stopRun call =>
    obtain ⟨c, -, rfl⟩ := Option.map_eq_some_iff.1 hm
    exact h.stopRun call c
  | pollRun gen a =>
    obtain ⟨q, hl, hrun⟩ := Option.bind_eq_some_iff.1 hm
    have hnext : p.next (.pollRun gen a) =
        fun d => p.manager.attempted gen d (p.attempts d) q.pc := by
      funext d
      show (match p.manager.polls.lookup gen with | some q => _ | none => _) = _
      rw [hl]
    rw [hnext]
    exact h.pollRun hl hrun
  | pollExit gen =>
    simp only [Manager.step] at hm
    split at hm
    · next hl =>
      cases hm
      exact h.pollExit hl
    · cases hm

theorem isChain_of_within {β : Type*} {R : β → β → Prop} {l l' : List β} (h : l.IsChain R)
    (hw : l' <:+: l) : l'.IsChain R := by
  obtain ⟨before, after, rfl⟩ := hw
  exact h.left_of_append.right_of_append

theorem Inv.spaced (h : p.Inv) (d : Dir) : p.Spaced d where
  failing gen cfg as has hsame hfailed := by
    have hkept := h.kept d
    have hbounded : ∀ a ∈ as, a.backoff ≤ reopenBackoffMax := fun a ha =>
      hkept.bounded a (List.mem_reverse.1 (has.subset ha))
    have hfollows := isChain_of_within (List.isChain_reverse.2 hkept.chain) has
    have hawaits : as.IsChain Attempt.Awaits := by
      refine List.isChain_iff_forall_rel_of_append_cons_cons.2 fun a b l₁ l₂ hsplit => ?_
      have ha : a ∈ as := by simp [hsplit]
      have hb : b ∈ as := by simp [hsplit]
      have hlast : a ∈ as.dropLast := by
        rw [hsplit, List.dropLast_append_of_ne_nil (List.cons_ne_nil _ _)]
        simp
      have hab := List.isChain_iff_forall_rel_of_append_cons_cons.1 hfollows hsplit
      exact (hab ((hsame a ha).1.trans (hsame b hb).1.symm)).2 (hfailed a hlast)
        ((hsame a ha).2.trans (hsame b hb).2.symm)
    refine ⟨?_, hbounded, hawaits⟩
    have hgrows : as.IsChain fun a b => a.backoff ≤ b.backoff := by
      refine hawaits.imp_of_mem_imp fun a b ha _ (hab : a.Awaits b) => ?_
      rw [hab.1]
      exact le_nextBackoff (hbounded a ha)
    exact List.isChain_iff_pairwise.1 ((List.isChain_map _).2 hgrows)
  prompt q t hl hpc hclosed hnone hnew := by
    have hdue := (h.kept d).due t
    refine ⟨hclosed, ?_, rfl⟩
    rw [hdue _ hnone hnew]
    · exact Nat.zero_le _
    · unfold Manager.place
      rw [hl, Option.map_some, hpc]
      exact Kept.due_reopen t d
  reset := by
    refine ⟨fun hopen => ((h.kept d).open_ hopen).1, fun a b hab hgen hopened => ?_⟩
    have hchain := isChain_of_within (List.isChain_reverse.2 (h.kept d).chain) hab
    exact (List.isChain_pair.1 hchain hgen).1 hopened

end Reopens

/-- **Reopening.** Along every run of the manager. -/
theorem reopens_spaced (cfg : DeviceConfig) (ops : List ManagerOp) (p : Reopens)
    (hrun : exec Reopens.step (.new cfg) ops = some p) (d : Dir) : p.Spaced d :=
  (exec_invariant (I := Reopens.Inv) (fun _ _ _ h _ hs => h.step hs) (Reopens.inv_new cfg)
    (Meets.trivial _ _ _) hrun).spaced d

/-- A microphone that is plugged in while the loop waits, and does not open. -/
theorem reopens_spaced_plugged : ∃ p,
    exec Reopens.step (.new fun _ => "")
      [.start, .startRun (.devices none), .startRun .none, .startRun (.opened (some "none")),
        .startRun (.opened none), .startRun .none, .startRun .none,
        .pollRun 1 .none, .pollRun 1 (.devices (some fun _ => [])), .pollRun 1 .none,
        .pollRun 1 (.time 5), .pollRun 1 .none, .pollRun 1 .none, .pollRun 1 .none,
        .pollRun 1 (.opened (some "none")), .pollRun 1 .none, .pollRun 1 .none,
        .pollRun 1 .none, .pollRun 1 (.devices (some fun _ => [⟨"usb", true⟩])),
        .pollRun 1 .none, .pollRun 1 (.time 9), .pollRun 1 .none, .pollRun 1 .none,
        .pollRun 1 .none, .pollRun 1 .none, .pollRun 1 (.opened (some "busy")), .pollRun 1 .none,
        .pollRun 1 .none, .pollRun 1 (.opened none), .pollRun 1 .none,
        .pollRun 1 .none, .pollRun 1 (.devices (some fun _ => [⟨"usb", true⟩])),
        .pollRun 1 .none, .pollRun 1 (.time 2000000009), .pollRun 1 .none, .pollRun 1 .none,
        .pollRun 1 .none] = some p ∧
      (p.attempts .input).map (fun a => (a.time, a.backoff)) =
        [(2000000009, 2000000000), (9, 1000000000), (5, 0)] ∧ p.Spaced .input := by
  have hrun : (exec Reopens.step (.new fun _ => "")
      [.start, .startRun (.devices none), .startRun .none, .startRun (.opened (some "none")),
        .startRun (.opened none), .startRun .none, .startRun .none,
        .pollRun 1 .none, .pollRun 1 (.devices (some fun _ => [])), .pollRun 1 .none,
        .pollRun 1 (.time 5), .pollRun 1 .none, .pollRun 1 .none, .pollRun 1 .none,
        .pollRun 1 (.opened (some "none")), .pollRun 1 .none, .pollRun 1 .none,
        .pollRun 1 .none, .pollRun 1 (.devices (some fun _ => [⟨"usb", true⟩])),
        .pollRun 1 .none, .pollRun 1 (.time 9), .pollRun 1 .none, .pollRun 1 .none,
        .pollRun 1 .none, .pollRun 1 .none, .pollRun 1 (.opened (some "busy")), .pollRun 1 .none,
        .pollRun 1 .none, .pollRun 1 (.opened none), .pollRun 1 .none,
        .pollRun 1 .none, .pollRun 1 (.devices (some fun _ => [⟨"usb", true⟩])),
        .pollRun 1 .none, .pollRun 1 (.time 2000000009), .pollRun 1 .none, .pollRun 1 .none,
        .pollRun 1 .none]).map (fun p => (p.attempts .input).map fun a => (a.time, a.backoff)) =
      some [(2000000009, 2000000000), (9, 1000000000), (5, 0)] := by decide +kernel
  obtain ⟨p, hp, hattempts⟩ := Option.map_eq_some_iff.1 hrun
  exact ⟨p, hp, hattempts, reopens_spaced _ _ p hp .input⟩

end VcsClient.Audio
