import VcsClient.Notify.Runs

/-!
# Calls that take no time

A windowed call, or the callback of a timer, that runs to its end before anything else
happens: one goroutine, from its first section to its last callback. What it leaves is
what its sections make of the notifier one after the other (`call_plain`, `call_open`,
`call_closed`, `fire_idle`, `fire_held`).
-/

namespace VcsClient.Notify

open VcsClient.Lib

variable {δ : Type*} [DecidableEq δ]

/-- The windowed call of a change. -/
def Change.windowed (key : Key) (window : ℤ) : Change → Call
  | .raise item => .raiseWindowed key item window
  | .resolve => .resolveWindowed key window

/-- The coalescer is the same in both. -/
structure Notifier.SameWindows (n n' : Notifier δ) : Prop where
  pending : n'.pending = n.pending
  windows : n'.windows = n.windows
  timers : n'.timers = n.timers
  cancelGen : n'.cancelGen = n.cancelGen

theorem commit_windows (sha256 : List UInt8 → δ) (now : ℤ) (n : Notifier δ) (key : Key)
    (c : Change) : n.SameWindows (Op.commit sha256 now n (c.op key)).n := by
  cases c with
  | raise item =>
    simp only [Change.op, Op.commit, Notifier.raiseReport]
    split
    · exact ⟨rfl, rfl, rfl, rfl⟩
    · split
      · exact ⟨rfl, rfl, rfl, rfl⟩
      · next r hr =>
        unfold Notifier.raiseLocked at hr
        dsimp only at hr
        split at hr
        · cases hr
        · split at hr
          · cases hr; exact ⟨rfl, rfl, rfl, rfl⟩
          · split at hr
            · cases hr; exact ⟨rfl, rfl, rfl, rfl⟩
            · split at hr
              · cases hr
              · cases hr; exact ⟨rfl, rfl, rfl, rfl⟩
  | resolve =>
    simp only [Change.op, Op.commit, Notifier.resolveReport]
    split
    · exact ⟨rfl, rfl, rfl, rfl⟩
    · split
      · exact ⟨rfl, rfl, rfl, rfl⟩
      · split
        · exact ⟨rfl, rfl, rfl, rfl⟩
        · exact ⟨rfl, rfl, rfl, rfl⟩

namespace System

variable (sha256 : List UInt8 → δ)

/-- The goroutine goes on, for so many steps or to its end. -/
def finish : ℕ → System δ → System δ
  | 0, s => s
  | k + 1, s =>
    match s.step sha256 (.run 0) with
    | none => s
    | some s' => finish k s'

/-- A call or a callback that runs to its end: five steps at most follow the first. -/
def instantly (s : System δ) (l : Label) : Option (System δ) :=
  (s.step sha256 l).map (finish sha256 5)

/-- Nobody publishes, and the goroutine is done. -/
def Idle (s : System δ) : Prop := s.emit = none ∧ s.threads.lookup 0 = none

/-- What a call or a callback that runs to its end leaves. -/
structure Leaves (s : System δ) (calls : ℕ) (n : Notifier δ) (records : List Record)
    (t : System δ) : Prop where
  idle : t.Idle
  n : t.n = n
  history : t.history = s.history ++ records
  now : t.now = s.now
  calls : t.calls = calls

variable {sha256} {s t : System δ}

theorem finish_done (h : s.threads.lookup 0 = none) (k : ℕ) : finish sha256 k s = s := by
  cases k with
  | zero => rfl
  | succ k => simp only [finish, step, h]

/-- So many steps of the goroutine lead from one state to the other. -/
def Goes (sha256 : List UInt8 → δ) (j : ℕ) (s t : System δ) : Prop :=
  ∀ m, finish sha256 (j + m) s = finish sha256 m t

theorem Goes.one {pc : Pc} (h : s.threads.lookup 0 = some pc)
    (ha : s.advance sha256 0 pc = some t) : Goes sha256 1 s t := by
  intro m
  rw [Nat.add_comm]
  simp only [finish, step, h, ha]

theorem Goes.trans {u : System δ} {j k : ℕ} (h : Goes sha256 j s t) (h' : Goes sha256 k t u) :
    Goes sha256 (j + k) s u := by
  intro m
  rw [Nat.add_assoc, h, h']

theorem Goes.finish {j k : ℕ} (h : Goes sha256 j s t) (hj : j ≤ k)
    (ht : t.threads.lookup 0 = none) : finish sha256 k s = t := by
  obtain ⟨m, rfl⟩ := Nat.exists_eq_add_of_le hj
  rw [h, finish_done ht]

/-- What the section of an entry point leaves, its callbacks made. -/
structure Committed (s : System δ) (op : Op) (stamp : ℕ) (after : After) (r : Outcome δ)
    (t : System δ) : Prop where
  threads : t.threads.lookup 0 = after.resume r.snap.isSome
  emit : t.emit = none
  n : t.n = r.n
  history : t.history = s.history ++ [⟨op, stamp, s.n.items, r.n.items⟩]
  now : t.now = s.now
  calls : t.calls = s.calls

omit [DecidableEq δ] in
theorem Committed.goto {op : Op} {stamp : ℕ} {after : After} {r : Outcome δ} {u : System δ}
    {rung : Bool} (hrung : rung = r.snap.isSome) (hemit : u.emit = none) (hn : u.n = r.n)
    (hhistory : u.history = s.history ++ [⟨op, stamp, s.n.items, r.n.items⟩])
    (hnow : u.now = s.now) (hcalls : u.calls = s.calls) :
    Committed s op stamp after r (u.goto 0 (after.resume rung)) where
  threads := by rw [goto_lookup, if_pos rfl, hrung]
  emit := (goto_emit _ _ _).trans hemit
  n := (goto_n _ _ _).trans hn
  history := (goto_history _ _ _).trans hhistory
  now := (goto_now _ _ _).trans hnow
  calls := (goto_calls _ _ _).trans hcalls

/-- **The section of an entry point, its callbacks included.** -/
theorem goes_commit {op : Op} {stamp : ℕ} {after : After} (hemit : s.emit = none)
    (h : s.threads.lookup 0 = some (.commit op stamp after)) :
    ∃ j t, j ≤ 3 ∧ Goes sha256 j s t ∧
      Committed s op stamp after (Op.commit sha256 s.now s.n op) t := by
  generalize hr : Op.commit sha256 s.now s.n op = r
  have hstep : s.advance sha256 0 (.commit op stamp after) = s.commit sha256 0 op stamp after := rfl
  unfold commit at hstep
  rw [if_pos hemit, hr] at hstep
  cases hsnap : r.snap with
  | none =>
    simp only [hsnap] at hstep
    exact ⟨1, _, by omega, .one h hstep, .goto (by rw [hsnap]; rfl) hemit rfl rfl rfl rfl⟩
  | some snap =>
    simp only [hsnap] at hstep
    have hone := Goes.one h hstep
    generalize hs₁ : goto { s.recorded op stamp after r with emit := some 0 } 0
      (some (.publish snap r.sound after)) = s₁ at hone
    have hpc : s₁.threads.lookup 0 = some (.publish snap r.sound after) := by
      rw [← hs₁, goto_lookup, if_pos rfl]
    have hn : s₁.n = r.n := by
      rw [← hs₁, goto_n]
      rfl
    have hhistory : s₁.history = s.history ++ [⟨op, stamp, s.n.items, r.n.items⟩] := by
      rw [← hs₁, goto_history]
      rfl
    have hnow : s₁.now = s.now := by
      rw [← hs₁, goto_now]
      rfl
    have hcalls : s₁.calls = s.calls := by
      rw [← hs₁, goto_calls]
      rfl
    cases hsound : r.sound with
    | none =>
      rw [hsound] at hpc
      exact ⟨2, _, by omega, hone.trans (.one hpc rfl),
        .goto (by rw [hsnap]; rfl) rfl hn hhistory hnow hcalls⟩
    | some it =>
      rw [hsound] at hpc
      have htwo := hone.trans (.one (t := goto { s₁ with published := s₁.published ++ [snap] } 0
        (some (.sound it after))) hpc rfl)
      refine ⟨3, _, le_rfl, htwo.trans (@Goes.one _ _ sha256 _ _ (.sound it after) ?_ rfl), ?_⟩
      · rw [goto_lookup, if_pos rfl]
      · exact .goto (by rw [hsnap]; rfl) rfl ((goto_n _ _ _).trans hn)
          ((goto_history _ _ _).trans hhistory) ((goto_now _ _ _).trans hnow)
          ((goto_calls _ _ _).trans hcalls)

/-! ## A windowed call -/

section Call

variable {key : Key} {window : ℤ} {c : Change}

theorem step_call (hidle : s.Idle) (hkey : key ≠ "") :
    s.step sha256 (.call 0 (c.windowed key window)) = some ({ s with calls := s.calls + 1 }.goto 0
      (some (.coalesce key window c (s.calls + 1)))) := by
  have hnew : (0 : ℕ) ∉ s.threads := AList.lookup_eq_none.1 hidle.2
  cases c with
  | raise item => simp only [step, Change.windowed, if_neg hnew, Call.entry, if_neg hkey]
  | resolve => simp only [step, Change.windowed, if_neg hnew, Call.entry, if_neg hkey]

/-- A call whose first section is `coalesce`'s, and then goes on. -/
theorem instantly_call (hidle : s.Idle) (hkey : key ≠ "") {u : System δ} {j : ℕ} (hj : j ≤ 4)
    (hgo : Goes sha256 j (coalesce ({ s with calls := s.calls + 1 }.goto 0
      (some (.coalesce key window c (s.calls + 1)))) 0 key window c (s.calls + 1)) u)
    (hu : u.threads.lookup 0 = none) :
    instantly sha256 s (.call 0 (c.windowed key window)) = some u := by
  rw [instantly, step_call hidle hkey, Option.map_some]
  congr 1
  refine ((@Goes.one _ _ sha256 _ _ (.coalesce key window c (s.calls + 1)) ?_ rfl).trans
    hgo).finish (by omega) hu
  rw [goto_lookup, if_pos rfl]

/-- **A call without a window** is the entry point. -/
theorem call_plain (hidle : s.Idle) (hkey : key ≠ "") (hwindow : window ≤ 0) :
    ∃ t, instantly sha256 s (.call 0 (c.windowed key window)) = some t ∧
      Leaves s (s.calls + 1) (Op.commit sha256 s.now s.n (c.op key)).n
        [⟨c.op key, s.calls + 1, s.n.items, (Op.commit sha256 s.now s.n (c.op key)).n.items⟩] t := by
  generalize hs₀ : goto { s with calls := s.calls + 1 } 0
    (some (.coalesce key window c (s.calls + 1))) = s₀
  have hcoalesce : s₀.coalesce 0 key window c (s.calls + 1) =
      s₀.goto 0 (some (.commit (c.op key) (s.calls + 1) .ret)) := by
    rw [coalesce, if_pos hwindow]
  generalize hs₁ : s₀.goto 0 (some (.commit (c.op key) (s.calls + 1) .ret)) = s₁ at hcoalesce
  have hn : s₁.n = s.n := by rw [← hs₁, ← hs₀, goto_n, goto_n]
  have hnow : s₁.now = s.now := by rw [← hs₁, ← hs₀, goto_now, goto_now]
  have hemit : s₁.emit = none := by
    rw [← hs₁, ← hs₀, goto_emit, goto_emit]
    exact hidle.1
  have hhistory : s₁.history = s.history := by rw [← hs₁, ← hs₀, goto_history, goto_history]
  have hcalls : s₁.calls = s.calls + 1 := by rw [← hs₁, ← hs₀, goto_calls, goto_calls]
  have hpc : s₁.threads.lookup 0 = some (.commit (c.op key) (s.calls + 1) .ret) := by
    rw [← hs₁, goto_lookup, if_pos rfl]
  clear hs₁
  obtain ⟨j, u, hj, hgo, hu⟩ := @goes_commit _ _ sha256 _ _ _ _ hemit hpc
  have hhistory' := hu.history
  rw [hn, hnow, hhistory] at hhistory'
  have hn' := hu.n
  rw [hn, hnow] at hn'
  refine ⟨u, instantly_call (j := j) hidle hkey (by omega) ?_ hu.threads, ⟨hu.emit, hu.threads⟩,
    hn', hhistory', hu.now.trans hnow, hu.calls.trans hcalls⟩
  rw [hs₀, hcoalesce]
  exact hgo

/-- **A call while a window is open** replaces what it holds. -/
theorem call_open {p : PendingChange} (hidle : s.Idle) (hkey : key ≠ "") (hwindow : 0 < window)
    (hp : s.n.pending.lookup key = some p) :
    ∃ t, instantly sha256 s (.call 0 (c.windowed key window)) = some t ∧
      Leaves s (s.calls + 1) { s.n with pending := s.n.pending.insert key { p with
        apply := some c
        stamp := s.calls + 1 } } [] t := by
  generalize hs₀ : goto { s with calls := s.calls + 1 } 0
    (some (.coalesce key window c (s.calls + 1))) = s₀
  have hn : s₀.n = s.n := by rw [← hs₀, goto_n]
  generalize hs₁ : ({ s.n with pending := s.n.pending.insert key { p with
    apply := some c
    stamp := s.calls + 1 } } : Notifier δ) = n'
  obtain ⟨u, hu⟩ : ∃ u, u = goto { s₀ with
      n := n'
      asked := Function.update s₀.asked key (some c) } 0 none := ⟨_, rfl⟩
  have hcoalesce : s₀.coalesce 0 key window c (s.calls + 1) = u := by
    have hpos : ¬window ≤ 0 := by omega
    rw [← hn] at hp
    rw [hu, coalesce, if_neg hpos, hp, ← hs₁, hn]
  have hthreads : u.threads.lookup 0 = none := by rw [hu, goto_lookup, if_pos rfl]
  refine ⟨u, instantly_call (j := 0) hidle hkey (by omega) ?_ hthreads, ⟨?_, hthreads⟩, ?_, ?_, ?_,
    ?_⟩
  · rw [hs₀, hcoalesce]
    exact fun m => by rw [Nat.zero_add]
  · rw [hu, goto_emit, ← hs₀]
    exact (goto_emit _ _ _).trans hidle.1
  · rw [hu, goto_n]
  · rw [hu, goto_history, ← hs₀, List.append_nil]
    exact goto_history _ _ _
  · rw [hu, goto_now, ← hs₀]
    exact goto_now _ _ _
  · rw [hu, goto_calls, ← hs₀]
    exact goto_calls _ _ _

/-- **The leading edge**: the call commits, and opens a window when that published. -/
theorem call_closed (hidle : s.Idle) (hkey : key ≠ "") (hwindow : 0 < window)
    (hp : s.n.pending.lookup key = none) {r : Outcome δ}
    (hr : Op.commit sha256 s.now s.n (c.op key) = r) :
    ∃ t, instantly sha256 s (.call 0 (c.windowed key window)) = some t ∧
      Leaves s (s.calls + 1) (if r.snap.isSome then r.n.armLocked s.now key window else r.n)
        [⟨c.op key, s.calls + 1, s.n.items, r.n.items⟩] t := by
  generalize hs₀ : goto { s with calls := s.calls + 1 } 0
    (some (.coalesce key window c (s.calls + 1))) = s₀
  generalize hafter : After.lead key window s.n.cancelGen = after
  have hcoalesce : s₀.coalesce 0 key window c (s.calls + 1) =
      s₀.goto 0 (some (.commit (c.op key) (s.calls + 1) after)) := by
    have hpos : ¬window ≤ 0 := by omega
    rw [coalesce, if_neg hpos, ← hs₀, goto_n, hp, ← hafter]
  obtain ⟨j, u, hj, hgo, hu⟩ := @goes_commit _ _ sha256
    (s₀.goto 0 (some (.commit (c.op key) (s.calls + 1) after))) (c.op key) (s.calls + 1) after
    (by rw [← hs₀]; simpa using hidle.1) (by rw [goto_lookup, if_pos rfl])
  have hthreads := hu.threads
  have hn := hu.n
  have hhistory := hu.history
  have hnow := hu.now
  have hcalls := hu.calls
  simp only [← hs₀, goto_n, goto_now, goto_history, hr] at hthreads hn hhistory hnow
  simp only [← hs₀, goto_calls] at hcalls
  rw [← hafter, After.resume] at hthreads
  have hcall := fun {t j} (hj : j ≤ 4) hgo ht => @instantly_call _ _ sha256
    s key window c hidle hkey t j hj (by rw [hs₀, hcoalesce]; exact hgo) ht
  by_cases hsome : r.snap.isSome = true
  · rw [if_pos hsome] at hthreads ⊢
    -- nobody else was there to open the key's window, or to cancel one
    have hsame := commit_windows sha256 s.now s.n key c
    rw [hr, ← hn] at hsame
    have hnone : key ∉ u.n.pending := AList.lookup_eq_none.1 (hsame.pending ▸ hp)
    have harm : u.arm 0 key window s.n.cancelGen =
        { u with n := u.n.armLocked u.now key window }.goto 0 none := by
      rw [arm, if_neg hnone, if_neg (not_not.2 hsame.cancelGen)]
    have hdone : (u.arm 0 key window s.n.cancelGen).threads.lookup 0 = none := by
      rw [harm, goto_lookup, if_pos rfl]
    refine ⟨_, hcall (j := j + 1) (by omega) (hgo.trans (.one hthreads rfl)) hdone,
      ⟨?_, hdone⟩, ?_, ?_, ?_, ?_⟩
    · rw [harm, goto_emit]
      exact hu.emit
    · rw [harm, goto_n, hn, hnow]
    · rw [harm, goto_history]
      exact hhistory
    · rw [harm, goto_now]
      exact hnow
    · rw [harm, goto_calls]
      exact hcalls
  · rw [if_neg hsome] at hthreads ⊢
    exact ⟨u, hcall (j := j) (by omega) hgo hthreads, ⟨hu.emit, hthreads⟩, hn, hhistory, hnow, hcalls⟩

end Call

/-! ## A window closes -/

section Fire

variable {key : Key} {id : ℕ} {due : ℤ} {p : PendingChange}

theorem step_fire (hidle : s.Idle) (htimer : s.n.timers.lookup id = some ⟨key, p.gen, due⟩)
    (hdue : due ≤ s.now) :
    s.step sha256 (.fire id 0) =
      some ({ s with n := { s.n with timers := s.n.timers.erase id } }.goto 0
        (some (.close key p.gen))) := by
  have hnew : (0 : ℕ) ∉ s.threads := AList.lookup_eq_none.1 hidle.2
  have hgo : ¬((0 : ℕ) ∈ s.threads ∨ s.now < due) := by
    rintro (h | h)
    · exact hnew h
    · omega
  simp only [step, htimer, if_neg hgo]

/-- A callback whose first section is `windowClosed`'s, and then goes on. -/
theorem instantly_fire (hidle : s.Idle) (htimer : s.n.timers.lookup id = some ⟨key, p.gen, due⟩)
    (hdue : due ≤ s.now) {u : System δ} {j : ℕ} (hj : j ≤ 4)
    (hgo : Goes sha256 j (close ({ s with n := { s.n with timers := s.n.timers.erase id } }.goto 0
      (some (.close key p.gen))) 0 key p.gen) u) (hu : u.threads.lookup 0 = none) :
    instantly sha256 s (.fire id 0) = some u := by
  rw [instantly, step_fire hidle htimer hdue, Option.map_some]
  congr 1
  refine ((@Goes.one _ _ sha256 _ _ (.close key p.gen) ?_ rfl).trans hgo).finish (by omega) hu
  rw [goto_lookup, if_pos rfl]

/-- **A window that holds nothing** is retired. -/
theorem fire_idle (hidle : s.Idle) (htimer : s.n.timers.lookup id = some ⟨key, p.gen, due⟩)
    (hdue : due ≤ s.now) (hp : s.n.pending.lookup key = some p) (happly : p.apply = none) :
    ∃ t, instantly sha256 s (.fire id 0) = some t ∧
      Leaves s s.calls
        (Notifier.retirePendingLocked { s.n with timers := s.n.timers.erase id } key) [] t := by
  generalize hs₀ : goto { s with n := { s.n with timers := s.n.timers.erase id } } 0
    (some (.close key p.gen)) = s₀
  have hn : s₀.n = { s.n with timers := s.n.timers.erase id } := by rw [← hs₀, goto_n]
  have hclose : s₀.close 0 key p.gen =
      { s₀ with n := s₀.n.retirePendingLocked key }.goto 0 none := by
    have hp' : s₀.n.pending.lookup key = some p := by rw [hn]; exact hp
    simp only [close, hp', happly, ne_eq, not_true, if_false]
  obtain ⟨u, hu⟩ : ∃ u, u = s₀.close 0 key p.gen := ⟨_, rfl⟩
  have hthreads : u.threads.lookup 0 = none := by rw [hu, hclose, goto_lookup, if_pos rfl]
  refine ⟨u, instantly_fire (j := 0) hidle htimer hdue (by omega) ?_ hthreads, ⟨?_, hthreads⟩, ?_,
    ?_, ?_, ?_⟩
  · rw [hs₀, ← hu]
    exact fun m => by rw [Nat.zero_add]
  · rw [hu, hclose, goto_emit, ← hs₀]
    exact (goto_emit _ _ _).trans hidle.1
  · rw [hu, hclose, goto_n, hn]
  · rw [hu, hclose, goto_history, ← hs₀, List.append_nil]
    exact goto_history _ _ _
  · rw [hu, hclose, goto_now, ← hs₀]
    exact goto_now _ _ _
  · rw [hu, hclose, goto_calls, ← hs₀]
    exact goto_calls _ _ _


/-- **A window that holds a change** applies it, and stays open when that published. -/
theorem fire_held {c : Change} (hidle : s.Idle)
    (htimer : s.n.timers.lookup id = some ⟨key, p.gen, due⟩) (hdue : due ≤ s.now)
    (hp : s.n.pending.lookup key = some p) (happly : p.apply = some c) {window : ℤ}
    (hwindow : s.n.windows.lookup key = some window) (hpos : 0 < window) {n : Notifier δ}
    (hn : n = { s.n with
      timers := s.n.timers.erase id
      pending := s.n.pending.insert key { p with apply := none } }) {r : Outcome δ}
    (hr : Op.commit sha256 s.now n (c.op key) = r) :
    ∃ t, instantly sha256 s (.fire id 0) = some t ∧
      Leaves s s.calls (if r.snap.isSome then r.n.armLocked s.now key window
        else r.n.retirePendingLocked key) [⟨c.op key, p.stamp, s.n.items, r.n.items⟩] t := by
  generalize hs₀ : goto { s with n := { s.n with timers := s.n.timers.erase id } } 0
    (some (.close key p.gen)) = s₀
  generalize hafter : After.trail key p.gen window = after
  have hclose : s₀.close 0 key p.gen =
      { s₀ with n := n }.goto 0 (some (.commit (c.op key) p.stamp after)) := by
    have hp' : s₀.n.pending.lookup key = some p := by rw [← hs₀, goto_n]; exact hp
    have hw' : s₀.n.windows.lookup key = some window := by rw [← hs₀, goto_n]; exact hwindow
    simp only [close, hp', happly, hw', Option.getD_some, ne_eq, not_true, if_false, hafter]
    rw [← hs₀, goto_n, hn]
  obtain ⟨j, u, hj, hgo, hu⟩ := @goes_commit _ _ sha256
    ({ s₀ with n := n }.goto 0 (some (.commit (c.op key) p.stamp after))) (c.op key) p.stamp after
    (by rw [← hs₀]; simpa using hidle.1) (by rw [goto_lookup, if_pos rfl])
  have hthreads := hu.threads
  have hn' := hu.n
  have hhistory := hu.history
  have hnow := hu.now
  have hcalls := hu.calls
  have hitems : n.items = s.n.items := by rw [hn]
  simp only [← hs₀, goto_n, goto_now, goto_history, hitems, hr] at hthreads hn' hhistory hnow
  simp only [← hs₀, goto_calls] at hcalls
  rw [← hafter, After.resume] at hthreads
  -- the window is still the one that closed
  have hsame := commit_windows sha256 s.now n key c
  rw [hr, ← hn'] at hsame
  have hpending : u.n.pending.lookup key = some { p with apply := none } := by
    rw [hsame.pending, hn]
    exact AList.lookup_insert _
  have hrearm : u.rearm 0 key p.gen window r.snap.isSome = goto { u with
      n := if r.snap.isSome then u.n.armLocked u.now key window
        else u.n.retirePendingLocked key } 0 none := by
    have hw : ¬window ≤ 0 := by omega
    cases hsome : r.snap.isSome with
    | true => simp [rearm, hpending, hw]
    | false => simp [rearm, hpending, hw]
  have hdone : (u.rearm 0 key p.gen window r.snap.isSome).threads.lookup 0 = none := by
    rw [hrearm, goto_lookup, if_pos rfl]
  refine ⟨_, instantly_fire (j := j + 1) hidle htimer hdue (by omega) ?_ hdone, ⟨?_, hdone⟩, ?_, ?_,
    ?_, ?_⟩
  · rw [hs₀, hclose]
    exact hgo.trans (.one hthreads rfl)
  · rw [hrearm, goto_emit]
    exact hu.emit
  · rw [hrearm, goto_n, hn', hnow]
  · rw [hrearm, goto_history]
    exact hhistory
  · rw [hrearm, goto_now]
    exact hnow
  · rw [hrearm, goto_calls]
    exact hcalls

end Fire

end System

end VcsClient.Notify
