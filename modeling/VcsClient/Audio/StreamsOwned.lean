import VcsClient.Audio.Streams
import VcsClient.Lib.Machine

/-!
# Every audio stream has an owner

A stream is counted where it is: among the stopped, in a field, in the hands of a
call. As long as no stream enters a field while a `Stop` is between its sections,
the fields hold streams of the current generation, or of the one being stopped.
-/

namespace VcsClient.Audio

open VcsClient.Lib

/-- The side whose open a poll loop is about to write back. -/
def PollPc.opens : PollPc → Option Dir
  | .opening _ d _ | .opened _ d _ _ => some d
  | _ => none

namespace Manager

variable {m : Manager}

/-! ## Counting -/

/-- The stream in a side's field. -/
def inField (sd : Side) (s : ℕ) : ℕ := (sd.stream.map (·.stream)).toList.count s

theorem filterMap_dirs (f : Dir → Option Owned) :
    [.input, .output].filterMap f = (f .input).toList ++ (f .output).toList := by
  rw [List.filterMap_cons, List.filterMap_cons, List.filterMap_nil]
  cases f .input <;> cases f .output <;> rfl

theorem timesOwned_eq (m : Manager) (s : ℕ) :
    m.timesOwned s = inField (m.sides .input) s + inField (m.sides .output) s := by
  unfold timesOwned inField owned
  rw [filterMap_dirs, List.map_append, List.count_append]
  cases (m.sides .input).stream <;> cases (m.sides .output).stream <;> rfl

theorem mem_owned {o : Owned} : o ∈ m.owned ↔ ∃ d, (m.sides d).stream = some o := by
  unfold owned
  rw [List.mem_filterMap]
  constructor
  · rintro ⟨d, -, h⟩
    exact ⟨d, h⟩
  · rintro ⟨d, h⟩
    exact ⟨d, by cases d <;> simp, h⟩

theorem stopped_cons (m : Manager) (e : Stopped) (s : ℕ) :
    ((e :: m.stopped).map (·.owned.stream)).count s =
      m.timesStopped s + if e.owned.stream == s then 1 else 0 := List.count_cons

/-! ## What a step does -/

inductive Moves (m : Manager) : ManagerOp → Manager → Prop
  | keep {op cfg} : m.Moves op { m with cfg := cfg }
  | begin {op} (hrun : m.running = false) (hstarting : m.starting = false) :
      m.Moves op { m with starting := true, start := some .enumerating }
  | starting {op pc pc'} (hpc : m.start = some pc) (hpub : pc ≠ .published)
      (hpub' : pc' ≠ .published) (hhands : pc'.hands = pc.hands) :
      m.Moves op { m with start := some pc' }
  | startOpened {op pc pc' r n} (hpc : m.start = some pc) (hpub : pc ≠ .published)
      (hpub' : pc' ≠ .published) (hr : n = m.openedAfter r)
      (hok : ∀ k ∈ r.toOption, k = m.opened)
      (hhands : pc'.hands = pc.hands ++ r.toOption.toList) :
      m.Moves op { m with start := some pc', opened := n }
  | publish {a cfg devs capture playback}
      (hpc : m.start = some (.publish cfg devs capture playback)) :
      m.Moves (.startRun a) (m.publish cfg devs capture playback)
  | startDone {op} (hpc : m.start = some .published) :
      m.Moves op { m with start := none, starting := false }
  | stop {op} (hrun : m.running = true) : m.Moves op m.beginStop
  | poll {op gen p q sides} (hl : m.polls.lookup gen = some p) (hhands : q.pc.hands = p.pc.hands)
      (hopens : ∀ d, q.pc.opens = some d → p.pc.opens = some d ∨ (m.sides d).stream = none)
      (hsides : ∀ d, (sides d).stream = (m.sides d).stream) :
      m.Moves op { m with polls := assign m.polls gen (some q), sides := sides }
  | supersede {op gen p q sides} (hl : m.polls.lookup gen = some p) (hhands : p.pc.hands = [])
      (hopens : q.pc.opens = none) (hgen : m.epoch = gen)
      (hsub : ∀ d o, (sides d).stream = some o → (m.sides d).stream = some o)
      (hcount : ∀ s, inField (sides .input) s + inField (sides .output) s + q.pc.hands.count s =
        m.timesOwned s) :
      m.Moves op { m with polls := assign m.polls gen (some q), sides := sides }
  | pollStopped {op gen p q o} (hl : m.polls.lookup gen = some p)
      (hhands : p.pc.hands = o.stream :: q.pc.hands) (hopens : q.pc.opens = none) :
      m.Moves op { m with
        polls := assign m.polls gen (some q)
        stopped := ⟨o, none⟩ :: m.stopped }
  | pollOpened {op gen p q r n} (hl : m.polls.lookup gen = some p) (hhands : p.pc.hands = [])
      (hopens : q.pc.opens = p.pc.opens) (hr : n = m.openedAfter r)
      (hok : ∀ k ∈ r.toOption, k = m.opened) (hhands' : q.pc.hands = r.toOption.toList) :
      m.Moves op { m with polls := assign m.polls gen (some q), opened := n }
  | pollPublish {gen a p q t d id n side} (hl : m.polls.lookup gen = some p)
      (hpc : p.pc = .opened t d id (.ok n)) (hgen : m.epoch = gen)
      (hside : side.stream = some ⟨n, gen⟩) (hhands : q.pc.hands = [])
      (hopens : q.pc.opens = none) :
      m.Moves (.pollRun gen a)
        { m with
          polls := assign m.polls gen (some q)
          sides := Function.update m.sides d side }
  | pollExit {op gen p} (hl : m.polls.lookup gen = some p) (hhands : p.pc.hands = []) :
      m.Moves op { m with polls := assign m.polls gen none }
  | stopRun {op call c} (hl : m.stops.lookup call = some c) : m.Moves op (m.stopRun call c)

variable {m' : Manager} {op : ManagerOp}

theorem openResult_eq (m : Manager) (err : Option String) :
    ∀ k ∈ (m.openResult err).toOption, k = m.opened := by
  intro k hk
  cases err with
  | none =>
    cases hk
    rfl
  | some e => cases hk

theorem startRun_moves {pc : StartPc} {a : Answer} (hpc : m.start = some pc)
    (hs : m.startRun pc a = some m') : m.Moves (.startRun a) m' := by
  cases pc with
  | enumerating =>
    cases a with
    | devices devs =>
      cases hs
      exact .starting hpc (by simp) (by simp) rfl
    | none | opened err | time now => cases hs
  | enumerated devs =>
    cases a with
    | none =>
      cases hs
      exact .starting hpc (by simp) (by simp) rfl
    | devices devs | opened err | time now => cases hs
  | openCapture cfg devs =>
    cases a with
    | opened err =>
      cases hs
      exact .startOpened hpc (by simp) (by simp) rfl (m.openResult_eq err) rfl
    | none | devices devs | time now => cases hs
  | openPlayback cfg devs capture =>
    cases a with
    | opened err =>
      cases hs
      exact .startOpened hpc (by simp) (by simp) rfl (m.openResult_eq err) rfl
    | none | devices devs | time now => cases hs
  | publish cfg devs capture playback =>
    cases a with
    | none =>
      cases hs
      exact .publish hpc
    | devices devs | opened err | time now => cases hs
  | published =>
    cases a with
    | none =>
      cases hs
      exact .startDone hpc
    | devices devs | opened err | time now => cases hs

theorem hands_afterSide (t : PollTick) (d : Dir) : (afterSide t d).hands = [] := by
  cases d <;> rfl

theorem opens_afterSide (t : PollTick) (d : Dir) : (afterSide t d).opens = none := by
  cases d <;> rfl

/-- A superseded stream goes from its field into the hands of the loop. -/
theorem inField_closeSide (m : Manager) (t : PollTick) (s : ℕ) :
    inField (m.closeSide t .input) s + inField (m.closeSide t .output) s +
      (PollPc.stopping t (m.supersededStreams t)).hands.count s = m.timesOwned s := by
  have hside : ∀ d, inField (m.closeSide t d) s +
      (if m.superseded t d then inField (m.sides d) s else 0) = inField (m.sides d) s := by
    intro d
    unfold closeSide
    dsimp only
    split
    · split
      · simp [inField]
      · rfl
    · next hno =>
      have hsup : ¬ m.superseded t d = true := fun h => hno (Bool.and_eq_true_iff.1 h).1
      rw [if_neg hsup, Nat.add_zero]
      split
      · rfl
      · split
        · rfl
        · rfl
  have hhands : (PollPc.stopping t (m.supersededStreams t)).hands.count s =
      (if m.superseded t .input then inField (m.sides .input) s else 0) +
        if m.superseded t .output then inField (m.sides .output) s else 0 := by
    show ((m.supersededStreams t).map (·.stream)).count s = _
    unfold supersededStreams
    rw [filterMap_dirs, List.map_append, List.count_append]
    cases m.superseded t .input <;> cases m.superseded t .output <;>
      simp [inField, Option.toList_map]
  rw [timesOwned_eq, ← hside .input, ← hside .output, hhands]
  omega

theorem setPoll_moves {gen : ℕ} {p : Poll} {pc : PollPc} (hl : m.polls.lookup gen = some p)
    (hhands : pc.hands = p.pc.hands) (hopens : pc.opens = none) : m.Moves op (m.setPoll gen p pc) :=
  .poll (q := { p with pc := pc }) hl hhands
    (fun d hd => by rw [hopens] at hd; cases hd) fun _ => rfl

theorem update_stream {sd : Side} {d : Dir} (h : sd.stream = (m.sides d).stream) (d' : Dir) :
    (Function.update m.sides d sd d').stream = (m.sides d').stream := by
  by_cases hd : d' = d
  · subst hd
    rw [Function.update_self]
    exact h
  · rw [Function.update_of_ne hd]

theorem closeSide_stream {t : PollTick} {d : Dir} {o : Owned}
    (ho : (m.closeSide t d).stream = some o) : (m.sides d).stream = some o := by
  unfold closeSide at ho
  dsimp only at ho
  split at ho
  · split at ho
    · cases ho
    · exact ho
  · split at ho
    · exact ho
    · split at ho
      · exact ho
      · exact ho

section Sections

variable {gen : ℕ} {p : Poll} {t : PollTick} {d : Dir}

/-- The section of `closeSupersededStreams`. -/
theorem closing_moves (hl : m.polls.lookup gen = some p) (hpc : p.pc = .closing t)
    (hs : m.pollRun gen p (.closing t) .none = some m') : m.Moves op m' := by
  simp only [pollRun] at hs
  split at hs
  · cases hs
    exact setPoll_moves hl (by rw [hpc]; rfl) rfl
  · next hgen =>
    cases hs
    exact .supersede (q := { p with pc := .stopping t (m.supersededStreams t) }) hl
      (by rw [hpc]; rfl) rfl (not_not.1 hgen) (fun _ _ ho => closeSide_stream ho)
      fun s => inField_closeSide m t s

/-- The section of `maybeReopen` before the open. -/
theorem reopen_moves (hl : m.polls.lookup gen = some p) (hpc : p.pc = .reopen t d)
    (hs : m.pollRun gen p (.reopen t d) .none = some m') : m.Moves op m' := by
  simp only [pollRun] at hs
  split at hs
  · next hready =>
    cases hs
    refine .poll (q := { p with pc := .opening t d _ }) hl (by rw [hpc]; rfl)
      (fun d' hd => ?_) fun d' => ?_
    · cases hd
      exact .inr hready.1
    · show (Function.update m.sides d _ d').stream = _
      exact update_stream (by rfl) d'
  · cases hs
    exact setPoll_moves hl (by rw [hpc, hands_afterSide]; rfl) (opens_afterSide t d)

/-- The section of `maybeReopen` after the open. -/
theorem opened_moves {a : Answer} {id : String} {r : Opened} (hl : m.polls.lookup gen = some p)
    (hpc : p.pc = .opened t d id r) (hs : m.pollRun gen p (.opened t d id r) .none = some m') :
    m.Moves (.pollRun gen a) m' := by
  simp only [pollRun] at hs
  split at hs
  · cases r with
    | ok n =>
      cases hs
      exact setPoll_moves hl (by rw [hpc]; rfl) rfl
    | error e =>
      cases hs
      exact setPoll_moves hl (by rw [hpc, hands_afterSide]; rfl) (opens_afterSide t d)
  · next hgen =>
    cases r with
    | ok n =>
      cases hs
      exact .pollPublish (q := { p with pc := afterSide t d }) hl hpc (not_not.1 hgen) rfl
        (hands_afterSide t d) (opens_afterSide t d)
    | error e =>
      cases hs
      refine .poll (q := { p with pc := afterSide t d }) hl
        (by rw [hpc, hands_afterSide]; rfl) (fun d' hd => ?_) fun d' => ?_
      · rw [opens_afterSide] at hd
        cases hd
      · show (Function.update m.sides d _ d').stream = _
        exact update_stream (by rfl) d'

end Sections

theorem pollRun_moves {gen : ℕ} {p : Poll} {pc : PollPc} {a : Answer}
    (hl : m.polls.lookup gen = some p) (hpc : p.pc = pc) (hs : m.pollRun gen p pc a = some m') :
    m.Moves (.pollRun gen a) m' := by
  cases pc with
  | idle =>
    cases a with
    | none =>
      cases hs
      exact setPoll_moves hl (by rw [hpc]; rfl) rfl
    | devices devs | opened err | time now => cases hs
  | enumerating =>
    cases a with
    | devices devs =>
      cases devs with
      | none =>
        cases hs
        exact setPoll_moves hl (by rw [hpc]; rfl) rfl
      | some devs =>
        cases hs
        exact setPoll_moves hl (by rw [hpc]; rfl) rfl
    | none | opened err | time now => cases hs
  | enumerated devs =>
    cases a with
    | none =>
      cases hs
      split
      · exact setPoll_moves hl (by rw [hpc]; rfl) rfl
      · exact setPoll_moves hl (by rw [hpc]; rfl) rfl
    | devices devs | opened err | time now => cases hs
  | current devs =>
    cases a with
    | time now =>
      cases hs
      exact setPoll_moves hl (by rw [hpc]; rfl) rfl
    | none | devices devs | opened err => cases hs
  | closing t =>
    cases a with
    | none => exact closing_moves hl hpc hs
    | devices devs | opened err | time now => cases hs
  | stopping t streams =>
    cases a with
    | none =>
      cases streams with
      | nil =>
        cases hs
        exact setPoll_moves hl (by rw [hpc]; rfl) rfl
      | cons o streams =>
        cases hs
        exact .pollStopped (q := { p with pc := .stopping t streams }) hl (by rw [hpc]; rfl) rfl
    | devices devs | opened err | time now =>
      cases streams with
      | nil => cases hs
      | cons o streams => cases hs
  | reopen t d =>
    cases a with
    | none => exact reopen_moves hl hpc hs
    | devices devs | opened err | time now => cases hs
  | opening t d id =>
    cases a with
    | opened err =>
      cases hs
      exact .pollOpened (q := { p with pc := .opened t d id (m.openResult err) }) hl
        (by rw [hpc]; rfl) (by rw [hpc]; rfl) rfl (m.openResult_eq err) rfl
    | none | devices devs | time now => cases hs
  | opened t d id r =>
    cases a with
    | none => exact opened_moves hl hpc hs
    | devices devs | opened err | time now => cases hs
  | late t d n =>
    cases a with
    | none =>
      cases hs
      exact .pollStopped (q := { p with pc := afterSide t d }) hl
        (by rw [hpc, hands_afterSide]; rfl) (opens_afterSide t d)
    | devices devs | opened err | time now => cases hs

theorem step_moves (hs : m.step op = some m') : m.Moves op m' := by
  cases op with
  | setConfig cfg =>
    cases hs
    exact .keep
  | start =>
    simp only [step] at hs
    split at hs
    · cases hs
      exact .keep
    · next hrun =>
      split at hs
      · cases hs
        exact .keep
      · next hstarting =>
        cases hs
        exact .begin (by simpa using hrun) (by simpa using hstarting)
  | startRun a =>
    obtain ⟨pc, hpc, hs⟩ := Option.bind_eq_some_iff.1 hs
    exact startRun_moves hpc hs
  | stop =>
    cases hs
    split
    · next hrun => exact .stop hrun
    · exact .keep
  | stopRun call =>
    obtain ⟨c, hl, rfl⟩ := Option.map_eq_some_iff.1 hs
    exact .stopRun hl
  | pollRun gen a =>
    obtain ⟨p, hl, hs⟩ := Option.bind_eq_some_iff.1 hs
    exact pollRun_moves hl rfl hs
  | pollExit gen =>
    simp only [step] at hs
    split at hs
    · next hl =>
      cases hs
      exact .pollExit hl rfl
    · cases hs

/-! ## Who owns a stream -/

/-- Where streams are, and why the fields hold those of one generation. -/
structure Held (m : Manager) : Prop where
  once : ∀ s, m.timesStopped s + m.timesOwned s + m.timesInHand s = if s < m.opened then 1 else 0
  idle : m.starting = false → m.start = none
  starting : ∀ pc ∈ m.start, pc ≠ .published → m.running = false
  polls_le : ∀ gen p, m.polls.lookup gen = some p → gen ≤ m.epoch
  /-- The current generation has a loop only while it runs. -/
  live : ∀ p, m.polls.lookup m.epoch = some p → m.running = true
  opening : ∀ p, m.polls.lookup m.epoch = some p → ∀ d, p.pc.opens = some d →
    (m.sides d).stream = none
  current : m.running = true → ∀ d o, (m.sides d).stream = some o → o.gen = m.epoch
  joining : ∀ call c, m.stops.lookup call = some c → ∀ gen, c.joining = some gen →
    ∀ d o, (m.sides d).stream = some o → o.gen = gen
  orphan : m.running = false → ∀ d o, (m.sides d).stream = some o →
    ∃ call c, m.stops.lookup call = some c ∧ c.joining = some o.gen
  taken : ∀ call c, m.stops.lookup call = some c → ∀ gen streams, c = .stopping gen streams →
    ∀ o ∈ streams, o.gen = gen
  stopped : ∀ e ∈ m.stopped, ∀ gen ∈ e.stop, e.owned.gen = gen
  calls : ∀ call c, m.stops.lookup call = some c → call < m.calls

theorem held_new (cfg : DeviceConfig) : (new cfg).Held where
  once s := rfl
  idle _ := rfl
  starting pc h := by cases h
  polls_le gen p h := by cases h
  live p h := by cases h
  opening p h := by cases h
  current h := by cases h
  joining call c h := by cases h
  orphan _ d o h := by cases h
  taken call c h := by cases h
  stopped e h := by cases h
  calls call c h := by cases h

theorem joining_of_lookup {call gen : ℕ} {c : StopPc} (hl : m.stops.lookup call = some c)
    (hc : c.joining = some gen) : m.Joining :=
  ⟨⟨call, c⟩, AList.mem_lookup_iff.1 hl, by rw [hc]; simp⟩

/-- A stream that is opened is in the hands of who opened it. -/
theorem openedAfter_count {r : Opened} {n : ℕ} (hr : n = m.openedAfter r)
    (hok : ∀ k ∈ r.toOption, k = m.opened) (s : ℕ) :
    r.toOption.toList.count s + (if s < m.opened then 1 else 0) = if s < n then 1 else 0 := by
  cases r with
  | error e =>
    cases hr
    exact Nat.zero_add _
  | ok k =>
    cases hok k rfl
    cases hr
    show [m.opened].count s + _ = if s < m.opened + 1 then 1 else 0
    rw [List.count_singleton]
    simp only [beq_iff_eq]
    split <;> split <;> split <;> omega

/-- A poll loop moves on, and the fields lose streams at most. -/
theorem Held.poll (h : m.Held) {gen n : ℕ} {p p' : Poll} {sides : Dir → Side}
    {stopped : List Stopped} (hl : m.polls.lookup gen = some p)
    (hsub : ∀ d o, (sides d).stream = some o → (m.sides d).stream = some o)
    (hopens : ∀ d, p'.pc.opens = some d → p.pc.opens = some d ∨ (m.sides d).stream = none)
    (hstopped : ∀ e ∈ stopped, e ∈ m.stopped ∨ e.stop = none)
    (honce : ∀ s, (stopped.map (·.owned.stream)).count s + inField (sides .input) s +
        inField (sides .output) s + p'.pc.hands.count s + (if s < m.opened then 1 else 0) =
      m.timesStopped s + m.timesOwned s + p.pc.hands.count s + if s < n then 1 else 0) :
    Held { m with
      polls := assign m.polls gen (some p')
      sides := sides
      opened := n
      stopped := stopped } where
  once s := by
    have hm := h.once s
    have ht := tally_set (f := fun p : Poll => p.pc.hands.count s) hl p'
    have hs := honce s
    rw [timesOwned_eq]
    unfold timesInHand timesStopped at *
    dsimp only at *
    omega
  idle := h.idle
  starting := h.starting
  polls_le g q hg := by
    rw [lookup_assign] at hg
    split at hg
    · next hgg => exact hgg ▸ h.polls_le gen p hl
    · exact h.polls_le g q hg
  live q hq := by
    rw [lookup_assign] at hq
    split at hq
    · next he => exact h.live p (he ▸ hl)
    · exact h.live q hq
  opening q hq d hd := by
    have hnone : (m.sides d).stream = none := by
      rw [lookup_assign] at hq
      split at hq
      · next he =>
        cases hq
        rcases hopens d hd with ho | ho
        · exact h.opening p (he ▸ hl) d ho
        · exact ho
      · exact h.opening q hq d hd
    cases hs : (sides d).stream with
    | none => rfl
    | some o => rw [hsub d o hs] at hnone; cases hnone
  current hr d o ho := h.current hr d o (hsub d o ho)
  joining call c hc g hg d o ho := h.joining call c hc g hg d o (hsub d o ho)
  orphan hr d o ho := h.orphan hr d o (hsub d o ho)
  taken := h.taken
  stopped e he g hg := by
    rcases hstopped e he with he | he
    · exact h.stopped e he g hg
    · rw [he] at hg
      cases hg
  calls := h.calls

/-- A `Stop` moves on, and the fields lose streams at most. -/
theorem Held.stop (h : m.Held) {call : ℕ} {c : StopPc} {o : Option StopPc} {sides : Dir → Side}
    {polls : AList fun _ : ℕ => Poll} {stopped : List Stopped}
    (hl : m.stops.lookup call = some c)
    (hpolls : ∀ g q, polls.lookup g = some q → ∃ q', m.polls.lookup g = some q' ∧ q'.pc = q.pc)
    (htally : ∀ s, tally (fun p : Poll => p.pc.hands.count s) polls =
      tally (fun p => p.pc.hands.count s) m.polls)
    (hsub : ∀ d x, (sides d).stream = some x → (m.sides d).stream = some x)
    (hjoin : ∀ c' ∈ o, ∀ g, c'.joining = some g → c.joining = some g)
    (htaken : ∀ c' ∈ o, ∀ g l, c' = .stopping g l → ∀ x ∈ l, x.gen = g)
    (horphan : ∀ d x, (sides d).stream = some x → ∀ g, c.joining = some g →
      ∃ c' ∈ o, c'.joining = some g)
    (hstopped : ∀ e ∈ stopped, e ∈ m.stopped ∨ ∀ g ∈ e.stop, e.owned.gen = g)
    (honce : ∀ s, (stopped.map (·.owned.stream)).count s + inField (sides .input) s +
        inField (sides .output) s + (o.map fun c => c.hands.count s).getD 0 =
      m.timesStopped s + m.timesOwned s + c.hands.count s) :
    Held { m with
      stops := assign m.stops call o
      polls := polls
      sides := sides
      stopped := stopped } where
  once s := by
    have hm := h.once s
    have ht := tally_assign (fun c : StopPc => c.hands.count s) m.stops call o
    have hs := honce s
    have hp := htally s
    rw [hl] at ht
    change _ + c.hands.count s = _ at ht
    simp only [timesOwned_eq, timesInHand, timesStopped] at *
    omega
  idle := h.idle
  starting := h.starting
  polls_le g q hq := by
    obtain ⟨q', hq', -⟩ := hpolls g q hq
    exact h.polls_le g q' hq'
  live q hq := by
    obtain ⟨q', hq', -⟩ := hpolls _ q hq
    exact h.live q' hq'
  opening q hq d hd := by
    obtain ⟨q', hq', hpc⟩ := hpolls _ q hq
    have hnone := h.opening q' hq' d (hpc ▸ hd)
    cases hx : (sides d).stream with
    | none => rfl
    | some x => rw [hsub d x hx] at hnone; cases hnone
  current hr d x hx := h.current hr d x (hsub d x hx)
  joining := forall_assign (fun i c' hc' g hg d x hx => h.joining i c' hc' g hg d x (hsub d x hx))
    fun c' hc' g hg d x hx => h.joining call c hl g (hjoin c' hc' g hg) d x (hsub d x hx)
  orphan hr d x hx := by
    obtain ⟨i, c', hc', hg⟩ := h.orphan hr d x (hsub d x hx)
    by_cases hi : i = call
    · subst hi
      rw [hl] at hc'
      cases hc'
      obtain ⟨c'', hc'', hg''⟩ := horphan d x hx _ hg
      exact ⟨i, c'', by rw [lookup_assign, if_pos rfl]; exact hc'', hg''⟩
    · exact ⟨i, c', by rw [lookup_assign, if_neg hi]; exact hc', hg⟩
  taken := forall_assign h.taken htaken
  stopped e he := by
    rcases hstopped e he with he | he
    · exact h.stopped e he
    · exact he
  calls := forall_assign h.calls fun _ _ => h.calls call c hl

theorem Held.next_poll (h : m.Held) : m.polls.lookup (m.epoch + 1) = none := by
  cases hl : m.polls.lookup (m.epoch + 1) with
  | none => rfl
  | some p =>
    have := h.polls_le _ p hl
    omega

theorem Held.next_stop (h : m.Held) : m.stops.lookup m.calls = none := by
  cases hl : m.stops.lookup m.calls with
  | none => rfl
  | some c => exact absurd (h.calls _ c hl) (lt_irrefl _)

theorem inField_startSide (cfg : DeviceConfig) (devs : Devices) (epoch : ℕ) (d : Dir) (r : Opened)
    (s : ℕ) : inField (startSide cfg devs epoch d r) s = r.toOption.toList.count s := by
  cases r <;> rfl

theorem inField_update {d : Dir} {sd : Side} {o : Owned} (hnone : (m.sides d).stream = none)
    (hsd : sd.stream = some o) (s : ℕ) :
    inField (Function.update m.sides d sd .input) s +
        inField (Function.update m.sides d sd .output) s =
      inField (m.sides .input) s + inField (m.sides .output) s + [o.stream].count s := by
  have hold : inField (m.sides d) s = 0 := by
    unfold inField
    rw [hnone]
    rfl
  have hnew : inField sd s = [o.stream].count s := by
    unfold inField
    rw [hsd]
    rfl
  cases d with
  | input =>
    rw [Function.update_self, Function.update_of_ne (by decide), hold, hnew]
    omega
  | output =>
    rw [Function.update_self, Function.update_of_ne (by decide), hold, hnew]
    omega

/-! ## A `Start` -/

/-- A `Start` moves on, with what it opened in its hands. -/
theorem Held.startOn (h : m.Held) {starting : Bool} {start : Option StartPc} {n : ℕ}
    (hidle : starting = false → start = none)
    (hrun : ∀ pc ∈ start, pc ≠ .published → m.running = false)
    (hhands : ∀ s, ((start.map StartPc.hands).getD []).count s + (if s < m.opened then 1 else 0) =
      ((m.start.map StartPc.hands).getD []).count s + if s < n then 1 else 0) :
    Held { m with starting := starting, start := start, opened := n } where
  once s := by
    have honce := h.once s
    have hs := hhands s
    simp only [timesStopped, timesOwned_eq, timesInHand] at honce ⊢
    omega
  idle := hidle
  starting := hrun
  polls_le := h.polls_le
  live := h.live
  opening := h.opening
  current := h.current
  joining := h.joining
  orphan := h.orphan
  taken := h.taken
  stopped := h.stopped
  calls := h.calls

section Publish

variable {a : Answer} {cfg : DeviceConfig} {devs : Devices} {capture playback : Opened}

/-- Only a `Stop` may have left a stream, and then nothing is published. -/
theorem Held.publish_empty (h : m.Held) (hok : m.Undisturbed (.startRun a))
    (hpc : m.start = some (.publish cfg devs capture playback)) (d : Dir) :
    (m.sides d).stream = none := by
  have hrun : m.running = false := h.starting _ hpc (by simp)
  cases ho : (m.sides d).stream with
  | none => rfl
  | some o =>
    obtain ⟨call, c, hl, hc⟩ := h.orphan hrun d o ho
    have hnone := (hok (joining_of_lookup hl hc) _ hpc).1
    have hmem : o ∈ m.owned := mem_owned.2 ⟨d, ho⟩
    rw [hnone] at hmem
    cases hmem

theorem publish_gen {d : Dir} {o : Owned}
    (ho : ((m.publish cfg devs capture playback).sides d).stream = some o) :
    o.gen = m.epoch + 1 := by
  obtain ⟨n, -, rfl⟩ := Option.map_eq_some_iff.1 ho
  rfl

theorem publish_stream_none (hhands : (StartPc.publish cfg devs capture playback).hands = [])
    (d : Dir) : ((m.publish cfg devs capture playback).sides d).stream = none := by
  obtain ⟨hcap, hplay⟩ := List.append_eq_nil_iff.1 hhands
  cases d with
  | input => cases capture with
    | ok n => cases hcap
    | error e => rfl
  | output => cases playback with
    | ok n => cases hplay
    | error e => rfl

/-- The streams go from the hands of the `Start` into the fields. -/
theorem Held.publish_once (h : m.Held) (hempty : ∀ d, (m.sides d).stream = none)
    (hpc : m.start = some (.publish cfg devs capture playback)) (s : ℕ) :
    (m.publish cfg devs capture playback).timesStopped s +
        (m.publish cfg devs capture playback).timesOwned s +
        (m.publish cfg devs capture playback).timesInHand s = if s < m.opened then 1 else 0 := by
  have honce := h.once s
  have ht := tally_insert (f := fun p : Poll => p.pc.hands.count s) h.next_poll ⟨false, .idle⟩
  have hfield : ∀ d, inField (m.sides d) s = 0 := fun d => by
    unfold inField
    rw [hempty d]
    rfl
  change _ = _ + 0 at ht
  simp only [timesStopped, timesOwned_eq, timesInHand, hpc, hfield, Option.map_some,
    Option.getD_some, StartPc.hands, List.count_append, publish, inField_startSide, ht,
    List.count_nil] at honce ⊢
  omega

theorem Held.publish (h : m.Held) (hok : m.Undisturbed (.startRun a))
    (hpc : m.start = some (.publish cfg devs capture playback)) :
    (m.publish cfg devs capture playback).Held where
  once := h.publish_once (h.publish_empty hok hpc) hpc
  idle hs := by
    rw [h.idle hs] at hpc
    cases hpc
  starting pc hpc' hne := by
    cases hpc'
    exact absurd rfl hne
  polls_le g q hq := by
    rcases lookup_insert_cases hq with ⟨rfl, -⟩ | hq
    · exact le_rfl
    · exact (h.polls_le g q hq).trans (Nat.le_succ _)
  live _ _ := rfl
  opening q hq d hd := by
    change (m.polls.insert (m.epoch + 1) ⟨false, .idle⟩).lookup (m.epoch + 1) = some q at hq
    rw [AList.lookup_insert] at hq
    cases hq
    cases hd
  current _ d o ho := publish_gen ho
  joining call c hc g hg d o ho := by
    have hhands := (hok (joining_of_lookup hc hg) _ hpc).2
    rw [publish_stream_none hhands d] at ho
    cases ho
  orphan hr := by cases hr
  taken := h.taken
  stopped := h.stopped
  calls := h.calls

end Publish

/-! ## A `Stop` -/

theorem Held.beginStop (h : m.Held) (hrun : m.running = true) : m.beginStop.Held where
  once s := by
    have honce := h.once s
    have ht := tally_insert (f := fun c : StopPc => c.hands.count s) h.next_stop (.joinDSP m.epoch)
    change _ = _ + 0 at ht
    simp only [timesStopped, timesOwned_eq, timesInHand, Manager.beginStop, ht] at honce ⊢
    exact honce
  idle := h.idle
  starting _ _ _ := rfl
  polls_le g q hq := (h.polls_le g q hq).trans (Nat.le_succ _)
  live q hq := by
    change m.polls.lookup (m.epoch + 1) = some q at hq
    rw [h.next_poll] at hq
    cases hq
  opening q hq := by
    change m.polls.lookup (m.epoch + 1) = some q at hq
    rw [h.next_poll] at hq
    cases hq
  current hr := by cases hr
  joining call c hc g hg d o ho := by
    rcases lookup_insert_cases hc with ⟨rfl, rfl⟩ | hc
    · cases hg
      exact h.current hrun d o ho
    · exact h.joining call c hc g hg d o ho
  orphan _ d o ho := by
    refine ⟨m.calls, .joinDSP m.epoch, AList.lookup_insert _, ?_⟩
    rw [h.current hrun d o ho]
    rfl
  taken call c hc g streams he := by
    rcases lookup_insert_cases hc with ⟨-, rfl⟩ | hc
    · cases he
    · exact h.taken call c hc g streams he
  stopped := h.stopped
  calls call c hc := by
    rcases lookup_insert_cases hc with ⟨rfl, -⟩ | hc
    · exact Nat.lt_succ_self _
    · exact (h.calls call c hc).trans (Nat.lt_succ_self _)

/-- The sections of a `Stop` after its first. -/
theorem Held.stopRun (h : m.Held) {call : ℕ} {c : StopPc} (hl : m.stops.lookup call = some c) :
    (m.stopRun call c).Held := by
  cases c with
  | joinDSP gen =>
    show Held { m with
      stops := assign m.stops call (some (.joinPoll gen))
      polls := mapValues (fun g p => if g = gen then { p with stop := true } else p) m.polls }
    refine h.stop hl (fun g q hq => ?_) (fun s => tally_mapValues _ _ (fun g p => ?_) m.polls)
      (fun _ _ ho => ho) (fun c hc g hg => ?_) (fun c hc g l he => ?_) (fun _ _ _ g hg => ?_)
      (fun e he => .inl he) fun s => ?_
    · rw [lookup_mapValues] at hq
      obtain ⟨q', hq', rfl⟩ := Option.map_eq_some_iff.1 hq
      refine ⟨q', hq', ?_⟩
      split <;> rfl
    · split <;> rfl
    · cases hc
      exact hg
    · cases hc
      cases he
    · exact ⟨_, rfl, hg⟩
    · rw [timesOwned_eq, ← Nat.add_assoc]
      rfl
  | joinPoll gen =>
    show Held { m with
      stops := assign m.stops call (some (.stopping gen m.owned))
      sides := fun d => { m.sides d with stream := none } }
    refine h.stop hl (fun g q hq => ⟨q, hq, rfl⟩) (fun s => rfl) (fun _ _ ho => by cases ho)
      (fun c hc g hg => ?_) (fun c hc g l he o ho => ?_) (fun d o ho => by cases ho)
      (fun e he => .inl he) fun s => ?_
    · cases hc
      cases hg
    · cases hc
      cases he
      obtain ⟨d, hd⟩ := mem_owned.1 ho
      exact h.joining call _ hl _ rfl d o hd
    · show _ + 0 + 0 + m.timesOwned s = _ + _ + 0
      rfl
  | stopping gen streams =>
    cases streams with
    | nil =>
      refine h.stop hl (fun g q hq => ⟨q, hq, rfl⟩) (fun s => rfl) (fun _ _ ho => ho)
        (fun c hc => by cases hc) (fun c hc => by cases hc) (fun _ _ _ g hg => by cases hg)
        (fun e he => .inl he) fun s => ?_
      rw [timesOwned_eq, ← Nat.add_assoc]
      rfl
    | cons o streams =>
      show Held { m with
        stops := assign m.stops call (some (.stopping gen streams))
        stopped := ⟨o, some gen⟩ :: m.stopped }
      refine h.stop hl (fun g q hq => ⟨q, hq, rfl⟩) (fun s => rfl) (fun _ _ ho => ho)
        (fun c hc g hg => ?_) (fun c hc g l he => ?_) (fun _ _ _ g hg => by cases hg)
        (fun e he => ?_) fun s => ?_
      · cases hc
        cases hg
      · cases hc
        cases he
        exact fun x hx => h.taken call _ hl _ _ rfl x (List.mem_cons_of_mem _ hx)
      · rcases List.mem_cons.1 he with rfl | he
        · refine .inr fun g hg => ?_
          cases hg
          exact h.taken call _ hl _ _ rfl o List.mem_cons_self
        · exact .inl he
      · rw [stopped_cons, timesOwned_eq]
        show _ + _ + _ + _ + (streams.map (·.stream)).count s =
          _ + _ + (o.stream :: streams.map (·.stream)).count s
        rw [List.count_cons]
        dsimp only
        omega

/-! ## The write-back and the end of a poll loop -/

/-- The loop puts the stream that it opened into the field. -/
theorem Held.pollPublish (h : m.Held) {a : Answer} {p q : Poll} {t : PollTick} {d : Dir}
    {id : String} {n : ℕ} {side : Side} (hok : m.Undisturbed (.pollRun m.epoch a))
    (hl : m.polls.lookup m.epoch = some p) (hpc : p.pc = .opened t d id (.ok n))
    (hside : side.stream = some ⟨n, m.epoch⟩) (hhands : q.pc.hands = [])
    (hopens : q.pc.opens = none) :
    Held { m with
      polls := assign m.polls m.epoch (some q)
      sides := Function.update m.sides d side } := by
  have hnone : (m.sides d).stream = none := h.opening p hl d (by rw [hpc]; rfl)
  have hfree : ¬ m.Joining := by
    intro hj
    have hno := hok hj p hl
    rw [hpc] at hno
    cases hno rfl
  have hrun : m.running = true := h.live p hl
  have hcurrent : ∀ d' o, (Function.update m.sides d side d').stream = some o →
      o.gen = m.epoch := by
    intro d' o ho
    by_cases hd : d' = d
    · subst hd
      rw [Function.update_self, hside] at ho
      cases ho
      rfl
    · rw [Function.update_of_ne hd] at ho
      exact h.current hrun d' o ho
  refine { h with
    once := fun s => ?_
    polls_le := fun g q' hq => ?_
    live := fun _ _ => hrun
    opening := fun q' hq d' hd => ?_
    current := fun _ => hcurrent
    joining := fun call c hc g hg => absurd (joining_of_lookup hc hg) hfree
    orphan := fun hr => ?_ }
  · have honce := h.once s
    have ht := tally_set (f := fun p : Poll => p.pc.hands.count s) hl q
    have hfield := inField_update hnone hside s
    dsimp only at hfield
    rw [hhands, hpc, List.count_nil] at ht
    change _ + [n].count s = _ at ht
    simp only [timesStopped, timesOwned_eq, timesInHand] at honce ⊢
    omega
  · rw [lookup_assign] at hq
    split at hq
    · next hgg => exact hgg ▸ le_rfl
    · exact h.polls_le g q' hq
  · change (assign m.polls m.epoch (some q)).lookup m.epoch = some q' at hq
    rw [lookup_assign, if_pos rfl] at hq
    cases hq
    rw [hopens] at hd
    cases hd
  · change m.running = false at hr
    rw [hrun] at hr
    cases hr

theorem Held.pollExit (h : m.Held) {gen : ℕ} {p : Poll} (hl : m.polls.lookup gen = some p)
    (hhands : p.pc.hands = []) : Held { m with polls := assign m.polls gen none } := by
  have hsub : ∀ g q, (assign m.polls gen none).lookup g = some q → m.polls.lookup g = some q := by
    intro g q hq
    rw [lookup_assign] at hq
    split at hq
    · cases hq
    · exact hq
  refine { h with
    once := fun s => ?_
    polls_le := fun g q hq => h.polls_le g q (hsub g q hq)
    live := fun q hq => h.live q (hsub _ q hq)
    opening := fun q hq => h.opening q (hsub _ q hq) }
  have honce := h.once s
  have ht := tally_unset (f := fun p : Poll => p.pc.hands.count s) hl
  rw [hhands, List.count_nil] at ht
  simp only [timesStopped, timesOwned_eq, timesInHand] at honce ⊢
  omega

/-! ## A step -/

theorem Held.moves (h : m.Held) (hok : m.Undisturbed op) (hm : m.Moves op m') : m'.Held := by
  cases hm with
  | keep => exact { h with }
  | begin hrun hstarting =>
    refine h.startOn (fun hs => by cases hs) (fun _ _ _ => hrun) fun s => ?_
    rw [h.idle hstarting]
    rfl
  | @starting _ pc pc' hpc hpub hpub' hhands =>
    refine h.startOn (fun hs => by rw [h.idle hs] at hpc; cases hpc)
      (fun _ _ _ => h.starting pc hpc hpub) fun s => ?_
    rw [hpc, Option.map_some, Option.map_some, hhands]
  | @startOpened _ pc pc' r n hpc hpub hpub' hr hok hhands =>
    refine h.startOn (fun hs => by rw [h.idle hs] at hpc; cases hpc)
      (fun _ _ _ => h.starting pc hpc hpub) fun s => ?_
    have hopened := openedAfter_count hr hok s
    simp only [hpc, Option.map_some, Option.getD_some, hhands, List.count_append]
    omega
  | publish hpc => exact h.publish hok hpc
  | startDone hpc =>
    refine h.startOn (fun _ => rfl) (fun _ hq => by cases hq) fun s => ?_
    rw [hpc]
    rfl
  | stop hrun => exact h.beginStop hrun
  | @poll _ gen p p' sides hl hhands hopens hsides =>
    refine h.poll hl (fun d o ho => (hsides d) ▸ ho) hopens (fun e he => .inl he) fun s => ?_
    have hfield : ∀ d, inField (sides d) s = inField (m.sides d) s := fun d => by
      unfold inField
      rw [hsides]
    rw [hfield, hfield, hhands, timesOwned_eq]
    unfold timesStopped
    omega
  | supersede hl hhands hopens hgen hsub hcount =>
    refine h.poll hl hsub (fun d hd => by rw [hopens] at hd; cases hd) (fun e he => .inl he)
      fun s => ?_
    have hc := hcount s
    rw [hhands, List.count_nil]
    unfold timesStopped
    omega
  | @pollStopped _ gen p p' o hl hhands hopens =>
    refine h.poll hl (fun _ _ ho => ho) (fun d hd => by rw [hopens] at hd; cases hd)
      (fun e he => ?_) fun s => ?_
    · rcases List.mem_cons.1 he with rfl | he
      · exact .inr rfl
      · exact .inl he
    · rw [stopped_cons, hhands, timesOwned_eq, List.count_cons]
      dsimp only
      omega
  | pollOpened hl hhands hopens hr hok hhands' =>
    refine h.poll hl (fun _ _ ho => ho) (fun d hd => .inl (hopens ▸ hd)) (fun e he => .inl he)
      fun s => ?_
    have hopened := openedAfter_count hr hok s
    rw [hhands, hhands', timesOwned_eq, List.count_nil]
    unfold timesStopped
    omega
  | pollPublish hl hpc hgen hside hhands hopens =>
    subst hgen
    exact h.pollPublish hok hl hpc hside hhands hopens
  | pollExit hl hhands => exact h.pollExit hl hhands
  | stopRun hl => exact h.stopRun hl

theorem timesInHand_atRest (h : m.AtRest) (s : ℕ) : m.timesInHand s = 0 := by
  obtain ⟨hstart, hidle, hstops⟩ := h
  have hpolls : tally (fun p : Poll => p.pc.hands.count s) m.polls = 0 := by
    refine List.sum_eq_zero fun n hn => ?_
    obtain ⟨⟨gen, p⟩, hmem, rfl⟩ := List.mem_map.1 hn
    show p.pc.hands.count s = 0
    rw [hidle gen p (AList.mem_lookup_iff.2 hmem)]
    rfl
  unfold timesInHand
  rw [hstart, hpolls, hstops]
  rfl

theorem Held.accounted (h : m.Held) : m.Accounted where
  once s hs := by
    have := h.once s
    rwa [if_pos hs] at this
  owned o ho := by
    obtain ⟨d, hd⟩ := mem_owned.1 ho
    cases hr : m.running with
    | true => exact .inl ⟨hr, h.current hr d o hd⟩
    | false => exact .inr (h.orphan hr d o hd)
  stopped := h.stopped
  rest hrest := by
    refine ⟨fun s hs => ?_, fun o ho => ?_⟩
    · have := h.once s
      rwa [timesInHand_atRest hrest, if_pos hs] at this
    · obtain ⟨d, hd⟩ := mem_owned.1 ho
      cases hr : m.running with
      | true => exact ⟨rfl, h.current hr d o hd⟩
      | false =>
        obtain ⟨call, c, hc, -⟩ := h.orphan hr d o hd
        rw [hrest.2.2] at hc
        cases hc

end Manager

/-- **Audio streams.** Along every run in which no stream enters a field, and none is
written over, while a `Stop` is between its sections, every stream that was opened
is accounted for. -/
theorem streams_accounted (cfg : DeviceConfig) (ops : List ManagerOp) (m : Manager)
    (hok : Meets Manager.step Manager.Undisturbed (.new cfg) ops)
    (hrun : exec Manager.step (.new cfg) ops = some m) : m.Accounted :=
  (exec_invariant (I := Manager.Held)
    (fun _ _ _ h hok hs => h.moves hok (Manager.step_moves hs))
    (Manager.held_new cfg) hok hrun).accounted

/-- A device that goes while the loop reopens another, a stop that gives up on the
loop, and a start after it. -/
theorem streams_accounted_reopen : ∃ m,
    exec Manager.step (.new fun _ => "")
      [.start, .startRun (.devices (some fun _ => [⟨"a", true⟩])), .startRun .none,
        .startRun (.opened none), .startRun (.opened (some "busy")), .startRun .none,
        .startRun .none, .pollRun 1 .none, .pollRun 1 (.devices (some fun _ => [⟨"b", true⟩])),
        .pollRun 1 .none, .pollRun 1 (.time 5), .pollRun 1 .none, .pollRun 1 .none,
        .pollRun 1 .none, .pollRun 1 .none, .stop, .stopRun 0, .stopRun 0, .stopRun 0, .start,
        .startRun (.devices none), .startRun .none, .startRun (.opened none),
        .startRun (.opened none), .startRun .none, .pollRun 1 (.opened none), .pollRun 1 .none,
        .pollRun 1 .none] = some m ∧ m.opened = 4 ∧ m.Accounted := by
  have hrun : (exec Manager.step (.new fun _ => "")
      [.start, .startRun (.devices (some fun _ => [⟨"a", true⟩])), .startRun .none,
        .startRun (.opened none), .startRun (.opened (some "busy")), .startRun .none,
        .startRun .none, .pollRun 1 .none, .pollRun 1 (.devices (some fun _ => [⟨"b", true⟩])),
        .pollRun 1 .none, .pollRun 1 (.time 5), .pollRun 1 .none, .pollRun 1 .none,
        .pollRun 1 .none, .pollRun 1 .none, .stop, .stopRun 0, .stopRun 0, .stopRun 0, .start,
        .startRun (.devices none), .startRun .none, .startRun (.opened none),
        .startRun (.opened none), .startRun .none, .pollRun 1 (.opened none), .pollRun 1 .none,
        .pollRun 1 .none]).map (·.opened) = some 4 := by decide +kernel
  obtain ⟨m, hm, hopened⟩ := Option.map_eq_some_iff.1 hrun
  exact ⟨m, hm, hopened, streams_accounted _ _ m (by decide +kernel) hm⟩

/-- A `Start` publishes while a `Stop` waits for its loop. -/
theorem stop_steals : ¬ ∀ (cfg : DeviceConfig) (ops : List ManagerOp) (m : Manager),
    exec Manager.step (.new cfg) ops = some m → m.Accounted := by
  intro h
  have hrun : (exec Manager.step (.new fun _ => "")
      [.start, .startRun (.devices none), .startRun .none, .startRun (.opened none),
        .startRun (.opened none), .startRun .none, .startRun .none, .stop, .start,
        .startRun (.devices none), .startRun .none, .startRun (.opened none),
        .startRun (.opened none), .startRun .none, .startRun .none, .stopRun 0, .stopRun 0,
        .stopRun 0]).map (fun m => (m.stopped.map fun e => (e.owned, e.stop))) =
      some [(⟨2, 3⟩, some 1)] := by decide +kernel
  obtain ⟨m, hm, hstopped⟩ := Option.map_eq_some_iff.1 hrun
  obtain ⟨e, hmem, he⟩ := List.mem_map.1
    (hstopped ▸ List.mem_singleton_self (_, _) : (⟨2, 3⟩, some 1) ∈ m.stopped.map fun e =>
      (e.owned, e.stop))
  obtain ⟨howned, hstop⟩ := Prod.mk.inj he
  have hgen := (h _ _ m hm).stopped e hmem 1 hstop
  rw [howned] at hgen
  cases hgen

end VcsClient.Audio
