import VcsClient.Voice.RxHistory
import VcsClient.Voice.RxStreams

/-!
# The reports of the receive path

`Receipts` is what every run keeps of the reports: each transmission of a
stream is reported at most once, in order, and each report is queued, handed to
`OnRX` or counted as dropped. `endTransmission` and `Close` end transmissions
under `mu`, which one of them holds at a time (`Locked`).
-/

namespace VcsClient.Voice

open VcsClient.Lib Receive

namespace Receive

/-- The decode goroutine holds `mu`. -/
def DecodePc.Holds : DecodePc → Prop
  | .committing _ _ _ _ | .removing _ _ => True
  | _ => False

/-- `Close` holds `mu`. -/
def ClosePc.Holds : ClosePc → Prop
  | .ending _ _ | .loading _ _ _ => True
  | _ => False

/-- The report the decode goroutine has yet to queue. -/
def DecodePc.inHand : DecodePc → List Report
  | .queueing _ _ _ r => [r]
  | _ => []

/-- The reports `Close` has yet to queue. -/
def ClosePc.inHand : ClosePc → List Report
  | .ending _ pending | .loading _ _ pending | .queueing pending => pending
  | _ => []

/-- The stream that `Close` has marked ended and not reported yet. -/
def ClosePc.owes : ClosePc → Option ℕ
  | .loading sid _ _ => some sid
  | _ => none

/-- The streams `Close` has yet to report. -/
def ClosePc.todo : ClosePc → List ℕ
  | .ending todo _ => todo
  | .loading sid todo _ => sid :: todo
  | _ => []

/-- `Close` has drained the queue. -/
def ClosePc.Drained : ClosePc → Prop
  | .releasing | .freeing _ | .returned => True
  | _ => False

end Receive

/-- `mu` is held by one at a time, and no transmission is being ended twice. -/
structure Locked (s : Receiver) : Prop where
  held : s.decode.Holds ∨ s.closer.Holds → s.mu = true
  one : s.decode.Holds → ¬ s.closer.Holds
  committing : ∀ w sid last read, s.decode = .committing w sid last read →
    (s.heap sid).ended = false

namespace Locked

variable {s s' : Receiver}

theorem init (self : UUID) (historyIdle clock : ℤ) : Locked (.init self historyIdle clock) where
  held := by simp [Receiver.init, DecodePc.Holds, ClosePc.Holds]
  one := by simp [Receiver.init, DecodePc.Holds]
  committing := by simp [Receiver.init]

theorem not_holds_of_free (h : Locked s) (hmu : s.mu = false) :
    ¬ s.decode.Holds ∧ ¬ s.closer.Holds :=
  ⟨fun hd => by simp [h.held (.inl hd)] at hmu, fun hc => by simp [h.held (.inr hc)] at hmu⟩

theorem rxVoice (h : Locked s) {i : ℕ} {decoder : Bool} {o : IterOrder ℕ}
    (hs : s.rxVoice i decoder o = some s') : Locked s' := by
  obtain ⟨-, -, -, hcloser, hdecode, -, -, hmu, -⟩ := Receiver.rxVoice_frame hs
  refine ⟨by rw [hcloser, hdecode, hmu]; exact h.held, by rw [hcloser, hdecode]; exact h.one, ?_⟩
  intro w sid last read hpc
  rw [hdecode] at hpc
  have hold := h.committing w sid last read hpc
  have hheld : s.mu = true := h.held (.inl (hpc ▸ trivial))
  have hset : ∀ sid' (st : Stream), st.ended = (s.heap sid').ended →
      ((s.setStream sid' st).heap sid).ended = false := by
    intro sid' st hst
    by_cases he : sid = sid'
    · subst he
      simpa [Receiver.setStream, hst] using hold
    · simpa [Receiver.setStream, he] using hold
  unfold Receiver.rxVoice at hs
  split at hs
  · cases hs
  · simp [hheld] at hs
  · cases hs
    exact hset _ _ rfl
  · cases hs
    exact hold
  · simp [hheld] at hs
  · cases hs
    exact hold

theorem rxService (h : Locked s) {o : IterOrder ℕ} (hs : s.rxService o = some s') : Locked s' := by
  have hfree : ∀ {t : Receiver}, ¬ t.decode.Holds → t.closer = s.closer →
      (s.closer.Holds → t.mu = s.mu) → Locked t := by
    intro t hd hc hmu
    refine ⟨fun hh => ?_, fun hh => absurd hh hd, fun w sid last read he => absurd (he ▸ trivial) hd⟩
    rcases hh with hh | hh
    · exact absurd hh hd
    · rw [hc] at hh
      rw [hmu hh]
      exact h.held (.inr hh)
  unfold Receiver.rxService at hs
  cases hpc : s.decode with
  | parked | exited => simp [hpc] at hs
  | serving w =>
    simp only [hpc] at hs
    split at hs
    all_goals
      cases hs
      exact hfree id rfl fun _ => rfl
  | topUp w sid =>
    simp only [hpc, Option.some.injEq] at hs
    subst hs
    exact hfree id rfl fun _ => rfl
  | seen w sid last =>
    simp only [hpc] at hs
    split at hs
    all_goals
      cases hs
      exact hfree id rfl fun _ => rfl
  | ending w sid last =>
    simp only [hpc] at hs
    split at hs
    · cases hs
    · rename_i hmu
      cases hs
      unfold Receiver.endTransmission
      simp only
      split
      · exact hfree id rfl fun _ => rfl
      · rename_i hno
        refine ⟨fun _ => rfl, fun _ => (h.not_holds_of_free (by simpa using hmu)).2, ?_⟩
        rintro w' sid' last' read' he
        cases he
        simpa using fun hc => hno (.inl hc)
  | committing w sid last read =>
    simp only [hpc, Option.some.injEq] at hs
    subst hs
    exact hfree id rfl fun hc => absurd hc (h.one (hpc ▸ trivial))
  | queueing w sid last r =>
    simp only [hpc, Option.some.injEq, Receiver.queueRXEvent] at hs
    split at hs
    all_goals
      subst hs
      exact hfree id rfl fun _ => rfl
  | reaping w =>
    simp only [hpc] at hs
    split at hs
    · cases hs
      exact hfree id rfl fun _ => rfl
    · split at hs
      · cases hs
      · rename_i hmu
        cases hs
        unfold Receiver.reap
        split
        · exact hfree id rfl fun _ => rfl
        · split
          · exact hfree id rfl fun _ => rfl
          · exact ⟨fun _ => rfl, fun _ => (h.not_holds_of_free (by simpa using hmu)).2,
              fun _ _ _ _ he => by cases he⟩
  | removing w sid =>
    simp only [hpc, Option.some.injEq] at hs
    subst hs
    exact hfree id rfl fun hc => absurd hc (h.one (hpc ▸ trivial))
  | closing w sid =>
    simp only [hpc, Option.some.injEq] at hs
    subst hs
    exact hfree id rfl fun _ => rfl

theorem close (h : Locked s) {o : IterOrder ℕ} (hs : s.close o = some s') : Locked s' := by
  obtain ⟨-, -, -, hdecode, -⟩ := Receiver.close_frame hs
  -- stages outside the locked section, that touch no `ended`
  have hout : s'.mu = s.mu → ¬ s'.closer.Holds →
      (∀ sid, (s'.heap sid).ended = (s.heap sid).ended) → Locked s' := by
    intro hmu hnot hended
    refine ⟨fun hh => ?_, fun _ => hnot, fun w sid last read he => ?_⟩
    · rw [hdecode] at hh
      rw [hmu]
      exact h.held (.inl (hh.resolve_right hnot))
    · rw [hended]
      exact h.committing w sid last read (hdecode ▸ he)
  -- stages inside it: the decode goroutine is outside
  have hin : ¬ s.decode.Holds → (s'.closer.Holds → s'.mu = true) → Locked s' := by
    intro hdec hmu
    rw [← hdecode] at hdec
    exact ⟨fun hh => hmu (hh.resolve_left hdec), fun hh => absurd hh hdec,
      fun w sid last read he => absurd (he ▸ trivial) hdec⟩
  unfold Receiver.close at hs
  cases hpc : s.closer with
  | said =>
    simp only [hpc] at hs
    split at hs
    · cases hs
    · rename_i hmu
      cases hs
      exact hin (h.not_holds_of_free (by simpa using hmu)).1 fun _ => rfl
  | ending todo pending =>
    have hdec : ¬ s.decode.Holds := fun hd => h.one hd (hpc ▸ trivial)
    have hmu : s.mu = true := h.held (.inr (hpc ▸ trivial))
    simp only [hpc] at hs
    split at hs
    · cases hs
      exact hin hdec fun hc => absurd hc id
    · split at hs
      all_goals
        cases hs
        exact hin hdec fun _ => hmu
  | loading sid todo pending =>
    have hdec : ¬ s.decode.Holds := fun hd => h.one hd (hpc ▸ trivial)
    have hmu : s.mu = true := h.held (.inr (hpc ▸ trivial))
    simp only [hpc, Option.some.injEq] at hs
    subst hs
    exact hin hdec fun _ => hmu
  | uncalled | stopping | hangingUp | calling =>
    simp only [hpc, Option.some.injEq] at hs
    subst hs
    exact hout rfl id fun _ => rfl
  | queueing pending =>
    simp only [hpc, Receiver.queueRXEvent] at hs
    repeat' split at hs
    all_goals
      cases hs
      exact hout rfl id fun _ => rfl
  | joining | draining | releasing =>
    simp only [hpc] at hs
    split at hs
    all_goals
      cases hs
      try exact hout rfl id fun _ => rfl
  | freeing sids =>
    simp only [hpc] at hs
    split at hs
    · cases hs
      exact hout rfl id fun _ => rfl
    · rename_i sid rest
      cases hs
      refine hout rfl id fun sid' => ?_
      by_cases he : sid' = sid
      · subst he
        simp [Receiver.closeDecoder, Receiver.setStream]
      · simp [Receiver.closeDecoder, Receiver.setStream, he]
  | returned => simp [hpc] at hs

theorem step (h : Locked s) {a : Act} (hs : s.step a = some s') : Locked s' := by
  cases a with
  | tick d => cases hs; exact ⟨h.held, h.one, h.committing⟩
  | setRXContext accept global test => cases hs; exact ⟨h.held, h.one, h.committing⟩
  | openSocket =>
    simp only [Receiver.step] at hs
    split at hs
    · cases hs; exact ⟨h.held, h.one, h.committing⟩
    · cases hs
  | read i pkt =>
    simp only [Receiver.step, Receiver.read] at hs
    split at hs
    · split at hs
      · cases hs; exact h
      · cases hs; exact ⟨h.held, h.one, h.committing⟩
    · cases hs
  | rxVoice i decoder o => exact h.rxVoice hs
  | wake | decodeDone =>
    simp only [Receiver.step] at hs
    split at hs
    · cases hs
      refine ⟨fun hh => h.held (.inr (hh.resolve_left id)), fun hh => absurd hh id,
        fun _ _ _ _ he => by cases he⟩
    · cases hs
  | rxService o => exact h.rxService hs
  | deliver =>
    obtain ⟨-, rxEvents, onRX, deliver, rfl⟩ := Receiver.deliverStep_frame hs
    exact ⟨h.held, h.one, h.committing⟩
  | deliverDone =>
    simp only [Receiver.step] at hs
    split at hs
    · cases hs; exact ⟨h.held, h.one, h.committing⟩
    · cases hs
  | close o => exact h.close hs

end Locked

/-! ## The reports -/

/-- Every transmission begun is reported, but for the one running, and each
report is on its way to `OnRX`. -/
structure Receipts (s : Receiver) : Prop where
  begun : ∀ sid < s.opened, 1 ≤ (s.heap sid).begun ∧
    (s.reports.filter (·.stream = sid)).map (·.n) =
      List.range (if (s.heap sid).ended ∧ s.closer.owes ≠ some sid then (s.heap sid).begun
        else (s.heap sid).begun - 1)
  opened : ∀ r ∈ s.reports, r.stream < s.opened
  todo : ∀ sid ∈ s.closer.todo, sid < s.opened
  owes : ∀ sid, s.closer.owes = some sid → (s.heap sid).ended = true
  filed : ∀ r ∈ s.reports, r.ev.key = (s.heap r.stream).key
  queued : s.reports.Perm
    (s.onRX ++ s.dropped ++ s.rxEvents ++ s.decode.inHand ++ s.closer.inHand)
  counted : s.historyDropped = s.dropped.length
  drained : s.closer.Drained → s.rxEvents = []

namespace Receipts

variable {s s' : Receiver}

theorem init (self : UUID) (historyIdle clock : ℤ) : Receipts (.init self historyIdle clock) where
  begun := fun sid hlt => absurd hlt (Nat.not_lt_zero _)
  opened := by simp [Receiver.init]
  todo := by simp [Receiver.init, ClosePc.todo]
  owes := by simp [Receiver.init, ClosePc.owes]
  filed := by simp [Receiver.init]
  queued := by simp [Receiver.init, DecodePc.inHand, ClosePc.inHand]
  counted := rfl
  drained := by simp [Receiver.init]

theorem frame (h : Receipts s) (hopened : s'.opened = s.opened) (hreports : s'.reports = s.reports)
    (hkey : ∀ sid, (s'.heap sid).key = (s.heap sid).key)
    (hended : ∀ sid, (s'.heap sid).ended = (s.heap sid).ended)
    (hbegun : ∀ sid, (s'.heap sid).begun = (s.heap sid).begun)
    (howes : s'.closer.owes = s.closer.owes) (htodo : ∀ sid ∈ s'.closer.todo, sid < s.opened)
    (hqueued : (s.onRX ++ s.dropped ++ s.rxEvents ++ s.decode.inHand ++ s.closer.inHand).Perm
      (s'.onRX ++ s'.dropped ++ s'.rxEvents ++ s'.decode.inHand ++ s'.closer.inHand))
    (hcounted : s'.historyDropped = s'.dropped.length)
    (hdrained : s'.closer.Drained → s'.rxEvents = []) : Receipts s' where
  begun := fun sid hlt => by
    rw [hopened] at hlt
    rw [hbegun, hended, hreports, howes]
    exact h.begun sid hlt
  opened := fun r hr => by
    rw [hopened]
    exact h.opened r (hreports ▸ hr)
  todo := fun sid hm => hopened ▸ htodo sid hm
  owes := fun sid he => by
    rw [hended]
    exact h.owes sid (howes ▸ he)
  filed := fun r hr => by
    rw [hkey]
    exact h.filed r (hreports ▸ hr)
  queued := hreports ▸ h.queued.trans hqueued
  counted := hcounted
  drained := hdrained

theorem range_append {reports : List Report} {sid begun : ℕ} {ev : RxEvent} (hpos : 1 ≤ begun)
    (h : (reports.filter (·.stream = sid)).map (·.n) = List.range (begun - 1)) :
    ((reports ++ [(⟨sid, begun - 1, ev⟩ : Report)]).filter (·.stream = sid)).map (·.n) =
      List.range begun := by
  obtain ⟨k, rfl⟩ := Nat.exists_eq_add_of_le hpos
  simp only [Nat.add_sub_cancel_left] at h ⊢
  rw [List.filter_append, List.map_append, h]
  simp [Nat.add_comm 1 k, List.range_succ]

theorem filter_append_ne {reports : List Report} {r : Report} {sid : ℕ} (hne : r.stream ≠ sid) :
    (reports ++ [r]).filter (·.stream = sid) = reports.filter (·.stream = sid) := by
  simp [List.filter_append, hne]

theorem reported (h : Receipts s) {t : Receiver} {sid : ℕ} {last : ℤ} (hlt : sid < s.opened)
    (hopen : ¬ ((s.heap sid).ended = true ∧ s.closer.owes ≠ some sid))
    (hopened : t.opened = s.opened) (hreports : t.reports = s.reports ++ [s.report sid last])
    (hkey : ∀ sid, (t.heap sid).key = (s.heap sid).key)
    (hbegun : ∀ sid, (t.heap sid).begun = (s.heap sid).begun)
    (hended : (t.heap sid).ended = true) (howes : t.closer.owes = none)
    (hother : ∀ sid', sid' ≠ sid → (t.heap sid').ended = (s.heap sid').ended ∧
      s.closer.owes ≠ some sid')
    (htodo : ∀ sid ∈ t.closer.todo, sid < s.opened)
    (hqueued : (s.onRX ++ s.dropped ++ s.rxEvents ++ s.decode.inHand ++ s.closer.inHand ++
        [s.report sid last]).Perm
      (t.onRX ++ t.dropped ++ t.rxEvents ++ t.decode.inHand ++ t.closer.inHand))
    (hcounted : t.historyDropped = t.dropped.length)
    (hdrained : t.closer.Drained → t.rxEvents = []) : Receipts t where
  begun := fun sid' hlt' => by
    rw [hopened] at hlt'
    obtain ⟨hpos, hrange⟩ := h.begun sid' hlt'
    rw [hbegun, hreports, howes]
    refine ⟨hpos, ?_⟩
    by_cases he : sid' = sid
    · subst he
      rw [if_neg hopen] at hrange
      rw [if_pos ⟨hended, by simp⟩]
      exact range_append hpos hrange
    · obtain ⟨hsame, hnot⟩ := hother sid' he
      rw [filter_append_ne (Ne.symm he), hrange, hsame]
      simp [hnot]
  opened := fun r hr => by
    rw [hopened]
    rw [hreports] at hr
    rcases List.mem_append.1 hr with hr | hr
    · exact h.opened r hr
    · rw [List.mem_singleton.1 hr]
      exact hlt
  todo := fun sid hm => hopened ▸ htodo sid hm
  owes := fun sid' he => by
    rw [howes] at he
    cases he
  filed := fun r hr => by
    rw [hkey]
    rw [hreports] at hr
    rcases List.mem_append.1 hr with hr | hr
    · exact h.filed r hr
    · rw [List.mem_singleton.1 hr]
      rfl
  queued := hreports ▸ (h.queued.append_right _).trans hqueued
  counted := hcounted
  drained := hdrained

/-- `queueRXEvent` moves the report in hand to the queue or to the dropped ones. -/
theorem queueRXEvent_cases (s : Receiver) (r : Report) :
    (∃ rxEvents, s.queueRXEvent r = { s with rxEvents := rxEvents } ∧
      rxEvents = s.rxEvents ++ [r]) ∨
    s.queueRXEvent r =
      { s with historyDropped := s.historyDropped + 1, dropped := s.dropped ++ [r] } := by
  unfold Receiver.queueRXEvent
  split
  · exact .inl ⟨_, rfl, rfl⟩
  · exact .inr rfl

theorem openStream (h : Receipts s) {key : StreamKey} {at_ : ℤ} {o : IterOrder ℕ} :
    Receipts (s.openStream key at_ o) where
  begun := fun sid hlt => by
    change sid < s.opened + 1 at hlt
    change 1 ≤ ((s.openStream key at_ o).heap sid).begun ∧
      (s.reports.filter (·.stream = sid)).map (·.n) =
        List.range (if ((s.openStream key at_ o).heap sid).ended ∧ s.closer.owes ≠ some sid
          then ((s.openStream key at_ o).heap sid).begun
          else ((s.openStream key at_ o).heap sid).begun - 1)
    rcases Nat.lt_succ_iff_lt_or_eq.1 hlt with hlt | rfl
    · rw [Lifecycle.heap_openStream hlt]
      exact h.begun sid hlt
    · have hnone : s.reports.filter (·.stream = s.opened) = [] := by
        refine List.filter_eq_nil_iff.2 fun r hr => ?_
        have := h.opened r hr
        simp only [decide_eq_true_eq]
        omega
      rw [Lifecycle.heap_openStream_self, hnone]
      simp [newStream]
  opened := fun r hr => (h.opened r hr).trans (Nat.lt_succ_self _)
  todo := fun sid hm => (h.todo sid hm).trans (Nat.lt_succ_self _)
  owes := fun sid he => by
    have hm : sid ∈ s.closer.todo := by
      change s.closer.owes = some sid at he
      cases hpc : s.closer <;> simp_all [ClosePc.owes, ClosePc.todo]
    rw [Lifecycle.heap_openStream (h.todo sid hm)]
    exact h.owes sid he
  filed := fun r hr => by
    rw [Lifecycle.heap_openStream (h.opened r hr)]
    exact h.filed r hr
  queued := h.queued
  counted := h.counted
  drained := h.drained

theorem restarted (h : Receipts s) {sid : ℕ} {at_ : ℤ} (hended : (s.heap sid).ended = true)
    (howes : s.closer.owes = none) :
    Receipts (s.setStream sid
      { s.heap sid with started := at_, ended := false, begun := (s.heap sid).begun + 1 }) where
  begun := fun sid' hlt => by
    obtain ⟨hpos, hrange⟩ := h.begun sid' hlt
    change 1 ≤ (Function.update s.heap sid _ sid').begun ∧
      (s.reports.filter (·.stream = sid')).map (·.n) =
        List.range (if (Function.update s.heap sid _ sid').ended ∧ s.closer.owes ≠ some sid'
          then (Function.update s.heap sid _ sid').begun
          else (Function.update s.heap sid _ sid').begun - 1)
    by_cases he : sid' = sid
    · subst he
      simp only [hended, howes, ne_eq, reduceCtorEq, not_false_eq_true, and_self,
        if_true] at hrange
      simp [hrange]
    · simp only [Function.update_of_ne he]
      exact ⟨hpos, hrange⟩
  opened := h.opened
  todo := h.todo
  owes := fun sid' he => by
    change s.closer.owes = some sid' at he
    rw [howes] at he
    cases he
  filed := fun r hr => by
    have hkey : ∀ st : Stream, st.key = (s.heap sid).key →
        ((s.setStream sid st).heap r.stream).key = (s.heap r.stream).key :=
      fun st hst => Receiver.setStream_proj Stream.key hst r.stream
    exact (h.filed r hr).trans (hkey _ (by rfl)).symm
  queued := h.queued
  counted := h.counted
  drained := h.drained

theorem rxVoice (h : Receipts s) (hlock : Locked s) {i : ℕ} {decoder : Bool} {o : IterOrder ℕ}
    (hs : s.rxVoice i decoder o = some s') : Receipts s' := by
  have hsame : ∀ {t : Receiver}, t.opened = s.opened → t.reports = s.reports →
      (∀ sid, (t.heap sid).key = (s.heap sid).key) →
      (∀ sid, (t.heap sid).ended = (s.heap sid).ended) →
      (∀ sid, (t.heap sid).begun = (s.heap sid).begun) → t.closer = s.closer →
      t.onRX = s.onRX ∧ t.dropped = s.dropped ∧ t.rxEvents = s.rxEvents ∧
        t.decode = s.decode ∧ t.historyDropped = s.historyDropped → Receipts t := by
    intro t hopened hreports hkey hended hbegun hcloser ⟨honrx, hdropped, hrx, hdecode, hcount⟩
    refine h.frame hopened hreports hkey hended hbegun (by rw [hcloser]) (hcloser ▸ h.todo) ?_ ?_ ?_
    · rw [honrx, hdropped, hrx, hdecode, hcloser]
    · rw [hcount, hdropped]
      exact h.counted
    · rw [hcloser, hrx]
      exact h.drained
  have howes : s.mu = false → s.closer.owes = none := by
    intro hmu
    have hnot := (hlock.not_holds_of_free hmu).2
    cases hpc : s.closer <;> simp_all [ClosePc.owes, ClosePc.Holds]
  have hloop : ∀ {t : Receiver} (j : ℕ) (pc : LoopPc) (routed : List Receive.Routed), Receipts t →
      Receipts { t.setLoop j pc with routed := routed } := by
    intro t j pc routed ht
    exact ht.frame rfl rfl (fun _ => rfl) (fun _ => rfl) (fun _ => rfl) rfl ht.todo (.refl _)
      ht.counted ht.drained
  unfold Receiver.rxVoice at hs
  split at hs
  · cases hs
  · split at hs
    · cases hs
    · cases hs
      unfold Receiver.rxStreamFor
      split
      · exact hloop _ _ _ h
      · split
        · exact hloop _ _ s.routed h
        · exact hloop _ _ _ h.openStream
  · cases hs
    exact hsame rfl rfl (Receiver.setStream_proj Stream.key rfl)
      (Receiver.setStream_proj Stream.ended rfl) (Receiver.setStream_proj Stream.begun rfl) rfl
      ⟨rfl, rfl, rfl, rfl, rfl⟩
  · cases hs
    exact hloop _ _ s.routed h
  · split at hs
    · cases hs
    · rename_i hmu
      cases hs
      split
      · exact hloop _ _ s.routed (h.restarted ‹_› (howes (by simpa using hmu)))
      · exact hloop _ _ s.routed h
  · cases hs
    exact hsame rfl rfl (fun _ => rfl) (fun _ => rfl) (fun _ => rfl) rfl ⟨rfl, rfl, rfl, rfl, rfl⟩

theorem rxService (h : Receipts s) (hlife : Lifecycle s) (hlock : Locked s) (hdown : Shutdown s)
    {o : IterOrder ℕ} (hs : s.rxService o = some s') : Receipts s' := by
  -- stages that neither report nor queue
  have hquiet : ∀ {t : Receiver}, t.opened = s.opened → t.reports = s.reports →
      t.heap = s.heap ∨ (∃ sid, t.heap = (s.closeDecoder sid).heap) → t.closer = s.closer →
      t.onRX = s.onRX ∧ t.dropped = s.dropped ∧ t.rxEvents = s.rxEvents ∧
        t.historyDropped = s.historyDropped →
      s.decode.inHand = [] → t.decode.inHand = [] → Receipts t := by
    intro t hopened hreports hheap hcloser ⟨honrx, hdropped, hrx, hcount⟩ hin hout
    have hproj : ∀ {α : Type} (f : Stream → α),
        (∀ st : Stream, ∀ n, f { st with closes := n } = f st) →
        ∀ sid, f (t.heap sid) = f (s.heap sid) := by
      intro α f hf sid
      rcases hheap with hheap | ⟨sid', hheap⟩
      · rw [hheap]
      · rw [hheap]
        exact Receiver.setStream_proj f (hf _ _) sid
    refine h.frame hopened hreports (hproj Stream.key fun _ _ => rfl)
      (hproj Stream.ended fun _ _ => rfl) (hproj Stream.begun fun _ _ => rfl) (by rw [hcloser])
      (hcloser ▸ h.todo) ?_ ?_ ?_
    · rw [honrx, hdropped, hrx, hin, hout, hcloser]
    · rw [hcount, hdropped]
      exact h.counted
    · rw [hcloser, hrx]
      exact h.drained
  unfold Receiver.rxService at hs
  cases hpc : s.decode with
  | parked | exited => simp [hpc] at hs
  | serving w =>
    simp only [hpc] at hs
    split at hs
    all_goals
      cases hs
      exact hquiet rfl rfl (.inl rfl) rfl ⟨rfl, rfl, rfl, rfl⟩ (by rw [hpc]; rfl) rfl
  | topUp w sid =>
    simp only [hpc, Option.some.injEq] at hs
    subst hs
    exact hquiet rfl rfl (.inl rfl) rfl ⟨rfl, rfl, rfl, rfl⟩ (by rw [hpc]; rfl) rfl
  | seen w sid last =>
    simp only [hpc] at hs
    split at hs
    all_goals
      cases hs
      exact hquiet rfl rfl (.inl rfl) rfl ⟨rfl, rfl, rfl, rfl⟩ (by rw [hpc]; rfl) rfl
  | ending w sid last =>
    simp only [hpc, Receiver.endTransmission] at hs
    repeat' split at hs
    all_goals
      cases hs
      try exact hquiet rfl rfl (.inl rfl) rfl ⟨rfl, rfl, rfl, rfl⟩ (by rw [hpc]; rfl) rfl
  | committing w sid last read =>
    simp only [hpc, Option.some.injEq] at hs
    subst hs
    have hopen := hlock.committing w sid last read hpc
    have hnot : ¬ s.closer.Holds := hlock.one (hpc ▸ trivial)
    have howes : s.closer.owes = none := by
      cases hcl : s.closer <;> simp_all [ClosePc.owes, ClosePc.Holds]
    have htodo : s.closer.todo = [] := by
      cases hcl : s.closer <;> simp_all [ClosePc.todo, ClosePc.Holds]
    have hlive : s.Live sid := hlife.inUse sid (by rw [hpc]; exact List.mem_cons_self)
    refine h.reported (hlife.filed _ _ hlive).1 (by simp [hopen]) rfl rfl
      (Receiver.setStream_proj Stream.key rfl) (Receiver.setStream_proj Stream.begun rfl)
      (by simp [Receiver.setStream]) howes (fun sid' hne => ⟨?_, by simp [howes]⟩)
      (fun sid' hm => ?_) ?_ h.counted h.drained
    · simp [Receiver.setStream, hne]
    · change sid' ∈ s.closer.todo at hm
      rw [htodo] at hm
      cases hm
    · change (s.onRX ++ s.dropped ++ s.rxEvents ++ s.decode.inHand ++ s.closer.inHand ++
        [s.report sid read]).Perm
        (s.onRX ++ s.dropped ++ s.rxEvents ++ [s.report sid read] ++ s.closer.inHand)
      rw [hpc]
      refine List.perm_iff_count.2 fun x => ?_
      simp only [DecodePc.inHand, List.count_append, List.count_nil]
      omega
  | queueing w sid last r =>
    simp only [hpc, Option.some.injEq] at hs
    subst hs
    have hnot : ¬ s.closer.Past := hdown.not_past_of_decode (by simp [hpc])
    have hdrained : ¬ s.closer.Drained := fun hd =>
      hnot (by cases hcl : s.closer <;> simp_all [ClosePc.Drained, ClosePc.Past])
    rcases queueRXEvent_cases s r with ⟨rxEvents, he, hrx⟩ | he
    · rw [he]
      refine h.frame rfl rfl (fun _ => rfl) (fun _ => rfl) (fun _ => rfl) rfl h.todo ?_ h.counted
        fun hd => absurd hd hdrained
      change List.Perm _ (s.onRX ++ s.dropped ++ rxEvents ++ [] ++ s.closer.inHand)
      rw [hpc, hrx]
      simp [DecodePc.inHand]
    · rw [he]
      refine h.frame rfl rfl (fun _ => rfl) (fun _ => rfl) (fun _ => rfl) rfl h.todo ?_ ?_
        fun hd => absurd hd hdrained
      · change List.Perm _ (s.onRX ++ (s.dropped ++ [r]) ++ s.rxEvents ++ [] ++ s.closer.inHand)
        rw [hpc]
        refine List.perm_iff_count.2 fun x => ?_
        simp only [DecodePc.inHand, List.count_append, List.count_nil]
        omega
      · simp [h.counted]
  | reaping w =>
    simp only [hpc, Receiver.reap] at hs
    repeat' split at hs
    all_goals
      cases hs
      try exact hquiet rfl rfl (.inl rfl) rfl ⟨rfl, rfl, rfl, rfl⟩ (by rw [hpc]; rfl) rfl
  | removing w sid =>
    simp only [hpc, Option.some.injEq] at hs
    subst hs
    exact hquiet rfl rfl (.inl rfl) rfl ⟨rfl, rfl, rfl, rfl⟩ (by rw [hpc]; rfl) rfl
  | closing w sid =>
    simp only [hpc, Option.some.injEq] at hs
    subst hs
    exact hquiet rfl rfl (.inr ⟨sid, rfl⟩) rfl ⟨rfl, rfl, rfl, rfl⟩ (by rw [hpc]; rfl) rfl

theorem marked (h : Receipts s) {sid : ℕ} {pc : ClosePc} (hnone : s.closer.owes = none)
    (hlt : sid < s.opened) (hopen : (s.heap sid).ended = false) (howes : pc.owes = some sid)
    (htodo : ∀ sid' ∈ pc.todo, sid' < s.opened) (hin : pc.inHand = s.closer.inHand)
    (hnot : ¬ pc.Drained) :
    Receipts { s.setStream sid { s.heap sid with ended := true } with closer := pc } where
  begun := fun sid' hlt' => by
    obtain ⟨hpos, hrange⟩ := h.begun sid' hlt'
    change 1 ≤ (Function.update s.heap sid _ sid').begun ∧
      (s.reports.filter (·.stream = sid')).map (·.n) =
        List.range (if (Function.update s.heap sid _ sid').ended ∧ pc.owes ≠ some sid'
          then (Function.update s.heap sid _ sid').begun
          else (Function.update s.heap sid _ sid').begun - 1)
    by_cases he : sid' = sid
    · subst he
      simp only [hopen, Bool.false_eq_true, false_and, if_false] at hrange
      simpa [howes] using ⟨hpos, hrange⟩
    · simp only [Function.update_of_ne he, howes, Option.some.injEq, Ne.symm he, ne_eq,
        not_false_eq_true, and_true]
      simp only [hnone, ne_eq, reduceCtorEq, not_false_eq_true, and_true] at hrange
      exact ⟨hpos, hrange⟩
  opened := h.opened
  todo := htodo
  owes := fun sid' he => by
    change pc.owes = some sid' at he
    rw [howes, Option.some.injEq] at he
    subst he
    simp [Receiver.setStream]
  filed := fun r hr => by
    have hkey : ∀ st : Stream, st.key = (s.heap sid).key →
        ((s.setStream sid st).heap r.stream).key = (s.heap r.stream).key :=
      fun st hst => Receiver.setStream_proj Stream.key hst r.stream
    change r.ev.key = ((s.setStream sid _).heap r.stream).key
    exact (h.filed r hr).trans (hkey _ (by rfl)).symm
  queued := by
    change s.reports.Perm (s.onRX ++ s.dropped ++ s.rxEvents ++ s.decode.inHand ++ pc.inHand)
    rw [hin]
    exact h.queued
  counted := h.counted
  drained := fun hd => absurd hd hnot

theorem close (h : Receipts s) (hlife : Lifecycle s) {o : IterOrder ℕ}
    (hs : s.close o = some s') : Receipts s' := by
  -- stages that neither report nor queue
  have hquiet : ∀ {t : Receiver}, t.opened = s.opened → t.reports = s.reports →
      (∀ sid, (t.heap sid).key = (s.heap sid).key) →
      (∀ sid, (t.heap sid).ended = (s.heap sid).ended) →
      (∀ sid, (t.heap sid).begun = (s.heap sid).begun) → t.decode = s.decode →
      t.onRX = s.onRX ∧ t.dropped = s.dropped ∧ t.rxEvents = s.rxEvents ∧
        t.historyDropped = s.historyDropped →
      t.closer.owes = s.closer.owes → (∀ sid ∈ t.closer.todo, sid < s.opened) →
      t.closer.inHand = s.closer.inHand → (t.closer.Drained → s.rxEvents = []) →
      Receipts t := by
    intro t hopened hreports hkey hended hbegun hdecode ⟨honrx, hdropped, hrx, hcount⟩ howes htodo
      hin hdrained
    refine h.frame hopened hreports hkey hended hbegun howes htodo ?_ ?_ (hrx ▸ hdrained)
    · rw [honrx, hdropped, hrx, hdecode, hin]
    · rw [hcount, hdropped]
      exact h.counted
  unfold Receiver.close at hs
  cases hpc : s.closer with
  | uncalled | stopping | hangingUp =>
    simp only [hpc, Option.some.injEq] at hs
    subst hs
    exact hquiet rfl rfl (fun _ => rfl) (fun _ => rfl) (fun _ => rfl) rfl ⟨rfl, rfl, rfl, rfl⟩
      (by rw [hpc]; rfl) (fun _ hm => absurd hm List.not_mem_nil) (by rw [hpc]; rfl)
      fun hd => absurd hd id
  | said =>
    simp only [hpc] at hs
    split at hs
    · cases hs
    · cases hs
      refine hquiet rfl rfl (fun _ => rfl) (fun _ => rfl) (fun _ => rfl) rfl ⟨rfl, rfl, rfl, rfl⟩
        (by rw [hpc]; rfl) (fun sid hm => ?_) (by rw [hpc]; rfl) fun hd => absurd hd id
      exact (hlife.filed _ _ (hlife.mem_values.1 ((o.perm _).subset hm))).1
  | ending todo pending =>
    have htodo := h.todo
    simp only [hpc] at hs htodo
    split at hs
    · cases hs
      exact hquiet rfl rfl (fun _ => rfl) (fun _ => rfl) (fun _ => rfl) rfl ⟨rfl, rfl, rfl, rfl⟩
        (by rw [hpc]; rfl) (fun _ hm => absurd hm List.not_mem_nil) (by rw [hpc]; rfl)
        fun hd => absurd hd id
    · rename_i sid todo
      split at hs
      · cases hs
        exact hquiet rfl rfl (fun _ => rfl) (fun _ => rfl) (fun _ => rfl) rfl ⟨rfl, rfl, rfl, rfl⟩
          (by rw [hpc]; rfl) (fun sid' hm => htodo sid' (List.mem_cons_of_mem _ hm))
          (by rw [hpc]; rfl) fun hd => absurd hd id
      · rename_i hopen
        cases hs
        exact h.marked (by rw [hpc]; rfl) (htodo sid List.mem_cons_self) (by simpa using hopen) rfl
          (fun sid' hm => htodo sid' hm) (by rw [hpc]; rfl) id
  | loading sid todo pending =>
    simp only [hpc, Option.some.injEq] at hs
    subst hs
    have howes : s.closer.owes = some sid := by rw [hpc]; rfl
    have htodo := h.todo
    rw [hpc] at htodo
    refine h.reported (htodo sid List.mem_cons_self) (by simp [howes]) rfl rfl (fun _ => rfl)
      (fun _ => rfl) (h.owes sid howes) rfl
      (fun sid' hne => ⟨rfl, by simp [howes, Ne.symm hne]⟩)
      (fun sid' hm => htodo sid' (List.mem_cons_of_mem _ hm)) ?_ h.counted fun hd => absurd hd id
    rw [hpc]
    refine List.perm_iff_count.2 fun x => ?_
    simp only [ClosePc.inHand, List.count_append]
    omega
  | queueing pending =>
    simp only [hpc] at hs
    split at hs
    · cases hs
      exact hquiet rfl rfl (fun _ => rfl) (fun _ => rfl) (fun _ => rfl) rfl ⟨rfl, rfl, rfl, rfl⟩
        (by rw [hpc]; rfl) (fun _ hm => absurd hm List.not_mem_nil) (by rw [hpc]; rfl)
        fun hd => absurd hd id
    · rename_i r rest
      cases hs
      rcases queueRXEvent_cases s r with ⟨rxEvents, he, hrx⟩ | he
      · rw [he]
        refine h.frame rfl rfl (fun _ => rfl) (fun _ => rfl) (fun _ => rfl) (by rw [hpc]; rfl)
          (fun _ hm => absurd hm List.not_mem_nil) ?_ h.counted fun hd => absurd hd id
        rw [hpc, hrx]
        refine List.perm_iff_count.2 fun x => ?_
        simp only [ClosePc.inHand, List.count_append, List.count_nil, List.count_cons]
        omega
      · rw [he]
        refine h.frame rfl rfl (fun _ => rfl) (fun _ => rfl) (fun _ => rfl) (by rw [hpc]; rfl)
          (fun _ hm => absurd hm List.not_mem_nil) ?_ (by simp [h.counted]) fun hd => absurd hd id
        rw [hpc]
        refine List.perm_iff_count.2 fun x => ?_
        simp only [ClosePc.inHand, List.count_append, List.count_nil, List.count_cons]
        omega
  | joining =>
    simp only [hpc] at hs
    split at hs
    · cases hs
      exact hquiet rfl rfl (fun _ => rfl) (fun _ => rfl) (fun _ => rfl) rfl ⟨rfl, rfl, rfl, rfl⟩
        (by rw [hpc]; rfl) (fun _ hm => absurd hm List.not_mem_nil) (by rw [hpc]; rfl)
        fun hd => absurd hd id
    · cases hs
  | draining =>
    simp only [hpc] at hs
    split at hs
    · rename_i hrx
      cases hs
      exact hquiet rfl rfl (fun _ => rfl) (fun _ => rfl) (fun _ => rfl) rfl ⟨rfl, rfl, rfl, rfl⟩
        (by rw [hpc]; rfl) (fun _ hm => absurd hm List.not_mem_nil) (by rw [hpc]; rfl)
        fun _ => hrx
    · rename_i r rest hrx
      cases hs
      refine h.frame rfl rfl (fun _ => rfl) (fun _ => rfl) (fun _ => rfl) (by rw [hpc]; rfl)
        (fun _ hm => absurd hm List.not_mem_nil) ?_ h.counted fun hd => absurd hd id
      rw [hpc, hrx]
      refine List.perm_iff_count.2 fun x => ?_
      simp only [ClosePc.inHand, List.count_append, List.count_nil, List.count_cons]
      omega
  | calling =>
    simp only [hpc, Option.some.injEq] at hs
    subst hs
    exact hquiet rfl rfl (fun _ => rfl) (fun _ => rfl) (fun _ => rfl) rfl ⟨rfl, rfl, rfl, rfl⟩
      (by rw [hpc]; rfl) (fun _ hm => absurd hm List.not_mem_nil) (by rw [hpc]; rfl)
      fun hd => absurd hd id
  | releasing =>
    have hrx : s.rxEvents = [] := h.drained (hpc ▸ trivial)
    simp only [hpc] at hs
    split at hs
    · cases hs
    · cases hs
      exact hquiet rfl rfl (fun _ => rfl) (fun _ => rfl) (fun _ => rfl) rfl ⟨rfl, rfl, rfl, rfl⟩
        (by rw [hpc]; rfl) (fun _ hm => absurd hm List.not_mem_nil) (by rw [hpc]; rfl)
        fun _ => hrx
  | freeing sids =>
    have hrx : s.rxEvents = [] := h.drained (hpc ▸ trivial)
    simp only [hpc] at hs
    split at hs
    · cases hs
      exact hquiet rfl rfl (fun _ => rfl) (fun _ => rfl) (fun _ => rfl) rfl ⟨rfl, rfl, rfl, rfl⟩
        (by rw [hpc]; rfl) (fun _ hm => absurd hm List.not_mem_nil) (by rw [hpc]; rfl)
        fun _ => hrx
    · cases hs
      exact hquiet rfl rfl (Receiver.setStream_proj Stream.key rfl)
        (Receiver.setStream_proj Stream.ended rfl) (Receiver.setStream_proj Stream.begun rfl) rfl
        ⟨rfl, rfl, rfl, rfl⟩ (by rw [hpc]; rfl) (fun _ hm => absurd hm List.not_mem_nil)
        (by rw [hpc]; rfl) fun _ => hrx
  | returned => simp [hpc] at hs

theorem step (h : Receipts s) (hlife : Lifecycle s) (hlock : Locked s) (hdown : Shutdown s)
    {a : Act} (hs : s.step a = some s') : Receipts s' := by
  cases a with
  | tick d => cases hs; exact { h with }
  | setRXContext accept global test => cases hs; exact { h with }
  | openSocket =>
    simp only [Receiver.step] at hs
    split at hs
    · cases hs; exact { h with }
    · cases hs
  | read i pkt =>
    simp only [Receiver.step, Receiver.read] at hs
    split at hs
    · split at hs
      · cases hs; exact h
      · cases hs; exact { h with }
    · cases hs
  | rxVoice i decoder o => exact h.rxVoice hlock hs
  | wake | decodeDone =>
    simp only [Receiver.step] at hs
    split at hs
    · rename_i hparked
      cases hs
      refine h.frame rfl rfl (fun _ => rfl) (fun _ => rfl) (fun _ => rfl) rfl h.todo ?_ h.counted
        h.drained
      have : s.decode.inHand = [] := by simp_all [DecodePc.inHand]
      rw [this]
      exact .refl _
    · cases hs
  | rxService o => exact h.rxService hlife hlock hdown hs
  | deliver =>
    simp only [Receiver.step, Receiver.deliverStep] at hs
    repeat' split at hs
    all_goals cases hs
    · exact { h with }
    · rename_i hrx
      refine h.frame rfl rfl (fun _ => rfl) (fun _ => rfl) (fun _ => rfl) rfl h.todo ?_ h.counted
        fun hd => by simp [h.drained hd] at hrx
      rw [hrx]
      refine List.perm_iff_count.2 fun x => ?_
      simp only [List.count_append, List.count_nil, List.count_cons]
      omega
    · exact { h with }
  | deliverDone =>
    simp only [Receiver.step] at hs
    split at hs
    · cases hs; exact { h with }
    · cases hs
  | close o => exact h.close hlife hs

end Receipts

/-- Reports that are numbered apart within each stream are numbered apart. -/
theorem nodup_numbers {reports : List Report}
    (h : ∀ sid, ((reports.filter (·.stream = sid)).map (·.n)).Nodup) :
    (reports.map fun r => (r.stream, r.n)).Nodup := by
  induction reports with
  | nil => exact .nil
  | cons r reports ih =>
    rw [List.map_cons, List.nodup_cons]
    refine ⟨fun hm => ?_, ih fun sid => ?_⟩
    · obtain ⟨r', hr', he⟩ := List.mem_map.1 hm
      obtain ⟨hstream, hn⟩ := Prod.mk.inj he
      have := h r.stream
      rw [List.filter_cons_of_pos (by simp), List.map_cons, List.nodup_cons] at this
      exact this.1 (List.mem_map.2 ⟨r', List.mem_filter.2 ⟨hr', by simpa using hstream⟩, hn⟩)
    · by_cases hs : r.stream = sid
      · have := h sid
        rw [List.filter_cons_of_pos (by simpa using hs), List.map_cons, List.nodup_cons] at this
        exact this.2
      · have := h sid
        rwa [List.filter_cons_of_neg (by simpa using hs)] at this

theorem Receipts.nodup {s : Receiver} (h : Receipts s) :
    (s.reports.map fun r => (r.stream, r.n)).Nodup := by
  refine nodup_numbers fun sid => ?_
  by_cases hlt : sid < s.opened
  · rw [(h.begun sid hlt).2]
    exact List.nodup_range
  · have : s.reports.filter (·.stream = sid) = [] := by
      refine List.filter_eq_nil_iff.2 fun r hr => ?_
      have := h.opened r hr
      simp only [decide_eq_true_eq]
      omega
    rw [this]
    exact .nil

/-- What the goroutines keep in every run. -/
structure Kept (s : Receiver) : Prop where
  life : Lifecycle s
  down : Shutdown s
  lock : Locked s
  receipts : Receipts s

theorem Kept.init (self : UUID) (historyIdle clock : ℤ) : Kept (.init self historyIdle clock) :=
  ⟨.init self historyIdle clock, .init self historyIdle clock, .init self historyIdle clock,
    .init self historyIdle clock⟩

theorem Kept.step {s s' : Receiver} {a : Act} (h : Kept s) (hs : s.step a = some s') : Kept s' :=
  ⟨h.life.step h.down hs, h.down.step hs, h.lock.step hs,
    h.receipts.step h.life h.lock h.down hs⟩

end VcsClient.Voice
