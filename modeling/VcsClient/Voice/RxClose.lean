import VcsClient.Voice.RxReports

/-!
# Reporting every reception, also at `Close`

That every packet lies in a reported transmission is more than `Receipts`
says, since the receive loops stamp a stream without the lock (`Undisturbed`):
a loop that is overtaken by the end of its stream's transmission, or that routes
a packet when `Close` has already ended the open streams, has its packet lost.
`Covered` says where a packet is accounted for: in a report, in the running
transmission, or with a loop that is still entering its stream.
-/

namespace VcsClient.Voice

open VcsClient.Lib Receive

namespace Receive

/-- The packet of a loop that has looked up its stream and not settled yet
whether it restarts a transmission. -/
def LoopPc.entering : LoopPc → Option Receive.Routed
  | .stamp sid at_ | .load sid at_ | .restart sid at_ => some ⟨sid, at_⟩
  | _ => none

/-- `Close` has not begun to end the open streams. -/
def ClosePc.Before : ClosePc → Prop
  | .uncalled | .said => True
  | _ => False

instance : DecidablePred ClosePc.Before := fun pc =>
  match pc with
  | .uncalled | .said => .isTrue trivial
  | .ending _ _ | .loading _ _ _ | .queueing _ | .stopping | .hangingUp | .joining | .draining
  | .calling | .releasing | .freeing _ | .returned => .isFalse id

end Receive

namespace Receiver

/-- No receive loop is entering the stream. -/
def Unentered (s : Receiver) (sid : ℕ) : Prop :=
  ∀ i < s.spawned, ∀ r ∈ (s.loops i).entering, r.stream ≠ sid

instance (s : Receiver) (sid : ℕ) : Decidable (s.Unentered sid) :=
  inferInstanceAs (Decidable (∀ i < s.spawned, ∀ r ∈ (s.loops i).entering, r.stream ≠ sid))

/-- A report of the packet's stream spans its arrival. -/
def Reported (s : Receiver) (r : Receive.Routed) : Prop :=
  ∃ p ∈ s.reports, p.stream = r.stream ∧ p.ev.Holds r.at_

/-- The running transmission of the packet's stream, or the one `Close` is
about to report, spans its arrival. -/
def Running (s : Receiver) (r : Receive.Routed) : Prop :=
  ((s.heap r.stream).ended = false ∨ s.closer.owes = some r.stream) ∧
    (s.heap r.stream).started ≤ r.at_ ∧ r.at_ ≤ (s.heap r.stream).lastSeen

end Receiver

namespace Receiver

/-- Packets of a stream are taken one after the other in the order they
arrived, and none once `Close` ends the open streams. -/
def MayEnter (s : Receiver) : LoopPc → Prop
  | .lookup key at_ => s.closer.Before ∧
      ∀ sid ∈ s.streams.lookup key, (s.heap sid).lastSeen ≤ at_ ∧ s.Unentered sid
  | _ => True

instance (s : Receiver) : DecidablePred s.MayEnter
  | .lookup key at_ => inferInstanceAs (Decidable (s.closer.Before ∧
      ∀ sid ∈ s.streams.lookup key, (s.heap sid).lastSeen ≤ at_ ∧ s.Unentered sid))
  | .reading | .stamp _ _ | .load _ _ | .restart _ _ | .push _ _ => .isTrue trivial

/-- A transmission is ended with the last packet stamped, or before the loop
that stamped a later one looks; and a stream is removed when it is ended and no
loop is entering it. -/
def MayEnd (s : Receiver) : DecodePc → Prop
  | .committing _ sid _ read => (s.heap sid).lastSeen = read ∨
      ∃ i < s.spawned, s.loops i = .load sid (s.heap sid).lastSeen
  | .removing _ sid => (s.heap sid).ended = true ∧ s.Unentered sid
  | _ => True

instance (s : Receiver) : DecidablePred s.MayEnd
  | .committing _ sid _ read => inferInstanceAs (Decidable ((s.heap sid).lastSeen = read ∨
      ∃ i < s.spawned, s.loops i = .load sid (s.heap sid).lastSeen))
  | .removing _ sid =>
    inferInstanceAs (Decidable ((s.heap sid).ended = true ∧ s.Unentered sid))
  | .parked | .serving _ | .topUp _ _ | .seen _ _ _ | .ending _ _ _ | .queueing _ _ _ _
  | .reaping _ | .closing _ _ | .exited => .isTrue trivial

/-- `Close` ends the open streams when no loop is entering one. -/
def MayClose (s : Receiver) : Prop :=
  s.closer = .said → ∀ i < s.spawned, (s.loops i).entering = none

instance (s : Receiver) : Decidable s.MayClose :=
  inferInstanceAs (Decidable (s.closer = .said → ∀ i < s.spawned, (s.loops i).entering = none))

end Receiver

/-- Nothing overtakes a receive loop that is entering a stream. -/
def Undisturbed (s : Receiver) : Act → Prop
  | .rxVoice i _ _ => s.MayEnter (s.loops i)
  | .rxService _ => s.MayEnd s.decode
  | .close _ => s.MayClose
  | _ => True

instance (s : Receiver) : DecidablePred (Undisturbed s)
  | .rxVoice i _ _ => inferInstanceAs (Decidable (s.MayEnter (s.loops i)))
  | .rxService _ => inferInstanceAs (Decidable (s.MayEnd s.decode))
  | .close _ => inferInstanceAs (Decidable s.MayClose)
  | .tick _ | .setRXContext _ _ _ | .openSocket | .read _ _ | .wake | .decodeDone | .deliver
  | .deliverDone => .isTrue trivial

/-- Where the packets that reached a stream are accounted for. -/
structure Covered (s : Receiver) : Prop where
  unique : ∀ i j r r', (s.loops i).entering = some r → (s.loops j).entering = some r' →
    r.stream = r'.stream → i = j
  live : ∀ i r, (s.loops i).entering = some r → s.Live r.stream
  stamp : ∀ i sid at_, s.loops i = .stamp sid at_ → (s.heap sid).lastSeen ≤ at_
  load : ∀ i sid at_, s.loops i = .load sid at_ → (s.heap sid).lastSeen = at_
  restart : ∀ i sid at_, s.loops i = .restart sid at_ →
    (s.heap sid).lastSeen = at_ ∧ (s.heap sid).ended = true
  started : ∀ sid < s.opened, (s.heap sid).ended = false →
    (s.heap sid).started ≤ (s.heap sid).lastSeen
  removed : ∀ sid < s.opened, ¬ s.Live sid → (s.heap sid).ended = true
  shut : ¬ s.closer.Before → ∀ i, (s.loops i).entering = none
  ended : ¬ s.closer.Before → ∀ sid < s.opened, (s.heap sid).ended = true ∨ sid ∈ s.closer.todo
  routed : ∀ r ∈ s.routed, r.stream < s.opened ∧
    (s.Reported r ∨ s.Running r ∨ ∃ i, (s.loops i).entering = some r)
  committing : ∀ w sid last read, s.decode = .committing w sid last read →
    ∀ r ∈ s.routed, r.stream = sid → s.Reported r ∨
      ((s.heap sid).started ≤ r.at_ ∧ r.at_ ≤ read) ∨
      (∃ i, s.loops i = .stamp r.stream r.at_ ∨ s.loops i = .load r.stream r.at_) ∨
      (s.heap sid).lastSeen ≠ read ∧ ∀ i, ∀ r' ∈ (s.loops i).entering, r'.stream ≠ sid

namespace Covered

variable {s s' : Receiver}

theorem init (self : UUID) (historyIdle clock : ℤ) : Covered (.init self historyIdle clock) where
  unique := fun _ _ _ _ he => by cases he
  live := fun _ _ he => by cases he
  stamp := fun _ _ _ he => by cases he
  load := fun _ _ _ he => by cases he
  restart := fun _ _ _ he => by cases he
  started := fun _ hlt => absurd hlt (Nat.not_lt_zero _)
  removed := fun _ hlt => absurd hlt (Nat.not_lt_zero _)
  shut := fun hno => absurd trivial hno
  ended := fun hno => absurd trivial hno
  routed := by simp [Receiver.init]
  committing := fun _ _ _ _ he => by cases he

theorem frame (h : Covered s) (hloops : s'.loops = s.loops) (hopened : s'.opened = s.opened)
    (hrouted : s'.routed = s.routed) (hreports : s.reports ⊆ s'.reports)
    (hlive : ∀ sid, s'.Live sid ↔ s.Live sid)
    (hlast : ∀ sid, (s'.heap sid).lastSeen = (s.heap sid).lastSeen)
    (hstarted : ∀ sid, (s'.heap sid).started = (s.heap sid).started)
    (hended : ∀ sid, (s'.heap sid).ended = (s.heap sid).ended)
    (hshut : ¬ s'.closer.Before → ∀ i, (s.loops i).entering = none)
    (hall : ¬ s'.closer.Before → ∀ sid < s.opened,
      (s.heap sid).ended = true ∨ sid ∈ s'.closer.todo)
    (howes : ∀ r ∈ s.routed, s.closer.owes = some r.stream → s.Running r →
      s'.closer.owes = some r.stream ∨ s'.Reported r)
    (hdec : ∀ w sid last read, s'.decode = .committing w sid last read →
      s.decode = .committing w sid last read) : Covered s' where
  unique := by rw [hloops]; exact h.unique
  live := fun i r he => (hlive _).2 (h.live i r (hloops ▸ he))
  stamp := fun i sid at_ he => by rw [hlast]; exact h.stamp i sid at_ (hloops ▸ he)
  load := fun i sid at_ he => by rw [hlast]; exact h.load i sid at_ (hloops ▸ he)
  restart := fun i sid at_ he => by rw [hlast, hended]; exact h.restart i sid at_ (hloops ▸ he)
  started := fun sid hlt he => by
    rw [hstarted, hlast]
    exact h.started sid (hopened ▸ hlt) (hended sid ▸ he)
  removed := fun sid hlt hdead => by
    rw [hended]
    exact h.removed sid (hopened ▸ hlt) fun hl => hdead ((hlive sid).2 hl)
  shut := by rw [hloops]; exact hshut
  ended := fun hno sid hlt => by
    rw [hended]
    exact hall hno sid (hopened ▸ hlt)
  routed := fun r hr => by
    rw [hrouted] at hr
    rw [hopened, hloops]
    obtain ⟨hlt, hcov⟩ := h.routed r hr
    refine ⟨hlt, ?_⟩
    rcases hcov with ⟨p, hp, hcov⟩ | hrun | hent
    · exact .inl ⟨p, hreports hp, hcov⟩
    · have hrun' := hrun
      obtain ⟨hopen | howe, hspan⟩ := hrun
      · refine .inr (.inl ?_)
        unfold Receiver.Running
        rw [hended, hstarted, hlast]
        exact ⟨.inl hopen, hspan⟩
      · rcases howes r hr howe hrun' with howe | hrep
        · refine .inr (.inl ?_)
          unfold Receiver.Running
          rw [hended, hstarted, hlast]
          exact ⟨.inr howe, hspan⟩
        · exact .inl hrep
    · exact .inr (.inr hent)
  committing := fun w sid last read he r hr hsid => by
    rw [hrouted] at hr
    rw [hloops, hlast, hstarted]
    rcases h.committing w sid last read (hdec w sid last read he) r hr hsid with
      ⟨p, hp, hcov⟩ | hrest
    · exact .inl ⟨p, hreports hp, hcov⟩
    · exact .inr hrest

theorem before_of_entering (h : Covered s) {i : ℕ} {r : Receive.Routed}
    (he : (s.loops i).entering = some r) : s.closer.Before := by
  by_contra hno
  rw [h.shut hno i] at he
  cases he

theorem owes_of_before (hb : s.closer.Before) : s.closer.owes = none := by
  cases hpc : s.closer <;> simp_all [ClosePc.Before, ClosePc.owes]

/-- No loop enters the stream, also among those not started yet. -/
theorem unentered (hdown : Shutdown s) {sid : ℕ} (hno : s.Unentered sid) (i : ℕ) :
    ∀ r ∈ (s.loops i).entering, r.stream ≠ sid := by
  by_cases hi : i < s.spawned
  · exact hno i hi
  · rw [hdown.idle i (not_lt.1 hi)]
    intro r hr
    cases hr

/-- A receive loop turns to a stage in which it enters no stream, from one in
which it entered none or the stream is known to be running. -/
theorem leave (h : Covered s) {i : ℕ} {pc : LoopPc} (hpc : pc.entering = none)
    (hheld : ∀ r, (s.loops i).entering = some r → ∃ at_, s.loops i = .load r.stream at_ ∧
      r.at_ = at_ ∧ (s.heap r.stream).ended = false) : Covered (s.setLoop i pc) := by
  have hold : ∀ {j r}, ((s.setLoop i pc).loops j).entering = some r →
      j ≠ i ∧ (s.loops j).entering = some r := by
    intro j r he
    by_cases hj : j = i
    · subst hj
      simp [Receiver.setLoop, hpc] at he
    · simp only [Receiver.setLoop, Function.update_of_ne hj] at he
      exact ⟨hj, he⟩
  have hpc' : ∀ {j pc'}, (s.setLoop i pc).loops j = pc' → pc'.entering ≠ none →
      s.loops j = pc' := by
    intro j pc' he hne
    by_cases hj : j = i
    · subst hj
      simp only [Receiver.setLoop, Function.update_self] at he
      exact absurd (he ▸ hpc) hne
    · simpa only [Receiver.setLoop, Function.update_of_ne hj] using he
  have hkeep : ∀ {j}, j ≠ i → (s.setLoop i pc).loops j = s.loops j :=
    fun hj => Function.update_of_ne hj _ _
  -- the packet of the loop that left is in the running transmission
  have hleft : ∀ r, r.stream < s.opened → (s.loops i).entering = some r → s.Running r := by
    intro r hlt he
    obtain ⟨at_, hload, hat, hopen⟩ := hheld r he
    have hlast := h.load i r.stream at_ hload
    have := h.started r.stream hlt hopen
    exact ⟨.inl hopen, by omega, by omega⟩
  exact {
    unique := fun j k r r' hj hk => h.unique j k r r' (hold hj).2 (hold hk).2
    live := fun j r hj => h.live j r (hold hj).2
    stamp := fun j sid at_ he => h.stamp j sid at_ (hpc' he (by simp [LoopPc.entering]))
    load := fun j sid at_ he => h.load j sid at_ (hpc' he (by simp [LoopPc.entering]))
    restart := fun j sid at_ he => h.restart j sid at_ (hpc' he (by simp [LoopPc.entering]))
    started := h.started
    removed := h.removed
    shut := fun hno j => by
      cases he : ((s.setLoop i pc).loops j).entering with
      | none => rfl
      | some r => rw [← (hold he).2, h.shut hno j]
    ended := h.ended
    routed := fun r hr => by
      obtain ⟨hlt, hcov⟩ := h.routed r hr
      refine ⟨hlt, ?_⟩
      rcases hcov with hrep | hrun | ⟨j, he⟩
      · exact .inl hrep
      · exact .inr (.inl hrun)
      · by_cases hj : j = i
        · exact .inr (.inl (hleft r hlt (hj ▸ he)))
        · exact .inr (.inr ⟨j, by rw [hkeep hj]; exact he⟩)
    committing := fun w sid last read he r hr hsid => by
      change s.decode = _ at he
      rcases h.committing w sid last read he r hr hsid with hrep | hspan | ⟨j, hj⟩ | ⟨hne, hall⟩
      · exact .inl hrep
      · exact .inr (.inl hspan)
      · by_cases hji : j = i
        · subst hji
          have hent : (s.loops j).entering = some r := by
            rcases hj with hj | hj <;> rw [hj] <;> rfl
          have hrun := hleft r (h.routed r hr).1 hent
          obtain ⟨-, hst, hla⟩ := hrun
          rw [hsid] at hst hla
          by_cases hread : (s.heap sid).lastSeen = read
          · exact .inr (.inl ⟨hst, hread ▸ hla⟩)
          · refine .inr (.inr (.inr ⟨hread, fun k r' hk hs => ?_⟩))
            obtain ⟨hne, hk⟩ := hold hk
            exact hne (h.unique k j r' r hk hent (hs.trans hsid.symm))
        · exact .inr (.inr (.inl ⟨j, by rw [hkeep hji]; exact hj⟩))
      · exact .inr (.inr (.inr ⟨hne, fun k r' hk => hall k r' (hold hk).2⟩)) }

theorem not_committing (hlock : Locked s) (hmu : s.mu = false) {w : Sweep} {sid : ℕ}
    {last read : ℤ} : s.decode ≠ .committing w sid last read :=
  fun he => (hlock.not_holds_of_free hmu).1 (he ▸ trivial)

/-- A loop that is entering no stream enters one that no other enters. -/
theorem enter (h : Covered s) (hlock : Locked s) (hdown : Shutdown s) {i sid : ℕ} {at_ : ℤ}
    (hmu : s.mu = false) (hbefore : s.closer.Before) (hlive : s.Live sid) (hlt : sid < s.opened)
    (hle : (s.heap sid).lastSeen ≤ at_) (hno : s.Unentered sid)
    (hi : (s.loops i).entering = none) :
    Covered { s.setLoop i (.stamp sid at_) with routed := s.routed ++ [⟨sid, at_⟩] } := by
  have hone := unentered hdown hno
  have hkeep : ∀ {j}, j ≠ i → (s.setLoop i (.stamp sid at_)).loops j = s.loops j :=
    fun hj => Function.update_of_ne hj _ _
  have hself : (s.setLoop i (.stamp sid at_)).loops i = .stamp sid at_ := Function.update_self ..
  have hother : ∀ {j r}, ((s.setLoop i (.stamp sid at_)).loops j).entering = some r →
      j = i ∧ r = ⟨sid, at_⟩ ∨ j ≠ i ∧ (s.loops j).entering = some r := by
    intro j r he
    by_cases hj : j = i
    · subst hj
      rw [hself] at he
      exact .inl ⟨rfl, (Option.some.inj he).symm⟩
    · rw [hkeep hj] at he
      exact .inr ⟨hj, he⟩
  exact {
    unique := fun j k r r' hj hk he => by
      rcases hother hj with ⟨rfl, rfl⟩ | ⟨-, hj'⟩ <;> rcases hother hk with ⟨rfl, rfl⟩ | ⟨-, hk'⟩
      · rfl
      · exact absurd he.symm (hone k r' hk')
      · exact absurd he (hone j r hj')
      · exact h.unique j k r r' hj' hk' he
    live := fun j r hj => by
      rcases hother hj with ⟨-, rfl⟩ | ⟨-, hj⟩
      · exact hlive
      · exact h.live j r hj
    stamp := fun j sid' at' he => by
      by_cases hj : j = i
      · subst hj
        change (s.setLoop j _).loops j = _ at he
        rw [hself] at he
        cases he
        exact hle
      · change (s.setLoop i _).loops j = _ at he
        rw [hkeep hj] at he
        exact h.stamp j sid' at' he
    load := fun j sid' at' he => by
      by_cases hj : j = i
      · subst hj
        change (s.setLoop j _).loops j = _ at he
        rw [hself] at he
        cases he
      · change (s.setLoop i _).loops j = _ at he
        rw [hkeep hj] at he
        exact h.load j sid' at' he
    restart := fun j sid' at' he => by
      by_cases hj : j = i
      · subst hj
        change (s.setLoop j _).loops j = _ at he
        rw [hself] at he
        cases he
      · change (s.setLoop i _).loops j = _ at he
        rw [hkeep hj] at he
        exact h.restart j sid' at' he
    started := h.started
    removed := h.removed
    shut := fun hno => absurd hbefore hno
    ended := fun hno => absurd hbefore hno
    routed := fun r hr => by
      rcases List.mem_append.1 hr with hr | hr
      · obtain ⟨hlt, hcov⟩ := h.routed r hr
        refine ⟨hlt, ?_⟩
        rcases hcov with hrep | hrun | ⟨j, he⟩
        · exact .inl hrep
        · exact .inr (.inl hrun)
        · have hj : j ≠ i := fun hj => by rw [hj, hi] at he; cases he
          exact .inr (.inr ⟨j, by
            change ((s.setLoop i _).loops j).entering = some r
            rw [hkeep hj]; exact he⟩)
      · rw [List.mem_singleton.1 hr]
        exact ⟨hlt, .inr (.inr ⟨i, by
          change ((s.setLoop i _).loops i).entering = some _
          rw [hself]; rfl⟩)⟩
    committing := fun w sid' last read he => absurd he (not_committing hlock hmu) }

theorem openStream (h : Covered s) (hlife : Lifecycle s) (hlock : Locked s) (hmu : s.mu = false)
    (hbefore : s.closer.Before) {key : StreamKey} {at_ : ℤ} {o : IterOrder ℕ}
    (hnone : s.streams.lookup key = none) : Covered (s.openStream key at_ o) := by
  have hlt : ∀ i r, (s.loops i).entering = some r → r.stream < s.opened :=
    fun i r he => (hlife.filed _ _ (h.live i r he)).1
  have hheap : ∀ {i r}, (s.loops i).entering = some r →
      (s.openStream key at_ o).heap r.stream = s.heap r.stream :=
    fun he => Lifecycle.heap_openStream (hlt _ _ he)
  exact {
    unique := h.unique
    live := fun i r he => (Lifecycle.live_openStream hnone (hlt i r he)).2 (h.live i r he)
    stamp := fun i sid at' he => by
      change s.loops i = _ at he
      have hent : (s.loops i).entering = some ⟨sid, at'⟩ := by rw [he]; rfl
      rw [hheap hent]
      exact h.stamp i sid at' he
    load := fun i sid at' he => by
      change s.loops i = _ at he
      have hent : (s.loops i).entering = some ⟨sid, at'⟩ := by rw [he]; rfl
      rw [hheap hent]
      exact h.load i sid at' he
    restart := fun i sid at' he => by
      change s.loops i = _ at he
      have hent : (s.loops i).entering = some ⟨sid, at'⟩ := by rw [he]; rfl
      rw [hheap hent]
      exact h.restart i sid at' he
    started := fun sid hsid => by
      rcases Nat.lt_succ_iff_lt_or_eq.1 hsid with hsid | rfl
      · rw [Lifecycle.heap_openStream hsid]
        exact h.started sid hsid
      · rw [Lifecycle.heap_openStream_self]
        exact fun _ => le_rfl
    removed := fun sid hsid hdead => by
      rcases Nat.lt_succ_iff_lt_or_eq.1 hsid with hsid | rfl
      · rw [Lifecycle.heap_openStream hsid]
        exact h.removed sid hsid fun hl => hdead ((Lifecycle.live_openStream hnone hsid).2 hl)
      · exact absurd Lifecycle.live_openStream_self hdead
    shut := fun hno => absurd hbefore hno
    ended := fun hno => absurd hbefore hno
    routed := fun r hr => by
      obtain ⟨hsid, hcov⟩ := h.routed r hr
      refine ⟨hsid.trans (Nat.lt_succ_self _), ?_⟩
      rcases hcov with hrep | hrun | hent
      · exact .inl hrep
      · refine .inr (.inl ?_)
        unfold Receiver.Running
        rw [Lifecycle.heap_openStream hsid]
        exact hrun
      · exact .inr (.inr hent)
    committing := fun w sid' last read he => absurd he (not_committing hlock hmu) }

/-- A loop whose stage changes and whose packet stays the same. -/
theorem entering_setLoop {i : ℕ} {pc : LoopPc} (hpc : pc.entering = (s.loops i).entering) (j : ℕ) :
    ((s.setLoop i pc).loops j).entering = (s.loops j).entering := by
  by_cases hj : j = i
  · subst hj
    simp [Receiver.setLoop, hpc]
  · simp [Receiver.setLoop, hj]

theorem stamped (h : Covered s) {i sid : ℕ} {at_ : ℤ} (hpc : s.loops i = .stamp sid at_) :
    Covered ((s.setStream sid { s.heap sid with lastSeen := at_ }).setLoop i (.load sid at_)) := by
  have hent : (s.loops i).entering = some ⟨sid, at_⟩ := by rw [hpc]; rfl
  have hkeep : ∀ {j}, j ≠ i → (s.setLoop i (.load sid at_)).loops j = s.loops j :=
    fun hj => Function.update_of_ne hj _ _
  have hself : (s.setLoop i (.load sid at_)).loops i = .load sid at_ := Function.update_self ..
  have hsame : ∀ j, ((s.setLoop i (.load sid at_)).loops j).entering = (s.loops j).entering :=
    entering_setLoop (by rw [hpc]; rfl)
  have hne : ∀ {j r}, j ≠ i → (s.loops j).entering = some r → r.stream ≠ sid :=
    fun hj he hs => hj (h.unique _ _ _ _ he hent hs)
  have hle := h.stamp i sid at_ hpc
  -- what the other streams are like, and the stamped one
  let st : Stream := { s.heap sid with lastSeen := at_ }
  have hheap : ∀ {sid'}, sid' ≠ sid → (s.setStream sid st).heap sid' = s.heap sid' :=
    fun hne => Function.update_of_ne hne _ _
  have hst : (s.setStream sid st).heap sid = st := Function.update_self ..
  have hended : ∀ sid', ((s.setStream sid st).heap sid').ended = (s.heap sid').ended :=
    Receiver.setStream_proj Stream.ended rfl
  have hstarted : ∀ sid', ((s.setStream sid st).heap sid').started = (s.heap sid').started :=
    Receiver.setStream_proj Stream.started rfl
  have hlast : ∀ sid', (s.heap sid').lastSeen ≤ ((s.setStream sid st).heap sid').lastSeen := by
    intro sid'
    by_cases hs : sid' = sid
    · rw [hs, hst]; exact hle
    · rw [hheap hs]
  have hlive : ∀ sid', (s.setStream sid st).Live sid' ↔ s.Live sid' := Receiver.setStream_live rfl
  have hload : ∀ {j pc'}, (s.setLoop i (.load sid at_)).loops j = pc' →
      j = i ∧ pc' = .load sid at_ ∨ j ≠ i ∧ s.loops j = pc' := by
    intro j pc' he
    by_cases hj : j = i
    · subst hj
      exact .inl ⟨rfl, he ▸ hself⟩
    · exact .inr ⟨hj, hkeep hj ▸ he⟩
  exact {
    unique := fun j k r r' hj hk => h.unique j k r r' (hsame j ▸ hj) (hsame k ▸ hk)
    live := fun j r hj => (hlive _).2 (h.live j r (hsame j ▸ hj))
    stamp := fun j sid' at' he => by
      rcases hload he with ⟨-, he⟩ | ⟨hj, he⟩
      · cases he
      · change ((s.setStream sid st).heap sid').lastSeen ≤ at'
        rw [hheap (hne (r := ⟨sid', at'⟩) hj (by rw [he]; rfl))]
        exact h.stamp j sid' at' he
    load := fun j sid' at' he => by
      change ((s.setStream sid st).heap sid').lastSeen = at'
      rcases hload he with ⟨-, he⟩ | ⟨hj, he⟩
      · cases he
        rw [hst]
      · rw [hheap (hne (r := ⟨sid', at'⟩) hj (by rw [he]; rfl))]
        exact h.load j sid' at' he
    restart := fun j sid' at' he => by
      rcases hload he with ⟨-, he⟩ | ⟨hj, he⟩
      · cases he
      · change ((s.setStream sid st).heap sid').lastSeen = at' ∧
          ((s.setStream sid st).heap sid').ended = true
        rw [hheap (hne (r := ⟨sid', at'⟩) hj (by rw [he]; rfl))]
        exact h.restart j sid' at' he
    started := fun sid' hlt he => by
      change ((s.setStream sid st).heap sid').started ≤ ((s.setStream sid st).heap sid').lastSeen
      rw [hstarted]
      exact (h.started sid' hlt (hended sid' ▸ he)).trans (hlast sid')
    removed := fun sid' hlt hdead => by
      change ((s.setStream sid st).heap sid').ended = true
      rw [hended]
      exact h.removed sid' hlt fun hl => hdead ((hlive sid').2 hl)
    shut := fun hno => absurd (h.before_of_entering hent) hno
    ended := fun hno => absurd (h.before_of_entering hent) hno
    routed := fun r hr => by
      obtain ⟨hlt, hcov⟩ := h.routed r hr
      refine ⟨hlt, ?_⟩
      rcases hcov with hrep | ⟨hopen, hs, hl⟩ | ⟨j, hj⟩
      · exact .inl hrep
      · refine .inr (.inl ?_)
        change (((s.setStream sid st).heap r.stream).ended = false ∨ _) ∧
          ((s.setStream sid st).heap r.stream).started ≤ r.at_ ∧
          r.at_ ≤ ((s.setStream sid st).heap r.stream).lastSeen
        rw [hended, hstarted]
        exact ⟨hopen, hs, hl.trans (hlast _)⟩
      · exact .inr (.inr ⟨j, (hsame j).trans hj⟩)
    committing := fun w sid' last read he r hr hsid => by
      change s.decode = _ at he
      change _ ∨ (((s.setStream sid st).heap sid').started ≤ r.at_ ∧ r.at_ ≤ read) ∨
        (∃ j, (s.setLoop i (.load sid at_)).loops j = .stamp r.stream r.at_ ∨
          (s.setLoop i (.load sid at_)).loops j = .load r.stream r.at_) ∨
        ((s.setStream sid st).heap sid').lastSeen ≠ read ∧ ∀ j,
          ∀ r' ∈ ((s.setLoop i (.load sid at_)).loops j).entering, r'.stream ≠ sid'
      rw [hstarted]
      rcases h.committing w sid' last read he r hr hsid with hrep | hspan | ⟨j, hj⟩ | ⟨hread, hall⟩
      · exact .inl hrep
      · exact .inr (.inl hspan)
      · refine .inr (.inr (.inl ⟨j, ?_⟩))
        by_cases hji : j = i
        · subst hji
          rw [hself]
          rcases hj with hj | hj
          · rw [hpc] at hj
            cases hj
            exact .inr rfl
          · rw [hpc] at hj
            cases hj
        · rw [hkeep hji]
          exact hj
      · have hs : sid' ≠ sid := fun hs => hall i _ hent hs.symm
        rw [hheap hs]
        exact .inr (.inr (.inr ⟨hread, fun j r' hr' => hall j r' (hsame j ▸ hr')⟩)) }

theorem foundEnded (h : Covered s) (hlock : Locked s) {i sid : ℕ} {at_ : ℤ}
    (hpc : s.loops i = .load sid at_) (hended : (s.heap sid).ended = true) :
    Covered (s.setLoop i (.restart sid at_)) := by
  have hkeep : ∀ {j}, j ≠ i → (s.setLoop i (.restart sid at_)).loops j = s.loops j :=
    fun hj => Function.update_of_ne hj _ _
  have hself : (s.setLoop i (.restart sid at_)).loops i = .restart sid at_ :=
    Function.update_self ..
  have hsame : ∀ j, ((s.setLoop i (.restart sid at_)).loops j).entering = (s.loops j).entering :=
    entering_setLoop (by rw [hpc]; rfl)
  have hold : ∀ {j pc'}, (s.setLoop i (.restart sid at_)).loops j = pc' →
      j = i ∧ pc' = .restart sid at_ ∨ j ≠ i ∧ s.loops j = pc' := by
    intro j pc' he
    by_cases hj : j = i
    · subst hj
      exact .inl ⟨rfl, he ▸ hself⟩
    · exact .inr ⟨hj, hkeep hj ▸ he⟩
  exact {
    unique := fun j k r r' hj hk => h.unique j k r r' (hsame j ▸ hj) (hsame k ▸ hk)
    live := fun j r hj => h.live j r (hsame j ▸ hj)
    stamp := fun j sid' at' he => by
      rcases hold he with ⟨-, he⟩ | ⟨-, he⟩
      · cases he
      · exact h.stamp j sid' at' he
    load := fun j sid' at' he => by
      rcases hold he with ⟨-, he⟩ | ⟨-, he⟩
      · cases he
      · exact h.load j sid' at' he
    restart := fun j sid' at' he => by
      rcases hold he with ⟨-, he⟩ | ⟨-, he⟩
      · cases he
        exact ⟨h.load i sid at_ hpc, hended⟩
      · exact h.restart j sid' at' he
    started := h.started
    removed := h.removed
    shut := fun hno j => (hsame j).trans (h.shut hno j)
    ended := h.ended
    routed := fun r hr => by
      obtain ⟨hlt, hcov⟩ := h.routed r hr
      refine ⟨hlt, ?_⟩
      rcases hcov with hrep | hrun | ⟨j, hj⟩
      · exact .inl hrep
      · exact .inr (.inl hrun)
      · exact .inr (.inr ⟨j, (hsame j).trans hj⟩)
    committing := fun w sid' last read he r hr hsid => by
      change s.decode = _ at he
      rcases h.committing w sid' last read he r hr hsid with hrep | hspan | ⟨j, hj⟩ | ⟨hread, hall⟩
      · exact .inl hrep
      · exact .inr (.inl hspan)
      · have hji : j ≠ i := by
          rintro rfl
          rw [hpc] at hj
          rcases hj with hj | hj
          · cases hj
          · cases hj
            rw [hlock.committing w r.stream last read (hsid ▸ he)] at hended
            cases hended
        exact .inr (.inr (.inl ⟨j, by rw [hkeep hji]; exact hj⟩))
      · exact .inr (.inr (.inr ⟨hread, fun j r' hr' => hall j r' (hsame j ▸ hr')⟩)) }

theorem restarted (h : Covered s) (hlife : Lifecycle s) (hlock : Locked s) {i sid : ℕ} {at_ : ℤ}
    (hmu : s.mu = false) (hpc : s.loops i = .restart sid at_) {begun : ℕ} :
    Covered ((s.setStream sid
      { s.heap sid with started := at_, ended := false, begun := begun }).setLoop i
        (.push sid at_)) := by
  have hent : (s.loops i).entering = some ⟨sid, at_⟩ := by rw [hpc]; rfl
  have hbefore := h.before_of_entering hent
  obtain ⟨hlast, hended⟩ := h.restart i sid at_ hpc
  have hlt : sid < s.opened := (hlife.filed _ _ (h.live i _ hent)).1
  let st : Stream := { s.heap sid with started := at_, ended := false, begun := begun }
  have hheap : ∀ {sid'}, sid' ≠ sid → (s.setStream sid st).heap sid' = s.heap sid' :=
    fun hne => Function.update_of_ne hne _ _
  have hst : (s.setStream sid st).heap sid = st := Function.update_self ..
  have hlive : ∀ sid', (s.setStream sid st).Live sid' ↔ s.Live sid' := Receiver.setStream_live rfl
  have hself : (s.setLoop i (.push sid at_)).loops i = .push sid at_ := Function.update_self ..
  have hkeep : ∀ {j}, j ≠ i → (s.setLoop i (.push sid at_)).loops j = s.loops j :=
    fun hj => Function.update_of_ne hj _ _
  have hold : ∀ {j r}, ((s.setLoop i (.push sid at_)).loops j).entering = some r →
      (s.loops j).entering = some r ∧ r.stream ≠ sid := by
    intro j r he
    by_cases hj : j = i
    · subst hj
      rw [hself] at he
      cases he
    · rw [hkeep hj] at he
      exact ⟨he, fun hs => hj (h.unique _ _ _ _ he hent hs)⟩
  have hpc' : ∀ {j pc'}, (s.setLoop i (.push sid at_)).loops j = pc' → pc'.entering ≠ none →
      s.loops j = pc' := by
    intro j pc' he hne
    by_cases hj : j = i
    · subst hj
      rw [hself] at he
      exact absurd (he ▸ rfl) hne
    · exact hkeep hj ▸ he
  exact {
    unique := fun j k r r' hj hk => h.unique j k r r' (hold hj).1 (hold hk).1
    live := fun j r hj => (hlive _).2 (h.live j r (hold hj).1)
    stamp := fun j sid' at' he => by
      have hj : ((s.setLoop i (.push sid at_)).loops j).entering = some ⟨sid', at'⟩ := by
        change (s.setLoop i _).loops j = _ at he
        rw [he]; rfl
      change ((s.setStream sid st).heap sid').lastSeen ≤ at'
      rw [hheap (hold hj).2]
      exact h.stamp j sid' at' (hpc' he (by simp [LoopPc.entering]))
    load := fun j sid' at' he => by
      have hj : ((s.setLoop i (.push sid at_)).loops j).entering = some ⟨sid', at'⟩ := by
        change (s.setLoop i _).loops j = _ at he
        rw [he]; rfl
      change ((s.setStream sid st).heap sid').lastSeen = at'
      rw [hheap (hold hj).2]
      exact h.load j sid' at' (hpc' he (by simp [LoopPc.entering]))
    restart := fun j sid' at' he => by
      have hj : ((s.setLoop i (.push sid at_)).loops j).entering = some ⟨sid', at'⟩ := by
        change (s.setLoop i _).loops j = _ at he
        rw [he]; rfl
      change ((s.setStream sid st).heap sid').lastSeen = at' ∧
        ((s.setStream sid st).heap sid').ended = true
      rw [hheap (hold hj).2]
      exact h.restart j sid' at' (hpc' he (by simp [LoopPc.entering]))
    started := fun sid' hlt' he => by
      change ((s.setStream sid st).heap sid').started ≤ ((s.setStream sid st).heap sid').lastSeen
      by_cases hs : sid' = sid
      · rw [hs, hst]
        exact hlast.ge
      · change ((s.setStream sid st).heap sid').ended = false at he
        rw [hheap hs] at he ⊢
        exact h.started sid' hlt' he
    removed := fun sid' hlt' hdead => by
      change ((s.setStream sid st).heap sid').ended = true
      have hdead' : ¬ s.Live sid' := fun hl => hdead ((hlive sid').2 hl)
      have hs : sid' ≠ sid := fun hs => hdead' (hs ▸ h.live i _ hent)
      rw [hheap hs]
      exact h.removed sid' hlt' hdead'
    shut := fun hno => absurd hbefore hno
    ended := fun hno => absurd hbefore hno
    routed := fun r hr => by
      obtain ⟨hlt', hcov⟩ := h.routed r hr
      refine ⟨hlt', ?_⟩
      by_cases hs : r.stream = sid
      · rcases hcov with hrep | ⟨hopen, -⟩ | ⟨j, hj⟩
        · exact .inl hrep
        · rw [hs, hended, owes_of_before hbefore] at hopen
          rcases hopen with hopen | hopen <;> cases hopen
        · have hji := h.unique j i r _ hj hent hs
          rw [hji, hent] at hj
          cases hj
          refine .inr (.inl ?_)
          change (((s.setStream sid st).heap sid).ended = false ∨ _) ∧
            ((s.setStream sid st).heap sid).started ≤ at_ ∧
            at_ ≤ ((s.setStream sid st).heap sid).lastSeen
          rw [hst]
          exact ⟨.inl rfl, le_rfl, hlast.ge⟩
      · rcases hcov with hrep | hrun | ⟨j, hj⟩
        · exact .inl hrep
        · refine .inr (.inl ?_)
          change (((s.setStream sid st).heap r.stream).ended = false ∨ _) ∧
            ((s.setStream sid st).heap r.stream).started ≤ r.at_ ∧
            r.at_ ≤ ((s.setStream sid st).heap r.stream).lastSeen
          rw [hheap hs]
          exact hrun
        · have hji : j ≠ i := by
            rintro rfl
            rw [hent] at hj
            cases hj
            exact hs rfl
          exact .inr (.inr ⟨j, by
            change ((s.setLoop i _).loops j).entering = some r
            rw [hkeep hji]; exact hj⟩)
    committing := fun w sid' last read he => absurd he (not_committing hlock hmu) }

theorem rxVoice (h : Covered s) (hlife : Lifecycle s) (hlock : Locked s) (hdown : Shutdown s)
    {i : ℕ} {decoder : Bool} {o : IterOrder ℕ} (hok : Undisturbed s (.rxVoice i decoder o))
    (hs : s.rxVoice i decoder o = some s') : Covered s' := by
  unfold Receiver.rxVoice at hs
  change s.MayEnter (s.loops i) at hok
  cases hpc : s.loops i with
  | reading => simp [hpc] at hs
  | lookup key at_ =>
    have hnone : (s.loops i).entering = none := by rw [hpc]; rfl
    have hleave : Covered (s.setLoop i .reading) :=
      h.leave rfl fun r he => by rw [hnone] at he; cases he
    simp only [hpc] at hs
    rw [hpc] at hok
    obtain ⟨hbefore, hfound⟩ := hok
    split at hs
    · cases hs
    · rename_i hmu
      cases hs
      have hmu' : s.mu = false := by simpa using hmu
      unfold Receiver.rxStreamFor
      split
      · rename_i sid hl
        obtain ⟨hle, hno⟩ := hfound sid hl
        obtain ⟨hlt, hkey⟩ := hlife.filed key sid hl
        have hlive : s.Live sid := by
          unfold Receiver.Live
          rw [hkey, hl]
        exact h.enter hlock hdown hmu' hbefore hlive hlt hle hno hnone
      · rename_i hl
        split
        · exact hleave
        · have hopen : Covered (s.openStream key at_ o) := h.openStream hlife hlock hmu' hbefore hl
          have hlock' : Locked (s.openStream key at_ o) :=
            ⟨hlock.held, hlock.one, fun _ _ _ _ he => absurd he (not_committing hlock hmu')⟩
          have hdown' : Shutdown (s.openStream key at_ o) :=
            ⟨hdown.idle, hdown.hungUp, hdown.joined⟩
          refine hopen.enter hlock' hdown' hmu' hbefore Lifecycle.live_openStream_self
            (Nat.lt_succ_self _) ?_ (fun j hj r hr hs => ?_) hnone
          · rw [Lifecycle.heap_openStream_self]
            exact le_rfl
          · have := (hlife.filed _ _ (h.live j r hr)).1
            omega
  | stamp sid at_ =>
    simp only [hpc, Option.some.injEq] at hs
    subst hs
    exact h.stamped hpc
  | load sid at_ =>
    simp only [hpc, Option.some.injEq] at hs
    subst hs
    split
    · exact h.foundEnded hlock hpc ‹_›
    · rename_i hopen
      refine h.leave rfl fun r he => ?_
      rw [hpc] at he
      cases he
      exact ⟨at_, hpc, rfl, by simpa using hopen⟩
  | restart sid at_ =>
    simp only [hpc] at hs
    split at hs
    · cases hs
    · rename_i hmu
      cases hs
      rw [if_pos (h.restart i sid at_ hpc).2]
      exact h.restarted hlife hlock (by simpa using hmu) hpc
  | push sid at_ =>
    simp only [hpc, Option.some.injEq] at hs
    subst hs
    have : Covered (s.setLoop i .reading) :=
      h.leave rfl fun r he => by rw [hpc] at he; cases he
    exact { this with }

/-- The decode goroutine turns to a stage that ends no transmission. -/
theorem setDecode (h : Covered s) {pc : DecodePc}
    (hpc : ∀ w sid last read, pc ≠ .committing w sid last read) :
    Covered { s with decode := pc } :=
  h.frame rfl rfl rfl (List.Subset.refl _) (fun _ => .rfl) (fun _ => rfl) (fun _ => rfl)
    (fun _ => rfl) h.shut h.ended (fun _ _ howe _ => .inl howe)
    fun w sid last read he => absurd he (hpc w sid last read)

theorem next_ne_committing {w w' : Sweep} {key : StreamKey} {last last' read : ℤ} {sid : ℕ} :
    w.next key last ≠ .committing w' sid last' read :=
  fun h => DecodePc.noConfusion h

theorem decided (h : Covered s) (hlock : Locked s) {w : Sweep} {sid : ℕ} {last : ℤ}
    (hmu : s.mu = false) (hopen : (s.heap sid).ended = false) :
    Covered { s with mu := true, decode := .committing w sid last (s.heap sid).lastSeen } := by
  have hnot := (hlock.not_holds_of_free hmu).2
  have howes : s.closer.owes = none := by
    cases hpc : s.closer <;> simp_all [ClosePc.owes, ClosePc.Holds]
  exact {
    unique := h.unique
    live := h.live
    stamp := h.stamp
    load := h.load
    restart := h.restart
    started := h.started
    removed := h.removed
    shut := h.shut
    ended := h.ended
    routed := h.routed
    committing := fun w' sid' last' read he r hr hsid => by
      cases he
      rcases (h.routed r hr).2 with hrep | ⟨-, hspan⟩ | ⟨i, hi⟩
      · exact .inl hrep
      · rw [hsid] at hspan
        exact .inr (.inl hspan)
      · refine .inr (.inr (.inl ⟨i, ?_⟩))
        change s.loops i = _ ∨ s.loops i = _
        cases hl : s.loops i with
        | stamp sid'' at_ =>
          rw [hl] at hi
          cases hi
          exact .inl rfl
        | load sid'' at_ =>
          rw [hl] at hi
          cases hi
          exact .inr rfl
        | restart sid'' at_ =>
          have := (h.restart i sid'' at_ hl).2
          rw [hl] at hi
          cases hi
          rw [← hsid, this] at hopen
          cases hopen
        | reading | lookup | push => rw [hl] at hi; cases hi }

/-- `endTransmission` ends the transmission with what it read, which covers the
packets of the loops that have passed. -/
theorem committed (h : Covered s) {w : Sweep} {sid : ℕ} {last read : ℤ}
    (hpc : s.decode = .committing w sid last read)
    (hok : (s.heap sid).lastSeen = read ∨
      ∃ i < s.spawned, s.loops i = .load sid (s.heap sid).lastSeen) :
    Covered { s.setStream sid { s.heap sid with ended := true } with
      mu := false
      reports := s.reports ++ [s.report sid read]
      decode := .queueing w sid last (s.report sid read) } := by
  let st : Stream := { s.heap sid with ended := true }
  have hheap : ∀ {sid'}, sid' ≠ sid → (s.setStream sid st).heap sid' = s.heap sid' :=
    fun hne => Function.update_of_ne hne _ _
  have hst : (s.setStream sid st).heap sid = st := Function.update_self ..
  have hlast : ∀ sid', ((s.setStream sid st).heap sid').lastSeen = (s.heap sid').lastSeen :=
    Receiver.setStream_proj Stream.lastSeen rfl
  have hstarted : ∀ sid', ((s.setStream sid st).heap sid').started = (s.heap sid').started :=
    Receiver.setStream_proj Stream.started rfl
  have hended : ∀ sid', (s.heap sid').ended = true →
      ((s.setStream sid st).heap sid').ended = true := fun _ => Receiver.setStream_ended rfl
  have hlive : ∀ sid', (s.setStream sid st).Live sid' ↔ s.Live sid' := Receiver.setStream_live rfl
  have hsub : ∀ {r}, s.Reported r → ∃ p ∈ s.reports ++ [s.report sid read],
      p.stream = r.stream ∧ p.ev.Holds r.at_ := fun ⟨p, hp, hcov⟩ =>
    ⟨p, List.mem_append_left _ hp, hcov⟩
  exact {
    unique := h.unique
    live := fun i r he => (hlive _).2 (h.live i r he)
    stamp := fun i sid' at_ he => by
      change ((s.setStream sid st).heap sid').lastSeen ≤ at_
      rw [hlast]
      exact h.stamp i sid' at_ he
    load := fun i sid' at_ he => by
      change ((s.setStream sid st).heap sid').lastSeen = at_
      rw [hlast]
      exact h.load i sid' at_ he
    restart := fun i sid' at_ he => by
      obtain ⟨hl, hen⟩ := h.restart i sid' at_ he
      exact ⟨(hlast sid').trans hl, hended sid' hen⟩
    started := fun sid' hlt he => by
      change ((s.setStream sid st).heap sid').ended = false at he
      change ((s.setStream sid st).heap sid').started ≤ ((s.setStream sid st).heap sid').lastSeen
      have hs : sid' ≠ sid := by
        rintro rfl
        rw [hst] at he
        cases he
      rw [hheap hs] at he ⊢
      exact h.started sid' hlt he
    removed := fun sid' hlt hdead =>
      hended sid' (h.removed sid' hlt fun hl => hdead ((hlive sid').2 hl))
    shut := h.shut
    ended := fun hno sid' hlt => (h.ended hno sid' hlt).imp_left (hended sid')
    routed := fun r hr => by
      obtain ⟨hlt, hcov⟩ := h.routed r hr
      refine ⟨hlt, ?_⟩
      by_cases hs : r.stream = sid
      · rcases h.committing w sid last read hpc r hr hs with hrep | hspan | ⟨i, hi⟩ | ⟨hread, hall⟩
        · exact .inl (hsub hrep)
        · exact .inl ⟨s.report sid read, by simp, hs.symm, hspan⟩
        · refine .inr (.inr ⟨i, ?_⟩)
          change (s.loops i).entering = some r
          rcases hi with hi | hi <;> rw [hi] <;> rfl
        · rcases hok with hok | ⟨i, -, hi⟩
          · exact absurd hok hread
          · exact absurd rfl (hall i ⟨sid, (s.heap sid).lastSeen⟩ (by rw [hi]; rfl))
      · rcases hcov with hrep | hrun | hent
        · exact .inl (hsub hrep)
        · refine .inr (.inl ?_)
          change (((s.setStream sid st).heap r.stream).ended = false ∨ _) ∧
            ((s.setStream sid st).heap r.stream).started ≤ r.at_ ∧
            r.at_ ≤ ((s.setStream sid st).heap r.stream).lastSeen
          rw [hheap hs]
          exact hrun
        · exact .inr (.inr hent)
    committing := fun _ _ _ _ he => by cases he }

/-- `reap` removes a stream that is ended and that no loop is entering. -/
theorem removed_stream (h : Covered s) (hlife : Lifecycle s) (hdown : Shutdown s) {w : Sweep}
    {sid : ℕ} {o : IterOrder ℕ} (hpc : s.decode = .removing w sid)
    (hended : (s.heap sid).ended = true) (hno : s.Unentered sid) :
    Covered (Receiver.publishLocked o
      { s with
        mu := false
        streams := s.streams.erase (s.heap sid).key
        decode := .closing w sid }) := by
  have hl : s.Live sid := hlife.removing w sid hpc
  have hlive : ∀ {sid'}, s.Live sid' → sid' ≠ sid →
      (s.streams.erase (s.heap sid).key).lookup (s.heap sid').key = some sid' := by
    intro sid' hl' hne
    unfold Receiver.Live at hl hl'
    rw [AList.lookup_erase_ne, hl']
    intro he
    rw [he, hl] at hl'
    exact hne (Option.some.inj hl').symm
  exact {
    unique := h.unique
    live := fun i r he => hlive (h.live i r he) (unentered hdown hno i r he)
    stamp := h.stamp
    load := h.load
    restart := h.restart
    started := h.started
    removed := fun sid' hlt hdead => by
      by_cases hs : sid' = sid
      · exact hs ▸ hended
      · exact h.removed sid' hlt fun hl' => hdead (hlive hl' hs)
    shut := h.shut
    ended := h.ended
    routed := h.routed
    committing := fun _ _ _ _ he => by cases he }

theorem rxService (h : Covered s) (hlife : Lifecycle s) (hlock : Locked s) (hdown : Shutdown s)
    {o : IterOrder ℕ} (hok : Undisturbed s (.rxService o)) (hs : s.rxService o = some s') :
    Covered s' := by
  unfold Receiver.rxService at hs
  change s.MayEnd s.decode at hok
  cases hpc : s.decode with
  | parked | exited => simp [hpc] at hs
  | serving w =>
    simp only [hpc] at hs
    split at hs
    all_goals
      cases hs
      exact h.setDecode fun _ _ _ _ he => by cases he
  | topUp w sid =>
    simp only [hpc, Option.some.injEq] at hs
    subst hs
    exact h.setDecode fun _ _ _ _ he => by cases he
  | seen w sid last =>
    simp only [hpc] at hs
    split at hs
    · cases hs
      exact h.setDecode fun _ _ _ _ he => by cases he
    · cases hs
      exact h.setDecode fun _ _ _ _ he => absurd he next_ne_committing
  | ending w sid last =>
    simp only [hpc] at hs
    split at hs
    · cases hs
    · rename_i hmu
      cases hs
      unfold Receiver.endTransmission
      simp only
      split
      · exact h.setDecode fun _ _ _ _ he => absurd he next_ne_committing
      · rename_i hno
        exact h.decided hlock (by simpa using hmu) (by simpa using fun hc => hno (.inl hc))
  | committing w sid last read =>
    simp only [hpc, Option.some.injEq] at hs
    subst hs
    rw [hpc] at hok
    exact h.committed hpc hok
  | queueing w sid last r =>
    simp only [hpc, Option.some.injEq] at hs
    subst hs
    have hnext : Covered { s with decode := w.next (s.heap sid).key last } := h.setDecode
      fun _ _ _ _ he => absurd he next_ne_committing
    rcases Receipts.queueRXEvent_cases s r with ⟨rxEvents, he, -⟩ | he
    · rw [he]
      exact { hnext with }
    · rw [he]
      exact { hnext with }
  | reaping w =>
    have hback : ∀ w', Covered { s with decode := .reaping w' } :=
      fun w' => h.setDecode fun _ _ _ _ he => by cases he
    simp only [hpc] at hs
    split at hs
    · cases hs
      exact h.setDecode fun _ _ _ _ he => by cases he
    · split at hs
      · cases hs
      · cases hs
        unfold Receiver.reap
        split
        · exact hback _
        · split
          · exact hback _
          · exact h.frame rfl rfl rfl (List.Subset.refl _) (fun _ => .rfl) (fun _ => rfl)
              (fun _ => rfl) (fun _ => rfl) h.shut h.ended (fun _ _ howe _ => .inl howe)
              fun _ _ _ _ he => by cases he
  | removing w sid =>
    simp only [hpc, Option.some.injEq] at hs
    subst hs
    rw [hpc] at hok
    exact h.removed_stream hlife hdown hpc hok.1 hok.2
  | closing w sid =>
    simp only [hpc, Option.some.injEq] at hs
    subst hs
    refine h.frame rfl rfl rfl (List.Subset.refl _) (fun sid' => ?_)
      (Receiver.setStream_proj Stream.lastSeen rfl) (Receiver.setStream_proj Stream.started rfl)
      (Receiver.setStream_proj Stream.ended rfl) h.shut h.ended (fun _ _ howe _ => .inl howe)
      fun _ _ _ _ he => by cases he
    exact s.closeDecoder_live sid sid'

/-- `Close` goes on to a stage with the same streams to report. -/
theorem setCloser (h : Covered s) {t : Receiver} (hloops : t.loops = s.loops)
    (hopened : t.opened = s.opened) (hrouted : t.routed = s.routed)
    (hreports : t.reports = s.reports) (hstreams : t.streams = s.streams) (hheap : t.heap = s.heap)
    (hdecode : t.decode = s.decode) (hbefore : t.closer.Before ↔ s.closer.Before)
    (howes : t.closer.owes = s.closer.owes) (htodo : t.closer.todo = s.closer.todo) :
    Covered t := by
  refine h.frame hloops hopened hrouted (by rw [hreports]; exact List.Subset.refl _) (fun sid => ?_)
    (fun _ => by rw [hheap]) (fun _ => by rw [hheap]) (fun _ => by rw [hheap])
    (fun hno => h.shut fun hb => hno (hbefore.2 hb))
    (fun hno => by rw [htodo]; exact h.ended fun hb => hno (hbefore.2 hb))
    (fun _ _ howe _ => .inl (howes.trans howe)) (by rw [hdecode]; exact fun _ _ _ _ he => he)
  unfold Receiver.Live
  rw [hstreams, hheap]

theorem marking (h : Covered s) {sid : ℕ} {todo : List ℕ} (pending : List Report)
    (hshut : ∀ i, (s.loops i).entering = none)
    (hall : ∀ sid' < s.opened, (s.heap sid').ended = true ∨ sid' ∈ sid :: todo)
    (hdec : ∀ w sid last read, s.decode ≠ .committing w sid last read)
    (howes : s.closer.owes = none) :
    Covered { s.setStream sid { s.heap sid with ended := true } with
      closer := .loading sid todo pending } := by
  let st : Stream := { s.heap sid with ended := true }
  have hst : (s.setStream sid st).heap sid = st := Function.update_self ..
  have hlast : ∀ sid', ((s.setStream sid st).heap sid').lastSeen = (s.heap sid').lastSeen :=
    Receiver.setStream_proj Stream.lastSeen rfl
  have hstarted : ∀ sid', ((s.setStream sid st).heap sid').started = (s.heap sid').started :=
    Receiver.setStream_proj Stream.started rfl
  have hheap : ∀ {sid'}, sid' ≠ sid → (s.setStream sid st).heap sid' = s.heap sid' :=
    fun hne => Function.update_of_ne hne _ _
  have hended : ∀ sid', (s.heap sid').ended = true →
      ((s.setStream sid st).heap sid').ended = true := fun _ => Receiver.setStream_ended rfl
  have hlive : ∀ sid', (s.setStream sid st).Live sid' ↔ s.Live sid' := Receiver.setStream_live rfl
  have hno : ∀ {i pc}, s.loops i = pc → pc.entering ≠ none → False :=
    fun he hne => hne (he ▸ hshut _)
  exact {
    unique := h.unique
    live := fun i r he => (hlive _).2 (h.live i r he)
    stamp := fun i sid' at_ he => (hno he (by simp [LoopPc.entering])).elim
    load := fun i sid' at_ he => (hno he (by simp [LoopPc.entering])).elim
    restart := fun i sid' at_ he => (hno he (by simp [LoopPc.entering])).elim
    started := fun sid' hlt he => by
      change ((s.setStream sid st).heap sid').ended = false at he
      change ((s.setStream sid st).heap sid').started ≤ ((s.setStream sid st).heap sid').lastSeen
      have hs : sid' ≠ sid := by
        rintro rfl
        rw [hst] at he
        cases he
      rw [hheap hs] at he ⊢
      exact h.started sid' hlt he
    removed := fun sid' hlt hdead =>
      hended sid' (h.removed sid' hlt fun hl => hdead ((hlive sid').2 hl))
    shut := fun _ => hshut
    ended := fun _ sid' hlt => (hall sid' hlt).imp_left (hended sid')
    routed := fun r hr => by
      obtain ⟨hlt, hcov⟩ := h.routed r hr
      refine ⟨hlt, ?_⟩
      rcases hcov with hrep | ⟨hopen | howe, hspan⟩ | hent
      · exact .inl hrep
      · refine .inr (.inl ?_)
        change (((s.setStream sid st).heap r.stream).ended = false ∨ some sid = some r.stream) ∧
          ((s.setStream sid st).heap r.stream).started ≤ r.at_ ∧
          r.at_ ≤ ((s.setStream sid st).heap r.stream).lastSeen
        rw [hstarted, hlast]
        refine ⟨?_, hspan⟩
        by_cases hs : r.stream = sid
        · exact .inr (by rw [hs])
        · rw [hheap hs]
          exact .inl hopen
      · rw [howes] at howe
        cases howe
      · exact .inr (.inr hent)
    committing := fun w sid' last read he => absurd he (hdec w sid' last read) }

/-- `Close` passes over a stream that has ended, or has reported it. -/
theorem passed (h : Covered s) {sid : ℕ} {todo : List ℕ} {reports : List Report} {c : ClosePc}
    (htodo : s.closer.todo = sid :: todo) (hno : ¬ s.closer.Before)
    (hended : (s.heap sid).ended = true) (hreports : s.reports ⊆ reports) (hc : c.todo = todo)
    (howes : ∀ r ∈ s.routed, s.closer.owes = some r.stream → s.Running r →
      Receiver.Reported { s with reports := reports, closer := c } r) :
    Covered { s with reports := reports, closer := c } := by
  refine h.frame rfl rfl rfl hreports (fun _ => .rfl) (fun _ => rfl) (fun _ => rfl) (fun _ => rfl)
    (fun _ => h.shut hno) (fun _ sid' hlt => ?_) (fun r hr howe hrun => .inr (howes r hr howe hrun))
    fun _ _ _ _ he => he
  show _ ∨ sid' ∈ c.todo
  rw [hc]
  rcases h.ended hno sid' hlt with he | hm
  · exact .inl he
  · rw [htodo] at hm
    rcases List.mem_cons.1 hm with rfl | hm
    · exact .inl hended
    · exact .inr hm

/-- `Close` lets go of the streams: all of them have ended. -/
theorem released (h : Covered s) {s' : Receiver} (hloops : s'.loops = s.loops)
    (hopened : s'.opened = s.opened) (hrouted : s'.routed = s.routed)
    (hreports : s'.reports = s.reports) (hheap : s'.heap = s.heap) (hdecode : s'.decode = s.decode)
    (hno : ¬ s.closer.Before) (howes : s.closer.owes = none)
    (hended : ∀ sid < s.opened, (s.heap sid).ended = true) : Covered s' where
  unique := by rw [hloops]; exact h.unique
  live := fun i r he => by
    rw [hloops, h.shut hno i] at he
    cases he
  stamp := by rw [hloops, hheap]; exact h.stamp
  load := by rw [hloops, hheap]; exact h.load
  restart := by rw [hloops, hheap]; exact h.restart
  started := by rw [hopened, hheap]; exact h.started
  removed := fun sid hlt _ => by rw [hheap]; exact hended sid (hopened ▸ hlt)
  shut := fun _ => by rw [hloops]; exact h.shut hno
  ended := fun _ sid hlt => .inl (by rw [hheap]; exact hended sid (hopened ▸ hlt))
  routed := fun r hr => by
    rw [hrouted] at hr
    rw [hopened, hloops]
    obtain ⟨hlt, hcov⟩ := h.routed r hr
    refine ⟨hlt, ?_⟩
    rcases hcov with ⟨p, hp, hcov⟩ | ⟨hopen | howe, -⟩ | hent
    · exact .inl ⟨p, hreports ▸ hp, hcov⟩
    · rw [hended _ hlt] at hopen
      cases hopen
    · rw [howes] at howe
      cases howe
    · exact .inr (.inr hent)
  committing := fun w sid last read he r hr hsid => by
    rw [hrouted] at hr
    rw [hloops, hheap]
    rcases h.committing w sid last read (hdecode ▸ he) r hr hsid with ⟨p, hp, hcov⟩ | hrest
    · exact .inl ⟨p, hreports ▸ hp, hcov⟩
    · exact .inr hrest

theorem close (h : Covered s) (hlife : Lifecycle s) (hlock : Locked s) (hrec : Receipts s)
    (hdown : Shutdown s) {o : IterOrder ℕ} (hok : Undisturbed s (.close o))
    (hs : s.close o = some s') : Covered s' := by
  unfold Receiver.close at hs
  cases hpc : s.closer with
  | uncalled =>
    simp only [hpc, Option.some.injEq] at hs
    subst hs
    exact h.setCloser rfl rfl rfl rfl rfl rfl rfl (by rw [hpc]; exact .rfl) (by rw [hpc]; rfl)
      (by rw [hpc]; rfl)
  | said =>
    simp only [hpc] at hs
    split at hs
    · cases hs
    · cases hs
      have hnone : ∀ i, (s.loops i).entering = none := by
        intro i
        by_cases hi : i < s.spawned
        · exact hok hpc i hi
        · rw [hdown.idle i (not_lt.1 hi)]
          rfl
      refine h.frame rfl rfl rfl (List.Subset.refl _) (fun _ => .rfl) (fun _ => rfl) (fun _ => rfl)
        (fun _ => rfl) (fun _ => hnone) (fun _ sid hlt => ?_)
        (fun _ _ howe _ => by rw [hpc] at howe; cases howe) fun _ _ _ _ he => he
      by_cases hl : s.Live sid
      · exact .inr ((o.perm _).symm.subset (hlife.mem_values.2 hl))
      · exact .inl (h.removed sid hlt hl)
  | ending todo pending =>
    have hno : ¬ s.closer.Before := by rw [hpc]; exact id
    have howes : s.closer.owes = none := by rw [hpc]; rfl
    simp only [hpc] at hs
    cases todo with
    | nil =>
      simp only [Option.some.injEq] at hs
      subst hs
      exact h.setCloser rfl rfl rfl rfl rfl rfl rfl (by rw [hpc]; exact .rfl) (by rw [hpc]; rfl)
        (by rw [hpc]; rfl)
    | cons sid todo =>
      simp only at hs
      split at hs
      · rename_i hended
        cases hs
        exact h.passed (by rw [hpc]; rfl) hno hended (List.Subset.refl _) rfl
          fun _ _ howe _ => by rw [howes] at howe; cases howe
      · cases hs
        have hall := h.ended hno
        rw [hpc] at hall
        exact h.marking pending (h.shut hno) hall
          (fun _ _ _ _ he => hlock.one (he ▸ trivial) (hpc ▸ trivial)) howes
  | loading sid todo pending =>
    have hended : (s.heap sid).ended = true := hrec.owes sid (by rw [hpc]; rfl)
    simp only [hpc, Option.some.injEq] at hs
    subst hs
    refine h.passed (by rw [hpc]; rfl) (by rw [hpc]; exact id) hended
      (fun p hp => List.mem_append_left _ hp) rfl fun r _ howe hrun => ?_
    rw [hpc] at howe
    cases howe
    exact ⟨s.report r.stream (s.heap r.stream).lastSeen, by simp, rfl, hrun.2⟩
  | queueing pending =>
    simp only [hpc] at hs
    split at hs
    · cases hs
      exact h.setCloser rfl rfl rfl rfl rfl rfl rfl (by rw [hpc]; exact .rfl) (by rw [hpc]; rfl)
        (by rw [hpc]; rfl)
    · rename_i r rest
      cases hs
      rcases Receipts.queueRXEvent_cases s r with ⟨rxEvents, he, -⟩ | he
      all_goals
        rw [he]
        exact h.setCloser rfl rfl rfl rfl rfl rfl rfl (by rw [hpc]; exact .rfl) (by rw [hpc]; rfl)
          (by rw [hpc]; rfl)
  | stopping | hangingUp | calling =>
    simp only [hpc, Option.some.injEq] at hs
    subst hs
    exact h.setCloser rfl rfl rfl rfl rfl rfl rfl (by rw [hpc]; exact .rfl) (by rw [hpc]; rfl)
      (by rw [hpc]; rfl)
  | joining =>
    simp only [hpc] at hs
    split at hs
    · cases hs
      exact h.setCloser rfl rfl rfl rfl rfl rfl rfl (by rw [hpc]; exact .rfl) (by rw [hpc]; rfl)
        (by rw [hpc]; rfl)
    · cases hs
  | draining =>
    simp only [hpc] at hs
    split at hs
    all_goals
      cases hs
      exact h.setCloser rfl rfl rfl rfl rfl rfl rfl (by rw [hpc]; exact .rfl) (by rw [hpc]; rfl)
        (by rw [hpc]; rfl)
  | releasing =>
    have hno : ¬ s.closer.Before := by rw [hpc]; exact id
    have hall := h.ended hno
    rw [hpc] at hall
    simp only [hpc] at hs
    split at hs
    · cases hs
    · cases hs
      exact h.released rfl rfl rfl rfl rfl rfl hno (by rw [hpc]; rfl)
        fun sid hlt => (hall sid hlt).resolve_right List.not_mem_nil
  | freeing sids =>
    simp only [hpc] at hs
    split at hs
    · cases hs
      exact h.setCloser rfl rfl rfl rfl rfl rfl rfl (by rw [hpc]; exact .rfl) (by rw [hpc]; rfl)
        (by rw [hpc]; rfl)
    · rename_i sid rest
      cases hs
      have hall := h.ended (by rw [hpc]; exact id)
      rw [hpc] at hall
      refine h.frame rfl rfl rfl (List.Subset.refl _) (fun sid' => ?_)
        (Receiver.setStream_proj Stream.lastSeen rfl) (Receiver.setStream_proj Stream.started rfl)
        (Receiver.setStream_proj Stream.ended rfl) (fun _ => h.shut (by rw [hpc]; exact id))
        (fun _ => hall) (fun _ _ howe _ => by rw [hpc] at howe; cases howe) fun _ _ _ _ he => he
      exact s.closeDecoder_live sid sid'
  | returned => simp [hpc] at hs

theorem step (h : Covered s) (hlife : Lifecycle s) (hlock : Locked s) (hrec : Receipts s)
    (hdown : Shutdown s) {a : Act} (hok : Undisturbed s a) (hs : s.step a = some s') :
    Covered s' := by
  cases a with
  | tick d => cases hs; exact { h with }
  | setRXContext accept global test => cases hs; exact { h with }
  | openSocket | deliverDone =>
    simp only [Receiver.step] at hs
    split at hs
    · cases hs; exact { h with }
    · cases hs
  | read i pkt =>
    simp only [Receiver.step, Receiver.read] at hs
    split at hs
    · rename_i hread
      split at hs
      · cases hs; exact h
      · cases hs
        exact h.leave rfl fun r he => by rw [hread.2.1] at he; cases he
    · cases hs
  | rxVoice i decoder o => exact h.rxVoice hlife hlock hdown hok hs
  | wake | decodeDone =>
    simp only [Receiver.step] at hs
    split at hs
    · cases hs
      exact h.setDecode fun _ _ _ _ he => by cases he
    · cases hs
  | rxService o => exact h.rxService hlife hlock hdown hok hs
  | deliver =>
    obtain ⟨-, rxEvents, onRX, deliver, rfl⟩ := Receiver.deliverStep_frame hs
    exact { h with }
  | close o => exact h.close hlife hlock hrec hdown hok hs

end Covered

/-- **Every reception is reported once.** In every run `OnRX` is called by one
goroutine at a time, no transmission is reported twice, and when `Close` returns
each report has been handed to `OnRX` or counted as dropped, once. After a run
in which nothing overtook a receive loop every transmission has its report, and
every packet that reached a stream lies in one. -/
theorem receptions_reported (self : UUID) (historyIdle clock : ℤ) (acts : List Act) (s : Receiver)
    (hrun : exec Receiver.step (.init self historyIdle clock) acts = some s) :
    (∀ draining, s.deliver = .calling draining → s.closer ≠ .calling) ∧
    (s.reports.map fun r => (r.stream, r.n)).Nodup ∧
    (s.closer = .returned → s.reports.Perm (s.onRX ++ s.dropped) ∧
      s.historyDropped = s.dropped.length) ∧
    (Meets Receiver.step Undisturbed (.init self historyIdle clock) acts →
      s.closer = .returned →
      (∀ sid < s.opened, ∀ n < (s.heap sid).begun,
        ∃ r ∈ s.reports, r.stream = sid ∧ r.n = n ∧ r.ev.key = (s.heap sid).key) ∧
      ∀ p ∈ s.routed, ∃ r ∈ s.reports, r.stream = p.stream ∧ r.ev.Holds p.at_) := by
  have h : Kept s := exec_invariant (fun _ _ _ h _ hs => h.step hs)
    (.init self historyIdle clock) (Meets.trivial ..) hrun
  refine ⟨fun draining hcall hclo => ?_, h.receipts.nodup, fun hret => ?_, fun hok hret => ?_⟩
  · have := (h.down.joined (hclo ▸ trivial)).2.2
    rw [hcall] at this
    cases this
  · have hdec : s.decode = .exited := (h.down.joined (hret ▸ trivial)).2.1
    have hqueued := h.receipts.queued
    rw [h.receipts.drained (hret ▸ trivial), hdec, hret] at hqueued
    exact ⟨by simpa [DecodePc.inHand, ClosePc.inHand] using hqueued, h.receipts.counted⟩
  · have hcov : Kept s ∧ Covered s := exec_invariant (I := fun s => Kept s ∧ Covered s)
      (fun _ _ _ h hok hs => ⟨h.1.step hs,
        h.2.step h.1.life h.1.lock h.1.receipts h.1.down hok hs⟩)
      ⟨.init self historyIdle clock, .init self historyIdle clock⟩ hok hrun
    have hclosed : ¬ s.closer.Before := by rw [hret]; exact id
    have hended : ∀ sid < s.opened, (s.heap sid).ended = true := by
      intro sid hlt
      have := hcov.2.ended hclosed sid hlt
      rw [hret] at this
      exact this.resolve_right List.not_mem_nil
    refine ⟨fun sid hlt n hn => ?_, fun p hp => ?_⟩
    · have hrange := (h.receipts.begun sid hlt).2
      rw [hended sid hlt, hret] at hrange
      have hm : n ∈ (s.reports.filter (·.stream = sid)).map (·.n) := by
        rw [hrange]
        simpa [ClosePc.owes] using hn
      obtain ⟨r, hr, rfl⟩ := List.mem_map.1 hm
      obtain ⟨hr, hstream⟩ := List.mem_filter.1 hr
      have hstream : r.stream = sid := by simpa using hstream
      exact ⟨r, hr, hstream, rfl, hstream ▸ h.receipts.filed r hr⟩
    · obtain ⟨hlt, hrep | ⟨hopen | howe, -⟩ | ⟨i, hi⟩⟩ := hcov.2.routed p hp
      · exact hrep
      · rw [hended _ hlt] at hopen
        cases hopen
      · rw [hret] at howe
        cases howe
      · rw [hcov.2.shut hclosed i] at hi
        cases hi

section Examples

/-- A packet is received, and the session closed after it. -/
def receivedThenClosed : List Act :=
  firstPacket ++ closeSteps 9 ++ [.decodeDone, .deliver, .deliver, .deliverDone, .deliver] ++
    closeSteps 5

/-- A packet is read before `Close`, and reaches its stream when `Close` has
already ended the open streams. -/
def routedAtClose : List Act :=
  [.setRXContext [30000] [] [], .read 0 packetOn30] ++ closeSteps 4 ++ voiceSteps 4 ++
    closeSteps 2 ++ [.decodeDone, .deliverDone, .deliver] ++ closeSteps 5

theorem receptions_reported_one :
    ∃ s, exec Receiver.step (.init .nil (ms 500) 0) receivedThenClosed = some s ∧
      s.closer = .returned ∧ s.routed = [⟨0, 0⟩] ∧
      (∃ r ∈ s.reports, r.stream = 0 ∧ r.ev.Holds 0) ∧ s.reports.Perm (s.onRX ++ s.dropped) := by
  have hrun : (exec Receiver.step (.init .nil (ms 500) 0) receivedThenClosed).map
      (fun s => (s.closer, s.routed)) = some (.returned, [⟨0, 0⟩]) := by decide +kernel
  have hok : Meets Receiver.step Undisturbed (.init .nil (ms 500) 0) receivedThenClosed := by
    decide +kernel
  obtain ⟨s, hs, he⟩ := Option.map_eq_some_iff.1 hrun
  obtain ⟨hret, hrouted⟩ := Prod.mk.inj he
  obtain ⟨-, -, hperm, hall⟩ := receptions_reported .nil (ms 500) 0 receivedThenClosed s hs
  exact ⟨s, hs, hret, hrouted, (hall hok hret).2 ⟨0, 0⟩ (by simp [hrouted]), (hperm hret).1⟩

/-- **A packet that arrives while the session closes is in no report.** -/
theorem lost_at_close :
    ¬ ∀ acts s, exec Receiver.step (.init .nil (ms 500) 0) acts = some s →
      s.closer = .returned → ∀ p ∈ s.routed, ∃ r ∈ s.reports, r.stream = p.stream ∧
        r.ev.Holds p.at_ := by
  intro h
  have hrun : (exec Receiver.step (.init .nil (ms 500) 0) routedAtClose).map
      (fun s => (s.closer, s.routed, s.reports)) = some (.returned, [⟨0, 0⟩], []) := by
    decide +kernel
  obtain ⟨s, hs, he⟩ := Option.map_eq_some_iff.1 hrun
  obtain ⟨hret, hrest⟩ := Prod.mk.inj he
  obtain ⟨hrouted, hreports⟩ := Prod.mk.inj hrest
  obtain ⟨r, hr, -⟩ := h routedAtClose s hs hret ⟨0, 0⟩ (by simp [hrouted])
  rw [hreports] at hr
  cases hr

end Examples

end VcsClient.Voice
