import VcsClient.App.OneOwner

/-!
# The voice state of the monitor

Every session delivers its states from a loop of its own, and the report carries
no mark of the session. `Reported`: the last report of a session that is or may
become the live one is what the monitor holds, unless another session has still
to deliver its Closed; when none has, the monitor holds unavailable.

So the monitor is wrong only when a session that was replaced or rejected, or
whose dial failed, or a `reportVoiceUnavailable`, reports over a candidate that
has reported before. `Quiet` leaves these reports out.
-/

namespace VcsClient.App

open VcsClient.Lib VcsClient.State VcsClient.Voice

/-- The session the goroutine will install. -/
def Task.awaits (gen : ℕ) : Task → Option ℕ
  | .dialing g sid | .swap g sid => if g = gen then some sid else none
  | _ => none

/-- What setVoiceSession still has to close. -/
def Task.old : Task → Option ℕ
  | .store _ _ old _ | .close old _ => old
  | _ => none

namespace Owner

/-- The session that is live and those that may become it. -/
def candidates (p : Owner) : List ℕ :=
  p.sess.toList ++ p.tasks.entries.filterMap fun e => e.2.awaits p.gen

def Unheard (p : Owner) : Prop := ∀ sid ∈ p.candidates, (p.sessions sid).last = none

instance (p : Owner) : Decidable p.Unheard :=
  inferInstanceAs (Decidable (∀ sid ∈ p.candidates, _))

def QuietTask (p : Owner) : Task → Prop
  | .unavailable _ => p.Unheard
  | _ => True

instance (p : Owner) : ∀ t, Decidable (p.QuietTask t)
  | .unavailable _ => inferInstanceAs (Decidable p.Unheard)
  | .live | .capture _ | .inputs _ | .self _ _ _ | .config _ _ _ _ | .dial _ _ | .dialing _ _
  | .swap _ _ | .clear _ | .reject _ | .store _ _ _ _ | .close _ _ => .isTrue trivial

/-- Once a candidate has reported, only candidates report. -/
def Quiet (p : Owner) : OwnerOp → Prop
  | .deliver sid => sid ∈ p.candidates ∨ p.Unheard
  | .run id _ => ∀ t ∈ p.tasks.lookup id, p.QuietTask t
  | _ => True

instance (p : Owner) : ∀ op, Decidable (p.Quiet op)
  | .deliver sid => inferInstanceAs (Decidable (sid ∈ p.candidates ∨ p.Unheard))
  | .run id _ => inferInstanceAs (Decidable (∀ t ∈ p.tasks.lookup id, p.QuietTask t))
  | .start _ | .restart _ | .stop _ | .change _ _ | .self _ | .configure _ | .commit _ _ _ =>
    .isTrue trivial

/-- The monitor holds the state of the live session, or unavailable. -/
def Shown (p : Owner) : Prop :=
  match p.sess with
  | none => p.monitor = reportVoiceUnavailable
  | some sid => p.monitor.state = .voice (p.sessions sid).state

structure Healthy (p : Owner) : Prop where
  shown : p.Quiescent → p.Shown
  /-- No report of a replaced session came over one of its successor. -/
  kept : p.overwrites = []

end Owner

/-! ## What a session has queued -/

/-- Everything a session has to say or said last, in order. -/
def Dialled.said (s : Dialled) : List StateChange := s.last.toList ++ s.cbQueue

def Dialled.Finished (s : Dialled) : Prop := ∃ c, s.last = some c ∧ c.st = .closed

structure Dialled.Orderly (s : Dialled) : Prop where
  /-- The newest is the state of the session. -/
  newest : ∃ c, s.said.getLast? = some c ∧ c.st = s.state
  final : s.cbFinal = true ↔ s.state = .closed
  /-- Only a session closed for good says so. -/
  closed : ∀ c ∈ s.said, c.st = .closed → s.cbFinal = true

namespace Dialled

theorem orderly_dial (inputs : DialInputs) : (dial inputs).Orderly where
  newest := ⟨⟨.resolving, none⟩, rfl, rfl⟩
  final := by simp [dial]
  closed c hc hst := by
    simp only [said, dial, Option.toList_none, List.nil_append, List.mem_singleton] at hc
    rw [hc] at hst
    cases hst

variable {s : Dialled} {st : SessionState} {err : Option Cause}

@[simp] theorem setState_last : (s.setState st err).last = s.last := by
  unfold setState
  split <;> rfl

theorem setState_closed : (s.setState .closed err).cbFinal = true := by
  unfold setState
  split
  · next hf => exact hf
  · rfl

theorem setState_cbFinal (hc : st ≠ .closed) : (s.setState st err).cbFinal = s.cbFinal := by
  unfold setState
  split
  · rfl
  · next hf => simp [hc, hf]

theorem Orderly.setState (h : s.Orderly) : (s.setState st err).Orderly := by
  unfold Dialled.setState
  split
  · exact h
  · next hf =>
    refine ⟨⟨⟨st, err⟩, ?_, rfl⟩, by simp, fun c hc hst => ?_⟩
    · simp [said, ← List.append_assoc]
    · simp only [said, ← List.append_assoc, List.mem_append, List.mem_singleton] at hc
      rcases hc with hc | rfl
      · exact absurd (h.closed c (List.mem_append.2 hc) hst) hf
      · simpa using hst

theorem Orderly.running (h : s.Orderly) : { s with running := true }.Orderly :=
  ⟨h.newest, h.final, h.closed⟩

theorem Orderly.deliver {change : StateChange} {rest : List StateChange} (h : s.Orderly)
    (hq : s.cbQueue = change :: rest) :
    { s with cbQueue := rest, last := some change }.Orderly := by
  have hsaid : s.said = s.last.toList ++ change :: rest := by rw [said, hq]
  refine ⟨?_, h.final, fun c hc => h.closed c ?_⟩
  · obtain ⟨c, hc, hst⟩ := h.newest
    refine ⟨c, ?_, hst⟩
    rw [hsaid, List.getLast?_append_of_ne_nil _ (by simp)] at hc
    exact hc
  · rw [hsaid]
    exact List.mem_append_right _ hc

theorem Orderly.delivered (h : s.Orderly) (hq : s.cbQueue = []) :
    ∃ c, s.last = some c ∧ c.st = s.state := by
  obtain ⟨c, hc, hst⟩ := h.newest
  refine ⟨c, ?_, hst⟩
  cases hl : s.last with
  | none => simp [said, hl, hq] at hc
  | some c' => simpa [said, hl, hq] using hc

end Dialled

namespace Owner

variable {parse : Guid → Option UUID} {p p' : Owner} {op : OwnerOp} {id : ℕ} {t : Task}
  {o : Option Task} {err : Option Cause} {sid : ℕ}

structure Sessions (p : Owner) : Prop where
  orderly : ∀ sid < p.opened, (p.sessions sid).Orderly
  ended : ∀ sid < p.opened, ((p.sessions sid).cbFinal = true ↔ sid ∈ p.closes ∨ sid ∈ p.failed)

theorem sessions_init (st : Store) (config : DialConfig) : (init st config).Sessions where
  orderly _ hlt := absurd hlt (Nat.not_lt_zero _)
  ended _ hlt := absurd hlt (Nat.not_lt_zero _)

theorem Sessions.update (h : p.Sessions) (sid : ℕ) {s : Dialled}
    (hs : (p.sessions sid).Orderly → s.Orderly) (hf : s.cbFinal = (p.sessions sid).cbFinal) :
    { p with sessions := Function.update p.sessions sid s }.Sessions where
  orderly i hi := by
    change (Function.update p.sessions sid s i).Orderly
    by_cases hne : i = sid
    · subst hne
      rw [Function.update_self]
      exact hs (h.orderly i hi)
    · rw [Function.update_of_ne hne]
      exact h.orderly i hi
  ended i hi := by
    have hk : (Function.update p.sessions sid s i).cbFinal = (p.sessions i).cbFinal :=
      update_keeps Dialled.cbFinal hf i
    change (Function.update p.sessions sid s i).cbFinal = true ↔ _
    rw [hk]
    exact h.ended i hi

theorem Sessions.closing (h : p.Sessions) (sid : ℕ) (closes failed : List ℕ) {err : Option Cause}
    (hmem : ∀ i, i ∈ closes ∨ i ∈ failed ↔ (i ∈ p.closes ∨ i ∈ p.failed) ∨ i = sid) :
    { p with
      sessions := Function.update p.sessions sid ((p.sessions sid).setState .closed err)
      closes := closes
      failed := failed }.Sessions where
  orderly i hi := by
    change (Function.update p.sessions sid _ i).Orderly
    by_cases hne : i = sid
    · subst hne
      rw [Function.update_self]
      exact (h.orderly i hi).setState
    · rw [Function.update_of_ne hne]
      exact h.orderly i hi
  ended i hi := by
    change (Function.update p.sessions sid _ i).cbFinal = true ↔ i ∈ closes ∨ i ∈ failed
    rw [hmem]
    by_cases hne : i = sid
    · subst hne
      rw [Function.update_self]
      simp [Dialled.setState_closed]
    · rw [Function.update_of_ne hne, h.ended i hi]
      simp [hne]

theorem Sessions.ran (h : p.Sessions) (hA : p.Accounted)
    (hm : p.TaskMoves parse id err t p') : p'.Sessions := by
  cases hm with
  | dialing gen inputs =>
    refine ⟨fun i hi => ?_, fun i hi => ?_⟩
    · change (Function.update p.sessions p.opened (.dial inputs) i).Orderly
      by_cases hne : i = p.opened
      · subst hne
        rw [Function.update_self]
        exact Dialled.orderly_dial inputs
      · rw [Function.update_of_ne hne]
        exact h.orderly i (Nat.lt_of_le_of_ne (Nat.le_of_lt_succ hi) hne)
    · change (Function.update p.sessions p.opened (.dial inputs) i).cbFinal = true ↔ _
      by_cases hne : i = p.opened
      · subst hne
        rw [Function.update_self]
        exact iff_of_false (by simp [Dialled.dial]) fun hc => lt_irrefl _ (hA.lt hc)
      · rw [Function.update_of_ne hne]
        exact h.ended i (Nat.lt_of_le_of_ne (Nat.le_of_lt_succ hi) hne)
  | dialled gen s => exact { h.update s Dialled.Orderly.running rfl with }
  | failed gen s cause he =>
    exact { h.closing s p.closes (p.failed ++ [s])
      (fun i => by simp [or_assoc]) with }
  | rejected s =>
    exact { h.closing s (p.closes ++ [s]) p.failed
      (fun i => by simp [or_right_comm]) with }
  | closed old after =>
    exact { h.closing old (p.closes ++ [old]) p.failed
      (fun i => by simp [or_right_comm]) with }
  | _ => exact { h with }

theorem Sessions.moves (h : p.Sessions) (hA : p.Accounted) (hm : p.Moves parse op p') :
    p'.Sessions := by
  cases hm with
  | ran ht hm => exact h.ran hA hm
  | committed hr hc => exact h.update _ Dialled.Orderly.setState (Dialled.setState_cbFinal hc)
  | delivered hq hsid =>
    exact { h.update _ (fun hs => hs.deliver hq) rfl with }
  | _ => exact { h with }

/-! ## Candidates -/

theorem mem_candidates : sid ∈ p.candidates ↔ p.sess = some sid ∨
    ∃ id t, p.tasks.lookup id = some t ∧ t.awaits p.gen = some sid := by
  unfold candidates
  rw [List.mem_append, Option.mem_toList, List.mem_filterMap]
  refine or_congr Iff.rfl ⟨fun ⟨e, he, ha⟩ => ⟨e.1, e.2, AList.mem_lookup_iff.2 he, ha⟩, ?_⟩
  rintro ⟨id, t, ht, ha⟩
  exact ⟨⟨id, t⟩, AList.mem_lookup_iff.1 ht, ha⟩

theorem awaits_hands {gen : ℕ} (ha : t.awaits gen = some sid) :
    sid ∈ t.hands ∧ t.gen = some gen := by
  cases t with
  | dialing g s | swap g s =>
    simp only [Task.awaits] at ha
    split at ha
    · next hg =>
      cases ha
      exact ⟨List.mem_singleton_self _, congrArg some hg⟩
    · cases ha
  | _ => cases ha

theorem Accounted.candidate (h : p.Accounted) (hc : sid ∈ p.candidates) :
    sid < p.opened ∧ sid ∉ p.closes ∧ sid ∉ p.failed := by
  rcases mem_candidates.1 hc with hs | ⟨id, t, ht, ha⟩
  · exact h.installed hs
  · obtain ⟨hlt, -, hcl, hf, -⟩ := h.in_hands ht (awaits_hands ha).1
    exact ⟨hlt, hcl, hf⟩

/-- Every replaced session is closed or about to be. -/
def Replacing (p : Owner) : Prop := ∀ sid ∈ p.replaced,
  sid ∈ p.closes ∨ ∃ id t, p.tasks.lookup id = some t ∧ t.old = some sid

theorem replacing_init (st : Store) (config : DialConfig) : (init st config).Replacing :=
  fun sid hs => absurd hs (by simp [init])

theorem Replacing.goes (h : p.Replacing) {replaced closes : List ℕ}
    (hr : ∀ sid ∈ replaced, sid ∈ p.replaced ∨ ∃ t' ∈ o, t'.old = some sid)
    (hc : ∀ sid ∈ p.closes, sid ∈ closes)
    (ht : ∀ t, p.tasks.lookup id = some t → ∀ sid, t.old = some sid →
      sid ∈ closes ∨ ∃ t' ∈ o, t'.old = some sid) :
    { p with
      tasks := assign p.tasks id o
      replaced := replaced
      closes := closes }.Replacing := by
  intro sid hs
  have hnew : (∃ t' ∈ o, t'.old = some sid) →
      ∃ id' t', (assign p.tasks id o).lookup id' = some t' ∧ t'.old = some sid :=
    fun ⟨t', ho, hold⟩ => ⟨id, t', by rw [lookup_assign, if_pos rfl]; exact ho, hold⟩
  rcases hr sid hs with hs | hn
  · rcases h sid hs with hcl | ⟨id', t', ht', hold⟩
    · exact .inl (hc sid hcl)
    · by_cases he : id' = id
      · subst he
        exact (ht t' ht' sid hold).imp_right hnew
      · exact .inr ⟨id', t', by rw [lookup_assign, if_neg he]; exact ht', hold⟩
  · exact .inr (hnew hn)

theorem Replacing.ran (h : p.Replacing) (ht : p.tasks.lookup id = some t)
    (hm : p.TaskMoves parse id err t p') : p'.Replacing := by
  cases hm with
  | advanced ha =>
    have hold : t.old = none := by cases ha <;> rfl
    exact h.goes (fun _ hs => .inl hs) (fun _ hc => hc) (by simp [ht, hold])
  | captured seen =>
    exact h.goes (o := some (.inputs (p.gen + 1))) (fun _ hs => .inl hs) (fun _ hc => hc)
      (by simp [ht, Task.old])
  | dialing gen inputs =>
    exact h.goes (o := some (.dialing gen p.opened)) (fun _ hs => .inl hs) (fun _ hc => hc)
      (by simp [ht, Task.old])
  | dialled gen s =>
    exact h.goes (o := some (.swap gen s)) (fun _ hs => .inl hs) (fun _ hc => hc)
      (by simp [ht, Task.old])
  | failed gen s cause he =>
    exact h.goes (o := none) (fun _ hs => .inl hs) (fun _ hc => hc) (by simp [ht, Task.old])
  | installed gen s hg =>
    exact h.goes (o := some (.store (some s) (p.swaps + 1) p.sess .installed))
      (by simp [Task.old]) (fun _ hc => hc) (by simp [ht, Task.old])
  | cleared restart =>
    exact h.goes (o := some (.store none (p.swaps + 1) p.sess (.stopped restart)))
      (by simp [Task.old]) (fun _ hc => hc) (by simp [ht, Task.old])
  | rejected s =>
    exact h.goes (o := none) (fun _ hs => .inl hs) (fun _ hc => List.mem_append_left _ hc)
      (by simp [ht, Task.old])
  | stored sess n old after =>
    exact h.goes (o := some (.close old after)) (fun _ hs => .inl hs) (fun _ hc => hc)
      (by simp +contextual [ht, Task.old])
  | closed old after =>
    exact h.goes (o := after.task) (fun _ hs => .inl hs) (fun _ hc => List.mem_append_left _ hc)
      (by simp +contextual [ht, Task.old, eq_comm])
  | unavailable restart =>
    exact h.goes (o := if restart then some (.capture none) else none) (fun _ hs => .inl hs)
      (fun _ hc => hc) (by simp [ht, Task.old])

theorem Replacing.moves (h : p.Replacing) (hm : p.Moves parse op p') : p'.Replacing := by
  cases hm with
  | @entered _ id t hid ht =>
    exact h.goes (o := some t) (fun _ hs => .inl hs) (fun _ hc => hc) (by simp [hid])
  | changed hid st =>
    exact h.goes (o := some .live) (fun _ hs => .inl hs) (fun _ hc => hc) (by simp [hid])
  | ran ht hm => exact h.ran ht hm
  | _ => exact h

theorem old_hands (ho : t.old = some sid) : sid ∈ t.hands := by
  cases t with
  | store sess n old after | close old after =>
    cases (show old = some sid from ho)
    exact List.mem_singleton_self _
  | _ => cases ho

theorem Replacing.not_candidate (h : p.Replacing) (hA : p.Accounted) (hs : sid ∈ p.replaced) :
    sid ∉ p.candidates := by
  intro hc
  rcases h sid hs with hcl | ⟨id, t, ht, ho⟩
  · exact (hA.candidate hc).2.1 hcl
  · obtain ⟨-, hne, -, -, hnone⟩ := hA.in_hands ht (old_hands ho)
    rcases mem_candidates.1 hc with hsess | ⟨id', t', ht', ha⟩
    · exact hne hsess
    · have hid : id' ≠ id := by
        rintro rfl
        rw [ht] at ht'
        cases ht'
        cases t <;> first | cases ha | cases ho
      have hpos : 0 < t'.hands.count sid := List.count_pos_iff.2 (awaits_hands ha).1
      rw [held_of_lookup _ id' _ (by rw [AList.lookup_erase_ne hid]; exact ht')] at hnone
      omega

/-! ## What the monitor holds -/

structure Reported (p : Owner) : Prop where
  /-- The last report of a candidate stands, or another session has to close. -/
  heard : ∀ sid ∈ p.candidates, ∀ c, (p.sessions sid).last = some c → p.monitor = onState c ∨
    ∃ other < p.opened, other ≠ sid ∧ ¬(p.sessions other).Finished
  silent : (∀ sid < p.opened, (p.sessions sid).Finished) → p.monitor = reportVoiceUnavailable
  kept : p.overwrites = []

theorem reported_init (st : Store) (config : DialConfig) : (init st config).Reported where
  heard sid hs := absurd hs (by simp [init, candidates])
  silent _ := rfl
  kept := rfl

theorem Reported.frame (h : p.Reported) (hA : p.Accounted) (hmon : p'.monitor = p.monitor)
    (hover : p'.overwrites = p.overwrites) (hopened : p.opened ≤ p'.opened)
    (hlast : ∀ sid < p.opened, (p'.sessions sid).last = (p.sessions sid).last)
    (hcand : ∀ sid ∈ p'.candidates, sid ∈ p.candidates ∨ (p'.sessions sid).last = none) :
    p'.Reported where
  heard sid hs c hc := by
    rcases hcand sid hs with hold | hnone
    · rw [hlast sid (hA.candidate hold).1] at hc
      refine (h.heard sid hold c hc).imp (fun hm => hmon.trans hm) ?_
      rintro ⟨other, hlt, hne, hfin⟩
      refine ⟨other, hlt.trans_le hopened, hne, ?_⟩
      unfold Dialled.Finished
      rw [hlast other hlt]
      exact hfin
    · rw [hnone] at hc
      cases hc
  silent hfin := hmon.trans <| h.silent fun sid hlt => by
    have := hfin sid (hlt.trans_le hopened)
    unfold Dialled.Finished at this
    rwa [hlast sid hlt] at this
  kept := hover.trans h.kept

theorem candidates_goes (htasks : p'.tasks = assign p.tasks id o)
    (hold : ∀ sid, p'.sess = some sid → sid ∈ p.candidates)
    (hgen : p'.gen = p.gen ∨ ∀ id t, p.tasks.lookup id = some t → t.gen ≠ some p'.gen)
    (ho : ∀ t' ∈ o, ∀ sid, t'.awaits p'.gen = some sid →
      sid ∈ p.candidates ∨ (p'.sessions sid).last = none) :
    ∀ sid ∈ p'.candidates, sid ∈ p.candidates ∨ (p'.sessions sid).last = none := by
  intro sid hs
  rcases mem_candidates.1 hs with hsess | ⟨id', t', ht', ha⟩
  · exact .inl (hold sid hsess)
  · rw [htasks, lookup_assign] at ht'
    split at ht'
    · exact ho t' ht' sid ha
    · rcases hgen with he | hne
      · rw [he] at ha
        exact .inl (mem_candidates.2 (.inr ⟨id', t', ht', ha⟩))
      · exact absurd (awaits_hands ha).2 (hne id' t' ht')

theorem Reported.ran (h : p.Reported) (hA : p.Accounted) (hB : p.Bounded)
    (ht : p.tasks.lookup id = some t) (hquiet : p.QuietTask t)
    (hm : p.TaskMoves parse id err t p') : p'.Reported := by
  have hsess : ∀ sid, p.sess = some sid → sid ∈ p.candidates :=
    fun sid hs => mem_candidates.2 (.inl hs)
  -- a new generation leaves the candidates of the older ones behind
  have hlt : ∀ id' t', p.tasks.lookup id' = some t' → t'.gen ≠ some (p.gen + 1) :=
    fun id' t' ht' hg => by
      have := hB id' t' ht' _ hg
      omega
  have hclosed : ∀ (i : ℕ) (err : Option Cause), ∀ sid < p.opened,
      (Function.update p.sessions i ((p.sessions i).setState .closed err) sid).last =
        (p.sessions sid).last :=
    fun i err sid _ => update_keeps Dialled.last Dialled.setState_last sid
  cases hm with
  | advanced ha =>
    refine h.frame hA rfl rfl le_rfl (fun _ _ => rfl)
      (candidates_goes rfl hsess (.inl rfl) fun t' ht' sid hs => ?_)
    cases ha with
    | @closed after =>
      cases after with
      | installed => cases ht'
      | stopped restart =>
        cases ht'
        cases hs
    | _ =>
      cases ht'
      try cases hs
  | captured seen =>
    exact h.frame hA rfl rfl le_rfl (fun _ _ => rfl)
      (candidates_goes (o := some (.inputs (p.gen + 1))) rfl hsess (.inr hlt)
        (by simp [Task.awaits]))
  | dialing gen inputs =>
    refine h.frame hA rfl rfl (Nat.le_succ _) (fun sid hsid => ?_)
      (candidates_goes (o := some (.dialing gen p.opened)) rfl hsess (.inl rfl)
        fun t' ht' sid hs => ?_)
    · simp [Function.update_of_ne (Nat.ne_of_lt hsid)]
    · cases ht'
      simp only [Task.awaits] at hs
      split at hs
      · cases hs
        exact .inr (by simp [Dialled.dial])
      · cases hs
  | dialled gen s =>
    refine h.frame hA rfl rfl le_rfl (fun sid _ => update_keeps Dialled.last ?_ sid)
      (candidates_goes (o := some (.swap gen s)) rfl hsess (.inl rfl) fun t' ht' sid hs => ?_)
    · rfl
    · cases ht'
      exact .inl (mem_candidates.2 (.inr ⟨id, _, ht, hs⟩))
  | failed gen s cause he =>
    exact h.frame hA rfl rfl le_rfl (hclosed s _)
      (candidates_goes (o := none) rfl hsess (.inl rfl) (by simp))
  | installed gen s hg =>
    refine h.frame hA rfl rfl le_rfl (fun _ _ => rfl)
      (candidates_goes (o := some (.store (some s) (p.swaps + 1) p.sess .installed)) rfl
        (fun sid hs => ?_) (.inl rfl) (by simp [Task.awaits]))
    cases hs
    exact mem_candidates.2 (.inr ⟨id, _, ht, by simp [Task.awaits, hg]⟩)
  | cleared restart =>
    exact h.frame hA rfl rfl le_rfl (fun _ _ => rfl)
      (candidates_goes (o := some (.store none (p.swaps + 1) p.sess (.stopped restart))) rfl
        (by simp) (.inr hlt) (by simp [Task.awaits]))
  | rejected s =>
    exact h.frame hA rfl rfl le_rfl (hclosed s _)
      (candidates_goes (o := none) rfl hsess (.inl rfl) (by simp))
  | stored sess n old after =>
    exact h.frame hA rfl rfl le_rfl (fun _ _ => rfl)
      (candidates_goes (o := some (.close old after)) rfl hsess (.inl rfl) (by simp [Task.awaits]))
  | closed old after =>
    exact h.frame hA rfl rfl le_rfl (hclosed old _)
      (candidates_goes (o := after.task) rfl hsess (.inl rfl)
        (by cases after <;> simp [AfterSet.task, Task.awaits]))
  | unavailable restart =>
    refine ⟨fun sid hs c hc => ?_, fun _ => rfl, h.kept⟩
    have hnone : (p.sessions sid).last = none := by
      refine (@candidates_goes p _ id (if restart then some (.capture none) else none)
        ?_ ?_ ?_ ?_ sid hs).elim (hquiet sid) (fun h => h)
      · rfl
      · exact hsess
      · exact .inl rfl
      · cases restart <;> simp [Task.awaits]
    exact absurd (hnone.symm.trans hc) (by simp)

theorem onState_closed {c : StateChange} (hc : c.st = .closed) :
    onState c = reportVoiceUnavailable := if_pos hc

theorem onState_state {c : StateChange} (hc : c.st ≠ .closed) :
    (onState c).state = .voice c.st := by
  rw [onState, if_neg hc]
  rfl

theorem Sessions.open_said (hS : p.Sessions) (hlt : sid < p.opened)
    (hn : ¬(sid ∈ p.closes ∨ sid ∈ p.failed)) {c : StateChange}
    (hc : c ∈ (p.sessions sid).said) : c.st ≠ .closed :=
  fun hst => hn ((hS.ended sid hlt).1 ((hS.orderly sid hlt).closed c hc hst))

theorem Reported.delivered (h : p.Reported) (hA : p.Accounted) (hS : p.Sessions)
    (hR : p.Replacing) {change : StateChange} {rest : List StateChange}
    (hquiet : sid ∈ p.candidates ∨ p.Unheard) (hlt : sid < p.opened)
    (hq : (p.sessions sid).cbQueue = change :: rest) :
    { p with
      sessions := Function.update p.sessions sid
        { p.sessions sid with cbQueue := rest, last := some change }
      monitor := onState change
      overwrites := p.overwrites ++ p.overwritten sid }.Reported where
  heard N hN c hc := by
    change (Function.update p.sessions sid _ N).last = some c at hc
    by_cases hne : N = sid
    · subst hne
      rw [Function.update_self] at hc
      cases hc
      exact .inl rfl
    · rw [Function.update_of_ne hne] at hc
      rcases hquiet with hcand | hun
      · obtain ⟨-, hcl, hf⟩ := hA.candidate hcand
        have hst : change.st ≠ .closed := hS.open_said hlt (by simp [hcl, hf])
          (by simp [Dialled.said, hq])
        refine .inr ⟨sid, hlt, fun he => hne he.symm, ?_⟩
        rintro ⟨c', hc', hst'⟩
        change (Function.update p.sessions sid _ sid).last = some c' at hc'
        rw [Function.update_self] at hc'
        cases hc'
        exact hst hst'
      · rw [hun N hN] at hc
        cases hc
  silent hfin := by
    obtain ⟨c, hc, hst⟩ := hfin sid hlt
    change (Function.update p.sessions sid _ sid).last = some c at hc
    rw [Function.update_self] at hc
    cases hc
    exact onState_closed hst
  kept := by
    change p.overwrites ++ p.overwritten sid = []
    rw [h.kept, List.nil_append]
    unfold overwritten
    cases hs : p.sess with
    | none => rfl
    | some sess =>
      refine if_neg fun ⟨hrep, _, hsome⟩ => ?_
      have hun := hquiet.resolve_left (hR.not_candidate hA hrep)
      rw [hun sess (mem_candidates.2 (.inl hs))] at hsome
      cases hsome

theorem Reported.moves (h : p.Reported) (hA : p.Accounted) (hB : p.Bounded) (hS : p.Sessions)
    (hR : p.Replacing) (hok : p.Quiet op) (hm : p.Moves parse op p') : p'.Reported := by
  have hsess : ∀ sid, p.sess = some sid → sid ∈ p.candidates :=
    fun sid hs => mem_candidates.2 (.inl hs)
  cases hm with
  | @entered _ id t hid ht =>
    exact h.frame hA rfl rfl le_rfl (fun _ _ => rfl)
      (candidates_goes (o := some t) rfl hsess (.inl rfl) (by cases ht <;> simp [Task.awaits]))
  | changed hid st =>
    exact h.frame hA rfl rfl le_rfl (fun _ _ => rfl)
      (candidates_goes (o := some .live) rfl hsess (.inl rfl) (by simp [Task.awaits]))
  | ran ht hm => exact h.ran hA hB ht (hok _ ht) hm
  | committed hr hc =>
    exact h.frame hA rfl rfl le_rfl
      (fun sid _ => update_keeps Dialled.last Dialled.setState_last sid) fun sid hs => .inl hs
  | delivered hq hsid => exact h.delivered hA hS hR hok hsid hq
  | _ => exact { h with }

/-! ## At rest -/

theorem Accounted.rest (h : p.Accounted) (hrest : p.tasks = ∅) (hlt : sid < p.opened)
    (hs : p.sess ≠ some sid) : sid ∈ p.closes ∨ sid ∈ p.failed := by
  have hsid := h sid
  have hnone : p.sess.toList.count sid = 0 := by
    rw [List.count_eq_zero, Option.mem_toList]
    exact hs
  rw [hrest, List.count_range, if_pos hlt, hnone] at hsid
  change _ + 0 + 0 + _ = 1 at hsid
  rcases Nat.eq_zero_or_pos (p.closes.count sid) with hz | hpos
  · exact .inr (List.count_pos_iff.1 (by omega))
  · exact .inl (List.count_pos_iff.1 hpos)

theorem healthy_of (hA : p.Accounted) (hS : p.Sessions) (h : p.Reported) : p.Healthy where
  kept := h.kept
  shown := by
    rintro ⟨hrest, hqueues⟩
    have hfin : ∀ sid < p.opened, p.sess ≠ some sid → (p.sessions sid).Finished := by
      intro sid hlt hs
      obtain ⟨c, hc, hst⟩ := (hS.orderly sid hlt).delivered (hqueues sid hlt)
      have hf := (hS.ended sid hlt).2 (hA.rest hrest hlt hs)
      exact ⟨c, hc, hst.trans ((hS.orderly sid hlt).final.1 hf)⟩
    unfold Shown
    cases hs : p.sess with
    | none => exact h.silent fun sid hlt => hfin sid hlt (by rw [hs]; simp)
    | some sid =>
      obtain ⟨hlt, hcl, hf⟩ := hA.installed hs
      obtain ⟨c, hc, hst⟩ := (hS.orderly sid hlt).delivered (hqueues sid hlt)
      have hopen : c.st ≠ .closed := hS.open_said hlt (by simp [hcl, hf])
        (by simp [Dialled.said, hc])
      rcases h.heard sid (mem_candidates.2 (.inl hs)) c hc with hm | ⟨other, holt, hne, hun⟩
      · change p.monitor.state = .voice (p.sessions sid).state
        rw [hm, onState_state hopen, hst]
      · exact absurd (hfin other holt fun he => hne (Option.some.inj (he.symm.trans hs))) hun

end Owner

/-- **The monitor shows the live session** at rest, and no replaced session
reports over its successor, along every run in which only candidates report once
a candidate has. -/
theorem voice_health (parse : Guid → Option UUID) (st : Store) (config : DialConfig)
    (ops : List OwnerOp) (p : Owner)
    (hok : Meets (Owner.step parse) Owner.Quiet (.init st config) ops)
    (hrun : exec (Owner.step parse) (.init st config) ops = some p) : p.Healthy := by
  have h : p.Accounted ∧ p.Bounded ∧ p.Sessions ∧ p.Replacing ∧ p.Reported := exec_invariant
    (I := fun p : Owner => p.Accounted ∧ p.Bounded ∧ p.Sessions ∧ p.Replacing ∧ p.Reported)
    (fun _ _ _ h hok hs =>
      have ⟨hA, hB, hS, hR, hM⟩ := h
      have hm := Owner.step_moves hs
      ⟨hA.moves hm, hB.moves hm, hS.moves hA hm, hR.moves hm, hM.moves hA hB hS hR hok hm⟩)
    ⟨Owner.accounted_init st config, Owner.bounded_init st config, Owner.sessions_init st config,
      Owner.replacing_init st config, Owner.reported_init st config⟩ hok hrun
  exact Owner.healthy_of h.1 h.2.2.1 h.2.2.2.2

/-- The session comes up, and what it says is delivered. -/
def comesUp (sid : ℕ) : List OwnerOp :=
  [.commit sid .handshaking none, .commit sid .connected none] ++ List.replicate 3 (.deliver sid)

theorem voice_health_replaced : ∃ p, exec (Owner.step parseNil) disconnected
    (synced ++ connecting ++ [.run 0 none, .run 0 none] ++ comesUp 0 ++ redirecting ++
      [.deliver 0] ++ comesUp 1) = some p ∧
      p.sess = some 1 ∧ p.monitor.state = .voice .connected ∧ p.Healthy := by
  have hrun : (exec (Owner.step parseNil) disconnected
      (synced ++ connecting ++ [.run 0 none, .run 0 none] ++ comesUp 0 ++ redirecting ++
        [.deliver 0] ++ comesUp 1)).map (fun p => (p.sess, p.monitor.state)) =
      some (some 1, .voice .connected) := by decide +kernel
  obtain ⟨p, hp, hv⟩ := Option.map_eq_some_iff.1 hrun
  exact ⟨p, hp, congrArg Prod.fst hv, congrArg Prod.snd hv,
    voice_health parseNil .new ⟨"", 0, ""⟩ _ p (by decide +kernel) hp⟩

/-- **The replaced session's Closed comes last**: voice is connected, and the
monitor holds unavailable. -/
theorem late_closed_reported : ∃ p, exec (Owner.step parseNil) disconnected
    (synced ++ connecting ++ [.run 0 none, .run 0 none] ++ comesUp 0 ++ redirecting ++
      comesUp 1 ++ [.deliver 0]) = some p ∧
      p.Quiescent ∧ p.monitor.state = .unavailable ∧ ¬p.Healthy := by
  have hrun : (exec (Owner.step parseNil) disconnected
      (synced ++ connecting ++ [.run 0 none, .run 0 none] ++ comesUp 0 ++ redirecting ++
        comesUp 1 ++ [.deliver 0])).map
        (fun p => (p.tasks.entries.length, p.opened, (p.sessions 0).cbQueue.length +
          (p.sessions 1).cbQueue.length, p.monitor.state, p.overwrites.length)) =
      some (0, 2, 0, .unavailable, 1) := by decide +kernel
  obtain ⟨p, hp, hv⟩ := Option.map_eq_some_iff.1 hrun
  simp only [Prod.mk.injEq, Nat.add_eq_zero_iff, List.length_eq_zero_iff] at hv
  obtain ⟨hrest, hopened, ⟨hq0, hq1⟩, hmon, hover⟩ := hv
  refine ⟨p, hp, ⟨AList.ext hrest, fun sid hlt => ?_⟩, hmon, fun h => ?_⟩
  · rw [hopened] at hlt
    obtain rfl | rfl : sid = 0 ∨ sid = 1 := by omega
    · exact hq0
    · exact hq1
  · rw [h.kept] at hover
    cases hover

end VcsClient.App
