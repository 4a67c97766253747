import VcsClient.Session.Streams

/-!
# Streams over whole runs

Every reachable state has its streams numbered, their generations unique and
none above the one installed last, one opener for a stream at most, and every
goroutine with the streams its place needs.
-/

namespace VcsClient.Session

open VcsClient.Lib

namespace Manager

/-- The generation of stream `p`, once it is installed. -/
def genOf (m : Manager) (p : ℕ) : Option ℕ := (m.streams.lookup p).bind Stream.gen

variable {cap : ℕ} {m : Manager} {t : ℕ} {pc : Pc} {a : Answer} {mv : Move}

theorem genOf_withStream {m' : Manager} {p : ℕ} {f : Stream → Stream}
    (hm : m'.streams = (m.withStream p f).streams) (hf : ∀ q, (f q).gen = q.gen) :
    m'.genOf = m.genOf := by
  funext u
  unfold genOf
  rw [hm, lookup_withStream]
  by_cases hu : u = p
  · subst hu
    rw [if_pos rfl]
    cases m.streams.lookup u with
    | none => rfl
    | some q => exact hf q
  · rw [if_neg hu]

theorem advance_ctxDone (h : m.advance cap t pc a = some mv) :
    ∀ o ∈ m.ctxDone, o ∈ mv.m.ctxDone := by
  replace h := advance_moves h
  induction h
  all_goals first
    | exact fun _ ho => ho
    | exact fun _ ho => List.mem_append_right _ ho

/-- The generations after a move: one stream takes the next, or none changes. -/
theorem pours_gens (hnum : m.StreamsNumbered) (hplace : m.Place t pc) (h : m.Pours t pc mv) :
    (mv.m.genOf = m.genOf ∧ m.streamGen ≤ mv.m.streamGen ∧ mv.m.installedGen = m.installedGen) ∨
      ∃ p, (∃ job, pc = .install job p ∧ m.Current job) ∧
        (∀ u, mv.m.genOf u = if u = p then some (m.streamGen + 1) else m.genOf u) ∧
        mv.m.streamGen = m.streamGen + 1 ∧ mv.m.installedGen = m.streamGen + 1 := by
  cases h with
  | still hstreams hgen hinstalled _ _ =>
    exact .inl ⟨by funext u; unfold genOf; rw [hstreams], hgen, hinstalled⟩
  | opens q hq hstreams hgen hinstalled _ _ =>
    refine .inl ⟨?_, hgen.ge, hinstalled⟩
    funext u
    unfold genOf
    by_cases hu : u = m.next
    · -- the number was not in use
      have hnone : m.streams.lookup u = none := by
        cases hl : m.streams.lookup u with
        | none => rfl
        | some q' => exact absurd (hnum u q' hl) (by omega)
      subst hu
      rw [hstreams, AList.lookup_insert, hnone]
      exact hq.1
    · rw [hstreams, AList.lookup_insert_ne hu]
  | gives p token _ _ hstreams hgen hinstalled _ _ =>
    exact .inl ⟨genOf_withStream hstreams fun _ => rfl, hgen.ge, hinstalled⟩
  | installs p token _ hjob hwait hstreams hgen hinstalled _ _ =>
    refine .inr ⟨p, hjob, fun u => ?_, hgen, hinstalled⟩
    obtain ⟨q, hq, -⟩ := hwait hplace
    unfold genOf
    rw [hstreams, lookup_withStream]
    by_cases hu : u = p
    · subst hu
      rw [if_pos rfl, if_pos rfl, hq]
      rfl
    · rw [if_neg hu, if_neg hu]
  | locks p _ hstreams hgen hinstalled _ _ =>
    exact .inl ⟨genOf_withStream hstreams fun _ => rfl, hgen.ge, hinstalled⟩
  | frees p _ hstreams hgen hinstalled _ _ =>
    exact .inl ⟨genOf_withStream hstreams fun _ => rfl, hgen.ge, hinstalled⟩
  | holds _ _ hstreams hgen hinstalled _ _ =>
    exact .inl ⟨genOf_withStream hstreams fun _ => rfl, hgen.ge, hinstalled⟩

/-- A stream after a move was there before it, or was just opened. -/
theorem pours_lookup (h : m.Pours t pc mv) {p : ℕ} {q' : Stream}
    (hq' : mv.m.streams.lookup p = some q') :
    (∃ q, m.streams.lookup p = some q) ∨ p = m.next ∧ mv.spawn = true ∧ q'.abandoned = false := by
  have hwith : ∀ {u : ℕ} {f : Stream → Stream}, mv.m.streams = (m.withStream u f).streams →
      ∃ q, m.streams.lookup p = some q := by
    intro u f hm
    rw [hm, lookup_withStream] at hq'
    split at hq'
    · next he =>
      subst he
      obtain ⟨q, hq, -⟩ := Option.map_eq_some_iff.1 hq'
      exact ⟨q, hq⟩
    · exact ⟨q', hq'⟩
  cases h with
  | still hstreams _ _ _ _ => exact .inl ⟨q', by rw [← hstreams, hq']⟩
  | opens q hq hstreams _ _ _ hspawn =>
    rw [hstreams] at hq'
    by_cases hp : p = m.next
    · subst hp
      rw [AList.lookup_insert] at hq'
      cases hq'
      exact .inr ⟨rfl, hspawn, hq.2⟩
    · rw [AList.lookup_insert_ne hp] at hq'
      exact .inl ⟨q', hq'⟩
  | gives _ _ _ _ hstreams _ _ _ _ | installs _ _ _ _ _ hstreams _ _ _ _ => exact .inl (hwith hstreams)
  | locks _ _ hstreams _ _ _ _ | frees _ _ hstreams _ _ _ _ => exact .inl (hwith hstreams)
  | holds _ _ hstreams _ _ _ _ => exact .inl (hwith hstreams)

theorem advance_streamGen (h : m.advance cap t pc a = some mv) :
    m.streamGen ≤ mv.m.streamGen := by
  cases advance_pours h with
  | still _ hgen _ _ _ => exact hgen
  | opens _ _ _ hgen _ _ _ => exact hgen.ge
  | gives _ _ _ _ _ hgen _ _ _ => exact hgen.ge
  | installs _ _ _ _ _ _ hgen _ _ _ => exact hgen ▸ Nat.le_succ _
  | locks _ _ _ hgen _ _ _ => exact hgen.ge
  | frees _ _ _ hgen _ _ _ => exact hgen.ge
  | holds _ _ _ hgen _ _ _ => exact hgen.ge

theorem abandoned_withStream {m' : Manager} {p : ℕ} {f : Stream → Stream} (h : m.AbandonedClean)
    (hm : m'.streams = (m.withStream p f).streams)
    (hf : ∀ q, m.streams.lookup p = some q → (f q).abandoned = true → (f q).gen = none) :
    m'.AbandonedClean := by
  intro u q' hq' ha
  rw [hm, lookup_withStream] at hq'
  split at hq'
  · obtain ⟨q, hq, rfl⟩ := Option.map_eq_some_iff.1 hq'
    exact hf q hq ha
  · exact h u q' hq' ha

theorem pours_abandoned (hab : m.AbandonedClean) (hplace : m.Place t pc) (h : m.Pours t pc mv) :
    mv.m.AbandonedClean := by
  cases h with
  | still hstreams _ _ _ _ =>
    intro u q hq
    exact hab u q (by rw [← hstreams, hq])
  | opens q hq hstreams _ _ _ _ =>
    intro u q' hq' ha
    rw [hstreams] at hq'
    by_cases hu : u = m.next
    · subst hu
      rw [AList.lookup_insert] at hq'
      cases hq'
      exact hq.1
    · rw [AList.lookup_insert_ne hu] at hq'
      exact hab u q' hq' ha
  | gives p token _ hwait hstreams _ _ _ _ =>
    refine abandoned_withStream hab hstreams fun q hq _ => ?_
    obtain ⟨q', hq', hw⟩ := hwait hplace
    cases hq.symm.trans hq'
    exact hw.gen
  | installs p token _ _ hwait hstreams _ _ _ _ =>
    refine abandoned_withStream hab hstreams fun q hq ha => ?_
    obtain ⟨q', hq', hw⟩ := hwait hplace
    cases hq.symm.trans hq'
    exact absurd hw.abandoned (by rw [show q.abandoned = true from ha]; nofun)
  | locks p _ hstreams _ _ _ _ | frees p _ hstreams _ _ _ _ =>
    exact abandoned_withStream hab hstreams fun q hq ha => hab p q hq ha
  | holds _ _ hstreams _ _ _ _ =>
    exact abandoned_withStream hab hstreams fun q hq ha => hab t q hq ha

theorem Place.owned (h : m.Place t pc) {p : ℕ} (ho : pc.owns = some p) :
    ∃ q, m.streams.lookup p = some q := by
  have hat : ∀ {P : Stream → Prop}, m.At p P → ∃ q, m.streams.lookup p = some q :=
    fun ⟨q, hq, _⟩ => ⟨q, hq⟩
  cases pc with
  | stillCurrent | syncClient | hydrate | install =>
    cases ho
    exact hat h.1
  | finalCheck | setSelf | release | replay =>
    cases ho
    exact hat h
  | _ => cases ho

/-- The stream a goroutine has opened after a move is the one it had, or new. -/
theorem pours_owns (h : m.Pours t pc mv) :
    Leads mv.pc fun pc' => ∀ p, pc'.owns = some p → pc.owns = some p ∨ p = m.next := by
  intro pc' hpc' p hp
  have hnone : pc'.owns = none → pc.owns = some p ∨ p = m.next := fun hn => by
    rw [hn] at hp
    cases hp
  cases h with
  | still _ _ _ howns _ =>
    rcases howns pc' hpc' with he | hn
    · exact .inl (he ▸ hp)
    · exact hnone hn
  | opens _ _ _ _ _ howns _ =>
    rw [howns pc' hpc'] at hp
    exact .inr (Option.some.inj hp).symm
  | installs p' _ hpc _ _ _ _ _ howns _ =>
    rw [howns pc' hpc'] at hp
    exact .inl (hpc.trans hp)
  | locks p' hpc _ _ _ howns _ =>
    rw [howns pc' hpc'] at hp
    exact .inl (hpc.trans hp)
  | gives _ _ _ _ _ _ _ howns _ => exact hnone (howns pc' hpc')
  | frees _ _ _ _ _ howns _ => exact hnone (howns pc' hpc')
  | holds _ _ _ _ _ howns _ => exact hnone (howns pc' hpc')

/-- A move of another goroutine leaves a place what it needs. -/
theorem Place.others {m' : Manager} {o : Option ℕ} (h : m.Place t pc) (hk : m.Keeps m')
    (hs : m.Spares m' o) (hc : ∀ u ∈ m.ctxDone, u ∈ m'.ctxDone)
    (ho : ∀ p, pc.owns = some p → o ≠ some p) : m'.Place t pc := by
  have hruns : ∀ job, m.Runs t job → m'.Runs t job := by
    intro job hj
    cases job with
    | resync gen token => exact At.keeps hj hk fun q q' hle hf => hf.le hle
    | _ => trivial
  cases pc with
  | subscribe job => exact hruns job h
  | stillCurrent gen token p =>
    exact ⟨h.1.spares hs (ho p rfl) fun q q' he hw => hw.same he,
      h.2.keeps hk fun q q' hle hf => hf.le hle⟩
  | syncClient job p | hydrate job p _ _ | install job p =>
    exact ⟨h.1.spares hs (ho p rfl) fun q q' he hw => hw.same he, hruns job h.2⟩
  | finalCheck token _ _ p | setSelf token _ _ p =>
    exact At.spares h hs (ho p rfl) fun q q' he hw => hw.same he
  | release _ p _ => exact At.spares h hs (ho p rfl) fun q q' he hw => hw.same he
  | replay _ p _ _ => exact At.spares h hs (ho p rfl) fun q q' he hw => hw.same he
  | select _ =>
    refine At.keeps h hk fun q q' hle hd => ?_
    rcases hd with hr | ha | hown
    · exact .inl (hle.released hr)
    · exact .inr (.inl (hle.abandoned ha))
    · exact .inr (.inr (by rw [hle.owner]; exact hc _ hown))
  | streamEnd gen _ =>
    refine At.keeps h hk fun q q' hle hd => ⟨hle.gen gen hd.1, ?_⟩
    rcases hd.2 with hr | hown
    · exact .inl (hle.released hr)
    · exact .inr (by rw [hle.owner]; exact hc _ hown)
  | streamCurrent gen _ | resync gen | resyncFailed gen _ _ =>
    exact At.keeps h hk fun q q' hle hf => hf.le hle
  | _ => trivial

end Manager

namespace System

/-- The stream goroutine `t` has opened and not yet released. -/
def opened (s : System) (t : ℕ) : Option ℕ := (s.threads.lookup t).bind Pc.owns

/-- What holds of the update streams. -/
structure Flow (s : System) : Prop where
  numbered : s.Numbered
  streams : s.m.StreamsNumbered
  abandoned : s.m.AbandonedClean
  installed : s.m.installedGen ≤ s.m.streamGen
  bounded : ∀ p g, s.m.genOf p = some g → g ≤ s.m.installedGen
  /-- two streams do not share a generation -/
  gens : UniqueTokens fun p => (s.m.genOf p).map fun g => ((), g)
  /-- two goroutines have not opened one stream -/
  openers : UniqueTokens fun t => (s.opened t).map fun p => ((), p)
  place : ∀ t pc, s.threads.lookup t = some pc → s.m.Place t pc

theorem init_flow : init.Flow where
  numbered := init_numbered
  streams p q h := by simp [init, Manager.init] at h
  abandoned p q h := by simp [init, Manager.init] at h
  installed := le_rfl
  bounded p g h := by simp [init, Manager.init, Manager.genOf] at h
  gens p q x y h := by simp [init, Manager.init, Manager.genOf] at h
  openers t u x y h := by simp [init, opened] at h
  place t pc h := by simp [init] at h

variable {cap : ℕ} {s s' : System}

theorem opened_some {t p : ℕ} {pc : Pc} (ht : s.threads.lookup t = some pc)
    (hp : pc.owns = some p) : (s.opened t).map (fun p => ((), p)) = some ((), p) := by
  unfold opened
  rw [ht, Option.bind_some, hp, Option.map_some]

theorem Flow.apart (h : s.Flow) {t u p : ℕ} {pc pc' : Pc} (ht : s.threads.lookup t = some pc)
    (hu : s.threads.lookup u = some pc') (hne : u ≠ t) (hp : pc'.owns = some p) :
    pc.owns ≠ some p := fun hpc =>
  hne (h.openers u t ((), p) ((), p) (opened_some hu hp) (opened_some ht hpc) rfl)

theorem Flow.unique (h : s.Flow) {p q g : ℕ} (hp : s.m.genOf p = some g)
    (hq : s.m.genOf q = some g) : p = q :=
  h.gens p q ((), g) ((), g) (congrArg (Option.map _) hp) (congrArg (Option.map _) hq) rfl

theorem enter_flow (h : s.Flow) (c : Call) : (s.enter c).Flow where
  numbered := enter_numbered h.numbered c
  streams p q hq := Nat.lt_succ_of_lt (h.streams p q hq)
  abandoned := h.abandoned
  installed := h.installed
  bounded := h.bounded
  gens := h.gens
  openers := by
    refine h.openers.of_le fun u y hu => ?_
    unfold opened at hu ⊢
    rw [lookup_enter] at hu
    split at hu
    · cases c <;> cases hu
    · exact hu
  place := threads_enter (P := fun t pc => s.m.Place t pc) (by cases c <;> trivial) h.place

theorem step_flow {l : Label} (h : s.Flow) (hs : s.step cap l = some s') : s'.Flow := by
  have hnumbered := step_numbered h.numbered hs
  rcases step_cases hs with ⟨c, rfl, rfl⟩ | ⟨t, a, pc, mv, rfl, hpc, hmv, rfl⟩
  · exact enter_flow h c
  have hplace := h.place t pc hpc
  have hpours := Manager.advance_pours hmv
  have hm := after_m s t mv
  have hnext := Manager.advance_next hmv
  obtain ⟨hle, hlt⟩ := next_after (t := t) (s := s) hnext
  have hstreams : (s.after t mv).m.streams = mv.m.streams := by rw [hm]
  have hgenOf : (s.after t mv).m.genOf = mv.m.genOf := by rw [hm]; rfl
  have hinst : (s.after t mv).m.installedGen = mv.m.installedGen := by rw [hm]
  have hgen : (s.after t mv).m.streamGen = mv.m.streamGen := by rw [hm]
  refine ⟨hnumbered, ?_, ?_, ?_, ?_, ?_, ?_, ?_⟩
  · intro p q' hq'
    rw [hstreams] at hq'
    rcases Manager.pours_lookup hpours hq' with ⟨q, hq⟩ | ⟨rfl, hspawn, -⟩
    · exact (h.streams p q hq).trans_le hle
    · exact hlt hspawn
  · rw [hm]
    exact Manager.pours_abandoned h.abandoned hplace hpours
  · rw [hinst, hgen]
    rcases Manager.pours_gens h.streams hplace hpours with ⟨-, hg, hi⟩ | ⟨p, -, -, hg, hi⟩
    · exact hi ▸ h.installed.trans hg
    · rw [hg, hi]
  · rw [hgenOf, hinst]
    intro p g hp
    rcases Manager.pours_gens h.streams hplace hpours with ⟨he, -, hi⟩ | ⟨p', -, he, -, hi⟩
    · rw [he] at hp
      exact hi ▸ h.bounded p g hp
    · rw [he] at hp
      rw [hi]
      split at hp
      · exact (Option.some.inj hp).ge
      · exact ((h.bounded p g hp).trans h.installed).trans (Nat.le_succ _)
  · rw [hgenOf]
    rcases Manager.pours_gens h.streams hplace hpours with ⟨he, -, -⟩ | ⟨p', -, he, -, -⟩
    · rw [he]
      exact h.gens
    · have hfresh : ∀ p (x : Unit × ℕ), (s.m.genOf p).map (fun g => ((), g)) = some x →
          x.2 < s.m.streamGen + 1 := by
        intro p x hx
        obtain ⟨g, hg, rfl⟩ := Option.map_eq_some_iff.1 hx
        exact Nat.lt_succ_of_le ((h.bounded p g hg).trans h.installed)
      refine h.gens.mint hfresh (b := p') (k := ()) fun p y hy => ?_
      obtain ⟨g, hg, rfl⟩ := Option.map_eq_some_iff.1 hy
      rw [he] at hg
      split at hg
      · next hp => exact .inl ⟨hp, by rw [Option.some.inj hg]⟩
      · exact .inr (by rw [hg]; rfl)
  · have hfresh : ∀ u (x : Unit × ℕ), (s.opened u).map (fun p => ((), p)) = some x →
        x.2 < s.m.next := by
      intro u x hx
      obtain ⟨p, hp, rfl⟩ := Option.map_eq_some_iff.1 hx
      obtain ⟨pc', hu, ho⟩ := Option.bind_eq_some_iff.1 hp
      obtain ⟨q, hq⟩ := (h.place u pc' hu).owned ho
      exact h.streams p q hq
    refine h.openers.mint hfresh (b := t) (k := ()) fun u y hy => ?_
    obtain ⟨p, hp, rfl⟩ := Option.map_eq_some_iff.1 hy
    obtain ⟨pc', hu, ho⟩ := Option.bind_eq_some_iff.1 hp
    rw [lookup_after] at hu
    split at hu
    · cases hu
      cases ho
    · split at hu
      · next hut =>
        subst hut
        rcases Manager.pours_owns hpours pc' hu p ho with ho | rfl
        · exact .inr (opened_some hpc ho)
        · exact .inl ⟨rfl, rfl⟩
      · exact .inr (opened_some hu ho)
  · have hself := Manager.advance_place h.streams h.abandoned hplace hmv
    have hothers := fun u pc' (hne : u ≠ t) (hu : s.threads.lookup u = some pc') =>
      (h.place u pc' hu).others (Manager.pours_keeps h.streams hplace hpours)
        (Manager.pours_spares h.streams hpours) (Manager.advance_ctxDone hmv)
        fun p hp => h.apart hpc hu hne hp
    rw [hm]
    exact threads_after (P := fun u pc' => mv.m.Place u pc') hself (fun _ => trivial) hothers

end System

end VcsClient.Session
