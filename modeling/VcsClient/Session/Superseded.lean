import VcsClient.Session.Departed
import VcsClient.Session.Flow

/-!
# Updates of a superseded stream

A resync or a new attempt applies its snapshot and then installs its stream
under the next generation. An update routed after that, of a stream with a
lower generation, undoes part of the snapshot.
-/

namespace VcsClient.Session

open VcsClient.Control VcsClient.Lib VcsClient.State

/-- The stream whose update goroutine `t` takes into the store next. -/
def Pc.pours (t : ℕ) : Pc → Option ℕ
  | .route _ => some t
  | .replay _ p (_ :: _) _ => some p
  | _ => none

/-- The stream a goroutine has opened whose snapshot is not yet applied. -/
def Pc.awaits : Pc → Option ℕ
  | .stillCurrent _ _ p | .syncClient _ p | .hydrate _ p _ _ => some p
  | _ => none

/-- The stream a goroutine has opened whose snapshot is applied and which is
not yet installed. -/
def Pc.ready : Pc → Option ℕ
  | .finalCheck _ _ _ p | .setSelf _ _ _ p | .install _ p => some p
  | _ => none

theorem Pc.owns_of_awaits {pc : Pc} {p : ℕ} (h : pc.awaits = some p) : pc.owns = some p := by
  cases pc <;> first | exact h | cases h

theorem Pc.feeds_of_pours {t p : ℕ} {pc : Pc} (h : pc.pours t = some p) : pc.feeds = true := by
  cases pc with
  | route => rfl
  | replay job p rest stamp =>
    cases rest with
    | nil => cases h
    | cons => rfl
  | _ => cases h

def Entry.stream : Entry → ℕ
  | .snapshot p | .update p => p

namespace Manager

/-- A stream with a lower generation than another. -/
def Superseded (m : Manager) (p q : ℕ) : Prop :=
  ∃ g g', m.genOf p = some g ∧ m.genOf q = some g' ∧ g < g'

/-- No update of a superseded stream stands after the newer stream's snapshot. -/
def InPlace (m : Manager) : Prop :=
  m.log.Pairwise fun e e' => ∀ q p, e = .snapshot q → e' = .update p → ¬m.Superseded p q

/-- No update stands after the snapshot of `q`. -/
def Clean (m : Manager) (q : ℕ) : Prop :=
  m.log.Pairwise fun e e' => e = .snapshot q → ∀ p, e' ≠ .update p

/-- What a move adds to the history of the store. -/
inductive Logs (m : Manager) (t : ℕ) : Pc → Move → Prop
  | quiet {pc mv} (hlog : mv.m.log = m.log)
      (hawaits : Leads mv.pc fun pc' => ∀ p ∈ pc'.awaits, pc.awaits = some p ∨ p = m.next)
      (hready : Leads mv.pc fun pc' => ∀ p ∈ pc'.ready, pc.ready = some p ∧
        ∀ job, pc ≠ .install job p) : m.Logs t pc mv
  | snapshot {pc mv} (p : ℕ) (hpc : pc.awaits = some p) (hlog : mv.m.log = m.log ++ [.snapshot p])
      (hawaits : Leads mv.pc fun pc' => pc'.awaits = none)
      (hready : Leads mv.pc fun pc' => ∀ q ∈ pc'.ready, q = p) : m.Logs t pc mv
  | update {pc mv} (p : ℕ) (hpc : pc.pours t = some p) (hlog : mv.m.log = m.log ++ [.update p])
      (hnext : Leads mv.pc fun pc' => pc'.awaits = none ∧ pc'.ready = none) : m.Logs t pc mv

variable {cap : ℕ} {m : Manager} {t : ℕ} {pc : Pc} {a : Answer} {mv : Move}

theorem advance_logs (h : m.advance cap t pc a = some mv) : m.Logs t pc mv := by
  replace h := advance_moves h
  induction h
  all_goals first
    | exact .quiet rfl leads_none leads_none
    | exact .quiet rfl (leads_some (of_none rfl)) (leads_some (of_none rfl))
    | exact .quiet rfl (leads_some fun _ h => .inl h) (leads_some (of_none rfl))
    | exact .quiet rfl (leads_some fun _ h => .inr (Option.some.inj h).symm)
        (leads_some (of_none rfl))
    | exact .update _ rfl rfl (leads_some ⟨rfl, rfl⟩)
    | exact .snapshot _ rfl rfl (leads_some rfl) (leads_some fun _ h => (Option.some.inj h).symm)
    | exact .snapshot _ rfl rfl (leads_some rfl) (leads_some (of_none rfl))
    | skip
  all_goals
    exact .quiet rfl (leads_some (of_none rfl))
      (leads_some fun _ h => ⟨h, fun job he => by cases he⟩)

end Manager

namespace System

/-- No `Reconnect` stands between its snapshot and its install. -/
def NoneResuming (s : System) : Prop :=
  ∀ t ∈ s.threads.keys, ∀ pc ∈ s.threads.lookup t, pc.reclaims = none

instance (s : System) : Decidable s.NoneResuming :=
  List.decidableBAll (fun t : ℕ => ∀ pc ∈ s.threads.lookup t, pc.reclaims = none) s.threads.keys

/-- **Late writers find their session.** What a stream, a resync or a
`Reconnect` writes to the store finds a session remembered, and an update finds
its stream the one installed last and no `Reconnect` about to install another. -/
def Timely (s : System) : Label → Prop
  | .call _ => True
  | .run t _ => ∀ pc ∈ s.threads.lookup t, (pc.feeds = true → s.m.lastDialer = true) ∧
    ∀ p ∈ pc.pours t, s.m.genOf p = some s.m.installedGen ∧ s.NoneResuming

instance (s : System) : ∀ l, Decidable (s.Timely l)
  | .call _ => .isTrue trivial
  | .run t _ => inferInstanceAs (Decidable (∀ pc ∈ s.threads.lookup t,
      (pc.feeds = true → s.m.lastDialer = true) ∧
        ∀ p ∈ pc.pours t, s.m.genOf p = some s.m.installedGen ∧ s.NoneResuming))

/-- What holds of the history of the store. -/
structure Ordered (s : System) : Prop where
  logged : ∀ e ∈ s.m.log, e.stream < s.m.next
  awaits : ∀ t pc, s.threads.lookup t = some pc → ∀ p ∈ pc.awaits, .snapshot p ∉ s.m.log
  ready : ∀ t pc, s.threads.lookup t = some pc → ∀ p ∈ pc.ready, s.m.Clean p ∨
    ∃ gen token, pc = .install (.resync gen token) p ∧ gen < s.m.installedGen
  inPlace : s.m.InPlace

theorem init_ordered : init.Ordered where
  logged e h := by cases h
  awaits t pc h := by simp [init] at h
  ready t pc h := by simp [init] at h
  inPlace := List.Pairwise.nil

variable {cap : ℕ} {s s' : System}

theorem enter_ordered (h : s.Ordered) (c : Call) : (s.enter c).Ordered where
  logged e he := Nat.lt_succ_of_lt (h.logged e he)
  awaits := threads_enter (P := fun _ pc => ∀ p ∈ pc.awaits, .snapshot p ∉ s.m.log)
    (by cases c <;> nofun) h.awaits
  ready := threads_enter (P := fun _ pc => ∀ p ∈ pc.ready, s.m.Clean p ∨
    ∃ gen token, pc = .install (.resync gen token) p ∧ gen < s.m.installedGen)
    (by cases c <;> nofun) h.ready
  inPlace := h.inPlace

theorem after_ordered {t : ℕ} {mv : Move} (hnext : mv.m.next = s.m.next)
    (hlogged : ∀ e ∈ mv.m.log, e.stream < s.m.next)
    (hself : Leads mv.pc fun pc => (∀ p ∈ pc.awaits, .snapshot p ∉ mv.m.log) ∧
      ∀ p ∈ pc.ready, mv.m.Clean p)
    (hothers : ∀ u pc, u ≠ t → s.threads.lookup u = some pc →
      (∀ p ∈ pc.awaits, .snapshot p ∉ mv.m.log) ∧ ∀ p ∈ pc.ready, mv.m.Clean p ∨
        ∃ gen token, pc = .install (.resync gen token) p ∧ gen < mv.m.installedGen)
    (hplace : mv.m.InPlace) : (s.after t mv).Ordered := by
  have hall := threads_after (s := s) (t := t)
    (P := fun _ pc => (∀ p ∈ pc.awaits, .snapshot p ∉ mv.m.log) ∧ ∀ p ∈ pc.ready, mv.m.Clean p ∨
      ∃ gen token, pc = .install (.resync gen token) p ∧ gen < mv.m.installedGen)
    (fun pc hpc => ⟨(hself pc hpc).1, fun p hp => .inl ((hself pc hpc).2 p hp)⟩)
    (fun _ => ⟨nofun, nofun⟩) hothers
  have hle := (next_after (t := t) (s := s) hnext).1
  have hm := after_m s t mv
  have hlog : (s.after t mv).m.log = mv.m.log := by rw [hm]
  refine ⟨fun e he => ?_, fun u pc hu => ?_, fun u pc hu => ?_, ?_⟩
  · rw [hlog] at he
    exact (hlogged e he).trans_le hle
  · rw [hlog]
    exact (hall u pc hu).1
  · rw [hm]
    exact (hall u pc hu).2
  · rw [hm]
    exact hplace

theorem Flow.newest (h : s.Flow) {p : ℕ} (hp : s.m.genOf p = some s.m.installedGen) (q : ℕ) :
    ¬s.m.Superseded p q := by
  rintro ⟨g, g', hg, hg', hlt⟩
  cases hp.symm.trans hg
  exact absurd (h.bounded q g' hg') (by omega)

section Moves

variable {t : ℕ} {a : Answer} {pc : Pc} {mv : Move}

theorem installedGen_le (hflow : s.Flow) (hpc : s.threads.lookup t = some pc)
    (hmv : s.m.advance cap t pc a = some mv) : s.m.installedGen ≤ mv.m.installedGen := by
  rcases Manager.pours_gens hflow.streams (hflow.place t pc hpc) (Manager.advance_pours hmv) with
    ⟨-, -, hi⟩ | ⟨_, -, -, -, hi⟩
  · exact hi.ge
  · rw [hi]
    exact hflow.installed.trans (Nat.le_succ _)

theorem gens_same (hflow : s.Flow) (hpc : s.threads.lookup t = some pc)
    (hmv : s.m.advance cap t pc a = some mv) (hno : ∀ job p, pc ≠ .install job p) :
    mv.m.genOf = s.m.genOf ∧ mv.m.installedGen = s.m.installedGen := by
  rcases Manager.pours_gens hflow.streams (hflow.place t pc hpc) (Manager.advance_pours hmv) with
    ⟨hg, -, hi⟩ | ⟨p, ⟨job, he, -⟩, -⟩
  · exact ⟨hg, hi⟩
  · exact absurd he (hno job p)

/-- An update of the newest stream finds every snapshot that waits for its
install without one after it, or overtaken. -/
theorem overtaken {u p : ℕ} {pc' : Pc} (hheld : s.Held) (hflow : s.Flow)
    (hpc : s.threads.lookup t = some pc) (hp : pc.pours t = some p)
    (hdialer : s.m.lastDialer = true) (hgen : s.m.genOf p = some s.m.installedGen)
    (hnone : s.NoneResuming) (hu : s.threads.lookup u = some pc') (hne : u ≠ t) {q : ℕ}
    (hq : pc'.ready = some q) :
    ∃ gen token, pc' = .install (.resync gen token) q ∧ gen < s.m.installedGen := by
  have hnofresh : pc'.fresh = false := by
    cases hf : pc'.fresh with
    | false => rfl
    | true => exact absurd hdialer (by rw [(hheld.fresh u pc' hu hf).1]; nofun)
  cases pc' with
  | finalCheck | setSelf => cases hnofresh
  | install job p' =>
    cases hq
    cases job with
    | connect => cases hnofresh
    | reconnect token =>
      have hmem : u ∈ s.threads := AList.lookup_isSome.1 (by rw [hu]; rfl)
      exact absurd (hnone u hmem _ hu) (by nofun)
    | resync gen token =>
      refine ⟨gen, token, rfl, ?_⟩
      obtain ⟨-, r, hr, hflows⟩ := hflow.place u _ hu
      have hug : s.m.genOf u = some gen := by
        unfold Manager.genOf
        rw [hr]
        exact hflows.gen
      rcases (hflow.bounded u gen hug).lt_or_eq with hlt | heq
      · exact hlt
      -- one stream has the generation, and it is neither routing nor held
      exfalso
      subst heq
      have hup : u = p := hflow.unique hug hgen
      subst hup
      cases pc with
      | route => exact hne (Option.some.inj hp).symm
      | replay job' p'' rest stamp =>
        cases rest with
        | nil => cases hp
        | cons upd rest =>
          cases hp
          obtain ⟨r', hr', hreplay⟩ := hflow.place t _ hpc
          cases hr.symm.trans hr'
          exact absurd hflows.released (by rw [hreplay.released]; nofun)
      | _ => cases hp
  | _ => cases hq

/-- A stream that is installed has no update after its snapshot, and the highest
generation. -/
theorem quiet_inPlace (hflow : s.Flow) (h : s.Ordered) (hpc : s.threads.lookup t = some pc)
    (hmv : s.m.advance cap t pc a = some mv) (hlog : mv.m.log = s.m.log) : mv.m.InPlace := by
  unfold Manager.InPlace Manager.Superseded
  rw [hlog]
  rcases Manager.pours_gens hflow.streams (hflow.place t pc hpc) (Manager.advance_pours hmv) with
    ⟨hg, -, -⟩ | ⟨p, ⟨job, rfl, hcur⟩, hg, -, -⟩
  · rw [hg]
    exact h.inPlace
  have hcp : s.m.Clean p := by
    rcases h.ready t _ hpc p rfl with hc | ⟨gen, token, he, hlt⟩
    · exact hc
    · cases he
      have : gen = s.m.streamGen := hcur
      have := hflow.installed
      omega
  refine (List.Pairwise.and h.inPlace hcp).imp fun {e e'} he => ?_
  rintro q r hq hr ⟨g, g', hgr, hgq, hlt⟩
  rw [hg] at hgr hgq
  by_cases hqp : q = p
  · subst hqp
    exact he.2 hq r hr
  rw [if_neg hqp] at hgq
  by_cases hrp : r = p
  · rw [if_pos hrp] at hgr
    have := Option.some.inj hgr
    have := hflow.bounded q g' hgq
    have := hflow.installed
    omega
  · rw [if_neg hrp] at hgr
    exact he.1 q r hq hr ⟨g, g', hgr, hgq, hlt⟩

theorem quiet_ordered (hflow : s.Flow) (h : s.Ordered) (hpc : s.threads.lookup t = some pc)
    (hmv : s.m.advance cap t pc a = some mv) (hlog : mv.m.log = s.m.log)
    (hawaits : Leads mv.pc fun pc' => ∀ p ∈ pc'.awaits, pc.awaits = some p ∨ p = s.m.next)
    (hready : Leads mv.pc fun pc' => ∀ p ∈ pc'.ready, pc.ready = some p ∧
      ∀ job, pc ≠ .install job p) : (s.after t mv).Ordered := by
  have hclean : ∀ q, s.m.Clean q → mv.m.Clean q := fun q hq => by
    unfold Manager.Clean
    rw [hlog]
    exact hq
  refine after_ordered (Manager.advance_next hmv) (fun e he => ?_)
    (fun pc' hpc' => ⟨fun p hp => ?_, fun p hp => ?_⟩) (fun u pc' _ hu => ⟨?_, fun p hp => ?_⟩)
    (quiet_inPlace hflow h hpc hmv hlog)
  · rw [hlog] at he
    exact h.logged e he
  · rw [hlog]
    rcases hawaits pc' hpc' p hp with hp | rfl
    · exact h.awaits t pc hpc p hp
    · exact fun hmem => absurd (h.logged _ hmem) (lt_irrefl s.m.next)
  · obtain ⟨hp, hno⟩ := hready pc' hpc' p hp
    rcases h.ready t pc hpc p hp with hc | ⟨gen, token, he, -⟩
    · exact hclean p hc
    · exact absurd he (hno _)
  · rw [hlog]
    exact h.awaits u pc' hu
  · rcases h.ready u pc' hu p hp with hc | ⟨gen, token, he, hlt⟩
    · exact .inl (hclean p hc)
    · exact .inr ⟨gen, token, he, hlt.trans_le (installedGen_le hflow hpc hmv)⟩

theorem snapshot_ordered (hflow : s.Flow) (h : s.Ordered) (hpc : s.threads.lookup t = some pc)
    (hmv : s.m.advance cap t pc a = some mv) {p : ℕ} (hp : pc.awaits = some p)
    (hlog : mv.m.log = s.m.log ++ [.snapshot p])
    (hawaits : Leads mv.pc fun pc' => pc'.awaits = none)
    (hready : Leads mv.pc fun pc' => ∀ q ∈ pc'.ready, q = p) : (s.after t mv).Ordered := by
  obtain ⟨hgens, hinst⟩ := gens_same hflow hpc hmv fun job p he => by
    rw [he] at hp
    cases hp
  have hnew : .snapshot p ∉ s.m.log := h.awaits t pc hpc p hp
  have hclean : ∀ q, s.m.Clean q → mv.m.Clean q := fun q hq => by
    unfold Manager.Clean
    rw [hlog]
    exact List.pairwise_append.2 ⟨hq, List.pairwise_singleton _ _, fun e _ e' he' => by
      rw [List.mem_singleton.1 he']
      nofun⟩
  obtain ⟨r, hr⟩ := (hflow.place t pc hpc).owned (Pc.owns_of_awaits hp)
  refine after_ordered (Manager.advance_next hmv) (fun e he => ?_)
    (fun pc' hpc' => ⟨?_, fun q hq => ?_⟩) (fun u pc' hne hu => ⟨fun q hq => ?_, fun q hq => ?_⟩) ?_
  · rw [hlog] at he
    rcases List.mem_append.1 he with he | he
    · exact h.logged e he
    · rw [List.mem_singleton.1 he]
      exact hflow.streams p r hr
  · exact Manager.of_none (hawaits pc' hpc')
  · rw [hready pc' hpc' q hq]
    refine hclean p (List.Pairwise.imp_of_mem (fun he _ _ hs => ?_) h.inPlace)
    rw [hs] at he
    exact absurd he hnew
  · rw [hlog]
    intro hmem
    rcases List.mem_append.1 hmem with hmem | hmem
    · exact h.awaits u pc' hu q hq hmem
    · cases List.mem_singleton.1 hmem
      exact hflow.apart hpc hu hne (Pc.owns_of_awaits hq) (Pc.owns_of_awaits hp)
  · rw [hinst]
    exact (h.ready u pc' hu q hq).imp_left (hclean q)
  · unfold Manager.InPlace Manager.Superseded
    rw [hlog, hgens]
    exact List.pairwise_append.2 ⟨h.inPlace, List.pairwise_singleton _ _, fun e _ e' he' => by
      rw [List.mem_singleton.1 he']
      nofun⟩

theorem update_ordered (hheld : s.Held) (hflow : s.Flow) (h : s.Ordered)
    (hpc : s.threads.lookup t = some pc) (hok : s.Timely (.run t a))
    (hmv : s.m.advance cap t pc a = some mv) {p : ℕ} (hp : pc.pours t = some p)
    (hlog : mv.m.log = s.m.log ++ [.update p])
    (hnext : Leads mv.pc fun pc' => pc'.awaits = none ∧ pc'.ready = none) :
    (s.after t mv).Ordered := by
  obtain ⟨hfeeds, hpours⟩ := hok pc hpc
  obtain ⟨hgens, hinst⟩ := gens_same hflow hpc hmv fun job p he => by
    rw [he] at hp
    cases hp
  obtain ⟨hgen, hnone⟩ := hpours p hp
  have hdialer := hfeeds (Pc.feeds_of_pours hp)
  have hthere : p < s.m.next := by
    obtain ⟨r, hr, -⟩ := Option.bind_eq_some_iff.1 hgen
    exact hflow.streams p r hr
  refine after_ordered (Manager.advance_next hmv) (fun e he => ?_) (fun pc' hpc' => ⟨?_, ?_⟩)
    (fun u pc' hne hu => ⟨fun q hq => ?_, fun q hq => ?_⟩) ?_
  · rw [hlog] at he
    rcases List.mem_append.1 he with he | he
    · exact h.logged e he
    · rw [List.mem_singleton.1 he]
      exact hthere
  · exact Manager.of_none (hnext pc' hpc').1
  · exact Manager.of_none (hnext pc' hpc').2
  · rw [hlog]
    intro hmem
    rcases List.mem_append.1 hmem with hmem | hmem
    · exact h.awaits u pc' hu q hq hmem
    · cases List.mem_singleton.1 hmem
  · rw [hinst]
    exact .inr (overtaken hheld hflow hpc hp hdialer hgen hnone hu hne hq)
  · unfold Manager.InPlace Manager.Superseded
    rw [hlog, hgens]
    refine List.pairwise_append.2 ⟨h.inPlace, List.pairwise_singleton _ _, fun e _ e' he' => ?_⟩
    rintro q p' - hp'
    rw [List.mem_singleton.1 he'] at hp'
    cases hp'
    exact hflow.newest hgen q

theorem step_ordered (hheld : s.Held) (hflow : s.Flow) (h : s.Ordered)
    (hpc : s.threads.lookup t = some pc) (hok : s.Timely (.run t a))
    (hmv : s.m.advance cap t pc a = some mv) : (s.after t mv).Ordered := by
  cases Manager.advance_logs hmv with
  | quiet hlog hawaits hready => exact quiet_ordered hflow h hpc hmv hlog hawaits hready
  | snapshot p hp hlog hawaits hready =>
    exact snapshot_ordered hflow h hpc hmv hp hlog hawaits hready
  | update p hp hlog hnext => exact update_ordered hheld hflow h hpc hok hmv hp hlog hnext

end Moves

end System

def joined : ServerUpdate :=
  ⟨.clientJoined, some (.clientUpdate ⟨some "g-2", some ⟨"Goose", "blue", "VF-1", 0⟩, none⟩)⟩

/-- A `Reconnect` by goroutine `t` from start to end. -/
def reconnected (t : ℕ) : List Label := .call .reconnect :: goes t 7 ++ syncing t ++ goes t 6

/-- A `Disconnect` by goroutine `t` from start to end. -/
def disconnected (t : ℕ) : List Label := .call .disconnect :: goes t 10

end VcsClient.Session
