import VcsClient.Session.Contexts
import VcsClient.Session.Departed

/-!
# Whose session a verdict ends

A call or a stream of one session may be answered that the session has ended
after another session took its place. `checkSessionEnded` compares tokens in
the section that tears down; the end of a stream is checked by its generation
and a failed resync by its context, both before that section. Here a session is
its token. As long as a `Connect` installs when no verdict is believed and not
yet acted on, and no teardown is unfinished, a verdict ends its own session.
-/

namespace VcsClient.Session

open VcsClient.Control VcsClient.Lib

/-- The session whose teardown, by a stream or a unary call, has yet to be
reported. -/
def Teardown.outstanding (td : Teardown) : Option Token :=
  match td.k with
  | some .exit => some td.about
  | _ => none

theorem Teardown.outstanding_of_life {td : Teardown} (h : td.life = false) :
    td.outstanding = some td.about := by
  obtain ⟨reason, k, about, stamp, logins⟩ := td
  rcases k with _ | _ | _
  · cases h
  · rfl
  · cases h

/-- The session a verdict was brought on that has yet to tear down without
looking at the token, or to report. -/
def Pc.outstanding : Pc → Option Token
  | .endSession _ none about .exit => some about
  | .closeEnded _ td | .resetRoster td | .clearVoice td | .clearSelf td | .publishEnded td
  | .sessionEnded td => td.outstanding
  | _ => none

/-- A `Connect` installs its session next. -/
def Pc.takesOver : Pc → Bool
  | .install job _ => job.isConnect
  | _ => false

/-- **No verdict is outstanding.** When a `Connect` installs its session, no
verdict is believed and not yet carried out and reported, and no stream context
of a connection that was given up is still to be cancelled; when a `Reconnect`
installs the session it resumes, that session is still remembered. -/
def System.Undisputed (s : System) (pc : Pc) : Prop :=
  (pc.takesOver = true → ∀ u ∈ s.threads.keys, ∀ pc' ∈ s.threads.lookup u,
    pc'.outstanding = none ∧ pc'.closes = none) ∧
    ∀ token ∈ pc.reclaims, s.m.lastToken = token → s.m.lastDialer = true

instance (s : System) (pc : Pc) : Decidable (s.Undisputed pc) :=
  have : Decidable (∀ u ∈ s.threads.keys, ∀ pc' ∈ s.threads.lookup u,
      pc'.outstanding = none ∧ pc'.closes = none) :=
    List.decidableBAll (fun u : ℕ => ∀ pc' ∈ s.threads.lookup u,
      pc'.outstanding = none ∧ pc'.closes = none) s.threads.keys
  inferInstanceAs (Decidable (_ ∧ _))

def System.NoDispute (s : System) : Label → Prop
  | .call _ => True
  | .run t _ => ∀ pc ∈ s.threads.lookup t, s.Undisputed pc

instance (s : System) : ∀ l, Decidable (s.NoDispute l)
  | .call _ => .isTrue trivial
  | .run t _ => inferInstanceAs (Decidable (∀ pc ∈ s.threads.lookup t, s.Undisputed pc))

theorem Pc.bare_of_takesOver {pc : Pc} (h : pc.takesOver = true) : pc.bare = true := by
  cases pc <;> first | exact h | cases h

theorem Pc.takesOver_of_outstanding {pc : Pc} {about : Token} (h : pc.outstanding = some about) :
    pc.takesOver = false := by
  cases pc <;> first | rfl | cases h

def Job.resyncs : Job → Option (ℕ × Token)
  | .resync gen token => some (gen, token)
  | _ => none

/-- The generation a resync replaces, and the session it is of. -/
def Pc.resyncs : Pc → Option (ℕ × Token)
  | .subscribe job | .syncClient job _ | .hydrate job _ _ _ | .install job _ => job.resyncs
  | .stillCurrent gen token _ | .resyncFailed gen token _ => some (gen, token)
  | _ => none

/-- The token a verdict is compared with is that of its session. -/
def Pc.Fair : Pc → Prop
  | .endSession _ (some token) about _ | .unaryAnswer token about => about = token
  | _ => True

/-- What a move adds to the verdicts that took effect. -/
inductive Manager.Ends (m : Manager) : Pc → Move → Prop
  | quiet {pc mv} (h : mv.m.ended = m.ended) : m.Ends pc mv
  | teardown {mv} (reason : String) (still : Option Token) (about : Token) (k : After)
      (hsome : ¬(m.lastToken = "" ∧ m.live = none))
      (hstill : ∀ token ∈ still, m.lastToken = token)
      (h : mv.m.ended = m.ended ++ [(about, m.lastToken)]) :
      m.Ends (.endSession reason still about k) mv
  | report {mv} (td : Teardown)
      (h : mv.m.ended = m.ended ++ m.live.toList.map fun l => (td.about, l.token)) :
      m.Ends (.sessionEnded td) mv

namespace Manager

/-- The session is remembered, or none is. -/
def Mine (m : Manager) (token : Token) : Prop :=
  m.lastToken = token ∨ m.lastDialer = false ∧ m.live = none

/-- A verdict on a session is believed next. -/
def Believes (m : Manager) (t : ℕ) (about : Token) : Pc → Prop
  | .streamCurrent gen _ => gen = m.streamGen ∧ m.At t (·.token = about)
  | .resyncFailed _ token _ => token = about ∧ m.At t (·.owner ∉ m.ctxDone)
  | _ => False

variable {cap : ℕ} {m : Manager} {t : ℕ} {pc : Pc} {a : Answer} {mv : Move}

theorem advance_ends (h : m.advance cap t pc a = some mv) : m.Ends pc mv := by
  replace h := advance_moves h
  induction h
  all_goals first
    | exact .quiet rfl
    | exact .report _ rfl
    | skip
  case endSession reason still about k hsome hstill =>
    exact .teardown reason still about k hsome hstill rfl

theorem advance_fair (hlive : ∀ l ∈ m.live, l.token = m.lastToken) (hpc : pc.Fair)
    (h : m.advance cap t pc a = some mv) : Leads mv.pc Pc.Fair := by
  replace h := advance_moves h
  induction h
  all_goals first
    | exact leads_none
    | exact leads_some trivial
    | exact leads_some hpc
    | exact leads_some (hlive _ ‹_›)

/-- Where the verdicts, resyncs and teardowns a move leads to come from. -/
theorem advance_disputes (h : m.advance cap t pc a = some mv) : Leads mv.pc fun pc' =>
    (∀ about ∈ pc'.outstanding, pc.outstanding = some about ∨
      (mv.m.lastDialer = false ∧ mv.m.live = none) ∨ m.Believes t about pc) ∧
    (∀ x ∈ pc'.resyncs, pc.resyncs = some x ∨ ∃ l ∈ m.live, l.token = x.2) ∧
    ∀ td ∈ pc'.teardown, pc.teardown = some td ∨ mv.m.live = none := by
  replace h := advance_moves h
  induction h
  all_goals first
    | exact leads_none
    | exact leads_some ⟨of_none rfl, of_none rfl, of_none rfl⟩
    | exact leads_some ⟨of_none rfl, fun _ h => .inl h, of_none rfl⟩
    | exact leads_some ⟨fun _ h => .inl h, of_none rfl, fun _ h => .inl h⟩
    | exact leads_some ⟨fun _ _ => .inr (.inl ⟨rfl, rfl⟩), of_none rfl, fun _ _ => .inr rfl⟩
    | skip
  case publishDisconnect td hk =>
    -- a `Disconnect` has no verdict
    refine leads_some ⟨of_none rfl, of_none rfl, fun _ h => .inl h⟩
  case streamEnded gen err q reason hq hgen hv =>
    refine leads_some ⟨fun about ht => .inr (.inr ⟨hgen, _, hq, ?_⟩), of_none rfl, of_none rfl⟩
    exact Option.some.inj ht
  case resync gen l hlive hgen =>
    refine leads_some ⟨of_none rfl, fun x hx => .inr ⟨_, hlive, ?_⟩, of_none rfl⟩
    cases hx
    rfl
  case resyncEnded gen token err q reason hq hctx hv =>
    refine leads_some ⟨fun about ht => .inr (.inr ⟨?_, _, hq, hctx⟩), of_none rfl, of_none rfl⟩
    exact Option.some.inj ht

/-- The stream of a resync's goroutine has the generation it replaces. -/
theorem Place.resyncs (h : m.Place t pc) {gen : ℕ} {token : Token}
    (hpc : pc.resyncs = some (gen, token)) : m.At t (·.Flowing gen) := by
  have hjob : ∀ {job : Job}, m.Runs t job → job.resyncs = some (gen, token) →
      m.At t (·.Flowing gen) := by
    intro job hruns hj
    cases job with
    | resync => cases hj; exact hruns
    | _ => cases hj
  cases pc with
  | subscribe => exact hjob h hpc
  | syncClient | hydrate | install => exact hjob h.2 hpc
  | stillCurrent =>
    cases hpc
    exact h.2
  | resyncFailed =>
    cases hpc
    exact h
  | _ => cases hpc

end Manager

namespace System

/-- What verdicts, resyncs and streams know of the session. -/
structure Own (s : System) : Prop where
  remembered : s.m.lastDialer = false → s.m.lastToken = ""
  outstanding : ∀ t pc, s.threads.lookup t = some pc → ∀ about ∈ pc.outstanding, s.m.Mine about
  stream : ∀ p q, s.m.streams.lookup p = some q → q.gen = some s.m.streamGen → s.m.Mine q.token
  /-- a resync of another session has been superseded and its context cancelled -/
  resync : ∀ t pc, s.threads.lookup t = some pc → ∀ x ∈ pc.resyncs, s.m.Mine x.2 ∨
    x.1 < s.m.streamGen ∧ s.m.At t (·.owner ∈ s.m.ctxDone)
  /-- nothing is in place while `lifeMu` is held for a teardown -/
  teardown : ∀ t pc, s.threads.lookup t = some pc → ∀ td ∈ pc.teardown, td.life = true →
    s.m.live = none

theorem init_own : init.Own where
  remembered _ := rfl
  outstanding t pc h := by simp [init] at h
  stream p q h := by simp [init, Manager.init] at h
  resync t pc h := by simp [init] at h
  teardown t pc h := by simp [init] at h

variable {cap : ℕ} {s s' : System}

theorem enter_own (h : s.Own) (c : Call) : (s.enter c).Own where
  remembered := h.remembered
  outstanding := threads_enter (P := fun _ pc => ∀ about ∈ pc.outstanding, s.m.Mine about)
    (by cases c <;> nofun) h.outstanding
  stream := h.stream
  resync := threads_enter (P := fun t pc => ∀ x ∈ pc.resyncs, s.m.Mine x.2 ∨
    x.1 < s.m.streamGen ∧ s.m.At t (·.owner ∈ s.m.ctxDone)) (by cases c <;> nofun) h.resync
  teardown := threads_enter (P := fun _ pc => ∀ td ∈ pc.teardown, td.life = true → s.m.live = none)
    (by cases c <;> nofun) h.teardown

theorem mine_after {t : ℕ} {a : Answer} {pc : Pc} {mv : Move} (hheld : s.Held)
    (hpc : s.threads.lookup t = some pc) (hok : s.Undisputed pc)
    (hmv : s.m.advance cap t pc a = some mv) (hno : pc.takesOver = false) {token : Token}
    (h : s.m.Mine token) : mv.m.Mine token := by
  unfold Manager.Mine at h ⊢
  cases Manager.advance_grip hmv with
  | keep hlive hdialer htoken _ _ _ _ _ | lock hlive hdialer htoken _ _ _
  | unlock hlive hdialer htoken _ _ =>
    rw [hlive, hdialer, htoken]
    exact h
  | drop hlive hdialer htoken _ _ _ =>
    rw [hlive, hdialer, htoken]
    exact h.imp_right fun hn => ⟨hn.1, rfl⟩
  | forget hlive hdialer _ _ hpcf _ =>
    rw [hlive]
    exact .inr ⟨hdialer, hheld.bare t pc hpc (by rw [hpcf]; rfl)⟩
  | finish hlive hdialer _ _ _ _ => exact .inr ⟨hdialer, hlive⟩
  | install l _ _ _ hlife hjob _ _ =>
    obtain ⟨job, p, rfl, ⟨hc, -⟩ | ⟨hc, hjt, htoken, -⟩⟩ := hjob
    · exact absurd hc (by rw [show job.isConnect = false from hno]; nofun)
    · rcases h with h | ⟨hd, -⟩
      · exact .inl (htoken.trans h)
      · -- a `Reconnect` finds its session remembered
        have hreclaims : (Pc.install job p).reclaims = some job.token := by
          cases job with
          | reconnect => rfl
          | connect => cases hc
          | resync => cases hlife
        exact absurd (hok.2 _ hreclaims hjt) (by rw [hd]; nofun)

theorem remembered_after {t : ℕ} {a : Answer} {pc : Pc} {mv : Move}
    (hmv : s.m.advance cap t pc a = some mv) (h : s.m.lastDialer = false → s.m.lastToken = "") :
    mv.m.lastDialer = false → mv.m.lastToken = "" := by
  cases Manager.advance_grip hmv with
  | keep _ hdialer htoken _ _ _ _ _ | lock _ hdialer htoken _ _ _ | unlock _ hdialer htoken _ _
  | drop _ hdialer htoken _ _ _ =>
    rw [hdialer, htoken]
    exact h
  | forget _ _ htoken _ _ _ => exact fun _ => htoken
  | finish _ _ htoken _ _ _ => exact fun _ => htoken
  | install l _ _ _ _ hjob _ _ =>
    obtain ⟨job, p, -, ⟨-, hd⟩ | ⟨-, -, htoken, hdialer⟩⟩ := hjob
    · exact Manager.of_true hd
    · rw [hdialer, htoken]
      exact h

/-- Only the install of an attempt puts a connection in place. -/
theorem live_after {t : ℕ} {a : Answer} {pc : Pc} {mv : Move}
    (hmv : s.m.advance cap t pc a = some mv) (hnone : s.m.live = none) :
    mv.m.live = none ∨ pc.life = true ∧ ∃ job p, pc = .install job p := by
  cases Manager.advance_grip hmv with
  | keep hlive _ _ _ _ _ _ _ | lock hlive _ _ _ _ _ | unlock hlive _ _ _ _
  | forget hlive _ _ _ _ _ => exact .inl (hlive.trans hnone)
  | drop hlive _ _ _ _ _ | finish hlive _ _ _ _ _ => exact .inl hlive
  | install l _ _ _ hlife hjob _ _ =>
    obtain ⟨job, p, he, -⟩ := hjob
    exact .inr ⟨hlife, job, p, he⟩

theorem teardown_after {t : ℕ} {a : Answer} {pc : Pc} {mv : Move} (hheld : s.Held) (h : s.Own)
    (hpc : s.threads.lookup t = some pc) (hmv : s.m.advance cap t pc a = some mv) :
    ∀ u pc', (s.after t mv).threads.lookup u = some pc' → ∀ td ∈ pc'.teardown, td.life = true →
      mv.m.live = none := by
  refine threads_after (P := fun _ pc' => ∀ td ∈ pc'.teardown, td.life = true → mv.m.live = none)
    (fun pc' hpc' td htd hlife => ?_) (fun _ => nofun) fun u pc' hne hu td htd hlife => ?_
  · rcases (Manager.advance_disputes hmv pc' hpc').2.2 td htd with htd | hnone
    · rcases live_after hmv (h.teardown t pc hpc td htd hlife) with hnone | ⟨-, job, p, rfl⟩
      · exact hnone
      · cases htd
    · exact hnone
  · rcases live_after hmv (h.teardown u pc' hu td htd hlife) with hnone | ⟨hl, -⟩
    · exact hnone
    · -- `lifeMu` is held by the one that tears down
      have := hheld.alone hpc hl hu hne
      rw [Pc.life_of_teardown htd hlife] at this
      cases this

theorem takesOver_gen {t : ℕ} {a : Answer} {pc : Pc} {mv : Move} (hpc : pc.takesOver = true)
    (hmv : s.m.advance cap t pc a = some mv) : mv.m.streamGen = s.m.streamGen + 1 := by
  cases pc with
  | install job p =>
    rw [Manager.advance_install hmv]
    cases job with
    | connect => rfl
    | reconnect | resync => cases hpc
  | _ => cases hpc

theorem stream_after {t : ℕ} {a : Answer} {pc : Pc} {mv : Move} (hheld : s.Held) (hflow : s.Flow)
    (h : s.Own) (hpc : s.threads.lookup t = some pc) (hok : s.Undisputed pc)
    (hmv : s.m.advance cap t pc a = some mv) {p : ℕ} {q' : Stream}
    (hq' : mv.m.streams.lookup p = some q') (hg : q'.gen = some mv.m.streamGen) :
    mv.m.Mine q'.token := by
  have hplace := hflow.place t pc hpc
  have hpours := Manager.advance_pours hmv
  have hkeeps := Manager.pours_keeps hflow.streams hplace hpours
  have hgen : mv.m.genOf p = some mv.m.streamGen := by
    unfold Manager.genOf
    rw [hq', Option.bind_some, hg]
  have hheld' : (s.after t mv).Held := step_held hheld (step_of_advance hpc hmv)
  have htoken' : ∀ l ∈ mv.m.live, l.token = mv.m.lastToken := by
    have := hheld'.token
    rw [after_m] at this
    exact this
  rcases Manager.pours_gens hflow.streams hplace hpours with
    ⟨hsame, -, -⟩ | ⟨p₀, ⟨job, rfl, hcur⟩, hnew, hbump, -⟩
  · rw [hsame] at hgen
    have hle := (hflow.bounded p _ hgen).trans hflow.installed
    obtain ⟨q, hq, hqg⟩ := Option.bind_eq_some_iff.1 hgen
    obtain ⟨q'', hq'', hlq⟩ := hkeeps p q hq
    cases hq'.symm.trans hq''
    have hno : pc.takesOver = false := by
      cases htk : pc.takesOver with
      | false => rfl
      | true =>
        have := takesOver_gen htk hmv
        omega
    have hge := Manager.advance_streamGen hmv
    rw [hlq.token]
    exact mine_after hheld hpc hok hmv hno (h.stream p q hq (by rw [hqg, le_antisymm hle hge]))
  by_cases hp : p = p₀
  · subst hp
    obtain ⟨⟨q, hq, hw⟩, -⟩ := hplace
    obtain ⟨q'', hq'', hlq⟩ := hkeeps p q hq
    cases hq'.symm.trans hq''
    rw [hlq.token, hw.token]
    cases hjob : job.life with
    | true =>
      rw [Manager.advance_install hmv] at hbump htoken' ⊢
      exact .inl (htoken' _ (Manager.install_live hjob hbump)).symm
    | false =>
      cases job with
      | connect | reconnect => cases hjob
      | resync gen token =>
        rcases h.resync t _ hpc (gen, token) rfl with hm | ⟨hlt, -⟩
        · exact mine_after hheld hpc hok hmv rfl hm
        · have : gen = s.m.streamGen := hcur
          omega
  · rw [hnew, if_neg hp, hbump] at hgen
    have := hflow.bounded p _ hgen
    have := hflow.installed
    omega

theorem step_own {t : ℕ} {a : Answer} {pc : Pc} {mv : Move} (hheld : s.Held) (hflow : s.Flow)
    (hclosing : s.Closing) (h : s.Own) (hpc : s.threads.lookup t = some pc) (hok : s.Undisputed pc)
    (hmv : s.m.advance cap t pc a = some mv) : (s.after t mv).Own := by
  have hplace := hflow.place t pc hpc
  have hpours := Manager.advance_pours hmv
  have hkeeps := Manager.pours_keeps hflow.streams hplace hpours
  have hctx := Manager.advance_ctxDone hmv
  have hmine : ∀ token, pc.takesOver = false → s.m.Mine token → mv.m.Mine token :=
    fun token hno => mine_after hheld hpc hok hmv hno
  have hm := after_m s t mv
  -- the other goroutines when a `Connect` installs
  have hothers : pc.takesOver = true → ∀ u pc', s.threads.lookup u = some pc' →
      pc'.outstanding = none ∧ pc'.closes = none := fun htk u pc' hu =>
    hok.1 htk u (AList.lookup_isSome.1 (by rw [hu]; rfl)) pc' hu
  have hresync : ∀ u pc', s.threads.lookup u = some pc' → ∀ x ∈ pc'.resyncs, mv.m.Mine x.2 ∨
      x.1 < mv.m.streamGen ∧ mv.m.At u (·.owner ∈ mv.m.ctxDone) := by
    rintro u pc' hu ⟨gen, token⟩ hx
    have hdone : gen < mv.m.streamGen → s.m.At u (·.owner ∈ s.m.ctxDone) → mv.m.Mine token ∨
        gen < mv.m.streamGen ∧ mv.m.At u (·.owner ∈ mv.m.ctxDone) := fun hlt hat =>
      .inr ⟨hlt, hat.keeps hkeeps fun q q' hle ho => by
        rw [hle.owner]
        exact hctx _ ho⟩
    rcases h.resync u pc' hu _ hx with hm | ⟨hlt, hat⟩
    · cases htk : pc.takesOver with
      | false => exact .inl (hmine token htk hm)
      | true =>
        -- the resync is of a generation before, and its context is cancelled
        obtain ⟨q, hq, hflows⟩ := (hflow.place u pc' hu).resyncs hx
        have hgen : s.m.genOf u = some gen := by
          unfold Manager.genOf
          rw [hq, Option.bind_some, hflows.gen]
        have hle := (hflow.bounded u gen hgen).trans hflow.installed
        have hbump := takesOver_gen htk hmv
        refine hdone (by omega) ⟨q, hq, ?_⟩
        rcases hclosing.closes u q hq (by rw [hflows.gen]; rfl) with hd | ⟨l, hl, -⟩ |
          ⟨v, pc'', hv, hc⟩
        · exact hd
        · rw [hheld.bare t pc hpc (Pc.bare_of_takesOver htk)] at hl
          cases hl
        · rw [(hothers htk v pc'' hv).2] at hc
          cases hc
    · exact hdone (hlt.trans_le (Manager.advance_streamGen hmv)) hat
  refine ⟨?_, ?_, ?_, ?_, ?_⟩ <;> rw [hm]
  · exact remembered_after hmv h.remembered
  · refine threads_after (P := fun _ pc' => ∀ about ∈ pc'.outstanding, mv.m.Mine about)
      (fun pc' hpc' about hout => ?_) (fun _ => nofun) fun u pc' _ hu about hout => ?_
    · rcases (Manager.advance_disputes hmv pc' hpc').1 about hout with hout | hnothing | hbelieves
      · exact hmine about (Pc.takesOver_of_outstanding hout) (h.outstanding t pc hpc about hout)
      · exact .inr hnothing
      · cases pc with
        | streamCurrent gen err =>
          obtain ⟨hgen, q, hq, htoken⟩ := hbelieves
          obtain ⟨q', hq', hflows⟩ := hplace
          cases hq.symm.trans hq'
          have := h.stream t q hq (hgen ▸ hflows.gen)
          rw [show q.token = about from htoken] at this
          exact hmine about rfl this
        | resyncFailed gen token err =>
          obtain ⟨rfl, q, hq, hlive⟩ := hbelieves
          rcases h.resync t _ hpc (gen, token) rfl with hm | ⟨-, q', hq', hdone⟩
          · exact hmine token rfl hm
          · cases hq.symm.trans hq'
            exact absurd hdone hlive
        | _ => exact hbelieves.elim
    · cases htk : pc.takesOver with
      | true =>
        rw [(hothers htk u pc' hu).1] at hout
        cases hout
      | false => exact hmine about htk (h.outstanding u pc' hu about hout)
  · exact fun p q' hq' hg => stream_after hheld hflow h hpc hok hmv hq' hg
  · refine threads_after (P := fun u pc' => ∀ x ∈ pc'.resyncs, mv.m.Mine x.2 ∨
      x.1 < mv.m.streamGen ∧ mv.m.At u (·.owner ∈ mv.m.ctxDone))
      (fun pc' hpc' x hx => ?_) (fun _ => nofun) fun u pc' _ hu x hx => hresync u pc' hu x hx
    rcases (Manager.advance_disputes hmv pc' hpc').2.1 x hx with hx | ⟨l, hl, hlx⟩
    · exact hresync t pc hpc x hx
    · have hno : pc.takesOver = false := by
        cases htk : pc.takesOver with
        | false => rfl
        | true =>
          rw [hheld.bare t pc hpc (Pc.bare_of_takesOver htk)] at hl
          cases hl
      exact .inl (hmine _ hno (.inl ((hheld.token l hl).symm.trans hlx)))
  · exact teardown_after hheld h hpc hmv


/-- Every verdict that took effect was about the session in place. -/
structure Just (s : System) : Prop where
  fair : ∀ t pc, s.threads.lookup t = some pc → pc.Fair
  ended : ∀ e ∈ s.m.ended, e.1 = e.2

theorem init_just : init.Just where
  fair t pc h := by simp [init] at h
  ended e h := by cases h

theorem step_just {t : ℕ} {a : Answer} {pc : Pc} {mv : Move} (hheld : s.Held) (hown : s.Own)
    (h : s.Just) (hpc : s.threads.lookup t = some pc) (hmv : s.m.advance cap t pc a = some mv) :
    (s.after t mv).Just := by
  refine ⟨threads_after (P := fun _ pc => pc.Fair)
    (Manager.advance_fair hheld.token (h.fair t pc hpc) hmv) (fun _ => trivial)
    fun u pc' _ hu => h.fair u pc' hu, ?_⟩
  rw [after_m]
  show ∀ e ∈ mv.m.ended, e.1 = e.2
  have happend : ∀ es : List (Token × Token), (∀ e ∈ es, e.1 = e.2) →
      mv.m.ended = s.m.ended ++ es → ∀ e ∈ mv.m.ended, e.1 = e.2 := by
    intro es hes he e hmem
    rw [he] at hmem
    exact (List.mem_append.1 hmem).elim (h.ended e) (hes e)
  cases Manager.advance_ends hmv with
  | quiet he =>
    rw [he]
    exact h.ended
  | teardown reason still about k hsome hstill he =>
    refine happend _ (fun e hmem => ?_) he
    rw [List.mem_singleton.1 hmem]
    show about = s.m.lastToken
    cases still with
    | some token => exact (h.fair t _ hpc).trans (hstill token rfl).symm
    | none =>
      cases k with
      | exit =>
        rcases hown.outstanding t _ hpc about rfl with htoken | ⟨hd, hnone⟩
        · exact htoken.symm
        · exact absurd ⟨hown.remembered hd, hnone⟩ hsome
      | reconnect _ =>
        rcases hheld.resumes t _ hpc about rfl with htoken | hnothing
        · exact htoken.symm
        · exact absurd hnothing hsome
  | report td he =>
    refine happend _ (fun e hmem => ?_) he
    obtain ⟨l, hl, rfl⟩ := List.mem_map.1 hmem
    rw [Option.mem_toList] at hl
    show td.about = l.token
    cases hlife : td.life with
    | true =>
      rw [hown.teardown t _ hpc td rfl hlife] at hl
      cases hl
    | false =>
      rcases hown.outstanding t _ hpc td.about (Teardown.outstanding_of_life hlife) with
        htoken | ⟨-, hnone⟩
      · exact htoken.symm.trans (hheld.token l hl).symm
      · rw [hnone] at hl
        cases hl

/-- **A session verdict hits only its own session.** In every run in which
attempts install with no verdict outstanding, what a verdict tore down, or what
was in place when it was reported, was the session it was about. -/
theorem verdicts_own {ls : List Label} (hok : Meets (step cap) NoDispute init ls)
    (h : exec (step cap) init ls = some s) : ∀ e ∈ s.m.ended, e.1 = e.2 := by
  have hi : s.Held ∧ s.Flow ∧ s.Closing ∧ s.Own ∧ s.Just := by
    refine exec_invariant
      (I := fun s : System => s.Held ∧ s.Flow ∧ s.Closing ∧ s.Own ∧ s.Just)
      (fun s l s' hi ho hs => ?_)
      ⟨init_held, init_flow, init_closing, init_own, init_just⟩ hok h
    obtain ⟨hheld, hflow, hclosing, hown, hjust⟩ := hi
    refine ⟨step_held hheld hs, step_flow hflow hs, step_closing hheld hflow hclosing hs, ?_⟩
    rcases step_cases hs with ⟨c, rfl, rfl⟩ | ⟨t, a, pc, mv, rfl, hpc, hmv, rfl⟩
    · exact ⟨enter_own hown c, threads_enter (P := fun _ pc => pc.Fair)
        (by cases c <;> trivial) hjust.fair, hjust.ended⟩
    · exact ⟨step_own hheld hflow hclosing hown hpc (ho pc hpc) hmv,
        step_just hheld hown hjust hpc hmv⟩
  exact hi.2.2.2.2.ended

end System

/-- The server's answer that a session was ended. -/
def kicked : Status := ⟨.unauthenticated, "session ended: kicked"⟩

/-- A session ends with its stream. -/
theorem verdicts_own_kicked : ∃ s : System,
    exec (System.step 256) System.init
        (connected 0 "tok" ++ .run 1 (.fail (some kicked)) :: goes 1 11) = some s ∧
      s.m.ended = [("tok", "tok")] ∧ ∀ e ∈ s.m.ended, e.1 = e.2 := by
  have h : (exec (System.step 256) System.init
      (connected 0 "tok" ++ .run 1 (.fail (some kicked)) :: goes 1 11)).map (fun s => s.m.ended) =
        some [("tok", "tok")] := by decide +kernel
  obtain ⟨s, hs, hv⟩ := Option.map_eq_some_iff.1 h
  exact ⟨s, hs, hv, System.verdicts_own (by decide +kernel) hs⟩

/-- **A fresh session ended by an old verdict.** The stream of the first session
ends and is found current; the user connects again; then the verdict tears down
the second session. -/
theorem verdict_hits_another : ∃ s : System,
    exec (System.step 256) System.init
        (connected 0 "old" ++ .run 1 (.fail (some kicked)) :: goes 1 4 ++
          (.call .connect :: goes 2 9 ++
            [.run 2 (.guid "g-1"), .run 2 (.login "new" ⟨"Maverick", "blue", "VF-1", 0⟩),
              .run 2 .go] ++ syncing 2 ++ goes 2 8) ++ goes 1 7) = some s ∧
      s.m.ended = [("old", "new")] ∧ ¬∀ e ∈ s.m.ended, e.1 = e.2 := by
  have h : (exec (System.step 256) System.init
      (connected 0 "old" ++ .run 1 (.fail (some kicked)) :: goes 1 4 ++
          (.call .connect :: goes 2 9 ++
            [.run 2 (.guid "g-1"), .run 2 (.login "new" ⟨"Maverick", "blue", "VF-1", 0⟩),
              .run 2 .go] ++ syncing 2 ++ goes 2 8) ++ goes 1 7)).map (fun s => s.m.ended) =
        some [("old", "new")] := by decide +kernel
  obtain ⟨s, hs, hv⟩ := Option.map_eq_some_iff.1 h
  refine ⟨s, hs, hv, ?_⟩
  rw [hv]
  decide

end VcsClient.Session
