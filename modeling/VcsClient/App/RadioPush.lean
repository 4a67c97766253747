import Mathlib.Algebra.Order.Floor.Semiring
import Mathlib.Data.Rat.Floor
import VcsClient.App.PersistCfg

/-!
# Pushing the radios to the server

`UpdateRadioInfo`, `applyProfile` and `Connect` or `Reconnect` up to the RPC that
tells the server the radios, step by step. Saves succeed, and so does every RPC
on the live connection. The server keeps the last list it received. A list that
is on its way carries the number of the configuration change it was taken from,
which no code reads.

Frequencies travel as 32-bit floats; the float type and its conversions are
parameters.
-/

namespace VcsClient.App

open VcsClient.Lib VcsClient.Config

/-- `RadioDTO`, and `Radio` of `srs.proto`. -/
structure WireRadio (F : Type) where
  id : UInt32
  name : String
  frequency : F
  enabled : Bool
  isIntercom : Bool
  deriving DecidableEq

/-- `KHzFromMHz32` and `MHz32`. -/
structure FloatKHz (F : Type) where
  khzFromMHz32 : F → UInt32
  mhz32 : UInt32 → F

section Conversions

variable {F : Type} (c : FloatKHz F)

/-- The conversion of `persistRadios`. -/
def FloatKHz.toConfig (d : WireRadio F) : Radio :=
  ⟨d.id, d.name, c.khzFromMHz32 d.frequency, d.enabled, d.isIntercom⟩

/-- The conversion of `pushPersistedRadios`. -/
def FloatKHz.toWire (r : Radio) : WireRadio F :=
  ⟨r.id, r.name, c.mhz32 r.frequencyKHz, r.enabled, r.isIntercom⟩

/-- The two lists are equal, in one representation or the other. -/
def FloatKHz.Same (wire : List (WireRadio F)) (radios : List Radio) : Prop :=
  wire.map c.toConfig = radios ∨ radios.map c.toWire = wire

instance [DecidableEq F] (wire : List (WireRadio F)) (radios : List Radio) :
    Decidable (c.Same wire radios) := inferInstanceAs (Decidable (_ ∨ _))

end Conversions

inductive PushCall (F : Type) where
  /-- `UpdateRadioInfo` -/
  | update (radios : List (WireRadio F))
  /-- `applyProfile` -/
  | load (d : Document) (path : String)
  /-- `pushPersistedRadios`, before it reads the configuration -/
  | push
  /-- before the session's `UpdateRadioInfo` reads the control client -/
  | send (radios : List (WireRadio F)) (version : ℕ)
  /-- the RPC under way on connection `conn` -/
  | rpc (radios : List (WireRadio F)) (version conn : ℕ)
  deriving DecidableEq

/-- The list on its way, and the configuration change it was taken from. -/
def PushCall.list? {F : Type} : PushCall F → Option (List (WireRadio F) × ℕ)
  | .send radios version | .rpc radios version _ => some (radios, version)
  | .update _ | .load _ _ | .push => none

structure Pushing (F : Type) where
  cfg : Config
  /-- How often the radios of the configuration were replaced. -/
  version : ℕ
  /-- The live connection, and the radios the server has for it. -/
  server : Option (ℕ × List (WireRadio F))
  conns : ℕ
  calls : AList fun _ : ℕ => PushCall F
  started : ℕ

inductive PushOp (F : Type) where
  | updateRadioInfo (radios : List (WireRadio F))
  | applyProfile (d : Document) (path : String)
  /-- The session of `Connect` or `Reconnect` is installed. -/
  | connect
  | disconnect
  | run (call : ℕ)

namespace Pushing

variable {F : Type}

def init (F : Type) (cfg : Config) : Pushing F where
  cfg := cfg
  version := 0
  server := none
  conns := 0
  calls := ∅
  started := 0

def start (p : Pushing F) (c : PushCall F) : Pushing F :=
  { p with calls := assign p.calls p.started (some c), started := p.started + 1 }

def goto (p : Pushing F) (i : ℕ) (o : Option (PushCall F)) : Pushing F :=
  { p with calls := assign p.calls i o }

def runCall (c : FloatKHz F) (p : Pushing F) (i : ℕ) : PushCall F → Pushing F
  | .update radios =>
    { p.goto i (some (.send radios (p.version + 1))) with
      cfg := (CfgTxn.persistRadios (radios.map c.toConfig)).mutate p.cfg
      version := p.version + 1 }
  | .load d path =>
    { p.goto i (some .push) with
      cfg := (CfgTxn.applyProfile d path).mutate p.cfg
      version := p.version + 1 }
  | .push => p.goto i (some (.send (p.cfg.radios.map c.toWire) p.version))
  | .send radios version =>
    match p.server with
    | none => p.goto i none
    | some (conn, _) => p.goto i (some (.rpc radios version conn))
  | .rpc radios _ conn =>
    match p.server with
    | some (live, _) =>
      if live = conn then { p.goto i none with server := some (live, radios) } else p.goto i none
    | none => p.goto i none

/-- A new client starts without radios. -/
def step (c : FloatKHz F) (p : Pushing F) : PushOp F → Option (Pushing F)
  | .updateRadioInfo radios => some (p.start (.update radios))
  | .applyProfile d path => some (p.start (.load d path))
  | .connect =>
    some { p.start .push with server := some (p.conns, []), conns := p.conns + 1 }
  | .disconnect => some { p with server := none }
  | .run i => (p.calls.lookup i).map (p.runCall c i)

def live (p : Pushing F) : Option ℕ := p.server.map Prod.fst

/-- The list is the configuration's, or was taken from its last change. -/
def Newest (c : FloatKHz F) (p : Pushing F) (radios : List (WireRadio F)) (version : ℕ) : Prop :=
  c.Same radios p.cfg.radios ∨ version = p.version

instance [DecidableEq F] (c : FloatKHz F) (p : Pushing F) (radios : List (WireRadio F))
    (version : ℕ) : Decidable (p.Newest c radios version) := inferInstanceAs (Decidable (_ ∨ _))

/-- The call is to tell the server the radios of the configuration. -/
def Tells (c : FloatKHz F) (p : Pushing F) : PushCall F → Prop
  | .push => True
  | .send radios version => p.Newest c radios version
  | .rpc radios version conn => p.Newest c radios version ∧ p.live = some conn
  | .update _ | .load _ _ => False

instance [DecidableEq F] (c : FloatKHz F) (p : Pushing F) : ∀ t, Decidable (p.Tells c t)
  | .push => .isTrue trivial
  | .send radios version => inferInstanceAs (Decidable (p.Newest c radios version))
  | .rpc _ _ _ => inferInstanceAs (Decidable (_ ∧ _))
  | .update _ | .load _ _ => .isFalse id

/-- A list that reaches the live connection is the newest, or another call is
still to bring the newest. -/
def NewestLast (c : FloatKHz F) (p : Pushing F) : PushOp F → Prop
  | .run i => ∀ t ∈ p.calls.lookup i,
    match t with
    | .rpc radios version conn => p.live = some conn →
      p.Newest c radios version ∨ ∃ e ∈ (p.calls.erase i).entries, p.Tells c e.2
    | _ => True
  | _ => True

instance [DecidableEq F] (c : FloatKHz F) (p : Pushing F) : ∀ op, Decidable (p.NewestLast c op)
  | .updateRadioInfo _ | .applyProfile _ _ | .connect | .disconnect => .isTrue trivial
  | .run i =>
    match h : p.calls.lookup i with
    | none => .isTrue fun t ht => by simp [h] at ht
    | some (.rpc radios version conn) =>
      decidable_of_iff (p.live = some conn →
        p.Newest c radios version ∨ ∃ e ∈ (p.calls.erase i).entries, p.Tells c e.2)
        (by simp [NewestLast, h])
    | some (.update _) | some (.load _ _) | some .push | some (.send _ _) =>
      .isTrue fun t ht => by
        rw [h] at ht
        cases ht
        trivial

/-! ## The configuration's list is on its way -/

variable {c : FloatKHz F} {p p' : Pushing F} {op : PushOp F} {i j : ℕ} {t t' : PushCall F}
  {o : Option (PushCall F)}

def Pending (c : FloatKHz F) (p : Pushing F) : Prop :=
  ∃ i t, p.calls.lookup i = some t ∧ p.Tells c t

structure Told (c : FloatKHz F) (p : Pushing F) : Prop where
  calls : ∀ i t, p.calls.lookup i = some t → i < p.started
  lists : ∀ i t, p.calls.lookup i = some t → ∀ l ∈ t.list?,
    l.2 ≤ p.version ∧ (l.2 = p.version → c.Same l.1 p.cfg.radios)
  told : ∀ conn l, p.server = some (conn, l) → c.Same l p.cfg.radios ∨ p.Pending c

theorem told_init (c : FloatKHz F) (cfg : Config) : (init F cfg).Told c where
  calls _ _ h := by cases h
  lists _ _ h := by cases h
  told _ _ h := by cases h

/-- What a call brings depends on the radios, the number of their changes and the
live connection. -/
theorem tells_congr (hr : p'.cfg.radios = p.cfg.radios) (hv : p'.version = p.version)
    (hs : p'.live = p.live) (h : p.Tells c t) : p'.Tells c t := by
  cases t with
  | push => trivial
  | send radios version =>
    show c.Same radios p'.cfg.radios ∨ version = p'.version
    rw [hr, hv]
    exact h
  | rpc radios version conn =>
    show (c.Same radios p'.cfg.radios ∨ version = p'.version) ∧ p'.live = some conn
    rw [hr, hv, hs]
    exact h
  | update radios | load d path => exact h

theorem pending_of_ne (hcalls : p'.calls = assign p.calls i o)
    (hr : p'.cfg.radios = p.cfg.radios) (hv : p'.version = p.version) (hs : p'.live = p.live)
    (hj : p.calls.lookup j = some t) (hne : j ≠ i) (ht : p.Tells c t) : p'.Pending c :=
  ⟨j, t, by rw [hcalls, lookup_assign, if_neg hne]; exact hj, tells_congr hr hv hs ht⟩

theorem pending_of_self (hcalls : p'.calls = assign p.calls i (some t)) (ht : p'.Tells c t) :
    p'.Pending c :=
  ⟨i, t, by rw [hcalls, lookup_assign, if_pos rfl], ht⟩

theorem Told.ids (h : p.Told c) (hl : p.calls.lookup i = some t) :
    ∀ j t', (assign p.calls i o).lookup j = some t' → j < p.started :=
  forall_assign h.calls fun _ _ => h.calls i t hl

theorem Told.same (h : p.Told c) (hl : p.calls.lookup i = some t) {radios : List (WireRadio F)}
    {version : ℕ} (hlist : t.list? = some (radios, version)) (hnew : p.Newest c radios version) :
    c.Same radios p.cfg.radios :=
  hnew.elim id (h.lists i t hl (radios, version) hlist).2

/-- A call goes on that was not the one to bring the list, or still is. -/
theorem Told.goto (h : p.Told c) (hl : p.calls.lookup i = some t)
    (ho : ∀ t' ∈ o, ∀ l ∈ t'.list?,
      l.2 ≤ p.version ∧ (l.2 = p.version → c.Same l.1 p.cfg.radios))
    (ht : p.Tells c t → ∃ t' ∈ o, p.Tells c t') : (p.goto i o).Told c := by
  refine ⟨h.ids hl, forall_assign h.lists ho, fun conn l hs =>
    (h.told conn l hs).imp_right fun ⟨j, t', hj, htells⟩ => ?_⟩
  by_cases hji : j = i
  · subst hji
    rw [hl] at hj
    cases hj
    obtain ⟨t'', ho, htells⟩ := ht htells
    cases ho
    exact pending_of_self rfl (tells_congr (p := p) rfl rfl rfl htells)
  · exact pending_of_ne (p := p) rfl rfl rfl rfl hj hji htells

/-- The radios are replaced, and a call is to bring the new ones. -/
theorem Told.replaced (h : p.Told c) (hl : p.calls.lookup i = some t) {cfg : Config}
    (ho : ∀ l ∈ t'.list?, l.2 = p.version + 1 ∧ c.Same l.1 cfg.radios)
    (ht : ({ p.goto i (some t') with cfg := cfg, version := p.version + 1 } : Pushing F).Tells c t') :
    ({ p.goto i (some t') with cfg := cfg, version := p.version + 1 } : Pushing F).Told c := by
  refine ⟨h.ids hl, forall_assign (fun j t hj l hlist => ?_) fun t ht l hlist => ?_,
    fun _ _ _ => .inr (pending_of_self (p := p) rfl ht)⟩
  · have hle := (h.lists j t hj l hlist).1
    simp only
    exact ⟨by omega, fun he => by omega⟩
  · cases ht
    obtain ⟨hv, hsame⟩ := ho l hlist
    exact ⟨hv.le, fun _ => hsame⟩

theorem Told.started (h : p.Told c) (t : PushCall F) (ht : t.list? = none) : (p.start t).Told c := by
  refine ⟨forall_assign (fun j t' hj => (h.calls j t' hj).trans (Nat.lt_succ_self _))
    fun _ _ => Nat.lt_succ_self _, forall_assign h.lists fun t' ht' l hl => ?_,
    fun conn l hs => (h.told conn l hs).imp_right fun ⟨j, t', hj, htells⟩ => ?_⟩
  · cases ht'
    rw [ht] at hl
    cases hl
  · exact pending_of_ne (p := p) (o := some t) rfl rfl rfl rfl hj (h.calls j t' hj).ne htells

theorem Told.ran (h : p.Told c) (hl : p.calls.lookup i = some t) (hok : p.NewestLast c (.run i)) :
    (p.runCall c i t).Told c := by
  cases t with
  | update radios =>
    refine h.replaced hl (fun l hlist => ?_) (.inl (.inl rfl))
    cases hlist
    exact ⟨rfl, .inl rfl⟩
  | load d path => exact h.replaced hl nofun trivial
  | push =>
    refine h.goto hl (fun t' ht' l hlist => ?_) fun _ => ⟨_, rfl, .inl (.inr rfl)⟩
    cases ht'
    cases hlist
    exact ⟨le_rfl, fun _ => .inr rfl⟩
  | send radios version =>
    cases hs : p.server with
    | none =>
      simp only [runCall, hs]
      refine ⟨h.ids hl, forall_assign h.lists nofun, fun conn l hs' => ?_⟩
      rw [show (p.goto i none).server = none from hs] at hs'
      cases hs'
    | some s =>
      simp only [runCall, hs]
      refine h.goto hl (fun t' ht' l hlist => ?_)
        fun ht => ⟨_, rfl, ht, by unfold live; rw [hs]; rfl⟩
      cases ht'
      exact h.lists i _ hl l hlist
  | rpc radios version conn =>
    have hdead : p.live ≠ some conn → (p.goto i none).Told c := fun hne =>
      h.goto hl nofun fun ht => absurd ht.2 hne
    cases hs : p.server with
    | none =>
      simp only [runCall, hs]
      exact hdead (by unfold live; rw [hs]; simp)
    | some s =>
      obtain ⟨live, l⟩ := s
      have hlive : p.live = some live := by unfold Pushing.live; rw [hs]; rfl
      simp only [runCall, hs]
      by_cases hc : live = conn
      · simp only [if_pos hc]
        refine ⟨h.ids hl, forall_assign h.lists nofun, fun conn' l' hs' => ?_⟩
        cases hs'
        rcases hok _ hl (hc ▸ hlive) with hnew | ⟨e, he, htells⟩
        · exact .inl (h.same hl rfl hnew)
        · obtain ⟨hne, hj⟩ := mem_erase_entries he
          exact .inr (pending_of_ne (p := p) (o := none) rfl rfl rfl hlive.symm hj hne htells)
      · simp only [if_neg hc]
        exact hdead (by rw [hlive]; simpa using hc)

theorem Told.step (h : p.Told c) (hok : p.NewestLast c op) (hs : p.step c op = some p') :
    p'.Told c := by
  unfold Pushing.step at hs
  cases op with
  | updateRadioInfo radios | applyProfile d path =>
    cases hs
    exact h.started _ rfl
  | connect =>
    cases hs
    obtain ⟨hcalls, hlists, -⟩ := h.started .push rfl
    exact ⟨hcalls, hlists, fun _ _ _ => .inr (pending_of_self (p := p) rfl trivial)⟩
  | disconnect =>
    cases hs
    exact ⟨h.calls, h.lists, fun _ _ hs => by cases hs⟩
  | run i =>
    obtain ⟨t, hl, rfl⟩ := Option.map_eq_some_iff.1 hs
    exact h.ran hl hok

theorem Told.converged (h : p.Told c) (hdone : p.calls = ∅) {conn : ℕ} {l : List (WireRadio F)}
    (hs : p.server = some (conn, l)) : c.Same l p.cfg.radios := by
  refine (h.told conn l hs).resolve_right ?_
  rintro ⟨i, t, hl, -⟩
  rw [hdone] at hl
  cases hl

end Pushing

/-- **Radio set convergence.** Along every run of updates, profile loads and
connects in which the newest list reaches the server last, a connected
client at rest is known to the server with the radios of its configuration. -/
theorem radios_converge {F : Type} (c : FloatKHz F) (cfg : Config) (ops : List (PushOp F))
    (p : Pushing F) (hok : Meets (Pushing.step c) (Pushing.NewestLast c) (.init F cfg) ops)
    (hrun : exec (Pushing.step c) (.init F cfg) ops = some p) (hdone : p.calls = ∅)
    (conn : ℕ) (l : List (WireRadio F)) (hs : p.server = some (conn, l)) :
    c.Same l p.cfg.radios :=
  (exec_invariant (I := Pushing.Told c) (fun _ _ _ h hok hs => h.step hok hs)
    (Pushing.told_init c cfg) hok hrun).converged hdone hs

def ratKHz : FloatKHz ℚ where
  khzFromMHz32 f := UInt32.ofNat (round (f * 1000)).toNat
  mhz32 k := k.toNat / 1000

/-- A connect whose push carries an old copy, overtaken by an update on its way,
and a profile that is loaded meanwhile. -/
theorem radios_converge_overtaken : ∃ p l,
    exec (Pushing.step ratKHz) (.init ℚ emptyConfig)
      [.connect, .run 0, .updateRadioInfo [⟨1, "r", 251, true, false⟩], .run 1, .run 1, .run 0,
        .run 0, .run 1, .applyProfile ⟨[⟨2, "s", 124500, true, false⟩], ⟨0, 0, []⟩⟩ "p", .run 2,
        .run 2, .run 2, .run 2] = some p ∧
      p.server = some (0, l) ∧ ratKHz.Same l p.cfg.radios := by
  have hrun : (exec (Pushing.step ratKHz) (.init ℚ emptyConfig)
      [.connect, .run 0, .updateRadioInfo [⟨1, "r", 251, true, false⟩], .run 1, .run 1, .run 0,
        .run 0, .run 1, .applyProfile ⟨[⟨2, "s", 124500, true, false⟩], ⟨0, 0, []⟩⟩ "p", .run 2,
        .run 2, .run 2, .run 2]).map (fun p => (p.server, p.calls.entries.length)) =
      some (some (0, [⟨2, "s", 124500 / 1000, true, false⟩]), 0) := by decide +kernel
  obtain ⟨p, hp, hv⟩ := Option.map_eq_some_iff.1 hrun
  simp only [Prod.mk.injEq, List.length_eq_zero_iff] at hv
  exact ⟨p, _, hp, hv.1,
    radios_converge ratKHz emptyConfig _ p (by decide +kernel) hp (AList.ext hv.2) _ _ hv.1⟩

/-- Two updates are saved in one order and reach the server in the other. -/
theorem radios_pushed_crosswise : ¬ ∀ (cfg : Config) (ops : List (PushOp ℚ)) (p : Pushing ℚ)
    (conn : ℕ) (l : List (WireRadio ℚ)),
    exec (Pushing.step ratKHz) (.init ℚ cfg) ops = some p → p.calls = ∅ →
      p.server = some (conn, l) → ratKHz.Same l p.cfg.radios := by
  intro h
  have hrun : (exec (Pushing.step ratKHz) (.init ℚ emptyConfig)
      [.connect, .run 0, .run 0, .run 0, .updateRadioInfo [⟨1, "r", 251, true, false⟩],
        .updateRadioInfo [⟨1, "r", 252, true, false⟩], .run 1, .run 2, .run 1, .run 2, .run 2,
        .run 1]).map (fun p => (p.server, p.cfg.radios, p.calls.entries.length)) =
      some (some (0, [⟨1, "r", 251, true, false⟩]), [⟨1, "r", 252000, true, false⟩], 0) := by
    decide +kernel
  obtain ⟨p, hp, hv⟩ := Option.map_eq_some_iff.1 hrun
  simp only [Prod.mk.injEq, List.length_eq_zero_iff] at hv
  have hsame := h emptyConfig _ p _ _ hp (AList.ext hv.2.2) hv.1
  rw [hv.2.1] at hsame
  revert hsame
  decide +kernel

end VcsClient.App
