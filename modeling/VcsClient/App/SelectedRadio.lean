import VcsClient.App.PersistCfg

/-!
# Selecting a radio

`SelectRadio`, the hotkey `radio.<n>.select` and the part of `applyProfile` that
picks a radio, step by step. A selection writes the store, takes a number and
saves; a profile load saves and then writes the store. A transaction of
`persistCfg` holds `writeMu` throughout, so it is one step.

A call's first write is its choice. `chosen` is the radio of the newest choice,
`newest` the call that made it.
-/

namespace VcsClient.App

open VcsClient.Lib VcsClient.Config

inductive SelectCall where
  /-- `SelectRadio`, or `dispatchAudioPressed` -/
  | begin (id : UInt32)
  /-- before `nextRadioSelectSeq` -/
  | selected (id : UInt32)
  /-- before `persistSelectedRadioSeq`; of a hotkey on a goroutine of its own -/
  | queued (id : UInt32) (seq : ℕ)
  /-- `applyProfile` -/
  | load (d : Document) (path : String)
  /-- before `SetSelectedRadio` -/
  | applied (selected : UInt32)

structure Selecting where
  /-- `selectedRadio` of the store. -/
  selectedRadio : UInt32
  cfg : Config
  radioSelectSeq : ℕ
  radioSelectPersistedSeq : ℕ
  calls : AList fun _ : ℕ => SelectCall
  started : ℕ
  chosen : UInt32
  newest : Option ℕ

inductive SelectOp where
  | selectRadio (id : UInt32)
  | radioSelectHotkey (id : UInt32)
  | applyProfile (d : Document) (path : String)
  | run (call : ℕ)

namespace Selecting

/-- `SetSettingsBackend` restores the persisted selection. -/
def init (cfg : Config) : Selecting where
  selectedRadio := cfg.selectedRadioID
  cfg := cfg
  radioSelectSeq := 0
  radioSelectPersistedSeq := 0
  calls := ∅
  started := 0
  chosen := cfg.selectedRadioID
  newest := none

/-- `persistCfg`, its save succeeding. -/
def persist (p : Selecting) (tx : CfgTxn) : Selecting :=
  let (cfg, seq) := (ConfigOp.persistCfg tx).perform (p.cfg, p.radioSelectPersistedSeq)
  { p with cfg := cfg, radioSelectPersistedSeq := seq }

def goto (p : Selecting) (call : ℕ) (o : Option SelectCall) : Selecting :=
  { p with calls := assign p.calls call o }

def start (p : Selecting) (c : SelectCall) : Selecting :=
  { p.goto p.started (some c) with started := p.started + 1 }

def runCall (p : Selecting) (call : ℕ) : SelectCall → Selecting
  | .begin id =>
    { p.goto call (some (.selected id)) with
      selectedRadio := id
      chosen := id
      newest := some call }
  | .selected id =>
    { p.goto call (some (.queued id (p.radioSelectSeq + 1))) with
      radioSelectSeq := p.radioSelectSeq + 1 }
  | .queued id seq => (p.persist (.persistSelectedRadioSeq id seq)).goto call none
  | .load d path =>
    let p := p.persist (.applyProfile d path)
    { p.goto call (some (.applied p.cfg.selectedRadioID)) with
      chosen := p.cfg.selectedRadioID
      newest := some call }
  | .applied selected => { p.goto call none with selectedRadio := selected }

def step (p : Selecting) : SelectOp → Option Selecting
  | .selectRadio id | .radioSelectHotkey id => some (p.start (.begin id))
  | .applyProfile d path => some (p.start (.load d path))
  | .run call => (p.calls.lookup call).map (p.runCall call)

/-- What is left to do of the newest choice. -/
def due (p : Selecting) : Option SelectCall := p.newest.bind p.calls.lookup

/-- The newest choice is a selection that is saved after the number `seq`. -/
def SavesAfter (p : Selecting) (seq : ℕ) : Prop :=
  match p.due with
  | some (.selected _) => True
  | some (.queued _ seq') => seq < seq'
  | _ => False

instance (p : Selecting) (seq : ℕ) : Decidable (p.SavesAfter seq) := by
  unfold SavesAfter
  split <;> infer_instance

/-- The newest choice is a load that is still to write the store. -/
def ShowsAfter (p : Selecting) : Prop :=
  match p.due with
  | some (.applied _) => True
  | _ => False

instance (p : Selecting) : Decidable p.ShowsAfter := by
  unfold ShowsAfter
  split <;> infer_instance

/-- A second write puts another radio than the newest choice only where that
choice is a call of the same kind whose second write is to follow. -/
def InOrder (p : Selecting) : SelectOp → Prop
  | .run call => ∀ c ∈ p.calls.lookup call,
    match c with
    | .queued id seq =>
      p.radioSelectPersistedSeq ≤ seq → id = p.chosen ∨ p.SavesAfter seq
    | .applied selected => selected = p.chosen ∨ p.ShowsAfter
    | _ => True
  | _ => True

instance (p : Selecting) : ∀ op, Decidable (p.InOrder op)
  | .selectRadio _ | .radioSelectHotkey _ | .applyProfile _ _ => .isTrue trivial
  | .run call =>
    match h : p.calls.lookup call with
    | none => .isTrue fun c hc => by simp [h] at hc
    | some (.queued id seq) =>
      decidable_of_iff (p.radioSelectPersistedSeq ≤ seq → id = p.chosen ∨ p.SavesAfter seq)
        (by simp [InOrder, h])
    | some (.applied selected) =>
      decidable_of_iff (selected = p.chosen ∨ p.ShowsAfter) (by simp [InOrder, h])
    | some (.begin _) | some (.selected _) | some (.load _ _) =>
      .isTrue fun c hc => by
        rw [h] at hc
        cases hc
        trivial

/-! ## What a step does -/

inductive Moves (p : Selecting) : SelectOp → Selecting → Prop
  | start {op} (c : SelectCall) (hc : ∀ id seq, c ≠ .queued id seq) :
      p.Moves op { p with calls := assign p.calls p.started (some c), started := p.started + 1 }
  | select {call id} (hl : p.calls.lookup call = some (.begin id)) :
      p.Moves (.run call)
        { p with
          calls := assign p.calls call (some (.selected id))
          selectedRadio := id
          chosen := id
          newest := some call }
  | number {call id} (hl : p.calls.lookup call = some (.selected id)) :
      p.Moves (.run call)
        { p with
          calls := assign p.calls call (some (.queued id (p.radioSelectSeq + 1)))
          radioSelectSeq := p.radioSelectSeq + 1 }
  | outdated {call id seq} (hl : p.calls.lookup call = some (.queued id seq))
      (hseq : seq < p.radioSelectPersistedSeq) :
      p.Moves (.run call) { p with calls := assign p.calls call none }
  | save {call id seq persisted} (hl : p.calls.lookup call = some (.queued id seq))
      (hseq : seq = 0 ∨ p.radioSelectPersistedSeq ≤ seq)
      (hp : persisted = if seq = 0 then p.radioSelectPersistedSeq else seq) :
      p.Moves (.run call)
        { p with
          calls := assign p.calls call none
          cfg := { p.cfg with selectedRadioID := id }
          radioSelectPersistedSeq := persisted }
  | load {call d path cfg} (hl : p.calls.lookup call = some (.load d path))
      (hcfg : cfg = (CfgTxn.applyProfile d path).mutate p.cfg) :
      p.Moves (.run call)
        { p with
          calls := assign p.calls call (some (.applied cfg.selectedRadioID))
          cfg := cfg
          chosen := cfg.selectedRadioID
          newest := some call }
  | display {call selected} (hl : p.calls.lookup call = some (.applied selected)) :
      p.Moves (.run call)
        { p with calls := assign p.calls call none, selectedRadio := selected }

variable {p p' : Selecting} {op : SelectOp} {i : ℕ}

theorem step_moves (hs : p.step op = some p') : p.Moves op p' := by
  unfold step at hs
  cases op with
  | selectRadio id | radioSelectHotkey id =>
    cases hs
    exact .start (.begin id) fun _ _ h => by cases h
  | applyProfile d path =>
    cases hs
    exact .start (.load d path) fun _ _ h => by cases h
  | run call =>
    obtain ⟨c, hl, rfl⟩ := Option.map_eq_some_iff.1 hs
    cases c with
    | begin id => exact .select hl
    | selected id => exact .number hl
    | queued id seq =>
      by_cases h : seq = 0 ∨ p.radioSelectPersistedSeq ≤ seq
      · rw [show p.runCall call (.queued id seq) = _ by
          simp only [runCall, persist, ConfigOp.perform, CfgTxn.persistSelectedRadioSeq,
            Bool.or_eq_true, beq_iff_eq, decide_eq_true_eq, if_pos h]; rfl]
        exact .save hl h rfl
      · rw [show p.runCall call (.queued id seq) = _ by
          simp only [runCall, persist, ConfigOp.perform, CfgTxn.persistSelectedRadioSeq,
            Bool.or_eq_true, beq_iff_eq, decide_eq_true_eq, if_neg h]; rfl]
        exact .outdated hl (by omega)
    | load d path => exact .load hl rfl
    | applied selected => exact .display hl

/-! ## The choice carries through -/

/-- Where the newest choice stands, the radio is already in the store, in the
configuration, or in both. -/
def Carries (p : Selecting) : Option SelectCall → Prop
  | some (.selected id) => id = p.chosen ∧ p.selectedRadio = p.chosen
  | some (.queued id seq) => id = p.chosen ∧ p.selectedRadio = p.chosen ∧
      (p.radioSelectPersistedSeq ≤ seq ∨ p.cfg.selectedRadioID = p.chosen)
  | some (.applied selected) => selected = p.chosen ∧ p.cfg.selectedRadioID = p.chosen
  | none => p.selectedRadio = p.chosen ∧ p.cfg.selectedRadioID = p.chosen
  | some (.begin _) | some (.load _ _) => False

def Numbered (p : Selecting) : SelectCall → Prop
  | .queued _ seq => 0 < seq ∧ seq ≤ p.radioSelectSeq
  | _ => True

structure Carried (p : Selecting) : Prop where
  calls : ∀ i c, p.calls.lookup i = some c → i < p.started ∧ p.Numbered c
  newest : ∀ i ∈ p.newest, i < p.started
  persisted : p.radioSelectPersistedSeq ≤ p.radioSelectSeq
  carries : p.Carries p.due

theorem carried_init (cfg : Config) : (init cfg).Carried where
  calls _ _ h := by cases h
  newest _ h := by cases h
  persisted := le_rfl
  carries := ⟨rfl, rfl⟩

theorem due_of_newest (hn : p.newest = some i) : p.due = p.calls.lookup i := by
  unfold due
  rw [hn]
  rfl

theorem due_others {o : Option SelectCall} (hne : p.newest ≠ some i) :
    p.newest.bind (assign p.calls i o).lookup = p.due := by
  unfold due
  cases h : p.newest with
  | none => rfl
  | some n =>
    have hn : n ≠ i := fun hc => hne (hc ▸ h)
    show (assign p.calls i o).lookup n = p.calls.lookup n
    rw [lookup_assign, if_neg hn]

theorem due_self {o : Option SelectCall} (hn : p.newest = some i) :
    p.newest.bind (assign p.calls i o).lookup = o := by
  rw [hn]
  show (assign p.calls i o).lookup i = o
  rw [lookup_assign, if_pos rfl]

theorem Carried.of_newest (h : p.Carried) {c : SelectCall} (hl : p.calls.lookup i = some c)
    (hn : p.newest = some i) : p.Carries (some c) := by
  rw [← hl, ← due_of_newest hn]
  exact h.carries

/-- A save of another call leaves the newest choice where it stands. -/
theorem carries_save {calls : AList fun _ : ℕ => SelectCall} {id : UInt32} {seq : ℕ}
    (hc : p.Carries p.due) (hok : id = p.chosen ∨ p.SavesAfter seq) :
    Carries { p with
      calls := calls
      cfg := { p.cfg with selectedRadioID := id }
      radioSelectPersistedSeq := seq } p.due := by
  rcases hok with hid | hlater
  · -- the same radio is saved: the configuration holds the choice
    cases hd : p.due with
    | none => rw [hd] at hc; exact ⟨hc.1, hid⟩
    | some c =>
      rw [hd] at hc
      cases c with
      | begin id | load d path => exact hc
      | selected id => exact hc
      | queued id' seq' => exact ⟨hc.1, hc.2.1, .inr hid⟩
      | applied selected => exact ⟨hc.1, hid⟩
  · unfold SavesAfter at hlater
    cases hd : p.due with
    | none => rw [hd] at hlater; exact hlater.elim
    | some c =>
      rw [hd] at hlater hc
      cases c with
      | begin id | load d path | applied selected => exact hlater.elim
      | selected id => exact hc
      | queued id' seq' => exact ⟨hc.1, hc.2.1, .inl hlater.le⟩

/-- So does the write of the store by another call. -/
theorem carries_display {calls : AList fun _ : ℕ => SelectCall} {selected : UInt32}
    (hc : p.Carries p.due) (hok : selected = p.chosen ∨ p.ShowsAfter) :
    Carries { p with calls := calls, selectedRadio := selected } p.due := by
  rcases hok with hid | hlater
  · cases hd : p.due with
    | none => rw [hd] at hc; exact ⟨hid, hc.2⟩
    | some c =>
      rw [hd] at hc
      cases c with
      | begin id | load d path => exact hc
      | selected id => exact ⟨hc.1, hid⟩
      | queued id' seq' => exact ⟨hc.1, hid, hc.2.2⟩
      | applied selected => exact hc
  · unfold ShowsAfter at hlater
    cases hd : p.due with
    | none => rw [hd] at hlater; exact hlater.elim
    | some c =>
      rw [hd] at hlater hc
      cases c with
      | begin id | load d path | selected id | queued id' seq' => exact hlater.elim
      | applied selected => exact hc

/-- A call makes the newest choice: both writes are its own. -/
theorem Carried.chooses (h : p.Carried) {c c' : SelectCall} {cfg : Config} {radio chosen : UInt32}
    (hl : p.calls.lookup i = some c) (hnum : ∀ id seq, c' ≠ .queued id seq)
    (hc : Carries { p with
      calls := assign p.calls i (some c')
      cfg := cfg
      selectedRadio := radio
      chosen := chosen
      newest := some i } (some c')) :
    Carried { p with
      calls := assign p.calls i (some c')
      cfg := cfg
      selectedRadio := radio
      chosen := chosen
      newest := some i } := by
  have hlt : i < p.started := (h.calls i _ hl).1
  refine ⟨forall_assign h.calls fun c hc => ?_, fun n hn => ?_, h.persisted, ?_⟩
  · cases hc
    refine ⟨hlt, ?_⟩
    cases c' with
    | queued id seq => exact absurd rfl (hnum id seq)
    | _ => trivial
  · cases hn
    exact hlt
  · show Carries _ (Option.bind (some i) (assign p.calls i _).lookup)
    rw [Option.bind_some, lookup_assign, if_pos rfl]
    exact hc

theorem Carried.moves (h : p.Carried) (hok : p.InOrder op) (hm : p.Moves op p') : p'.Carried := by
  cases hm with
  | start c hc =>
    have hne : p.newest ≠ some p.started := fun hn => absurd (h.newest _ hn) (lt_irrefl _)
    refine ⟨forall_assign (fun i c hl => ?_) fun c' hc' => ?_,
      fun i hi => (h.newest i hi).trans (Nat.lt_succ_self _), h.persisted, ?_⟩
    · exact ⟨(h.calls i c hl).1.trans (Nat.lt_succ_self _), (h.calls i c hl).2⟩
    · cases hc'
      refine ⟨Nat.lt_succ_self _, ?_⟩
      cases c with
      | queued id seq => exact absurd rfl (hc id seq)
      | _ => trivial
    · show p.Carries (p.newest.bind _)
      rw [due_others hne]
      exact h.carries
  | select hl => exact h.chooses hl (fun _ _ h => by cases h) ⟨rfl, rfl⟩
  | load hl hcfg => exact h.chooses hl (fun _ _ h => by cases h) ⟨rfl, rfl⟩
  | @number i id hl =>
    have hlt : i < p.started := (h.calls i _ hl).1
    have hp := h.persisted
    refine ⟨forall_assign (fun j c hj => ⟨(h.calls j c hj).1, ?_⟩) fun c hc => ?_, h.newest,
      h.persisted.trans (Nat.le_succ _), ?_⟩
    · have hc := (h.calls j c hj).2
      cases c with
      | queued id seq => exact ⟨hc.1, hc.2.trans (Nat.le_succ _)⟩
      | _ => trivial
    · cases hc
      exact ⟨hlt, Nat.succ_pos _, le_rfl⟩
    · show p.Carries (p.newest.bind _)
      by_cases hn : p.newest = some i
      · rw [due_self hn]
        obtain ⟨hid, hst⟩ := h.of_newest hl hn
        exact ⟨hid, hst, .inl (by omega)⟩
      · rw [due_others hn]
        exact h.carries
  | @outdated i id seq hl hseq =>
    refine ⟨forall_assign h.calls (by simp), h.newest, h.persisted, ?_⟩
    show p.Carries (p.newest.bind _)
    by_cases hn : p.newest = some i
    · rw [due_self hn]
      obtain ⟨-, hst, hp⟩ := h.of_newest hl hn
      exact ⟨hst, hp.resolve_left (by omega)⟩
    · rw [due_others hn]
      exact h.carries
  | @save i id seq persisted hl hseq hp =>
    obtain ⟨-, hpos, hle⟩ := h.calls i _ hl
    have hseq : p.radioSelectPersistedSeq ≤ seq := hseq.resolve_left (by omega)
    rw [if_neg (by omega)] at hp
    subst hp
    refine ⟨forall_assign h.calls (by simp), h.newest, hle, ?_⟩
    show Carries _ (p.newest.bind _)
    by_cases hn : p.newest = some i
    · rw [due_self hn]
      obtain ⟨hid, hst, -⟩ := h.of_newest hl hn
      exact ⟨hst, hid⟩
    · rw [due_others hn]
      exact carries_save h.carries (hok _ hl hseq)
  | @display i selected hl =>
    refine ⟨forall_assign h.calls (by simp), h.newest, h.persisted, ?_⟩
    show Carries _ (p.newest.bind _)
    by_cases hn : p.newest = some i
    · rw [due_self hn]
      exact h.of_newest hl hn
    · rw [due_others hn]
      exact carries_display h.carries (hok _ hl)

/-- With no call left the choice is both in the store and in the configuration. -/
theorem Carried.agrees (h : p.Carried) (hdone : p.calls = ∅) :
    p.selectedRadio = p.cfg.selectedRadioID := by
  have hdue : p.due = none := by
    unfold due
    rw [hdone]
    cases p.newest <;> rfl
  have hc := h.carries
  rw [hdue] at hc
  exact hc.1.trans hc.2.symm

end Selecting

/-- **Selected radio agreement.** Along every run of selections and profile loads
in which second writes follow the order of the choices, once all calls have
finished the store and the configuration select the same radio. -/
theorem selected_radio_agrees (cfg : Config) (ops : List SelectOp) (p : Selecting)
    (hok : Meets Selecting.step Selecting.InOrder (.init cfg) ops)
    (hrun : exec Selecting.step (.init cfg) ops = some p) (hdone : p.calls = ∅) :
    p.selectedRadio = p.cfg.selectedRadioID :=
  (exec_invariant (I := Selecting.Carried)
    (fun _ _ _ h hok hs => h.moves hok (Selecting.step_moves hs))
    (Selecting.carried_init cfg) hok hrun).agrees hdone

/-- A hotkey overtakes a selection from the window, and is overtaken in turn by
the save of a third; then a profile without the radio is loaded. -/
theorem selected_radio_agrees_overtaken : ∃ p,
    exec Selecting.step (.init emptyConfig)
      [.selectRadio 1, .radioSelectHotkey 2, .run 0, .run 0, .run 1, .run 1, .run 1, .run 0,
        .applyProfile ⟨[⟨3, "r", 251000, true, false⟩], ⟨0, 0, []⟩⟩ "p", .run 2, .run 2] = some p ∧
      p.cfg.selectedRadioID = 3 ∧ p.selectedRadio = p.cfg.selectedRadioID := by
  have hrun : (exec Selecting.step (.init emptyConfig)
      [.selectRadio 1, .radioSelectHotkey 2, .run 0, .run 0, .run 1, .run 1, .run 1, .run 0,
        .applyProfile ⟨[⟨3, "r", 251000, true, false⟩], ⟨0, 0, []⟩⟩ "p", .run 2, .run 2]).map
        (fun p => (p.cfg.selectedRadioID, p.calls.entries.length)) = some (3, 0) := by
    decide +kernel
  obtain ⟨p, hp, hv⟩ := Option.map_eq_some_iff.1 hrun
  simp only [Prod.mk.injEq, List.length_eq_zero_iff] at hv
  exact ⟨p, hp, hv.1,
    selected_radio_agrees emptyConfig _ p (by decide +kernel) hp (AList.ext hv.2)⟩

/-- Two selections reach the store in one order and take their numbers in the
other. -/
theorem selections_numbered_crosswise : ¬ ∀ (cfg : Config) (ops : List SelectOp) (p : Selecting),
    exec Selecting.step (.init cfg) ops = some p → p.calls = ∅ →
      p.selectedRadio = p.cfg.selectedRadioID := by
  intro h
  have hrun : (exec Selecting.step (.init emptyConfig)
      [.selectRadio 1, .selectRadio 2, .run 0, .run 1, .run 1, .run 0, .run 1, .run 0]).map
        (fun p => (p.selectedRadio, p.cfg.selectedRadioID, p.calls.entries.length)) =
      some (2, 1, 0) := by decide +kernel
  obtain ⟨p, hp, hv⟩ := Option.map_eq_some_iff.1 hrun
  simp only [Prod.mk.injEq, List.length_eq_zero_iff] at hv
  have := h emptyConfig _ p hp (AList.ext hv.2.2)
  rw [hv.1, hv.2.1] at this
  cases this

end VcsClient.App
