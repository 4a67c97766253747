import VcsClient.Config.Config
import VcsClient.Lib.Assoc
import VcsClient.Lib.History
import VcsClient.Lib.Machine

/-!
# Writing the configuration

`persistCfg` of `internal/app/persistcfg.go`, with the transactions its callers
hand to it, and beside it `SetCommsLayout`, `captureCommsWindowSize` and
`flushConfig`, step by step: a section under `mu` is one step, and so is a call
of `config.Save`, which either replaces the file or leaves it. `writeMu`, which
most callers hold, only removes schedules and is left out.

The calls are numbered, and `history` records when each took effect: a
transaction at its commit, or where its check told it to do nothing.
-/

namespace VcsClient.App

open VcsClient.Lib VcsClient.Config

/-- `cfgTxn`; of the backend a check reads, and a commit writes, only
`radioSelectPersistedSeq`. No check reads the layout. -/
structure CfgTxn where
  check : Config → ℕ → Bool
  mutate : Config → Config
  onCommit : ℕ → ℕ
  check_layout : ∀ c l n, check { c with commsLayout := l } n = check c n

namespace CfgTxn

/-- A transaction without `check` and `onCommit`. -/
def always (mutate : Config → Config) : CfgTxn where
  check _ _ := true
  mutate := mutate
  onCommit n := n
  check_layout _ _ _ := rfl

def persistRadios (radios : List Radio) : CfgTxn := always fun c => { c with radios := radios }

def applyProfile (d : Document) (path : String) : CfgTxn :=
  always fun c =>
    { c with
      radios := d.radios
      selectedRadioID := selectionFor d.radios c.selectedRadioID
      commsLayout := d.layout
      activeProfile := path }

def setSettings (general : General) (audio : Audio) : CfgTxn :=
  always fun c => { c with general := general, audio := audio }

def persistKeybinds (binds : AList fun _ : String => KeybindValue) : CfgTxn :=
  always fun c => { c with keybinds := binds }

def rememberDevice (id name : String) : CfgTxn :=
  always fun c => { c with keybindDevices := c.keybindDevices.insert id name }

def rememberServerAddress (addr : String) : CfgTxn :=
  always fun c => { c with lastServerAddress := addr }

def resetLayout : CfgTxn :=
  always fun c => { c with commsLayout :=
    ⟨defaultWindowW, defaultWindowH, c.radios.map fun r => ⟨r.id, defaultVariant⟩⟩ }

def browseProfilesDir (dir : String) : CfgTxn := always fun c => { c with profilesDir := dir }

def seedBuiltinProfiles (updated : AList fun _ : String => String) : CfgTxn :=
  always fun c => { c with builtinProfiles := updated }

def deleteProfile (path : String) : CfgTxn where
  check c _ := c.activeProfile == path
  mutate c := { c with activeProfile := "" }
  onCommit n := n
  check_layout _ _ _ := rfl

def persistSelectedRadioSeq (id : UInt32) (seq : ℕ) : CfgTxn where
  check _ persisted := seq == 0 || decide (persisted ≤ seq)
  mutate c := { c with selectedRadioID := id }
  onCommit persisted := if seq = 0 then persisted else seq
  check_layout _ _ _ := rfl

end CfgTxn

inductive ConfigOp where
  | persistCfg (tx : CfgTxn)
  | setCommsLayout (blocks : List LayoutBlock)
  | captureCommsWindowSize (w h : ℤ)
  | flushConfig

def windowEchoTolerancePx : ℤ := 2

def absInt (n : ℤ) : ℤ := if n < 0 then -n else n

/-- The size is one the window reports back, or none. -/
def keepsSize (l : CommsLayout) (w h : ℤ) : Prop :=
  w ≤ 0 ∨ h ≤ 0 ∨
    absInt (l.windowW - w) ≤ windowEchoTolerancePx ∧
      absInt (l.windowH - h) ≤ windowEchoTolerancePx

instance (l : CommsLayout) (w h : ℤ) : Decidable (keepsSize l w h) :=
  inferInstanceAs (Decidable (_ ∨ _ ∨ _ ∧ _))

/-- The configuration after the operation, executed alone and with its save
succeeding, and `radioSelectPersistedSeq`. -/
def ConfigOp.perform (s : Config × ℕ) : ConfigOp → Config × ℕ
  | .persistCfg tx => if tx.check s.1 s.2 then (tx.mutate s.1, tx.onCommit s.2) else s
  | .setCommsLayout blocks =>
    ({ s.1 with commsLayout := { s.1.commsLayout with blocks := blocks } }, s.2)
  | .captureCommsWindowSize w h =>
    if keepsSize s.1.commsLayout w h then s
    else ({ s.1 with commsLayout := { s.1.commsLayout with windowW := w, windowH := h } }, s.2)
  | .flushConfig => s

/-- Where `config.Save` fails: the temporary file is written and renamed. -/
inductive SaveFault where
  | create
  | encode
  | close
  | rename
  deriving DecidableEq

inductive ConfigCall where
  | begin (op : ConfigOp)
  /-- in `persistCfg`, holding `saveMu`, before the first section -/
  | locked (tx : CfgTxn)
  | saving (tx : CfgTxn) (next : Config)
  /-- saved, before the last section -/
  | commit (tx : CfgTxn) (next : Config)
  /-- in `flushConfig`, before `saveMu` -/
  | flushWait
  | flushLocked
  | flushSaving (snapshot : Config)
  | flushFailed
  /-- before the deferred unlock -/
  | unlock (ok : Bool)

structure Persist where
  cfg : Config
  layoutPending : Bool
  radioSelectPersistedSeq : ℕ
  cfgPath : String
  file : Option Config
  saveMu : Option ℕ
  calls : AList fun _ : ℕ => ConfigCall
  /-- The operation of each call, what became of the calls, the saves that
  succeeded. -/
  ops : List ConfigOp
  history : History
  saves : ℕ

inductive PersistOp where
  | call (op : ConfigOp)
  | run (id : ℕ) (fault : Option SaveFault)

namespace Persist

def init (cfg : Config) (cfgPath : String) (file : Option Config) : Persist where
  cfg := cfg
  layoutPending := false
  radioSelectPersistedSeq := 0
  cfgPath := cfgPath
  file := file
  saveMu := none
  calls := ∅
  ops := []
  history := .empty
  saves := 0

def goto (p : Persist) (id : ℕ) (c : ConfigCall) : Persist :=
  { p with calls := assign p.calls id (some c) }

/-- The call took effect in its only section, and returns. -/
def finish (p : Persist) (id : ℕ) : Persist :=
  { p with calls := assign p.calls id none, history := (p.history.place id).finish id true }

/-- `config.Save`. -/
def save (p : Persist) (next : Config) : Persist :=
  { p with file := some next, saves := p.saves + 1 }

def runCall (p : Persist) (id : ℕ) (fault : Option SaveFault) : ConfigCall → Option Persist
  | .begin (.persistCfg tx) =>
    if p.saveMu = none then some { p.goto id (.locked tx) with saveMu := some id } else none
  | .begin (.setCommsLayout blocks) =>
    some { p.finish id with
      cfg := { p.cfg with commsLayout := { p.cfg.commsLayout with blocks := blocks } }
      layoutPending := true }
  | .begin (.captureCommsWindowSize w h) =>
    if keepsSize p.cfg.commsLayout w h then some (p.finish id)
    else
      some { p.finish id with
        cfg := { p.cfg with commsLayout := { p.cfg.commsLayout with windowW := w, windowH := h } }
        layoutPending := true }
  | .begin .flushConfig =>
    if p.cfgPath = "" ∨ p.layoutPending = false then some (p.finish id)
    else some (p.goto id .flushWait)
  | .locked tx =>
    if tx.check p.cfg p.radioSelectPersistedSeq then
      some (p.goto id (.saving tx (tx.mutate p.cfg)))
    else some { p.goto id (.unlock true) with history := p.history.place id }
  | .saving tx next =>
    if p.cfgPath = "" then some (p.goto id (.commit tx next))
    else
      match fault with
      | none => some ((p.save next).goto id (.commit tx next))
      | some _ => some (p.goto id (.unlock false))
  | .commit tx _ =>
    some { p.goto id (.unlock true) with
      cfg := tx.mutate p.cfg
      radioSelectPersistedSeq := tx.onCommit p.radioSelectPersistedSeq
      history := p.history.place id }
  | .flushWait =>
    if p.saveMu = none then some { p.goto id .flushLocked with saveMu := some id } else none
  | .flushLocked => some { p.goto id (.flushSaving p.cfg) with layoutPending := false }
  | .flushSaving snapshot =>
    match fault with
    | none => some { (p.save snapshot).goto id (.unlock true) with history := p.history.place id }
    | some _ => some (p.goto id .flushFailed)
  | .flushFailed => some { p.goto id (.unlock false) with layoutPending := true }
  | .unlock ok =>
    some { p with
      calls := assign p.calls id none
      saveMu := none
      history := p.history.finish id ok }

def step (p : Persist) : PersistOp → Option Persist
  | .call op =>
    some { p with
      calls := assign p.calls p.history.calls (some (.begin op))
      ops := p.ops ++ [op]
      history := p.history.start }
  | .run id fault => (p.calls.lookup id).bind (p.runCall id fault)

/-- The operations that took effect, in that order. -/
def executed (p : Persist) : List ConfigOp := p.history.order.filterMap (p.ops[·]?)

/-- What the writes of the configuration amount to, starting from `init`. -/
structure Serialisable (init : Config) (p : Persist) : Prop where
  /-- The configuration is that of a sequential execution, -/
  result : p.cfg = (p.executed.foldl ConfigOp.perform (init, 0)).1
  /-- at rest of the operations that succeeded and of no others, each once, -/
  exactly : p.calls = ∅ → ∀ id, id ∈ p.history.order ↔ .returned id true ∈ p.history.events
  once : p.history.order.Nodup
  /-- in an order that respects real time. -/
  realTime : ∀ c ok d, [.returned c ok, .started d].Sublist p.history.events →
    c ∈ p.history.order → d ∈ p.history.order → [c, d].Sublist p.history.order
  /-- At rest the file is the configuration. -/
  saved : p.calls = ∅ → p.layoutPending = false → 0 < p.saves → p.file = some p.cfg

end Persist

/-- A configuration with nothing in it. -/
def emptyConfig : Config where
  lastServerAddress := ""
  general := ⟨false, false, false, false, false, false⟩
  keybinds := ∅
  keybindDevices := ∅
  audio := ⟨"", "", "", "", false, false, false, false, 0, 0, false, 0, 0, 0, "", "",
    ⟨0, 0, 0, 0⟩, ∅⟩
  radios := []
  selectedRadioID := 0
  activeProfile := ""
  profilesDir := ""
  builtinProfiles := ∅
  commsLayout := ⟨0, 0, []⟩

end VcsClient.App
