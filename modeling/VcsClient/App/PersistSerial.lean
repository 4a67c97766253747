import VcsClient.App.PersistCfg

/-!
# The writes of the configuration are serialisable

A call takes effect at one step, and `saveMu` keeps what a check saw until the
commit, apart from the layout, which no check reads (`Executed`). So the
configuration is the one the calls make in the order they took effect.

The file is behind only while a layout is pending or a save is being committed
(`Written`): what is saved is the mutated snapshot, and without a pending layout
nothing has changed since the snapshot was taken.
-/

namespace VcsClient.App

open VcsClient.Lib VcsClient.Config

namespace ConfigCall

def placed : ConfigCall → Bool
  | .unlock ok => ok
  | _ => false

/-- The call holds `saveMu`. -/
def holds : ConfigCall → Bool
  | .begin _ | .flushWait => false
  | _ => true

/-- The operation still to take effect. -/
def op : ConfigCall → Option ConfigOp
  | .begin op => some op
  | .locked tx | .saving tx _ | .commit tx _ => some (.persistCfg tx)
  | .flushWait | .flushLocked | .flushSaving _ => some .flushConfig
  | .flushFailed | .unlock _ => none

/-- The transaction whose check has passed. -/
def passed : ConfigCall → Option CfgTxn
  | .saving tx _ | .commit tx _ => some tx
  | _ => none

end ConfigCall

namespace Persist

/-- One constructor for what each step can do. -/
inductive Moves (p : Persist) : PersistOp → Persist → Prop
  | called (op : ConfigOp) : Moves p (.call op)
      { p with
        calls := assign p.calls p.history.calls (some (.begin op))
        ops := p.ops ++ [op]
        history := p.history.start }
  | locked {id : ℕ} {f : Option SaveFault} {tx : CfgTxn} (hmu : p.saveMu = none)
      (hc : p.calls.lookup id = some (.begin (.persistCfg tx))) : Moves p (.run id f)
      { p with calls := assign p.calls id (some (.locked tx)), saveMu := some id }
  | edited {id : ℕ} {f : Option SaveFault} {op : ConfigOp} {l : CommsLayout}
      (hc : p.calls.lookup id = some (.begin op))
      (hp : ∀ n, op.perform (p.cfg, n) = ({ p.cfg with commsLayout := l }, n)) :
      Moves p (.run id f)
      { p with
        calls := assign p.calls id none
        history := (p.history.place id).finish id true
        cfg := { p.cfg with commsLayout := l }
        layoutPending := true }
  | idle {id : ℕ} {f : Option SaveFault} {op : ConfigOp}
      (hc : p.calls.lookup id = some (.begin op))
      (hp : ∀ n, op.perform (p.cfg, n) = (p.cfg, n)) : Moves p (.run id f)
      { p with calls := assign p.calls id none, history := (p.history.place id).finish id true }
  | flushBegan {id : ℕ} {f : Option SaveFault} (hpath : p.cfgPath ≠ "")
      (hc : p.calls.lookup id = some (.begin .flushConfig)) : Moves p (.run id f)
      { p with calls := assign p.calls id (some .flushWait) }
  | skipped {id : ℕ} {f : Option SaveFault} {tx : CfgTxn}
      (hc : p.calls.lookup id = some (.locked tx))
      (hcheck : tx.check p.cfg p.radioSelectPersistedSeq = false) : Moves p (.run id f)
      { p with
        calls := assign p.calls id (some (.unlock true))
        history := p.history.place id }
  | snapshot {id : ℕ} {f : Option SaveFault} {tx : CfgTxn}
      (hc : p.calls.lookup id = some (.locked tx))
      (hcheck : tx.check p.cfg p.radioSelectPersistedSeq = true) : Moves p (.run id f)
      { p with calls := assign p.calls id (some (.saving tx (tx.mutate p.cfg))) }
  | unsaved {id : ℕ} {f : Option SaveFault} {tx : CfgTxn} {next : Config}
      (hc : p.calls.lookup id = some (.saving tx next)) (hpath : p.cfgPath = "") :
      Moves p (.run id f)
      { p with calls := assign p.calls id (some (.commit tx next)) }
  | saved {id : ℕ} {f : Option SaveFault} {tx : CfgTxn} {next : Config}
      (hc : p.calls.lookup id = some (.saving tx next)) (hpath : p.cfgPath ≠ "") :
      Moves p (.run id f)
      { p with
        calls := assign p.calls id (some (.commit tx next))
        file := some next
        saves := p.saves + 1 }
  | failed {id : ℕ} {f : Option SaveFault} {tx : CfgTxn} {next : Config}
      (hc : p.calls.lookup id = some (.saving tx next)) : Moves p (.run id f)
      { p with calls := assign p.calls id (some (.unlock false)) }
  | committed {id : ℕ} {f : Option SaveFault} {tx : CfgTxn} {next : Config}
      (hc : p.calls.lookup id = some (.commit tx next)) : Moves p (.run id f)
      { p with
        calls := assign p.calls id (some (.unlock true))
        cfg := tx.mutate p.cfg
        radioSelectPersistedSeq := tx.onCommit p.radioSelectPersistedSeq
        history := p.history.place id }
  | flushLocked {id : ℕ} {f : Option SaveFault} (hmu : p.saveMu = none)
      (hc : p.calls.lookup id = some .flushWait) : Moves p (.run id f)
      { p with calls := assign p.calls id (some .flushLocked), saveMu := some id }
  | flushSnapshot {id : ℕ} {f : Option SaveFault}
      (hc : p.calls.lookup id = some .flushLocked) : Moves p (.run id f)
      { p with calls := assign p.calls id (some (.flushSaving p.cfg)), layoutPending := false }
  | flushed {id : ℕ} {f : Option SaveFault} {next : Config}
      (hc : p.calls.lookup id = some (.flushSaving next)) : Moves p (.run id f)
      { p with
        calls := assign p.calls id (some (.unlock true))
        file := some next
        saves := p.saves + 1
        history := p.history.place id }
  | flushFailed {id : ℕ} {f : Option SaveFault} {next : Config}
      (hc : p.calls.lookup id = some (.flushSaving next)) : Moves p (.run id f)
      { p with calls := assign p.calls id (some .flushFailed) }
  | restored {id : ℕ} {f : Option SaveFault}
      (hc : p.calls.lookup id = some .flushFailed) : Moves p (.run id f)
      { p with calls := assign p.calls id (some (.unlock false)), layoutPending := true }
  | unlocked {id : ℕ} {f : Option SaveFault} {ok : Bool}
      (hc : p.calls.lookup id = some (.unlock ok)) : Moves p (.run id f)
      { p with
        calls := assign p.calls id none
        saveMu := none
        history := p.history.finish id ok }

variable {p p' : Persist} {op : PersistOp} {id : ℕ} {c : ConfigCall}
  {o : Option ConfigCall} {cfg₀ : Config}

theorem runCall_moves {f : Option SaveFault} (hc : p.calls.lookup id = some c)
    (hs : p.runCall id f c = some p') : p.Moves (.run id f) p' := by
  cases c with
  | begin op =>
    cases op with
    | persistCfg tx =>
      simp only [runCall] at hs
      split at hs
      · next hmu =>
        cases hs
        exact .locked hmu hc
      · cases hs
    | setCommsLayout blocks =>
      cases hs
      exact .edited hc fun n => rfl
    | captureCommsWindowSize w h =>
      simp only [runCall] at hs
      split at hs
      · next hk =>
        cases hs
        exact .idle hc fun n => if_pos hk
      · next hk =>
        cases hs
        exact .edited hc fun n => if_neg hk
    | flushConfig =>
      simp only [runCall] at hs
      split at hs
      · cases hs
        exact .idle hc fun n => rfl
      · next hn =>
        cases hs
        exact .flushBegan (fun he => hn (.inl he)) hc
  | locked tx =>
    simp only [runCall] at hs
    split at hs
    · next hcheck =>
      cases hs
      exact .snapshot hc hcheck
    · next hcheck =>
      cases hs
      exact .skipped hc (by simpa using hcheck)
  | saving tx next =>
    simp only [runCall] at hs
    split at hs
    · next hpath =>
      cases hs
      exact .unsaved hc hpath
    · next hpath =>
      split at hs
      · cases hs
        exact .saved hc hpath
      · cases hs
        exact .failed hc
  | commit tx next =>
    cases hs
    exact .committed hc
  | flushWait =>
    simp only [runCall] at hs
    split at hs
    · next hmu =>
      cases hs
      exact .flushLocked hmu hc
    · cases hs
  | flushLocked =>
    cases hs
    exact .flushSnapshot hc
  | flushSaving snapshot =>
    simp only [runCall] at hs
    split at hs
    · cases hs
      exact .flushed hc
    · cases hs
      exact .flushFailed hc
  | flushFailed =>
    cases hs
    exact .restored hc
  | unlock ok =>
    cases hs
    exact .unlocked hc

theorem step_moves (hs : p.step op = some p') : p.Moves op p' := by
  cases op with
  | call op =>
    cases hs
    exact .called op
  | run id f =>
    obtain ⟨c, hc, hs⟩ := Option.bind_eq_some_iff.1 hs
    exact runCall_moves hc hs

/-! ## The lock -/

structure Locked (p : Persist) : Prop where
  held : ∀ id c, p.calls.lookup id = some c → c.holds = true → p.saveMu = some id
  holder : ∀ id, p.saveMu = some id → ∃ c, p.calls.lookup id = some c ∧ c.holds = true
  /-- The number of the next call is not in use. -/
  fresh : ∀ id c, p.calls.lookup id = some c → id < p.history.calls

theorem locked_init (cfg₀ : Config) (path : String) (file : Option Config) :
    (init cfg₀ path file).Locked where
  held id c hc := by cases hc
  holder id h := by cases h
  fresh id c hc := by cases hc

theorem Locked.goes (h : p.Locked) (hc : p.calls.lookup id = some c)
    (hcalls : p'.calls = assign p.calls id o) (hmu : p'.saveMu = p.saveMu)
    (hn : p'.history.calls = p.history.calls) (ho : o.elim false ConfigCall.holds = c.holds) :
    p'.Locked := by
  refine ⟨?_, fun id' hid => ?_, ?_⟩
  · rw [hcalls, hmu]
    refine forall_assign h.held fun c' hc' hh => h.held id c hc ?_
    cases hc'
    exact ho.symm.trans hh
  · rw [hmu] at hid
    obtain ⟨c', hc', hh⟩ := h.holder id' hid
    by_cases hne : id' = id
    · subst hne
      rw [hc] at hc'
      cases hc'
      cases o with
      | none =>
        rw [← ho] at hh
        cases hh
      | some d => exact ⟨d, by rw [hcalls, lookup_assign, if_pos rfl], ho.trans hh⟩
    · exact ⟨c', by rw [hcalls, lookup_assign, if_neg hne]; exact hc', hh⟩
  · rw [hcalls, hn]
    exact forall_assign h.fresh fun _ _ => h.fresh id c hc

theorem Locked.lock (h : p.Locked) (hc : p.calls.lookup id = some c) (hmu : p.saveMu = none)
    {d : ConfigCall} (hd : d.holds = true) :
    { p with calls := assign p.calls id (some d), saveMu := some id }.Locked where
  held := forall_assign
    (fun id' c' hc' hh => by
      have := h.held id' c' hc' hh
      rw [hmu] at this
      cases this)
    fun _ _ _ => rfl
  holder id' hid := by
    cases hid
    exact ⟨d, by rw [lookup_assign, if_pos rfl], hd⟩
  fresh := forall_assign h.fresh fun _ _ => h.fresh id c hc

theorem Locked.moves (h : p.Locked) (hm : p.Moves op p') : p'.Locked := by
  cases hm with
  | called op =>
    refine ⟨?_, fun id hid => ?_, ?_⟩
    · refine forall_assign h.held fun c hc hh => ?_
      cases hc
      cases hh
    · obtain ⟨c, hc, hh⟩ := h.holder id hid
      exact ⟨c, by rw [lookup_assign, if_neg (Nat.ne_of_lt (h.fresh id c hc))]; exact hc, hh⟩
    · exact forall_assign (fun id c hc => (h.fresh id c hc).trans (Nat.lt_succ_self _))
        fun _ _ => Nat.lt_succ_self _
  | locked hmu hc => exact h.lock hc hmu rfl
  | flushLocked hmu hc => exact h.lock hc hmu rfl
  | @edited id f op l hc hp => exact h.goes (o := none) hc rfl rfl rfl rfl
  | idle hc hp => exact h.goes (o := none) hc rfl rfl rfl rfl
  | flushBegan hpath hc => exact h.goes (o := some .flushWait) hc rfl rfl rfl rfl
  | skipped hc hcheck => exact h.goes (o := some (.unlock true)) hc rfl rfl rfl rfl
  | @snapshot id f tx hc hcheck =>
    exact h.goes (o := some (.saving tx (tx.mutate p.cfg))) hc rfl rfl rfl rfl
  | @unsaved id f tx next hc hpath =>
    exact h.goes (o := some (.commit tx next)) hc rfl rfl rfl rfl
  | @saved id f tx next hc hpath =>
    exact h.goes (o := some (.commit tx next)) hc rfl rfl rfl rfl
  | failed hc => exact h.goes (o := some (.unlock false)) hc rfl rfl rfl rfl
  | committed hc => exact h.goes (o := some (.unlock true)) hc rfl rfl rfl rfl
  | flushSnapshot hc => exact h.goes (o := some (.flushSaving p.cfg)) hc rfl rfl rfl rfl
  | flushed hc => exact h.goes (o := some (.unlock true)) hc rfl rfl rfl rfl
  | flushFailed hc => exact h.goes (o := some .flushFailed) hc rfl rfl rfl rfl
  | restored hc => exact h.goes (o := some (.unlock false)) hc rfl rfl rfl rfl
  | @unlocked id f ok hc =>
    have hid := h.held id _ hc rfl
    refine ⟨?_, nofun, ?_⟩
    · intro id' c' hc' hh
      rw [lookup_assign] at hc'
      split at hc'
      · cases hc'
      · next hne =>
        have := h.held id' c' hc' hh
        rw [hid] at this
        exact absurd (Option.some.inj this).symm hne
    · exact forall_assign h.fresh (by simp)

/-! ## The order of the effects -/

/-- The calls under way, and whether they took effect. -/
def active (calls : AList fun _ : ℕ => ConfigCall) (id : ℕ) : Option Bool :=
  (calls.lookup id).map ConfigCall.placed

theorem active_assign (calls : AList fun _ : ℕ => ConfigCall) (id : ℕ) (o : Option ConfigCall) :
    active (assign calls id o) = Function.update (active calls) id (o.map ConfigCall.placed) := by
  funext id'
  unfold active
  rw [lookup_assign, Function.update_apply]
  split <;> rfl

theorem active_of_lookup (hc : p.calls.lookup id = some c) :
    active p.calls id = some c.placed := by
  rw [active, hc]
  rfl

/-- A call goes on, and took effect or not as before. -/
theorem active_goes (hc : p.calls.lookup id = some c) {d : ConfigCall}
    (hd : d.placed = c.placed) : active (assign p.calls id (some d)) = active p.calls := by
  rw [active_assign, Option.map_some, hd, ← active_of_lookup hc, Function.update_eq_self]

structure Executed (cfg₀ : Config) (p : Persist) : Prop where
  linear : p.history.Linear (active p.calls)
  ops : p.ops.length = p.history.calls
  doing : ∀ id c, p.calls.lookup id = some c → ∀ op ∈ c.op, p.ops[id]? = some op
  /-- A check that passed would still pass. -/
  checked : ∀ id c, p.calls.lookup id = some c → ∀ tx ∈ c.passed,
    tx.check p.cfg p.radioSelectPersistedSeq = true
  result : (p.cfg, p.radioSelectPersistedSeq) = p.executed.foldl ConfigOp.perform (cfg₀, 0)

theorem executed_init (cfg₀ : Config) (path : String) (file : Option Config) :
    (init cfg₀ path file).Executed cfg₀ where
  linear := History.linear_empty
  ops := rfl
  doing id c hc := by cases hc
  checked id c hc := by cases hc
  result := rfl

theorem executed_place {order : List ℕ} {ops : List ConfigOp} {op : ConfigOp}
    (hop : ops[id]? = some op) : (order ++ [id]).filterMap (ops[·]?) =
      order.filterMap (ops[·]?) ++ [op] := by
  rw [List.filterMap_append]
  simp [hop]

theorem Executed.executed_call (h : p.Executed cfg₀) (op : ConfigOp) :
    p.history.order.filterMap ((p.ops ++ [op])[·]?) = p.executed := by
  refine List.filterMap_congr fun id hid => List.getElem?_append_left ?_
  rw [h.ops]
  exact h.linear.order_lt id hid

theorem Executed.goes (h : p.Executed cfg₀) (hc : p.calls.lookup id = some c) {d : ConfigCall}
    (hd : d.placed = c.placed) (hop : ∀ op ∈ d.op, c.op = some op)
    (htx : ∀ tx ∈ d.passed, tx.check p.cfg p.radioSelectPersistedSeq = true) :
    { p with calls := assign p.calls id (some d) }.Executed cfg₀ where
  linear := by
    change p.history.Linear (active (assign p.calls id (some d)))
    rw [active_goes hc hd]
    exact h.linear
  ops := h.ops
  doing := forall_assign h.doing fun e he op ho => by
    cases he
    exact h.doing id c hc op (hop op ho)
  checked := forall_assign h.checked fun e he tx ht => by
    cases he
    exact htx tx ht
  result := h.result

theorem Executed.performs (h : p.Executed cfg₀) {op : ConfigOp}
    (hc : p.calls.lookup id = some (.begin op)) {cfg : Config} {pending : Bool}
    (hp : op.perform (p.cfg, p.radioSelectPersistedSeq) = (cfg, p.radioSelectPersistedSeq))
    (hl : cfg = { p.cfg with commsLayout := cfg.commsLayout }) :
    { p with
      calls := assign p.calls id none
      history := (p.history.place id).finish id true
      cfg := cfg
      layoutPending := pending }.Executed cfg₀ where
  linear := by
    have hpl := h.linear.place (active_of_lookup hc)
    have hfin := hpl.finish (c := id) (b := true) (Function.update_self ..)
    change ((p.history.place id).finish id true).Linear (active (assign p.calls id none))
    rw [active_assign]
    rwa [Function.update_idem] at hfin
  ops := h.ops
  doing := forall_assign h.doing (by simp)
  checked := by
    refine forall_assign (fun id' c hc' tx ht => ?_) (by simp)
    have := h.checked id' c hc' tx ht
    change tx.check cfg p.radioSelectPersistedSeq = true
    rw [hl, tx.check_layout]
    exact this
  result := by
    change (cfg, _) = ((p.history.order ++ [id]).filterMap (p.ops[·]?)).foldl _ _
    rw [executed_place (h.doing id _ hc op rfl), List.foldl_append]
    change _ = ConfigOp.perform (p.executed.foldl _ _) op
    rw [← h.result, hp]

theorem Executed.places (h : p.Executed cfg₀) (hL : p.Locked) {op : ConfigOp}
    (hc : p.calls.lookup id = some c) (hcp : c.placed = false)
    (hop : c.op = some op) (hholds : c.holds = true) {cfg : Config} {n : ℕ}
    (hp : op.perform (p.cfg, p.radioSelectPersistedSeq) = (cfg, n)) :
    { p with
      calls := assign p.calls id (some (.unlock true))
      cfg := cfg
      radioSelectPersistedSeq := n
      history := p.history.place id }.Executed cfg₀ where
  linear := by
    have hpl := h.linear.place ((active_of_lookup hc).trans (congrArg some hcp))
    change (p.history.place id).Linear (active (assign p.calls id (some (.unlock true))))
    rwa [active_assign]
  ops := h.ops
  doing := forall_assign h.doing fun d hd op ho => by
    cases hd
    cases ho
  checked := by
    intro id' d hd tx' ht
    rw [lookup_assign] at hd
    split at hd
    · cases hd
      cases ht
    · next hne =>
      -- only the holder of the lock has passed its check
      have hh : d.holds = true := by cases d <;> first | rfl | cases ht
      have := hL.held id' d hd hh
      rw [hL.held id c hc hholds] at this
      exact absurd (Option.some.inj this).symm hne
  result := by
    change (cfg, n) = ((p.history.order ++ [id]).filterMap (p.ops[·]?)).foldl _ _
    rw [executed_place (h.doing id _ hc _ hop), List.foldl_append]
    change _ = ConfigOp.perform (p.executed.foldl _ _) op
    rw [← h.result, hp]

theorem Executed.called (h : p.Executed cfg₀) (hL : p.Locked) (op : ConfigOp) :
    { p with
      calls := assign p.calls p.history.calls (some (.begin op))
      ops := p.ops ++ [op]
      history := p.history.start }.Executed cfg₀ where
  linear := by
    change p.history.start.Linear (active (assign p.calls p.history.calls _))
    rw [active_assign]
    exact h.linear.start
  ops := by
    change (p.ops ++ [op]).length = p.history.calls + 1
    rw [List.length_append, h.ops]
    rfl
  doing := by
    refine forall_assign (fun id c hc op' ho => ?_) fun c hc op' ho => ?_
    · have hlt : id < p.ops.length := by
        rw [h.ops]
        exact hL.fresh id c hc
      change (p.ops ++ [op])[id]? = some op'
      rw [List.getElem?_append_left hlt]
      exact h.doing id c hc op' ho
    · cases hc
      cases ho
      change (p.ops ++ [op])[p.history.calls]? = some op
      rw [← h.ops, List.getElem?_concat_length]
  checked := forall_assign h.checked fun c hc tx ht => by
    cases hc
    cases ht
  result := by
    change _ = (p.history.order.filterMap ((p.ops ++ [op])[·]?)).foldl _ _
    rw [h.executed_call]
    exact h.result

theorem Executed.moves (h : p.Executed cfg₀) (hL : p.Locked) (hm : p.Moves op p') :
    p'.Executed cfg₀ := by
  cases hm with
  | called op => exact h.called hL op
  | @locked id f tx hmu hc =>
    exact { h.goes (d := .locked tx) hc rfl (fun op ho => ho) (by simp [ConfigCall.passed]) with }
  | flushLocked hmu hc =>
    exact { h.goes (d := .flushLocked) hc rfl (fun op ho => ho) (by simp [ConfigCall.passed]) with }
  | edited hc hp => exact h.performs hc (hp _) rfl
  | idle hc hp => exact h.performs hc (hp _) rfl
  | flushBegan hpath hc =>
    exact h.goes (d := .flushWait) hc rfl (fun op ho => ho) (by simp [ConfigCall.passed])
  | @skipped id f tx hc hcheck =>
    exact h.places hL hc rfl rfl rfl (if_neg (by simp [hcheck]))
  | @snapshot id f tx hc hcheck =>
    exact h.goes (d := .saving tx (tx.mutate p.cfg)) hc rfl (fun op ho => ho)
      (by simp [ConfigCall.passed, hcheck])
  | @unsaved id f tx next hc hpath =>
    exact h.goes (d := .commit tx next) hc rfl (fun op ho => ho)
      (h.checked id (.saving tx next) hc)
  | @saved id f tx next hc hpath =>
    exact { h.goes (d := .commit tx next) hc rfl (fun op ho => ho)
      (h.checked id (.saving tx next) hc) with }
  | failed hc =>
    exact h.goes (d := .unlock false) hc rfl (by simp [ConfigCall.op]) (by simp [ConfigCall.passed])
  | @committed id f tx next hc =>
    exact h.places hL hc rfl rfl rfl (if_pos (h.checked id _ hc tx rfl))
  | flushSnapshot hc =>
    exact { h.goes (d := .flushSaving p.cfg) hc rfl (fun op ho => ho)
      (by simp [ConfigCall.passed]) with }
  | flushed hc => exact { h.places hL hc rfl rfl rfl rfl with }
  | flushFailed hc =>
    exact h.goes (d := .flushFailed) hc rfl (by simp [ConfigCall.op]) (by simp [ConfigCall.passed])
  | restored hc =>
    exact { h.goes (d := .unlock false) hc rfl (by simp [ConfigCall.op])
      (by simp [ConfigCall.passed]) with }
  | @unlocked id f ok hc =>
    refine { h with
      linear := ?_
      doing := forall_assign h.doing (by simp)
      checked := forall_assign h.checked (by simp) }
    change (p.history.finish id ok).Linear (active (assign p.calls id none))
    rw [active_assign]
    exact h.linear.finish (active_of_lookup hc)

end Persist

/-! ## The file -/

/-- How far the file and the snapshot of the call are behind, with no layout
pending. -/
def ConfigCall.Agrees (p : Persist) : ConfigCall → Prop
  | .saving tx next => next = tx.mutate p.cfg ∧ (0 < p.saves → p.file = some p.cfg)
  | .commit tx next => next = tx.mutate p.cfg ∧ (0 < p.saves → p.file = some next)
  | .flushSaving snapshot => snapshot = p.cfg
  | .locked _ | .flushLocked | .unlock _ => 0 < p.saves → p.file = some p.cfg
  | .begin _ | .flushWait | .flushFailed => True

/-- In `flushConfig`, with something to write. -/
def ConfigCall.flushing : ConfigCall → Bool
  | .flushWait | .flushLocked | .flushSaving _ | .flushFailed => true
  | _ => false

namespace Persist

variable {p p' : Persist} {op : PersistOp} {id : ℕ} {c : ConfigCall}

structure Written (p : Persist) : Prop where
  path : p.cfgPath = "" → p.saves = 0
  free : p.layoutPending = false → p.saveMu = none → 0 < p.saves → p.file = some p.cfg
  agrees : p.layoutPending = false → ∀ id c, p.calls.lookup id = some c → c.Agrees p

theorem written_init (cfg₀ : Config) (path : String) (file : Option Config) :
    (init cfg₀ path file).Written where
  path _ := rfl
  free _ _ h := absurd h (lt_irrefl 0)
  agrees _ id c hc := by cases hc

theorem agrees_of_not_holds (hc : c.holds = false) : c.Agrees p := by
  cases c <;> first | exact trivial | cases hc

/-- Without a path nothing is flushed. -/
def Flushing (p : Persist) : Prop :=
  ∀ id c, p.calls.lookup id = some c → c.flushing = true → p.cfgPath ≠ ""

theorem flushing_init (cfg₀ : Config) (path : String) (file : Option Config) :
    (init cfg₀ path file).Flushing := fun id c hc => by cases hc

theorem Flushing.moves (h : p.Flushing) (hm : p.Moves op p') : p'.Flushing := by
  cases hm with
  | flushBegan hpath hc => exact forall_assign h fun _ _ _ => hpath
  | flushLocked hmu hc => exact forall_assign h fun _ _ _ => h _ _ hc rfl
  | flushSnapshot hc => exact forall_assign h fun _ _ _ => h _ _ hc rfl
  | flushFailed hc => exact forall_assign h fun _ _ _ => h _ _ hc rfl
  | _ => exact forall_assign h (by simp [ConfigCall.flushing])

theorem Locked.others (hL : p.Locked) (hc : p.calls.lookup id = some c) (hh : c.holds = true) :
    ∀ id', id' ≠ id → ∀ d, p.calls.lookup id' = some d → d.holds = false := by
  intro id' hne d hd
  by_contra hh'
  have := hL.held id' d hd (by simpa using hh')
  rw [hL.held id c hc hh] at this
  exact hne (Option.some.inj this).symm

/-- The holder of the lock goes on; the others have no part in the file. -/
theorem Written.holder (hL : p.Locked) (hc : p.calls.lookup id = some c) (hh : c.holds = true)
    {d : ConfigCall} (hcalls : p'.calls = assign p.calls id (some d))
    (hmu : p'.saveMu = p.saveMu) (hpath : p'.cfgPath = "" → p'.saves = 0)
    (hd : p'.layoutPending = false → d.Agrees p') : p'.Written where
  path := hpath
  free _ hnone := by
    rw [hmu, hL.held id c hc hh] at hnone
    cases hnone
  agrees hpend := by
    rw [hcalls]
    refine forall_assign_of_ne (fun id' hne e he => ?_) fun e he => ?_
    · exact agrees_of_not_holds (hL.others hc hh id' hne e he)
    · cases he
      exact hd hpend

theorem Written.moves (h : p.Written) (hL : p.Locked) (hF : p.Flushing)
    (hm : p.Moves op p') : p'.Written := by
  cases hm with
  | called op =>
    exact ⟨h.path, h.free, fun hpend => forall_assign (h.agrees hpend) fun c hc => by
      cases hc
      exact trivial⟩
  | @locked id f tx hmu hc =>
    refine ⟨h.path, fun _ hnone => (by cases hnone), fun hpend => ?_⟩
    refine forall_assign (h.agrees hpend) fun d hd => ?_
    cases hd
    exact h.free hpend hmu
  | flushLocked hmu hc =>
    refine ⟨h.path, fun _ hnone => (by cases hnone), fun hpend => ?_⟩
    refine forall_assign (h.agrees hpend) fun d hd => ?_
    cases hd
    exact h.free hpend hmu
  | edited hc hp => exact ⟨h.path, nofun, nofun⟩
  | idle hc hp => exact ⟨h.path, h.free, fun hpend => forall_assign (h.agrees hpend) (by simp)⟩
  | flushBegan hpath hc =>
    refine ⟨h.path, h.free, fun hpend => forall_assign (h.agrees hpend) fun d hd => ?_⟩
    cases hd
    exact trivial
  | @skipped id f tx hc hcheck =>
    exact Written.holder hL hc rfl (d := .unlock true) rfl rfl h.path
      fun hpend => h.agrees hpend _ _ hc
  | @snapshot id f tx hc hcheck =>
    exact Written.holder hL hc rfl (d := .saving tx (tx.mutate p.cfg)) rfl rfl h.path
      fun hpend => ⟨rfl, h.agrees hpend id _ hc⟩
  | @unsaved id f tx next hc hpath =>
    refine Written.holder hL hc rfl (d := .commit tx next) rfl rfl h.path
      fun hpend => ⟨(h.agrees hpend id _ hc).1, fun hpos => ?_⟩
    exact absurd (h.path hpath) (Nat.pos_iff_ne_zero.1 hpos)
  | @saved id f tx next hc hpath =>
    exact Written.holder hL hc rfl (d := .commit tx next) rfl rfl (fun he => absurd he hpath)
      fun hpend => ⟨(h.agrees hpend id _ hc).1, fun _ => rfl⟩
  | failed hc =>
    exact Written.holder hL hc rfl (d := .unlock false) rfl rfl h.path
      fun hpend => (h.agrees hpend _ _ hc).2
  | @committed id f tx next hc =>
    refine Written.holder hL hc rfl (d := .unlock true) rfl rfl h.path fun hpend hpos => ?_
    obtain ⟨hnext, hfile⟩ := h.agrees hpend id _ hc
    exact (hfile hpos).trans (congrArg some hnext)
  | flushSnapshot hc =>
    exact Written.holder hL hc rfl (d := .flushSaving p.cfg) rfl rfl h.path fun _ => rfl
  | @flushed id f next hc =>
    refine Written.holder hL hc rfl (d := .unlock true) rfl rfl
      (fun he => absurd he (hF id _ hc rfl)) fun hpend _ => ?_
    exact congrArg some (h.agrees hpend id _ hc)
  | flushFailed hc =>
    exact Written.holder hL hc rfl (d := .flushFailed) rfl rfl h.path fun _ => trivial
  | restored hc => exact Written.holder hL hc rfl (d := .unlock false) rfl rfl h.path nofun
  | @unlocked id f ok hc =>
    exact ⟨h.path, fun hpend _ => h.agrees hpend id _ hc,
      fun hpend => forall_assign (h.agrees hpend) (by simp)⟩

theorem serialisable_of {cfg₀ : Config} (hL : p.Locked) (hE : p.Executed cfg₀)
    (hW : p.Written) : p.Serialisable cfg₀ where
  result := congrArg Prod.fst hE.result
  exactly hrest id := hE.linear.mem_order fun id' => by simp [active, hrest]
  once := hE.linear.nodup
  realTime := hE.linear.realTime
  saved hrest hpend hpos := by
    refine hW.free hpend ?_ hpos
    cases hmu : p.saveMu with
    | none => rfl
    | some id =>
      obtain ⟨c, hc, -⟩ := hL.holder id hmu
      simp [hrest] at hc

end Persist

/-- **The writes of the configuration are serialisable**, whatever saves fail,
and at rest, with no layout pending, the file is the configuration. -/
theorem persist_serialisable (cfg₀ : Config) (path : String) (file : Option Config)
    (ops : List PersistOp) (p : Persist)
    (hrun : exec Persist.step (.init cfg₀ path file) ops = some p) : p.Serialisable cfg₀ := by
  have h : p.Locked ∧ p.Executed cfg₀ ∧ p.Flushing ∧ p.Written := exec_invariant
    (I := fun p : Persist => p.Locked ∧ p.Executed cfg₀ ∧ p.Flushing ∧ p.Written)
    (fun _ _ _ h _ hs =>
      have ⟨hL, hE, hF, hW⟩ := h
      have hm := Persist.step_moves hs
      ⟨hL.moves hm, hE.moves hL hm, hF.moves hm, hW.moves hL hF hm⟩)
    ⟨Persist.locked_init cfg₀ path file, Persist.executed_init cfg₀ path file,
      Persist.flushing_init cfg₀ path file, Persist.written_init cfg₀ path file⟩
    (Meets.trivial _ _ _) hrun
  exact Persist.serialisable_of h.1 h.2.1 h.2.2.2

/-- A block is dragged while radios are saved; a second save fails; the layout is
flushed. -/
theorem persist_serialisable_dragged : ∃ p,
    exec Persist.step (.init emptyConfig "config.toml" none)
      ([.call (.persistCfg (.persistRadios [⟨1, "r", 251000, true, false⟩])), .run 0 none,
        .run 0 none, .call (.setCommsLayout [⟨1, "vertical"⟩]), .run 1 none, .run 0 none,
        .run 0 none, .run 0 none, .call (.persistCfg (.rememberServerAddress "a")), .run 2 none,
        .run 2 none, .run 2 (some .rename), .run 2 none, .call .flushConfig] ++
        List.replicate 5 (.run 3 none)) = some p ∧
      p.history.order = [1, 0, 3] ∧ p.layoutPending = false ∧ p.saves = 2 ∧
      p.Serialisable emptyConfig := by
  have hrun : (exec Persist.step (.init emptyConfig "config.toml" none)
      ([.call (.persistCfg (.persistRadios [⟨1, "r", 251000, true, false⟩])), .run 0 none,
        .run 0 none, .call (.setCommsLayout [⟨1, "vertical"⟩]), .run 1 none, .run 0 none,
        .run 0 none, .run 0 none, .call (.persistCfg (.rememberServerAddress "a")), .run 2 none,
        .run 2 none, .run 2 (some .rename), .run 2 none, .call .flushConfig] ++
        List.replicate 5 (.run 3 none))).map
        (fun p => (p.history.order, p.layoutPending, p.saves)) =
      some ([1, 0, 3], false, 2) := by decide +kernel
  obtain ⟨p, hp, hv⟩ := Option.map_eq_some_iff.1 hrun
  simp only [Prod.mk.injEq] at hv
  exact ⟨p, hp, hv.1, hv.2.1, hv.2.2,
    persist_serialisable emptyConfig "config.toml" none _ p hp⟩

end VcsClient.App
