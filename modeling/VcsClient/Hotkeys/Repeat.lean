import VcsClient.Hotkeys.Dispatch
import VcsClient.Lib.Log

/-!
# Key repeats

Streams of key events through `handle`, with any actions bound, and with watchdogs
firing in between. A down of a key that has not come up since its last down is a
repeat. The latch that swallows repeats belongs to an action and not to a key, so a
repeat with other modifiers fires the action bound to them.
-/

namespace VcsClient.Hotkeys

open VcsClient.Lib

inductive KeyLog where
  /-- a key down, and the actions `Pressed` is called for -/
  | down (code : KeyCode) (mods : Mods) (pressed : List ActionID)
  | up (code : KeyCode)
  /-- a watchdog has taken the latch of an action -/
  | forced (actionID : ActionID)

structure KeyRun where
  d : Dispatcher
  log : List KeyLog

inductive KeyOp where
  | handle (o : IterOrder ActionID) (e : KeyEvent)
  | forceRelease (actionID : ActionID) (gen : UInt64)

/-- The key is down: it has not come up since its last down. -/
def keyDown (code : KeyCode) : List KeyLog → Bool
  | [] => false
  | .down c _ _ :: log => c == code || keyDown code log
  | .up c :: log => c != code && keyDown code log
  | .forced _ :: log => keyDown code log

/-- The `Pressed` calls that the downs of the key have made since it was last up. -/
def firedBy (code : KeyCode) : List KeyLog → ℕ
  | [] => 0
  | .down c _ pressed :: log => (if c = code then pressed.length else 0) + firedBy code log
  | .up c :: log => if c = code then 0 else firedBy code log
  | .forced _ :: log => firedBy code log

/-- The chord has been down since the key was last up, and no watchdog has released
the action since. -/
def chordSince (actionID : ActionID) (code : KeyCode) (mods : Mods) : List KeyLog → Bool
  | [] => false
  | .down c m _ :: log => (c == code && m == mods) || chordSince actionID code mods log
  | .up c :: log => c != code && chordSince actionID code mods log
  | .forced i :: log => i != actionID && chordSince actionID code mods log

/-- The action is bound to the chord. -/
def onChord (binds : AList fun _ : ActionID => BoundAction) (code : KeyCode) (mods : Mods)
    (actionID : ActionID) : Bool :=
  (binds.lookup actionID).any fun b => b.code == code && b.mods == mods

/-- A repeat makes no `Pressed` call, and a press of the key at most one. -/
def FiresOnce (log : List KeyLog) : KeyLog → Prop
  | .down c _ pressed =>
    (keyDown c log = true → pressed = []) ∧ firedBy c log + pressed.length ≤ 1
  | _ => True

/-- The chord of a repeat has been down before, as far as actions are bound to it; no
two actions are bound to the chord of a first down. -/
def SameChord (binds : AList fun _ : ActionID => BoundAction) (log : List KeyLog) : KeyLog → Prop
  | .down c m _ =>
    if keyDown c log then
      ∀ actionID, onChord binds c m actionID = true → chordSince actionID c m log = true
    else
      ∀ a b, onChord binds c m a = true → onChord binds c m b = true → a = b
  | _ => True

namespace KeyRun

/-- A dispatcher with actions bound and none latched. -/
def start (binds : AList fun _ : ActionID => BoundAction) (staleAfter : ℤ) : KeyRun :=
  ⟨⟨binds, ∅, 0, staleAfter⟩, []⟩

/-- What is logged of an event. -/
def logEvent (e : KeyEvent) (calls : List Call) : KeyLog :=
  match e.edge with
  | .down => .down e.code e.mods (calls.map (·.id))
  | .up => .up e.code

def step (s : KeyRun) : KeyOp → Option KeyRun
  | .handle o e =>
    let r := s.d.handle o e
    some ⟨r.2, logEvent e r.1 :: s.log⟩
  | .forceRelease actionID gen =>
    let r := s.d.forceRelease actionID gen
    some ⟨r.2,
      if (s.d.latched.lookup actionID).any fun l => l.gen == gen then .forced actionID :: s.log
      else s.log⟩

end KeyRun

/-! ## What the loops do -/

namespace Dispatcher

variable {e : KeyEvent} {d : Dispatcher} {ids : List ActionID} {id : ActionID}

theorem mem_takeLatchLocked {id' : ActionID} :
    id' ∈ (d.takeLatchLocked id).2.latched ↔ id' ∈ d.latched ∧ id' ≠ id := by
  constructor
  · intro h
    refine ⟨takeLatchLocked_subset d id h, ?_⟩
    rintro rfl
    exact takeLatchLocked_not_mem d _ h
  · rintro ⟨hmem, hne⟩
    unfold takeLatchLocked
    split
    · exact hmem
    · split <;> exact AList.mem_erase.2 ⟨hne, hmem⟩

theorem mem_setLatchLocked {id' : ActionID} {b : BoundAction} :
    id' ∈ (d.setLatchLocked id b).latched ↔ id' = id ∨ id' ∈ d.latched :=
  AList.mem_insert _

/-- **A down** fires what is bound to its chord and not latched, and latches it. -/
theorem pressLoop_down (hn : ids.Nodup) :
    (pressLoop e ids d).1.map (·.id) =
        ids.filter (fun id => onChord d.binds e.code e.mods id && decide (id ∉ d.latched)) ∧
      (pressLoop e ids d).2.binds = d.binds ∧
      ∀ id, id ∈ (pressLoop e ids d).2.latched ↔
        id ∈ d.latched ∨ id ∈ ids ∧ onChord d.binds e.code e.mods id = true := by
  induction ids generalizing d with
  | nil => simp [pressLoop]
  | cons id ids ih =>
    obtain ⟨hid, hn⟩ := List.nodup_cons.1 hn
    obtain ⟨hpress, hbinds, hlatched⟩ := ih (d := d) hn
    -- the action is passed over
    have skip : (onChord d.binds e.code e.mods id && decide (id ∉ d.latched)) = false →
        (pressLoop e ids d).1.map (·.id) = (id :: ids).filter
            (fun id => onChord d.binds e.code e.mods id && decide (id ∉ d.latched)) ∧
          (pressLoop e ids d).2.binds = d.binds ∧
          ∀ id', id' ∈ (pressLoop e ids d).2.latched ↔
            id' ∈ d.latched ∨ id' ∈ id :: ids ∧ onChord d.binds e.code e.mods id' = true := by
      intro hskip
      refine ⟨by rw [List.filter_cons, hskip, hpress]; rfl, hbinds, fun id' => ?_⟩
      rw [hlatched, List.mem_cons]
      grind
    simp only [pressLoop]
    cases hb : d.binds.lookup id with
    | none => exact skip (by simp [onChord, hb])
    | some b =>
      simp only
      split
      · next hchord =>
        refine skip ?_
        simp only [onChord, hb, Option.any_some]
        grind
      · next hchord =>
        have hon : onChord d.binds e.code e.mods id = true := by
          simp only [onChord, hb, Option.any_some]
          grind
        split
        · next hl => exact skip (by simp [AList.lookup_isSome.1 hl])
        · next hl =>
          have hl : id ∉ d.latched := fun hmem => hl (AList.lookup_isSome.2 hmem)
          obtain ⟨hpress, hbinds, hlatched⟩ := ih (d := d.setLatchLocked id b) hn
          refine ⟨?_, hbinds, fun id' => ?_⟩
          · rw [List.filter_cons_of_pos (by simp [hon, hl]), List.map_cons, hpress]
            congr 1
            refine List.filter_congr fun id' hid' => ?_
            have hne : id' ≠ id := by
              rintro rfl
              exact hid hid'
            simp [hne, setLatchLocked]
          · rw [hlatched, mem_setLatchLocked, List.mem_cons]
            simp only [setLatchLocked]
            grind

/-- **An up** unlatches everything on its key. -/
theorem releaseLoop_up :
    (releaseLoop e ids d).2.binds = d.binds ∧
      ∀ id, id ∈ (releaseLoop e ids d).2.latched ↔
        id ∈ d.latched ∧ ¬ (id ∈ ids ∧ ∃ b ∈ d.binds.lookup id, b.code = e.code) := by
  induction ids generalizing d with
  | nil => simp [releaseLoop]
  | cons id ids ih =>
    simp only [releaseLoop]
    cases hb : d.binds.lookup id with
    | none =>
      obtain ⟨hbinds, hlatched⟩ := ih (d := d)
      refine ⟨hbinds, fun id' => ?_⟩
      rw [hlatched, List.mem_cons]
      grind
    | some b =>
      simp only
      split
      · next hskip =>
        obtain ⟨hbinds, hlatched⟩ := ih (d := d)
        refine ⟨hbinds, fun id' => ?_⟩
        have hl : (d.latched.lookup id).isNone = true → id ∉ d.latched := by
          intro h hmem
          have := AList.lookup_isSome.2 hmem
          rw [Option.isNone_iff_eq_none.1 h] at this
          cases this
        rw [hlatched, List.mem_cons]
        grind
      · next hgo =>
        obtain ⟨hbinds, hlatched⟩ := ih (d := (d.takeLatchLocked id).2)
        rw [takeLatchLocked_binds] at hbinds
        refine ⟨hbinds, fun id' => ?_⟩
        rw [hlatched, mem_takeLatchLocked, takeLatchLocked_binds, List.mem_cons]
        grind

variable (o : IterOrder ActionID)

theorem mem_order_of_lookup {b : BoundAction} (h : d.binds.lookup id = some b) :
    id ∈ o.order d.binds.keys :=
  (o.perm _).mem_iff.2 (AList.mem_keys.1 (AList.lookup_isSome.1 (by rw [h]; rfl)))

theorem mem_order_of_onChord {code : KeyCode} {mods : Mods}
    (h : onChord d.binds code mods id = true) : id ∈ o.order d.binds.keys := by
  unfold onChord at h
  cases hb : d.binds.lookup id with
  | none => simp [hb] at h
  | some b => exact mem_order_of_lookup o hb

/-- **`handle` on a down**: the actions it calls `Pressed` for, and the latches. -/
theorem handle_down (he : e.edge = .down) :
    ((d.handle o e).1.map (·.id)).Perm ((o.order d.binds.keys).filter fun id =>
        onChord d.binds e.code e.mods id && decide (id ∉ d.latched)) ∧
      (d.handle o e).2.binds = d.binds ∧
      ∀ id, id ∈ (d.handle o e).2.latched ↔
        id ∈ d.latched ∨ onChord d.binds e.code e.mods id = true := by
  have hn : (o.order d.binds.keys).Nodup := (o.perm _).nodup_iff.2 (AList.keys_nodup _)
  obtain ⟨hpress, hbinds, hlatched⟩ := pressLoop_down (e := e) (d := d) hn
  unfold handle
  rw [he]
  refine ⟨?_, hbinds, fun id => (hlatched id).trans ?_⟩
  · rw [← hpress]
    have hids : ∀ p : List Pending, (pressedCalls p).map (·.id) = p.map (·.id) := fun p => by
      simp [pressedCalls, Function.comp_def]
    rw [hids]
    exact (List.perm_insertionSort _ _).map _
  · exact or_congr_right (and_iff_right_of_imp (mem_order_of_onChord o))

/-- **`handle` on an up.** -/
theorem handle_up (he : e.edge = .up) :
    (d.handle o e).2.binds = d.binds ∧
      ∀ id, id ∈ (d.handle o e).2.latched ↔
        id ∈ d.latched ∧ ¬ ∃ b ∈ d.binds.lookup id, b.code = e.code := by
  obtain ⟨hbinds, hlatched⟩ := @releaseLoop_up e d (o.order d.binds.keys)
  unfold handle
  rw [he]
  refine ⟨hbinds, fun id => (hlatched id).trans (and_congr_right fun _ => not_congr ?_)⟩
  exact and_iff_right_of_imp fun ⟨b, hb, _⟩ => mem_order_of_lookup o hb

end Dispatcher

/-! ## Latches and the log -/

namespace KeyRun

variable {binds : AList fun _ : ActionID => BoundAction} {s s' : KeyRun} {op : KeyOp}
  {ops : List KeyOp} {code : KeyCode} {mods : Mods} {actionID : ActionID} {log : List KeyLog}

/-- An action is latched as long as its chord has been down since the key was up. -/
structure Latched (binds : AList fun _ : ActionID => BoundAction) (s : KeyRun) : Prop where
  bound : s.d.binds = binds
  latched : ∀ actionID, actionID ∈ s.d.latched ↔
    ∃ b ∈ binds.lookup actionID, chordSince actionID b.code b.mods s.log = true

theorem latched_start (staleAfter : ℤ) : Latched binds (start binds staleAfter) :=
  ⟨rfl, fun id => by simp [start, chordSince]⟩

theorem onChord_iff : onChord binds code mods actionID = true ↔
    ∃ b ∈ binds.lookup actionID, b.code = code ∧ b.mods = mods := by
  simp [onChord, Option.any_eq_true]

theorem latched_step (hi : Latched binds s) (h : s.step op = some s') : Latched binds s' := by
  obtain ⟨hb, hl⟩ := hi
  cases op with
  | handle o e =>
    simp only [step, Option.some.injEq] at h
    subst h
    cases he : e.edge with
    | down =>
      obtain ⟨-, hbinds, hlatched⟩ := Dispatcher.handle_down (d := s.d) o he
      refine ⟨hbinds.trans hb, fun id => ?_⟩
      rw [hlatched, hl, hb, onChord_iff, logEvent, he]
      simp only [chordSince]
      grind
    | up =>
      obtain ⟨hbinds, hlatched⟩ := Dispatcher.handle_up (d := s.d) o he
      refine ⟨hbinds.trans hb, fun id => ?_⟩
      rw [hlatched, hl, hb, logEvent, he]
      cases binds.lookup id with
      | none => simp
      | some b =>
        simp only [Option.mem_def, Option.some.injEq, exists_eq_left', chordSince]
        grind
  | forceRelease id gen =>
    simp only [step, Option.some.injEq] at h
    subst h
    unfold Dispatcher.forceRelease
    cases hlook : s.d.latched.lookup id with
    | none => exact ⟨hb, hl⟩
    | some l =>
      simp only [Option.any_some, beq_iff_eq]
      by_cases hgen : l.gen = gen
      · rw [if_neg (not_not.2 hgen), if_pos hgen]
        refine ⟨(Dispatcher.takeLatchLocked_binds _ _).trans hb, fun id' => ?_⟩
        rw [Dispatcher.mem_takeLatchLocked, hl]
        simp only [chordSince]
        grind
      · rw [if_pos hgen, if_neg hgen]
        exact ⟨hb, hl⟩

/-- A chord that has been down since is on a key that is down. -/
theorem keyDown_of_chordSince (h : chordSince actionID code mods log = true) :
    keyDown code log = true := by
  induction log with
  | nil => cases h
  | cons e log ih => cases e <;> simp only [chordSince, keyDown] at h ⊢ <;> grind

theorem firedBy_of_up (h : keyDown code log = false) : firedBy code log = 0 := by
  induction log with
  | nil => rfl
  | cons e log ih => cases e <;> simp only [keyDown, firedBy] at h ⊢ <;> grind

/-- **What a down fires**: what is bound to its chord, but for what the chord has
latched already. -/
theorem pressed_down (hi : Latched binds s) (o : IterOrder ActionID) {e : KeyEvent}
    (he : e.edge = .down) :
    ((s.d.handle o e).1.map (·.id)).Nodup ∧ ∀ actionID,
      actionID ∈ (s.d.handle o e).1.map (·.id) ↔ onChord binds e.code e.mods actionID = true ∧
        chordSince actionID e.code e.mods s.log = false := by
  obtain ⟨hperm, -, -⟩ := Dispatcher.handle_down (d := s.d) o he
  refine ⟨?_, fun id => ?_⟩
  · have hn : (o.order s.d.binds.keys).Nodup := (o.perm _).nodup_iff.2 (AList.keys_nodup _)
    exact hperm.nodup_iff.2 (hn.filter _)
  · rw [hperm.mem_iff, List.mem_filter, Bool.and_eq_true, decide_eq_true_iff, hi.latched,
      hi.bound]
    constructor
    · rintro ⟨-, hon, hnot⟩
      obtain ⟨b, hb, hcode, hmods⟩ := onChord_iff.1 hon
      rw [← hcode, ← hmods] at hon ⊢
      exact ⟨hon, Bool.eq_false_iff.2 fun hs => hnot ⟨b, hb, hs⟩⟩
    · rintro ⟨hon, hs⟩
      have hmem : id ∈ o.order binds.keys := by
        rw [← hi.bound] at hon ⊢
        exact Dispatcher.mem_order_of_onChord o hon
      refine ⟨hmem, hon, ?_⟩
      obtain ⟨b, hb, hcode, hmods⟩ := onChord_iff.1 hon
      rintro ⟨b', hb', hs'⟩
      cases hb.symm.trans hb'
      rw [hcode, hmods, hs] at hs'
      cases hs'

/-- **What is logged of a down** is as it should be when its chord is. -/
theorem firesOnce_down_iff (hi : Latched binds s) (o : IterOrder ActionID) {e : KeyEvent}
    (he : e.edge = .down) (hone : firedBy e.code s.log ≤ 1) :
    FiresOnce s.log (logEvent e (s.d.handle o e).1) ↔
      SameChord binds s.log (logEvent e (s.d.handle o e).1) := by
  obtain ⟨hnodup, hmem⟩ := pressed_down hi o he
  rw [logEvent, he]
  simp only [FiresOnce, SameChord]
  generalize (s.d.handle o e).1.map (·.id) = pressed at hnodup hmem
  split
  · next hdown =>
    constructor
    · rintro ⟨hnone, -⟩ id hon
      by_contra hs
      have := (hmem id).2 ⟨hon, Bool.eq_false_of_not_eq_true hs⟩
      rw [hnone hdown] at this
      cases this
    · intro hsame
      have hnone : pressed = [] := by
        refine List.eq_nil_iff_forall_not_mem.2 fun id hid => ?_
        obtain ⟨hon, hs⟩ := (hmem id).1 hid
        rw [hsame id hon] at hs
        cases hs
      exact ⟨fun _ => hnone, by simpa [hnone] using hone⟩
  · next hup' =>
    have hup : keyDown e.code s.log = false := Bool.eq_false_of_not_eq_true hup'
    have hall : ∀ id, id ∈ pressed ↔ onChord binds e.code e.mods id = true := by
      intro id
      rw [hmem]
      refine and_iff_left_of_imp fun _ => Bool.eq_false_iff.2 fun hs => ?_
      rw [keyDown_of_chordSince hs] at hup
      cases hup
    rw [firedBy_of_up hup, Nat.zero_add]
    constructor
    · rintro ⟨-, hlen⟩ a b ha hb
      rw [← hall] at ha hb
      obtain ⟨x, rfl⟩ := List.length_eq_one_iff.1 (le_antisymm hlen (List.length_pos_of_mem ha))
      exact (List.mem_singleton.1 ha).trans (List.mem_singleton.1 hb).symm
    · refine fun hsame => ⟨fun h => absurd h hup', ?_⟩
      match pressed, hnodup with
      | [], _ => exact Nat.zero_le 1
      | [_], _ => exact le_rfl
      | a :: b :: l, hn =>
        have hab := hsame a b ((hall a).1 (by simp)) ((hall b).1 (by simp))
        simp [hab] at hn

/-- A key has fired at most once since it was up. -/
theorem firedBy_le_one (h : Each FiresOnce log) (code : KeyCode) : firedBy code log ≤ 1 := by
  induction log with
  | nil => exact Nat.zero_le 1
  | cons e log ih =>
    obtain ⟨he, hlog⟩ := each_cons.1 h
    cases e with
    | down c m pressed =>
      simp only [firedBy]
      split
      · next hc =>
        subst hc
        rw [Nat.add_comm]
        exact he.2
      · rw [Nat.zero_add]
        exact ih hlog
    | up c =>
      simp only [firedBy]
      split
      · exact Nat.zero_le 1
      · exact ih hlog
    | forced id => exact ih hlog

structure Kept (binds : AList fun _ : ActionID => BoundAction) (s : KeyRun) : Prop where
  latched : Latched binds s
  once : Each FiresOnce s.log ↔ Each (SameChord binds) s.log

theorem each_log_iff (h : Each FiresOnce log ↔ Each (SameChord binds) log) {e : KeyLog}
    (he : Each FiresOnce log → (FiresOnce log e ↔ SameChord binds log e)) :
    Each FiresOnce (e :: log) ↔ Each (SameChord binds) (e :: log) := by
  rw [each_cons, each_cons]
  constructor
  · rintro ⟨hf, hl⟩
    exact ⟨(he hl).1 hf, h.1 hl⟩
  · rintro ⟨hs, hl⟩
    exact ⟨(he (h.2 hl)).2 hs, h.2 hl⟩

theorem kept_step (hi : Kept binds s) (h : s.step op = some s') : Kept binds s' := by
  refine ⟨latched_step hi.latched h, ?_⟩
  cases op with
  | handle o e =>
    simp only [step, Option.some.injEq] at h
    subst h
    refine each_log_iff hi.once fun hf => ?_
    cases he : e.edge with
    | down => exact firesOnce_down_iff hi.latched o he (firedBy_le_one hf _)
    | up =>
      rw [logEvent, he]
      exact Iff.rfl
  | forceRelease id gen =>
    simp only [step, Option.some.injEq] at h
    subst h
    dsimp only
    split
    · exact each_log_iff hi.once fun _ => Iff.rfl
    · exact hi.once

/-- **Key repeats.** In every stream of key events, with watchdogs firing in between, a
repeat makes no `Pressed` call and each press of a key at most one, if and only if the
chord of every repeat, as far as actions are bound to it, has been down before, and no
two actions are bound to the chord of a first down. -/
theorem repeats_silent_iff (binds : AList fun _ : ActionID => BoundAction) (staleAfter : ℤ)
    (h : exec step (start binds staleAfter) ops = some s) :
    Each FiresOnce s.log ↔ Each (SameChord binds) s.log := by
  have hkept : Kept binds s :=
    exec_invariant (I := Kept binds) (fun _ _ _ hi _ hs => kept_step hi hs)
      ⟨latched_start staleAfter, iff_of_true each_nil each_nil⟩ (Meets.trivial step _ _) h
  exact hkept.once

/-- `E`, and `Ctrl+E`. -/
def twoOnE : AList fun _ : ActionID => BoundAction :=
  (AList.singleton "global.ptt" ⟨14, 0, true, ⟨"app", true⟩⟩).insert
    "global.emergency_broadcast" ⟨14, 1, false, ⟨"app", true⟩⟩

/-- `E` is pressed, repeats, and comes up. -/
def plainRepeat : List KeyOp :=
  [.handle (.stored _) ⟨.down, 14, 0⟩, .handle (.stored _) ⟨.down, 14, 0⟩,
    .handle (.stored _) ⟨.up, 14, 0⟩]

theorem repeats_silent_plain : ∃ s : KeyRun, exec step (start twoOnE 120) plainRepeat = some s ∧
    (Each FiresOnce s.log ↔ Each (SameChord twoOnE) s.log) ∧
      s.log = [.up 14, .down 14 0 [], .down 14 0 ["global.ptt"]] := by
  obtain ⟨s, hs⟩ : ∃ s, exec step (start twoOnE 120) plainRepeat = some s := ⟨_, rfl⟩
  refine ⟨s, hs, repeats_silent_iff twoOnE 120 hs, ?_⟩
  have hlog : (exec step (start twoOnE 120) plainRepeat).map (·.log) =
      some [.up 14, .down 14 0 [], .down 14 0 ["global.ptt"]] := by
    rfl
  rw [hs] at hlog
  exact Option.some.inj hlog

/-- **A repeat fires a binding**: `Ctrl` goes down while `E` is held. -/
theorem repeat_fires :
    ¬ ∀ ops s, exec step (start twoOnE 120) ops = some s → Each FiresOnce s.log := by
  intro h
  let o : IterOrder ActionID := .stored _
  let ops : List KeyOp := [.handle o ⟨.down, 14, 0⟩, .handle o ⟨.down, 14, 1⟩]
  obtain ⟨s, hs⟩ : ∃ s, exec step (start twoOnE 120) ops = some s := ⟨_, rfl⟩
  have hlog : (exec step (start twoOnE 120) ops).map (·.log) =
      some [.down 14 1 ["global.emergency_broadcast"], .down 14 0 ["global.ptt"]] := by
    rfl
  rw [hs] at hlog
  have hlog : s.log = _ := Option.some.inj hlog
  have heach := h ops s hs
  rw [hlog, each_cons] at heach
  exact List.cons_ne_nil _ _ (heach.1.1 rfl)

end KeyRun

end VcsClient.Hotkeys
