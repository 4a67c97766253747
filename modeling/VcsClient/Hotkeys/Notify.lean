import VcsClient.Hotkeys.Dispatch
import VcsClient.Lib.Owed

/-!
# Commit, unlock, notify

Any number of goroutines enter the dispatcher. Each entry point commits under
the lock and owes its `Handler` calls; the calls are made after the unlock, in
program order within the goroutine and in no order between goroutines.

Committed edges alternate (`Entry.edges`). The calls alternate as long as no
call overtakes an earlier committed one of the same action
(`calls_alternate`); when one does, `Released` can come before its `Pressed`
and a microphone stays open with nothing latched (`clear_overtakes_press`).
-/

namespace VcsClient.Hotkeys

open VcsClient.Lib

/-- The entry points of the dispatcher. -/
inductive Entry where
  | add (actionID : ActionID) (b : BoundAction)
  | clear (o : IterOrder ActionID)
  | releaseHeld (o : IterOrder ActionID)
  | handle (o : IterOrder ActionID) (e : KeyEvent)
  | forceRelease (actionID : ActionID) (gen : UInt64)

def Entry.run (d : Dispatcher) : Entry → List Call × Dispatcher
  | .add actionID b => d.add actionID b
  | .clear o => d.clear o
  | .releaseHeld o => d.releaseHeld o
  | .handle o e => d.handle o e
  | .forceRelease actionID gen => d.forceRelease actionID gen

/-- The dispatcher, the calls each goroutine owes, and the calls made. -/
structure Layer where
  d : Dispatcher
  owed : List (ℕ × Call)
  calls : List Call

inductive Label where
  | commit (g : ℕ) (e : Entry)
  | notify (g : ℕ)

namespace Layer

def init (staleAfter : ℤ) : Layer := ⟨newDispatcher staleAfter, [], []⟩

def step (s : Layer) : Label → Option Layer
  | .commit g e =>
    if Idle g s.owed then
      let r := e.run s.d
      some ⟨r.2, s.owed ++ r.1.map (g, ·), s.calls⟩
    else none
  | .notify g =>
    match takeFirst g s.owed with
    | none => none
    | some (c, owed) => some ⟨s.d, owed, s.calls ++ [c]⟩

/-- A handler is called only when no call for the same action, committed
earlier, is still to be made. -/
def InOrder (s : Layer) : Label → Prop
  | .commit _ _ => True
  | .notify g => InTurn Call.id g s.owed

instance (s : Layer) : (l : Label) → Decidable (InOrder s l)
  | .commit _ _ => .isTrue trivial
  | .notify g => inferInstanceAs (Decidable (InTurn Call.id g s.owed))

end Layer

/-- The label binds the action, if at all, with hold. -/
def Label.HoldsOnly (actionID : ActionID) : Label → Prop
  | .commit _ (.add id b) => id = actionID → b.hold = true
  | _ => True

/-! ## Committed edges alternate -/

section Entries

variable {actionID : ActionID} {d : Dispatcher}

theorem edges_forceReleased (p : List Pending) :
    edges actionID (p.flatMap fun r =>
      (if r.h.staleReleaser then [(⟨.forceReleased, r.h, r.id⟩ : Call)] else []) ++
        [⟨.released, r.h, r.id⟩]) = edges actionID (releasedCalls p) := by
  induction p with
  | nil => rfl
  | cons r p ih =>
    have hcons : releasedCalls (r :: p) = [⟨.released, r.h, r.id⟩] ++ releasedCalls p := rfl
    rw [List.flatMap_cons, edges_append, ih, hcons, edges_append, edges_append]
    split
    · by_cases h : r.id = actionID <;> simp [edges, h, Call.edge]
    · rfl

theorem holds_add {id : ActionID} {b : BoundAction} (h : Holds actionID d)
    (hadd : id = actionID → b.hold = true) : Holds actionID (d.add id b).2 := by
  refine ⟨fun b' hb => ?_, fun hc => ?_⟩
  · by_cases he : actionID = id
    · subst he
      rw [Dispatcher.add, AList.lookup_insert, Option.some.injEq] at hb
      exact hb ▸ hadd rfl
    · rw [Dispatcher.add, AList.lookup_insert_ne he] at hb
      exact h.hold b' hb
  · have := h.bound (Dispatcher.takeLatchLocked_subset d id hc)
    exact (AList.mem_insert _).2 (.inr this)

/-- **One entry point, one action**: its calls take the latch from where it was
to where it is. -/
theorem Entry.run_edges (e : Entry) (h : Holds actionID d)
    (hadd : ∀ b, e = .add actionID b → b.hold = true) :
    exec Edge.apply (decide (actionID ∈ d.latched)) (edges actionID (e.run d).1) =
      some (decide (actionID ∈ (e.run d).2.latched)) ∧ Holds actionID (e.run d).2 := by
  cases e with
  | add id b =>
    exact ⟨(Dispatcher.takeLatchLocked_sheds h id).edges, holds_add h fun he => hadd b (he ▸ rfl)⟩
  | clear o =>
    obtain ⟨hsheds, hout, -⟩ := Dispatcher.drainLatchedLocked_spec o h
    refine ⟨hsheds.edges, ⟨fun b hb => ?_, fun hc => absurd hc hout⟩⟩
    simp [Entry.run, Dispatcher.clear] at hb
  | releaseHeld o =>
    obtain ⟨hsheds, -, hholds⟩ := Dispatcher.drainLatchedLocked_spec o h
    exact ⟨hsheds.edges, hholds⟩
  | handle o e =>
    obtain ⟨edge, code, mods⟩ := e
    cases edge with
    | down =>
      obtain ⟨hlatches, hholds⟩ :=
        Dispatcher.pressLoop_spec ⟨.down, code, mods⟩ (o.order d.binds.keys) h
      exact ⟨hlatches.sort.edges, hholds⟩
    | up =>
      obtain ⟨hsheds, hholds⟩ :=
        Dispatcher.releaseLoop_spec ⟨.up, code, mods⟩ (o.order d.binds.keys) h
      exact ⟨hsheds.sort.edges, hholds⟩
  | forceRelease id gen =>
    simp only [Entry.run, Dispatcher.forceRelease]
    split
    · exact ⟨rfl, h⟩
    · split
      · exact ⟨rfl, h⟩
      · rw [edges_forceReleased]
        exact ⟨(Dispatcher.takeLatchLocked_sheds h id).edges,
          Dispatcher.holds_takeLatchLocked h id⟩

end Entries

/-! ## Calls made in order alternate -/

/-- The calls made and owed for the action alternate, and end where its latch is. -/
structure Balanced (actionID : ActionID) (s : Layer) : Prop where
  holds : Holds actionID s.d
  accepted : exec Edge.apply false (edges actionID (s.calls ++ s.owed.map (·.2))) =
    some (decide (actionID ∈ s.d.latched))

section Runs

variable {actionID : ActionID} {s s' : Layer}

theorem balanced_init (actionID : ActionID) (staleAfter : ℤ) :
    Balanced actionID (.init staleAfter) :=
  ⟨⟨fun b hb => by simp [Layer.init, newDispatcher] at hb,
    fun hc => absurd hc (AList.notMem_empty _)⟩, rfl⟩

theorem Balanced.commit {g : ℕ} {e : Entry} (h : Balanced actionID s)
    (hhold : (Label.commit g e).HoldsOnly actionID) (hs : s.step (.commit g e) = some s') :
    Balanced actionID s' := by
  simp only [Layer.step] at hs
  split at hs
  · cases hs
    obtain ⟨hedges, hholds⟩ := e.run_edges h.holds fun b he => by
      subst he
      exact hhold rfl
    refine ⟨hholds, ?_⟩
    have hmap : (s.owed ++ (e.run s.d).1.map (g, ·)).map (·.2) =
        s.owed.map (·.2) ++ (e.run s.d).1 := by simp [Function.comp_def]
    rw [hmap, ← List.append_assoc, edges_append, exec_append]
    exact ⟨_, h.accepted, hedges⟩
  · cases hs

/-- In order, a call moves from what is owed to what was made. -/
theorem Balanced.notify {g : ℕ} (h : Balanced actionID s) (hok : InTurn Call.id g s.owed)
    (hs : s.step (.notify g) = some s') : Balanced actionID s' := by
  simp only [Layer.step] at hs
  cases ht : takeFirst g s.owed with
  | none => simp [ht] at hs
  | some r =>
    obtain ⟨c, owed⟩ := r
    simp only [ht, Option.some.injEq] at hs
    subst hs
    refine ⟨h.holds, ?_⟩
    have hqueue := takeFirst_filter ht hok actionID
    have hsame : edges actionID (s.calls ++ [c] ++ owed.map (·.2)) =
        edges actionID (s.calls ++ s.owed.map (·.2)) := by
      rw [List.append_assoc, List.singleton_append, edges_append, edges_append]
      simp only [edges, hqueue]
    rw [hsame]
    exact h.accepted

theorem Balanced.step {l : Label} (h : Balanced actionID s)
    (hok : s.InOrder l ∧ l.HoldsOnly actionID) (hs : s.step l = some s') :
    Balanced actionID s' := by
  cases l with
  | commit g e => exact h.commit hok.2 hs
  | notify g => exact h.notify hok.1 hs

end Runs

/-- **Edges alternate** for an action bound with hold, in every run whose calls
are made in order; with nothing owed the last one was `Pressed` exactly when
the action is latched. -/
theorem calls_alternate (actionID : ActionID) (staleAfter : ℤ) (ls : List Label) (s : Layer)
    (hhold : ∀ l ∈ ls, l.HoldsOnly actionID)
    (hok : Meets Layer.step Layer.InOrder (.init staleAfter) ls)
    (hrun : exec Layer.step (.init staleAfter) ls = some s) :
    Alternates (edges actionID s.calls) ∧
      (s.owed = [] →
        ((edges actionID s.calls).getLast? = some .press ↔ actionID ∈ s.d.latched)) := by
  have h : Balanced actionID s :=
    exec_invariant (fun _ _ _ h hok hs => h.step hok hs) (balanced_init actionID staleAfter)
      (hok.and_mem hhold) hrun
  have hedges := h.accepted
  rw [edges_append, exec_append] at hedges
  obtain ⟨b, hmade, howed⟩ := hedges
  obtain ⟨halt, hlast⟩ := alternates_of_exec hmade
  refine ⟨halt, fun hnil => ?_⟩
  rw [hnil] at howed
  simp only [List.map_nil, edges_nil, exec_nil, Option.some.injEq] at howed
  rw [← hlast, howed, decide_eq_true_iff]

section Examples

def pttBinding : BoundAction := ⟨30, 0, true, ⟨"app", true⟩⟩

def keysOrder : IterOrder ActionID := .stored ActionID

/-- The key goes down and up. -/
def tapRun : List Label :=
  [.commit 0 (.add "global.ptt" pttBinding), .commit 1 (.handle keysOrder ⟨.down, 30, 0⟩),
    .notify 1, .commit 1 (.handle keysOrder ⟨.up, 30, 0⟩), .notify 1]

theorem calls_alternate_tap :
    ∃ s, exec Layer.step (.init 0) tapRun = some s ∧ Alternates (edges "global.ptt" s.calls) ∧
      (s.owed = [] →
        ((edges "global.ptt" s.calls).getLast? = some .press ↔ "global.ptt" ∈ s.d.latched)) :=
  ⟨_, rfl, calls_alternate "global.ptt" 0 tapRun _
    (by simp [tapRun, Label.HoldsOnly, pttBinding]) (by decide) rfl⟩

/-- A rebind clears the dispatcher between the latch of a press and its call. -/
def overtakeRun : List Label :=
  [.commit 0 (.add "global.ptt" pttBinding), .commit 1 (.handle keysOrder ⟨.down, 30, 0⟩),
    .commit 2 (.clear keysOrder), .notify 2, .notify 1]

/-- **`Released` overtakes `Pressed`**: the microphone ends up open with
nothing latched. -/
theorem clear_overtakes_press :
    (∀ l ∈ overtakeRun, l.HoldsOnly "global.ptt") ∧
    ∃ s, exec Layer.step (.init 0) overtakeRun = some s ∧
      edges "global.ptt" s.calls = [.release, .press] ∧ s.owed = [] ∧
      "global.ptt" ∉ s.d.latched ∧
      ¬ (Alternates (edges "global.ptt" s.calls) ∧
        (s.owed = [] →
          ((edges "global.ptt" s.calls).getLast? = some .press ↔ "global.ptt" ∈ s.d.latched))) :=
  ⟨by simp [overtakeRun, Label.HoldsOnly, pttBinding], _, rfl, by decide, by decide, by decide,
    by decide⟩

end Examples

end VcsClient.Hotkeys
