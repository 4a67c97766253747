import VcsClient.Lib.Deltas
import VcsClient.Lib.Machine

/-!
# The hydrate guards

`hydrateSnapshot` and `hydrateDelta` of `store/hydrate.ts`, in a window that follows the
backend as `useClientStateSync` does. The backend makes changes and sends an event for
most of them; the events reach the window in the order of the changes, each some time after
its own. A fetch resolves to the backend's state at some moment since it was started.
-/

namespace VcsClient.Hydrate

open VcsClient.Lib

structure Handle where
  inflight : Bool
  dirty : Bool
  disposed : Bool
  attempt : ℕ
  deriving DecidableEq

namespace Handle

/-- `pushed`, of either guard. -/
def pushed (h : Handle) : Handle := if h.inflight then { h with dirty := true } else h

/-- `dispose`, of either guard. -/
def dispose (h : Handle) : Handle := { h with disposed := true }

/-- `run` of `hydrateDelta`. -/
def run (h : Handle) : Handle :=
  { h with
    attempt := h.attempt + 1
    inflight := true
    dirty := false }

def landed (h : Handle) : Handle := { h with inflight := false }

end Handle

inductive Outcome where
  | dropped
  | retried
  | applied (warned : Bool)
  deriving DecidableEq

inductive Rule where
  | snapshot
  | delta (maxAttempts : ℕ)
  deriving DecidableEq

/-- `hydrateSnapshot`, when it returns. -/
def hydrateSnapshot : Handle := ⟨true, false, false, 0⟩

/-- `hydrateDelta`, when it returns. -/
def hydrateDelta : Handle := Handle.run ⟨false, false, false, 0⟩

/-- The `then` of `hydrateSnapshot`. -/
def resolveSnapshot (h : Handle) : Handle × Outcome :=
  (h.landed, if !h.dirty && !h.disposed then .applied false else .dropped)

/-- The `then` of `hydrateDelta`. -/
def resolveDelta (maxAttempts : ℕ) (h : Handle) : Handle × Outcome :=
  if h.disposed then (h.landed, .dropped)
  else if h.dirty ∧ h.attempt < maxAttempts then (h.landed.run, .retried)
  else (h.landed, .applied h.dirty)

def Rule.hydrate : Rule → Handle
  | .snapshot => hydrateSnapshot
  | .delta _ => hydrateDelta

def Rule.resolve : Rule → Handle → Handle × Outcome
  | .snapshot => resolveSnapshot
  | .delta maxAttempts => resolveDelta maxAttempts

theorem Rule.resolve_disposed (rule : Rule) {h : Handle} (hd : h.disposed = true) :
    rule.resolve h = (h.landed, .dropped) := by
  cases rule with
  | snapshot => simp [resolve, resolveSnapshot, hd]
  | delta maxAttempts => simp [resolve, resolveDelta, hd]

/-! ## The backend -/

variable {σ δ : Type*}

/-- What the backend does, and the event that it sends. -/
inductive Commit (σ δ : Type*) where
  /-- a change that an event reports -/
  | delta (d : δ)
  /-- a change that no event reports -/
  | reset (s : σ)
  /-- `connected`: the window hydrates again -/
  | rehydrate
  /-- `logged_out` -/
  | loggedOut

/-- What is the same in a run. -/
structure System (σ δ : Type*) where
  rule : Rule
  /-- what the window writes of a delta -/
  deltas : Deltas σ δ
  /-- the change of the backend that a delta reports -/
  change : δ → σ → σ
  /-- the backend's state at the start -/
  origin : σ
  /-- the store at the start -/
  shown : σ
  /-- the store after `logged_out` -/
  cleared : σ

/-- What a commit makes of the backend's state. -/
def Commit.run (S : System σ δ) : Commit σ δ → σ → σ
  | .delta d, s => S.change d s
  | .reset s', _ => s'
  | .rehydrate, s | .loggedOut, s => s

/-- The state after commits, oldest first. -/
def runCommits (S : System σ δ) (cs : List (Commit σ δ)) : σ :=
  cs.foldl (fun s c => c.run S s) S.origin

theorem runCommits_concat (S : System σ δ) (cs : List (Commit σ δ)) (c : Commit σ δ) :
    runCommits S (cs ++ [c]) = c.run S (runCommits S cs) :=
  List.foldl_append

def Commit.delta? : Commit σ δ → Option δ
  | .delta d => some d
  | .reset _ | .rehydrate | .loggedOut => none

def deltasOf (cs : List (Commit σ δ)) : List δ := cs.filterMap Commit.delta?

theorem deltasOf_append (cs cs' : List (Commit σ δ)) :
    deltasOf (cs ++ cs') = deltasOf cs ++ deltasOf cs' :=
  List.filterMap_append

/-! ## The window -/

/-- A handle, with the commits and the deliveries at the start of its latest fetch. -/
structure Flight where
  handle : Handle
  since : ℕ
  seen : ℕ
  deriving DecidableEq

inductive Call where
  /-- `apply` of the state at a moment, after so many deliveries -/
  | apply (moment delivered : ℕ)
  /-- `console.warn` -/
  | warn
  | onError
  deriving DecidableEq

structure Sync (σ δ : Type*) where
  commits : List (Commit σ δ)
  /-- The commits whose events have come, or that have none. -/
  delivered : ℕ
  mounted : Bool
  store : σ
  handles : List Flight
  /-- The variable `client` (or `voice`) of the hook. -/
  live : Option ℕ
  /-- The calls made, each by a handle. -/
  calls : List (ℕ × Call)

inductive Act (σ δ : Type*) where
  | commit (c : Commit σ δ)
  | deliver
  | mount
  | unmount
  | hydrate
  /-- A fetch comes back with the state at a moment. -/
  | resolve (i moment : ℕ)
  /-- A fetch fails. -/
  | reject (i : ℕ)

namespace Sync

/-- A window before its first mount. -/
def init (S : System σ δ) : Sync σ δ where
  commits := []
  delivered := 0
  mounted := false
  store := S.shown
  handles := []
  live := none
  calls := []

/-- The backend's state at a moment, which counts commits. -/
def stateAt (S : System σ δ) (s : Sync σ δ) (moment : ℕ) : σ :=
  runCommits S (s.commits.take moment)

/-- `client?.pushed()`. -/
def pushed (s : Sync σ δ) : Sync σ δ :=
  match s.live with
  | none => s
  | some i => { s with handles := s.handles.modify i fun f => { f with handle := f.handle.pushed } }

/-- `client?.dispose()`, and `client = null`. -/
def dispose (s : Sync σ δ) : Sync σ δ :=
  match s.live with
  | none => s
  | some i => { s with
    handles := s.handles.modify i fun f => { f with handle := f.handle.dispose }
    live := none }

/-- `hydrateClient`, `hydrateVoice`. -/
def hydrate (S : System σ δ) (s : Sync σ δ) : Sync σ δ :=
  let s := s.dispose
  { s with
    handles := s.handles ++ [⟨S.rule.hydrate, s.commits.length, s.delivered⟩]
    live := some s.handles.length }

def receive (S : System σ δ) (s : Sync σ δ) : Commit σ δ → Sync σ δ
  | .delta d => { s.pushed with store := S.deltas.apply d s.store }
  | .reset _ => s
  | .rehydrate => s.hydrate S
  | .loggedOut => { s.dispose with store := S.cleared }

def setFlight (s : Sync σ δ) (i : ℕ) (f : Flight) : Sync σ δ :=
  { s with handles := s.handles.set i f }

/-- The fetch of a handle comes back. -/
def resolve (S : System σ δ) (s : Sync σ δ) (i moment : ℕ) (f : Flight) : Sync σ δ :=
  match S.rule.resolve f.handle with
  | (h, .dropped) => s.setFlight i { f with handle := h }
  | (h, .retried) => s.setFlight i ⟨h, s.commits.length, s.delivered⟩
  | (h, .applied warned) =>
    { s.setFlight i { f with handle := h } with
      store := s.stateAt S moment
      calls := s.calls ++ (if warned then [(i, .warn)] else []) ++
        [(i, .apply moment s.delivered)] }

/-- The fetch of a handle fails. -/
def reject (s : Sync σ δ) (i : ℕ) (f : Flight) : Sync σ δ :=
  { s.setFlight i { f with handle := f.handle.landed } with
    calls := s.calls ++ if f.handle.disposed then [] else [(i, .onError)] }

def step (S : System σ δ) (s : Sync σ δ) : Act σ δ → Option (Sync σ δ)
  | .commit c => some { s with commits := s.commits ++ [c] }
  | .deliver =>
    match s.commits[s.delivered]? with
    | none => none
    | some c =>
      let s' := { s with delivered := s.delivered + 1 }
      some (if s.mounted then s'.receive S c else s')
  | .mount => if s.mounted then none else some { s.hydrate S with mounted := true }
  | .unmount => if s.mounted then some { s.dispose with mounted := false } else none
  | .hydrate => if s.mounted then some (s.hydrate S) else none
  | .resolve i moment =>
    match s.handles[i]? with
    | none => none
    | some f =>
      if f.handle.inflight ∧ f.since ≤ moment ∧ moment ≤ s.commits.length then
        some (s.resolve S i moment f)
      else none
  | .reject i =>
    match s.handles[i]? with
    | none => none
    | some f => if f.handle.inflight then some (s.reject i f) else none

def newest (S : System σ δ) (s : Sync σ δ) : σ := s.stateAt S s.commits.length

/-- Every event has come, and a commit that changed something of what is looked at without
an event that says so was followed by a `connected`. -/
structure Delivered {α : Type*} (S : System σ δ) (look : σ → α) (s : Sync σ δ) : Prop where
  all : s.delivered = s.commits.length
  followed : ∀ (j : ℕ) c, s.commits[j]? = some c →
    look (c.run S (s.stateAt S j)) = look (S.deltas.play c.delta?.toList (s.stateAt S j)) ∨
      ∃ k : ℕ, j < k ∧ s.commits[k]? = some .rehydrate

end Sync

/-- A store that is made of what the backend committed after a moment. -/
inductive After (S : System σ δ) (commits : List (Commit σ δ)) (p : ℕ) : σ → Prop
  | cleared : After S commits p S.cleared
  | fetched (moment : ℕ) (h : p < moment) (hle : moment ≤ commits.length) :
      After S commits p (runCommits S (commits.take moment))
  | delta (j : ℕ) (d : δ) (st : σ) (h : p < j) (hj : commits[j]? = some (.delta d))
      (hst : After S commits p st) : After S commits p (S.deltas.apply d st)

end VcsClient.Hydrate
