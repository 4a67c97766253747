import VcsClient.History.Log
import VcsClient.Lib.Machine
import VcsClient.Lib.Owed

/-!
# A window's copy of the transmission log

`internal/app/history.go` changes the log and then emits the change, on whichever
goroutine the change came from; `History.tsx` applies the changes to its copy as they
are delivered, and fills it with `hydrateDelta` when it mounts: a fetch during which
a change was delivered is made again.

Nothing makes the emissions follow the order of the changes, and a fetched log may
contain changes that are still to be delivered, which the window then applies again.
Where neither happens a window that is at rest shows the log (`window_mirrors`).
-/

namespace VcsClient.History

open VcsClient.Lib

/-- `CAP` of `store/history.ts`. -/
def windowCap : ℕ := 2000

/-- The default `maxAttempts` of `hydrateDelta`. -/
def maxAttempts : ℕ := 3

/-- `history:appended` and `history:cleared`. -/
inductive Change (ρ : Type*) where
  | appended (row : ρ)
  | cleared
  deriving DecidableEq

/-- The fetch in flight; `index` counts the changes the fetched log contains. -/
inductive Fetch (ρ : Type*) where
  | none
  | asked
  | fetched (rows : List ρ) (index : ℕ)
  deriving DecidableEq

section Rows

variable {ρ : Type*}

/-- `append` and `clear` of the window's store. -/
def Change.apply (rows : List ρ) : Change ρ → List ρ
  | .appended row => (row :: rows).take windowCap
  | .cleared => []

/-- The rows after the changes, oldest change first. -/
def play (rows : List ρ) (changes : List (Change ρ)) : List ρ := changes.foldl Change.apply rows

theorem play_snoc (rows : List ρ) (changes : List (Change ρ)) (c : Change ρ) :
    play rows (changes ++ [c]) = c.apply (play rows changes) := by
  rw [play, List.foldl_append]
  rfl

theorem play_take_succ {rows : List ρ} {changes rest : List (Change ρ)} {n : ℕ} {c : Change ρ}
    (h : changes.drop n = c :: rest) :
    play rows (changes.take (n + 1)) = c.apply (play rows (changes.take n)) := by
  have hone : changes.take (n + 1) = changes.take n ++ [c] := by
    rw [List.take_add, h]
    rfl
  rw [hone, play_snoc]

end Rows

/-- What the window shows of a log. -/
def Log.rows {ρ : Type*} (l : Log) (dto : Entry → ρ) : List ρ := l.snapshot.map dto

/-- An entry appended to a log of the window's size is a row appended to the rows. -/
theorem Log.rows_append {ρ : Type*} {dto : Entry → ρ} {l : Log} (hcap : l.cap = windowCap)
    (e : Entry) (now : ℤ) :
    (l.append e now).rows dto = (Change.appended (dto e)).apply (l.rows dto) := by
  unfold Log.rows
  rw [snapshot_eq, append_entries, List.rtake_eq_reverse_take_reverse, List.reverse_reverse,
    List.reverse_concat, List.map_take, hcap, snapshot_eq]
  rfl

theorem Log.rows_clear {ρ : Type*} {dto : Entry → ρ} (l : Log) (now : ℤ) :
    (l.clear now).rows dto = [] := rfl

theorem Log.length_rows_le {ρ : Type*} {dto : Entry → ρ} {l : Log} (hcap : l.cap = windowCap) :
    (l.rows dto).length ≤ windowCap := by
  rw [Log.rows, List.length_map, snapshot_eq, List.length_reverse, ← hcap]
  exact l.le_cap

structure Mirror (ρ : Type*) where
  log : Log
  /-- The changes made, oldest first. -/
  changes : List (Change ρ)
  /-- The changes made and not yet emitted, with the goroutine that emits each. -/
  owed : List (ℕ × Change ρ)
  /-- The changes emitted and not yet delivered. -/
  wire : List (Change ρ)
  delivered : ℕ
  mounted : Bool
  /-- The entries of the window's store. -/
  rows : List ρ
  fetch : Fetch ρ
  attempt : ℕ
  dirty : Bool

namespace Mirror

inductive Op where
  /-- `appendHistory` up to the emission. -/
  | append (g : ℕ) (e : Entry) (now : ℤ)
  /-- `ClearHistory` up to the emission. -/
  | clear (g : ℕ) (now : ℤ)
  | emit (g : ℕ)
  | deliver
  | mount
  | unmount
  /-- `GetHistory`. -/
  | fetch
  /-- The fetched rows reach the window. -/
  | reply

variable {ρ : Type*} (dto : Entry → ρ)

/-- The log that was loaded, and a window that was never open. -/
def loaded (disk : Disk) : Mirror ρ where
  log := (load disk defaultCap).1
  changes := []
  owed := []
  wire := []
  delivered := 0
  mounted := false
  rows := []
  fetch := .none
  attempt := 0
  dirty := false

/-- A `run` of `hydrateDelta`. -/
def run (m : Mirror ρ) (attempt : ℕ) : Mirror ρ :=
  { m with
    fetch := .asked
    attempt := attempt
    dirty := false }

def inflight (m : Mirror ρ) : Bool :=
  match m.fetch with
  | .none => false
  | _ => true

def step (m : Mirror ρ) : Op → Option (Mirror ρ)
  | .append g e now =>
    if Idle g m.owed then some { m with
      log := m.log.append e now
      changes := m.changes ++ [.appended (dto e)]
      owed := m.owed ++ [(g, .appended (dto e))] }
    else none
  | .clear g now =>
    if Idle g m.owed then some { m with
      log := m.log.clear now
      changes := m.changes ++ [.cleared]
      owed := m.owed ++ [(g, .cleared)] }
    else none
  | .emit g =>
    match takeFirst g m.owed with
    | some (c, rest) => some { m with
        owed := rest
        wire := m.wire ++ [c] }
    | none => none
  | .deliver =>
    match m.wire with
    | c :: rest =>
      if m.mounted then some { m with
        wire := rest
        delivered := m.delivered + 1
        -- `pushed`, and then the store
        dirty := m.inflight || m.dirty
        rows := c.apply m.rows }
      else some { m with
        wire := rest
        delivered := m.delivered + 1 }
    | [] => none
  | .mount => if m.mounted then none else some { m.run 1 with mounted := true }
  | .unmount =>
    if m.mounted then some { m with
      mounted := false
      -- `dispose`
      fetch := .none }
    else none
  | .fetch =>
    match m.fetch with
    | .asked => some { m with fetch := .fetched (m.log.rows dto) m.changes.length }
    | _ => none
  | .reply =>
    match m.fetch with
    | .fetched rows _ =>
      if m.dirty ∧ m.attempt < maxAttempts then some (m.run (m.attempt + 1))
      else some { m with
        rows := rows.take windowCap
        fetch := .none }
    | _ => none

/-- The window is open and filled, and nothing is on its way. -/
def Quiet (m : Mirror ρ) : Prop :=
  m.mounted = true ∧ m.fetch = .none ∧ m.owed = [] ∧ m.wire = []

instance [DecidableEq ρ] (m : Mirror ρ) : Decidable m.Quiet :=
  inferInstanceAs (Decidable (_ ∧ _))

def Unexhausted (m : Mirror ρ) : Op → Prop
  | .reply => m.dirty = true → m.attempt < maxAttempts
  | _ => True

/-- The fetched log contains a change that is still to be delivered. -/
def Ahead (m : Mirror ρ) : Prop :=
  match m.fetch with
  | .fetched _ index => m.delivered < index
  | _ => False

/-- A change is emitted before the ones made after it, and a fetched log that comes
without a change in between contains none that is still to be delivered. -/
def InOrder (m : Mirror ρ) : Op → Prop
  | .emit g => InTurn (fun _ => ()) g m.owed
  | .reply => m.dirty = false → ¬m.Ahead
  | _ => True

instance (m : Mirror ρ) : ∀ op, Decidable (m.Unexhausted op)
  | .reply => inferInstanceAs (Decidable (_ → _))
  | .append _ _ _ | .clear _ _ | .emit _ | .deliver | .mount | .unmount | .fetch =>
    inferInstanceAs (Decidable True)

instance (m : Mirror ρ) : Decidable m.Ahead := by
  unfold Ahead
  split <;> infer_instance

instance (m : Mirror ρ) : ∀ op, Decidable (m.InOrder op)
  | .emit _ => inferInstanceAs (Decidable (InTurn _ _ _))
  | .reply => inferInstanceAs (Decidable (_ → _))
  | .append _ _ _ | .clear _ _ | .deliver | .mount | .unmount | .fetch =>
    inferInstanceAs (Decidable True)

/-! ## What a step does -/

variable {dto} {m m' : Mirror ρ} {start : List ρ}

inductive Moves (dto : Entry → ρ) (m : Mirror ρ) : Op → Mirror ρ → Prop
  | append (g : ℕ) (e : Entry) (now : ℤ) : Moves dto m (.append g e now) { m with
      log := m.log.append e now
      changes := m.changes ++ [.appended (dto e)]
      owed := m.owed ++ [(g, .appended (dto e))] }
  | clear (g : ℕ) (now : ℤ) : Moves dto m (.clear g now) { m with
      log := m.log.clear now
      changes := m.changes ++ [.cleared]
      owed := m.owed ++ [(g, .cleared)] }
  | emit (g : ℕ) (c : Change ρ) (rest : List (ℕ × Change ρ))
      (htake : takeFirst g m.owed = some (c, rest)) : Moves dto m (.emit g) { m with
      owed := rest
      wire := m.wire ++ [c] }
  | deliver (c : Change ρ) (rest : List (Change ρ)) (hwire : m.wire = c :: rest)
      (hmounted : m.mounted = true) : Moves dto m .deliver { m with
      wire := rest
      delivered := m.delivered + 1
      dirty := m.inflight || m.dirty
      rows := c.apply m.rows }
  | miss (c : Change ρ) (rest : List (Change ρ)) (hwire : m.wire = c :: rest)
      (hmounted : m.mounted = false) : Moves dto m .deliver { m with
      wire := rest
      delivered := m.delivered + 1 }
  | mount (hmounted : m.mounted = false) : Moves dto m .mount { m with
      fetch := .asked
      attempt := 1
      dirty := false
      mounted := true }
  | unmount : Moves dto m .unmount { m with
      mounted := false
      fetch := .none }
  | fetch (hfetch : m.fetch = .asked) : Moves dto m .fetch { m with
      fetch := .fetched (m.log.rows dto) m.changes.length }
  | retry (rows : List ρ) (index : ℕ) (hfetch : m.fetch = .fetched rows index) :
      Moves dto m .reply { m with
      fetch := .asked
      attempt := m.attempt + 1
      dirty := false }
  | fill (rows : List ρ) (index : ℕ) (hfetch : m.fetch = .fetched rows index)
      (hlast : ¬(m.dirty = true ∧ m.attempt < maxAttempts)) : Moves dto m .reply { m with
      rows := rows.take windowCap
      fetch := .none }

theorem moves_of_step {op : Op} (h : step dto m op = some m') : Moves dto m op m' := by
  cases op with
  | append g e now =>
    simp only [step] at h
    split at h
    · cases h; exact .append g e now
    · cases h
  | clear g now =>
    simp only [step] at h
    split at h
    · cases h; exact .clear g now
    · cases h
  | emit g =>
    simp only [step] at h
    split at h
    · next c rest htake =>
      cases h
      exact .emit g c rest htake
    · cases h
  | deliver =>
    simp only [step] at h
    split at h
    · next c rest hwire =>
      split at h
      · next hmounted =>
        cases h
        exact .deliver c rest hwire hmounted
      · next hmounted =>
        cases h
        exact .miss c rest hwire (Bool.not_eq_true _ ▸ hmounted)
    · cases h
  | mount =>
    simp only [step] at h
    split at h
    · cases h
    · next hmounted =>
      cases h
      exact .mount (Bool.not_eq_true _ ▸ hmounted)
  | unmount =>
    simp only [step] at h
    split at h
    · cases h; exact .unmount
    · cases h
  | fetch =>
    simp only [step] at h
    split at h
    · next hfetch =>
      cases h
      exact .fetch hfetch
    · cases h
  | reply =>
    simp only [step] at h
    split at h
    · next rows index hfetch =>
      split at h
      · cases h; exact .retry rows index hfetch
      · next hlast =>
        cases h
        exact .fill rows index hfetch hlast
    · cases h

/-! ## What a run keeps -/

/-- What the fetch in flight knows of the log. -/
def Fetched (start : List ρ) (m : Mirror ρ) : Prop :=
  match m.fetch with
  | .fetched rows index =>
    rows = play start (m.changes.take index) ∧ rows.length ≤ windowCap ∧
      index ≤ m.changes.length ∧ (m.mounted = true → m.dirty = false → m.delivered ≤ index)
  | _ => True

/-- The log is what the changes made of it, what is undelivered are the last of them,
and a window that is filled shows what was delivered. -/
structure Follows (dto : Entry → ρ) (start : List ρ) (m : Mirror ρ) : Prop where
  cap : m.log.cap = windowCap
  made : m.log.rows dto = play start m.changes
  order : m.changes.drop m.delivered = m.wire ++ m.owed.map (·.2)
  le : m.delivered ≤ m.changes.length
  fetched : Fetched start m
  filled : m.mounted = true → m.fetch = .none → m.rows = play start (m.changes.take m.delivered)

/-- In turn, the change that is emitted is the oldest one owed. -/
theorem owed_eq_cons {g : ℕ} {owed rest : List (ℕ × Change ρ)} {c : Change ρ}
    (htake : takeFirst g owed = some (c, rest)) (hturn : InTurn (fun _ => ()) g owed) :
    owed.map (·.2) = c :: rest.map (·.2) := by
  have h := takeFirst_filter htake hturn ()
  simpa using h

/-- A change made is the last of those that are undelivered. -/
theorem drop_snoc {changes undelivered : List (Change ρ)} {n : ℕ} (hle : n ≤ changes.length)
    (h : changes.drop n = undelivered) (c : Change ρ) :
    (changes ++ [c]).drop n = undelivered ++ [c] := by
  rw [List.drop_append_of_le_length hle, h]

/-- The fetched rows stay what they are when the log moves on. -/
theorem Fetched.changed {m m' : Mirror ρ} {c : Change ρ} (h : Fetched start m)
    (hfetch : m'.fetch = m.fetch) (hchanges : m'.changes = m.changes ++ [c])
    (hmounted : m'.mounted = m.mounted) (hdirty : m'.dirty = m.dirty)
    (hdelivered : m'.delivered = m.delivered) : Fetched start m' := by
  unfold Fetched at h ⊢
  rw [hfetch, hchanges, hmounted, hdirty, hdelivered]
  split at h
  · obtain ⟨hrows, hlen, hle, hclean⟩ := h
    refine ⟨?_, hlen, ?_, hclean⟩
    · rw [List.take_append_of_le_length hle]
      exact hrows
    · rw [List.length_append]
      omega
  · exact trivial

theorem Follows.changed {g : ℕ} {log : Log} {c : Change ρ} (h : Follows dto start m)
    (hcap : log.cap = m.log.cap) (hrows : log.rows dto = c.apply (m.log.rows dto)) :
    Follows dto start { m with
      log := log
      changes := m.changes ++ [c]
      owed := m.owed ++ [(g, c)] } where
  cap := hcap.trans h.cap
  made := by rw [play_snoc, ← h.made, hrows]
  order := by
    rw [drop_snoc h.le h.order]
    simp
  le := by
    rw [List.length_append]
    exact h.le.trans (Nat.le_add_right _ _)
  fetched := h.fetched.changed rfl rfl rfl rfl rfl
  filled hmounted hfetch := by
    rw [List.take_append_of_le_length h.le]
    exact h.filled hmounted hfetch

/-- A change that is delivered is the next of the changes made. -/
theorem Follows.next {c : Change ρ} {rest : List (Change ρ)} (h : Follows dto start m)
    (hwire : m.wire = c :: rest) :
    m.changes.drop m.delivered = c :: (rest ++ m.owed.map (·.2)) ∧
      m.changes.drop (m.delivered + 1) = rest ++ m.owed.map (·.2) ∧
      m.delivered + 1 ≤ m.changes.length := by
  have horder : m.changes.drop m.delivered = c :: (rest ++ m.owed.map (·.2)) := by
    rw [h.order, hwire]
    rfl
  refine ⟨horder, ?_, ?_⟩
  · rw [← List.drop_drop, horder]
    rfl
  · by_contra hge
    rw [List.drop_of_length_le (by omega)] at horder
    cases horder

/-- A change that is delivered during a fetch marks it, and one that nobody listens to
concerns no fetch. -/
theorem Fetched.delivered {m m' : Mirror ρ} (h : Fetched start m) (hfetch : m'.fetch = m.fetch)
    (hchanges : m'.changes = m.changes)
    (hmarked : m.inflight = true → m'.mounted = true → m'.dirty = true) : Fetched start m' := by
  unfold Fetched at h ⊢
  rw [hfetch, hchanges]
  split at h
  · next rows index hfetched =>
    obtain ⟨hrows, hlen, hle, -⟩ := h
    refine ⟨hrows, hlen, hle, fun hmounted hclean => ?_⟩
    have hinflight : m.inflight = true := by
      rw [inflight, hfetched]
    exact absurd (hmarked hinflight hmounted) (by rw [hclean]; decide)
  · exact trivial

/-- **A step in order keeps the copy following the log.** -/
theorem follows_moves {op : Op} (h : Follows dto start m) (hbound : Unexhausted m op)
    (hok : InOrder m op) (hm : Moves dto m op m') : Follows dto start m' := by
  cases hm with
  | append g e now => exact h.changed rfl (Log.rows_append h.cap e now)
  | clear g now => exact h.changed rfl (Log.rows_clear m.log now)
  | emit g c rest htake =>
    refine ⟨h.cap, h.made, ?_, h.le, h.fetched, h.filled⟩
    show m.changes.drop m.delivered = (m.wire ++ [c]) ++ rest.map (·.2)
    rw [h.order, owed_eq_cons htake hok, List.append_assoc]
    rfl
  | deliver c rest hwire hmounted =>
    obtain ⟨hnext, hrest, hle⟩ := h.next hwire
    refine ⟨h.cap, h.made, hrest, hle, h.fetched.delivered rfl rfl ?_, fun _ hfetch => ?_⟩
    · intro hinflight _
      show (m.inflight || m.dirty) = true
      rw [hinflight]
      rfl
    · show c.apply m.rows = play start (m.changes.take (m.delivered + 1))
      rw [play_take_succ hnext, h.filled hmounted hfetch]
  | miss c rest hwire hmounted =>
    obtain ⟨-, hrest, hle⟩ := h.next hwire
    have hclosed : ¬m.mounted = true := by
      rw [hmounted]
      decide
    exact ⟨h.cap, h.made, hrest, hle, h.fetched.delivered rfl rfl fun _ hopen => absurd hopen hclosed,
      fun hopen => absurd hopen hclosed⟩
  | mount hmounted =>
    exact ⟨h.cap, h.made, h.order, h.le, trivial, fun _ hfetch => by cases hfetch⟩
  | unmount =>
    exact ⟨h.cap, h.made, h.order, h.le, trivial, fun hopen => by cases hopen⟩
  | fetch hfetch =>
    refine ⟨h.cap, h.made, h.order, h.le, ⟨?_, Log.length_rows_le h.cap, le_rfl, fun _ _ => h.le⟩,
      fun _ hnone => by cases hnone⟩
    show m.log.rows dto = play start (m.changes.take m.changes.length)
    rw [List.take_length]
    exact h.made
  | retry rows index hfetch =>
    exact ⟨h.cap, h.made, h.order, h.le, trivial, fun _ hnone => by cases hnone⟩
  | fill rows index hfetch hlast =>
    refine ⟨h.cap, h.made, h.order, h.le, trivial, fun hmounted _ => ?_⟩
    have hfetched := h.fetched
    unfold Fetched at hfetched
    rw [hfetch] at hfetched
    obtain ⟨hrows, hlen, hle, hclean⟩ := hfetched
    -- the rows that are applied are those of a fetch without a change
    have hdirty : m.dirty = false := by
      by_contra hdirty
      rw [Bool.not_eq_false] at hdirty
      exact hlast ⟨hdirty, hbound hdirty⟩
    have hindex : index = m.delivered := by
      have h₁ := hclean hmounted hdirty
      have h₂ := hok hdirty
      rw [Ahead, hfetch] at h₂
      dsimp only at h₂
      omega
    show rows.take windowCap = play start (m.changes.take m.delivered)
    rw [List.take_of_length_le hlen, ← hindex, hrows]

theorem follows_run {s t : Mirror ρ} {ops : List Op} (h : Follows dto start s)
    (hok : Meets (step dto) (fun m op => m.Unexhausted op ∧ m.InOrder op) s ops)
    (hr : exec (step dto) s ops = some t) : Follows dto start t :=
  exec_invariant (fun _ _ _ hi ho hs => follows_moves hi ho.1 ho.2 (moves_of_step hs)) h hok hr

theorem follows_loaded (disk : Disk) :
    Follows dto ((loaded disk : Mirror ρ).log.rows dto) (loaded disk) where
  cap := load_cap disk defaultCap
  made := rfl
  order := rfl
  le := le_rfl
  fetched := trivial
  filled hopen := by cases hopen

theorem Follows.quiet (h : Follows dto start m) (hquiet : m.Quiet) : m.rows = m.log.rows dto := by
  obtain ⟨hmounted, hfetch, howed, hwire⟩ := hquiet
  have horder := h.order
  rw [hwire, howed] at horder
  have hall : m.changes.length ≤ m.delivered := List.drop_eq_nil_iff.1 horder
  rw [h.filled hmounted hfetch, List.take_of_length_le hall, h.made]

/-- **A window's copy of the log** is the log when all is quiet, if every change was
emitted in its turn and no log that was applied contained a change to be delivered. -/
theorem window_mirrors {disk : Disk} {ops : List Op}
    (hok : Meets (step dto) (fun m op => m.Unexhausted op ∧ m.InOrder op) (loaded disk) ops)
    (h : exec (step dto) (loaded disk) ops = some m) (hquiet : m.Quiet) :
    m.rows = m.log.rows dto :=
  (follows_run (follows_loaded disk) hok h).quiet hquiet

/-! ## Changes out of order -/

def ada : Entry := ⟨0, "Ada", "a1", 118000, "Tower", 900, false⟩

def bea : Entry := ⟨1, "Bea", "b2", 121500, "Guard", 400, false⟩

/-- A row that is appended while the window is filled, and one more. -/
def mirrored : List Op :=
  [.append 0 ada 0, .mount, .fetch, .emit 0, .deliver, .reply, .fetch, .reply, .append 0 bea 1,
    .emit 0, .deliver]

theorem window_mirrors_appended :
    ∃ m : Mirror Entry, exec (step id) (loaded .missing) mirrored = some m ∧ m.rows = m.log.rows id ∧
      m.rows = [bea, ada] := by
  obtain ⟨m, hm⟩ : ∃ m : Mirror Entry, exec (step id) (loaded .missing) mirrored = some m :=
    ⟨_, rfl⟩
  have hquiet : m.Quiet := by cases hm; exact ⟨rfl, rfl, rfl, rfl⟩
  have hrows : m.rows = [bea, ada] := by cases hm; rfl
  exact ⟨m, hm, window_mirrors (by decide +kernel) hm hquiet, hrows⟩

/-- The fetched log contains a row whose event is delivered afterwards. -/
def doubled : List Op := [.append 0 ada 0, .mount, .fetch, .reply, .emit 0, .deliver]

/-- The event of a row is emitted after that of the clear that removed it. -/
def resurrected : List Op :=
  [.mount, .fetch, .reply, .append 0 ada 0, .clear 1 1, .emit 1, .emit 0, .deliver, .deliver]

/-- **A copy that is not the log**: a row twice, and a row that was cleared. -/
theorem window_differs :
    (∃ m : Mirror Entry, exec (step id) (loaded .missing) doubled = some m ∧
      Meets (step id) Unexhausted (loaded .missing) doubled ∧ m.Quiet ∧
      m.rows = [ada, ada] ∧ m.log.rows id = [ada]) ∧
    ∃ m : Mirror Entry, exec (step id) (loaded .missing) resurrected = some m ∧
      Meets (step id) Unexhausted (loaded .missing) resurrected ∧ m.Quiet ∧
      m.rows = [ada] ∧ m.log.rows id = [] := by
  constructor
  · obtain ⟨m, hm⟩ : ∃ m : Mirror Entry, exec (step id) (loaded .missing) doubled = some m :=
      ⟨_, rfl⟩
    refine ⟨m, hm, by decide +kernel, ?_⟩
    cases hm
    exact ⟨⟨rfl, rfl, rfl, rfl⟩, rfl, rfl⟩
  · obtain ⟨m, hm⟩ : ∃ m : Mirror Entry, exec (step id) (loaded .missing) resurrected = some m :=
      ⟨_, rfl⟩
    refine ⟨m, hm, by decide +kernel, ?_⟩
    cases hm
    exact ⟨⟨rfl, rfl, rfl, rfl⟩, rfl, rfl⟩

end Mirror

end VcsClient.History
