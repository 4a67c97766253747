import VcsClient.Lib.Assoc
import VcsClient.Settings.Commits

/-!
# Commits in turn

Every settings struct about (stored, requested, saved or under way) is the replay of the
changes that went into it. When each request that succeeds was built on exactly the saves
before it, the backend's settings are the replay of the saves. Out of turn a save takes an
earlier one back or brings a rejected change with it (`commits_lost`).
-/

namespace VcsClient.Settings

open VcsClient.Lib

variable {φ ν : Type} [DecidableEq φ] {initial : φ → ν}

/-- A settings struct is the replay of the changes that went into it, in the order of
their commits, all of them made before commit `n`. -/
structure Version.Sound (initial : φ → ν) (n : ℕ) (v : Version φ ν) : Prop where
  replays : v.value = patched initial v.built
  ordered : v.built.Pairwise (·.number < ·.number)
  before : ∀ c ∈ v.built, c.number < n

theorem Version.Sound.mono {v : Version φ ν} {n m : ℕ} (h : v.Sound initial n) (hnm : n ≤ m) :
    v.Sound initial m :=
  { h with before := fun c hc => lt_of_lt_of_le (h.before c hc) hnm }

theorem Request.sound_next {r : Request φ ν} (h : r.base.Sound initial r.change.number) :
    r.next.Sound initial (r.change.number + 1) where
  replays := by simp [Request.next, h.replays]
  ordered := by
    rw [Request.next, List.pairwise_append]
    refine ⟨h.ordered, List.pairwise_singleton _ _, fun c hc d hd => ?_⟩
    obtain rfl := List.mem_singleton.1 hd
    exact h.before c hc
  before c hc := by
    rcases List.mem_append.1 hc with hc | hc
    · exact lt_trans (h.before c hc) (Nat.lt_succ_self _)
    · obtain rfl := List.mem_singleton.1 hc
      exact Nat.lt_succ_self _

namespace Commits

inductive Moves (s : Commits φ ν) : CommitOp φ ν → Commits φ ν → Prop where
  | early {change} (hb : s.base = none) : Moves s (.commit change) s
  | commits {change base} (hb : s.base = some base) : Moves s (.commit change) { s with
      pending := some ⟨base, ⟨s.commits, change base.value⟩⟩
      calls := s.calls.insert s.commits ⟨⟨base, ⟨s.commits, change base.value⟩⟩, none⟩
      commits := s.commits + 1 }
  | saves {n r} (hc : s.calls.lookup n = some ⟨r, none⟩) : Moves s (.save n) { s with
      calls := s.calls.insert n ⟨r, some true⟩
      backend := r.next
      echoes := s.echoes ++ [r.next]
      saves := s.saves ++ [r.change] }
  | rejects {n r} (hc : s.calls.lookup n = some ⟨r, none⟩) : Moves s (.reject n)
      { s with calls := s.calls.insert n ⟨r, some false⟩ }
  | delivers {i v} (hv : s.echoes[i]? = some v) : Moves s (.deliver i)
      { s with stored := some v, echoes := s.echoes.eraseIdx i }
  | settles {n r ok} (hc : s.calls.lookup n = some ⟨r, some ok⟩) : Moves s (.settle n)
      { s with pending := s.clear n, calls := s.calls.erase n }

theorem moves_of_step {s s' : Commits φ ν} {op : CommitOp φ ν} (h : s.step op = some s') :
    Moves s op s' := by
  cases op with
  | commit change =>
    simp only [step] at h
    split at h
    · next hb => cases h; exact .early hb
    · next base hb => cases h; exact .commits hb
  | save n =>
    simp only [step] at h
    split at h
    · next r hc => cases h; exact .saves hc
    · cases h
  | reject n =>
    simp only [step] at h
    split at h
    · next r hc => cases h; exact .rejects hc
    · cases h
  | deliver i =>
    simp only [step] at h
    split at h
    · cases h
    · next v hv => cases h; exact .delivers hv
  | settle n =>
    simp only [step] at h
    split at h
    · next r ok hc => cases h; exact .settles hc
    · cases h

/-! ## What a run keeps -/

structure Inv (initial : φ → ν) (s : Commits φ ν) : Prop where
  backend : s.backend.Sound initial s.commits
  stored : ∀ v ∈ s.stored, v.Sound initial s.commits
  echoes : ∀ v ∈ s.echoes, v.Sound initial s.commits
  calls : ∀ n c, s.calls.lookup n = some c → c.request.change.number = n ∧ n < s.commits ∧
    c.request.base.Sound initial n
  /-- The overlay is the request of a call whose promise has not settled. -/
  pending : ∀ r ∈ s.pending, ∃ c, s.calls.lookup r.change.number = some c ∧ c.request = r
  /-- The echo delivered last, once none is under way, is what the backend has. -/
  newest : s.echoes.getLast?.or s.stored = some s.backend
  built : s.backend.built = s.saves

theorem init_inv (initial : φ → ν) : (init initial).Inv initial where
  backend := ⟨rfl, .nil, nofun⟩
  stored v hv := by cases hv; exact ⟨rfl, .nil, nofun⟩
  echoes := nofun
  calls n c h := by simp [init] at h
  pending := nofun
  newest := rfl
  built := rfl

variable {s s' : Commits φ ν} {op : CommitOp φ ν}

/-- What a commit is built on is sound: an overlay is the `next` of its call. -/
theorem Inv.sound_base (hi : s.Inv initial) {b : Version φ ν} (hb : s.base = some b) :
    b.Sound initial s.commits := by
  unfold base at hb
  cases hp : s.pending with
  | none => rw [hp] at hb; exact hi.stored b hb
  | some r =>
    rw [hp] at hb
    cases hb
    obtain ⟨c, hc, rfl⟩ := hi.pending r hp
    obtain ⟨-, hlt, hsound⟩ := hi.calls _ c hc
    exact (Request.sound_next hsound).mono hlt

theorem Inv.sound_next (hi : s.Inv initial) {n : ℕ} {r : Request φ ν} {o : Option Bool}
    (hc : s.calls.lookup n = some ⟨r, o⟩) : r.next.Sound initial s.commits := by
  obtain ⟨hn, hlt, hsound⟩ := hi.calls n _ hc
  dsimp only at hn hsound
  subst hn
  exact (Request.sound_next hsound).mono hlt

theorem Inv.calls_answer (hi : s.Inv initial) {n : ℕ} {r : Request φ ν} {o o' : Option Bool}
    (hc : s.calls.lookup n = some ⟨r, o⟩) (m : ℕ) (c : Call φ ν)
    (h : (s.calls.insert n ⟨r, o'⟩).lookup m = some c) :
    c.request.change.number = m ∧ m < s.commits ∧ c.request.base.Sound initial m := by
  rcases eq_or_ne m n with rfl | hne
  · rw [AList.lookup_insert] at h
    cases h
    obtain ⟨hm, hlt, hsound⟩ := hi.calls m _ hc
    exact ⟨hm, hlt, hsound⟩
  · rw [AList.lookup_insert_ne hne] at h
    exact hi.calls m c h

theorem Inv.pending_answer (hi : s.Inv initial) {n : ℕ} {r : Request φ ν} {o o' : Option Bool}
    (hc : s.calls.lookup n = some ⟨r, o⟩) (p : Request φ ν) (hp : p ∈ s.pending) :
    ∃ c, (s.calls.insert n ⟨r, o'⟩).lookup p.change.number = some c ∧ c.request = p := by
  obtain ⟨c, hl, rfl⟩ := hi.pending p hp
  rcases eq_or_ne c.request.change.number n with heq | hne
  · rw [heq, hc] at hl
    cases hl
    exact ⟨⟨r, o'⟩, by rw [heq, AList.lookup_insert], rfl⟩
  · exact ⟨c, by rw [AList.lookup_insert_ne hne, hl], rfl⟩

theorem Inv.step_commit (hi : s.Inv initial) {b : Version φ ν} (hb : s.base = some b)
    (p : Patch φ ν) : Inv initial { s with
      pending := some ⟨b, ⟨s.commits, p⟩⟩
      calls := s.calls.insert s.commits ⟨⟨b, ⟨s.commits, p⟩⟩, none⟩
      commits := s.commits + 1 } where
  backend := hi.backend.mono (Nat.le_succ _)
  stored v hv := (hi.stored v hv).mono (Nat.le_succ _)
  echoes v hv := (hi.echoes v hv).mono (Nat.le_succ _)
  calls n c h := by
    rcases eq_or_ne n s.commits with rfl | hne
    · rw [AList.lookup_insert] at h
      cases h
      exact ⟨rfl, Nat.lt_succ_self _, hi.sound_base hb⟩
    · rw [AList.lookup_insert_ne hne] at h
      obtain ⟨hn, hlt, hsound⟩ := hi.calls n c h
      exact ⟨hn, lt_trans hlt (Nat.lt_succ_self _), hsound⟩
  pending r hr := by cases hr; exact ⟨_, AList.lookup_insert _, rfl⟩
  newest := hi.newest
  built := hi.built

theorem Inv.step_save (hi : s.Inv initial) {n : ℕ} {r : Request φ ν}
    (hc : s.calls.lookup n = some ⟨r, none⟩) (hbase : r.base.built = s.saves) :
    Inv initial { s with
      calls := s.calls.insert n ⟨r, some true⟩
      backend := r.next
      echoes := s.echoes ++ [r.next]
      saves := s.saves ++ [r.change] } where
  backend := hi.sound_next hc
  stored := hi.stored
  echoes v hv := by
    rcases List.mem_append.1 hv with hv | hv
    · exact hi.echoes v hv
    · obtain rfl := List.mem_singleton.1 hv
      exact hi.sound_next hc
  calls := hi.calls_answer hc
  pending := hi.pending_answer hc
  newest := by simp
  built := by rw [Request.next, hbase]

theorem Inv.step_deliver (hi : s.Inv initial) {v : Version φ ν} (hv : s.echoes[0]? = some v) :
    Inv initial { s with stored := some v, echoes := s.echoes.eraseIdx 0 } := by
  obtain ⟨rest, hrest⟩ : ∃ rest, s.echoes = v :: rest := by
    cases he : s.echoes with
    | nil => simp [he] at hv
    | cons w rest => rw [he] at hv; cases hv; exact ⟨rest, rfl⟩
  have hechoes := hi.echoes
  have hnewest := hi.newest
  rw [hrest] at hechoes hnewest
  refine { hi with stored := ?_, echoes := ?_, newest := ?_ }
  · intro w hw
    cases hw
    exact hechoes v List.mem_cons_self
  · intro w hw
    rw [hrest] at hw
    exact hechoes w (List.mem_cons_of_mem _ hw)
  · rw [hrest, List.eraseIdx_cons_zero]
    cases rest with
    | nil => exact hnewest
    | cons w rest => rwa [List.getLast?_cons_cons] at hnewest

omit [DecidableEq φ] in
theorem clear_some {n : ℕ} {r : Request φ ν} (h : s.clear n = some r) :
    s.pending = some r ∧ r.change.number ≠ n := by
  unfold clear at h
  split at h
  · cases h
  · next hne =>
    refine ⟨h, fun heq => hne ?_⟩
    rw [h, ← heq]
    rfl

theorem Inv.step_settle (hi : s.Inv initial) (n : ℕ) :
    Inv initial { s with pending := s.clear n, calls := s.calls.erase n } where
  backend := hi.backend
  stored := hi.stored
  echoes := hi.echoes
  calls m c h := hi.calls m c (lookup_of_erase h).2
  pending r hr := by
    obtain ⟨hp, hne⟩ := clear_some hr
    obtain ⟨c, hc, rfl⟩ := hi.pending r hp
    exact ⟨c, by rw [AList.lookup_erase_ne hne, hc], rfl⟩
  newest := hi.newest
  built := hi.built

theorem Inv.step (hi : s.Inv initial) (hok : s.InTurn op) (h : s.step op = some s') :
    s'.Inv initial := by
  cases moves_of_step h with
  | early => exact hi
  | commits hb => exact hi.step_commit hb _
  | saves hc => exact hi.step_save hc (hok _ hc)
  | rejects hc => exact { hi with calls := hi.calls_answer hc, pending := hi.pending_answer hc }
  | delivers hv =>
    cases hok
    exact hi.step_deliver hv
  | settles hc => exact hi.step_settle _

/-! ## The window and the backend -/

/-- With no call in flight there is no overlay, and with no echo under way the store holds
what the backend has. -/
theorem Inv.shown (hi : s.Inv initial) (hs : s.Settled) :
    s.effective = some s.backend.value := by
  obtain ⟨hcalls, hechoes⟩ := hs
  have hpending : s.pending = none := by
    refine Option.eq_none_iff_forall_not_mem.2 fun r hr => ?_
    obtain ⟨c, hc, -⟩ := hi.pending r hr
    have hmem : r.change.number ∈ s.calls := AList.lookup_isSome.1 (by rw [hc]; rfl)
    rw [AList.mem_keys, hcalls] at hmem
    cases hmem
  have hnewest := hi.newest
  rw [hechoes] at hnewest
  rw [effective, base, hpending]
  simp only [Option.map_none, Option.none_or]
  rw [show s.stored = some s.backend from hnewest]
  rfl

theorem Inv.faithful (hi : s.Inv initial) : s.Faithful initial := by
  have hsaves : s.backend.value = patched initial s.saves := by rw [hi.backend.replays, hi.built]
  refine ⟨fun c hc f v hv => ?_, fun f => ?_, hi.shown⟩
  · rw [hsaves]
    exact patched_kept (hi.built ▸ hi.backend.ordered) hc hv
  · rw [hsaves]
    exact patched_sourced initial s.saves f

/-- Two fields changed before either echo, then a change whose save fails. -/
def keptRun : List (CommitOp Bool ℕ) :=
  [.commit fun _ => [(true, 1)], .commit fun _ => [(false, 2)], .save 0, .settle 0, .save 1,
    .deliver 0, .deliver 0, .settle 1, .commit fun _ => [(true, 3)], .reject 2, .settle 2]

/-- The backend runs the second of two calls first. -/
def overtakenRun : List (CommitOp Bool ℕ) :=
  [.commit fun _ => [(true, 1)], .commit fun _ => [(false, 2)], .save 1, .save 0,
    .deliver 0, .deliver 0, .settle 0, .settle 1]

/-- A commit is built on a request whose save fails. -/
def rejectedRun : List (CommitOp Bool ℕ) :=
  [.commit fun _ => [(true, 1)], .commit fun _ => [(false, 2)], .reject 0, .save 1,
    .deliver 0, .settle 0, .settle 1]

/-- A promise settles before its echo, and the next commit is built on the old echo. -/
def echoedLateRun : List (CommitOp Bool ℕ) :=
  [.commit fun _ => [(true, 1)], .save 0, .settle 0, .commit fun _ => [(false, 2)], .save 1,
    .deliver 0, .deliver 0, .settle 1]

end Commits

end VcsClient.Settings
