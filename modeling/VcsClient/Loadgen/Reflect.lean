import Mathlib.Data.List.Chain
import Mathlib.Data.List.Range
import VcsClient.Lib.Lists
import VcsClient.Lib.Machine

/-!
# The reflector

`internal/loadgen/reflect.go`: `Serve` reads, and splits every voice frame over the queues
of the sender goroutines, which write to each peer of their part but the one that the frame
is from. Each part that is queued or refused is a step of its own, and so is each write.

`frames` is known to no code: for each voice frame the peers at its arrival, the writes
that were attempted for it, what it added to the queue-full count, and the parts refused.
-/

namespace VcsClient.Loadgen

open VcsClient.Lib

/-- `SplitDests`. -/
def splitDests (n : ℕ) (senders : ℤ) : List (ℕ × ℕ) :=
  let senders := if senders < 1 then 1 else senders.toNat
  let base := n / senders
  let extra := n % senders
  ((List.range senders).foldl
    (fun (out, lo) i =>
      let sz := if i < extra then base + 1 else base
      (out ++ [(lo, lo + sz)], lo + sz))
    (([], 0) : List (ℕ × ℕ) × ℕ)).1

def part {β : Type} (l : List β) (rg : ℕ × ℕ) : List β := (l.take rg.2).drop rg.1

structure ReflPeer (U A : Type) where
  id : U
  ap : A

structure ReflJob (U A : Type) where
  peers : List (ReflPeer U A)
  sender : U
  frame : ℕ

/-- Where a sender goroutine is: blocked in its receive, before it, or at a job, of which
`peers` is what is left. -/
inductive Worker (U A : Type) where
  | waiting
  | idle
  | busy (job : ReflJob U A)

/-- A channel of jobs, and its goroutine. -/
structure JobQueue (U A : Type) where
  buffer : List (ReflJob U A)
  worker : Worker U A

/-- Where `Serve` is. -/
inductive Server (U A : Type) where
  | reading
  /-- in the loop over the parts, before part `i`, with `rest` to come -/
  | fanning (frame : ℕ) (sender : U) (peers : List (ReflPeer U A)) (i : ℕ) (rest : List (ℕ × ℕ))
  | closed

structure VoiceFrame (U A : Type) where
  sender : U
  peers : List (ReflPeer U A)
  attempts : ℕ
  full : ℕ
  refused : List (ℕ × ℕ)

structure Reflector (U A : Type) where
  senders : ℕ
  jobDepth : ℕ
  peers : List (ReflPeer U A)
  jobs : List (JobQueue U A)
  queueFull : ℕ
  writeErr : ℕ
  voiceRx : ℕ
  server : Server U A
  frames : List (VoiceFrame U A)

/-- What happens; `ok` is how a write went. -/
inductive ReflEvent (U A : Type) where
  | hello (id : U) (ap : A) (ok : Bool)
  | keepalive (ok : Bool)
  | voice (sender : U)
  /-- the next part of the loop -/
  | fan
  /-- the next step of sender goroutine `i` -/
  | work (i : ℕ) (ok : Bool)
  | close

variable {U A : Type} [DecidableEq U]

/-- A send on the channel, `none` when it would block. -/
def JobQueue.send (depth : ℕ) (q : JobQueue U A) (j : ReflJob U A) : Option (JobQueue U A) :=
  match q.worker with
  | .waiting => some { q with worker := .busy j }
  | _ => if q.buffer.length < depth then some { q with buffer := q.buffer ++ [j] } else none

namespace Reflector

/-- `NewReflector`, and `Serve` up to its first read. -/
def new (senders jobDepth : ℕ) : Reflector U A where
  senders := senders
  jobDepth := jobDepth
  peers := []
  jobs := List.replicate senders ⟨[], .idle⟩
  queueFull := 0
  writeErr := 0
  voiceRx := 0
  server := .reading
  frames := []

def failed (ok : Bool) : ℕ := if ok then 0 else 1

def register (r : Reflector U A) (id : U) (ap : A) : Reflector U A :=
  let next := r.peers.map fun p => if p.id = id then { p with ap := ap } else p
  let found := r.peers.any fun p => p.id = id
  { r with peers := if found then next else next ++ [⟨id, ap⟩] }

/-- The part `rg` of the loop in `Serve`, number `i`. -/
def fan (r : Reflector U A) (k : ℕ) (sender : U) (peers : List (ReflPeer U A)) (i : ℕ)
    (rg : ℕ × ℕ) (rest : List (ℕ × ℕ)) : Option (Reflector U A) :=
  let r := { r with server := .fanning k sender peers (i + 1) rest }
  if rg.1 = rg.2 then some r
  else
    r.jobs[i]?.map fun q =>
      match q.send r.jobDepth ⟨part peers rg, sender, k⟩ with
      | some q => { r with jobs := r.jobs.set i q }
      | none =>
        { r with
          queueFull := r.queueFull + (rg.2 - rg.1)
          frames := r.frames.modify k fun f =>
            { f with full := f.full + (rg.2 - rg.1), refused := f.refused ++ [rg] } }

/-- The loop of sender goroutine `i`. -/
def work (r : Reflector U A) (i : ℕ) (q : JobQueue U A) (ok : Bool) : Option (Reflector U A) :=
  match q.worker, q.buffer with
  | .waiting, _ => none
  | .idle, [] => some { r with jobs := r.jobs.set i { q with worker := .waiting } }
  | .idle, j :: buffer => some { r with jobs := r.jobs.set i ⟨buffer, .busy j⟩ }
  | .busy ⟨[], _, _⟩, _ => some { r with jobs := r.jobs.set i { q with worker := .idle } }
  | .busy ⟨p :: peers, sender, k⟩, _ =>
    let r := { r with jobs := r.jobs.set i { q with worker := .busy ⟨peers, sender, k⟩ } }
    if p.id = sender then some r
    else
      some
        { r with
          writeErr := r.writeErr + failed ok
          frames := r.frames.modify k fun f => { f with attempts := f.attempts + 1 } }

def step (r : Reflector U A) : ReflEvent U A → Option (Reflector U A)
  | .hello id ap ok =>
    match r.server with
    | .reading => some { r.register id ap with writeErr := r.writeErr + failed ok }
    | _ => none
  | .keepalive ok =>
    match r.server with
    | .reading => some { r with writeErr := r.writeErr + failed ok }
    | _ => none
  | .voice sender =>
    match r.server with
    | .reading =>
      some
        { r with
          voiceRx := r.voiceRx + 1
          server := .fanning r.frames.length sender r.peers 0
            (splitDests r.peers.length r.senders)
          frames := r.frames ++ [⟨sender, r.peers, 0, 0, []⟩] }
    | _ => none
  | .fan =>
    match r.server with
    | .fanning k sender peers i (rg :: rest) => r.fan k sender peers i rg rest
    | .fanning _ _ _ _ [] => some { r with server := .reading }
    | _ => none
  | .work i ok => r.jobs[i]?.bind fun q => r.work i q ok
  | .close =>
    match r.server with
    | .reading => some { r with server := .closed }
    | _ => none

/-- Frame `k` is worked off. -/
def Settled (r : Reflector U A) (k : ℕ) : Prop :=
  (∀ q ∈ r.jobs, (∀ j ∈ q.buffer, j.frame ≠ k) ∧ ∀ j, q.worker = .busy j → j.frame ≠ k) ∧
    ∀ k' sender peers i rest, r.server = .fanning k' sender peers i rest → k' ≠ k

end Reflector

/-- The writes attempted for the frame and what it added to the count are as many as the
peers other than its sender. -/
def VoiceFrame.Balanced (f : VoiceFrame U A) : Prop :=
  f.attempts + f.full = f.peers.countP (·.id ≠ f.sender)

/-! ## The parts -/

section Parts

variable {β : Type}

/-- Where part `i` begins. -/
def partStart (n senders i : ℕ) : ℕ := i * (n / senders) + min i (n % senders)

theorem partStart_succ (n senders i : ℕ) : partStart n senders (i + 1) =
    partStart n senders i + if i < n % senders then n / senders + 1 else n / senders := by
  unfold partStart
  rw [Nat.add_mul, Nat.one_mul]
  split <;> omega

theorem partStart_mono (n senders : ℕ) {i j : ℕ} (h : i ≤ j) :
    partStart n senders i ≤ partStart n senders j :=
  Nat.add_le_add (Nat.mul_le_mul_right _ h) (by omega)

theorem partStart_end (n : ℕ) {senders : ℕ} (h : 0 < senders) : partStart n senders senders = n := by
  unfold partStart
  rw [Nat.min_eq_right (Nat.mod_lt n h).le]
  exact Nat.div_add_mod n senders

theorem splitDests_eq (n : ℕ) (senders : ℤ) :
    splitDests n senders = (List.range (max 1 senders.toNat)).map fun i =>
      (partStart n (max 1 senders.toNat) i, partStart n (max 1 senders.toNat) (i + 1)) := by
  have hsenders : (if senders < 1 then 1 else senders.toNat) = max 1 senders.toNat := by
    split <;> omega
  unfold splitDests
  rw [hsenders]
  generalize max 1 senders.toNat = s
  have hloop : ∀ k, (List.range k).foldl
      (fun (x : List (ℕ × ℕ) × ℕ) i =>
        (x.1 ++ [(x.2, x.2 + if i < n % s then n / s + 1 else n / s)],
          x.2 + if i < n % s then n / s + 1 else n / s)) ([], 0) =
      ((List.range k).map fun i => (partStart n s i, partStart n s (i + 1)), partStart n s k) := by
    intro k
    induction k with
    | zero => simp [partStart]
    | succ k ih =>
      rw [List.range_succ, List.foldl_append, ih, List.foldl_cons, List.foldl_nil, List.map_append,
        partStart_succ n s k]
      simp only [List.map_cons, List.map_nil, partStart_succ]
  exact congrArg Prod.fst (hloop s)

theorem length_splitDests (n : ℕ) (senders : ℤ) :
    (splitDests n senders).length = max 1 senders.toNat := by
  rw [splitDests_eq, List.length_map, List.length_range]

theorem length_part {l : List β} {rg : ℕ × ℕ} (hhi : rg.2 ≤ l.length) :
    (part l rg).length = rg.2 - rg.1 := by
  unfold part
  rw [List.length_drop, List.length_take_of_le hhi]

theorem flatten_parts (l : List β) (senders : ℤ) :
    ((splitDests l.length senders).map (part l)).flatten = l := by
  have hpos : 0 < max 1 senders.toNat := by omega
  rw [splitDests_eq]
  generalize max 1 senders.toNat = s at hpos
  have htake : ∀ k, (((List.range k).map fun i =>
      (partStart l.length s i, partStart l.length s (i + 1))).map (part l)).flatten =
      l.take (partStart l.length s k) := by
    intro k
    induction k with
    | zero => simp [partStart]
    | succ k ih =>
      rw [List.range_succ, List.map_append, List.map_append, List.flatten_append, ih]
      simp only [List.map_cons, List.map_nil, List.flatten_cons, List.flatten_nil, List.append_nil,
        part]
      conv_rhs => rw [← List.take_append_drop (partStart l.length s k)
        (l.take (partStart l.length s (k + 1))), List.take_take,
        Nat.min_eq_left (partStart_mono _ _ (Nat.le_succ k))]
  rw [htake, partStart_end _ hpos, List.take_length]

/-- What `SplitDests` promises. -/
structure SplitsEvenly (n : ℕ) (senders : ℤ) : Prop where
  whole : ∀ (β : Type) (l : List β), l.length = n →
    ((splitDests n senders).map (part l)).flatten = l
  contiguous : (splitDests n senders).IsChain fun a b => a.2 = b.1
  bounds : ∀ rg ∈ splitDests n senders, rg.1 ≤ rg.2 ∧ rg.2 ≤ n
  even : ∀ a ∈ splitDests n senders, ∀ b ∈ splitDests n senders, a.2 - a.1 ≤ b.2 - b.1 + 1

theorem mem_splitDests {n : ℕ} {senders : ℤ} {rg : ℕ × ℕ} (h : rg ∈ splitDests n senders) :
    ∃ i < max 1 senders.toNat, rg =
      (partStart n (max 1 senders.toNat) i, partStart n (max 1 senders.toNat) (i + 1)) := by
  rw [splitDests_eq] at h
  obtain ⟨i, hi, rfl⟩ := List.mem_map.1 h
  exact ⟨i, List.mem_range.1 hi, rfl⟩

theorem splitsEvenly (n : ℕ) (senders : ℤ) : SplitsEvenly n senders where
  whole β l hl := hl ▸ flatten_parts l senders
  contiguous := by
    rw [splitDests_eq, List.isChain_map]
    exact (List.isChain_range _ _).2 fun i _ => rfl
  bounds rg h := by
    obtain ⟨i, hi, rfl⟩ := mem_splitDests h
    have hend := partStart_end n (show 0 < max 1 senders.toNat by omega)
    exact ⟨partStart_mono _ _ (Nat.le_succ i), (partStart_mono _ _ hi).trans_eq hend⟩
  even a ha b hb := by
    obtain ⟨i, -, rfl⟩ := mem_splitDests ha
    obtain ⟨j, -, rfl⟩ := mem_splitDests hb
    dsimp only
    rw [partStart_succ, partStart_succ]
    split <;> split <;> omega

end Parts

/-! ## What is owed -/

/-- The writes still to come of a job of frame `k`. -/
def ReflJob.owes (k : ℕ) (j : ReflJob U A) : ℕ :=
  if j.frame = k then j.peers.countP (·.id ≠ j.sender) else 0

def JobQueue.owes (k : ℕ) (q : JobQueue U A) : ℕ :=
  (q.buffer.map (·.owes k)).sum +
    match q.worker with
    | .busy j => j.owes k
    | _ => 0

/-- The peers of the parts to come. -/
def Server.owes (k : ℕ) : Server U A → ℕ
  | .fanning k' sender peers _ rest =>
    if k' = k then (rest.map fun rg => (part peers rg).countP (·.id ≠ sender)).sum else 0
  | _ => 0

@[simp] theorem Server.owes_fanning (k k' : ℕ) (sender : U) (peers : List (ReflPeer U A)) (i : ℕ)
    (rest : List (ℕ × ℕ)) : (Server.fanning k' sender peers i rest).owes k =
      if k' = k then (rest.map fun rg => (part peers rg).countP (·.id ≠ sender)).sum else 0 := rfl

/-- How often the sender is in a part that was refused. -/
def VoiceFrame.excess (f : VoiceFrame U A) : ℕ :=
  (f.refused.map fun rg => (part f.peers rg).countP (·.id = f.sender)).sum

theorem countP_add_countP (l : List (ReflPeer U A)) (sender : U) :
    l.countP (·.id ≠ sender) + l.countP (·.id = sender) = l.length := by
  rw [Nat.add_comm, List.length_eq_countP_add_countP (p := fun p => decide (p.id = sender))]
  congr 1
  refine List.countP_congr fun p _ => ?_
  simp

theorem JobQueue.owes_send {depth k : ℕ} {q q' : JobQueue U A} {j : ReflJob U A}
    (h : q.send depth j = some q') : q'.owes k = q.owes k + j.owes k := by
  obtain ⟨buffer, worker⟩ := q
  cases worker with
  | waiting =>
    cases h
    unfold owes
    dsimp only
    omega
  | idle =>
    simp only [send] at h
    split at h
    · cases h
      simp [owes]
    · cases h
  | busy job =>
    simp only [send] at h
    split at h
    · cases h
      simp only [owes, List.map_append, List.map_cons, List.map_nil, List.sum_append,
        List.sum_singleton]
      omega
    · cases h

namespace Reflector

/-- What is owed for frame `k`. -/
def owes (r : Reflector U A) (k : ℕ) : ℕ := r.server.owes k + (r.jobs.map (·.owes k)).sum

structure Inv (r : Reflector U A) : Prop where
  frames : ∀ (k : ℕ) (f : VoiceFrame U A), r.frames[k]? = some f →
    f.attempts + f.full + r.owes k = f.peers.countP (·.id ≠ f.sender) + f.excess
  /-- nothing is owed for a frame to come -/
  fresh : ∀ k, r.frames.length ≤ k → r.owes k = 0
  server : ∀ k sender peers i rest, r.server = .fanning k sender peers i rest →
    (∃ f, r.frames[k]? = some f ∧ f.sender = sender ∧ f.peers = peers) ∧
      (∀ rg ∈ rest, rg.1 ≤ rg.2 ∧ rg.2 ≤ peers.length) ∧ i + rest.length = r.jobs.length
  jobs : r.jobs.length = r.senders ∧ 2 ≤ r.senders
  total : r.queueFull = (r.frames.map (·.full)).sum

theorem inv_new {senders : ℕ} (h : 2 ≤ senders) (jobDepth : ℕ) :
    (new senders jobDepth : Reflector U A).Inv where
  frames k f hf := by cases hf
  fresh k _ := by
    have hjobs : ∀ q ∈ List.replicate senders (⟨[], .idle⟩ : JobQueue U A), q.owes k = 0 :=
      fun q hq => by rw [List.eq_of_mem_replicate hq]; rfl
    show 0 + ((List.replicate senders (⟨[], .idle⟩ : JobQueue U A)).map (·.owes k)).sum = 0
    rw [Nat.zero_add]
    exact List.sum_eq_zero fun n hn => by
      obtain ⟨q, hq, rfl⟩ := List.mem_map.1 hn
      exact hjobs q hq
  server k sender peers i rest hs := by cases hs
  jobs := ⟨List.length_replicate, h⟩
  total := rfl

variable {r r' : Reflector U A}

theorem owes_reading (h : r.server = .reading) (k : ℕ) :
    r.owes k = (r.jobs.map (·.owes k)).sum := by
  unfold owes
  rw [h]
  exact Nat.zero_add _

theorem owes_set (r : Reflector U A) {i : ℕ} {q : JobQueue U A} (hq : r.jobs[i]? = some q)
    (server : Server U A) (q' : JobQueue U A) (k : ℕ) :
    ({ r with server := server, jobs := r.jobs.set i q' } : Reflector U A).owes k +
        r.server.owes k + q.owes k =
      r.owes k + server.owes k + q'.owes k := by
  have hsum : ((r.jobs.set i q').map (·.owes k)).sum + q.owes k =
    (r.jobs.map (·.owes k)).sum + q'.owes k := sum_map_set hq
  unfold owes
  dsimp only
  omega

theorem Inv.voice (h : r.Inv) (hreading : r.server = .reading) (sender : U) :
    ({ r with
      voiceRx := r.voiceRx + 1
      server := .fanning r.frames.length sender r.peers 0 (splitDests r.peers.length r.senders)
      frames := r.frames ++ [⟨sender, r.peers, 0, 0, []⟩] } : Reflector U A).Inv where
  frames k f hf := by
    show _ + ((Server.fanning _ _ _ _ _).owes k + (r.jobs.map (·.owes k)).sum) = _
    rw [Server.owes_fanning, ← owes_reading hreading]
    obtain hf | ⟨rfl, rfl⟩ := getElem?_snoc.1 hf
    · have hk : r.frames.length ≠ k := (List.getElem?_eq_some_iff.1 hf).1.ne'
      rw [if_neg hk, Nat.zero_add]
      exact h.frames k f hf
    · have hparts := congrArg (List.countP fun p => decide (p.id ≠ sender))
        (flatten_parts r.peers r.senders)
      rw [List.countP_flatten, List.map_map] at hparts
      rw [if_pos rfl, h.fresh _ le_rfl, ← hparts]
      simp [VoiceFrame.excess, Function.comp_def]
  fresh k hk := by
    rw [List.length_append, List.length_singleton] at hk
    have hne : r.frames.length ≠ k := (Nat.lt_of_succ_le hk).ne
    show (Server.fanning _ _ _ _ _).owes k + (r.jobs.map (·.owes k)).sum = 0
    rw [Server.owes_fanning, if_neg hne, ← owes_reading hreading, Nat.zero_add]
    exact h.fresh k (Nat.le_of_succ_le hk)
  server k sender' peers i rest hs := by
    cases hs
    refine ⟨⟨_, getElem?_snoc.2 (.inr ⟨rfl, rfl⟩), rfl, rfl⟩,
      (splitsEvenly r.peers.length r.senders).bounds, ?_⟩
    rw [length_splitDests, h.jobs.1]
    have := h.jobs.2
    omega
  jobs := h.jobs
  total := by
    rw [List.map_append, List.sum_append, ← h.total]
    rfl

section Fan

variable {k i : ℕ} {sender : U} {peers : List (ReflPeer U A)} {rg : ℕ × ℕ} {rest : List (ℕ × ℕ)}

theorem owes_fanning_cons (k' : ℕ) : (Server.fanning k sender peers i (rg :: rest)).owes k' =
    (Server.fanning k sender peers (i + 1) rest).owes k' +
      if k = k' then (part peers rg).countP (·.id ≠ sender) else 0 := by
  rw [Server.owes_fanning, Server.owes_fanning]
  split
  · rw [List.map_cons, List.sum_cons, Nat.add_comm]
  · rfl

/-- The part is empty, or a worker has it now. -/
theorem Inv.handsOver (h : r.Inv) (hserver : r.server = .fanning k sender peers i (rg :: rest))
    {jobs : List (JobQueue U A)} (hjobs : jobs.length = r.jobs.length)
    (howes : ∀ k', ({ r with server := .fanning k sender peers (i + 1) rest, jobs := jobs } :
      Reflector U A).owes k' = r.owes k') :
    ({ r with server := .fanning k sender peers (i + 1) rest, jobs := jobs } :
      Reflector U A).Inv where
  frames k' f' hf' := (howes k').symm ▸ h.frames k' f' hf'
  fresh k' hk' := (howes k').trans (h.fresh k' hk')
  server _ _ _ _ _ hs := by
    cases hs
    obtain ⟨hframe, hbounds, hlen⟩ := h.server _ _ _ _ _ hserver
    refine ⟨hframe, fun rg' hrg' => hbounds rg' (List.mem_cons_of_mem _ hrg'), ?_⟩
    rw [List.length_cons] at hlen
    show i + 1 + rest.length = jobs.length
    omega
  jobs := ⟨hjobs.trans h.jobs.1, h.jobs.2⟩
  total := h.total

/-- The part is refused: its destinations are counted, and the sender with them if it
is there. -/
theorem Inv.refuses (h : r.Inv) (hserver : r.server = .fanning k sender peers i (rg :: rest)) :
    ({ r with
      server := .fanning k sender peers (i + 1) rest
      queueFull := r.queueFull + (rg.2 - rg.1)
      frames := r.frames.modify k fun f =>
        { f with full := f.full + (rg.2 - rg.1), refused := f.refused ++ [rg] } } :
      Reflector U A).Inv := by
  obtain ⟨⟨f, hf, hsender, hpeers⟩, hbounds, hlen⟩ := h.server _ _ _ _ _ hserver
  have hless : ∀ k', (Server.fanning k sender peers (i + 1) rest).owes k' +
      (r.jobs.map (·.owes k')).sum +
      (if k = k' then (part peers rg).countP (·.id ≠ sender) else 0) = r.owes k' := fun k' => by
    unfold owes
    rw [hserver, owes_fanning_cons]
    omega
  have hlength : (part peers rg).countP (·.id ≠ sender) +
      (part peers rg).countP (·.id = sender) = rg.2 - rg.1 :=
    (countP_add_countP _ _).trans (length_part (hbounds rg List.mem_cons_self).2)
  refine ⟨fun k' f' hf' => ?_, fun k' hk' => ?_, fun _ _ _ _ _ hs => ?_, h.jobs, ?_⟩
  · obtain ⟨f₀, hf₀, rfl⟩ := getElem?_modify_eq_some.1 hf'
    have hold := h.frames k' f₀ hf₀
    have hk' := hless k'
    show _ + _ + ((Server.fanning k sender peers (i + 1) rest).owes k' + _) = _
    split
    · next he =>
      subst he
      obtain rfl := Option.some.inj (hf₀.symm.trans hf)
      have hexcess : ({ f₀ with
          full := f₀.full + (rg.2 - rg.1)
          refused := f₀.refused ++ [rg] } : VoiceFrame U A).excess =
          f₀.excess + (part peers rg).countP (·.id = sender) := by
        unfold VoiceFrame.excess
        rw [List.map_append, List.sum_append, ← hsender, ← hpeers]
        rfl
      rw [if_pos rfl] at hk'
      rw [hexcess]
      dsimp only
      omega
    · next hne =>
      rw [if_neg hne] at hk'
      rw [← hold, ← hk']
      rfl
  · rw [List.length_modify] at hk'
    exact Nat.eq_zero_of_le_zero (h.fresh k' hk' ▸ Nat.le.intro (hless k'))
  · cases hs
    refine ⟨⟨_, getElem?_modify_eq_some.2 ⟨f, hf, rfl⟩, by rw [if_pos rfl]; exact hsender,
      by rw [if_pos rfl]; exact hpeers⟩,
      fun rg' hrg' => hbounds rg' (List.mem_cons_of_mem _ hrg'), ?_⟩
    rw [List.length_cons] at hlen
    show i + 1 + rest.length = r.jobs.length
    omega
  · have hsum := sum_map_modify (w := fun f : VoiceFrame U A => f.full)
      (f := fun f : VoiceFrame U A =>
        { f with full := f.full + (rg.2 - rg.1), refused := f.refused ++ [rg] }) hf
    have := h.total
    dsimp only at hsum ⊢
    omega

theorem Inv.fan (h : r.Inv) (hserver : r.server = .fanning k sender peers i (rg :: rest))
    (hs : r.fan k sender peers i rg rest = some r') : r'.Inv := by
  unfold Reflector.fan at hs
  dsimp only at hs
  split at hs
  · next hempty =>
    cases hs
    have hpart : part peers rg = [] := by
      unfold part
      rw [hempty]
      exact List.drop_eq_nil_of_le (List.length_take_le ..)
    refine h.handsOver hserver rfl fun k' => ?_
    unfold owes
    rw [hserver, owes_fanning_cons, hpart]
    simp
  · obtain ⟨q, hq, hs⟩ := Option.map_eq_some_iff.1 hs
    split at hs
    · next q' hsend =>
      subst hs
      refine h.handsOver hserver List.length_set fun k' => ?_
      have hset := owes_set r hq (.fanning k sender peers (i + 1) rest) q' k'
      have hsent := JobQueue.owes_send (k := k') hsend
      rw [hserver, owes_fanning_cons] at hset
      unfold ReflJob.owes at hsent
      dsimp only at hsent
      omega
    · subst hs
      exact h.refuses hserver

end Fan

theorem Inv.move (h : r.Inv) {i : ℕ} {q q' : JobQueue U A} (hq : r.jobs[i]? = some q)
    (howes : ∀ k, q'.owes k = q.owes k) :
    ({ r with jobs := r.jobs.set i q' } : Reflector U A).Inv := by
  have hsame : ∀ k, ({ r with jobs := r.jobs.set i q' } : Reflector U A).owes k = r.owes k :=
    fun k => by
      have hset := owes_set r hq r.server q' k
      have := howes k
      omega
  exact
    { frames := fun k f hf => (hsame k).symm ▸ h.frames k f hf
      fresh := fun k hk => (hsame k).trans (h.fresh k hk)
      server := fun k sender peers j rest hs => by
        obtain ⟨hf, hbounds, hlen⟩ := h.server k sender peers j rest hs
        exact ⟨hf, hbounds, hlen.trans List.length_set.symm⟩
      jobs := ⟨List.length_set.trans h.jobs.1, h.jobs.2⟩
      total := h.total }

theorem Inv.write (h : r.Inv) {i k : ℕ} {q q' : JobQueue U A} (hq : r.jobs[i]? = some q)
    (howes : ∀ k', q.owes k' = q'.owes k' + if k = k' then 1 else 0) (n : ℕ)
    (hs : r' = { r with
      jobs := r.jobs.set i q'
      writeErr := n
      frames := r.frames.modify k fun f => { f with attempts := f.attempts + 1 } }) : r'.Inv := by
  have hless : ∀ k', r'.owes k' + (if k = k' then 1 else 0) = r.owes k' := fun k' => by
    have hset := owes_set r hq r.server q' k'
    have hq' := howes k'
    have hr : r'.owes k' = ({ r with jobs := r.jobs.set i q' } : Reflector U A).owes k' := by
      rw [hs]
      rfl
    omega
  have hframes' : r'.frames = r.frames.modify k fun f => { f with attempts := f.attempts + 1 } := by
    rw [hs]
  refine ⟨fun k' f' hf' => ?_, fun k' hk' => ?_, fun k' sender peers j rest hserver => ?_, ?_, ?_⟩
  · rw [hframes'] at hf'
    obtain ⟨f, hf, rfl⟩ := getElem?_modify_eq_some.1 hf'
    have hold := h.frames k' f hf
    have hk' := hless k'
    split
    · next he =>
      rw [if_pos he] at hk'
      show f.attempts + 1 + f.full + r'.owes k' = f.peers.countP (·.id ≠ f.sender) + f.excess
      omega
    · next hne =>
      rw [if_neg hne] at hk'
      rw [← hold, ← hk']
      rfl
  · rw [hframes', List.length_modify] at hk'
    exact Nat.eq_zero_of_le_zero (h.fresh k' hk' ▸ Nat.le.intro (hless k'))
  · rw [hs] at hserver
    obtain ⟨⟨f, hf, hsender, hpeers⟩, hbounds, hlen⟩ := h.server k' sender peers j rest hserver
    rw [hframes', hs]
    refine ⟨⟨_, getElem?_modify_eq_some.2 ⟨f, hf, rfl⟩, ?_, ?_⟩, hbounds,
      hlen.trans List.length_set.symm⟩
    · split
      · exact hsender
      · exact hsender
    · split
      · exact hpeers
      · exact hpeers
  · rw [hs]
    exact ⟨List.length_set.trans h.jobs.1, h.jobs.2⟩
  · have hfull : (r.frames.modify k fun f => { f with attempts := f.attempts + 1 }).map
        (fun f => f.full) = r.frames.map (fun f => f.full) := by
      refine List.ext_getElem? fun n => ?_
      rw [List.getElem?_map, List.getElem?_map, List.getElem?_modify]
      cases r.frames[n]? with
      | none => rfl
      | some f =>
        show some (if k = n then ({ f with attempts := f.attempts + 1 } : VoiceFrame U A)
          else f).full = some f.full
        split
        · rfl
        · rfl
    rw [hframes', hs]
    show r.queueFull = (List.map (fun f : VoiceFrame U A => f.full) _).sum
    rw [hfull]
    exact h.total

theorem Inv.work (h : r.Inv) {i : ℕ} {q : JobQueue U A} {ok : Bool} (hq : r.jobs[i]? = some q)
    (hs : r.work i q ok = some r') : r'.Inv := by
  obtain ⟨buffer, worker⟩ := q
  cases worker with
  | waiting => cases hs
  | idle =>
    cases buffer with
    | nil =>
      cases hs
      exact h.move hq fun k => rfl
    | cons j buffer =>
      cases hs
      refine h.move hq fun k => ?_
      simp only [JobQueue.owes, List.map_cons, List.sum_cons]
      omega
  | busy job =>
    obtain ⟨peers, sender, k⟩ := job
    cases peers with
    | nil =>
      cases hs
      refine h.move hq fun k' => ?_
      simp [JobQueue.owes, ReflJob.owes]
    | cons p peers =>
      simp only [Reflector.work] at hs
      split at hs
      · next hp =>
        cases hs
        refine h.move hq fun k' => ?_
        simp [JobQueue.owes, ReflJob.owes, hp]
      · next hp =>
        cases hs
        refine h.write hq (fun k' => ?_) _ rfl
        simp only [JobQueue.owes, ReflJob.owes, List.countP_cons, hp, ne_eq, not_false_eq_true,
          decide_true, if_true]
        split
        · omega
        · rfl

theorem Inv.step (h : r.Inv) {e : ReflEvent U A} (hs : r.step e = some r') : r'.Inv := by
  cases e with
  | hello id ap ok =>
    simp only [Reflector.step] at hs
    split at hs
    · cases hs
      exact ⟨h.frames, h.fresh, h.server, h.jobs, h.total⟩
    · cases hs
  | keepalive ok =>
    simp only [Reflector.step] at hs
    split at hs
    · cases hs
      exact ⟨h.frames, h.fresh, h.server, h.jobs, h.total⟩
    · cases hs
  | voice sender =>
    simp only [Reflector.step] at hs
    split at hs
    · next hserver =>
      cases hs
      exact h.voice hserver sender
    · cases hs
  | fan =>
    simp only [Reflector.step] at hs
    split at hs
    · next hserver => exact h.fan hserver hs
    · next k sender peers i hserver =>
      cases hs
      have hsame : ∀ k', ({ r with server := .reading } : Reflector U A).owes k' = r.owes k' :=
        fun k' => by
          unfold owes
          rw [hserver, Server.owes_fanning, List.map_nil, List.sum_nil, ite_self]
          rfl
      exact
        { frames := fun k' f hf => (hsame k').symm ▸ h.frames k' f hf
          fresh := fun k' hk' => (hsame k').trans (h.fresh k' hk')
          server := fun _ _ _ _ _ hs => by cases hs
          jobs := h.jobs
          total := h.total }
    · cases hs
  | work i ok =>
    obtain ⟨q, hq, hwork⟩ := Option.bind_eq_some_iff.1 hs
    exact h.work hq hwork
  | close =>
    simp only [Reflector.step] at hs
    split at hs
    · next hserver =>
      cases hs
      have hsame : ∀ k', ({ r with server := .closed } : Reflector U A).owes k' = r.owes k' :=
        fun k' => by
          rw [owes_reading hserver]
          exact Nat.zero_add _
      exact
        { frames := fun k' f hf => (hsame k').symm ▸ h.frames k' f hf
          fresh := fun k' hk' => (hsame k').trans (h.fresh k' hk')
          server := fun _ _ _ _ _ hs => by cases hs
          jobs := h.jobs
          total := h.total }
    · cases hs

theorem owes_settled {k : ℕ} (h : r.Settled k) : r.owes k = 0 := by
  have hserver : r.server.owes k = 0 := by
    cases hs : r.server with
    | reading | closed => rfl
    | fanning k' sender peers i rest =>
      rw [Server.owes_fanning, if_neg (h.2 _ _ _ _ _ hs)]
  have hjobs : (r.jobs.map (·.owes k)).sum = 0 := by
    refine List.sum_eq_zero fun n hn => ?_
    obtain ⟨q, hq, rfl⟩ := List.mem_map.1 hn
    obtain ⟨hbuffer, hworker⟩ := h.1 q hq
    have hb : (q.buffer.map (·.owes k)).sum = 0 := List.sum_eq_zero fun n hn => by
      obtain ⟨j, hj, rfl⟩ := List.mem_map.1 hn
      exact if_neg (hbuffer j hj)
    unfold JobQueue.owes
    rw [hb]
    cases hw : q.worker with
    | waiting | idle => rfl
    | busy j => exact (Nat.zero_add _).trans (if_neg (hworker j hw))
  rw [owes, hserver, hjobs]

/-- A frame that is worked off is balanced unless its sender was in a part that was
refused. -/
theorem Inv.balanced_iff (h : r.Inv) {k : ℕ} {f : VoiceFrame U A} (hf : r.frames[k]? = some f)
    (hsettled : r.Settled k) :
    f.Balanced ↔ ∀ rg ∈ f.refused, ∀ p ∈ part f.peers rg, p.id ≠ f.sender := by
  have hsum := h.frames k f hf
  rw [owes_settled hsettled, Nat.add_zero] at hsum
  have hexcess : f.Balanced ↔ f.excess = 0 := by
    unfold VoiceFrame.Balanced
    omega
  rw [hexcess, VoiceFrame.excess, List.sum_eq_zero_iff_forall_eq_nat]
  constructor
  · intro hzero rg hrg p hp hid
    have := List.countP_eq_zero.1 (hzero _ (List.mem_map_of_mem hrg)) p hp
    exact this (decide_eq_true hid)
  · intro hnone n hn
    obtain ⟨rg, hrg, rfl⟩ := List.mem_map.1 hn
    exact List.countP_eq_zero.2 fun p hp hid => hnone rg hrg p hp (of_decide_eq_true hid)

end Reflector

/-- **The reflector's accounts.** Along every run the queue-full count is what the frames
added to it; a frame that is worked off is balanced if and only if no part that held its
sender was refused; and the parts are the destinations, in order and of nearly one size. -/
theorem reflector_balanced {senders : ℕ} (hsenders : 2 ≤ senders) (jobDepth : ℕ)
    (events : List (ReflEvent U A)) (r : Reflector U A)
    (hrun : exec Reflector.step (.new senders jobDepth) events = some r) :
    r.queueFull = (r.frames.map (·.full)).sum ∧
    (∀ (k : ℕ) (f : VoiceFrame U A), r.frames[k]? = some f → r.Settled k →
      (f.Balanced ↔ ∀ rg ∈ f.refused, ∀ p ∈ part f.peers rg, p.id ≠ f.sender)) ∧
    ∀ (n : ℕ) (senders : ℤ), SplitsEvenly n senders := by
  have h : r.Inv := exec_invariant (fun _ _ _ hi _ hs => hi.step hs)
    (Reflector.inv_new hsenders jobDepth) (Meets.trivial _ _ _) hrun
  exact ⟨h.total, fun k f hf hsettled => h.balanced_iff hf hsettled, splitsEvenly⟩

/-- Three peers, and two frames of the first one: the second finds both queues full. -/
def floodedEvents : List (ReflEvent ℕ ℕ) :=
  [.hello 1 10 true, .hello 2 20 true, .hello 3 30 true, .voice 1, .fan, .fan, .fan, .voice 1,
    .fan, .fan, .fan]

def flooded : Reflector ℕ ℕ where
  senders := 2
  jobDepth := 1
  peers := [⟨1, 10⟩, ⟨2, 20⟩, ⟨3, 30⟩]
  jobs := [⟨[⟨[⟨1, 10⟩, ⟨2, 20⟩], 1, 0⟩], .idle⟩, ⟨[⟨[⟨3, 30⟩], 1, 0⟩], .idle⟩]
  queueFull := 3
  writeErr := 0
  voiceRx := 2
  server := .reading
  frames := [⟨1, [⟨1, 10⟩, ⟨2, 20⟩, ⟨3, 30⟩], 0, 0, []⟩,
    ⟨1, [⟨1, 10⟩, ⟨2, 20⟩, ⟨3, 30⟩], 0, 3, [(0, 2), (2, 3)]⟩]

theorem flooded_run : exec Reflector.step (.new 2 1) floodedEvents = some flooded := rfl

/-- No queue and no sender holds a part of the second frame. -/
theorem flooded_settled : flooded.Settled 1 := by
  refine ⟨fun q hq => ?_, fun _ _ _ _ _ hs => by cases hs⟩
  simp only [flooded, List.mem_cons, List.not_mem_nil, or_false] at hq
  obtain rfl | rfl := hq
  · exact ⟨fun j hj => by rw [List.mem_singleton.1 hj]; decide, fun j hj => by cases hj⟩
  · exact ⟨fun j hj => by rw [List.mem_singleton.1 hj]; decide, fun j hj => by cases hj⟩

theorem reflector_balanced_flooded : ∃ r f,
    exec Reflector.step (.new 2 1) floodedEvents = some r ∧ r.queueFull = 3 ∧
      r.queueFull = (r.frames.map (·.full)).sum ∧ r.frames[1]? = some f ∧ r.Settled 1 ∧
      (f.Balanced ↔ ∀ rg ∈ f.refused, ∀ p ∈ part f.peers rg, p.id ≠ f.sender) := by
  obtain ⟨htotal, hframes, -⟩ := reflector_balanced (by decide) 1 floodedEvents _ flooded_run
  exact ⟨_, _, flooded_run, rfl, htotal, rfl, flooded_settled, hframes 1 _ rfl flooded_settled⟩

/-- The second frame has two destinations, and three are counted. -/
theorem reflector_counts_sender : ¬ ∀ (senders jobDepth : ℕ) (events : List (ReflEvent ℕ ℕ))
    (r : Reflector ℕ ℕ), 2 ≤ senders →
    exec Reflector.step (.new senders jobDepth) events = some r →
    ∀ (k : ℕ) (f : VoiceFrame ℕ ℕ), r.frames[k]? = some f → r.Settled k → f.Balanced := by
  intro h
  have hbalanced := h 2 1 floodedEvents _ le_rfl flooded_run 1 _ rfl flooded_settled
  exact absurd hbalanced (by unfold VoiceFrame.Balanced; decide)

end VcsClient.Loadgen
