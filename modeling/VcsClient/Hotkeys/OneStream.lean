import VcsClient.Hotkeys.KeyStream
import VcsClient.Lib.Machine

/-!
# One key stream

As long as no registration looks at the stream over a reader that a teardown has
given up on, there is one stream at a time, it is ended once, after its reader, and
no registration succeeds over such a reader.
-/

namespace VcsClient.Hotkeys

open VcsClient.Lib

theorem mem_givenUp {log : List StreamEvent} {i : ℕ} :
    i ∈ givenUp log ↔ .timedOut i ∈ log := by
  unfold givenUp
  rw [List.mem_filterMap]
  constructor
  · rintro ⟨e, he, h⟩
    cases e with
    | timedOut j =>
      cases h
      exact he
    | _ => cases h
  · exact fun h => ⟨_, h, rfl⟩

namespace HookRegistrar

/-! ## What a step does -/

inductive Moves (r : HookRegistrar) : StreamOp → HookRegistrar → Prop
  | enter {op w} (hmu : r.startMu = none) (hw : w = .plan ∨ w = .close) :
      r.Moves op { r with startMu := some w }
  | flags {op disabled retryArmed readers}
      (hreaders : ∀ i, (readers.lookup i).isSome = (r.readers.lookup i).isSome) :
      r.Moves op { r with disabled := disabled, retryArmed := retryArmed, readers := readers }
  | exit {op i} : r.Moves op { r with readers := r.readers.erase i, log := .exited i :: r.log }
  | decide {w} (hmu : r.startMu = some .plan)
      (hw : w = .startStream ∧ r.running = false ∨ w = .leave none ∧ r.running = true ∨
        w = .leave (some .hookDisabled)) :
      r.Moves .proceed { r with startMu := some w }
  | claim {op restart retryArmed} (hmu : r.startMu = some .plan ∨ r.startMu = some .close)
      (hrun : r.running = true) :
      r.Moves op { r with
        retryArmed := retryArmed
        running := false
        quit := none
        readerDone := none
        startMu := some (.teardown r.quit r.readerDone restart) }
  | nothing {op} (hmu : r.startMu = some .close) (hrun : r.running = false) :
      r.Moves op { r with
        quit := none
        readerDone := none
        running := false
        startMu := some .closed }
  | signal {op quit i restart readers} (hmu : r.startMu = some (.teardown quit (some i) restart))
      (hreaders : ∀ i, (readers.lookup i).isSome = (r.readers.lookup i).isSome) :
      r.Moves op { r with readers := readers, startMu := some (.waiting i restart) }
  | callEnd {op restart readers}
      (hmu : (∃ i, r.startMu = some (.waiting i restart) ∧ r.readers.lookup i = none) ∨
        ∃ quit, r.startMu = some (.teardown quit none restart))
      (hreaders : ∀ i, (readers.lookup i).isSome = (r.readers.lookup i).isSome) :
      r.Moves op { r with
        readers := readers
        startMu := some (.ending restart)
        log := .ending (r.starts - 1) :: r.log }
  | ended {op restart} (hmu : r.startMu = some (.ending restart)) :
      r.Moves op { r with
        startMu := some (afterTeardown restart none)
        log := .ended (r.starts - 1) :: r.log }
  | giveUp {op i restart} (hmu : r.startMu = some (.waiting i restart)) :
      r.Moves op { r with
        startMu := some (afterTeardown restart (some .streamWedged))
        log := .timedOut i :: r.log }
  | start {op} (hmu : r.startMu = some .startStream) :
      r.Moves op { r with
        disabled := false
        startMu := some .starting
        starts := r.starts + 1
        log := .started r.starts :: r.log }
  | started {op} (hmu : r.startMu = some .starting) :
      r.Moves op { r with
        quit := some (r.starts - 1)
        readerDone := some (r.starts - 1)
        running := true
        readers := r.readers.insert (r.starts - 1) ⟨false, false⟩
        startMu := some (.leave none) }
  | registered {op} (hmu : r.startMu = some (.leave none)) :
      r.Moves op { r with startMu := none, log := .registered :: r.log }
  | leave {op} (hmu : (∃ e, r.startMu = some (.leave (some e))) ∨ r.startMu = some .closed) :
      r.Moves op { r with startMu := none }

variable {r r' : HookRegistrar} {op : StreamOp} {i : ℕ}

theorem closeQuit_isSome (r : HookRegistrar) (quit : Option ℕ) (i : ℕ) :
    ((r.closeQuit quit).lookup i).isSome = (r.readers.lookup i).isSome := by
  cases quit with
  | none => rfl
  | some j =>
    show ((mapValues _ r.readers).lookup i).isSome = _
    rw [lookup_mapValues, Option.isSome_map]

theorem insert_isSome {rd rd' : Reader} (hl : r.readers.lookup i = some rd) (j : ℕ) :
    ((r.readers.insert i rd').lookup j).isSome = (r.readers.lookup j).isSome := by
  by_cases hj : j = i
  · subst hj
    rw [AList.lookup_insert, hl]
    rfl
  · rw [AList.lookup_insert_ne hj]

theorem receive_some {f : Reader → Option HookRegistrar} (h : r.receive i f = some r') :
    ∃ rd, r.readers.lookup i = some rd ∧ f rd = some r' := by
  obtain ⟨rd, hl, h⟩ := Option.bind_eq_some_iff.1 h
  split at h
  · cases h
  · exact ⟨rd, hl, h⟩

theorem proceed_moves {w : Section} (hmu : r.startMu = some w) (hs : r.proceed w = some r') :
    r.Moves .proceed r' := by
  cases w with
  | plan =>
    cases hs
    unfold planStream
    split
    · next hrun => exact .decide hmu (.inl ⟨rfl, hrun⟩)
    · next hrun =>
      have hrun : r.running = true := by simpa using hrun
      split
      · exact .decide hmu (.inr (.inl ⟨rfl, hrun⟩))
      · split
        · exact .decide hmu (.inr (.inr rfl))
        · exact .claim (.inl hmu) hrun
  | close =>
    cases hs
    unfold closeStream
    split
    · next hrun => exact .claim (.inr hmu) hrun
    · next hrun => exact .nothing hmu (by simpa using hrun)
  | teardown quit done restart =>
    cases done with
    | none =>
      cases hs
      exact .callEnd (.inr ⟨quit, hmu⟩) (r.closeQuit_isSome quit)
    | some i =>
      cases hs
      exact .signal hmu (r.closeQuit_isSome quit)
  | waiting i restart =>
    simp only [proceed] at hs
    split at hs
    · cases hs
    · next hl =>
      cases hs
      exact .callEnd (.inl ⟨i, hmu, by simpa using hl⟩) fun _ => rfl
  | ending restart =>
    cases hs
    exact .ended hmu
  | startStream =>
    cases hs
    exact .start hmu
  | starting =>
    cases hs
    exact .started hmu
  | leave err =>
    cases err with
    | none =>
      cases hs
      exact .registered hmu
    | some e =>
      cases hs
      exact .leave (.inl ⟨e, hmu⟩)
  | closed =>
    cases hs
    exact .leave (.inr hmu)

theorem step_moves (hs : r.step op = some r') : r.Moves op r' := by
  cases op with
  | register =>
    simp only [step] at hs
    split at hs
    · cases hs
    · next h =>
      cases hs
      exact .enter (by simpa using h) (.inl rfl)
  | close =>
    simp only [step] at hs
    split at hs
    · cases hs
    · next h =>
      cases hs
      exact .enter (by simpa using h) (.inr rfl)
  | unregisterAll =>
    cases hs
    exact .flags fun _ => rfl
  | proceed =>
    obtain ⟨w, hmu, hs⟩ := Option.bind_eq_some_iff.1 hs
    exact proceed_moves hmu hs
  | timeout =>
    simp only [step] at hs
    split at hs
    · next hmu =>
      cases hs
      exact .giveUp hmu
    · cases hs
  | hookEnabled i =>
    obtain ⟨rd, -, hs⟩ := receive_some hs
    cases hs
    exact .flags fun _ => rfl
  | hookDisabled i =>
    obtain ⟨rd, -, hs⟩ := receive_some hs
    cases hs
    exact .flags fun _ => rfl
  | streamClosed i =>
    obtain ⟨rd, hl, hs⟩ := receive_some hs
    cases hs
    exact .flags (insert_isSome hl)
  | quit i =>
    obtain ⟨rd, hl, hs⟩ := receive_some hs
    split at hs
    · cases hs
      exact .flags (insert_isSome hl)
    · cases hs
  | exit i =>
    obtain ⟨rd, hl, hs⟩ := Option.bind_eq_some_iff.1 hs
    split at hs
    · cases hs
      exact .exit
    · cases hs

/-! ## One stream -/

/-- The stream started last, neither ended nor given up. -/
structure Current (log : List StreamEvent) (starts i : ℕ) : Prop where
  newest : i + 1 = starts
  started : .started i ∈ log
  unended : .ending i ∉ log
  kept : .timedOut i ∉ log

/-- Between two calls there is a current stream, or only readers that were given up. -/
def Idle (r : HookRegistrar) : Prop :=
  (r.running = true ∧ ∃ i, r.quit = some i ∧ r.readerDone = some i ∧ Current r.log r.starts i) ∨
    r.running = false ∧ ∀ i, .started i ∈ r.log → .exited i ∈ r.log ∨ .timedOut i ∈ r.log

/-- What holds where the call under `startMu` stands. -/
def Place (r : HookRegistrar) : Option Section → Prop
  | none | some .plan | some .close | some (.leave (some _)) | some .closed => r.Idle
  | some (.leave none) => r.running = true ∧ r.Idle
  | some (.teardown quit done _) =>
    r.running = false ∧ ∃ i, quit = some i ∧ done = some i ∧ Current r.log r.starts i
  | some (.waiting i _) => r.running = false ∧ Current r.log r.starts i
  | some (.ending _) | some .startStream => r.running = false ∧ Quiet r.log
  | some .starting => r.running = false ∧ Current r.log r.starts (r.starts - 1)

structure Single (r : HookRegistrar) : Prop where
  started_lt : ∀ i, .started i ∈ r.log → i < r.starts
  ending_lt : ∀ i, .ending i ∈ r.log → i < r.starts
  timedOut : ∀ i, .timedOut i ∈ r.log → .started i ∈ r.log
  /-- Only the reader of the newest stream may be there. -/
  older : ∀ i, .started i ∈ r.log → .exited i ∈ r.log ∨ i + 1 = r.starts
  readers : ∀ i, .started i ∈ r.log →
    .exited i ∈ r.log ∨ (r.readers.lookup i).isSome = true ∨ r.startMu = some .starting
  ended : ∀ i, .ending i ∈ r.log →
    .ended i ∈ r.log ∨ (∃ restart, r.startMu = some (.ending restart)) ∧ i + 1 = r.starts
  place : r.Place r.startMu
  orderly : Each Orderly r.log

theorem single_new : new.Single where
  started_lt i h := by cases h
  ending_lt i h := by cases h
  timedOut i h := by cases h
  older i h := by cases h
  readers i h := by cases h
  ended i h := by cases h
  place := .inr ⟨rfl, fun i h => by cases h⟩
  orderly := each_nil

/-- A reader that has not ended is there, unless one is being started. -/
theorem Single.reading (h : r.Single) (hstarting : r.startMu ≠ some .starting) {i : ℕ}
    (hi : .started i ∈ r.log) : .exited i ∈ r.log ∨ (r.readers.lookup i).isSome = true :=
  (h.readers i hi).imp_right fun hl => hl.resolve_right hstarting

/-- A stream that was ending has ended, unless one is being ended. -/
theorem Single.over (h : r.Single) (hending : ∀ restart, r.startMu ≠ some (.ending restart))
    {i : ℕ} (hi : .ending i ∈ r.log) : .ended i ∈ r.log :=
  (h.ended i hi).resolve_right fun ⟨⟨restart, hmu⟩, _⟩ => hending restart hmu

/-- A step that the log does not tell of, and that neither starts nor ends a stream. -/
theorem Single.goto (h : r.Single) (hlog : r'.log = r.log) (hstarts : r'.starts = r.starts)
    (hreaders : ∀ i, (r'.readers.lookup i).isSome = (r.readers.lookup i).isSome)
    (hstarting : r.startMu ≠ some .starting)
    (hending : ∀ restart, r.startMu ≠ some (.ending restart)) (hplace : r'.Place r'.startMu) :
    r'.Single where
  started_lt := by rw [hlog, hstarts]; exact h.started_lt
  ending_lt := by rw [hlog, hstarts]; exact h.ending_lt
  timedOut := by rw [hlog]; exact h.timedOut
  older := by rw [hlog, hstarts]; exact h.older
  readers i hi := by
    rw [hlog] at hi ⊢
    exact (h.reading hstarting hi).imp_right fun hl => .inl (by rw [hreaders, hl])
  ended i hi := by
    rw [hlog] at hi ⊢
    exact .inl (h.over hending hi)
  place := hplace
  orderly := by rw [hlog]; exact h.orderly

/-- No reader is there while a registration looks at a registrar that is not running. -/
theorem Idle.quiet (h : r.Idle) (hrun : r.running = false) (hok : ¬ Wedged r.log) :
    Quiet r.log := by
  rcases h with ⟨hr, -⟩ | ⟨-, hall⟩
  · rw [hrun] at hr
    cases hr
  · intro i hi
    rcases hall i hi with hex | hto
    · exact hex
    · by_contra hex
      exact hok ⟨i, mem_givenUp.2 hto, hex⟩

theorem Idle.current (h : r.Idle) (hrun : r.running = true) :
    ∃ i, r.quit = some i ∧ r.readerDone = some i ∧ Current r.log r.starts i := by
  rcases h with ⟨-, hcur⟩ | ⟨hr, -⟩
  · exact hcur
  · rw [hrun] at hr
    cases hr

/-- A registration that succeeds has a stream, and no reader was given up. -/
theorem Single.not_wedged (h : r.Single) (hrun : r.running = true) (hidle : r.Idle) :
    ¬ Wedged r.log := by
  rintro ⟨i, hto, hex⟩
  have hto := mem_givenUp.1 hto
  obtain ⟨n, -, -, hcur⟩ := hidle.current hrun
  rcases h.older i (h.timedOut i hto) with hex' | hnew
  · exact hex hex'
  · have hin : i = n := by have := hcur.newest; omega
    exact hcur.kept (hin ▸ hto)

/-- Once the reader of the stream started last is gone, all are. -/
theorem Single.quiet (h : r.Single) (hi : i + 1 = r.starts) (hex : .exited i ∈ r.log) :
    Quiet r.log := by
  intro j hj
  rcases h.older j hj with hj | hj
  · exact hj
  · have hji : j = i := by omega
    exact hji ▸ hex

theorem Current.cons {log : List StreamEvent} {starts : ℕ} {e : StreamEvent}
    (h : Current log starts i) (hend : e ≠ .ending i) (hto : e ≠ .timedOut i) :
    Current (e :: log) starts i where
  newest := h.newest
  started := List.mem_cons_of_mem _ h.started
  unended := by
    rw [List.mem_cons, not_or]
    exact ⟨hend.symm, h.unended⟩
  kept := by
    rw [List.mem_cons, not_or]
    exact ⟨hto.symm, h.kept⟩

theorem quiet_cons {log : List StreamEvent} {e : StreamEvent} (h : Quiet log)
    (he : ∀ i, e ≠ .started i) : Quiet (e :: log) := by
  intro i hi
  rcases List.mem_cons.1 hi with hi | hi
  · exact absurd hi.symm (he i)
  · exact List.mem_cons_of_mem _ (h i hi)

/-- What the log tells beside starts, ends and timeouts does not matter. -/
theorem Idle.cons {e : StreamEvent} (h : r.Idle) (hstart : ∀ i, e ≠ .started i)
    (hend : ∀ i, e ≠ .ending i) (hto : ∀ i, e ≠ .timedOut i) :
    Idle { r with log := e :: r.log } := by
  rcases h with ⟨hr, i, hq, hd, hcur⟩ | ⟨hr, hall⟩
  · exact .inl ⟨hr, i, hq, hd, hcur.cons (hend i) (hto i)⟩
  · refine .inr ⟨hr, fun i hi => ?_⟩
    rcases List.mem_cons.1 hi with hi | hi
    · exact absurd hi.symm (hstart i)
    · exact (hall i hi).imp (List.mem_cons_of_mem _) (List.mem_cons_of_mem _)

theorem Place.exited {w : Option Section} (h : r.Place w) :
    Place { r with log := .exited i :: r.log } w := by
  have hidle : r.Idle → Idle { r with log := .exited i :: r.log } := fun h =>
    h.cons (by simp) (by simp) (by simp)
  have hcur : ∀ j, Current r.log r.starts j → Current (.exited i :: r.log) r.starts j :=
    fun j h => h.cons (by simp) (by simp)
  have hquiet : Quiet r.log → Quiet (.exited i :: r.log) := fun h => quiet_cons h (by simp)
  cases w with
  | none => exact hidle h
  | some w =>
    cases w with
    | plan | close | closed => exact hidle h
    | leave err =>
      cases err with
      | none => exact ⟨h.1, hidle h.2⟩
      | some e => exact hidle h
    | teardown quit done restart =>
      obtain ⟨hr, j, hq, hd, hj⟩ := h
      exact ⟨hr, j, hq, hd, hcur j hj⟩
    | waiting j restart => exact ⟨h.1, hcur j h.2⟩
    | ending restart | startStream => exact ⟨h.1, hquiet h.2⟩
    | starting => exact ⟨h.1, hcur _ h.2⟩

/-- The log tells of one thing more, and it starts no stream. -/
theorem Single.logs (h : r.Single) {e : StreamEvent} (hlog : r'.log = e :: r.log)
    (hstarts : r'.starts = r.starts) (hstart : ∀ i, e ≠ .started i)
    (hend : ∀ i, e = .ending i → i < r.starts) (hto : ∀ i, e = .timedOut i → .started i ∈ r.log)
    (hreaders : ∀ i, .started i ∈ r.log →
      .exited i ∈ r'.log ∨ (r'.readers.lookup i).isSome = true ∨ r'.startMu = some .starting)
    (hended : ∀ i, .ending i ∈ r'.log →
      .ended i ∈ r'.log ∨ (∃ restart, r'.startMu = some (.ending restart)) ∧ i + 1 = r.starts)
    (hplace : r'.Place r'.startMu) (horderly : Orderly r.log e) : r'.Single := by
  have hback : ∀ {i}, .started i ∈ r'.log → .started i ∈ r.log := fun hi =>
    (List.mem_cons.1 (hlog ▸ hi)).resolve_left fun he => hstart _ he.symm
  refine ⟨fun i hi => hstarts ▸ h.started_lt i (hback hi), fun i hi => ?_, fun i hi => ?_,
    fun i hi => ?_, fun i hi => hreaders i (hback hi), fun i hi => hstarts ▸ hended i hi, hplace, ?_⟩
  · rw [hlog] at hi
    rw [hstarts]
    exact (List.mem_cons.1 hi).elim (fun he => hend i he.symm) (h.ending_lt i)
  · rw [hlog] at hi ⊢
    exact List.mem_cons_of_mem _
      ((List.mem_cons.1 hi).elim (fun he => hto i he.symm) (h.timedOut i))
  · rw [hlog, hstarts]
    exact (h.older i (hback hi)).imp_left (List.mem_cons_of_mem _)
  · rw [hlog]
    exact each_cons.2 ⟨horderly, h.orderly⟩

/-- The stream is ended: its reader is gone, and so are all before it. -/
theorem Single.ends (h : r.Single) {restart : Bool} {readers : AList fun _ : ℕ => Reader}
    (hmu : r.startMu = some (.waiting i restart)) (hl : r.readers.lookup i = none) :
    ({ r with
      readers := readers
      startMu := some (.ending restart)
      log := .ending (r.starts - 1) :: r.log } : HookRegistrar).Single := by
  have hplace := h.place
  rw [hmu] at hplace
  obtain ⟨hrun, hcur⟩ := hplace
  have hnewest := hcur.newest
  have hi : r.starts - 1 = i := by omega
  have hex : .exited i ∈ r.log := by
    refine (h.reading (by simp [hmu]) hcur.started).resolve_right fun hs => ?_
    rw [hl] at hs
    cases hs
  have hends : ∀ j, .ending j ∈ r.log → .ended j ∈ r.log := fun j hj => h.over (by simp [hmu]) hj
  have hquiet := h.quiet hnewest hex
  rw [hi]
  refine h.logs rfl rfl (by simp) (fun j hj => ?_) (by simp)
    (fun j hj => .inl (List.mem_cons_of_mem _ (hquiet j hj))) (fun j hj => ?_)
    ⟨hrun, quiet_cons hquiet (by simp)⟩ ⟨hex, hcur.unended, hends⟩
  · cases hj
    omega
  · rcases List.mem_cons.1 hj with hj | hj
    · cases hj
      exact .inr ⟨⟨_, rfl⟩, hnewest⟩
    · exact .inl (List.mem_cons_of_mem _ (hends j hj))

/-- The teardown gives up on the reader of the stream started last. -/
theorem Single.givesUp (h : r.Single) {restart : Bool}
    (hmu : r.startMu = some (.waiting i restart)) :
    ({ r with
      startMu := some (afterTeardown restart (some .streamWedged))
      log := .timedOut i :: r.log } : HookRegistrar).Single := by
  have hplace := h.place
  rw [hmu] at hplace
  obtain ⟨hrun, hcur⟩ := hplace
  have hidle : ∀ j, .started j ∈ .timedOut i :: r.log →
      .exited j ∈ .timedOut i :: r.log ∨ .timedOut j ∈ .timedOut i :: r.log := by
    intro j hj
    rcases h.older j (by simpa using hj) with hex | hnew
    · exact .inl (List.mem_cons_of_mem _ hex)
    · have hji : j = i := by have := hcur.newest; omega
      exact .inr (hji ▸ List.mem_cons_self)
  refine h.logs rfl rfl (by simp) (by simp) (fun j hj => ?_) (fun j hj => ?_) (fun j hj => .inl ?_)
    ?_ trivial
  · cases hj
    exact hcur.started
  · exact (h.reading (by simp [hmu]) hj).imp (List.mem_cons_of_mem _) .inl
  · exact List.mem_cons_of_mem _ (h.over (by simp [hmu]) (by simpa using hj))
  · cases restart with
    | true => exact .inr ⟨hrun, hidle⟩
    | false => exact .inr ⟨hrun, hidle⟩

theorem Single.starts (h : r.Single) (hmu : r.startMu = some .startStream) :
    ({ r with
      disabled := false
      startMu := some .starting
      starts := r.starts + 1
      log := .started r.starts :: r.log } : HookRegistrar).Single := by
  have hplace := h.place
  rw [hmu] at hplace
  obtain ⟨hrun, hquiet⟩ := hplace
  have hcur : Current (.started r.starts :: r.log) (r.starts + 1) r.starts := by
    refine ⟨rfl, List.mem_cons_self, fun hj => ?_, fun hj => ?_⟩
    · exact absurd (h.ending_lt _ (by simpa using hj)) (lt_irrefl _)
    · exact absurd (h.started_lt _ (h.timedOut _ (by simpa using hj))) (lt_irrefl _)
  refine ⟨fun j hj => ?_, fun j hj => (h.ending_lt j (by simpa using hj)).trans (Nat.lt_succ_self _),
    fun j hj => List.mem_cons_of_mem _ (h.timedOut j (by simpa using hj)), fun j hj => ?_,
    fun j hj => .inr (.inr rfl), fun j hj => .inl ?_, ⟨hrun, hcur⟩,
    each_cons.2 ⟨hquiet, h.orderly⟩⟩
  · rcases List.mem_cons.1 hj with hj | hj
    · cases hj
      exact Nat.lt_succ_self _
    · exact (h.started_lt j hj).trans (Nat.lt_succ_self _)
  · rcases List.mem_cons.1 hj with hj | hj
    · cases hj
      exact .inr rfl
    · exact .inl (List.mem_cons_of_mem _ (hquiet j hj))
  · exact List.mem_cons_of_mem _ (h.over (by simp [hmu]) (by simpa using hj))

theorem Single.moves (h : r.Single) (hok : r.Unwedged op) (hm : r.Moves op r') : r'.Single := by
  have hplace := h.place
  cases hm with
  | enter hmu hw =>
    rw [hmu] at hplace
    refine h.goto rfl rfl (fun _ => rfl) (by simp [hmu]) (by simp [hmu]) ?_
    rcases hw with rfl | rfl
    · exact hplace
    · exact hplace
  | flags hreaders =>
    refine ⟨h.started_lt, h.ending_lt, h.timedOut, h.older, fun i hi => ?_, h.ended, hplace,
      h.orderly⟩
    show _ ∨ (_ : Option Reader).isSome = true ∨ _
    rw [hreaders]
    exact h.readers i hi
  | @exit _ i =>
    refine h.logs rfl rfl (by simp) (by simp) (by simp) (fun j hj => ?_)
      (fun j hj => (h.ended j (by simpa using hj)).imp_left (List.mem_cons_of_mem _))
      hplace.exited trivial
    by_cases hji : j = i
    · exact .inl (hji ▸ List.mem_cons_self)
    · rcases h.readers j hj with hex | hl | hmu
      · exact .inl (List.mem_cons_of_mem _ hex)
      · exact .inr (.inl (by rw [AList.lookup_erase_ne hji]; exact hl))
      · exact .inr (.inr hmu)
  | decide hmu hw =>
    rw [hmu] at hplace
    refine h.goto rfl rfl (fun _ => rfl) (by simp [hmu]) (by simp [hmu]) ?_
    rcases hw with ⟨rfl, hrun⟩ | ⟨rfl, hrun⟩ | rfl
    · have hfree : ¬ Wedged r.log := by simpa [Unwedged, hmu] using hok
      exact ⟨hrun, hplace.quiet hrun hfree⟩
    · exact ⟨hrun, hplace⟩
    · exact hplace
  | claim hmu hrun =>
    have hidle : r.Idle := by rcases hmu with hmu | hmu <;> rwa [hmu] at hplace
    obtain ⟨i, hq, hd, hcur⟩ := hidle.current hrun
    exact h.goto rfl rfl (fun _ => rfl) (by rcases hmu with hmu | hmu <;> simp [hmu])
      (by rcases hmu with hmu | hmu <;> simp [hmu])
      ⟨rfl, i, hq, hd, hcur⟩
  | nothing hmu hrun =>
    rw [hmu] at hplace
    refine h.goto rfl rfl (fun _ => rfl) (by simp [hmu]) (by simp [hmu]) (.inr ⟨rfl, ?_⟩)
    rcases hplace with ⟨hr, -⟩ | ⟨-, hall⟩
    · rw [hrun] at hr
      cases hr
    · exact hall
  | signal hmu hreaders =>
    rw [hmu] at hplace
    obtain ⟨hrun, i, -, hd, hcur⟩ := hplace
    cases hd
    exact h.goto rfl rfl hreaders (by simp [hmu]) (by simp [hmu])
      ⟨hrun, hcur⟩
  | callEnd hmu hreaders =>
    rcases hmu with ⟨i, hmu, hl⟩ | ⟨quit, hmu⟩
    · exact h.ends hmu hl
    · rw [hmu] at hplace
      obtain ⟨-, i, -, hd, -⟩ := hplace
      cases hd
  | @ended _ restart hmu =>
    rw [hmu] at hplace
    obtain ⟨hrun, hquiet⟩ := hplace
    have hquiet' : Quiet (.ended (r.starts - 1) :: r.log) := quiet_cons hquiet (by simp)
    refine h.logs rfl rfl (by simp) (by simp) (by simp)
      (fun j hj => .inl (hquiet' j (List.mem_cons_of_mem _ hj))) (fun j hj => .inl ?_) ?_ trivial
    · rcases h.ended j (by simpa using hj) with he | ⟨-, hj⟩
      · exact List.mem_cons_of_mem _ he
      · have : j = r.starts - 1 := by omega
        exact this ▸ List.mem_cons_self
    · cases restart with
      | true => exact ⟨hrun, hquiet'⟩
      | false => exact .inr ⟨hrun, fun j hj => .inl (hquiet' j hj)⟩
  | giveUp hmu => exact h.givesUp hmu
  | start hmu => exact h.starts hmu
  | started hmu =>
    rw [hmu] at hplace
    refine ⟨h.started_lt, h.ending_lt, h.timedOut, h.older, fun j hj => ?_, fun j hj => .inl ?_,
      ⟨rfl, .inl ⟨rfl, _, rfl, rfl, hplace.2⟩⟩, h.orderly⟩
    · rcases h.older j hj with hex | hnew
      · exact .inl hex
      · have : j = r.starts - 1 := by omega
        exact .inr (.inl (by rw [this, AList.lookup_insert]; rfl))
    · exact h.over (by simp [hmu]) hj
  | registered hmu =>
    rw [hmu] at hplace
    obtain ⟨hrun, hidle⟩ := hplace
    refine h.logs rfl rfl (by simp) (by simp) (by simp) (fun j hj => ?_) (fun j hj => .inl ?_)
      (hidle.cons (by simp) (by simp) (by simp)) (h.not_wedged hrun hidle)
    · exact (h.reading (by simp [hmu]) hj).imp (List.mem_cons_of_mem _) .inl
    · exact List.mem_cons_of_mem _ (h.over (by simp [hmu]) (by simpa using hj))
  | leave hmu =>
    have hidle : r.Idle := by
      rcases hmu with ⟨e, hmu⟩ | hmu
      · rwa [hmu] at hplace
      · rwa [hmu] at hplace
    exact h.goto rfl rfl (fun _ => rfl) (by rcases hmu with ⟨e, hmu⟩ | hmu <;> simp [hmu])
      (by rcases hmu with ⟨e, hmu⟩ | hmu <;> simp [hmu]) hidle

end HookRegistrar

/-- **One key stream.** Along every run in which no registration looks at the stream
over a reader that a teardown gave up on, every start, end and registration is
orderly. -/
theorem one_stream (ops : List StreamOp) (r : HookRegistrar)
    (hok : Meets HookRegistrar.step HookRegistrar.Unwedged .new ops)
    (hrun : exec HookRegistrar.step .new ops = some r) : Each Orderly r.log :=
  (exec_invariant (I := HookRegistrar.Single)
    (fun _ _ _ h hok hs => h.moves hok (HookRegistrar.step_moves hs))
    HookRegistrar.single_new hok hrun).orderly

/-- A restart gives up on a reader, which is gone when the next registration comes. -/
theorem one_stream_timeout : ∃ r,
    exec HookRegistrar.step .new
      [.register, .proceed, .proceed, .proceed, .proceed, .hookDisabled 0, .register, .proceed,
        .proceed, .timeout, .proceed, .quit 0, .exit 0, .register, .proceed, .proceed, .proceed,
        .proceed, .close, .proceed, .proceed, .quit 1, .exit 1, .proceed, .proceed, .proceed] =
      some r ∧ r.starts = 2 ∧ Each Orderly r.log := by
  have hrun : (exec HookRegistrar.step .new
      [.register, .proceed, .proceed, .proceed, .proceed, .hookDisabled 0, .register, .proceed,
        .proceed, .timeout, .proceed, .quit 0, .exit 0, .register, .proceed, .proceed, .proceed,
        .proceed, .close, .proceed, .proceed, .quit 1, .exit 1, .proceed, .proceed, .proceed]).map
      (·.starts) = some 2 := by decide +kernel
  obtain ⟨r, hr, hstarts⟩ := Option.map_eq_some_iff.1 hrun
  exact ⟨r, hr, hstarts, one_stream _ r (by decide +kernel) hr⟩

/-- A restart gives up on a reader, and the next registration starts another stream. -/
theorem started_over_reader : ¬ ∀ (ops : List StreamOp) (r : HookRegistrar),
    exec HookRegistrar.step .new ops = some r → Each Orderly r.log := by
  intro h
  have hrun : (exec HookRegistrar.step .new
      [.register, .proceed, .proceed, .proceed, .proceed, .hookDisabled 0, .register, .proceed,
        .proceed, .timeout, .proceed, .register, .proceed, .proceed]).map (·.log) =
      some [.started 1, .timedOut 0, .registered, .started 0] := by decide +kernel
  obtain ⟨r, hr, hlog⟩ := Option.map_eq_some_iff.1 hrun
  have hquiet : Quiet [.timedOut 0, .registered, .started 0] := h _ r hr [] _ _ hlog
  exact absurd (hquiet 0 (by decide)) (by decide)

end VcsClient.Hotkeys
