import VcsClient.Lib.Slots
import VcsClient.Notify.Runs

/-!
# Windows and their timers

A window carries a generation. Its timer, and the goroutine that runs
`windowClosed` when the timer has fired, carry it as a token. At every moment
no two of them carry the same one and each open window has exactly one
(`Windows`), so that a window is closed once and none is left open with nobody
to close it.
-/

namespace VcsClient.Notify

open VcsClient.Lib

variable {δ : Type*}

/-! ## Tokens -/

def After.token : After → Option (Key × ℕ)
  | .trail key gen _ => some (key, gen)
  | _ => none

def Pc.token : Pc → Option (Key × ℕ)
  | .commit _ _ k | .publish _ _ k | .sound _ k => k.token
  | .close key gen | .rearm key gen _ _ => some (key, gen)
  | _ => none

/-- Who may carry a token: a timer, or a goroutine. -/
abbrev Holder := ℕ ⊕ ℕ

def Notifier.timerToken (n : Notifier δ) (id : ℕ) : Option (Key × ℕ) :=
  (n.timers.lookup id).map fun t => (t.key, t.gen)

namespace System

def token (s : System δ) : Holder → Option (Key × ℕ)
  | .inl id => s.n.timerToken id
  | .inr g => (s.threads.lookup g).bind Pc.token

/-- Each open window has one token, and so has each generation. -/
structure Windows (s : System δ) : Prop where
  unique : UniqueTokens s.token
  entry : ∀ k p, s.n.pending.lookup k = some p → ∃ a, s.token a = some (k, p.gen)
  fresh : ∀ a x, s.token a = some x → x.2 ≤ s.n.pendingGen
  timer : ∀ k p id t, s.n.pending.lookup k = some p → p.timer = some id →
    s.n.timers.lookup id = some t → t.gen = p.gen
  ids : ∀ id t, s.n.timers.lookup id = some t → id ≤ s.n.timerSeq
  entryIds : ∀ k p id, s.n.pending.lookup k = some p → p.timer = some id → id ≤ s.n.timerSeq

theorem init_windows (cap now : ℤ) : (init δ cap now).Windows where
  unique := by
    rintro (a | a) b x y ha <;> simp [token, init, Notifier.new, Notifier.timerToken] at ha
  entry := fun k p h => by simp [init, Notifier.new] at h
  fresh := by
    rintro (a | a) x ha <;> simp [token, init, Notifier.new, Notifier.timerToken] at ha
  timer := fun k p id t h => by simp [init, Notifier.new] at h
  ids := fun id t h => by simp [init, Notifier.new] at h
  entryIds := fun k p id h => by simp [init, Notifier.new] at h

variable {s : System δ}

theorem Windows.key_of_gen (h : s.Windows) {k : Key} {p : PendingChange} {a : Holder}
    {x : Key × ℕ} (hp : s.n.pending.lookup k = some p) (ha : s.token a = some x)
    (hgen : x.2 = p.gen) : x = (k, p.gen) := by
  obtain ⟨b, hb⟩ := h.entry k p hp
  have hab : a = b := h.unique a b _ _ ha hb hgen
  rw [hab, hb] at ha
  exact (Option.some.inj ha).symm

theorem Windows.key_inj (h : s.Windows) {k k' : Key} {p p' : PendingChange}
    (hp : s.n.pending.lookup k = some p) (hp' : s.n.pending.lookup k' = some p')
    (hgen : p.gen = p'.gen) : k = k' := by
  obtain ⟨b, hb⟩ := h.entry k p hp
  exact congrArg Prod.fst (h.key_of_gen hp' hb hgen)

/-! ## Steps that leave the windows alone -/

/-- The windows and timers are those of `s`; goroutine `g` keeps its token, or
drops one that no open window has. -/
theorem Windows.goto {n : Notifier δ} (h : s.Windows) (hn : n.pending = s.n.pending)
    (hgen : n.pendingGen = s.n.pendingGen) (htimers : n.timers = s.n.timers)
    (hseq : n.timerSeq = s.n.timerSeq) {t : System δ} (ht : t.n = n)
    (hthreads : t.threads = s.threads) (g : ℕ) (pc : Option Pc)
    (hpc : pc.bind Pc.token = s.token (.inr g) ∨ pc.bind Pc.token = none ∧
      ∀ k p, s.n.pending.lookup k = some p → s.token (.inr g) ≠ some (k, p.gen)) :
    (t.goto g pc).Windows := by
  have htok : ∀ a, (t.goto g pc).token a =
      if a = .inr g then pc.bind Pc.token else s.token a := by
    rintro (id | g')
    · simp [token, ht, Notifier.timerToken, htimers]
    · simp only [token, goto_lookup, hthreads, Sum.inr.injEq]
      split <;> rfl
  have hle : ∀ c y, (t.goto g pc).token c = some y → s.token c = some y := by
    intro c y hc
    rw [htok] at hc
    split at hc
    · next he =>
      rcases hpc with hpc | ⟨hpc, -⟩
      · rw [he, ← hpc]
        exact hc
      · rw [hpc] at hc
        cases hc
    · exact hc
  refine ⟨h.unique.of_le hle, ?_, ?_, ?_, ?_, ?_⟩
  · intro k p hp
    simp only [goto_n, ht, hn] at hp
    obtain ⟨a, ha⟩ := h.entry k p hp
    refine ⟨a, ?_⟩
    rw [htok]
    split
    · next he =>
      subst he
      rcases hpc with hpc | ⟨-, hpc⟩
      · rw [hpc]
        exact ha
      · exact absurd ha (hpc k p hp)
    · exact ha
  · intro a x ha
    simp only [goto_n, ht, hgen]
    exact h.fresh a x (hle a x ha)
  · simp only [goto_n, ht, hn, htimers]
    exact h.timer
  · simp only [goto_n, ht, htimers, hseq]
    exact h.ids
  · simp only [goto_n, ht, hn, hseq]
    exact h.entryIds

/-- Windows are closed and timers dropped, none of an open window. -/
theorem Windows.shrink (h : s.Windows) {n : Notifier δ} (hgen : n.pendingGen = s.n.pendingGen)
    (hseq : n.timerSeq = s.n.timerSeq)
    (hpending : ∀ k p, n.pending.lookup k = some p → s.n.pending.lookup k = some p)
    (htimers : ∀ id t, n.timers.lookup id = some t → s.n.timers.lookup id = some t)
    (hkeep : ∀ id t k p, s.n.timers.lookup id = some t → n.pending.lookup k = some p →
      t.gen = p.gen → n.timers.lookup id = some t) : Windows { s with n := n } := by
  have hle : ∀ c y, token { s with n := n } c = some y → s.token c = some y := by
    rintro (id | g) y hc
    · obtain ⟨t, ht, rfl⟩ := Option.map_eq_some_iff.1 hc
      exact Option.map_eq_some_iff.2 ⟨t, htimers id t ht, rfl⟩
    · exact hc
  refine ⟨h.unique.of_le hle, fun k p hp => ?_, fun a x ha => ?_, fun k p id t hp hid ht => ?_,
    fun id t ht => ?_, fun k p id hp hid => ?_⟩
  · obtain ⟨a, ha⟩ := h.entry k p (hpending k p hp)
    refine ⟨a, ?_⟩
    rcases a with id | g
    · obtain ⟨t, ht, he⟩ := Option.map_eq_some_iff.1 ha
      have hgen : t.gen = p.gen := congrArg Prod.snd he
      exact Option.map_eq_some_iff.2 ⟨t, hkeep id t k p ht hp hgen, he⟩
    · exact ha
  · exact (h.fresh a x (hle a x ha)).trans hgen.ge
  · exact h.timer k p id t (hpending k p hp) hid (htimers id t ht)
  · exact (h.ids id t (htimers id t ht)).trans hseq.ge
  · exact (h.entryIds k p id (hpending k p hp) hid).trans hseq.ge

/-- The window of a key is closed and its timer stopped. -/
theorem Windows.retire (h : s.Windows) {key : Key} {p : PendingChange}
    (hp : s.n.pending.lookup key = some p) :
    Windows { s with n := (s.n.stop p.timer).retirePendingLocked key } := by
  have hpending : ∀ k q, (s.n.pending.erase key).lookup k = some q →
      k ≠ key ∧ s.n.pending.lookup k = some q := fun _ _ => lookup_of_erase
  cases htimer : p.timer with
  | none =>
    exact h.shrink rfl rfl (fun k q hq => (hpending k q hq).2) (fun _ _ => id)
      fun _ _ _ _ ht _ _ => ht
  | some id =>
    refine h.shrink rfl rfl (fun k q hq => (hpending k q hq).2) (fun i t ht => ?_)
      fun i t k q ht hq hgen => ?_
    · have ht : (s.n.timers.erase id).lookup i = some t := ht
      have hne : i ≠ id := by
        rintro rfl
        simp at ht
      rwa [AList.lookup_erase_ne hne] at ht
    · obtain ⟨hne, hopen⟩ := hpending k q hq
      have hi : i ≠ id := by
        rintro rfl
        exact hne (h.key_inj hopen hp (hgen.symm.trans (h.timer key p _ t hp htimer ht)))
      show (s.n.timers.erase id).lookup i = some t
      rwa [AList.lookup_erase_ne hi]

theorem Windows.congr (h : s.Windows) {n : Notifier δ} (hpending : n.pending = s.n.pending)
    (hgen : n.pendingGen = s.n.pendingGen) (htimers : n.timers = s.n.timers)
    (hseq : n.timerSeq = s.n.timerSeq) : Windows { s with n := n } :=
  h.shrink hgen hseq (fun _ _ => hpending ▸ id) (fun _ _ => htimers ▸ id)
    fun _ _ _ _ ht _ _ => htimers ▸ ht

theorem Windows.cancelPendingLocked (h : s.Windows) (key : Key) :
    Windows { s with n := s.n.cancelPendingLocked key } := by
  have hgen : Windows { s with n := { s.n with cancelGen := s.n.cancelGen + 1 } } :=
    h.congr rfl rfl rfl rfl
  unfold Notifier.cancelPendingLocked
  simp only
  split
  · exact hgen
  · next p hp => exact hgen.retire hp

theorem Windows.forget (sha256 : List UInt8 → δ) (h : s.Windows) (it : Item) :
    Windows { s with n := s.n.forget sha256 it } := by
  unfold Notifier.forget
  simp only
  split
  · exact h
  · have hcancel := h.cancelPendingLocked it.key
    split
    · exact hcancel.congr rfl rfl rfl rfl
    · exact hcancel

theorem Windows.foldl_forget (sha256 : List UInt8 → δ) (h : s.Windows) (l : List Item) :
    Windows { s with n := l.foldl (Notifier.forget sha256) s.n } := by
  induction l generalizing s with
  | nil => exact h
  | cons it l ih => exact ih (h.forget sha256 it)

/-- The sections of the list leave the windows alone, but for those of the rows
they take from the user. -/
theorem Windows.commit [DecidableEq δ] (sha256 : List UInt8 → δ) (h : s.Windows) (now : ℤ)
    (op : Op) : Windows { s with n := (Op.commit sha256 now s.n op).n } := by
  cases op with
  | post item => exact h.congr rfl rfl rfl rfl
  | raise key item =>
    simp only [Op.commit, Notifier.raiseReport]
    split
    · exact h.congr rfl rfl rfl rfl
    · split
      · exact h
      · next r hr =>
        simp only [Notifier.raiseLocked] at hr
        split at hr
        · cases hr
        · split at hr
          · cases hr
            exact h.congr rfl rfl rfl rfl
          · split at hr
            · cases hr
              exact h.congr rfl rfl rfl rfl
            · split at hr
              · cases hr
              · cases hr
                exact h.congr rfl rfl rfl rfl
  | resolve key =>
    simp only [Op.commit, Notifier.resolveReport]
    split
    · exact h
    · split
      · exact h.congr rfl rfl rfl rfl
      · split <;> exact h.congr rfl rfl rfl rfl
  | markRead id =>
    simp only [Op.commit, Notifier.markRead]
    split
    · exact h.congr rfl rfl rfl rfl
    · exact h
  | markAllRead =>
    simp only [Op.commit, Notifier.markAllRead]
    split
    · exact h.congr rfl rfl rfl rfl
    · exact h
  | dismiss id =>
    simp only [Op.commit, Notifier.dismiss]
    split
    · exact h
    · next it _ => exact (h.forget sha256 it).congr rfl rfl rfl rfl
  | clear =>
    simp only [Op.commit, Notifier.clear]
    split
    · exact h
    · exact (h.foldl_forget sha256 s.n.items).congr rfl rfl rfl rfl

/-! ## `StopTimers` -/

theorem stopTimersLoop_lookup (l : List (Sigma fun _ : Key => PendingChange)) (n : Notifier δ) :
    (n.stopTimersLoop l).pendingGen = n.pendingGen ∧ (n.stopTimersLoop l).timerSeq = n.timerSeq ∧
      (∀ k p, (n.stopTimersLoop l).pending.lookup k = some p →
        n.pending.lookup k = some p ∧ ∀ e ∈ l, e.1 ≠ k) ∧
      ∀ id t, (n.stopTimersLoop l).timers.lookup id = some t → n.timers.lookup id = some t := by
  induction l generalizing n with
  | nil => exact ⟨rfl, rfl, fun k p h => ⟨h, by simp⟩, fun id t h => h⟩
  | cons e l ih =>
    obtain ⟨hgen, hseq, hpending, htimers⟩ := ih ((n.stop e.2.timer).retirePendingLocked e.1)
    have hstop : (n.stop e.2.timer).pending = n.pending ∧
        (n.stop e.2.timer).pendingGen = n.pendingGen ∧
        (n.stop e.2.timer).timerSeq = n.timerSeq ∧
        ∀ id t, (n.stop e.2.timer).timers.lookup id = some t → n.timers.lookup id = some t := by
      cases e.2.timer with
      | none => exact ⟨rfl, rfl, rfl, fun _ _ h => h⟩
      | some i =>
        refine ⟨rfl, rfl, rfl, fun id t h => ?_⟩
        have h : (n.timers.erase i).lookup id = some t := h
        have hne : id ≠ i := by
          rintro rfl
          simp at h
        rwa [AList.lookup_erase_ne hne] at h
    obtain ⟨hp, hg, hs, ht⟩ := hstop
    refine ⟨hgen.trans hg, hseq.trans hs, fun k p hl => ?_, fun id t hl => ht id t (htimers id t hl)⟩
    obtain ⟨hl, hne⟩ := hpending k p hl
    obtain ⟨hk, hl⟩ := lookup_of_erase (m := (n.stop e.2.timer).pending) hl
    rw [hp] at hl
    refine ⟨hl, fun e' he' => ?_⟩
    rcases List.mem_cons.1 he' with rfl | he'
    · exact hk.symm
    · exact hne e' he'

theorem stopTimers_pending (n : Notifier δ) (k : Key) : n.stopTimers.pending.lookup k = none := by
  obtain ⟨-, -, hpending, -⟩ :=
    stopTimersLoop_lookup n.pending.entries { n with cancelGen := n.cancelGen + 1 }
  cases hl : n.stopTimers.pending.lookup k with
  | none => rfl
  | some p =>
    obtain ⟨hk, hne⟩ := hpending k p hl
    exact absurd rfl (hne ⟨k, p⟩ (AList.mem_lookup_iff.1 hk))

theorem Windows.stopTimers (h : s.Windows) : Windows { s with n := s.n.stopTimers } := by
  obtain ⟨hgen, hseq, -, htimers⟩ :=
    stopTimersLoop_lookup s.n.pending.entries { s.n with cancelGen := s.n.cancelGen + 1 }
  refine h.shrink hgen hseq (fun k p hp => ?_) htimers fun id t k p _ hp _ => ?_
  · rw [stopTimers_pending] at hp
    cases hp
  · rw [stopTimers_pending] at hp
    cases hp

/-! ## Opening a window, and keeping it open -/

theorem Windows.arm (h : s.Windows) {key : Key} (hkey : s.n.pending.lookup key = none) (window : ℤ) :
    Windows { s with n := s.n.armLocked s.now key window } := by
  have htimers : ∀ id, (s.n.armLocked s.now key window).timers.lookup id =
      if id = s.n.timerSeq + 1 then some ⟨key, s.n.pendingGen + 1, s.now + window⟩
      else s.n.timers.lookup id := by
    intro id
    simp only [Notifier.armLocked, hkey, Notifier.startTimer]
    split
    · next he => rw [he, AList.lookup_insert]
    · next hne => rw [AList.lookup_insert_ne hne]
  have hpending : ∀ k, (s.n.armLocked s.now key window).pending.lookup k =
      if k = key then some ⟨s.n.pendingGen + 1, some (s.n.timerSeq + 1), none, 0⟩
      else s.n.pending.lookup k := by
    intro k
    simp only [Notifier.armLocked, hkey, Notifier.startTimer]
    split
    · next he => rw [he, AList.lookup_insert]
    · next hne => rw [AList.lookup_insert_ne hne]
  have hgen : (s.n.armLocked s.now key window).pendingGen = s.n.pendingGen + 1 := by
    simp only [Notifier.armLocked, hkey, Notifier.startTimer]
  have hseq : (s.n.armLocked s.now key window).timerSeq = s.n.timerSeq + 1 := by
    simp only [Notifier.armLocked, hkey, Notifier.startTimer]
  generalize s.n.armLocked s.now key window = n at *
  have htok : ∀ c, token { s with n := n } c =
      if c = .inl (s.n.timerSeq + 1) then some (key, s.n.pendingGen + 1) else s.token c := by
    rintro (id | g)
    · simp only [token, Notifier.timerToken, htimers, Sum.inl.injEq]
      split <;> rfl
    · rfl
  have hfree : s.token (.inl (s.n.timerSeq + 1)) = none := by
    simp only [token, Notifier.timerToken, Option.map_eq_none_iff]
    cases ht : s.n.timers.lookup (s.n.timerSeq + 1) with
    | none => rfl
    | some t => exact absurd (h.ids _ t ht) (by omega)
  refine ⟨?_, fun k p hp => ?_, fun a x ha => ?_, fun k p id t hp hid ht => ?_, fun id t ht => ?_,
    fun k p id hp hid => ?_⟩
  · refine h.unique.mint (b := .inl (s.n.timerSeq + 1)) (k := key)
      (fun a x ha => Nat.lt_succ_of_le (h.fresh a x ha)) fun c y hc => ?_
    rw [htok] at hc
    split at hc
    · next he => exact .inl ⟨he, (Option.some.inj hc).symm⟩
    · exact .inr hc
  · simp only [hpending] at hp
    split at hp
    · next he =>
      cases hp
      exact ⟨.inl (s.n.timerSeq + 1), by rw [htok, if_pos rfl, he]⟩
    · obtain ⟨a, ha⟩ := h.entry k p hp
      refine ⟨a, ?_⟩
      rw [htok, if_neg, ha]
      rintro rfl
      rw [hfree] at ha
      cases ha
  · rw [htok] at ha
    show x.2 ≤ n.pendingGen
    rw [hgen]
    split at ha
    · cases ha
      exact le_rfl
    · exact (h.fresh a x ha).trans (Nat.le_succ _)
  · simp only [hpending] at hp
    simp only [htimers] at ht
    split at hp
    · cases hp
      cases hid
      rw [if_pos rfl] at ht
      cases ht
      rfl
    · have hle := h.entryIds k p id hp hid
      rw [if_neg (by omega)] at ht
      exact h.timer k p id t hp hid ht
  · simp only [htimers] at ht
    show id ≤ n.timerSeq
    rw [hseq]
    split at ht
    · omega
    · exact (h.ids id t ht).trans (Nat.le_succ _)
  · simp only [hpending] at hp
    show id ≤ n.timerSeq
    rw [hseq]
    split at hp
    · cases hp
      cases hid
      exact le_rfl
    · exact (h.entryIds k p id hp hid).trans (Nat.le_succ _)

/-- The goroutine that closed a window and keeps it open hands its token to the
new timer. -/
theorem Windows.rearm (h : s.Windows) {g : ℕ} {key : Key} {p : PendingChange}
    (hp : s.n.pending.lookup key = some p) (hg : s.token (.inr g) = some (key, p.gen))
    (window : ℤ) : ({ s with n := s.n.armLocked s.now key window }.goto g none).Windows := by
  -- the timer of the window has fired: its token is the goroutine's
  have hfired : ∀ id t, p.timer = some id → s.n.timers.lookup id ≠ some t := by
    intro id t hid ht
    have hgen := h.timer key p id t hp hid ht
    have := h.unique (.inl id) (.inr g) (t.key, t.gen) (key, p.gen)
      (by simp [token, Notifier.timerToken, ht]) hg hgen
    cases this
  have hstop : ∀ id, (s.n.stop p.timer).timers.lookup id = s.n.timers.lookup id := by
    intro id
    cases htimer : p.timer with
    | none => rfl
    | some i =>
      show (s.n.timers.erase i).lookup id = _
      by_cases hi : id = i
      · subst hi
        rw [AList.lookup_erase]
        cases ht : s.n.timers.lookup id with
        | none => rfl
        | some t => exact absurd ht (hfired id t htimer)
      · rw [AList.lookup_erase_ne hi]
  have hsame : (s.n.stop p.timer).pending = s.n.pending ∧
      (s.n.stop p.timer).pendingGen = s.n.pendingGen ∧
      (s.n.stop p.timer).timerSeq = s.n.timerSeq := by
    cases p.timer <;> exact ⟨rfl, rfl, rfl⟩
  obtain ⟨hsp, hsg, hss⟩ := hsame
  have htimers : ∀ id, (s.n.armLocked s.now key window).timers.lookup id =
      if id = s.n.timerSeq + 1 then some ⟨key, p.gen, s.now + window⟩
      else s.n.timers.lookup id := by
    intro id
    simp only [Notifier.armLocked, hp, Notifier.startTimer, hss]
    split
    · next he => rw [he, AList.lookup_insert]
    · next hne => rw [AList.lookup_insert_ne hne, hstop]
  have hpending : ∀ k, (s.n.armLocked s.now key window).pending.lookup k =
      if k = key then some { p with timer := some (s.n.timerSeq + 1) }
      else s.n.pending.lookup k := by
    intro k
    simp only [Notifier.armLocked, hp, Notifier.startTimer, hss, hsp]
    split
    · next he => rw [he, AList.lookup_insert]
    · next hne => rw [AList.lookup_insert_ne hne]
  have hgen : (s.n.armLocked s.now key window).pendingGen = s.n.pendingGen := by
    simp only [Notifier.armLocked, hp, Notifier.startTimer, hsg]
  have hseq : (s.n.armLocked s.now key window).timerSeq = s.n.timerSeq + 1 := by
    simp only [Notifier.armLocked, hp, Notifier.startTimer, hss]
  generalize s.n.armLocked s.now key window = n at *
  have htok : ∀ c, token ({ s with n := n }.goto g none) c =
      if c = .inl (s.n.timerSeq + 1) then some (key, p.gen)
      else if c = .inr g then none else s.token c := by
    rintro (id | g')
    · simp only [token, goto_n, Notifier.timerToken, htimers, Sum.inl.injEq, reduceCtorEq, if_false]
      split <;> rfl
    · simp only [token, goto_lookup, Sum.inr.injEq, reduceCtorEq, if_false]
      split <;> rfl
  have hfree : s.token (.inl (s.n.timerSeq + 1)) = none := by
    simp only [token, Notifier.timerToken, Option.map_eq_none_iff]
    cases ht : s.n.timers.lookup (s.n.timerSeq + 1) with
    | none => rfl
    | some t => exact absurd (h.ids _ t ht) (by omega)
  refine ⟨?_, fun k q hq => ?_, fun a x ha => ?_, fun k q id t hq hid ht => ?_, fun id t ht => ?_,
    fun k q id hq hid => ?_⟩
  · refine h.unique.move (a := .inr g) (b := .inl (s.n.timerSeq + 1)) (by simp [htok])
      fun c y hc => ?_
    rw [htok] at hc
    split at hc
    · next he => exact .inl ⟨he, hg.trans hc⟩
    · next hne =>
      split at hc
      · cases hc
      · exact .inr ⟨hne, hc⟩
  · simp only [goto_n, hpending] at hq
    split at hq
    · next he =>
      cases hq
      exact ⟨.inl (s.n.timerSeq + 1), by rw [htok, if_pos rfl, he]⟩
    · next hne =>
      obtain ⟨a, ha⟩ := h.entry k q hq
      refine ⟨a, ?_⟩
      rw [htok, if_neg, if_neg, ha]
      · rintro rfl
        rw [hg, Option.some.injEq] at ha
        exact hne (congrArg Prod.fst ha).symm
      · rintro rfl
        rw [hfree] at ha
        cases ha
  · rw [htok] at ha
    simp only [goto_n, hgen]
    split at ha
    · cases ha
      exact h.fresh _ _ hg
    · split at ha
      · cases ha
      · exact h.fresh a x ha
  · simp only [goto_n, hpending] at hq
    simp only [goto_n, htimers] at ht
    split at hq
    · cases hq
      cases hid
      rw [if_pos rfl] at ht
      cases ht
      rfl
    · have hle := h.entryIds k q id hq hid
      rw [if_neg (by omega)] at ht
      exact h.timer k q id t hq hid ht
  · simp only [goto_n, htimers] at ht
    simp only [goto_n, hseq]
    split at ht
    · omega
    · exact (h.ids id t ht).trans (Nat.le_succ _)
  · simp only [goto_n, hpending] at hq
    simp only [goto_n, hseq]
    split at hq
    · cases hq
      cases hid
      exact le_rfl
    · exact (h.entryIds k q id hq hid).trans (Nat.le_succ _)

/-- A timer that fires hands its token to the goroutine it starts. -/
theorem Windows.fire (h : s.Windows) {id g : ℕ} {t : Timer} (ht : s.n.timers.lookup id = some t)
    (hg : g ∉ s.threads) :
    ({ s with n := { s.n with timers := s.n.timers.erase id } }.goto g
      (some (.close t.key t.gen))).Windows := by
  have htok : ∀ c, token ({ s with n := { s.n with timers := s.n.timers.erase id } }.goto g
      (some (.close t.key t.gen))) c =
        if c = .inr g then s.token (.inl id) else if c = .inl id then none else s.token c := by
    rintro (i | g')
    · simp only [token, goto_n, Notifier.timerToken, reduceCtorEq, if_false, Sum.inl.injEq]
      split
      · next he => rw [he, AList.lookup_erase, Option.map_none]
      · next hne => rw [AList.lookup_erase_ne hne]
    · simp only [token, goto_lookup, Sum.inr.injEq, reduceCtorEq, if_false, Notifier.timerToken, ht]
      split <;> rfl
  have hfree : s.token (.inr g) = none := by
    simp [token, AList.lookup_eq_none.2 hg]
  have hsub : ∀ i u, (s.n.timers.erase id).lookup i = some u → s.n.timers.lookup i = some u := by
    intro i u hu
    have hne : i ≠ id := by
      rintro rfl
      simp at hu
    rwa [AList.lookup_erase_ne hne] at hu
  refine ⟨?_, fun k p hp => ?_, fun a x ha => ?_, fun k p i u hp hid hu => ?_, fun i u hu => ?_,
    fun k p i hp hid => ?_⟩
  · refine h.unique.move (a := .inl id) (b := .inr g) (by simp [htok]) fun c y hc => ?_
    rw [htok] at hc
    split at hc
    · next he => exact .inl ⟨he, hc⟩
    · next hne =>
      split at hc
      · cases hc
      · exact .inr ⟨hne, hc⟩
  · obtain ⟨a, ha⟩ := h.entry k p (by simpa using hp)
    by_cases he : a = .inl id
    · exact ⟨.inr g, by rw [htok, if_pos rfl, ← he, ha]⟩
    · refine ⟨a, ?_⟩
      rw [htok, if_neg, if_neg he, ha]
      rintro rfl
      rw [hfree] at ha
      cases ha
  · rw [htok] at ha
    simp only [goto_n]
    split at ha
    · exact h.fresh _ x ha
    · split at ha
      · cases ha
      · exact h.fresh a x ha
  · simp only [goto_n] at hp hu
    exact h.timer k p i u hp hid (hsub i u hu)
  · simp only [goto_n] at hu ⊢
    exact h.ids i u (hsub i u hu)
  · simp only [goto_n] at hp ⊢
    exact h.entryIds k p i hp hid

/-! ## Every step -/

theorem After.resume_token (changed : Bool) (k : After) :
    (k.resume changed).bind Pc.token = k.token := by
  cases k with
  | ret => rfl
  | lead => cases changed <;> rfl
  | trail => rfl

theorem Change.op_token (key : Key) (c : Change) (stamp : ℕ) :
    (Pc.commit (c.op key) stamp .ret).token = none := by
  cases c <;> rfl

theorem token_of_lookup {s : System δ} {g : ℕ} {pc : Pc} (h : s.threads.lookup g = some pc) :
    s.token (.inr g) = pc.token := by
  simp [token, h]

theorem Windows.keep (h : s.Windows) {t : System δ} (ht : t.n = s.n) (hthreads : t.threads = s.threads)
    (g : ℕ) (pc : Option Pc) (hpc : pc.bind Pc.token = s.token (.inr g)) : (t.goto g pc).Windows :=
  h.goto (n := s.n) rfl rfl rfl rfl ht hthreads g pc (.inl hpc)

/-- `windowClosed` is done with a window that is no longer its own. -/
theorem Windows.drop (h : s.Windows) {g : ℕ} {key : Key} {gen : ℕ}
    (hg : s.token (.inr g) = some (key, gen))
    (hgone : ∀ p, s.n.pending.lookup key = some p → p.gen ≠ gen) : (s.goto g none).Windows := by
  refine h.goto (n := s.n) rfl rfl rfl rfl rfl rfl g none (.inr ⟨rfl, fun k p hp he => ?_⟩)
  rw [hg, Option.some.injEq, Prod.mk.injEq] at he
  obtain ⟨rfl, rfl⟩ := he
  exact hgone p hp rfl

theorem Windows.gone (h : s.Windows) {g : ℕ} {key : Key} {gen : ℕ}
    (hg : s.token (.inr g) = some (key, gen)) (hp : s.n.pending.lookup key = none) :
    (s.goto g none).Windows :=
  h.drop hg fun _ hp' => nomatch hp.symm.trans hp'

theorem Windows.stale (h : s.Windows) {g : ℕ} {key : Key} {gen : ℕ} {p : PendingChange}
    (hg : s.token (.inr g) = some (key, gen)) (hp : s.n.pending.lookup key = some p)
    (hne : p.gen ≠ gen) : (s.goto g none).Windows :=
  h.drop hg fun _ hq => Option.some.inj (hp.symm.trans hq) ▸ hne

theorem Windows.close (h : s.Windows) {g : ℕ} {key : Key} {gen : ℕ}
    (hg : s.token (.inr g) = some (key, gen)) :
    ({ s with n := s.n.retirePendingLocked key }.goto g none).Windows := by
  have hpending : ∀ k q, (s.n.pending.erase key).lookup k = some q →
      k ≠ key ∧ s.n.pending.lookup k = some q := fun _ _ => lookup_of_erase
  have hshrink : Windows { s with n := s.n.retirePendingLocked key } :=
    h.shrink rfl rfl (fun k q hq => (hpending k q hq).2) (fun _ _ => id) fun _ _ _ _ ht _ _ => ht
  refine hshrink.drop hg fun q hq => ?_
  exact absurd rfl (hpending key q hq).1

theorem Windows.update (h : s.Windows) {key : Key} {p : PendingChange}
    (hp : s.n.pending.lookup key = some p) (apply : Option Change) (stamp : ℕ) :
    Windows { s with n := { s.n with
      pending := s.n.pending.insert key { p with apply := apply, stamp := stamp } } } := by
  have hpending : ∀ k q, (s.n.pending.insert key { p with apply := apply, stamp := stamp }).lookup k =
      some q → ∃ q', s.n.pending.lookup k = some q' ∧ q'.gen = q.gen ∧ q'.timer = q.timer := by
    intro k q hq
    by_cases hk : k = key
    · subst hk
      rw [AList.lookup_insert] at hq
      cases hq
      exact ⟨p, hp, rfl, rfl⟩
    · rw [AList.lookup_insert_ne hk] at hq
      exact ⟨q, hq, rfl, rfl⟩
  refine ⟨h.unique, fun k q hq => ?_, h.fresh, fun k q id t hq hid ht => ?_, h.ids,
    fun k q id hq hid => ?_⟩
  · obtain ⟨q', hq', hgen, -⟩ := hpending k q hq
    rw [← hgen]
    exact h.entry k q' hq'
  · obtain ⟨q', hq', hgen, htimer⟩ := hpending k q hq
    rw [← hgen]
    exact h.timer k q' id t hq' (htimer.trans hid) ht
  · obtain ⟨q', hq', -, htimer⟩ := hpending k q hq
    exact h.entryIds k q' id hq' (htimer.trans hid)

/-- **Every step keeps the windows.** -/
theorem step_windows [DecidableEq δ] (sha256 : List UInt8 → δ) {t : System δ} {l : Label}
    (hw : s.Windows) (h : step sha256 s l = some t) : t.Windows := by
  cases l with
  | call g c =>
    simp only [step] at h
    split at h
    · cases h
    · next hg =>
      cases h
      refine hw.keep (by rfl) (by rfl) g _ ?_
      rw [show s.token (.inr g) = none by simp [token, AList.lookup_eq_none.2 hg]]
      cases c with
      | plain | stopTimers => rfl
      | raiseWindowed | resolveWindowed =>
        simp only [Call.entry]
        split <;> rfl
  | fire id g =>
    simp only [step] at h
    split at h
    · cases h
    · next t' ht =>
      split at h
      · cases h
      · next hg =>
        cases h
        exact hw.fire ht fun hm => hg (.inl hm)
  | tick now =>
    simp only [step] at h
    split at h
    · cases h
      exact ⟨hw.unique, hw.entry, hw.fresh, hw.timer, hw.ids, hw.entryIds⟩
    · cases h
  | run g =>
    simp only [step] at h
    split at h
    · cases h
    · next pc hg =>
      have htok := token_of_lookup hg
      cases pc with
      | commit op stamp k =>
        simp only [advance, commit] at h
        split at h
        · have hc := hw.commit sha256 s.now op
          split at h
          · cases h
            refine hc.keep (by rfl) (by rfl) g _ ?_
            rw [After.resume_token]
            exact htok.symm
          · cases h
            exact hc.keep (by rfl) (by rfl) g _ (by exact htok.symm)
        · cases h
      | publish snap heard k =>
        simp only [advance] at h
        split at h
        · cases h
          refine hw.keep (by rfl) (by rfl) g _ ?_
          rw [After.resume_token, htok]
          rfl
        · cases h
          exact hw.keep (by rfl) (by rfl) g _ (by exact htok.symm)
      | sound it k =>
        cases h
        refine hw.keep (by rfl) (by rfl) g _ ?_
        rw [After.resume_token, htok]
        rfl
      | stop =>
        cases h
        exact hw.stopTimers.keep (by rfl) (by rfl) g none htok.symm
      | coalesce key window c stamp =>
        cases h
        unfold System.coalesce
        split
        · exact hw.keep (by rfl) (by rfl) g _ (by exact (Change.op_token key c stamp).trans htok.symm)
        · split
          · next p hp => exact (hw.update hp (some c) stamp).keep (by rfl) (by rfl) g none htok.symm
          · exact hw.keep (by rfl) (by rfl) g _ (by exact htok.symm)
      | arm key window gen =>
        cases h
        unfold System.arm
        split
        · exact hw.keep (by rfl) (by rfl) g none htok.symm
        · next hkey =>
          split
          · exact hw.keep (by rfl) (by rfl) g none htok.symm
          · exact (hw.arm (AList.lookup_eq_none.2 hkey) window).keep (by rfl) (by rfl) g none htok.symm
      | close key gen =>
        cases h
        unfold System.close
        split
        · next hp => exact hw.gone htok hp
        · next p hp =>
          split
          · next hne => exact hw.stale htok hp hne
          · next he =>
            have he : p.gen = gen := not_not.1 he
            subst he
            split
            · exact hw.close htok
            · exact (hw.update hp none p.stamp).keep (by rfl) (by rfl) g _ (by exact htok.symm)
      | rearm key gen window changed =>
        cases h
        unfold System.rearm
        split
        · next hp => exact hw.gone htok hp
        · next p hp =>
          split
          · next hne => exact hw.stale htok hp hne
          · next he =>
            have he : p.gen = gen := not_not.1 he
            subst he
            split
            · exact hw.close htok
            · split
              · exact hw.close htok
              · exact hw.rearm hp htok window

end System

end VcsClient.Notify
