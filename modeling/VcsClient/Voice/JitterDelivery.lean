import VcsClient.Voice.JitterWindow
import Mathlib.Logic.Function.Basic

/-!
# What the jitter buffer delivers

A `Ledger` is what the buffer is for, without its schedule: frames accepted
and neither evicted nor handed out, each with the number of the push that
brought it, the slot playout started at and how many slots were handed out.
`Ledger.Step` says which events are right: slots come one after the other from
the oldest frame at priming, each with the live frame of that slot or conceded
for want of one while a later frame waits.

`delivery_ledger`: the history of every run of `push` and `pop` is a run of
the ledger, and no accepted frame is handed out twice.
-/

namespace VcsClient.Voice

open VcsClient.Lib

variable {α : Type}

/-- What can be seen of a jitter buffer. -/
inductive JitterEvent (α : Type) where
  | accepted (seq : UInt32) (payload : α)
  | evicted (seq : UInt32)
  | primed (seq : UInt32)
  | handed (payload : Option α) (lost : Bool)

structure Ledger (α : Type) where
  /-- The live frame of a sequence, with the number of the accepted push. -/
  live : UInt32 → Option (ℕ × α)
  accepted : ℕ
  start : Option UInt32
  handed : ℕ
  /-- The numbers of the pushes whose frames were handed out. -/
  played : List ℕ

namespace Ledger

def empty : Ledger α := ⟨fun _ => none, 0, none, 0, []⟩

/-- The `k`-th slot from `n₀`. -/
def slot (n₀ : UInt32) (k : ℕ) : UInt32 := (n₀ + UInt32.ofNat k) &&& wireMask24

/-- `seq` is live and no live sequence comes before it. -/
def Oldest (led : Ledger α) (seq : UInt32) : Prop :=
  led.live seq ≠ none ∧ ∀ s, led.live s ≠ none → 0 ≤ seqDiff s seq

inductive Step : Ledger α → JitterEvent α → Ledger α → Prop where
  | accept {led : Ledger α} {seq : UInt32} {payload : α} (hfree : led.live seq = none)
      (hslot : ∀ n₀, led.start = some n₀ → 0 ≤ seqDiff seq (slot n₀ led.handed)) :
      Step led (.accepted seq payload)
        { led with live := Function.update led.live seq (some (led.accepted, payload))
                   accepted := led.accepted + 1 }
  | evict {led : Ledger α} {seq : UInt32} (hold : led.Oldest seq) :
      Step led (.evicted seq) { led with live := Function.update led.live seq none }
  | prime {led : Ledger α} {n₀ : UInt32} (hstart : led.start = none) (hold : led.Oldest n₀) :
      Step led (.primed n₀) { led with start := some n₀ }
  | play {led : Ledger α} {n₀ : UInt32} {i : ℕ} {payload : α} (hstart : led.start = some n₀)
      (hlive : led.live (slot n₀ led.handed) = some (i, payload)) :
      Step led (.handed (some payload) false)
        { led with live := Function.update led.live (slot n₀ led.handed) none
                   handed := led.handed + 1
                   played := i :: led.played }
  | concede {led : Ledger α} {n₀ s : UInt32} (hstart : led.start = some n₀)
      (hnone : led.live (slot n₀ led.handed) = none) (hs : led.live s ≠ none)
      (hlater : 0 < seqDiff s (slot n₀ led.handed)) :
      Step led (.handed none true) { led with handed := led.handed + 1 }

inductive Run : Ledger α → List (JitterEvent α) → Ledger α → Prop where
  | nil (led : Ledger α) : Run led [] led
  | cons {led led₁ led₂ : Ledger α} {e : JitterEvent α} {es : List (JitterEvent α)}
      (hs : Step led e led₁)
      (hr : Run led₁ es led₂) : Run led (e :: es) led₂

theorem Run.append {led led₁ led₂ : Ledger α} {es es' : List (JitterEvent α)} (h : Run led es led₁)
    (h' : Run led₁ es' led₂) : Run led (es ++ es') led₂ := by
  induction h with
  | nil => exact h'
  | cons hs _ ih => exact .cons hs (ih h')

/-- The numbers of the live frames are apart from each other and from those
already handed out. -/
structure Wf (led : Ledger α) : Prop where
  fresh : ∀ s i p, led.live s = some (i, p) → i < led.accepted ∧ i ∉ led.played
  distinct : ∀ s s' i p p', led.live s = some (i, p) → led.live s' = some (i, p') → s = s'
  played_lt : ∀ i ∈ led.played, i < led.accepted
  nodup : led.played.Nodup
  unstarted : led.start = none → led.handed = 0

theorem Wf.empty : (empty : Ledger α).Wf :=
  ⟨by simp [Ledger.empty], by simp [Ledger.empty], by simp [Ledger.empty], by simp [Ledger.empty],
    fun _ => rfl⟩

theorem update_none_eq_some {live : UInt32 → Option (ℕ × α)} {seq s : UInt32} {x : ℕ × α}
    (h : Function.update live seq none s = some x) : s ≠ seq ∧ live s = some x := by
  by_cases he : s = seq
  · subst he
    simp at h
  · exact ⟨he, by rwa [Function.update_of_ne he] at h⟩

theorem Wf.step {led led' : Ledger α} {e : JitterEvent α} (h : led.Wf) (hs : Step led e led') :
    led'.Wf := by
  cases hs with
  | @accept seq payload _ _ =>
    have hcase : ∀ s i p,
        Function.update led.live seq (some (led.accepted, payload)) s = some (i, p) →
        s = seq ∧ i = led.accepted ∨ s ≠ seq ∧ led.live s = some (i, p) := by
      intro s i p hl
      by_cases he : s = seq
      · subst he
        simp only [Function.update_self, Option.some.injEq, Prod.mk.injEq] at hl
        exact .inl ⟨rfl, hl.1.symm⟩
      · exact .inr ⟨he, by rwa [Function.update_of_ne he] at hl⟩
    refine ⟨fun s i p hl => ?_, fun s s' i p p' hl hl' => ?_, fun i hi => ?_, h.nodup, h.unstarted⟩
    · rcases hcase s i p hl with ⟨-, rfl⟩ | ⟨-, h₁⟩
      · exact ⟨Nat.lt_succ_self _, fun hc => absurd (h.played_lt _ hc) (Nat.lt_irrefl _)⟩
      · exact ⟨(h.fresh s i p h₁).1.trans (Nat.lt_succ_self _), (h.fresh s i p h₁).2⟩
    · rcases hcase s i p hl with ⟨hs, hi⟩ | ⟨-, h₁⟩ <;>
        rcases hcase s' i p' hl' with ⟨hs', hi'⟩ | ⟨-, h₂⟩
      · exact hs.trans hs'.symm
      · exact absurd (h.fresh s' i p' h₂).1 (by omega)
      · exact absurd (h.fresh s i p h₁).1 (by omega)
      · exact h.distinct s s' i p p' h₁ h₂
    · exact (h.played_lt i hi).trans (Nat.lt_succ_self _)
  | evict _ =>
    refine ⟨fun s i p hl => h.fresh s i p (update_none_eq_some hl).2,
      fun s s' i p p' hl hl' => ?_, h.played_lt, h.nodup, h.unstarted⟩
    exact h.distinct s s' i p p' (update_none_eq_some hl).2 (update_none_eq_some hl').2
  | prime _ _ => exact ⟨h.fresh, h.distinct, h.played_lt, h.nodup, by simp⟩
  | @play n₀ i payload hstart hlive =>
    have hi := h.fresh _ _ _ hlive
    refine ⟨fun s k p hl => ?_, fun s s' k p p' hl hl' => ?_, fun k hk => ?_,
      List.nodup_cons.2 ⟨hi.2, h.nodup⟩, by simp [hstart]⟩
    · obtain ⟨hne, h₁⟩ := update_none_eq_some hl
      refine ⟨(h.fresh s k p h₁).1, fun hc => ?_⟩
      rcases List.mem_cons.1 hc with rfl | hc
      · exact hne (h.distinct _ _ _ _ _ h₁ hlive)
      · exact (h.fresh s k p h₁).2 hc
    · exact h.distinct s s' k p p' (update_none_eq_some hl).2 (update_none_eq_some hl').2
    · rcases List.mem_cons.1 hk with rfl | hk
      · exact hi.1
      · exact h.played_lt k hk
  | concede hstart _ _ _ => exact ⟨h.fresh, h.distinct, h.played_lt, h.nodup, by simp [hstart]⟩

theorem Wf.run {led led' : Ledger α} {es : List (JitterEvent α)} (h : led.Wf)
    (hr : Run led es led') :
    led'.Wf := by
  induction hr with
  | nil => exact h
  | cons hs _ ih => exact ih (h.step hs)

theorem toNat_slot (n₀ : UInt32) (k : ℕ) : (slot n₀ k).toNat = (n₀.toNat + k) % 2 ^ 24 := by
  rw [slot, toNat_mask24, UInt32.toNat_add, UInt32.toNat_ofNat']
  omega

theorem slot_zero {n₀ : UInt32} (h : n₀.toNat < 2 ^ 24) : slot n₀ 0 = n₀ := by
  apply UInt32.toNat_inj.1
  rw [toNat_slot]
  omega

theorem slot_succ (n₀ : UInt32) (k : ℕ) : (slot n₀ k + 1) &&& wireMask24 = slot n₀ (k + 1) := by
  apply UInt32.toNat_inj.1
  rw [toNat_mask24, UInt32.toNat_add, toNat_slot, toNat_slot]
  simp only [UInt32.toNat_one]
  omega

end Ledger

/-- What a result of `pop` shows. -/
def PopResult.events (r : PopResult α) : List (JitterEvent α) :=
  if r.ok then [.handed r.payload r.lost] else []

namespace Jitter

/-- What priming shows: the slot playout starts at. -/
def primeEvents (o : IterOrder UInt32) (j : Jitter α) (now : ℤ) : List (JitterEvent α) :=
  match j.prime o now with
  | none => []
  | some j' => if j.primed then [] else [.primed j'.nextExpected]

/-- What an operation shows; the frames a push evicts are those no longer
buffered after it. -/
def events (j : Jitter α) : JitterOp α → List (JitterEvent α)
  | .push it seq payload now =>
    let r := j.push it seq payload now
    let seq := seq &&& wireMask24
    if r.1 then
      .accepted seq payload :: ((seq :: j.frames.keys).filter (· ∉ r.2.frames)).map .evicted
    else []
  | .pop o now => j.primeEvents o now ++ (j.pop o now).1.events
  | .reset => []

def history : Jitter α → List (JitterOp α) → List (JitterEvent α)
  | _, [] => []
  | j, op :: ops => j.events op ++
    match j.step op with
    | none => []
    | some j' => history j' ops

end Jitter

/-- Push and pop only, and before priming only sequences within `2 ^ 23` of
each other: the buffered ones and the pushed one lie in one such window. -/
def Near (j : Jitter α) : JitterOp α → Prop
  | .push _ seq _ _ =>
    j.primed = false → ∃ base, j.Fits (2 ^ 23) base ∧ fwd base (seq &&& wireMask24) < 2 ^ 23
  | .pop _ _ => True
  | .reset => False

/-! ## The ledger of a buffer -/

/-- The ledger agrees with the buffer. -/
structure Agrees (led : Ledger α) (j : Jitter α) : Prop where
  live : ∀ s, (led.live s).map (·.2) = (j.frames.lookup s).map (·.payload)
  primed : j.primed = led.start.isSome
  slot : ∀ n₀, led.start = some n₀ → j.nextExpected = Ledger.slot n₀ led.handed

section Agree

variable {led : Ledger α} {j j' : Jitter α} {o : IterOrder UInt32} {s seq oldest : UInt32}
  {payload : α} {now : ℤ}

theorem Agrees.live_iff (h : Agrees led j) : led.live s ≠ none ↔ s ∈ j.frames := by
  have := congrArg Option.isSome (h.live s)
  simp only [Option.isSome_map] at this
  rw [← Option.isSome_iff_ne_none, this, AList.lookup_isSome]

theorem Agrees.oldestSeqLocked {base : ℤ} (h : Agrees led j) (hfit : j.Fits (2 ^ 23) base)
    (ho : j.oldestSeqLocked o = some oldest) : led.Oldest oldest := by
  have hm := Jitter.oldestSeqLocked_mem ho
  refine ⟨h.live_iff.2 hm, fun s hs => ?_⟩
  have hs := h.live_iff.1 hs
  have hle := hfit.oldest_le le_rfl ho s hs
  have h₁ := hfit s hs
  have h₂ := hfit oldest hm
  simp only [fwd] at h₁ h₂ hle
  rw [seqDiff_eq, sdiff_eq_sub (c := base) (by omega) (by omega)]
  omega

theorem Agrees.store (h : Agrees led j) :
    Agrees { led with live := Function.update led.live seq (some (led.accepted, payload))
                      accepted := led.accepted + 1 } (j.store seq payload now) := by
  refine ⟨fun s => ?_, h.primed, h.slot⟩
  by_cases he : s = seq
  · subst he
    simp [Jitter.store]
  · simp [Jitter.store, Function.update_of_ne he, AList.lookup_insert_ne he, h.live s]

theorem Agrees.drop (h : Agrees led j) :
    Agrees { led with live := Function.update led.live seq none } (j.drop seq) := by
  refine ⟨fun s => ?_, h.primed, h.slot⟩
  by_cases he : s = seq
  · subst he
    simp
  · simp [Function.update_of_ne he, AList.lookup_erase_ne he, h.live s]

theorem Agrees.advance (h : Agrees led j) (played : List ℕ) :
    Agrees { led with handed := led.handed + 1, played := played } j.advanceLocked := by
  refine ⟨h.live, h.primed, fun n hn => ?_⟩
  show (j.nextExpected + 1) &&& wireMask24 = _
  rw [h.slot n hn, Ledger.slot_succ]

theorem filter_not_mem_drop (hm : seq ∉ j.frames)
    (ho : (j.store seq payload now).oldestSeqLocked o = some oldest) :
    (seq :: j.frames.keys).filter (· ∉ ((j.store seq payload now).drop oldest).frames) =
      [oldest] := by
  have hnd : (seq :: j.frames.keys).Nodup :=
    List.nodup_cons.2 ⟨fun hc => hm (AList.mem_keys.1 hc), j.frames.nodupKeys⟩
  have hin : oldest ∈ seq :: j.frames.keys := by
    rcases Jitter.mem_store.1 (Jitter.oldestSeqLocked_mem ho) with rfl | h
    · exact List.mem_cons_self
    · exact List.mem_cons_of_mem _ (AList.mem_keys.2 h)
  have hcongr : ∀ s ∈ seq :: j.frames.keys,
      decide (s ∉ ((j.store seq payload now).drop oldest).frames) = (s == oldest) := by
    intro s hs
    have : s ∈ (j.store seq payload now).frames := by
      rcases List.mem_cons.1 hs with rfl | hs
      · exact Jitter.mem_store.2 (.inl rfl)
      · exact Jitter.mem_store.2 (.inr (AList.mem_keys.1 hs))
    simp [this, beq_eq_decide]
  rw [List.filter_congr hcongr, List.filter_beq, List.count_eq_one_of_mem hnd hin]
  rfl

theorem filter_not_mem_store :
    (seq :: j.frames.keys).filter (· ∉ (j.store seq payload now).frames) = [] := by
  refine List.filter_eq_nil_iff.2 fun s hs => ?_
  have : s ∈ (j.store seq payload now).frames := by
    rcases List.mem_cons.1 hs with rfl | hs
    · exact Jitter.mem_store.2 (.inl rfl)
    · exact Jitter.mem_store.2 (.inr (AList.mem_keys.1 hs))
  simp [this]

/-! ## Every operation is a step of the ledger -/

theorem not_seqLess_of_inRange {it : ℕ → IterOrder UInt32} (hpr : j.primed = true)
    (hr : j.outOfRange (it 0) seq = false) : 0 ≤ seqDiff seq j.nextExpected := by
  simp only [Jitter.outOfRange, hpr, if_true, Bool.or_eq_false_iff] at hr
  simpa [seqLess] using hr.1

theorem exists_fits_store {it : ℕ → IterOrder UInt32} (hsound : j.Sound (2 ^ 23))
    (hok : Near j (.push it seq payload now))
    (hr : j.outOfRange (it 0) (seq &&& wireMask24) = false) :
    ∃ base, (j.store (seq &&& wireMask24) payload now).Fits (2 ^ 23) base := by
  obtain ⟨base, hfit, hseq⟩ :
      ∃ base, j.Fits (2 ^ 23) base ∧ fwd base (seq &&& wireMask24) < 2 ^ 23 := by
    cases hpr : j.primed with
    | false => exact hok hpr
    | true => exact ⟨_, hsound.primed hpr, fwd_lt_of_seqDiff (not_seqLess_of_inRange hpr hr)⟩
  exact ⟨base, hfit.store hseq⟩

theorem simulate_push {it : ℕ → IterOrder UInt32} (h : Agrees led j) (hsound : j.Sound (2 ^ 23))
    (hok : Near j (.push it seq payload now)) :
    ∃ led', Ledger.Run led (j.events (.push it seq payload now)) led' ∧
      Agrees led' (j.push it seq payload now).2 := by
  rcases Jitter.push_cases it seq payload now hsound.depth_le with he | ⟨hr, hm, hcase⟩
  · rw [Jitter.events, he]
    exact ⟨led, .nil led, h⟩
  have hfree : led.live (seq &&& wireMask24) = none := by
    by_contra hc
    exact hm (h.live_iff.1 hc)
  have hslot : ∀ n₀, led.start = some n₀ →
      0 ≤ seqDiff (seq &&& wireMask24) (Ledger.slot n₀ led.handed) := by
    intro n₀ hn
    rw [← h.slot n₀ hn]
    exact not_seqLess_of_inRange (by rw [h.primed, hn]; rfl) hr
  have haccept : Ledger.Step led (.accepted (seq &&& wireMask24) payload) _ :=
    .accept hfree hslot
  rcases hcase with ⟨-, he⟩ | ⟨-, o, oldest, ho, he⟩
  · simp only [Jitter.events, he, if_true, filter_not_mem_store, List.map_nil]
    exact ⟨_, .cons haccept (.nil _), h.store⟩
  · simp only [Jitter.events, he, if_true, filter_not_mem_drop hm ho, List.map_cons, List.map_nil]
    obtain ⟨base, hfit⟩ := exists_fits_store hsound hok hr
    have hevict := Ledger.Step.evict (h.store.oldestSeqLocked hfit ho)
    exact ⟨_, .cons haccept (.cons hevict (.nil _)), h.store.drop⟩

theorem simulate_prime (h : Agrees led j) (hwf : led.Wf) (hsound : j.Sound (2 ^ 23))
    (hp : j.prime o now = some j') :
    ∃ led', Ledger.Run led (j.primeEvents o now) led' ∧ Agrees led' j' := by
  rw [Jitter.primeEvents, hp]
  rcases Jitter.prime_cases hp with ⟨hpr, rfl⟩ | ⟨hpr, -, -, seq, ho, rfl⟩
  · simp only [hpr, if_true]
    exact ⟨led, .nil led, h⟩
  · have hstart : led.start = none := by
      have := h.primed
      rw [hpr] at this
      simpa using this
    obtain ⟨base, hfit⟩ := hsound.unprimed hpr
    have hseq := hsound.key_lt seq (Jitter.oldestSeqLocked_mem ho)
    simp only [hpr, Bool.false_eq_true, if_false]
    refine ⟨_, .cons (.prime hstart (h.oldestSeqLocked hfit ho)) (.nil _), h.live, rfl,
      fun n₀ hn => ?_⟩
    cases hn
    rw [hwf.unstarted hstart, Ledger.slot_zero hseq]

theorem simulate_popNext (now : ℤ) (h : Agrees led j) (hsound : j.Sound (2 ^ 23))
    (hpr : j.primed = true)
    (hd : j.depth ≠ 0) :
    ∃ led', Ledger.Run led (j.popNext now).1.events led' ∧ Agrees led' (j.popNext now).2 := by
  obtain ⟨n₀, hstart⟩ := Option.isSome_iff_exists.1 (h.primed ▸ hpr)
  have hslot := h.slot n₀ hstart
  rcases Jitter.popNext_cases j now with ⟨frame, hl, he⟩ | ⟨-, -, he⟩ | ⟨hm, -, he⟩
  · rw [he]
    have hlive := h.live (Ledger.slot n₀ led.handed)
    rw [← hslot, hl] at hlive
    obtain ⟨⟨i, p⟩, hi, hp⟩ := Option.map_eq_some_iff.1 hlive
    cases hp
    refine ⟨_, .cons (.play (i := i) hstart (hslot ▸ hi)) (.nil _), ?_⟩
    rw [← hslot]
    exact h.drop.advance _
  · rw [he]
    exact ⟨led, .nil led, h⟩
  · rw [he]
    have hnone : led.live (Ledger.slot n₀ led.handed) = none := by
      by_contra hc
      exact hm (hslot ▸ h.live_iff.1 hc)
    obtain ⟨s, hs⟩ := List.exists_mem_of_length_pos (Nat.pos_of_ne_zero hd)
    have hs : s ∈ j.frames := AList.mem_keys.1 hs
    have hlt := hsound.primed hpr s hs
    have hpos := fwd_pos hsound.next_lt (hsound.key_lt s hs) (fun e => hm (e ▸ hs))
    refine ⟨_, .cons (.concede hstart hnone (h.live_iff.2 hs) ?_) (.nil _), h.advance led.played⟩
    rw [← hslot, seqDiff_eq_fwd hlt]
    exact hpos

theorem simulate_pop (h : Agrees led j) (hwf : led.Wf) (hsound : j.Sound (2 ^ 23)) :
    ∃ led', Ledger.Run led (j.events (.pop o now)) led' ∧ Agrees led' (j.pop o now).2 := by
  simp only [Jitter.events]
  unfold Jitter.pop
  cases hp : j.prime o now with
  | none =>
    simp only [Jitter.primeEvents, hp]
    exact ⟨led, .nil led, h⟩
  | some j' =>
    obtain ⟨led', hrun, h'⟩ := simulate_prime h hwf hsound hp
    obtain ⟨hsound', hpr⟩ := hsound.prime le_rfl hp
    simp only
    by_cases hd : j'.depth = 0
    · rw [if_pos hd]
      exact ⟨led', hrun.append (.nil _), h'.live, h'.primed, h'.slot⟩
    · rw [if_neg hd]
      split
      · have h'' : Agrees led' (j'.resyncLocked now) := ⟨h'.live, h'.primed, h'.slot⟩
        obtain ⟨led'', hrun', hagree⟩ := simulate_popNext now h'' hsound'.resync hpr hd
        exact ⟨led'', hrun.append hrun', hagree⟩
      · obtain ⟨led'', hrun', hagree⟩ := simulate_popNext now h' hsound' hpr hd
        exact ⟨led'', hrun.append hrun', hagree⟩

end Agree

theorem sound_step {j j' : Jitter α} {op : JitterOp α} (h : j.Sound (2 ^ 23)) (hok : Near j op)
    (hs : j.step op = some j') : j'.Sound (2 ^ 23) := by
  cases op with
  | push it seq payload now =>
    cases hs
    refine h.push (fun hpr _ => .inl (hok hpr)) fun hpr hr => ?_
    exact fwd_lt_of_seqDiff (not_seqLess_of_inRange hpr hr)
  | pop o now => cases hs; exact h.pop le_rfl
  | reset => exact absurd hok id

theorem simulate_step {led : Ledger α} {j j' : Jitter α} {op : JitterOp α} (h : Agrees led j)
    (hwf : led.Wf) (hsound : j.Sound (2 ^ 23)) (hok : Near j op) (hs : j.step op = some j') :
    ∃ led', Ledger.Run led (j.events op) led' ∧ Agrees led' j' := by
  cases op with
  | push it seq payload now => cases hs; exact simulate_push h hsound hok
  | pop o now => cases hs; exact simulate_pop h hwf hsound
  | reset => exact absurd hok id

theorem simulate_run {ops : List (JitterOp α)} : ∀ {led : Ledger α} {j t : Jitter α},
    Agrees led j → led.Wf → j.Sound (2 ^ 23) → Meets Jitter.step Near j ops →
    exec Jitter.step j ops = some t →
    ∃ led', Ledger.Run led (j.history ops) led' ∧ Agrees led' t ∧ t.Sound (2 ^ 23) := by
  induction ops with
  | nil =>
    intro led j t h _ hsound _ hrun
    cases hrun
    exact ⟨led, .nil led, h, hsound⟩
  | cons op ops ih =>
    intro led j t h hwf hsound hok hrun
    obtain ⟨j', hs, hrun⟩ := exec_cons.1 hrun
    obtain ⟨led', hevents, h'⟩ := simulate_step h hwf hsound hok.head hs
    obtain ⟨led'', hrest, hend⟩ :=
      ih h' (hwf.run hevents) (sound_step hsound hok.head hs) (hok.tail hs) hrun
    refine ⟨led'', ?_, hend⟩
    rw [Jitter.history, hs]
    exact hevents.append hrest

theorem run_maxFrames {ops : List (JitterOp α)} {j t : Jitter α}
    (h : exec Jitter.step j ops = some t) : t.maxFrames = j.maxFrames := by
  refine exec_invariant (I := fun t => t.maxFrames = j.maxFrames) (fun s op s' hi _ hs => ?_) rfl
    (Meets.trivial Jitter.step j ops) h
  cases op with
  | push it seq payload now => cases hs; rw [Jitter.push_maxFrames, hi]
  | pop o now => cases hs; rw [Jitter.pop_maxFrames, hi]
  | reset => cases hs; exact hi

theorem maxFramesOf_eq {max frameDur : ℤ} (h : 0 < frameDur) :
    (maxFramesOf max frameDur : ℤ) = Max.max 1 (max.tdiv frameDur) := by
  unfold maxFramesOf
  split <;> omega

/-- **Delivery.** The history of a run of pushes and pops is a run of the
ledger, which ends with the frames still buffered, at most `maxFrames` of them;
no accepted push is handed out twice. -/
theorem delivery_ledger (target max frameDur : ℤ) (ops : List (JitterOp α)) (j : Jitter α)
    (hok : Meets Jitter.step Near (newJitter α target max frameDur) ops)
    (hrun : exec Jitter.step (newJitter α target max frameDur) ops = some j) :
    ∃ led, Ledger.Run .empty ((newJitter α target max frameDur).history ops) led ∧
      (∀ s, (led.live s).map (·.2) = (j.frames.lookup s).map (·.payload)) ∧
      led.played.Nodup ∧ j.depth ≤ j.maxFrames ∧
      (0 < frameDur → (j.maxFrames : ℤ) = Max.max 1 (max.tdiv frameDur)) := by
  have hagree : Agrees .empty (newJitter α target max frameDur) :=
    ⟨fun s => rfl, rfl, fun _ hn => by cases hn⟩
  obtain ⟨led, hled, h, hsound⟩ := simulate_run hagree .empty (.new ..) hok hrun
  refine ⟨led, hled, h.live, (Ledger.Wf.empty.run hled).nodup, hsound.depth_le, fun hd => ?_⟩
  rw [run_maxFrames hrun]
  exact maxFramesOf_eq hd

/-- A reordered pair of frames across the wrap, played in order. -/
theorem delivery_ledger_wrap :
    ∃ j led, exec Jitter.step (newJitter ℕ (ms 60) (ms 500) (ms 20))
        [.push (always stored) 0 7 0, .push (always stored) 0xFFFFFF 8 0,
          .pop stored (ms 60), .pop stored (ms 60)] = some j ∧
      Ledger.Run .empty ((newJitter ℕ (ms 60) (ms 500) (ms 20)).history
        [.push (always stored) 0 7 0, .push (always stored) 0xFFFFFF 8 0,
          .pop stored (ms 60), .pop stored (ms 60)]) led ∧
      led.played.Nodup := by
  obtain ⟨led, hled, -, hnodup, -⟩ := delivery_ledger (ms 60) (ms 500) (ms 20)
    [.push (always stored) 0 7 0, .push (always stored) 0xFFFFFF 8 0,
      .pop stored (ms 60), .pop stored (ms 60)] _
    ⟨fun _ => ⟨0, by decide, by decide⟩, fun _ => ⟨0xFFFFFF, by decide, by decide⟩,
      trivial, trivial, trivial⟩ rfl
  exact ⟨_, led, rfl, hled, hnodup⟩

end VcsClient.Voice
