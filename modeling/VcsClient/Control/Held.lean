import VcsClient.Control.Stream
import VcsClient.Lib.Machine

/-!
# Holding an update stream

`Held` of `held.go`: an update stream opened ahead of a snapshot holds what it
receives until `Release`, which replays it and lets the rest through. A step is
one locked section, one routed update or one receipt; `Release` keeps the lock
from its first replayed update to its last.

The updates received and routed are ghosts.
-/

namespace VcsClient.Control

open VcsClient.Lib

inductive Code where
  | ok | canceled | unknown | invalidArgument | deadlineExceeded | notFound | alreadyExists
  | permissionDenied | resourceExhausted | failedPrecondition | aborted | outOfRange
  | unimplemented | internal | unavailable | dataLoss | unauthenticated
  deriving DecidableEq

/-- An error that carries a gRPC status. -/
structure Status where
  code : Code
  message : String
  deriving DecidableEq

def errHeldOverflow : Status where
  code := .resourceExhausted
  message := "update stream fell behind while the snapshot was loading: resubscribe and call SyncClient"

structure Held where
  max : ℕ
  buf : List ServerUpdate
  released : Bool
  deriving DecidableEq

/-- `NewHeld`. -/
def newHeld (max : ℕ) : Held := ⟨max, [], false⟩

/-- What `Consume` decides about an update, or about the end of its stream. -/
inductive Disposal where
  | hold (h : Held)
  | wait (err : Option Status)
  | route
  | stop (err : Option Status)

namespace Held

/-- The section of `Consume` for an update. -/
def receive (h : Held) (upd : ServerUpdate) : Disposal :=
  if h.released then .route
  else if h.buf.length ≥ h.max then .wait (some errHeldOverflow)
  else .hold { h with buf := h.buf ++ [upd] }

/-- The section of `Consume` for the end of the stream. -/
def finish (h : Held) (err : Option Status) : Disposal := if h.released then .stop err else .wait err

theorem receive_released {h : Held} (hr : h.released = true) (upd : ServerUpdate) :
    h.receive upd = .route := if_pos hr

theorem receive_full {h : Held} (hr : h.released = false) (hf : h.max ≤ h.buf.length)
    (upd : ServerUpdate) : h.receive upd = .wait (some errHeldOverflow) := by
  simp [receive, hr, hf]

theorem receive_room {h : Held} (hr : h.released = false) (hf : h.buf.length < h.max)
    (upd : ServerUpdate) : h.receive upd = .hold { h with buf := h.buf ++ [upd] } := by
  simp [receive, hr, Nat.not_le_of_lt hf]

/-- What `Release` leaves. -/
def opened (h : Held) : Held := { h with buf := [], released := true }

end Held

/-- Where the goroutine that runs `Consume` stands. -/
inductive Consumer where
  | reading
  | got (upd : ServerUpdate)
  | ended (err : Option Status)
  | routing (upd : ServerUpdate)
  | waiting (err : Option Status)
  | returned (err : Option Status)
  deriving DecidableEq

structure HeldRun where
  held : Held
  consumer : Consumer
  /-- what a `Release` that holds the lock has still to replay -/
  replaying : Option (List ServerUpdate)
  /-- ghost: the updates received, in order -/
  received : List ServerUpdate
  /-- ghost: the updates routed, in order -/
  routed : List ServerUpdate
  /-- ghost: the update that overflowed the hold -/
  overflow : Option ServerUpdate
  /-- ghost: the context ended the wait for `Release` -/
  cancelled : Bool
  deriving DecidableEq

inductive HeldOp where
  | recv (upd : ServerUpdate)
  | recvEnd (err : Option Status)
  | lock
  | route
  | wake
  | ctxDone (err : Status)
  | release
  | replay
  deriving DecidableEq

namespace HeldRun

def init (max : ℕ) : HeldRun := ⟨newHeld max, .reading, none, [], [], none, false⟩

/-- The locked section of `Consume`. -/
def lock (r : HeldRun) : Option HeldRun :=
  match r.replaying, r.consumer with
  | none, .got upd =>
    match r.held.receive upd with
    | .hold held => some { r with held, consumer := .reading }
    | .wait err => some { r with consumer := .waiting err, overflow := some upd }
    | .route => some { r with consumer := .routing upd }
    | .stop _ => none
  | none, .ended err =>
    match r.held.finish err with
    | .wait err => some { r with consumer := .waiting err }
    | .stop err => some { r with consumer := .returned err }
    | _ => none
  | _, _ => none

def step (r : HeldRun) : HeldOp → Option HeldRun
  | .recv upd =>
    match r.consumer with
    | .reading => some { r with consumer := .got upd, received := r.received ++ [upd] }
    | _ => none
  | .recvEnd err =>
    match r.consumer with
    | .reading => some { r with consumer := .ended err }
    | _ => none
  | .lock => r.lock
  | .route =>
    match r.consumer with
    | .routing upd => some { r with consumer := .reading, routed := r.routed ++ [upd] }
    | _ => none
  | .wake =>
    match r.consumer with
    | .waiting err => if r.held.released then some { r with consumer := .returned err } else none
    | _ => none
  | .ctxDone err =>
    match r.consumer with
    | .waiting _ => some { r with consumer := .returned (some err), cancelled := true }
    | _ => none
  | .release =>
    match r.replaying with
    | some _ => none
    | none => if r.held.released then some r else some { r with replaying := some r.held.buf }
  | .replay =>
    match r.replaying with
    | none => none
    | some [] => some { r with held := r.held.opened, replaying := none }
    | some (upd :: rest) => some { r with replaying := some rest, routed := r.routed ++ [upd] }

/-- The update in the hands of `Consume`. -/
def inHand (r : HeldRun) : List ServerUpdate :=
  match r.consumer with
  | .got upd | .routing upd => [upd]
  | _ => []

/-- What was received and is still to be routed. -/
def pending (r : HeldRun) : List ServerUpdate := r.replaying.getD r.held.buf ++ r.inHand

/-- `Release` was called. -/
def Begun (r : HeldRun) : Prop := r.replaying.isSome = true ∨ r.held.released = true

/-- The stream ended with `ErrHeldOverflow`, unless its context ended first. -/
def Overflowed (r : HeldRun) : Prop :=
  r.consumer = .waiting (some errHeldOverflow) ∨ r.consumer = .returned (some errHeldOverflow) ∨
    r.cancelled = true ∧ ∃ err, r.consumer = .returned (some err)

/-- Every update received is routed or waits its turn, in order; only the one
that overflowed is dropped. -/
structure Inv (r : HeldRun) : Prop where
  quiet : ¬r.Begun → r.routed = []
  order : r.routed ++ r.pending ++ r.overflow.toList = r.received
  drained : r.held.released = true → r.held.buf = [] ∧ r.replaying = none
  direct : ∀ upd, r.consumer = .routing upd → r.held.released = true
  overflowed : r.overflow.isSome = true → r.Overflowed

theorem init_inv (max : ℕ) : (init max).Inv where
  quiet _ := rfl
  order := rfl
  drained h := by cases h
  direct _ h := by cases h
  overflowed h := by cases h

variable {r r' : HeldRun}

theorem Inv.kept (h : r.Inv) (hc : ¬r.Overflowed) : r.overflow = none := by
  cases ho : r.overflow with
  | none => rfl
  | some upd => exact absurd (h.overflowed (by simp [ho])) hc

theorem recv_inv (h : r.Inv) {upd : ServerUpdate} (hs : r.step (.recv upd) = some r') : r'.Inv := by
  simp only [step] at hs
  split at hs
  · next hc =>
    cases hs
    have hnone := h.kept (by simp [Overflowed, hc])
    have horder := h.order
    simp only [hnone, Option.toList_none, List.append_nil, pending, inHand, hc] at horder
    refine ⟨h.quiet, ?_, h.drained, fun upd hu => (by cases hu), fun ho => ?_⟩
    · simp only [hnone, pending, inHand, Option.toList_none, List.append_nil, ← horder,
        List.append_assoc]
    · rw [hnone] at ho
      cases ho
  · cases hs

theorem recvEnd_inv (h : r.Inv) {err : Option Status} (hs : r.step (.recvEnd err) = some r') :
    r'.Inv := by
  simp only [step] at hs
  split at hs
  · next hc =>
    cases hs
    have hnone := h.kept (by simp [Overflowed, hc])
    have horder := h.order
    simp only [pending, inHand, hc] at horder
    refine ⟨h.quiet, ?_, h.drained, fun upd hu => (by cases hu), fun ho => ?_⟩
    · simpa only [pending, inHand] using horder
    · rw [hnone] at ho
      cases ho
  · cases hs

theorem lock_inv (h : r.Inv) (hs : r.lock = some r') : r'.Inv := by
  have horder := h.order
  unfold lock at hs
  split at hs
  · next upd hreplaying hc =>
    have hnone := h.kept (by simp [Overflowed, hc])
    simp only [hnone, Option.toList_none, List.append_nil, pending, inHand, hc, hreplaying,
      Option.getD_none] at horder
    cases hrel : r.held.released with
    | true =>
      -- the update goes straight to the store
      simp only [Held.receive_released hrel] at hs
      cases hs
      refine ⟨h.quiet, ?_, h.drained, fun _ _ => hrel, fun ho => ?_⟩
      · simpa only [hnone, pending, inHand, hreplaying, Option.getD_none, Option.toList_none,
          List.append_nil] using horder
      · rw [hnone] at ho
        cases ho
    | false =>
      have hbegun : ¬r.Begun := by simp [Begun, hreplaying, hrel]
      by_cases hfull : r.held.max ≤ r.held.buf.length
      · simp only [Held.receive_full hrel hfull] at hs
        cases hs
        refine ⟨fun _ => h.quiet hbegun, ?_, h.drained, fun upd hu => (by cases hu),
          fun _ => .inl rfl⟩
        simpa only [pending, inHand, hreplaying, Option.getD_none, Option.toList_some,
          List.append_nil, List.append_assoc] using horder
      · simp only [Held.receive_room hrel (Nat.lt_of_not_le hfull)] at hs
        cases hs
        refine ⟨fun _ => h.quiet hbegun, ?_, fun hr => ?_, fun upd hu => (by cases hu),
          fun ho => ?_⟩
        · simpa only [hnone, pending, inHand, hreplaying, Option.getD_none, Option.toList_none,
            List.append_nil] using horder
        · rw [hrel] at hr
          cases hr
        · rw [hnone] at ho
          cases ho
  · next err hreplaying hc =>
    have hnone := h.kept (by simp [Overflowed, hc])
    simp only [pending, inHand, hc] at horder
    have hrest : ∀ c : Consumer, HeldRun.inHand { r with consumer := c } = [] →
        (∀ upd, c ≠ .routing upd) → HeldRun.Inv { r with consumer := c } := by
      intro c hin hne
      refine ⟨h.quiet, ?_, h.drained, fun upd hu => absurd hu (hne upd), fun ho => ?_⟩
      · simpa only [pending, hin] using horder
      · rw [hnone] at ho
        cases ho
    unfold Held.finish at hs
    split at hs
    · next hd =>
      cases hs
      exact hrest _ rfl fun upd hu => by cases hu
    · next hd =>
      cases hs
      exact hrest _ rfl fun upd hu => by cases hu
    · cases hs
  · cases hs

theorem step_inv (h : r.Inv) {op : HeldOp} (hs : r.step op = some r') : r'.Inv := by
  have horder := h.order
  cases op with
  | recv upd => exact recv_inv h hs
  | recvEnd err => exact recvEnd_inv h hs
  | lock => exact lock_inv h hs
  | route =>
    simp only [step] at hs
    split at hs
    · next upd hc =>
      cases hs
      have hnone := h.kept (by simp [Overflowed, hc])
      obtain ⟨hbuf, hreplaying⟩ := h.drained (h.direct upd hc)
      simp only [hnone, Option.toList_none, List.append_nil, pending, inHand, hc, hreplaying,
        Option.getD_none, hbuf, List.nil_append] at horder
      refine ⟨fun hb => absurd (.inr (h.direct upd hc)) hb, ?_, h.drained, fun u hu => (by cases hu),
        fun ho => ?_⟩
      · simpa only [hnone, pending, inHand, hreplaying, Option.getD_none, hbuf, List.nil_append,
          Option.toList_none, List.append_nil] using horder
      · rw [hnone] at ho
        cases ho
    · cases hs
  | wake =>
    simp only [step] at hs
    split at hs
    · next err hc =>
      split at hs
      · cases hs
        simp only [pending, inHand, hc] at horder
        refine ⟨h.quiet, ?_, h.drained, fun u hu => (by cases hu), fun ho => ?_⟩
        · simpa only [pending, inHand] using horder
        · rcases h.overflowed ho with hw | hw | ⟨-, e, hw⟩
          · rw [hc] at hw
            cases hw
            exact .inr (.inl rfl)
          · rw [hc] at hw
            cases hw
          · rw [hc] at hw
            cases hw
      · cases hs
    · cases hs
  | ctxDone err =>
    simp only [step] at hs
    split at hs
    · next err' hc =>
      cases hs
      simp only [pending, inHand, hc] at horder
      refine ⟨h.quiet, ?_, h.drained, fun u hu => (by cases hu), fun _ => .inr (.inr ⟨rfl, err, rfl⟩)⟩
      simpa only [pending, inHand] using horder
    · cases hs
  | release =>
    simp only [step] at hs
    split at hs
    · cases hs
    · next hreplaying =>
      split at hs
      · cases hs
        exact h
      · next hrel =>
        cases hs
        refine ⟨fun hb => absurd (.inl rfl) hb, ?_, fun hr => absurd hr hrel, h.direct, h.overflowed⟩
        simpa only [pending, inHand, hreplaying, Option.getD_none, Option.getD_some] using horder
  | replay =>
    simp only [step] at hs
    split at hs
    · cases hs
    · next hreplaying =>
      cases hs
      refine ⟨fun hb => absurd (.inr rfl) hb, ?_, fun _ => ⟨rfl, rfl⟩, fun _ _ => rfl, h.overflowed⟩
      simpa only [pending, inHand, hreplaying, Option.getD_some, Held.opened, Option.getD_none] using
        horder
    · next upd rest hreplaying =>
      cases hs
      refine ⟨fun hb => absurd (.inl rfl) hb, ?_, fun hr => ?_, h.direct, h.overflowed⟩
      · simpa only [pending, inHand, hreplaying, Option.getD_some, List.cons_append,
          List.append_assoc, List.nil_append] using horder
      · have := (h.drained hr).2
        rw [hreplaying] at this
        cases this

theorem exec_inv {max : ℕ} {ops : List HeldOp} (hr : exec step (init max) ops = some r) : r.Inv :=
  exec_invariant (I := HeldRun.Inv) (fun _ _ _ h _ hs => step_inv h hs) (init_inv max)
    (Meets.trivial step _ _) hr

end HeldRun

end VcsClient.Control
