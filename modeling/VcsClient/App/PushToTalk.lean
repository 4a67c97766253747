import VcsClient.App.Voice
import VcsClient.Lib.Log
import VcsClient.Lib.Owed

/-!
# Push-to-talk from two input sources

`App.pressed` and `App.released` (`settings.go`) with `pressCount`
(`presscount.go`) and the PTT cases of `dispatchAudioPressed` and
`dispatchAudioReleased` (`audio.go`), for edges of hold actions on an `App`
with an audio backend. An edge is three separate steps on the goroutine of its
source: the count, `txPress` or `txRelease`, and `Manager.SetPTT`.

The steps that act on the count may run in another order. When a step overtakes an older one of the other source,
the end state can be wrong either way (`ptt_incoherent`); when none does, the
held set and the PTT flag follow the count (`ptt_coherent`).
-/

namespace VcsClient.App

open VcsClient.Lib VcsClient.Voice

/-! ## The press count -/

/-- The counts; an absent action counts 0. -/
structure PressCount where
  n : AList fun _ : ActionID => ℕ

namespace PressCount

def count (p : PressCount) (actionID : ActionID) : ℕ := (p.n.lookup actionID).getD 0

/-- Whether the press is to be emitted, and the new counts. -/
def press (p : PressCount) (actionID : ActionID) : Bool × PressCount :=
  let p : PressCount := ⟨p.n.insert actionID (p.count actionID + 1)⟩
  (p.count actionID = 1, p)

/-- Whether the release is to be emitted, and the new counts. -/
def release (p : PressCount) (actionID : ActionID) : Bool × PressCount :=
  if p.count actionID = 0 then (false, ⟨p.n.erase actionID⟩)
  else
    let p : PressCount := ⟨p.n.insert actionID (p.count actionID - 1)⟩
    if p.count actionID = 0 then (true, ⟨p.n.erase actionID⟩) else (false, p)

section Lemmas

variable {p : PressCount} {id actionID : ActionID}

theorem count_insert {k : ℕ} :
    (PressCount.mk (p.n.insert id k)).count actionID =
      if actionID = id then k else p.count actionID := by
  split
  · next h => subst h; simp [count]
  · next h => simp [count, AList.lookup_insert_ne h]

theorem count_erase :
    (PressCount.mk (p.n.erase id)).count actionID =
      if actionID = id then 0 else p.count actionID := by
  split
  · next h => subst h; simp [count]
  · next h => simp [count, AList.lookup_erase_ne h]

theorem press_fst : (p.press id).1 = decide (p.count id = 0) := by
  simp [press, count_insert]

theorem press_count :
    (p.press id).2.count actionID =
      if actionID = id then p.count id + 1 else p.count actionID :=
  count_insert

theorem release_fst : (p.release id).1 = decide (p.count id = 1) := by
  simp only [release]
  split
  · next h => simp [h]
  · next h =>
    rw [count_insert, if_pos rfl]
    split
    · simp only [true_eq_decide_iff]; omega
    · simp only [false_eq_decide_iff]; omega

theorem release_count :
    (p.release id).2.count actionID =
      if actionID = id then p.count id - 1 else p.count actionID := by
  simp only [release]
  split
  · next h => rw [count_erase, h]
  · rw [count_insert, if_pos rfl]
    split
    · next h => rw [count_erase, count_insert, h]; grind
    · exact count_insert

end Lemmas

end PressCount

/-! ## Edges of hold actions -/

/-- `radio.<n>.ptt`, with something for `<n>`. -/
def isRadioPTTAction (actionID : ActionID) : Bool :=
  decide (actionID.utf8ByteSize > 6 + 4) && "radio.".toList.isPrefixOf actionID.toList &&
    ".ptt".toList.isSuffixOf actionID.toList

/-- The case of `dispatchAudioPressed` and `dispatchAudioReleased` that transmits. -/
def isTransmit (actionID : ActionID) : Bool :=
  decide (actionID = "global.ptt") || isRadioPTTAction actionID

/-- The goroutine an edge arrives on. -/
inductive Source where
  | keyboard
  | joystick
  deriving DecidableEq

/-- The three pieces of state, and what each goroutine still owes them. -/
structure PTTRun where
  presses : PressCount
  /-- What each source holds down. -/
  down : List (Source × ActionID)
  voice : VoiceState
  ptt : Bool
  owedTX : List (Source × Edge × ActionID)
  owedPTT : List (Source × Bool)

inductive PTTOp where
  | pressed (src : Source) (actionID : ActionID)
  | released (src : Source) (actionID : ActionID)
  /-- `txPress` or `txRelease`, whichever the goroutine is due. -/
  | tx (src : Source) (r : Orders) (target : Option TXTarget)
  | setPTT (src : Source)

namespace PTTRun

def init (voice : VoiceState) : PTTRun := ⟨⟨∅⟩, [], voice, false, [], []⟩

/-- The goroutine is done with its last edge. -/
def Ready (s : PTTRun) (src : Source) : Prop := Idle src s.owedTX ∧ Idle src s.owedPTT

instance (s : PTTRun) (src : Source) : Decidable (s.Ready src) :=
  inferInstanceAs (Decidable (_ ∧ _))

/-- An emitted edge of a transmit action goes on to the held set. -/
def emit (s : PTTRun) (src : Source) (e : Edge) (actionID : ActionID) (emitted : Bool) : PTTRun :=
  if emitted && isTransmit actionID then { s with owedTX := s.owedTX ++ [(src, e, actionID)] }
  else s

def step (s : PTTRun) : PTTOp → Option PTTRun
  | .pressed src actionID =>
    if s.Ready src ∧ (src, actionID) ∉ s.down then
      let r := s.presses.press actionID
      some ({ s with presses := r.2, down := (src, actionID) :: s.down }.emit
        src .press actionID r.1)
    else none
  | .released src actionID =>
    if s.Ready src ∧ (src, actionID) ∈ s.down then
      let r := s.presses.release actionID
      some ({ s with presses := r.2, down := s.down.erase (src, actionID) }.emit
        src .release actionID r.1)
    else none
  | .tx src r target =>
    match takeFirst src s.owedTX with
    | none => none
    | some ((.press, actionID), owed) =>
      some { s with
        voice := s.voice.txPress r actionID target
        owedTX := owed
        owedPTT := s.owedPTT ++ [(src, true)] }
    | some ((.release, actionID), owed) =>
      let res := s.voice.txRelease r actionID
      some { s with
        voice := res.2
        owedTX := owed
        owedPTT := s.owedPTT ++ [(src, res.1)] }
  | .setPTT src =>
    match takeFirst src s.owedPTT with
    | none => none
    | some (held, owed) => some { s with ptt := held, owedPTT := owed }

/-- No step overtakes an older one that it could undo: `txPress` and
`txRelease` one of the same action, `SetPTT` one with another value. -/
def InOrder (s : PTTRun) : PTTOp → Prop
  | .tx src _ _ => InTurn Prod.snd src s.owedTX
  | .setPTT src => Repeats src s.owedPTT
  | _ => True

instance (s : PTTRun) (op : PTTOp) : Decidable (s.InOrder op) := by
  cases op <;> unfold InOrder <;> infer_instance

end PTTRun

/-- The held set is the transmit actions with a positive count, and PTT is on
exactly when it is not empty. -/
structure Settled (s : PTTRun) : Prop where
  tx : ∀ actionID, actionID ∈ s.voice.tx ↔
    isTransmit actionID = true ∧ 0 < s.presses.count actionID
  ptt : s.ptt = true ↔ s.voice.tx.keys ≠ []

/-! ## The frame of an edge -/

section Frame

@[simp] theorem PTTRun.emit_presses (s : PTTRun) (src : Source) (e : Edge) (actionID : ActionID)
    (emitted : Bool) : (s.emit src e actionID emitted).presses = s.presses := by
  unfold emit; split <;> rfl

@[simp] theorem PTTRun.emit_voice (s : PTTRun) (src : Source) (e : Edge) (actionID : ActionID)
    (emitted : Bool) : (s.emit src e actionID emitted).voice = s.voice := by
  unfold emit; split <;> rfl

@[simp] theorem PTTRun.emit_ptt (s : PTTRun) (src : Source) (e : Edge) (actionID : ActionID)
    (emitted : Bool) : (s.emit src e actionID emitted).ptt = s.ptt := by
  unfold emit; split <;> rfl

@[simp] theorem PTTRun.emit_owedPTT (s : PTTRun) (src : Source) (e : Edge) (actionID : ActionID)
    (emitted : Bool) : (s.emit src e actionID emitted).owedPTT = s.owedPTT := by
  unfold emit; split <;> rfl

end Frame

/-! ## Steps in order follow the count -/

/-- The edges owed to the held set for an action, oldest first. -/
def txEdges (actionID : ActionID) (owed : List (Source × Edge × ActionID)) : List Edge :=
  ((owed.map (·.2)).filter (·.2 = actionID)).map (·.1)

/-- The edges owed take the held set to where the count is, and the newest
`SetPTT` owed is for the held set as it is. -/
structure Follows (s : PTTRun) : Prop where
  tx : ∀ actionID, exec Edge.apply (decide (actionID ∈ s.voice.tx)) (txEdges actionID s.owedTX) =
    some (isTransmit actionID && decide (0 < s.presses.count actionID))
  ptt : newest s.ptt s.owedPTT = decide (s.voice.tx.keys.length ≠ 0)

section Runs

variable {s s' : PTTRun} {src : Source} {actionID : ActionID}

theorem txEdges_append {owed : List (Source × Edge × ActionID)} {e : Edge} {id : ActionID} :
    txEdges actionID (owed ++ [(src, e, id)]) =
      txEdges actionID owed ++ if id = actionID then [e] else [] := by
  by_cases h : id = actionID <;> simp [txEdges, h]

/-- In turn, an edge of the action is its oldest one. -/
theorem txEdges_takeFirst {owed rest : List (Source × Edge × ActionID)} {e : Edge} {id : ActionID}
    (h : takeFirst src owed = some ((e, id), rest)) (hturn : InTurn Prod.snd src owed) :
    txEdges actionID owed = (if id = actionID then [e] else []) ++ txEdges actionID rest := by
  have hqueue := takeFirst_filter h hturn actionID
  by_cases he : id = actionID <;> simp [txEdges, hqueue, he]

/-- An edge whose count moves between zero and one moves what is owed with it;
every other edge leaves both alone. -/
theorem Follows.count {e : Edge} {emitted : Bool} {presses : PressCount}
    {down : List (Source × ActionID)} (h : Follows s)
    (hother : ∀ id, id ≠ actionID → presses.count id = s.presses.count id)
    (hemit : emitted = true → e = .due (decide (0 < s.presses.count actionID)) ∧
      decide (0 < presses.count actionID) = !decide (0 < s.presses.count actionID))
    (hkeep : emitted = false →
      decide (0 < presses.count actionID) = decide (0 < s.presses.count actionID)) :
    Follows ({ s with presses := presses, down := down }.emit src e actionID emitted) := by
  refine ⟨fun id => ?_, by simpa using h.ptt⟩
  have htx := h.tx id
  rw [PTTRun.emit_presses, PTTRun.emit_voice]
  by_cases hid : id = actionID
  · subst hid
    unfold PTTRun.emit
    split
    · next hsent =>
      obtain ⟨hem, htr⟩ := Bool.and_eq_true_iff.1 hsent
      obtain ⟨hdue, hcount⟩ := hemit hem
      rw [txEdges_append, if_pos rfl, exec_append]
      refine ⟨_, htx, ?_⟩
      rw [exec_edge_cons, htr, Bool.true_and, hcount]
      exact ⟨hdue, rfl⟩
    · next hsent =>
      rw [htx]
      cases hem : emitted with
      | false => rw [hkeep hem]
      | true =>
        have htr : isTransmit id = false := by simpa [hem] using hsent
        rw [htr, Bool.false_and, Bool.false_and]
  · have howed : txEdges id ({ s with presses := presses, down := down }.emit src e actionID
        emitted).owedTX = txEdges id s.owedTX := by
      unfold PTTRun.emit
      split
      · rw [txEdges_append, if_neg (Ne.symm hid), List.append_nil]
      · rfl
    rw [howed, htx, hother id hid]

theorem Follows.pressed (h : Follows s) (hs : s.step (.pressed src actionID) = some s') :
    Follows s' := by
  simp only [PTTRun.step] at hs
  split at hs
  · cases hs
    refine h.count (fun id hid => by rw [PressCount.press_count, if_neg hid]) (fun hem => ?_)
      (fun hem => ?_)
    · rw [PressCount.press_fst, decide_eq_true_iff] at hem
      rw [PressCount.press_count, if_pos rfl, hem]
      exact ⟨rfl, rfl⟩
    · rw [PressCount.press_fst, decide_eq_false_iff_not] at hem
      rw [PressCount.press_count, if_pos rfl]
      simp only [decide_eq_decide]
      omega
  · cases hs

theorem Follows.released (h : Follows s) (hs : s.step (.released src actionID) = some s') :
    Follows s' := by
  simp only [PTTRun.step] at hs
  split at hs
  · cases hs
    refine h.count (fun id hid => by rw [PressCount.release_count, if_neg hid]) (fun hem => ?_)
      (fun hem => ?_)
    · rw [PressCount.release_fst, decide_eq_true_iff] at hem
      rw [PressCount.release_count, if_pos rfl, hem]
      exact ⟨rfl, rfl⟩
    · rw [PressCount.release_fst, decide_eq_false_iff_not] at hem
      rw [PressCount.release_count, if_pos rfl]
      simp only [decide_eq_decide]
      omega
  · cases hs

/-- The held set moves by the oldest edge of one action. -/
theorem Follows.held {e : Edge} {voice : VoiceState} {owed : List (Source × Edge × ActionID)}
    (h : Follows s) (ht : takeFirst src s.owedTX = some ((e, actionID), owed))
    (hok : InTurn Prod.snd src s.owedTX)
    (hself : actionID ∈ voice.tx ↔ e = .press)
    (hother : ∀ id, id ≠ actionID → (id ∈ voice.tx ↔ id ∈ s.voice.tx)) (id : ActionID) :
    exec Edge.apply (decide (id ∈ voice.tx)) (txEdges id owed) =
      some (isTransmit id && decide (0 < s.presses.count id)) := by
  have htx := h.tx id
  rw [txEdges_takeFirst ht hok] at htx
  by_cases hid : actionID = id
  · subst hid
    rw [if_pos rfl, List.singleton_append, exec_edge_cons] at htx
    obtain ⟨hdue, htx⟩ := htx
    rw [← htx]
    congr 1
    cases hheld : decide (actionID ∈ s.voice.tx) <;> simp [hheld, Edge.due] at hdue <;>
      simp [hself, hdue]
  · rw [if_neg hid, List.nil_append] at htx
    rw [← htx]
    simp only [hother id (Ne.symm hid)]

theorem Follows.transmit {r : Orders} {target : Option TXTarget} (h : Follows s)
    (hok : InTurn Prod.snd src s.owedTX) (hs : s.step (.tx src r target) = some s') :
    Follows s' := by
  simp only [PTTRun.step] at hs
  split at hs
  · cases hs
  · next actionID owed ht =>
    cases hs
    refine ⟨h.held ht hok ?_ fun id hid => ?_, ?_⟩
    · simp [VoiceState.txPress_tx]
    · simp [VoiceState.txPress_tx, hid]
    · simp [VoiceState.txPress_tx, AList.keys_insert]
  · next actionID owed ht =>
    cases hs
    refine ⟨h.held ht hok ?_ fun id hid => ?_, ?_⟩
    · simp [VoiceState.txRelease_tx]
    · simp [VoiceState.txRelease_tx, hid]
    · rw [newest_append, VoiceState.txRelease_held]

theorem Follows.step {op : PTTOp} (h : Follows s) (hok : s.InOrder op) (hs : s.step op = some s') :
    Follows s' := by
  cases op with
  | pressed src actionID => exact h.pressed hs
  | released src actionID => exact h.released hs
  | tx src r target => exact h.transmit hok hs
  | setPTT src =>
    simp only [PTTRun.step] at hs
    split at hs
    · cases hs
    · next held owed ht =>
      cases hs
      exact ⟨h.tx, (takeFirst_newest ht (hok _ ht)).trans h.ptt⟩

end Runs

/-- **Push-to-talk is coherent**: once both goroutines are done, in every run
whose steps are in order. -/
theorem ptt_coherent (voice : VoiceState) (hvoice : voice.tx = ∅) (ops : List PTTOp) (s : PTTRun)
    (hok : Meets PTTRun.step PTTRun.InOrder (.init voice) ops)
    (hrun : exec PTTRun.step (.init voice) ops = some s)
    (htx : s.owedTX = []) (hptt : s.owedPTT = []) : Settled s := by
  have hinit : Follows (.init voice) := by
    refine ⟨fun actionID => ?_, ?_⟩
    · simp [PTTRun.init, hvoice, txEdges, PressCount.count]
    · simp [PTTRun.init, hvoice, newest]
  have h : Follows s := exec_invariant (fun _ _ _ h hok hs => h.step hok hs) hinit hok hrun
  refine ⟨fun actionID => ?_, ?_⟩
  · have hheld := h.tx actionID
    rw [htx] at hheld
    simp only [txEdges, List.map_nil, List.filter_nil, exec_nil, Option.some.injEq] at hheld
    rw [← decide_eq_true_iff (p := actionID ∈ s.voice.tx), hheld, Bool.and_eq_true_iff,
      decide_eq_true_iff]
  · have hflag := h.ptt
    rw [hptt] at hflag
    simp only [newest] at hflag
    rw [hflag, decide_eq_true_iff, Ne, List.length_eq_zero_iff]

section Examples

/-- One edge from the count to the flag. -/
def wholeEdge (src : Source) (edge : PTTOp) : List PTTOp :=
  [edge, .tx src ⟨.stored _, .stored _, .stored _⟩ (some ⟨30000, false⟩), .setPTT src]

/-- Two radios keyed from two sources, the first one released. -/
def keyedRun : List PTTOp :=
  wholeEdge .keyboard (.pressed .keyboard "radio.1.ptt") ++
    wholeEdge .joystick (.pressed .joystick "radio.2.ptt") ++
    wholeEdge .keyboard (.released .keyboard "radio.1.ptt")

theorem ptt_coherent_keyed :
    ∃ s, exec PTTRun.step (.init (.init 0)) keyedRun = some s ∧ s.ptt = true ∧ Settled s :=
  ⟨_, rfl, rfl, ptt_coherent (.init 0) rfl keyedRun _ (by decide) rfl rfl rfl⟩

/-- The keyboard's release is delayed past the joystick's press of the same
action. -/
def cancelRun : List PTTOp :=
  wholeEdge .keyboard (.pressed .keyboard "global.ptt") ++
    [.released .keyboard "global.ptt"] ++
    wholeEdge .joystick (.pressed .joystick "global.ptt") ++
    [.tx .keyboard ⟨.stored _, .stored _, .stored _⟩ none, .setPTT .keyboard]

/-- The flag of the first release is delayed past the second release. -/
def stuckRun : List PTTOp :=
  wholeEdge .keyboard (.pressed .keyboard "radio.1.ptt") ++
    wholeEdge .joystick (.pressed .joystick "radio.2.ptt") ++
    [.released .keyboard "radio.1.ptt", .tx .keyboard ⟨.stored _, .stored _, .stored _⟩ none] ++
    wholeEdge .joystick (.released .joystick "radio.2.ptt") ++ [.setPTT .keyboard]

/-- **Two runs without coherence.** A delayed release cancels the transmission
another source opened, and a delayed flag leaves PTT on with nothing held. -/
theorem ptt_incoherent :
    (∃ s, exec PTTRun.step (.init (.init 0)) cancelRun = some s ∧
      s.owedTX = [] ∧ s.owedPTT = [] ∧ s.presses.count "global.ptt" = 1 ∧
      s.voice.tx.keys = [] ∧ s.ptt = false ∧ ¬ Settled s) ∧
    (∃ s, exec PTTRun.step (.init (.init 0)) stuckRun = some s ∧
      s.owedTX = [] ∧ s.owedPTT = [] ∧ s.down = [] ∧
      s.voice.tx.keys = [] ∧ s.ptt = true ∧ ¬ Settled s) := by
  refine ⟨⟨_, rfl, rfl, rfl, by decide, by decide, rfl, fun h => ?_⟩,
    ⟨_, rfl, rfl, rfl, by decide, by decide, rfl, fun h => ?_⟩⟩
  · exact absurd ((h.tx "global.ptt").2 (by decide)) (by decide)
  · exact absurd (h.ptt.1 rfl) (by decide)

end Examples

end VcsClient.App
