import VcsClient.Joystick.Capture
import VcsClient.Lib.Machine

/-!
# A captured binding can fire

A capture from its first sample to its completion. What is captured was pressed after the
first sample (`Tracks`), so a binding without a modifier fires on a sample of its capture.

The first input stays the modifier when it is released before another one is pressed, and
then modifier and main input need never have been held together. Where no input is
pressed while the first one is released, the binding fires on a sample of its capture
(`captured_fires`).
-/

namespace VcsClient.Joystick

open VcsClient.Keybinds VcsClient.Lib

/-- A capture, the samples it was fed after the first one, and what it has bound. -/
structure Capturing where
  capture : CaptureState
  /-- The first sample. -/
  start : State
  samples : List State
  binding : Option JoyBinding

namespace Capturing

/-- A capture that was fed its first sample. -/
def begun (start : State) : Capturing where
  capture := { CaptureState.new 0 with baseline := some start.held }
  start := start
  samples := []
  binding := none

def step (c : Capturing) (s : State) : Option Capturing :=
  if c.binding.isSome then none
  else
    match c.capture.feed s with
    | .inl capture => some { c with
        capture := capture
        samples := c.samples ++ [s] }
    | .inr binding => some { c with
        samples := c.samples ++ [s]
        binding := some binding }

/-- A sample that adds an input holds the first one. -/
def KeepsFirst (c : Capturing) (s : State) : Prop :=
  fresh c.capture s ≠ ∅ → ∀ first ∈ c.capture.order.head?, s.isHeld first = true

instance (c : Capturing) (s : State) : Decidable (c.KeepsFirst s) :=
  inferInstanceAs (Decidable (_ → _))

end Capturing

/-- The input was held in the first sample and in every one after. -/
def HeldSince (start : State) (samples : List State) (b : JoyButton) : Prop :=
  start.isHeld b = true ∧ ∀ s ∈ samples, s.isHeld b = true

/-- In a sample the inputs were held together, none of them since the first sample. -/
def Together (start : State) (samples : List State) (bs : List JoyButton) : Prop :=
  ∃ before s after, samples = before ++ s :: after ∧
    ∀ b ∈ bs, s.isHeld b = true ∧ ¬HeldSince start (before ++ [s]) b

/-- On a sample of the capture the binding is pressed, with inputs that were not held
since the first one. -/
def Fires (start : State) (samples : List State) (b : JoyBinding) : Prop :=
  ∃ before s after, samples = before ++ s :: after ∧
    (∀ id hold, id ∈ active (AList.singleton id [⟨b, hold⟩]) s) ∧
    ¬HeldSince start (before ++ [s]) b.main ∧
    ∀ m ∈ b.modifier, ¬HeldSince start (before ++ [s]) m

section Samples

variable {start s : State} {samples : List State} {b : JoyButton} {bs : List JoyButton}

theorem heldSince_snoc :
    HeldSince start (samples ++ [s]) b ↔ HeldSince start samples b ∧ s.isHeld b = true := by
  unfold HeldSince
  simp only [List.mem_append, List.mem_singleton]
  constructor
  · rintro ⟨hstart, hall⟩
    exact ⟨⟨hstart, fun s' hs' => hall s' (.inl hs')⟩, hall s (.inr rfl)⟩
  · rintro ⟨⟨hstart, hall⟩, hs⟩
    refine ⟨hstart, fun s' hs' => ?_⟩
    rcases hs' with hs' | rfl
    · exact hall s' hs'
    · exact hs

theorem Together.snoc (h : Together start samples bs) (s : State) :
    Together start (samples ++ [s]) bs := by
  obtain ⟨before, s', after, rfl, hheld⟩ := h
  exact ⟨before, s', after ++ [s], by simp, hheld⟩

theorem together_last (h : ∀ b ∈ bs, s.isHeld b = true ∧ ¬HeldSince start (samples ++ [s]) b) :
    Together start (samples ++ [s]) bs :=
  ⟨samples, s, [], rfl, h⟩

/-- A binding on its own is active when its inputs are held. -/
theorem mem_active_singleton {id : ActionID} {b : JoyBinding} {hold : Bool}
    (hmain : s.isHeld b.main = true) (hmod : ∀ m ∈ b.modifier, s.isHeld m = true) :
    id ∈ active (AList.singleton id [⟨b, hold⟩]) s := by
  have hsat : (⟨b, hold⟩ : Binding).satisfied s = true := by
    unfold Binding.satisfied
    rw [hmain, Bool.true_and]
    cases hm : b.modifier with
    | none => rfl
    | some m => exact hmod m hm
  have hlist : satisfied (AList.singleton id [⟨b, hold⟩]) s = [(id, b)] := by
    show (([⟨b, hold⟩] : List Binding).filter fun b => b.satisfied s).map
      (fun b => (id, b.joy)) ++ [] = [(id, b)]
    rw [List.filter_cons_of_pos hsat]
    rfl
  unfold active
  rw [hlist]
  cases hm : b.modifier with
  | none => simp [claimed, hm]
  | some m => simp [hm]

/-- The inputs of a binding that were held together make it fire. -/
theorem Together.fires {b : JoyBinding} (h : Together start samples (b.main :: b.modifier.toList)) :
    Fires start samples b := by
  obtain ⟨before, s, after, hsamples, hheld⟩ := h
  have hmod : ∀ m ∈ b.modifier, m ∈ b.main :: b.modifier.toList := fun m hm =>
    List.mem_cons_of_mem _ (Option.mem_toList.2 hm)
  refine ⟨before, s, after, hsamples, fun id hold => mem_active_singleton ?_ ?_, ?_, ?_⟩
  · exact (hheld b.main List.mem_cons_self).1
  · exact fun m hm => (hheld m (hmod m hm)).1
  · exact (hheld b.main List.mem_cons_self).2
  · exact fun m hm => (hheld m (hmod m hm)).2

end Samples

/-! ## What a capture keeps -/

namespace Capturing

variable {c c' : Capturing} {s : State}

/-- The baseline is what was held since the first sample, and what is captured is not
among it. -/
structure Tracks (start : State) (samples : List State) (capture : CaptureState) : Prop where
  baseline : ∃ baseline, capture.baseline = some baseline ∧
    ∀ b, b ∈ baseline ↔ HeldSince start samples b
  pressed : ∀ b ∈ capture.order, ¬HeldSince start samples b
  main : ∀ b ∈ capture.order.getLast?, Together start samples [b]

/-- The first input and the last one were held together. -/
def Paired (start : State) (samples : List State) (capture : CaptureState) : Prop :=
  ∀ main ∈ capture.order.getLast?, ∀ first ∈ capture.order.head?,
    Together start samples [main, first]

/-- What a sample adds is held, and was not since the first sample. -/
theorem mem_fresh {start : State} {samples : List State} {capture : CaptureState} {b : JoyButton}
    (h : Tracks start samples capture) (hb : b ∈ fresh capture s) :
    s.isHeld b = true ∧ ¬HeldSince start (samples ++ [s]) b := by
  obtain ⟨baseline, hbase, hmem⟩ := h.baseline
  unfold fresh at hb
  rw [hbase] at hb
  simp only [suppressDiagonalCardinals, Finset.mem_sdiff, Finset.mem_filter, not_and] at hb
  obtain ⟨⟨⟨hheld, hnew⟩, -⟩, -⟩ := hb
  refine ⟨decide_eq_true hheld, fun hsince => ?_⟩
  rw [heldSince_snoc] at hsince
  exact hnew ((hmem b).2 hsince.1) hsince.2

theorem feed_cases {capture : CaptureState} {baseline : Finset JoyButton}
    (hbase : capture.baseline = some baseline) :
    capture.feed s = .inl (added capture baseline s) ∨
      ∃ main, (added capture baseline s).order.getLast? = some main ∧
        capture.feed s = .inr (CaptureState.binding main (added capture baseline s).order) := by
  have hadded : added capture baseline s = { capture with
      baseline := some (baseline.filter (s.isHeld ·))
      order := capture.order ++ (suppressDiagonalCardinals
        ((s.held \ baseline.filter (s.isHeld ·)) \ capture.seen) s.held).sort
      seen := capture.seen ∪ suppressDiagonalCardinals
        ((s.held \ baseline.filter (s.isHeld ·)) \ capture.seen) s.held } := by
    unfold added fresh
    rw [hbase]
  unfold CaptureState.feed
  rw [hbase]
  dsimp only
  rw [hadded]
  dsimp only
  split
  · exact .inl rfl
  · next main hlast =>
    split
    · exact .inl rfl
    · exact .inr ⟨main, hlast, rfl⟩

theorem head?_append_of_ne_nil {α : Type*} {l l' : List α} (h : l ≠ []) :
    (l ++ l').head? = l.head? := by
  cases l with
  | nil => exact absurd rfl h
  | cons a l => rfl

/-- **A sample keeps the capture in step with what was held.** -/
theorem tracks_added {start : State} {samples : List State} {capture : CaptureState}
    {baseline : Finset JoyButton} (h : Tracks start samples capture)
    (hbase : capture.baseline = some baseline) :
    Tracks start (samples ++ [s]) (added capture baseline s) where
  baseline := by
    obtain ⟨baseline', hbase', hmem⟩ := h.baseline
    rw [hbase, Option.some.injEq] at hbase'
    subst hbase'
    refine ⟨_, rfl, fun b => ?_⟩
    rw [Finset.mem_filter, hmem, heldSince_snoc]
  pressed b hb := by
    rcases List.mem_append.1 hb with hb | hb
    · rw [heldSince_snoc]
      exact fun hsince => h.pressed b hb hsince.1
    · exact (mem_fresh h ((Finset.mem_sort _).1 hb)).2
  main main hmain := by
    rcases eq_or_ne (fresh capture s) ∅ with hnone | hsome
    · have horder : (added capture baseline s).order = capture.order := by
        show capture.order ++ (fresh capture s).sort = capture.order
        rw [hnone, Finset.sort_empty, List.append_nil]
      rw [horder] at hmain
      exact (h.main main hmain).snoc s
    · have hne : (fresh capture s).sort ≠ [] := fun hnil => hsome (by
        rw [← Finset.sort_toFinset (fresh capture s) (· ≤ ·), hnil]
        rfl)
      have hlast : main ∈ (fresh capture s).sort.getLast? := by
        rwa [added, List.getLast?_append_of_ne_nil _ hne] at hmain
      have hmem : main ∈ fresh capture s :=
        (Finset.mem_sort _).1 (List.mem_of_mem_getLast? hlast)
      exact together_last fun b hb => by
        rw [List.mem_singleton] at hb
        rw [hb]
        exact mem_fresh h hmem

/-- **A sample that keeps the first input** pairs it with what it adds. -/
theorem paired_added {start : State} {samples : List State} {capture : CaptureState}
    {baseline : Finset JoyButton} (h : Tracks start samples capture)
    (hpaired : Paired start samples capture)
    (hkeeps : fresh capture s ≠ ∅ → ∀ first ∈ capture.order.head?, s.isHeld first = true) :
    Paired start (samples ++ [s]) (added capture baseline s) := by
  intro main hmain first hfirst
  rcases eq_or_ne (fresh capture s) ∅ with hnone | hsome
  · have horder : (added capture baseline s).order = capture.order := by
      show capture.order ++ (fresh capture s).sort = capture.order
      rw [hnone, Finset.sort_empty, List.append_nil]
    rw [horder] at hmain hfirst
    exact (hpaired main hmain first hfirst).snoc s
  · have hne : (fresh capture s).sort ≠ [] := fun hnil => hsome (by
      rw [← Finset.sort_toFinset (fresh capture s) (· ≤ ·), hnil]
      rfl)
    have hlast : main ∈ (fresh capture s).sort.getLast? := by
      rwa [added, List.getLast?_append_of_ne_nil _ hne] at hmain
    have hmain : main ∈ fresh capture s :=
      (Finset.mem_sort _).1 (List.mem_of_mem_getLast? hlast)
    have hheld : s.isHeld first = true ∧ ¬HeldSince start (samples ++ [s]) first := by
      rcases eq_or_ne capture.order [] with horder | horder
      · -- the first input is one of those that are added
        have hfresh : first ∈ (fresh capture s).sort := by
          rw [added, horder, List.nil_append] at hfirst
          exact List.mem_of_mem_head? hfirst
        exact mem_fresh h ((Finset.mem_sort _).1 hfresh)
      · have hhead : first ∈ capture.order.head? := by
          rwa [added, head?_append_of_ne_nil horder] at hfirst
        refine ⟨hkeeps hsome first hhead, ?_⟩
        rw [heldSince_snoc]
        exact fun hsince => h.pressed first (List.mem_of_mem_head? hhead) hsince.1
    exact together_last fun b hb => by
      rcases List.mem_cons.1 hb with rfl | hb
      · exact mem_fresh h hmain
      · rw [List.mem_singleton] at hb
        rw [hb]
        exact hheld

/-- The binding of a complete capture fires, if its inputs were held together. -/
theorem binding_fires {start : State} {samples : List State} {order : List JoyButton}
    {main : JoyButton} (hmain : Together start samples [main])
    (hpaired : ∀ first ∈ (CaptureState.binding main order).modifier,
      Together start samples [main, first]) :
    Fires start samples (CaptureState.binding main order) := by
  apply Together.fires
  show Together start samples (main :: (CaptureState.binding main order).modifier.toList)
  cases hmod : (CaptureState.binding main order).modifier with
  | none => exact hmain
  | some first => exact hpaired first hmod

theorem head?_of_mem_modifier {main first : JoyButton} {order : List JoyButton}
    (h : first ∈ (CaptureState.binding main order).modifier) : first ∈ order.head? := by
  unfold CaptureState.binding at h
  dsimp only at h
  split at h
  · exact h
  · cases h

/-- A capture under way is in step with its samples, and the binding of one that is
complete fires when it satisfies `P`. -/
structure Kept (P : JoyBinding → Prop) (c : Capturing) : Prop where
  tracks : c.binding = none → Tracks c.start c.samples c.capture
  bound : ∀ b ∈ c.binding, P b → Fires c.start c.samples b

theorem kept_begun (P : JoyBinding → Prop) (start : State) : Kept P (begun start) where
  tracks _ := {
    baseline := ⟨start.held, rfl, fun _ => ⟨fun hb => ⟨decide_eq_true hb, fun s hs => by cases hs⟩,
      fun hb => of_decide_eq_true hb.1⟩⟩
    pressed := fun b hb => by cases hb
    main := fun b hb => by cases hb }
  bound b hb := by cases hb

theorem kept_step {P : JoyBinding → Prop} (h : Kept P c)
    (hpaired : ∀ baseline, c.capture.baseline = some baseline →
      ∀ main ∈ (added c.capture baseline s).order.getLast?,
      P (CaptureState.binding main (added c.capture baseline s).order) →
      ∀ first ∈ (CaptureState.binding main (added c.capture baseline s).order).modifier,
        Together c.start (c.samples ++ [s]) [main, first])
    (hs : c.step s = some c') : Kept P c' := by
  unfold step at hs
  split at hs
  · cases hs
  · next hopen =>
    have htracks := h.tracks (Option.not_isSome_iff_eq_none.1 hopen)
    obtain ⟨baseline, hbase, -⟩ := htracks.baseline
    have htracks' := tracks_added (s := s) htracks hbase
    rcases feed_cases (s := s) hbase with hfeed | ⟨main, hlast, hfeed⟩
    · rw [hfeed] at hs
      cases hs
      exact ⟨fun _ => htracks', fun b hb => absurd (Option.isSome_of_mem hb) hopen⟩
    · rw [hfeed] at hs
      cases hs
      refine ⟨fun hnone => (by cases hnone), fun b hb hP => ?_⟩
      cases hb
      exact binding_fires (htracks'.main main hlast) (hpaired baseline hbase main hlast hP)

theorem kept_bare (h : Kept (fun b => b.modifier = none) c) (hs : c.step s = some c') :
    Kept (fun b => b.modifier = none) c' :=
  kept_step h (fun _ _ _ _ hbare first hfirst => by rw [hbare] at hfirst; cases hfirst) hs

/-- A capture whose samples keep the first input. -/
structure Pairs (c : Capturing) : Prop where
  kept : Kept (fun _ => True) c
  paired : c.binding = none → Paired c.start c.samples c.capture

theorem pairs_step (h : Pairs c) (hok : c.KeepsFirst s) (hs : c.step s = some c') : Pairs c' := by
  have hnone : c.binding = none := by
    unfold step at hs
    split at hs
    · cases hs
    · next hopen => exact Option.not_isSome_iff_eq_none.1 hopen
  have htracks := h.kept.tracks hnone
  have hpaired : ∀ baseline, Paired c.start (c.samples ++ [s]) (added c.capture baseline s) :=
    fun _ => paired_added htracks (h.paired hnone) hok
  refine ⟨kept_step h.kept (fun baseline _ main hmain _ first hfirst =>
    hpaired baseline main hmain first (head?_of_mem_modifier hfirst)) hs, fun hopen => ?_⟩
  obtain ⟨baseline, hbase, -⟩ := htracks.baseline
  unfold step at hs
  rw [if_neg (by simp [hnone])] at hs
  rcases feed_cases (s := s) hbase with hfeed | ⟨main, hlast, hfeed⟩
  · rw [hfeed] at hs
    cases hs
    exact hpaired baseline
  · rw [hfeed] at hs
    cases hs
    cases hopen

theorem kept_run {start : State} {samples : List State}
    (h : exec step (begun start) samples = some c) : Kept (fun b => b.modifier = none) c :=
  exec_invariant (fun _ _ _ hi _ hs => kept_bare hi hs) (kept_begun _ start)
    (Meets.trivial step _ samples) h

theorem pairs_run {start : State} {samples : List State}
    (hok : Meets step KeepsFirst (begun start) samples)
    (h : exec step (begun start) samples = some c) : Pairs c :=
  exec_invariant (fun _ _ _ hi ho hs => pairs_step hi ho hs)
    ⟨kept_begun _ start, fun _ main hmain => by cases hmain⟩ hok h

theorem step_start (hs : c.step s = some c') :
    c'.start = c.start ∧ c'.samples = c.samples ++ [s] := by
  unfold step at hs
  split at hs
  · cases hs
  · split at hs
    · cases hs; exact ⟨rfl, rfl⟩
    · cases hs; exact ⟨rfl, rfl⟩

theorem exec_samples : ∀ (samples : List State) {c c' : Capturing},
    exec step c samples = some c' → c'.start = c.start ∧ c'.samples = c.samples ++ samples
  | [], c, c', h => by cases h; exact ⟨rfl, (List.append_nil _).symm⟩
  | s :: samples, c, c', h => by
    obtain ⟨c'', hs, h⟩ := exec_cons.1 h
    obtain ⟨hstart, hsamples⟩ := step_start hs
    obtain ⟨hstart', hsamples'⟩ := exec_samples samples h
    exact ⟨hstart'.trans hstart, by rw [hsamples', hsamples, List.append_assoc]; rfl⟩

/-- **A captured binding fires** on a sample of its capture, if it has no modifier or if
no input was pressed while the first one was released. -/
theorem captured_fires {start : State} {samples : List State} {b : JoyBinding}
    (h : exec step (begun start) samples = some c) (hb : c.binding = some b) :
    (b.modifier = none → Fires start samples b) ∧
      (Meets step KeepsFirst (begun start) samples → Fires start samples b) := by
  obtain ⟨hstart, hsamples⟩ := exec_samples samples h
  have hsame : Fires c.start c.samples b = Fires start samples b := by
    rw [hstart, hsamples]
    rfl
  refine ⟨fun hbare => ?_, fun hok => ?_⟩
  · exact hsame ▸ (kept_run h).bound b hb hbare
  · exact hsame ▸ (pairs_run hok h).kept.bound b hb trivial

/-! ## A binding that was never held -/

def hat1 (dir : ℕ) : JoyButton := ⟨"stick", hatButton 0 dir⟩

/-- A hat, held in a direction. -/
def hatAt (dir : ℕ) : State := ⟨((expandHatDirection dir).map hat1).toFinset⟩

/-- A hat that is rolled from up to down, and let go. -/
def rolled : List State := [hatAt 0, hatAt 1, hatAt 2, hatAt 3, hatAt 4, ⟨∅⟩]

/-- Two directions of one hat, never held together. -/
theorem captured_never_held :
    ∃ c, exec step (begun ⟨∅⟩) rolled = some c ∧
      c.binding = some ⟨"stick", hatButton 0 4, some (hat1 0)⟩ ∧
      ¬Fires ⟨∅⟩ rolled ⟨"stick", hatButton 0 4, some (hat1 0)⟩ := by
  have hend : (exec step (begun ⟨∅⟩) rolled).map (·.binding) =
      some (some ⟨"stick", hatButton 0 4, some (hat1 0)⟩) := by
    decide +kernel
  obtain ⟨c, hc, hbinding⟩ := Option.map_eq_some_iff.1 hend
  refine ⟨c, hc, hbinding, ?_⟩
  rintro ⟨before, s, after, hsamples, hactive, -⟩
  have hnever : ∀ s ∈ rolled,
      (⟨⟨"stick", hatButton 0 4, some (hat1 0)⟩, true⟩ : Binding).satisfied s = false := by
    decide +kernel
  have hs : s ∈ rolled := by
    rw [hsamples]
    exact List.mem_append_right _ List.mem_cons_self
  obtain ⟨list, hlist, b, hb, hsat⟩ := exists_of_mem_active (hactive "global.ptt" true)
  rw [← AList.insert_empty, AList.lookup_insert, Option.mem_some_iff] at hlist
  subst hlist
  rw [List.mem_singleton] at hb
  rw [hb, hnever s hs] at hsat
  cases hsat

/-- A button is held, and another one pressed. -/
def pressed : List State :=
  [⟨{⟨"stick", 5⟩}⟩, ⟨{⟨"stick", 5⟩, ⟨"stick", 3⟩}⟩, ⟨{⟨"stick", 3⟩}⟩, ⟨∅⟩]

theorem captured_fires_pressed :
    ∃ c, exec step (begun ⟨∅⟩) pressed = some c ∧
      c.binding = some ⟨"stick", 3, some ⟨"stick", 5⟩⟩ ∧
      Fires ⟨∅⟩ pressed ⟨"stick", 3, some ⟨"stick", 5⟩⟩ := by
  have hend : (exec step (begun ⟨∅⟩) pressed).map (·.binding) =
      some (some ⟨"stick", 3, some ⟨"stick", 5⟩⟩) := by
    decide +kernel
  obtain ⟨c, hc, hbinding⟩ := Option.map_eq_some_iff.1 hend
  exact ⟨c, hc, hbinding, (captured_fires hc hbinding).2 (by decide +kernel)⟩

end Capturing

end VcsClient.Joystick
