import Mathlib.Logic.Basic

/-!
# Machines and their schedules

A machine is a partial step function `σ → ι → Option σ`: the label `ι` names
which party moves and with what arguments, `none` says the label is not
enabled. A schedule is a list of labels, `exec` runs it and `Meets` says that
every step of a run satisfies a side condition in the state it is taken from.
`exec_invariant` is the induction every safety proof uses: an invariant that
each step meeting the condition preserves holds wherever such a run ends.
`exec_part` is its like for a part of the state that is driven by inputs of its
own: two runs that bring it the same inputs leave it the same (`exec_agree`).
-/

namespace VcsClient.Lib

variable {σ ι : Type*}

/-- The state a schedule leads to; `none` when a step of it is not enabled. -/
def exec (step : σ → ι → Option σ) : σ → List ι → Option σ
  | s, [] => some s
  | s, l :: ls =>
    match step s l with
    | none => none
    | some s' => exec step s' ls

/-- Every step of the run meets `ok` in the state it is taken from. -/
def Meets (step : σ → ι → Option σ) (ok : σ → ι → Prop) : σ → List ι → Prop
  | _, [] => True
  | s, l :: ls => ok s l ∧
    match step s l with
    | none => True
    | some s' => Meets step ok s' ls

instance Meets.instDecidable (step : σ → ι → Option σ) (ok : σ → ι → Prop)
    [∀ s l, Decidable (ok s l)] : ∀ s ls, Decidable (Meets step ok s ls)
  | _, [] => .isTrue trivial
  | s, l :: ls =>
    have : Decidable (match step s l with
        | none => True
        | some s' => Meets step ok s' ls) :=
      match step s l with
      | none => .isTrue trivial
      | some s' => Meets.instDecidable step ok s' ls
    inferInstanceAs (Decidable (_ ∧ _))

@[simp] theorem exec_nil (step : σ → ι → Option σ) (s : σ) : exec step s [] = some s := rfl

theorem exec_cons {step : σ → ι → Option σ} {s t : σ} {l : ι} {ls : List ι} :
    exec step s (l :: ls) = some t ↔ ∃ s', step s l = some s' ∧ exec step s' ls = some t := by
  cases h : step s l <;> simp [exec, h]

theorem exec_append {step : σ → ι → Option σ} {s t : σ} {ls ls' : List ι} :
    exec step s (ls ++ ls') = some t ↔
      ∃ s', exec step s ls = some s' ∧ exec step s' ls' = some t := by
  induction ls generalizing s with
  | nil => simp
  | cons l ls ih => simp only [List.cons_append, exec_cons, ih]; grind

theorem Meets.head {step : σ → ι → Option σ} {ok : σ → ι → Prop} {s : σ} {l : ι} {ls : List ι}
    (h : Meets step ok s (l :: ls)) : ok s l := h.1

theorem Meets.tail {step : σ → ι → Option σ} {ok : σ → ι → Prop} {s s' : σ} {l : ι} {ls : List ι}
    (h : Meets step ok s (l :: ls)) (hs : step s l = some s') : Meets step ok s' ls := by
  have := h.2
  rwa [hs] at this

theorem Meets.split {step : σ → ι → Option σ} {ok : σ → ι → Prop} {s t : σ} {ls ls' : List ι}
    (h : Meets step ok s (ls ++ ls')) (hr : exec step s ls = some t) :
    Meets step ok s ls ∧ Meets step ok t ls' := by
  induction ls generalizing s with
  | nil => cases hr; exact ⟨True.intro, h⟩
  | cons l ls ih =>
    obtain ⟨s', hs, hr⟩ := exec_cons.1 hr
    obtain ⟨h₁, h₂⟩ := ih (h.tail hs) hr
    refine ⟨⟨h.head, ?_⟩, h₂⟩
    rwa [hs]

/-- A condition on the labels alone joins the condition of the run. -/
theorem Meets.and_mem {step : σ → ι → Option σ} {ok : σ → ι → Prop} {P : ι → Prop} {s : σ}
    {ls : List ι} (h : Meets step ok s ls) (hP : ∀ l ∈ ls, P l) :
    Meets step (fun s l => ok s l ∧ P l) s ls := by
  induction ls generalizing s with
  | nil => exact True.intro
  | cons l ls ih =>
    refine ⟨⟨h.head, hP l List.mem_cons_self⟩, ?_⟩
    cases hs : step s l with
    | none => exact True.intro
    | some s' => exact ih (h.tail hs) fun l' hl' => hP l' (List.mem_cons_of_mem _ hl')

theorem Meets.trivial (step : σ → ι → Option σ) : ∀ s ls, Meets step (fun _ _ => True) s ls
  | _, [] => True.intro
  | s, l :: ls => ⟨True.intro, by
    cases step s l with
    | none => exact True.intro
    | some s' => exact Meets.trivial step s' ls⟩

/-- **Invariant rule.** What every step meeting `ok` preserves holds at the end
of every run whose steps all meet `ok`. -/
theorem exec_invariant {step : σ → ι → Option σ} {ok : σ → ι → Prop} {I : σ → Prop}
    (hstep : ∀ s l s', I s → ok s l → step s l = some s' → I s') :
    ∀ {s t : σ} {ls : List ι}, I s → Meets step ok s ls → exec step s ls = some t → I t
  | s, t, [], hi, _, h => by
    cases h; exact hi
  | s, t, l :: ls, hi, hm, h => by
    obtain ⟨s', hs, h⟩ := exec_cons.1 h
    exact exec_invariant hstep (hstep s l s' hi hm.head hs) (hm.tail hs) h

/-! ### A part of the state -/

section Part

variable {α ω : Type*} {step : σ → ι → Option σ} {inputs : σ → ι → List α}

/-- What the steps of a run bring to a part of the state, in order. -/
def arrivals (step : σ → ι → Option σ) (inputs : σ → ι → List α) : σ → List ι → List α
  | _, [] => []
  | s, l :: ls => inputs s l ++
    match step s l with
    | none => []
    | some s' => arrivals step inputs s' ls

variable {part : σ → ω} {drive : ω → α → ω} {I : σ → Prop}

/-- **Part rule.** Where every step does to a part of the state what its inputs
do, so does every run. -/
theorem exec_part (hstep : ∀ s l s', I s → step s l = some s' →
      I s' ∧ part s' = (inputs s l).foldl drive (part s)) :
    ∀ {s t : σ} {ls : List ι}, I s → exec step s ls = some t →
      I t ∧ part t = (arrivals step inputs s ls).foldl drive (part s)
  | s, t, [], hi, h => by
    cases h
    exact ⟨hi, rfl⟩
  | s, t, l :: ls, hi, h => by
    obtain ⟨s', hs, h⟩ := exec_cons.1 h
    obtain ⟨hi', hpart⟩ := hstep s l s' hi hs
    obtain ⟨hit, ht⟩ := exec_part hstep hi' h
    rw [arrivals, hs, List.foldl_append, ← hpart]
    exact ⟨hit, ht⟩

/-- Two runs that bring a part of the state the same inputs leave it the same. -/
theorem exec_agree (hstep : ∀ s l s', I s → step s l = some s' →
      I s' ∧ part s' = (inputs s l).foldl drive (part s))
    {s s' t t' : σ} {ls ls' : List ι} (hi : I s) (hi' : I s') (hpart : part s = part s')
    (h : exec step s ls = some t) (h' : exec step s' ls' = some t')
    (heq : arrivals step inputs s ls = arrivals step inputs s' ls') : part t = part t' := by
  rw [(exec_part hstep hi h).2, (exec_part hstep hi' h').2, heq, hpart]

end Part

end VcsClient.Lib
