import Mathlib.Data.List.Basic
import Mathlib.Tactic.Common

/-!
# Fields joined without escapes

Entries of a head and a body, written one after the other as head, colon, body, bar. The
heads contain neither separator; a body may contain anything, so it is plain only when it
contains no bar followed by a head and a colon. Among plain entries the text tells the
entries (`render_inj`), and every list of entries is written like a plain one, a longer one
unless it was plain itself (`exists_plain`).
-/

namespace VcsClient.Lib

variable {α : Type*} {colon bar : α} {Head : List α → Prop}

def render (colon bar : α) (es : List (List α × List α)) : List α :=
  es.flatMap fun e => e.1 ++ colon :: (e.2 ++ [bar])

/-- Nothing in the body reads like the end of one entry and the head of the next. -/
def PlainBody (colon bar : α) (Head : List α → Prop) (b : List α) : Prop :=
  ∀ x h y, b = x ++ bar :: (h ++ colon :: y) → ¬Head h

theorem render_cons (e : List α × List α) (es : List (List α × List α)) :
    render colon bar (e :: es) = e.1 ++ colon :: (e.2 ++ bar :: render colon bar es) := by
  simp [render]

theorem render_append (es es' : List (List α × List α)) :
    render colon bar (es ++ es') = render colon bar es ++ render colon bar es' := by
  simp [render]

theorem append_cons_inj {sep : α} {a a' b b' : List α} (ha : sep ∉ a) (ha' : sep ∉ a')
    (h : a ++ sep :: b = a' ++ sep :: b') : a = a' ∧ b = b' := by
  induction a generalizing a' with
  | nil =>
    cases a' with
    | nil => exact ⟨rfl, (List.cons.inj h).2⟩
    | cons c a' => exact absurd ((List.cons.inj h).1 ▸ List.mem_cons_self) ha'
  | cons c a ih =>
    cases a' with
    | nil => exact absurd ((List.cons.inj h).1 ▸ List.mem_cons_self) ha
    | cons c' a' =>
      obtain ⟨rfl, htail⟩ := List.cons.inj h
      obtain ⟨rfl, rfl⟩ := ih (fun hm => ha (List.mem_cons_of_mem _ hm))
        (fun hm => ha' (List.mem_cons_of_mem _ hm)) htail
      exact ⟨rfl, rfl⟩

/-- A body that goes on past the end of another contains the head of the entry after it. -/
theorem overrun {es : List (List α × List α)} {u r : List α} (hsep : bar ≠ colon)
    (hHead : ∀ h, Head h → colon ∉ h ∧ bar ∉ h) (hes : ∀ e ∈ es, Head e.1)
    (h : render colon bar es = u ++ bar :: r) : ∃ x y, Head x ∧ u = x ++ colon :: y := by
  cases es with
  | nil => simp [render] at h
  | cons e es =>
    rw [render_cons] at h
    have he := hes e List.mem_cons_self
    -- the first bar comes after the head and its colon
    have hfree : bar ∉ e.1 ++ [colon] := by
      simp [(hHead _ he).2, hsep]
    have h : (e.1 ++ [colon]) ++ (e.2 ++ bar :: render colon bar es) = u ++ bar :: r := by
      simpa using h
    rcases List.append_eq_append_iff.1 h with ⟨v, hu, -⟩ | ⟨v, hv, hr⟩
    · exact ⟨e.1, v, he, by simpa using hu⟩
    · cases v with
      | nil => exact ⟨e.1, [], he, by simpa using hv.symm⟩
      | cons c v =>
        obtain ⟨rfl, -⟩ := List.cons.inj hr
        exact absurd (hv ▸ by simp) hfree

/-- **The text tells the entries** when their bodies are plain. -/
theorem render_inj {es es' : List (List α × List α)} (hsep : bar ≠ colon)
    (hHead : ∀ h, Head h → colon ∉ h ∧ bar ∉ h) (hes : ∀ e ∈ es, Head e.1)
    (hes' : ∀ e ∈ es', Head e.1) (hplain : ∀ e ∈ es, PlainBody colon bar Head e.2)
    (hplain' : ∀ e ∈ es', PlainBody colon bar Head e.2)
    (h : render colon bar es = render colon bar es') : es = es' := by
  induction es generalizing es' with
  | nil =>
    cases es' with
    | nil => rfl
    | cons e' es' => simp [render] at h
  | cons e es ih =>
    cases es' with
    | nil => simp [render] at h
    | cons e' es' =>
      rw [render_cons, render_cons] at h
      obtain ⟨hhead, hrest⟩ := append_cons_inj (hHead _ (hes e List.mem_cons_self)).1
        (hHead _ (hes' e' List.mem_cons_self)).1 h
      have htail := fun x hx => hes x (List.mem_cons_of_mem _ hx)
      have htail' := fun x hx => hes' x (List.mem_cons_of_mem _ hx)
      -- neither body goes on past the other
      have hbody : e.2 = e'.2 := by
        rcases List.append_eq_append_iff.1 hrest with ⟨v, he', hv⟩ | ⟨v, he, hv⟩
        · cases v with
          | nil => simpa using he'.symm
          | cons c v =>
            obtain ⟨rfl, hes⟩ := List.cons.inj hv
            obtain ⟨x, y, hx, rfl⟩ := overrun (u := v) hsep hHead htail hes
            exact absurd hx (hplain' e' List.mem_cons_self _ _ _ he')
        · cases v with
          | nil => simpa using he
          | cons c v =>
            obtain ⟨rfl, hes⟩ := List.cons.inj hv
            obtain ⟨x, y, hx, rfl⟩ := overrun (u := v) hsep hHead htail' hes
            exact absurd hx (hplain e List.mem_cons_self _ _ _ he)
      rw [hbody, List.append_cancel_left_eq] at hrest
      rw [ih htail htail' (fun x hx => hplain x (List.mem_cons_of_mem _ hx))
        (fun x hx => hplain' x (List.mem_cons_of_mem _ hx)) (List.cons.inj hrest).2]
      exact congrArg (· :: es') (Prod.ext hhead hbody)

/-- One entry is written like plain ones, two at least unless it was plain itself. -/
theorem exists_plain_entry {h b : List α} (hh : Head h) :
    ∃ es : List (List α × List α), (∀ e ∈ es, Head e.1) ∧
      (∀ e ∈ es, PlainBody colon bar Head e.2) ∧
      render colon bar es = render colon bar [(h, b)] ∧ 1 ≤ es.length ∧
      (¬PlainBody colon bar Head b → 2 ≤ es.length) := by
  induction hn : b.length using Nat.strongRecOn generalizing h b with
  | ind n ih =>
    subst hn
    by_cases hplain : PlainBody colon bar Head b
    · exact ⟨[(h, b)], by simpa using hh, by simpa using hplain, rfl, Nat.le_refl _, fun hno =>
        absurd hplain hno⟩
    · simp only [PlainBody, not_forall, not_not] at hplain
      obtain ⟨x, h', y, rfl, hh'⟩ := hplain
      obtain ⟨es, hes, hplain, hrender, hlen, -⟩ := ih x.length (by simp) hh rfl
      obtain ⟨es', hes', hplain', hrender', hlen', -⟩ :=
        ih y.length (by simp; omega) hh' rfl
      refine ⟨es ++ es', fun e he => ?_, fun e he => ?_, ?_, ?_, fun _ => ?_⟩
      · exact (List.mem_append.1 he).elim (hes e) (hes' e)
      · exact (List.mem_append.1 he).elim (hplain e) (hplain' e)
      · rw [render_append, hrender, hrender']
        simp [render]
      · rw [List.length_append]
        omega
      · rw [List.length_append]
        omega

/-- **Every text is that of plain entries**, of more of them unless they were plain. -/
theorem exists_plain {es : List (List α × List α)} (hes : ∀ e ∈ es, Head e.1) :
    ∃ es' : List (List α × List α), (∀ e ∈ es', Head e.1) ∧
      (∀ e ∈ es', PlainBody colon bar Head e.2) ∧
      render colon bar es' = render colon bar es ∧ es.length ≤ es'.length ∧
      ((∃ e ∈ es, ¬PlainBody colon bar Head e.2) → es.length < es'.length) := by
  induction es with
  | nil => exact ⟨[], by simp, by simp, rfl, Nat.le_refl _, by simp⟩
  | cons e es ih =>
    obtain ⟨es₁, hes₁, hplain₁, hrender₁, hlen₁, hmore₁⟩ :=
      @exists_plain_entry _ colon bar Head _ e.2 (hes e List.mem_cons_self)
    obtain ⟨es₂, hes₂, hplain₂, hrender₂, hlen₂, hmore₂⟩ :=
      ih fun x hx => hes x (List.mem_cons_of_mem _ hx)
    refine ⟨es₁ ++ es₂, fun x hx => ?_, fun x hx => ?_, ?_, ?_, ?_⟩
    · exact (List.mem_append.1 hx).elim (hes₁ x) (hes₂ x)
    · exact (List.mem_append.1 hx).elim (hplain₁ x) (hplain₂ x)
    · rw [render_append, hrender₁, hrender₂, ← render_append]
      rfl
    · rw [List.length_append, List.length_cons]
      omega
    · rintro ⟨x, hx, hno⟩
      rw [List.length_append, List.length_cons]
      rcases List.mem_cons.1 hx with rfl | hx
      · have := hmore₁ hno
        omega
      · have := hmore₂ ⟨x, hx, hno⟩
        omega

end VcsClient.Lib
