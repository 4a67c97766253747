import Mathlib.Algebra.Order.Group.Defs
import Mathlib.Data.List.Pairwise

/-!
# Arrivals cut into spells

Timed arrivals are cut into spells: an arrival joins the running spell, and a
spell is closed once nothing has arrived for `idle`. `Cut` is what this keeps
whatever the order of arrivals and closings, and however late a closing comes:
the spells are the arrivals in order, and two arrivals in different spells lie
at least `idle` apart. Hence every arrival lies in the interval of exactly one
spell (`Cut.covered_once`) and neighbours closer than `idle` share theirs
(`Cut.together`).
-/

namespace VcsClient.Lib

variable {T : Type*}

/-- The spells closed so far and the running one, which is empty between spells. -/
structure Spells (T : Type*) where
  closed : List (List T)
  running : List T

namespace Spells

def empty : Spells T := ⟨[], []⟩

/-- All spells; the running one is the last. -/
def all (s : Spells T) : List (List T) :=
  s.closed ++ if s.running.isEmpty then [] else [s.running]

def arrive (s : Spells T) (t : T) : Spells T := { s with running := s.running ++ [t] }

def close (s : Spells T) : Spells T := ⟨s.all, []⟩

theorem mem_all {s : Spells T} {g : List T} :
    g ∈ s.all ↔ g ∈ s.closed ∨ g = s.running ∧ g ≠ [] := by
  cases hr : s.running with
  | nil => simp [all, hr]
  | cons t ts => simp only [all, hr]; grind

theorem flatten_all (s : Spells T) : s.all.flatten = s.closed.flatten ++ s.running := by
  cases hr : s.running <;> simp [all, hr]

/-- The interval of a spell contains `t`. -/
def Covers [LE T] (g : List T) (t : T) : Prop :=
  ∃ first ∈ g.head?, ∃ last ∈ g.getLast?, first ≤ t ∧ t ≤ last

theorem covers_iff [LE T] {g : List T} {first last t : T} (hf : g.head? = some first)
    (hl : g.getLast? = some last) : Covers g t ↔ first ≤ t ∧ t ≤ last := by
  simp [Covers, hf, hl]

section Cut

variable [Add T] [Preorder T]

/-- The arrivals up to `now`, cut into spells at least `idle` apart. -/
structure Cut (idle : T) (arrivals : List T) (now : T) (s : Spells T) : Prop where
  flatten : s.closed.flatten ++ s.running = arrivals
  sorted : arrivals.Pairwise (· ≤ ·)
  past : ∀ t ∈ arrivals, t ≤ now
  nonempty : ∀ g ∈ s.closed, g ≠ []
  apart : s.all.Pairwise fun g g' => ∀ a ∈ g, ∀ b ∈ g', a + idle ≤ b
  ended : s.running = [] → ∀ t ∈ arrivals, t + idle ≤ now

variable {idle now now' t : T} {arrivals : List T} {s : Spells T}

namespace Cut

theorem empty (idle now : T) : Cut idle [] now (.empty : Spells T) :=
  ⟨rfl, .nil, by simp, by simp [Spells.empty], by simp [Spells.empty, all], by simp⟩

theorem wait (h : Cut idle arrivals now s) (hle : now ≤ now') : Cut idle arrivals now' s :=
  { h with
    past := fun t ht => (h.past t ht).trans hle
    ended := fun hr t ht => (h.ended hr t ht).trans hle }

theorem arrive (h : Cut idle arrivals now s) (hle : now ≤ t) :
    Cut idle (arrivals ++ [t]) t (s.arrive t) := by
  refine ⟨by simp [Spells.arrive, ← h.flatten], ?_, ?_, h.nonempty, ?_, ?_⟩
  · refine List.pairwise_append.2 ⟨h.sorted, List.pairwise_singleton _ _, fun a ha b hb => ?_⟩
    rw [List.mem_singleton.1 hb]
    exact (h.past a ha).trans hle
  · intro a ha
    rcases List.mem_append.1 ha with ha | ha
    · exact (h.past a ha).trans hle
    · exact (List.mem_singleton.1 ha).le
  · have hall : (s.arrive t).all = s.closed ++ [s.running ++ [t]] := by simp [all, Spells.arrive]
    obtain ⟨hclosed, -, hcross⟩ := List.pairwise_append.1 h.apart
    rw [hall]
    refine List.pairwise_append.2 ⟨hclosed, List.pairwise_singleton _ _, fun g hg g' hg' => ?_⟩
    rw [List.mem_singleton.1 hg']
    intro a ha b hb
    have hmem : a ∈ arrivals := by
      rw [← h.flatten]
      exact List.mem_append_left _ (List.mem_flatten.2 ⟨g, hg, ha⟩)
    rcases List.mem_append.1 hb with hb | hb
    · -- the running spell is not empty, so it was already the last one
      refine hcross g hg s.running ?_ a ha b hb
      simp [List.ne_nil_of_mem hb]
    · rw [List.mem_singleton.1 hb]
      cases hr : s.running with
      | nil => exact (h.ended hr a hmem).trans hle
      | cons r rs =>
        have hr' : r ∈ s.running := by simp [hr]
        refine (hcross g hg s.running (by simp [hr]) a ha r hr').trans ?_
        refine (h.past r ?_).trans hle
        rw [← h.flatten]
        exact List.mem_append_right _ hr'
  · intro hr
    simp [Spells.arrive] at hr

/-- A spell is closed when its last arrival is `idle` ago. -/
theorem close (h : Cut idle arrivals now s) (hle : now ≤ now')
    (hidle : ∀ t ∈ s.running, t + idle ≤ now') : Cut idle arrivals now' s.close := by
  refine ⟨?_, h.sorted, fun t ht => (h.past t ht).trans hle, ?_, ?_, ?_⟩
  · simpa [Spells.close, flatten_all] using h.flatten
  · intro g hg
    rcases mem_all.1 hg with hg | ⟨-, hne⟩
    · exact h.nonempty g hg
    · exact hne
  · simpa [Spells.close, all] using h.apart
  · intro _ t ht
    rw [← h.flatten] at ht
    cases hr : s.running with
    | nil =>
      rw [h.flatten] at ht
      exact (h.ended hr t ht).trans hle
    | cons r rs =>
      rcases List.mem_append.1 ht with ht | ht
      · obtain ⟨g, hg, htg⟩ := List.mem_flatten.1 ht
        obtain ⟨-, -, hcross⟩ := List.pairwise_append.1 h.apart
        have hr' : r ∈ s.running := by simp [hr]
        refine (hcross g hg s.running (by simp [hr]) t htg r hr').trans ?_
        refine (h.past r ?_).trans hle
        rw [← h.flatten]
        exact List.mem_append_right _ hr'
      · exact hidle t ht

theorem all_flatten (h : Cut idle arrivals now s) : s.all.flatten = arrivals :=
  (flatten_all s).trans h.flatten

theorem exists_mem (h : Cut idle arrivals now s) (ht : t ∈ arrivals) : ∃ g ∈ s.all, t ∈ g :=
  List.mem_flatten.1 (h.all_flatten.symm ▸ ht)

theorem nonempty_all (h : Cut idle arrivals now s) : ∀ g ∈ s.all, g ≠ [] := by
  intro g hg
  rcases mem_all.1 hg with hg | ⟨-, hne⟩
  · exact h.nonempty g hg
  · exact hne

/-- Two spells lie at least `idle` apart, one after the other. -/
theorem far (h : Cut idle arrivals now s) {g g' : List T} (hg : g ∈ s.all) (hg' : g' ∈ s.all)
    (hne : g ≠ g') : (∀ a ∈ g, ∀ b ∈ g', a + idle ≤ b) ∨ ∀ a ∈ g', ∀ b ∈ g, a + idle ≤ b := by
  let Far (g g' : List T) : Prop :=
    (∀ a ∈ g, ∀ b ∈ g', a + idle ≤ b) ∨ ∀ a ∈ g', ∀ b ∈ g, a + idle ≤ b
  have : Std.Symm Far := ⟨fun _ _ => Or.symm⟩
  have hpair : s.all.Pairwise Far := h.apart.imp Or.inl
  exact hpair.forall hg hg' hne

theorem spell_sorted (h : Cut idle arrivals now s) {g : List T} (hg : g ∈ s.all) :
    g.Pairwise (· ≤ ·) :=
  (List.pairwise_flatten.1 (h.all_flatten.symm ▸ h.sorted)).1 g hg

theorem le_last (h : Cut idle arrivals now s) {g : List T} (hg : g ∈ s.all) (ht : t ∈ g) {last : T}
    (hlast : last ∈ g.getLast?) : t ≤ last := by
  have hsorted := h.spell_sorted hg
  obtain ⟨front, rfl⟩ := List.getLast?_eq_some_iff.1 hlast
  rcases List.mem_append.1 ht with ht | ht
  · exact (List.pairwise_append.1 hsorted).2.2 t ht last (List.mem_singleton_self _)
  · exact (List.mem_singleton.1 ht).le

theorem covers (h : Cut idle arrivals now s) {g : List T} (hg : g ∈ s.all) (ht : t ∈ g) :
    Covers g t := by
  have hne : g ≠ [] := List.ne_nil_of_mem ht
  have hlast := List.getLast?_eq_some_getLast hne
  refine ⟨g.head hne, List.head?_eq_some_head hne, g.getLast hne, hlast, ?_, h.le_last hg ht hlast⟩
  cases g with
  | nil => cases ht
  | cons a g =>
    rcases List.mem_cons.1 ht with rfl | ht
    · exact le_rfl
    · exact (List.pairwise_cons.1 (h.spell_sorted hg)).1 t ht

end Cut

end Cut

section Order

variable [AddCommGroup T] [LinearOrder T] [IsOrderedAddMonoid T]
  {idle now t u : T} {arrivals : List T} {s : Spells T} {g g' : List T}

/-- What lies at least `idle` after another spell is outside its interval. -/
theorem not_covers_of_apart (hidle : 0 < idle)
    (hlt : (∀ a ∈ g, a + idle ≤ t) ∨ ∀ a ∈ g, t + idle ≤ a) : ¬ Covers g t := by
  rintro ⟨first, hfirst, last, hlast, hle, hle'⟩
  rcases hlt with hlt | hlt
  · have := hlt last (List.mem_of_getLast? hlast)
    exact absurd (lt_of_lt_of_le (lt_add_of_pos_right last hidle) this) (not_lt.2 hle')
  · have := hlt first (List.mem_of_mem_head? hfirst)
    exact absurd (lt_of_lt_of_le (lt_add_of_pos_right t hidle) this) (not_lt.2 hle)

namespace Cut

theorem covers_iff_mem (h : Cut idle arrivals now s) (hidle : 0 < idle) (ht : t ∈ arrivals)
    (hg : g ∈ s.all) : Covers g t ↔ t ∈ g := by
  refine ⟨fun hcov => ?_, h.covers hg⟩
  obtain ⟨g₀, hg₀, htg⟩ := h.exists_mem ht
  by_contra htg'
  have hne : g ≠ g₀ := fun he => htg' (he ▸ htg)
  rcases h.far hg hg₀ hne with hfar | hfar
  · exact not_covers_of_apart hidle (.inl fun a ha => hfar a ha t htg) hcov
  · exact not_covers_of_apart hidle (.inr fun a ha => hfar t htg a ha) hcov

/-- **Every arrival lies in the interval of exactly one spell.** -/
theorem covered_once (h : Cut idle arrivals now s) (hidle : 0 < idle) (ht : t ∈ arrivals) :
    ∃ before g after, s.all = before ++ g :: after ∧ Covers g t ∧
      ∀ g' ∈ before ++ after, ¬ Covers g' t := by
  obtain ⟨g, hg, htg⟩ := h.exists_mem ht
  obtain ⟨before, after, hall⟩ := List.append_of_mem hg
  refine ⟨before, g, after, hall, h.covers hg htg, fun g' hg' => ?_⟩
  have hapart := h.apart
  rw [hall] at hapart
  obtain ⟨-, hafter, hbefore⟩ := List.pairwise_append.1 hapart
  rcases List.mem_append.1 hg' with hg' | hg'
  · exact not_covers_of_apart hidle
      (.inl fun a ha => hbefore g' hg' g List.mem_cons_self a ha t htg)
  · exact not_covers_of_apart hidle
      (.inr fun a ha => (List.pairwise_cons.1 hafter).1 g' hg' t htg a ha)

/-- **Arrivals closer than `idle` share their spell.** -/
theorem together (h : Cut idle arrivals now s) (hidle : 0 < idle) (ht : t ∈ arrivals)
    (hu : u ∈ arrivals) (hle : t ≤ u) (hlt : u - t < idle) (hg : g ∈ s.all) :
    Covers g t ↔ Covers g u := by
  have hfar : ∀ {a b : T}, a ≤ b → ¬ b + idle ≤ a := fun hab hba =>
    absurd ((lt_add_of_pos_right _ hidle).trans_le hba) (not_lt.2 hab)
  have hshare : ∀ g₁ ∈ s.all, ∀ g₂ ∈ s.all, t ∈ g₁ → u ∈ g₂ → g₁ = g₂ := by
    intro g₁ hg₁ g₂ hg₂ ht₁ hu₂
    by_contra hne
    rcases h.far hg₁ hg₂ hne with hf | hf
    · exact absurd (le_sub_iff_add_le'.2 (hf t ht₁ u hu₂)) (not_le.2 hlt)
    · exact hfar hle (hf u hu₂ t ht₁)
  rw [h.covers_iff_mem hidle ht hg, h.covers_iff_mem hidle hu hg]
  obtain ⟨g₁, hg₁, ht₁⟩ := h.exists_mem ht
  obtain ⟨g₂, hg₂, hu₂⟩ := h.exists_mem hu
  exact ⟨fun htg => hshare g hg g₂ hg₂ htg hu₂ ▸ hu₂,
    fun hug => (hshare g₁ hg₁ g hg ht₁ hug) ▸ ht₁⟩

end Cut

end Order

end Spells

end VcsClient.Lib
