import Mathlib.Data.Int.DivMod
import Mathlib.Data.List.Chain
import Mathlib.Data.List.Infix
import Mathlib.Data.List.Pairwise
import Mathlib.Tactic.Linarith
import VcsClient.Lib.Machine

/-!
# Logs

A log lists what happened, newest first. `Each P` says that every event satisfied
`P` of what came before it; `since p` is what came after the last event of the kind
`p`. Of times that each come at least a period `p` after the ones before, any stretch
of `w` holds at most `w / p + 1` (`Apart.length_le`).

The edges of one held thing are a run of the two-state machine `Edge.apply`, which
accepts a press when nothing is held and a release when something is, exactly when
presses and releases alternate, starting with a press; the state it ends in is
whether the last one was a press (`alternates_of_exec`).
-/

namespace VcsClient.Lib

section Events

variable {α : Type*}

/-- Every event satisfies `P` of what came before. -/
def Each (P : List α → α → Prop) (log : List α) : Prop :=
  ∀ later e earlier, log = later ++ e :: earlier → P earlier e

variable {P : List α → α → Prop} {p q : α → Bool} {e : α} {log : List α}

theorem each_nil : Each P [] := fun later e earlier h => by cases later <;> cases h

theorem each_cons : Each P (e :: log) ↔ P log e ∧ Each P log := by
  constructor
  · exact fun h => ⟨h [] e log rfl, fun later e' earlier hl => h (e :: later) e' earlier (by simp [hl])⟩
  · rintro ⟨he, hlog⟩ later e' earlier hl
    cases later with
    | nil =>
      cases hl
      exact he
    | cons e'' later =>
      cases hl
      exact hlog later e' earlier rfl

/-- What came after the last event of the kind `p`. -/
def since (p : α → Bool) (log : List α) : List α := log.takeWhile fun e => !p e

theorem since_cons (p : α → Bool) (e : α) (log : List α) :
    since p (e :: log) = if p e then [] else e :: since p log := by
  unfold since
  rw [List.takeWhile_cons]
  cases p e <;> rfl

theorem since_prefix_since (h : ∀ e, q e = true → p e = true) (log : List α) :
    since p log <+: since q log := by
  induction log with
  | nil => exact List.prefix_rfl
  | cons e log ih =>
    rw [since_cons, since_cons]
    by_cases hp : p e = true
    · rw [if_pos hp]
      exact List.nil_prefix
    · rw [if_neg hp, if_neg fun hq => hp (h e hq)]
      exact List.cons_prefix_cons.2 ⟨rfl, ih⟩

end Events

/-! ## Times a period apart -/

section Times

def Apart (p : ℤ) (ts : List ℤ) : Prop := ts.Pairwise fun t t' => t' + p ≤ t

variable {p a w t : ℤ} {ts : List ℤ}

theorem Apart.room (h : Apart p (t :: ts)) (ha : ∀ t' ∈ t :: ts, a ≤ t') :
    ts.length * p ≤ t - a := by
  induction ts generalizing t with
  | nil => simpa using ha t List.mem_cons_self
  | cons u us ih =>
    have hroom : us.length * p ≤ u - a :=
      ih (List.Pairwise.of_cons h) fun t' ht' => ha t' (List.mem_cons_of_mem _ ht')
    have hapart : u + p ≤ t := List.rel_of_pairwise_cons h List.mem_cons_self
    push_cast [List.length_cons]
    linarith

theorem Apart.length_le (h : Apart p ts) (hp : 0 < p) (hw : 0 ≤ w)
    (hin : ∀ t ∈ ts, a ≤ t ∧ t ≤ a + w) : (ts.length : ℤ) ≤ w / p + 1 := by
  cases ts with
  | nil => exact add_nonneg (Int.ediv_nonneg hw hp.le) zero_le_one
  | cons t ts =>
    have hroom := h.room fun t' ht' => (hin t' ht').1
    have hnewest := (hin t List.mem_cons_self).2
    have hlen : (ts.length : ℤ) ≤ w / p := (Int.le_ediv_iff_mul_le hp).2 (by linarith)
    push_cast [List.length_cons]
    linarith

end Times

/-! ## Press and release edges -/

section Edges

inductive Edge where
  | press
  | release
  deriving DecidableEq

/-- Whether the thing is held after the edge; `none` when the edge repeats. -/
def Edge.apply : Bool → Edge → Option Bool
  | false, .press => some true
  | true, .release => some false
  | _, _ => none

/-- Press, release, press, release, and so on. -/
def Alternates (l : List Edge) : Prop := l.IsChain (· ≠ ·) ∧ ∀ e ∈ l.head?, e = .press

instance (l : List Edge) : Decidable (Alternates l) := inferInstanceAs (Decidable (_ ∧ _))

def Edge.due : Bool → Edge
  | false => .press
  | true => .release

theorem exec_edge_cons {b b' : Bool} {e : Edge} {l : List Edge} :
    exec Edge.apply b (e :: l) = some b' ↔ e = .due b ∧ exec Edge.apply (!b) l = some b' := by
  cases b <;> cases e <;> simp [exec, Edge.apply, Edge.due]

theorem chain_of_exec {b b' : Bool} {l : List Edge} (h : exec Edge.apply b l = some b') :
    l.IsChain (· ≠ ·) ∧ ∀ e ∈ l.head?, e = .due b := by
  induction l generalizing b with
  | nil => simp
  | cons e l ih =>
    obtain ⟨he, h⟩ := exec_edge_cons.1 h
    obtain ⟨hchain, hhead⟩ := ih h
    refine ⟨List.isChain_cons.2 ⟨fun e' he' => ?_, hchain⟩, by simp [he]⟩
    rw [hhead e' he', he]
    cases b <;> simp [Edge.due]

theorem last_of_exec {b b' : Bool} {l : List Edge} (h : exec Edge.apply b l = some b')
    (hne : l ≠ []) : b' = true ↔ l.getLast? = some .press := by
  induction l generalizing b with
  | nil => exact absurd rfl hne
  | cons e l ih =>
    obtain ⟨he, h⟩ := exec_edge_cons.1 h
    cases l with
    | nil => cases h; cases b <;> simp [he, Edge.due]
    | cons e' l => rw [List.getLast?_cons_cons]; exact ih h (by simp)

/-- **Accepted edges alternate**, and the last one tells whether it is held. -/
theorem alternates_of_exec {b : Bool} {l : List Edge} (h : exec Edge.apply false l = some b) :
    Alternates l ∧ (b = true ↔ l.getLast? = some .press) := by
  refine ⟨chain_of_exec h, ?_⟩
  cases l with
  | nil => cases h; simp
  | cons e l => exact last_of_exec h (by simp)

end Edges

end VcsClient.Lib
