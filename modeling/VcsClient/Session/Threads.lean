import VcsClient.Session.Moves

/-!
# The goroutines of a run

A step is one goroutine's move, or a new goroutine at the first step of a
method. What holds of each goroutine and the manager is taken from state to
state by looking at the goroutine that moved and at the others.
-/

namespace VcsClient.Session

open VcsClient.Control VcsClient.Lib

theorem Manager.advance_next {cap : ℕ} {m : Manager} {t : ℕ} {pc : Pc} {a : Answer} {mv : Move}
    (h : m.advance cap t pc a = some mv) : mv.m.next = m.next := by
  replace h := advance_moves h
  induction h <;> rfl

namespace System

variable {cap : ℕ} {s s' : System}

theorem step_cases {l : Label} (h : s.step cap l = some s') :
    (∃ c, l = .call c ∧ s' = s.enter c) ∨
      ∃ t a pc mv, l = .run t a ∧ s.threads.lookup t = some pc ∧
        s.m.advance cap t pc a = some mv ∧ s' = s.after t mv := by
  cases l with
  | call c => exact .inl ⟨c, rfl, (Option.some.inj h).symm⟩
  | run t a =>
    simp only [step] at h
    cases hpc : s.threads.lookup t with
    | none => simp [hpc] at h
    | some pc =>
      simp only [hpc, Option.map_eq_some_iff] at h
      obtain ⟨mv, hmv, rfl⟩ := h
      exact .inr ⟨t, a, pc, mv, rfl, hpc, hmv, rfl⟩

theorem step_of_advance {t : ℕ} {a : Answer} {pc : Pc} {mv : Move}
    (hpc : s.threads.lookup t = some pc) (hmv : s.m.advance cap t pc a = some mv) :
    s.step cap (.run t a) = some (s.after t mv) := by
  simp only [step, hpc, hmv, Option.map_some]

theorem lookup_goto (threads : AList fun _ : ℕ => Pc) (t : ℕ) (pc : Option Pc) (u : ℕ) :
    (goto threads t pc).lookup u = if u = t then pc else threads.lookup u := by
  cases pc with
  | none =>
    by_cases h : u = t
    · subst h
      simp [goto]
    · simp [goto, AList.lookup_erase_ne h, h]
  | some pc =>
    by_cases h : u = t
    · subst h
      simp [goto]
    · simp [goto, AList.lookup_insert_ne h, h]

theorem lookup_after (s : System) (t : ℕ) (mv : Move) (u : ℕ) :
    (s.after t mv).threads.lookup u =
      if mv.spawn = true ∧ u = mv.m.next then some .recv
      else if u = t then mv.pc else s.threads.lookup u := by
  unfold after
  by_cases hspawn : mv.spawn = true
  · by_cases hu : u = mv.m.next
    · subst hu
      simp [hspawn]
    · simp [hspawn, hu, AList.lookup_insert_ne hu, lookup_goto]
  · simp [hspawn, lookup_goto]

theorem lookup_enter (s : System) (c : Call) (u : ℕ) :
    (s.enter c).threads.lookup u = if u = s.m.next then some c.entry else s.threads.lookup u := by
  by_cases hu : u = s.m.next
  · subst hu
    simp [enter]
  · simp [enter, AList.lookup_insert_ne hu, hu]

/-- Only the number of the next goroutine is changed beside the move. -/
theorem after_m (s : System) (t : ℕ) (mv : Move) :
    (s.after t mv).m = { mv.m with next := (s.after t mv).m.next } := by
  unfold after
  split <;> rfl

/-- Every number in use was given out. -/
def Numbered (s : System) : Prop := ∀ t pc, s.threads.lookup t = some pc → t < s.m.next

theorem init_numbered : init.Numbered := fun t pc h => by
  simp [init] at h

theorem next_after {t : ℕ} {mv : Move} (hnext : mv.m.next = s.m.next) :
    s.m.next ≤ (s.after t mv).m.next ∧ (mv.spawn = true → s.m.next < (s.after t mv).m.next) := by
  unfold after
  split
  · rw [← hnext]
    exact ⟨Nat.le_succ _, fun _ => Nat.lt_succ_self _⟩
  · next h => exact ⟨Nat.le_of_eq hnext.symm, fun h' => absurd h' h⟩

theorem enter_numbered (h : s.Numbered) (c : Call) : (s.enter c).Numbered := by
  intro u pc hu
  rw [lookup_enter] at hu
  show u < s.m.next + 1
  split at hu
  · omega
  · have := h u pc hu
    omega

theorem step_numbered {l : Label} (h : s.Numbered) (hs : s.step cap l = some s') :
    s'.Numbered := by
  rcases step_cases hs with ⟨c, rfl, rfl⟩ | ⟨t, a, pc, mv, rfl, hpc, hmv, rfl⟩
  · exact enter_numbered h c
  · intro u pc' hu
    have hnext := Manager.advance_next hmv
    obtain ⟨hle, hlt⟩ := next_after (t := t) hnext
    rw [lookup_after] at hu
    split at hu
    · next hspawn =>
      have := hlt hspawn.1
      omega
    · split at hu
      · next he =>
        have := h t pc hpc
        omega
      · have := h u pc' hu
        omega

theorem lookup_after_of_ne (hn : s.Numbered) {t u : ℕ} {mv : Move} {pc : Pc}
    (hnext : mv.m.next = s.m.next) (hu : s.threads.lookup u = some pc) (hne : u ≠ t) :
    (s.after t mv).threads.lookup u = some pc := by
  have hlt := hn u pc hu
  rw [lookup_after, if_neg (fun h => by omega), if_neg hne, hu]

theorem lookup_after_self (hn : s.Numbered) {t : ℕ} {mv : Move} {pc : Pc}
    (hnext : mv.m.next = s.m.next) (ht : s.threads.lookup t = some pc) :
    (s.after t mv).threads.lookup t = mv.pc := by
  have hlt := hn t pc ht
  rw [lookup_after, if_neg (fun h => by omega), if_pos rfl]

theorem lookup_enter_of_some (hn : s.Numbered) {c : Call} {u : ℕ} {pc : Pc}
    (hu : s.threads.lookup u = some pc) : (s.enter c).threads.lookup u = some pc := by
  have hlt := hn u pc hu
  rw [lookup_enter, if_neg (by omega), hu]

/-- **Goroutines one by one.** A fact about every goroutine survives a step when
it holds of where the move leads, of the goroutine a move starts, and still of
the others. -/
theorem threads_after {P : ℕ → Pc → Prop} {t : ℕ} {mv : Move} (hself : ∀ pc, mv.pc = some pc → P t pc)
    (hspawn : mv.spawn = true → P mv.m.next .recv)
    (hothers : ∀ u pc, u ≠ t → s.threads.lookup u = some pc → P u pc) :
    ∀ u pc, (s.after t mv).threads.lookup u = some pc → P u pc := by
  intro u pc hu
  rw [lookup_after] at hu
  split at hu
  · next h =>
    obtain ⟨h, rfl⟩ := h
    cases hu
    exact hspawn h
  · split at hu
    · next he =>
      subst he
      exact hself pc hu
    · next hne => exact hothers u pc hne hu

theorem threads_enter {P : ℕ → Pc → Prop} {c : Call} (hnew : P s.m.next c.entry)
    (hothers : ∀ u pc, s.threads.lookup u = some pc → P u pc) :
    ∀ u pc, (s.enter c).threads.lookup u = some pc → P u pc := by
  intro u pc hu
  rw [lookup_enter] at hu
  split at hu
  · next he =>
    subst he
    cases hu
    exact hnew
  · exact hothers u pc hu

end System

end VcsClient.Session
