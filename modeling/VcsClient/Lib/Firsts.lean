import Mathlib.Data.List.Nodup
import Mathlib.Tactic.Common

/-!
# First elements of their keys

The elements of a list that are the first ones of their key, and whose key has not been
seen before. They stay in order; a list with one element for each key is left as it is.
-/

namespace VcsClient.Lib

variable {α κ : Type*} [DecidableEq κ] {key : α → κ} {l : List α} {seen : List κ} {a : α} {k : κ}

def firsts (key : α → κ) : List α → List κ → List α
  | [], _ => []
  | a :: l, seen => if key a ∈ seen then firsts key l seen else a :: firsts key l (key a :: seen)

theorem firsts_sublist (key : α → κ) (l : List α) (seen : List κ) :
    (firsts key l seen).Sublist l := by
  induction l generalizing seen with
  | nil => exact List.Sublist.slnil
  | cons a l ih =>
    unfold firsts
    split
    · exact (ih seen).cons a
    · exact (ih _).cons_cons a

theorem mem_map_firsts : k ∈ (firsts key l seen).map key ↔ k ∈ l.map key ∧ k ∉ seen := by
  induction l generalizing seen with
  | nil => simp [firsts]
  | cons a l ih =>
    unfold firsts
    split
    · next hseen =>
      rw [ih, List.map_cons, List.mem_cons]
      constructor
      · exact fun h => ⟨.inr h.1, h.2⟩
      · rintro ⟨rfl | h, hk⟩
        · exact absurd hseen hk
        · exact ⟨h, hk⟩
    · next hseen =>
      rw [List.map_cons, List.mem_cons, ih, List.map_cons, List.mem_cons, List.mem_cons, not_or]
      constructor
      · rintro (rfl | ⟨h, -, hk⟩)
        · exact ⟨.inl rfl, hseen⟩
        · exact ⟨.inr h, hk⟩
      · rintro ⟨rfl | h, hk⟩
        · exact .inl rfl
        · by_cases he : k = key a
          · exact .inl he
          · exact .inr ⟨h, he, hk⟩

theorem nodup_map_firsts (key : α → κ) (l : List α) (seen : List κ) :
    ((firsts key l seen).map key).Nodup := by
  induction l generalizing seen with
  | nil => exact List.nodup_nil
  | cons a l ih =>
    unfold firsts
    split
    · exact ih seen
    · rw [List.map_cons, List.nodup_cons, mem_map_firsts]
      exact ⟨fun h => h.2 List.mem_cons_self, ih _⟩

/-- A list with one element for each key is left as it is. -/
theorem firsts_eq_self (hnodup : (l.map key).Nodup) (hseen : ∀ k ∈ l.map key, k ∉ seen) :
    firsts key l seen = l := by
  induction l generalizing seen with
  | nil => rfl
  | cons a l ih =>
    rw [List.map_cons, List.nodup_cons] at hnodup
    have ha : key a ∉ seen := hseen _ List.mem_cons_self
    unfold firsts
    rw [if_neg ha, ih hnodup.2]
    intro k hk hmem
    obtain rfl | hmem := List.mem_cons.1 hmem
    · exact hnodup.1 hk
    · exact hseen k (List.mem_cons_of_mem _ hk) hmem

theorem find?_of_mem_firsts (h : a ∈ firsts key l seen) :
    l.find? (fun b => key b = key a) = some a := by
  induction l generalizing seen with
  | nil => cases h
  | cons b l ih =>
    unfold firsts at h
    split at h
    · next hseen =>
      have hne : key b ≠ key a := by
        intro he
        have := (mem_map_firsts.1 (List.mem_map_of_mem (f := key) h)).2
        exact this (he ▸ hseen)
      rw [List.find?_cons_of_neg (by simpa using hne)]
      exact ih h
    · obtain rfl | h := List.mem_cons.1 h
      · exact List.find?_cons_of_pos (by simp)
      · have hne : key b ≠ key a := by
          intro he
          have := (mem_map_firsts.1 (List.mem_map_of_mem (f := key) h)).2
          exact this (he ▸ List.mem_cons_self)
        rw [List.find?_cons_of_neg (by simpa using hne)]
        exact ih h

end VcsClient.Lib
