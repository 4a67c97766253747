import VcsClient.Lib.Fields

/-!
# Fields that each end with a separator

Fields that do not contain the separator can be told from their text (`terminated_inj`),
also from texts of as many fields or more whatever these contain (`terminated_eq`). A
separator within a field can be the end of one instead, and the other way round
(`terminated_shift`, `terminated_merge`).
-/

namespace VcsClient.Lib

variable {α : Type*} {sep : α} {fs gs : List (List α)}

def terminated (sep : α) (fs : List (List α)) : List α := fs.flatMap fun f => f ++ [sep]

theorem terminated_cons (f : List α) (fs : List (List α)) :
    terminated sep (f :: fs) = f ++ sep :: terminated sep fs := by
  simp [terminated]

theorem terminated_append (fs gs : List (List α)) :
    terminated sep (fs ++ gs) = terminated sep fs ++ terminated sep gs :=
  List.flatMap_append

/-- **Fields without the separator** are told from their text. -/
theorem terminated_inj (hfs : ∀ f ∈ fs, sep ∉ f) (hgs : ∀ g ∈ gs, sep ∉ g)
    (h : terminated sep fs = terminated sep gs) : fs = gs := by
  induction fs generalizing gs with
  | nil =>
    cases gs with
    | nil => rfl
    | cons g gs =>
      rw [terminated_cons] at h
      exact absurd h.symm (by simp [terminated])
  | cons f fs ih =>
    cases gs with
    | nil =>
      rw [terminated_cons] at h
      exact absurd h (by simp [terminated])
    | cons g gs =>
      rw [terminated_cons, terminated_cons] at h
      obtain ⟨rfl, htail⟩ :=
        append_cons_inj (hfs f List.mem_cons_self) (hgs g List.mem_cons_self) h
      rw [ih (fun f hf => hfs f (List.mem_cons_of_mem _ hf))
        (fun g hg => hgs g (List.mem_cons_of_mem _ hg)) htail]

/-- The separators of a text: one for each field, and those within them. -/
theorem count_terminated [DecidableEq α] (fs : List (List α)) :
    (terminated sep fs).count sep = fs.length + fs.flatten.count sep := by
  induction fs with
  | nil => rfl
  | cons f fs ih =>
    rw [terminated_cons, List.count_append, List.count_cons_self, ih, List.flatten_cons,
      List.count_append, List.length_cons]
    omega

theorem terminated_eq [DecidableEq α] (hfs : ∀ f ∈ fs, sep ∉ f)
    (h : terminated sep fs = terminated sep gs) (hlen : fs.length ≤ gs.length) : fs = gs := by
  have hnone : fs.flatten.count sep = 0 := by
    refine List.count_eq_zero.2 fun hmem => ?_
    obtain ⟨f, hf, hsep⟩ := List.mem_flatten.1 hmem
    exact hfs f hf hsep
  have hcount := congrArg (List.count sep) h
  rw [count_terminated, count_terminated, hnone] at hcount
  have hnone' : gs.flatten.count sep = 0 := by omega
  refine terminated_inj hfs (fun g hg hsep => ?_) h
  exact List.count_eq_zero.1 hnone' (List.mem_flatten.2 ⟨g, hg, hsep⟩)

theorem terminated_merge (f : List α) (fs : List (List α)) : ∃ f',
    terminated sep (f :: fs) = terminated sep [f'] := by
  induction fs generalizing f with
  | nil => exact ⟨f, rfl⟩
  | cons g fs ih =>
    obtain ⟨f', hf'⟩ := ih (f ++ sep :: g)
    refine ⟨f', ?_⟩
    rw [← hf', terminated_cons, terminated_cons, terminated_cons, List.append_assoc,
      List.cons_append]

/-- A separator within one of two fields, as the end of the first. -/
theorem terminated_shift {p q : List α} (h : sep ∈ p ∨ sep ∈ q) : ∃ p' q',
    terminated sep [p', q'] = terminated sep [p, q] ∧ (p', q') ≠ (p, q) := by
  obtain hp | hq := h
  · obtain ⟨x, y, rfl⟩ := List.append_of_mem hp
    refine ⟨x, y ++ sep :: q, by simp [terminated], fun he => ?_⟩
    have hlen := congrArg List.length (congrArg Prod.fst he)
    simp at hlen
  · obtain ⟨x, y, rfl⟩ := List.append_of_mem hq
    refine ⟨p ++ sep :: x, y, by simp [terminated], fun he => ?_⟩
    have hlen := congrArg List.length (congrArg Prod.fst he)
    simp at hlen

end VcsClient.Lib
