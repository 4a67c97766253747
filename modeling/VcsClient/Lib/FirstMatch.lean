import Mathlib.Data.List.Basic
import Mathlib.Data.List.Forall2

/-!
# The first match of a list

A store that keeps its rows newest first addresses "the newest row with this
key" as the first match. `modifyFirst` rewrites that row and leaves the others
where they are; `forall₂_modifyFirst` compares the two lists row by row, and
`Pairwise.of_forall₂` carries a relation between rows from one to the other.
Rewriting or erasing the first match commutes with choosing rows
(`filter_modifyFirst`, `filter_eraseP`).
-/

namespace VcsClient.Lib

variable {α : Type*}

/-- Rewrite the first element `p` holds of. -/
def modifyFirst (p : α → Bool) (f : α → α) : List α → List α
  | [] => []
  | a :: l => if p a then f a :: l else a :: modifyFirst p f l

theorem modifyFirst_cons (p : α → Bool) (f : α → α) (a : α) (l : List α) :
    modifyFirst p f (a :: l) = if p a then f a :: l else a :: modifyFirst p f l := rfl

theorem forall₂_modifyFirst {R : α → α → Prop} {p : α → Bool} {f : α → α} {l : List α}
    (hrefl : ∀ a, R a a) (h : ∀ a, l.find? p = some a → R a (f a)) :
    List.Forall₂ R l (modifyFirst p f l) := by
  induction l with
  | nil => exact .nil
  | cons a l ih =>
    rw [modifyFirst_cons]
    split
    · next hp => exact .cons (h a (by simp [hp])) (List.forall₂_same.2 fun b _ => hrefl b)
    · next hp =>
      refine .cons (hrefl a) (ih fun b hb => h b ?_)
      simpa [List.find?_cons, hp] using hb

/-- An element of the rewritten list is the rewritten first match or was there. -/
theorem mem_modifyFirst {p : α → Bool} {f : α → α} {l : List α} {x : α}
    (h : x ∈ modifyFirst p f l) : x ∈ l ∨ ∃ a, l.find? p = some a ∧ x = f a := by
  induction l with
  | nil => exact absurd h List.not_mem_nil
  | cons a l ih =>
    rw [modifyFirst_cons] at h
    split at h
    · next hp =>
      rcases List.mem_cons.1 h with rfl | h
      · exact .inr ⟨a, by simp [hp], rfl⟩
      · exact .inl (List.mem_cons_of_mem _ h)
    · next hp =>
      rcases List.mem_cons.1 h with rfl | h
      · exact .inl List.mem_cons_self
      · rcases ih h with h | ⟨b, hb, rfl⟩
        · exact .inl (List.mem_cons_of_mem _ h)
        · exact .inr ⟨b, by simpa [List.find?_cons, hp] using hb, rfl⟩

theorem mem_modifyFirst_self {p : α → Bool} {f : α → α} {l : List α} {a : α}
    (h : l.find? p = some a) : f a ∈ modifyFirst p f l := by
  induction l with
  | nil => simp at h
  | cons b l ih =>
    rw [modifyFirst_cons]
    split
    · next hp =>
      simp only [List.find?_cons, hp, Option.some.injEq] at h
      exact h ▸ List.mem_cons_self
    · next hp =>
      refine List.mem_cons_of_mem _ (ih ?_)
      simpa [List.find?_cons, hp] using h

theorem modifyFirst_split {p : α → Bool} {f : α → α} {l : List α} {a : α}
    (h : l.find? p = some a) : ∃ as bs, l = as ++ a :: bs ∧ (∀ x ∈ as, ¬p x = true) ∧
      modifyFirst p f l = as ++ f a :: bs := by
  induction l with
  | nil => simp at h
  | cons b l ih =>
    by_cases hb : p b = true
    · simp only [List.find?_cons, hb, Option.some.injEq] at h
      subst h
      exact ⟨[], l, rfl, by simp, by simp [modifyFirst_cons, hb]⟩
    · simp only [List.find?_cons, hb] at h
      obtain ⟨as, bs, rfl, has, hmod⟩ := ih h
      refine ⟨b :: as, bs, rfl, ?_, by simp [modifyFirst_cons, hb, hmod]⟩
      simpa [hb] using has

/-- A first match that is rewritten to a match is the first match. -/
theorem find?_modifyFirst {p : α → Bool} {f : α → α} {l : List α} {a : α}
    (h : l.find? p = some a) (hf : p (f a) = true) : (modifyFirst p f l).find? p = some (f a) := by
  obtain ⟨as, bs, -, has, hmod⟩ := modifyFirst_split (f := f) h
  rw [hmod, List.find?_append, List.find?_eq_none.2 has, Option.none_or,
    List.find?_cons_of_pos hf]

theorem mem_modifyFirst_of_not {p : α → Bool} {f : α → α} {l : List α} {x : α}
    (h : x ∈ l) (hx : ¬p x = true) : x ∈ modifyFirst p f l := by
  induction l with
  | nil => simp at h
  | cons a l ih =>
    rw [modifyFirst_cons]
    rcases List.mem_cons.1 h with rfl | h
    · rw [if_neg hx]
      exact List.mem_cons_self
    · split
      · exact List.mem_cons_of_mem _ h
      · exact List.mem_cons_of_mem _ (ih h)

theorem forall₂_mem {β : Type*} {R : α → β → Prop} {l : List α} {l' : List β}
    (h : List.Forall₂ R l l') {b : β} (hb : b ∈ l') : ∃ a ∈ l, R a b := by
  induction h with
  | nil => simp at hb
  | cons hr _ ih =>
    rcases List.mem_cons.1 hb with rfl | hb
    · exact ⟨_, List.mem_cons_self, hr⟩
    · obtain ⟨a, ha, hab⟩ := ih hb
      exact ⟨a, List.mem_cons_of_mem _ ha, hab⟩

/-- Two rows of one list relate as the rows they were rewritten from. -/
theorem Pairwise.of_forall₂ {β : Type*} {R : α → β → Prop} {S : α → α → Prop} {T : β → β → Prop}
    {l : List α} {l' : List β} (h : List.Forall₂ R l l') (hs : l.Pairwise S)
    (hst : ∀ a a' b b', R a b → R a' b' → S a a' → T b b') : l'.Pairwise T := by
  induction h with
  | nil => exact .nil
  | cons hr hrest ih =>
    obtain ⟨hhead, htail⟩ := List.pairwise_cons.1 hs
    refine List.pairwise_cons.2 ⟨fun b hb => ?_, ih htail⟩
    obtain ⟨a, ha, hab⟩ := forall₂_mem hrest hb
    exact hst _ _ _ _ hr hab (hhead a ha)

/-! ### What is left of a filtered list -/

section Filter

variable {p q : α → Bool} {f : α → α} {l : List α} {a : α}

theorem filter_modifyFirst (h : l.find? q = some a) (ha : p a = true) (hfa : p (f a) = true) :
    (modifyFirst q f l).filter p = modifyFirst q f (l.filter p) := by
  obtain ⟨as, bs, rfl, has, hmod⟩ := modifyFirst_split (f := f) h
  have hq : q a = true := List.find?_some h
  have hskip : ∀ (cs ds : List α), (∀ c ∈ cs, ¬q c = true) →
      modifyFirst q f (cs ++ ds) = cs ++ modifyFirst q f ds := by
    intro cs ds hcs
    induction cs with
    | nil => rfl
    | cons c cs ih =>
      rw [List.cons_append, modifyFirst_cons, if_neg (hcs c List.mem_cons_self),
        ih fun c' hc' => hcs c' (List.mem_cons_of_mem _ hc')]
      rfl
  rw [hmod, List.filter_append, List.filter_append, List.filter_cons_of_pos ha,
    List.filter_cons_of_pos hfa, hskip _ _ fun c hc => has c (List.mem_filter.1 hc).1,
    modifyFirst_cons, if_pos hq]

theorem filter_modifyFirst_of_neg (h : ∀ b, l.find? q = some b → ¬p b = true ∧ ¬p (f b) = true) :
    (modifyFirst q f l).filter p = l.filter p := by
  cases hf : l.find? q with
  | none =>
    have hsame : modifyFirst q f l = l := by
      clear h
      induction l with
      | nil => rfl
      | cons b l ih =>
        have hb := List.find?_eq_none.1 hf b List.mem_cons_self
        rw [modifyFirst_cons, if_neg hb, ih (List.find?_eq_none.2 fun c hc =>
          List.find?_eq_none.1 hf c (List.mem_cons_of_mem _ hc))]
    rw [hsame]
  | some b =>
    obtain ⟨hb, hfb⟩ := h b hf
    obtain ⟨as, bs, rfl, -, hmod⟩ := modifyFirst_split (f := f) hf
    rw [hmod, List.filter_append, List.filter_append, List.filter_cons_of_neg hb,
      List.filter_cons_of_neg hfb]

theorem filter_eraseP (h : ∀ b ∈ l, q b = true → p b = true) :
    (l.eraseP q).filter p = (l.filter p).eraseP q := by
  induction l with
  | nil => rfl
  | cons b l ih =>
    have ih := ih fun c hc => h c (List.mem_cons_of_mem _ hc)
    by_cases hq : q b = true
    · have hb := h b List.mem_cons_self hq
      rw [List.eraseP_cons_of_pos hq, List.filter_cons_of_pos hb, List.eraseP_cons_of_pos hq]
    · rw [List.eraseP_cons_of_neg hq]
      by_cases hp : p b = true
      · rw [List.filter_cons_of_pos hp, List.filter_cons_of_pos hp, List.eraseP_cons_of_neg hq, ih]
      · rw [List.filter_cons_of_neg hp, List.filter_cons_of_neg hp, ih]

theorem filter_eraseP_of_neg (h : ∀ b ∈ l, q b = true → ¬p b = true) :
    (l.eraseP q).filter p = l.filter p := by
  induction l with
  | nil => rfl
  | cons b l ih =>
    have ih := ih fun c hc => h c (List.mem_cons_of_mem _ hc)
    by_cases hq : q b = true
    · rw [List.eraseP_cons_of_pos hq, List.filter_cons_of_neg (h b List.mem_cons_self hq)]
    · rw [List.eraseP_cons_of_neg hq]
      by_cases hp : p b = true
      · rw [List.filter_cons_of_pos hp, List.filter_cons_of_pos hp, ih]
      · rw [List.filter_cons_of_neg hp, List.filter_cons_of_neg hp, ih]

/-- Putting an element at the head of a full list pushes the last one off. -/
theorem take_cons_eq {c : ℕ} (hc : 0 < c) (hl : l.length ≤ c) (a : α) :
    (a :: l).take c = a :: if l.length = c then l.dropLast else l := by
  obtain ⟨c, rfl⟩ := Nat.exists_eq_succ_of_ne_zero (Nat.pos_iff_ne_zero.1 hc)
  rw [List.take_succ_cons]
  split
  · next h => rw [List.dropLast_eq_take, h, Nat.succ_sub_one]
  · rw [List.take_of_length_le (by omega)]

end Filter

end VcsClient.Lib
