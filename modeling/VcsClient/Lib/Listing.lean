import Mathlib.Data.List.Perm.Basic
import Mathlib.Order.Lattice
import Mathlib.Order.RelClasses
import Mathlib.Tactic.Common

/-!
# Ranging over a map

A `for k := range m` loop visits the keys in an order the language leaves
open. `IterOrder` is one such choice: any permutation of the keys.
`firstLeast lt` is the loop that keeps the best key so far, replacing it by a
key that `lt` puts before it. When `lt` compares ranks on the listed keys the
result is the key of least rank whatever the order (`firstLeast_perm`); when it
does not, the result may depend on the order.
-/

namespace VcsClient.Lib

structure IterOrder (κ : Type*) where
  order : List κ → List κ
  perm : ∀ l, (order l).Perm l

/-- The keys as they are stored. -/
def IterOrder.stored (κ : Type*) : IterOrder κ := ⟨id, fun l => .refl l⟩

/-- The keys the other way round. -/
def IterOrder.reversed (κ : Type*) : IterOrder κ := ⟨List.reverse, List.reverse_perm⟩

variable {κ : Type*}

def keepLeast (lt : κ → κ → Bool) (best : Option κ) (k : κ) : Option κ :=
  match best with
  | none => some k
  | some b => if lt k b then some k else some b

/-- The best key of a listing, keeping the first of equals. -/
def firstLeast (lt : κ → κ → Bool) (l : List κ) : Option κ := l.foldl (keepLeast lt) none

@[simp] theorem firstLeast_nil (lt : κ → κ → Bool) : firstLeast lt [] = none := rfl

theorem foldl_keepLeast_mem {lt : κ → κ → Bool} {l : List κ} {b r : κ}
    (h : l.foldl (keepLeast lt) (some b) = some r) : r = b ∨ r ∈ l := by
  induction l generalizing b with
  | nil => cases h; exact .inl rfl
  | cons k l ih =>
    simp only [List.foldl_cons, keepLeast] at h
    split at h
    · rcases ih h with rfl | h
      · exact .inr List.mem_cons_self
      · exact .inr (List.mem_cons_of_mem _ h)
    · rcases ih h with rfl | h
      · exact .inl rfl
      · exact .inr (List.mem_cons_of_mem _ h)

theorem firstLeast_mem {lt : κ → κ → Bool} {l : List κ} {r : κ} (h : firstLeast lt l = some r) :
    r ∈ l := by
  cases l with
  | nil => simp at h
  | cons k l =>
    rcases foldl_keepLeast_mem (b := k) h with rfl | h
    · exact List.mem_cons_self
    · exact List.mem_cons_of_mem _ h

theorem foldl_keepLeast_isSome (lt : κ → κ → Bool) (l : List κ) (b : κ) :
    (l.foldl (keepLeast lt) (some b)).isSome := by
  induction l generalizing b with
  | nil => rfl
  | cons k l ih =>
    simp only [List.foldl_cons, keepLeast]
    split <;> exact ih _

theorem firstLeast_eq_none {lt : κ → κ → Bool} {l : List κ} : firstLeast lt l = none ↔ l = [] := by
  cases l with
  | nil => simp
  | cons k l =>
    have := foldl_keepLeast_isSome lt l k
    simp only [firstLeast, List.foldl_cons, keepLeast, reduceCtorEq, iff_false]
    intro h
    rw [h] at this
    cases this

section Rank

variable {ρ : Type*} [LinearOrder ρ] {lt : κ → κ → Bool} {rank : κ → ρ} {l : List κ}

/-- On the keys of `l`, `lt` compares ranks. -/
def Ranks (lt : κ → κ → Bool) (rank : κ → ρ) (l : List κ) : Prop :=
  ∀ a ∈ l, ∀ b ∈ l, lt a b = true ↔ rank a < rank b

theorem Ranks.subset {l' : List κ} (h : Ranks lt rank l) (hsub : ∀ k ∈ l', k ∈ l) :
    Ranks lt rank l' :=
  fun a ha b hb => h a (hsub a ha) b (hsub b hb)

theorem foldl_keepLeast_le {b r : κ} (hr : Ranks lt rank (b :: l))
    (h : l.foldl (keepLeast lt) (some b) = some r) : ∀ k ∈ b :: l, rank r ≤ rank k := by
  induction l generalizing b with
  | nil => cases h; simp
  | cons k l ih =>
    have hkb := hr k (by simp) b (by simp)
    simp only [List.foldl_cons, keepLeast] at h
    split at h
    · next hlt =>
      have hle := ih (hr.subset (by simp +contextual)) h
      have hkb' := hkb.1 hlt
      intro x hx
      rcases List.mem_cons.1 hx with rfl | hx
      · exact (hle k List.mem_cons_self).trans hkb'.le
      · exact hle x hx
    · next hlt =>
      have hle := ih (hr.subset (by simp +contextual)) h
      have hkb' : rank b ≤ rank k := not_lt.1 fun hc => hlt (hkb.2 hc)
      intro x hx
      rcases List.mem_cons.1 hx with rfl | hx
      · exact hle x List.mem_cons_self
      · rcases List.mem_cons.1 hx with rfl | hx
        · exact (hle b List.mem_cons_self).trans hkb'
        · exact hle x (List.mem_cons_of_mem _ hx)

theorem firstLeast_le {r : κ} (hr : Ranks lt rank l) (h : firstLeast lt l = some r) :
    ∀ k ∈ l, rank r ≤ rank k := by
  cases l with
  | nil => simp at h
  | cons k l => exact foldl_keepLeast_le hr h

/-- **The loop's result does not depend on the iteration order** when `lt`
compares ranks that tell the keys apart. -/
theorem firstLeast_perm {l' : List κ} (hr : Ranks lt rank l)
    (hinj : ∀ a ∈ l, ∀ b ∈ l, rank a = rank b → a = b) (hp : l'.Perm l) :
    firstLeast lt l' = firstLeast lt l := by
  have hr' : Ranks lt rank l' := hr.subset fun k hk => hp.subset hk
  cases h : firstLeast lt l with
  | none =>
    rw [firstLeast_eq_none] at h ⊢
    rw [h] at hp
    exact hp.eq_nil
  | some r =>
    cases h' : firstLeast lt l' with
    | none =>
      rw [firstLeast_eq_none] at h'
      rw [h'] at hp
      have := firstLeast_mem h
      rw [hp.symm.eq_nil] at this
      cases this
    | some r' =>
      have hm := firstLeast_mem h
      have hm' := hp.subset (firstLeast_mem h')
      have h1 := firstLeast_le hr h r' hm'
      have h2 := firstLeast_le hr' h' r (hp.symm.subset hm)
      rw [hinj r' hm' r hm (le_antisymm h2 h1)]

/-- Ranks that tell the keys apart make `lt` a strict total order on them. -/
theorem Ranks.isStrictTotalOrder (hr : Ranks lt rank l)
    (hinj : ∀ a ∈ l, ∀ b ∈ l, rank a = rank b → a = b) :
    IsStrictTotalOrder {k // k ∈ l} fun a b => lt a b = true where
  irrefl a h := lt_irrefl _ ((hr a a.2 a a.2).1 h)
  trans a b c hab hbc :=
    (hr a a.2 c c.2).2 (((hr a a.2 b b.2).1 hab).trans ((hr b b.2 c c.2).1 hbc))
  trichotomous a b hab hba := by
    have hle : rank b ≤ rank a := not_lt.1 fun h => hab ((hr a a.2 b b.2).2 h)
    have hge : rank a ≤ rank b := not_lt.1 fun h => hba ((hr b b.2 a a.2).2 h)
    exact Subtype.ext (hinj a a.2 b b.2 (le_antisymm hge hle))

end Rank

theorem filter_filterMap_tag {β : Type*} [DecidableEq κ] {f : κ → Option β} {tag : β → κ}
    (htag : ∀ k b, f k = some b → tag b = k) {keys : List κ} (hnd : keys.Nodup) {key : κ}
    (hnone : key ∉ keys → f key = none) :
    (keys.filterMap f).filter (tag · = key) = (f key).toList := by
  induction keys with
  | nil => simp [hnone List.not_mem_nil]
  | cons k keys ih =>
    obtain ⟨hk, hnd⟩ := List.nodup_cons.1 hnd
    by_cases hkey : k = key
    · subst hkey
      have hrest : (keys.filterMap f).filter (tag · = k) = [] := by
        refine List.filter_eq_nil_iff.2 fun b hb => ?_
        obtain ⟨k', hk', hb⟩ := List.mem_filterMap.1 hb
        rw [htag k' b hb, decide_eq_true_eq]
        exact fun he => hk (he ▸ hk')
      cases hf : f k with
      | none => simpa [hf] using hrest
      | some b => simpa [hf, htag k b hf] using hrest
    · have ih := ih hnd fun hn => hnone (by simp [Ne.symm hkey, hn])
      cases hf : f k with
      | none => simpa [hf] using ih
      | some b => simpa [hf, htag k b hf, hkey] using ih

/-- Only the last entry may satisfy `P`. -/
def OnlyLast (P : κ → Prop) (l : List κ) : Prop :=
  ∀ pre x post, l = pre ++ x :: post → P x → post = []

section OnlyLast

variable {P : κ → Prop} {l : List κ} {x : κ}

theorem OnlyLast.of_none (h : ∀ x ∈ l, ¬P x) : OnlyLast P l :=
  fun pre x post hl hx => absurd hx (h x (by simp [hl]))

theorem OnlyLast.concat (h : ∀ x ∈ l, ¬P x) : OnlyLast P (l ++ [x]) := by
  intro pre y post hl hy
  rcases List.eq_nil_or_concat post with rfl | ⟨post', z, rfl⟩
  · rfl
  · have hinit : l = pre ++ y :: post' := by
      have hl' : l ++ [x] = (pre ++ y :: post') ++ [z] := by rw [hl]; simp
      exact (List.append_inj' hl' rfl).1
    exact absurd hy (h y (by simp [hinit]))

theorem OnlyLast.nil_of_append {l' : List κ} (h : OnlyLast P (l ++ l')) (hx : x ∈ l) (hP : P x) :
    l' = [] := by
  obtain ⟨pre, post, rfl⟩ := List.append_of_mem hx
  have := h pre x (post ++ l') (by simp) hP
  exact (List.append_eq_nil_iff.1 this).2

theorem OnlyLast.countP_eq_one [DecidablePred P] (h : OnlyLast P l) (hx : x ∈ l) (hP : P x) :
    l.countP (decide <| P ·) = 1 := by
  obtain ⟨pre, post, rfl⟩ := List.append_of_mem hx
  obtain rfl := h pre x post rfl hP
  have hpre : pre.countP (decide <| P ·) = 0 := by
    refine List.countP_eq_zero.2 fun y hy hPy => ?_
    have := h.nil_of_append hy (of_decide_eq_true hPy)
    cases this
  simp [hpre, hP]

end OnlyLast

section Pairs

variable {l : List κ} {a b x : κ}

theorem pair_sublist_concat :
    [a, b].Sublist (l ++ [x]) ↔ [a, b].Sublist l ∨ a ∈ l ∧ b = x := by
  constructor
  · intro h
    have hr : [b, a].Sublist (x :: l.reverse) := by simpa using h.reverse
    rw [List.sublist_cons_iff] at hr
    rcases hr with hr | ⟨r, hr, hsub⟩
    · exact .inl (by simpa using hr.reverse)
    · cases hr
      exact .inr ⟨by simpa using hsub, rfl⟩
  · rintro (h | ⟨ha, rfl⟩)
    · exact h.trans (List.sublist_append_left _ _)
    · exact (List.singleton_sublist.2 ha).append (.refl [b])

theorem not_pair_sublist_self (h : l.Nodup) : ¬[a, a].Sublist l := fun hs => by
  simpa using h.sublist hs

end Pairs

end VcsClient.Lib
