import Mathlib.Algebra.BigOperators.Group.List.Basic
import Mathlib.Algebra.GroupWithZero.Nat
import Mathlib.Data.List.Basic
import Mathlib.Data.List.DropRight
import Mathlib.Tactic.Common

/-!
# Lists

What a list holds, and what it adds up to, after an element was added, set or modified; and
what a fold that may fail has taken. A source copied over a buffer from a place on
(`copyAt`), as much of it as there is room for. The run at the end of a list whose elements
all satisfy a predicate (`trailing`): what a counter holds that each such element raises and
any other one clears.
-/

namespace VcsClient.Lib

section Changes

variable {β : Type*} {l : List β} {f : β → β} {w : β → ℕ} {a b c : β} {k n : ℕ}

theorem getElem?_snoc : (l ++ [b])[n]? = some c ↔ l[n]? = some c ∨ n = l.length ∧ c = b := by
  rw [List.getElem?_append]
  split
  · next h =>
    exact ⟨.inl, fun hc => hc.resolve_right fun hn => absurd hn.1 (Nat.ne_of_lt h)⟩
  · next h =>
    rw [List.getElem?_eq_none (Nat.le_of_not_lt h)]
    constructor
    · intro hc
      obtain ⟨hlt, hc⟩ := List.getElem?_eq_some_iff.1 hc
      rw [List.length_singleton] at hlt
      have hn : n - l.length = 0 := Nat.lt_one_iff.1 hlt
      simp only [hn, List.getElem_singleton] at hc
      exact .inr ⟨by omega, hc.symm⟩
    · rintro (hc | ⟨rfl, rfl⟩)
      · cases hc
      · simp

theorem getElem?_modify_eq_some :
    (l.modify k f)[n]? = some c ↔ ∃ b, l[n]? = some b ∧ c = if k = n then f b else b := by
  rw [List.getElem?_modify]
  constructor
  · intro h
    obtain ⟨b, hb, hc⟩ := Option.map_eq_some_iff.1 h
    exact ⟨b, hb, hc.symm⟩
  · rintro ⟨b, hb, rfl⟩
    rw [hb]
    rfl

/-- What a modification leaves of its element is left of the list. -/
theorem map_modify {γ : Type*} {g : β → γ} (h : ∀ b, g (f b) = g b) (l : List β) (k : ℕ) :
    (l.modify k f).map g = l.map g := by
  refine List.ext_getElem? fun n => ?_
  rw [List.getElem?_map, List.getElem?_map, List.getElem?_modify]
  cases l[n]? with
  | none => rfl
  | some b => by_cases hk : k = n <;> simp [hk, h]

theorem modify_append_left (b : β) : ∀ {l : List β} {k : ℕ},
    k < l.length → (l ++ [b]).modify k f = l.modify k f ++ [b]
  | [], _, h => by cases h
  | _ :: _, 0, _ => rfl
  | c :: l, k + 1, h => congrArg (c :: ·) (modify_append_left b (Nat.lt_of_succ_lt_succ h))

theorem sum_map_set : ∀ {l : List β} {k : ℕ}, l[k]? = some a →
    ((l.set k b).map w).sum + w a = (l.map w).sum + w b
  | [], _, h => by cases h
  | c :: l, 0, h => by
    cases h
    simp only [List.set_cons_zero, List.map_cons, List.sum_cons]
    omega
  | c :: l, k + 1, h => by
    have : ((l.set k b).map w).sum + w a = (l.map w).sum + w b := sum_map_set h
    simp only [List.set_cons_succ, List.map_cons, List.sum_cons]
    omega

theorem sum_map_modify (h : l[k]? = some a) :
    ((l.modify k f).map w).sum + w a = (l.map w).sum + w (f a) := by
  have hset : l.modify k f = l.set k (f a) := by
    refine List.ext_getElem? fun n => ?_
    rw [List.getElem?_modify, List.getElem?_set]
    obtain ⟨hk, rfl⟩ := List.getElem?_eq_some_iff.1 h
    by_cases hn : k = n
    · subst hn
      rw [if_pos rfl, if_pos hk, h]
      simp
    · rw [if_neg hn]
      simp [hn]
  rw [hset]
  exact sum_map_set h

theorem foldlM_some_mem {σ : Type*} {f : σ → β → Option σ} {s s' : σ}
    (h : l.foldlM f s = some s') (ha : a ∈ l) : ∃ s₀ s₁, f s₀ a = some s₁ := by
  induction l generalizing s with
  | nil => cases ha
  | cons b l ih =>
    rw [List.foldlM_cons] at h
    obtain ⟨s₁, hb, htail⟩ := Option.bind_eq_some_iff.1 h
    obtain rfl | ha := List.mem_cons.1 ha
    · exact ⟨s, s₁, hb⟩
    · exact ih htail ha

theorem foldlM_eq_some_foldl {σ : Type*} {f : σ → β → Option σ} {g : σ → β → σ}
    (h : ∀ s, ∀ a ∈ l, f s a = some (g s a)) (s : σ) : l.foldlM f s = some (l.foldl g s) := by
  induction l generalizing s with
  | nil => rfl
  | cons b l ih =>
    rw [List.foldlM_cons, h s b List.mem_cons_self, List.foldl_cons]
    exact ih (fun s a ha => h s a (List.mem_cons_of_mem b ha)) (g s b)

theorem mapM_eq_some_map {γ : Type*} {f : β → Option γ} {g : β → γ}
    (h : ∀ a ∈ l, f a = some (g a)) : l.mapM f = some (l.map g) := by
  induction l with
  | nil => rfl
  | cons b l ih =>
    rw [List.mapM_cons, h b List.mem_cons_self, ih fun a ha => h a (List.mem_cons_of_mem b ha)]
    rfl

theorem mapM_isSome {γ : Type*} {f : β → Option γ} (h : ∀ a ∈ l, ∃ x, f a = some x) :
    ∃ xs, l.mapM f = some xs := by
  induction l with
  | nil => exact ⟨[], rfl⟩
  | cons b l ih =>
    obtain ⟨x, hx⟩ := h b List.mem_cons_self
    obtain ⟨xs, hxs⟩ := ih fun a ha => h a (List.mem_cons_of_mem b ha)
    exact ⟨x :: xs, by rw [List.mapM_cons, hx, hxs]; rfl⟩

end Changes

/-! ## Copying into a buffer -/

section Copying

variable {α : Type*} {dst src : List α} {k : ℕ}

/-- `src` over `dst` from the place `k` on. -/
def copyAt (dst : List α) (k : ℕ) (src : List α) : List α :=
  dst.take k ++ src.take (dst.length - k) ++ dst.drop (k + min src.length (dst.length - k))

@[simp] theorem length_copyAt (h : k ≤ dst.length) : (copyAt dst k src).length = dst.length := by
  simp only [copyAt, List.length_append, List.length_take, List.length_drop]
  omega

theorem take_copyAt (h : k ≤ dst.length) :
    (copyAt dst k src).take (k + min src.length (dst.length - k)) =
      dst.take k ++ src.take (dst.length - k) := by
  unfold copyAt
  refine List.take_left' ?_
  rw [List.length_append, List.length_take, List.length_take]
  omega

/-- A source that fits up to the end leaves nothing behind it. -/
theorem copyAt_of_length (h : k + src.length = dst.length) :
    copyAt dst k src = dst.take k ++ src := by
  unfold copyAt
  rw [List.take_of_length_le (l := src) (by omega), List.drop_of_length_le (by omega),
    List.append_nil]

theorem copyAt_copyAt {fst : List α} (h : fst.length + src.length = dst.length) :
    copyAt (copyAt dst 0 fst) fst.length src = fst ++ src := by
  have hlen : (copyAt dst 0 fst).length = dst.length := length_copyAt (Nat.zero_le _)
  rw [copyAt_of_length (by omega)]
  have hfst : (copyAt dst 0 fst).take (0 + min fst.length (dst.length - 0)) =
      dst.take 0 ++ fst.take (dst.length - 0) := take_copyAt (Nat.zero_le _)
  rw [Nat.zero_add, Nat.sub_zero, Nat.min_eq_left (by omega), List.take_zero, List.nil_append,
    List.take_of_length_le (l := fst) (by omega)] at hfst
  rw [hfst]

end Copying

/-! ## Runs at the end -/

section Trailing

variable {α : Type*} {p : α → Bool} {l l' : List α} {x : α} {n : ℕ}

def trailing (p : α → Bool) (l : List α) : ℕ := (l.rtakeWhile p).length

@[simp] theorem trailing_nil : trailing p [] = 0 := by simp [trailing]

theorem trailing_concat_pos (hx : p x = true) :
    trailing p (l ++ [x]) = trailing p l + 1 := by
  unfold trailing
  rw [List.rtakeWhile_concat_pos p l x hx, List.length_append, List.length_singleton]

theorem trailing_concat_neg (hx : p x = false) : trailing p (l ++ [x]) = 0 := by
  unfold trailing
  rw [List.rtakeWhile_concat_neg p l x (by simp [hx]), List.length_nil]

/-- A list that is appended lengthens the run by its length at most. -/
theorem trailing_append_le : trailing p (l ++ l') ≤ trailing p l + l'.length := by
  induction l' using List.reverseRecOn with
  | nil => simp
  | append_singleton l' x ih =>
    rw [← List.append_assoc, List.length_append, List.length_singleton]
    cases hx : p x with
    | true => rw [trailing_concat_pos hx]; omega
    | false => rw [trailing_concat_neg hx]; omega

theorem trailing_append_of_forall (h : ∀ x ∈ l', p x = true) :
    trailing p (l ++ l') = trailing p l + l'.length := by
  induction l' using List.reverseRecOn with
  | nil => simp
  | append_singleton l' x ih =>
    rw [← List.append_assoc, trailing_concat_pos (h x (by simp)),
      ih fun y hy => h y (List.mem_append_left _ hy), List.length_append, List.length_singleton]
    omega

theorem exists_of_le_trailing (h : n ≤ trailing p l) :
    ∃ a b, l = a ++ b ∧ b.length = n ∧ ∀ x ∈ b, p x = true := by
  have hsuffix : l.drop (l.length - n) <:+ l.rtakeWhile p := by
    have hle : trailing p l ≤ l.length := (l.rtakeWhile_suffix p).length_le
    refine (List.suffix_of_suffix_length_le (List.drop_suffix _ _) (l.rtakeWhile_suffix p) ?_)
    rw [List.length_drop]
    unfold trailing at h hle
    omega
  refine ⟨l.take (l.length - n), l.drop (l.length - n), (List.take_append_drop _ _).symm, ?_,
    fun x hx => List.mem_rtakeWhile_imp (hsuffix.subset hx)⟩
  have hle : trailing p l ≤ l.length := (l.rtakeWhile_suffix p).length_le
  rw [List.length_drop]
  omega

end Trailing

end VcsClient.Lib
