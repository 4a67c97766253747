import Mathlib.Algebra.BigOperators.Group.List.Basic
import Mathlib.Algebra.GroupWithZero.Nat
import Mathlib.Data.List.AList

/-!
# Tables

Two operations on association lists: rewriting every value in place, and setting
or removing one. Erasing as it changes the entries, for what is counted over
them, and what the values add up to (`tally`): setting or removing one value changes
the sum by that value alone.
-/

namespace VcsClient.Lib

section Tables

variable {κ V : Type*}

def mapValues (f : κ → V → V) (m : AList fun _ : κ => V) : AList fun _ : κ => V where
  entries := m.entries.map fun e => ⟨e.1, f e.1 e.2⟩
  nodupKeys := by
    have : (m.entries.map fun e => (⟨e.1, f e.1 e.2⟩ : Sigma fun _ : κ => V)).keys =
        m.entries.keys := by simp [List.keys, Function.comp_def]
    rw [List.NodupKeys, this]
    exact m.nodupKeys

@[simp] theorem keys_mapValues (f : κ → V → V) (m : AList fun _ : κ => V) :
    (mapValues f m).keys = m.keys := by
  simp [AList.keys, mapValues, List.keys, Function.comp_def]

@[simp] theorem lookup_mapValues [DecidableEq κ] (f : κ → V → V) (m : AList fun _ : κ => V)
    (k : κ) : (mapValues f m).lookup k = (m.lookup k).map (f k) := by
  obtain ⟨l, hl⟩ := m
  simp only [AList.lookup, mapValues]
  clear hl
  induction l with
  | nil => rfl
  | cons e l ih =>
    obtain ⟨a, v⟩ := e
    by_cases h : a = k
    · subst h
      simp [List.dlookup_cons_eq]
    · have hne : k ≠ a := fun hc => h hc.symm
      simpa [List.dlookup_cons_ne, hne] using ih

section Entries

variable [DecidableEq κ] {m : AList fun _ : κ => V} {k : κ} {v : V}

/-- After an insertion a value is the new one, or was there. -/
theorem lookup_insert_cases {k' : κ} {w : V} (h : (m.insert k v).lookup k' = some w) :
    k' = k ∧ w = v ∨ m.lookup k' = some w := by
  by_cases hk : k' = k
  · subst hk
    rw [AList.lookup_insert] at h
    cases h
    exact .inl ⟨rfl, rfl⟩
  · rw [AList.lookup_insert_ne hk] at h
    exact .inr h

/-- What is left after an erasure was there, at another key. -/
theorem lookup_of_erase {k' : κ} (h : (m.erase k).lookup k' = some v) :
    k' ≠ k ∧ m.lookup k' = some v := by
  have hne : k' ≠ k := by
    rintro rfl
    rw [AList.lookup_erase] at h
    cases h
  rw [AList.lookup_erase_ne hne] at h
  exact ⟨hne, h⟩

theorem perm_erase_of_lookup (h : m.lookup k = some v) :
    m.entries.Perm (⟨k, v⟩ :: (m.erase k).entries) := by
  obtain ⟨v', l₁, l₂, -, hm, herase⟩ := List.exists_of_kerase
    (AList.mem_keys.1 (AList.lookup_isSome.1 (by rw [h]; rfl) : k ∈ m))
  have hv : v' = v := by
    have hin : (⟨k, v'⟩ : Sigma fun _ : κ => V) ∈ m.entries := by simp [hm]
    exact Option.some.inj ((AList.mem_lookup_iff.2 hin).symm.trans h)
  rw [show (m.erase k).entries = l₁ ++ l₂ from herase, hm, ← hv]
  exact List.perm_middle

theorem mem_erase_entries {e : Sigma fun _ : κ => V} (he : e ∈ (m.erase k).entries) :
    e.1 ≠ k ∧ m.lookup e.1 = some e.2 := by
  have hl : (m.erase k).lookup e.1 = some e.2 := AList.mem_lookup_iff.2 he
  have hne : e.1 ≠ k := by
    rintro rfl
    simp at hl
  exact ⟨hne, by rwa [AList.lookup_erase_ne hne] at hl⟩

theorem entries_erase_of_none (h : m.lookup k = none) : (m.erase k).entries = m.entries :=
  List.kerase_of_notMem_keys (AList.lookup_eq_none.1 h)

/-- Set the value of a key, or remove it. -/
def assign (m : AList fun _ : κ => V) (k : κ) : Option V → AList fun _ : κ => V
  | some v => m.insert k v
  | none => m.erase k

theorem lookup_assign (m : AList fun _ : κ => V) (k : κ) (o : Option V) (k' : κ) :
    (assign m k o).lookup k' = if k' = k then o else m.lookup k' := by
  by_cases h : k' = k
  · subst h
    cases o <;> simp [assign]
  · cases o <;> simp [assign, h]

theorem entries_assign (m : AList fun _ : κ => V) (k : κ) (o : Option V) :
    (assign m k o).entries = o.toList.map (Sigma.mk k) ++ (m.erase k).entries := by
  cases o <;> rfl

/-- What holds of the value set and of the others holds of all. -/
theorem forall_assign_of_ne {o : Option V} {P : κ → V → Prop}
    (hm : ∀ k', k' ≠ k → ∀ v, m.lookup k' = some v → P k' v) (ho : ∀ v ∈ o, P k v) :
    ∀ k' v, (assign m k o).lookup k' = some v → P k' v := by
  intro k' v hl
  rw [lookup_assign] at hl
  split at hl
  · next h =>
    subst h
    exact ho v hl
  · next h => exact hm k' h v hl

theorem forall_assign {o : Option V} {P : κ → V → Prop} (hm : ∀ k v, m.lookup k = some v → P k v)
    (ho : ∀ v ∈ o, P k v) : ∀ k' v, (assign m k o).lookup k' = some v → P k' v :=
  forall_assign_of_ne (fun k' _ => hm k') ho

end Entries

/-- Copy a table into another, changing its values on the way. -/
def copyInto {W : Type*} [DecidableEq κ] (f : κ → V → W) (s : AList fun _ : κ => V)
    (m : AList fun _ : κ => W) : AList fun _ : κ => W :=
  s.entries.foldl (fun m e => m.insert e.1 (f e.1 e.2)) m

theorem lookup_copyInto {W : Type*} [DecidableEq κ] (f : κ → V → W) (s : AList fun _ : κ => V)
    (m : AList fun _ : κ => W) (k : κ) :
    (copyInto f s m).lookup k = ((s.lookup k).map (f k)).or (m.lookup k) := by
  obtain ⟨l, hl⟩ := s
  simp only [copyInto, AList.lookup]
  induction l generalizing m with
  | nil => rfl
  | cons e l ih =>
    obtain ⟨a, v⟩ := e
    rw [List.foldl_cons, ih _ (List.nodupKeys_cons.1 hl).2]
    by_cases h : k = a
    · subst h
      have hnone : l.dlookup k = none :=
        List.dlookup_eq_none.2 (List.nodupKeys_cons.1 hl).1
      have hself : (m.insert k (f k v)).entries.dlookup k = some (f k v) := AList.lookup_insert m
      rw [hnone, List.dlookup_cons_eq]
      exact hself
    · have hother : (m.insert a (f a v)).entries.dlookup k = m.entries.dlookup k :=
        AList.lookup_insert_ne h
      rw [List.dlookup_cons_ne _ _ h]
      show ((l.dlookup k).map (f k)).or _ = _
      rw [hother]

end Tables

/-! ## Sums over the values -/

section Sums

variable {κ V : Type*}

/-- The sum of `f` over the values. -/
def tally (f : V → ℕ) (m : AList fun _ : κ => V) : ℕ := (m.entries.map fun e => f e.2).sum

@[simp] theorem tally_empty (f : V → ℕ) : tally f (∅ : AList fun _ : κ => V) = 0 := rfl

theorem tally_mapValues (f : V → ℕ) (g : κ → V → V) (hg : ∀ k v, f (g k v) = f v)
    (m : AList fun _ : κ => V) : tally f (mapValues g m) = tally f m := by
  unfold tally mapValues
  simp [hg, Function.comp_def]

variable [DecidableEq κ]

theorem tally_eq (f : V → ℕ) (m : AList fun _ : κ => V) (k : κ) :
    tally f m = ((m.lookup k).map f).getD 0 + tally f (m.erase k) := by
  cases hl : m.lookup k with
  | none =>
    unfold tally
    rw [entries_erase_of_none hl]
    simp
  | some v =>
    unfold tally
    rw [((perm_erase_of_lookup hl).map _).sum_eq, List.map_cons, List.sum_cons]
    rfl

theorem tally_assign (f : V → ℕ) (m : AList fun _ : κ => V) (k : κ) (o : Option V) :
    tally f (assign m k o) + ((m.lookup k).map f).getD 0 = tally f m + (o.map f).getD 0 := by
  have hassign : tally f (assign m k o) = (o.map f).getD 0 + tally f (m.erase k) := by
    unfold tally
    rw [entries_assign]
    cases o <;> simp
  rw [hassign, tally_eq f m k]
  omega

variable {f : V → ℕ} {m : AList fun _ : κ => V} {k : κ} {v : V}

theorem tally_set (h : m.lookup k = some v) (w : V) :
    tally f (assign m k (some w)) + f v = tally f m + f w := by
  have ht := tally_assign f m k (some w)
  rwa [h] at ht

theorem tally_unset (h : m.lookup k = some v) : tally f (assign m k none) + f v = tally f m := by
  have ht := tally_assign f m k none
  rwa [h] at ht

theorem tally_insert (h : m.lookup k = none) (w : V) :
    tally f (m.insert k w) = tally f m + f w := by
  have ht := tally_assign f m k (some w)
  rwa [h] at ht

end Sums

end VcsClient.Lib
