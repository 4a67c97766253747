import Mathlib.Data.Nat.ModEq
import Mathlib.Order.Lattice

/-!
# Slots that are used again

A ring of a fixed number of slots is used round, from `head` on. `window` is what
they hold, the oldest first: one more at the end, one in place of the oldest, and a
sweep that goes through them and keeps some, moved together in place, while it adds
up a result.

A slot that stamps each occupant with a generation hands that generation as a token
to whoever is started for the occupant. `UniqueTokens f` says that no two holders
carry one generation: handing tokens on or dropping them keeps this
(`UniqueTokens.of_le`, `UniqueTokens.move`), and so does minting one above all the
generations in use (`UniqueTokens.mint`).
-/

namespace VcsClient.Lib

section Ring

variable {β γ : Type*} {n : ℕ} [NeZero n] {slots : Fin n → β} {head count : ℕ}

/-- The slot `i` after slot `head`. -/
def slotAt (n : ℕ) [NeZero n] (head i : ℕ) : Fin n := Fin.ofNat n (head + i)

/-- What `count` slots from `head` on hold. -/
def window (slots : Fin n → β) (head count : ℕ) : List β :=
  (List.range count).map fun i => slots (slotAt n head i)

@[simp] theorem length_window (slots : Fin n → β) (head count : ℕ) :
    (window slots head count).length = count := by
  simp [window]

theorem window_succ (slots : Fin n → β) (head count : ℕ) :
    window slots head (count + 1) = window slots head count ++ [slots (slotAt n head count)] := by
  simp [window, List.range_succ]

theorem slotAt_inj {i j : ℕ} (hi : i < n) (hj : j < n) (h : slotAt n head i = slotAt n head j) :
    i = j := by
  have hmod : head + i ≡ head + j [MOD n] := congrArg Fin.val h
  have hij : i % n = j % n := Nat.ModEq.add_left_cancel' head hmod
  rwa [Nat.mod_eq_of_lt hi, Nat.mod_eq_of_lt hj] at hij

theorem slotAt_mod (head i : ℕ) : slotAt n ((head + 1) % n) i = slotAt n head (i + 1) := by
  apply Fin.ext
  show ((head + 1) % n + i) % n = (head + (i + 1)) % n
  rw [Nat.mod_add_mod]
  congr 1
  omega

theorem window_congr {slots' : Fin n → β}
    (h : ∀ i < count, slots' (slotAt n head i) = slots (slotAt n head i)) :
    window slots' head count = window slots head count :=
  List.map_congr_left fun i hi => h i (List.mem_range.1 hi)

theorem window_update {i : ℕ} (hcount : count ≤ i) (hi : i < n) (b : β) :
    window (Function.update slots (slotAt n head i) b) head count = window slots head count := by
  refine window_congr fun j hj => Function.update_of_ne (fun h => ?_) ..
  have := slotAt_inj (hj.trans (hcount.trans_lt hi)) hi h
  omega

theorem window_push (h : count < n) (b : β) :
    window (Function.update slots (slotAt n head count) b) head (count + 1) =
      window slots head count ++ [b] := by
  rw [window_succ, window_update le_rfl h, Function.update_self]

/-- A value in place of the oldest of a full ring. -/
theorem window_replace (b : β) :
    window (Function.update slots (slotAt n head 0) b) ((head + 1) % n) n =
      (window slots head n).tail ++ [b] := by
  obtain ⟨k, rfl⟩ := Nat.exists_eq_succ_of_ne_zero (NeZero.ne n)
  have hlast : slotAt (k + 1) ((head + 1) % (k + 1)) k = slotAt (k + 1) head 0 := by
    rw [slotAt_mod]
    apply Fin.ext
    exact Nat.add_mod_right head (k + 1)
  show window _ _ (k + 1) = _
  rw [window_succ, hlast, Function.update_self]
  congr 1
  show window _ _ k = ((List.range (k + 1)).map _).tail
  rw [List.range_succ_eq_map, List.map_cons, List.tail_cons, List.map_map]
  refine List.map_congr_left fun i hi => ?_
  rw [slotAt_mod]
  refine Function.update_of_ne (fun h => ?_) ..
  have := slotAt_inj (by have := List.mem_range.1 hi; omega) (Nat.succ_pos k) h
  omega

/-! ## Sweeping -/

/-- A sweep under way: the slots, how many are kept, and the result so far. -/
structure Sweep (n : ℕ) (β γ : Type*) where
  slots : Fin n → β
  write : ℕ
  acc : γ

/-- The value `i` goes through `f`, and is moved behind what is kept if it is kept. -/
def Sweep.visit (f : γ → β → γ × Option β) (head : ℕ) (s : Sweep n β γ) (i : ℕ) : Sweep n β γ :=
  let r := f s.acc (s.slots (slotAt n head i))
  match r.2 with
  | some b =>
    { slots := Function.update s.slots (slotAt n head s.write) b
      write := s.write + 1
      acc := r.1 }
  | none => { s with acc := r.1 }

def sweep (f : γ → β → γ × Option β) (slots : Fin n → β) (head count : ℕ) (acc : γ) :
    Sweep n β γ :=
  (List.range count).foldl (Sweep.visit f head) ⟨slots, 0, acc⟩

/-- What the sweep does to a list. -/
def passThrough (f : γ → β → γ × Option β) (acc : γ) (l : List β) : γ × List β :=
  l.foldl (fun s b => ((f s.1 b).1, s.2 ++ (f s.1 b).2.toList)) (acc, [])

theorem passThrough_append (f : γ → β → γ × Option β) (acc : γ) (l : List β) (b : β) :
    passThrough f acc (l ++ [b]) =
      ((f (passThrough f acc l).1 b).1,
        (passThrough f acc l).2 ++ (f (passThrough f acc l).1 b).2.toList) := by
  simp [passThrough]

/-- After the first `count` values: what is kept stands at the front, and what was not
visited is untouched. -/
theorem sweep_spec (f : γ → β → γ × Option β) (slots : Fin n → β) (head : ℕ) (acc : γ) :
    ∀ count ≤ n, (sweep f slots head count acc).write ≤ count ∧
      (sweep f slots head count acc).acc = (passThrough f acc (window slots head count)).1 ∧
      window (sweep f slots head count acc).slots head (sweep f slots head count acc).write =
        (passThrough f acc (window slots head count)).2 ∧
      ∀ i, count ≤ i → i < n →
        (sweep f slots head count acc).slots (slotAt n head i) = slots (slotAt n head i) := by
  intro count
  induction count with
  | zero => exact fun _ => ⟨le_rfl, rfl, rfl, fun _ _ _ => rfl⟩
  | succ count ih =>
    intro hcount
    obtain ⟨hwrite, hacc, hkept, hrest⟩ := ih (Nat.le_of_succ_le hcount)
    have hstep : sweep f slots head (count + 1) acc =
        Sweep.visit f head (sweep f slots head count acc) count := by
      unfold sweep
      rw [List.range_succ, List.foldl_append]
      rfl
    rw [hstep, window_succ, passThrough_append, ← hacc, ← hkept, ← hrest count le_rfl hcount]
    generalize sweep f slots head count acc = s at hwrite hrest
    unfold Sweep.visit
    dsimp only
    cases hr : (f s.acc (s.slots (slotAt n head count))).2 with
    | none => exact ⟨hwrite.trans (Nat.le_succ _), rfl, by simp, fun i hi hn => hrest i (by omega) hn⟩
    | some b =>
      refine ⟨Nat.succ_le_succ hwrite, rfl, ?_, fun i hi hn => ?_⟩
      · rw [window_push (by omega)]
        rfl
      · have hne : slotAt n head i ≠ slotAt n head s.write := fun h => by
          have := slotAt_inj hn (by omega) h
          omega
        exact (Function.update_of_ne hne ..).trans (hrest i (by omega) hn)

theorem sweep_acc (f : γ → β → γ × Option β) (h : count ≤ n) (acc : γ) :
    (sweep f slots head count acc).acc = (passThrough f acc (window slots head count)).1 :=
  (sweep_spec f slots head acc count h).2.1

theorem sweep_window (f : γ → β → γ × Option β) (h : count ≤ n) (acc : γ) :
    window (sweep f slots head count acc).slots head (sweep f slots head count acc).write =
      (passThrough f acc (window slots head count)).2 :=
  (sweep_spec f slots head acc count h).2.2.1

theorem sweep_write_le (f : γ → β → γ × Option β) (h : count ≤ n) (acc : γ) :
    (sweep f slots head count acc).write ≤ count :=
  (sweep_spec f slots head acc count h).1

end Ring

/-! ## Tokens of a generation -/

section Tokens

variable {ι κ : Type*}

/-- No two holders carry a token of one generation. -/
def UniqueTokens (f : ι → Option (κ × ℕ)) : Prop :=
  ∀ a b x y, f a = some x → f b = some y → x.2 = y.2 → a = b

variable {f f' : ι → Option (κ × ℕ)}

theorem UniqueTokens.of_le (h : UniqueTokens f) (hf : ∀ c y, f' c = some y → f c = some y) :
    UniqueTokens f' :=
  fun a b x y ha hb he => h a b x y (hf a x ha) (hf b y hb) he

theorem UniqueTokens.move (h : UniqueTokens f) {a b : ι} (ha : f' a = none)
    (hf : ∀ c y, f' c = some y → c = b ∧ f a = some y ∨ c ≠ b ∧ f c = some y) :
    UniqueTokens f' := by
  intro c d x y hc hd he
  have hne : ∀ e z, f' e = some z → e ≠ a := by
    rintro e z hez rfl
    rw [ha] at hez
    cases hez
  rcases hf c x hc with ⟨rfl, hca⟩ | ⟨-, hcc⟩ <;> rcases hf d y hd with ⟨rfl, hda⟩ | ⟨-, hdd⟩
  · rfl
  · exact absurd (h a d x y hca hdd he).symm (hne d y hd)
  · exact absurd (h c a x y hcc hda he) (hne c x hc)
  · exact h c d x y hcc hdd he

theorem UniqueTokens.mint (h : UniqueTokens f) {b : ι} {k : κ} {gen : ℕ}
    (hfresh : ∀ a x, f a = some x → x.2 < gen)
    (hf : ∀ c y, f' c = some y → c = b ∧ y = (k, gen) ∨ f c = some y) : UniqueTokens f' := by
  intro c d x y hc hd he
  rcases hf c x hc with ⟨rfl, rfl⟩ | hcc <;> rcases hf d y hd with ⟨rfl, rfl⟩ | hdd
  · rfl
  · exact absurd he (hfresh d y hdd).ne'
  · exact absurd he (hfresh c x hcc).ne
  · exact h c d x y hcc hdd he

end Tokens

end VcsClient.Lib
