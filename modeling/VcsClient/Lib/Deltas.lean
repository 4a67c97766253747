import Mathlib.Data.List.Induction
import Mathlib.Logic.Function.Basic

/-!
# Absolute deltas

A delta is absolute where it says what a part of the state is, and not how it changes:
deltas that are played once more change nothing. A copy of the state that is ahead of the
deltas it is still to be given is then right once it has them all (`play_overlap`).
-/

namespace VcsClient.Lib

variable {σ δ κ : Type*}

/-- The state after deltas, oldest first. -/
def playWith (apply : δ → σ → σ) (ds : List δ) (s : σ) : σ := ds.foldl (fun s d => apply d s) s

theorem playWith_append (apply : δ → σ → σ) (ds ds' : List δ) (s : σ) :
    playWith apply (ds ++ ds') s = playWith apply ds' (playWith apply ds s) :=
  List.foldl_append

structure Deltas (σ δ : Type*) where
  apply : δ → σ → σ
  replay : ∀ ds s, playWith apply ds (playWith apply ds s) = playWith apply ds s

namespace Deltas

def play (D : Deltas σ δ) (ds : List δ) (s : σ) : σ := playWith D.apply ds s

@[simp] theorem play_nil (D : Deltas σ δ) (s : σ) : D.play [] s = s := rfl

theorem play_cons (D : Deltas σ δ) (d : δ) (ds : List δ) (s : σ) :
    D.play (d :: ds) s = D.play ds (D.apply d s) := rfl

theorem play_append (D : Deltas σ δ) (ds ds' : List δ) (s : σ) :
    D.play (ds ++ ds') s = D.play ds' (D.play ds s) :=
  playWith_append D.apply ds ds' s

/-- A copy that has the first deltas already, and is given them again. -/
theorem play_overlap (D : Deltas σ δ) (ds ds' : List δ) (s : σ) :
    D.play (ds ++ ds') (D.play ds s) = D.play ds' (D.play ds s) := by
  rw [play_append]
  exact congrArg (D.play ds') (D.replay ds s)

/-- Deltas that are the whole state. -/
def whole (σ : Type*) : Deltas σ σ where
  apply d _ := d
  replay ds s := by
    induction ds using List.reverseRecOn with
    | nil => rfl
    | append_singleton ds d _ => rw [playWith_append, playWith_append]; rfl

def comap {ε : Type*} (D : Deltas σ δ) (f : ε → δ) : Deltas σ ε where
  apply e := D.apply (f e)
  replay es s := by
    have hmap : ∀ (es : List ε) s, playWith (fun e => D.apply (f e)) es s =
        playWith D.apply (es.map f) s := by
      intro es s
      unfold playWith
      rw [List.foldl_map]
    rw [hmap, hmap, D.replay]

section PerKey

variable {v : κ → Type*} [DecidableEq κ]

/-- A key is written by the deltas, to one value whatever the state is, or it is left. -/
theorem playWith_update (ds : List (Σ k, v k)) (k : κ) :
    (∃ x, ∀ s : ∀ k, v k, playWith (fun d s => Function.update s d.1 d.2) ds s k = x) ∨
      ∀ s : ∀ k, v k, playWith (fun d s => Function.update s d.1 d.2) ds s k = s k := by
  induction ds using List.reverseRecOn with
  | nil => exact .inr fun s => rfl
  | append_singleton ds d ih =>
    obtain ⟨k', x⟩ := d
    by_cases hk : k = k'
    · subst hk
      refine .inl ⟨x, fun s => ?_⟩
      rw [playWith_append]
      exact Function.update_self k x _
    · have hlast : ∀ s : ∀ k, v k,
          playWith (fun d s => Function.update s d.1 d.2) (ds ++ [⟨k', x⟩]) s k =
            playWith (fun d s => Function.update s d.1 d.2) ds s k := by
        intro s
        rw [playWith_append]
        exact Function.update_of_ne hk x _
      simpa only [hlast] using ih

/-- A delta is the value of one key. -/
def perKey (v : κ → Type*) : Deltas (∀ k, v k) (Σ k, v k) where
  apply d s := Function.update s d.1 d.2
  replay ds s := by
    funext k
    obtain ⟨x, hx⟩ | hleft := playWith_update ds k
    · rw [hx, hx]
    · rw [hleft]

end PerKey

end Deltas

end VcsClient.Lib
