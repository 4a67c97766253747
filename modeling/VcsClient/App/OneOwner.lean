import VcsClient.App.VoiceOwner

/-!
# One owner of the voice session

Every session dialled is in one place: installed, in the hands of one goroutine,
closed or failed (`Accounted`), so at rest the replaced and the rejected ones
were closed once each. That part needs no condition.

The store into the bridge follows the swap outside the lock, so an older swap
can store last; and a redirect takes its generation after its look at the
session, so a teardown between the two does not stop it. `Tidy` leaves these two
steps out; without them the bridge denotes the session of the last swap
(`Published`), and what is installed was asked for by a start (`Requested`).
-/

namespace VcsClient.App

open VcsClient.Lib VcsClient.State VcsClient.Voice

namespace Owner

structure Owned (p : Owner) : Prop where
  /-- At rest the bridge and the field denote one session. -/
  one : p.tasks = ∅ → p.bridge = p.sess
  /-- At rest every session but the installed one was closed exactly once. -/
  closed : p.tasks = ∅ → ∀ sid < p.opened, sid ∉ p.failed →
    p.closes.count sid = if p.sess = some sid then 0 else 1
  /-- A start has come after the last teardown. -/
  requested : p.sess ≠ none → p.requested = true

/-- The store is of a later swap than any before; a redirect takes its
generation with no teardown since its look, or after a later start. -/
def TidyTask (p : Owner) : Task → Prop
  | .store _ n _ _ => p.stored < n
  | .capture (some seen) => seen = p.epoch ∨ p.requested = true
  | _ => True

instance (p : Owner) : ∀ t, Decidable (p.TidyTask t)
  | .store _ n _ _ => inferInstanceAs (Decidable (p.stored < n))
  | .capture (some seen) => inferInstanceAs (Decidable (seen = p.epoch ∨ p.requested = true))
  | .capture none | .live | .inputs _ | .self _ _ _ | .config _ _ _ _ | .dial _ _ | .dialing _ _
  | .swap _ _ | .clear _ | .reject _ | .close _ _ | .unavailable _ => .isTrue trivial

def Tidy (p : Owner) : OwnerOp → Prop
  | .run id _ => ∀ t ∈ p.tasks.lookup id, p.TidyTask t
  | _ => True

instance (p : Owner) : ∀ op, Decidable (p.Tidy op)
  | .run id _ => inferInstanceAs (Decidable (∀ t ∈ p.tasks.lookup id, p.TidyTask t))
  | .start _ | .restart _ | .stop _ | .change _ _ | .self _ | .configure _ | .commit _ _ _
  | .deliver _ => .isTrue trivial

end Owner

/-! ## Every session in one place -/

/-- The sessions in the hands of a goroutine. -/
def Task.hands : Task → List ℕ
  | .dialing _ sid | .swap _ sid | .reject sid => [sid]
  | .store _ _ old _ | .close old _ => old.toList
  | _ => []

section Held

variable (tasks : AList fun _ : ℕ => Task) (id sid : ℕ)

/-- How often the session is in some goroutine's hands. -/
def held : ℕ := (tasks.entries.map fun e => e.2.hands.count sid).sum

theorem held_of_lookup {t : Task} (ht : tasks.lookup id = some t) :
    held tasks sid = t.hands.count sid + held (tasks.erase id) sid := by
  have h := ((perm_erase_of_lookup ht).map fun e => e.2.hands.count sid).sum_eq
  simpa [held] using h

theorem held_of_none (ht : tasks.lookup id = none) :
    held tasks sid = held (tasks.erase id) sid := by
  unfold held
  rw [entries_erase_of_none ht]

theorem held_assign (o : Option Task) : held (assign tasks id o) sid =
    (o.toList.flatMap Task.hands).count sid + held (tasks.erase id) sid := by
  cases o <;> simp [held, entries_assign]

end Held

namespace Owner

variable {parse : Guid → Option UUID} {p p' : Owner} {op : OwnerOp} {id : ℕ} {t : Task}
  {o : Option Task} {err : Option Cause}

def Accounted (p : Owner) : Prop := ∀ sid,
  p.closes.count sid + p.sess.toList.count sid + held p.tasks sid + p.failed.count sid =
    (List.range p.opened).count sid

theorem accounted_init (st : Store) (config : DialConfig) : (init st config).Accounted :=
  fun _ => rfl

theorem Advances.hands (ha : p.Advances parse t o) : o.toList.flatMap Task.hands = t.hands := by
  cases ha with
  | @closed after => cases after <;> rfl
  | _ => rfl

theorem task_hands (after : AfterSet) : after.task.toList.flatMap Task.hands = [] := by
  cases after <;> rfl

/-- What leaves the hands of the goroutine is where it was put. -/
theorem Accounted.goes (h : p.Accounted) (ht : p.tasks.lookup id = some t)
    (htasks : p'.tasks = assign p.tasks id o) (hb : ∀ sid,
      p'.closes.count sid + p'.sess.toList.count sid + (o.toList.flatMap Task.hands).count sid +
          p'.failed.count sid + (List.range p.opened).count sid =
        p.closes.count sid + p.sess.toList.count sid + t.hands.count sid +
          p.failed.count sid + (List.range p'.opened).count sid) : p'.Accounted := by
  intro sid
  have hsid := h sid
  have hbal := hb sid
  rw [held_of_lookup _ _ _ ht] at hsid
  rw [htasks, held_assign]
  omega

theorem Accounted.ran (h : p.Accounted) (ht : p.tasks.lookup id = some t)
    (hm : p.TaskMoves parse id err t p') : p'.Accounted := by
  cases hm with
  | advanced ha => exact h.goes ht rfl fun sid => by rw [ha.hands]
  | captured seen => exact h.goes (o := some (.inputs (p.gen + 1))) ht rfl fun sid => rfl
  | dialing gen inputs =>
    refine h.goes (o := some (.dialing gen p.opened)) ht rfl fun sid => ?_
    simp only [Task.hands, List.range_succ, List.count_append, List.count_nil,
      Option.toList_some, List.flatMap_cons, List.flatMap_nil, List.append_nil]
    omega
  | dialled gen s => exact h.goes (o := some (.swap gen s)) ht rfl fun sid => rfl
  | failed gen s cause he =>
    refine h.goes (o := none) ht rfl fun sid => ?_
    simp only [Task.hands, List.count_append, List.count_nil, Option.toList_none,
      List.flatMap_nil]
    omega
  | installed gen s hg =>
    refine h.goes (o := some (.store (some s) (p.swaps + 1) p.sess .installed)) ht rfl fun sid => ?_
    simp only [Task.hands, Option.toList_some, List.flatMap_cons, List.flatMap_nil,
      List.append_nil]
    omega
  | cleared restart =>
    refine h.goes (o := some (.store none (p.swaps + 1) p.sess (.stopped restart))) ht rfl fun sid => ?_
    simp only [Task.hands, List.count_nil, Option.toList_some, Option.toList_none,
      List.flatMap_cons, List.flatMap_nil, List.append_nil]
    omega
  | rejected s =>
    refine h.goes (o := none) ht rfl fun sid => ?_
    simp only [Task.hands, List.count_append, List.count_nil,
      Option.toList_none, List.flatMap_nil]
    omega
  | stored sess n old after =>
    refine h.goes (o := some (.close old after)) ht rfl fun sid => ?_
    simp only [Task.hands, Option.toList_some, List.flatMap_cons, List.flatMap_nil,
      List.append_nil]
  | closed old after =>
    refine h.goes (o := after.task) ht rfl fun sid => ?_
    rw [task_hands]
    simp only [Task.hands, List.count_append, List.count_nil,
      Option.toList_some]
    omega
  | unavailable restart =>
    refine h.goes (o := if restart then some (.capture none) else none) ht rfl fun sid => ?_
    cases restart <;> rfl

theorem Accounted.entered (h : p.Accounted) (hid : p.tasks.lookup id = none)
    (ht : t.hands = []) :
    { p with tasks := assign p.tasks id (some t) }.Accounted := by
  intro sid
  have hsid := h sid
  rw [held_of_none _ _ _ hid] at hsid
  change _ + _ + held (assign _ _ _) sid + _ = _
  rw [held_assign]
  simpa [ht] using hsid

theorem Accounted.moves (h : p.Accounted) (hm : p.Moves parse op p') : p'.Accounted := by
  cases hm with
  | entered hid ht =>
    refine h.entered hid ?_
    cases ht <;> rfl
  | changed hid st => exact h.entered hid rfl
  | ran ht hm => exact h.ran ht hm
  | _ => exact h

theorem Accounted.in_hands (h : p.Accounted) {sid : ℕ} (ht : p.tasks.lookup id = some t)
    (hs : sid ∈ t.hands) : sid < p.opened ∧ p.sess ≠ some sid ∧ sid ∉ p.closes ∧ sid ∉ p.failed ∧
      held (p.tasks.erase id) sid = 0 := by
  have hsid := h sid
  have hpos : 0 < t.hands.count sid := List.count_pos_iff.2 hs
  rw [held_of_lookup _ _ _ ht, List.count_range] at hsid
  split at hsid
  · next hlt =>
    refine ⟨hlt, fun he => ?_, fun hc => ?_, fun hf => ?_, by omega⟩
    · rw [he] at hsid
      simp only [Option.toList_some, List.count_singleton, BEq.rfl, if_true] at hsid
      omega
    · have := List.count_pos_iff.2 hc
      omega
    · have := List.count_pos_iff.2 hf
      omega
  · omega

theorem Accounted.lt (h : p.Accounted) {sid : ℕ} (hs : sid ∈ p.closes ∨ sid ∈ p.failed) :
    sid < p.opened := by
  have hsid := h sid
  by_contra hlt
  rw [List.count_range, if_neg hlt] at hsid
  rcases hs with hc | hf
  · have := List.count_pos_iff.2 hc
    omega
  · have := List.count_pos_iff.2 hf
    omega

theorem Accounted.installed (h : p.Accounted) {sid : ℕ} (hs : p.sess = some sid) :
    sid < p.opened ∧ sid ∉ p.closes ∧ sid ∉ p.failed := by
  have hsid := h sid
  rw [hs, List.count_range] at hsid
  simp only [Option.toList_some, List.count_singleton, BEq.rfl, if_true] at hsid
  split at hsid
  · next hlt =>
    refine ⟨hlt, fun hc => ?_, fun hf => ?_⟩
    · have := List.count_pos_iff.2 hc
      omega
    · have := List.count_pos_iff.2 hf
      omega
  · omega

end Owner

/-! ## The bridge and the field -/

/-- The store into the bridge that is still to come: its session and its swap. -/
def Task.stores : Task → Option (Option ℕ × ℕ)
  | .store sess n _ _ => some (sess, n)
  | _ => none

namespace Owner

variable {parse : Guid → Option UUID} {p p' : Owner} {op : OwnerOp} {id : ℕ} {t : Task}
  {o : Option Task} {err : Option Cause}

structure Published (p : Owner) : Prop where
  le : p.stored ≤ p.swaps
  /-- The last swap was stored. -/
  last : p.stored = p.swaps → p.bridge = p.sess
  /-- A swap later than any stored is still to be stored. -/
  pending : ∀ n, p.stored < n → n ≤ p.swaps →
    ∃ id t sess, p.tasks.lookup id = some t ∧ t.stores = some (sess, n)
  stores : ∀ id t, p.tasks.lookup id = some t → ∀ s ∈ t.stores,
    s.2 ≤ p.swaps ∧ (s.2 = p.swaps → s.1 = p.sess)

theorem published_init (st : Store) (config : DialConfig) : (init st config).Published where
  le := le_rfl
  last _ := rfl
  pending n hlt hle := absurd hle (Nat.not_le.2 hlt)
  stores id t ht := by simp [init] at ht

/-- A step of a goroutine that is not at a store, and does not come to one. -/
theorem Published.frame (h : p.Published)
    (hold : ∀ t, p.tasks.lookup id = some t → t.stores = none) (hnew : ∀ t ∈ o, t.stores = none) :
    { p with tasks := assign p.tasks id o }.Published where
  le := h.le
  last := h.last
  pending n hlt hle := by
    obtain ⟨id', t, sess, ht, hs⟩ := h.pending n hlt hle
    have hne : id' ≠ id := by
      rintro rfl
      rw [hold t ht] at hs
      cases hs
    exact ⟨id', t, sess, by rw [lookup_assign, if_neg hne]; exact ht, hs⟩
  stores := forall_assign h.stores fun t ht s hs => by
    rw [hnew t ht] at hs
    cases hs

/-- A swap is the last, and its store is to come. -/
theorem Published.swapped (h : p.Published) {sess old : Option ℕ} {after : AfterSet}
    (hold : ∀ t, p.tasks.lookup id = some t → t.stores = none) :
    { p with
      tasks := assign p.tasks id (some (.store sess (p.swaps + 1) old after))
      sess := sess
      swaps := p.swaps + 1 }.Published where
  le := h.le.trans (Nat.le_succ _)
  last he := by
    have : p.stored ≤ p.swaps := h.le
    have : p.stored = p.swaps + 1 := he
    omega
  pending n hlt hle := by
    rcases Nat.lt_or_eq_of_le hle with hlt' | rfl
    · obtain ⟨id', t, s, ht, hs⟩ := h.pending n hlt (Nat.le_of_lt_succ hlt')
      have hne : id' ≠ id := by
        rintro rfl
        rw [hold t ht] at hs
        cases hs
      exact ⟨id', t, s, by rw [lookup_assign, if_neg hne]; exact ht, hs⟩
    · exact ⟨id, .store sess (p.swaps + 1) old after, sess,
        by rw [lookup_assign, if_pos rfl], rfl⟩
  stores := by
    refine forall_assign (fun id' t ht s hs => ?_) fun t ht s hs => ?_
    · have := (h.stores id' t ht s hs).1
      exact ⟨this.trans (Nat.le_succ _), fun he => by dsimp only at he; omega⟩
    · cases ht
      cases hs
      exact ⟨le_rfl, fun _ => rfl⟩

theorem Published.ran (h : p.Published) (ht : p.tasks.lookup id = some t) (htidy : p.TidyTask t)
    (hm : p.TaskMoves parse id err t p') : p'.Published := by
  have hat : t.stores = none → ∀ t', p.tasks.lookup id = some t' → t'.stores = none := by
    intro hn t' ht'
    rw [ht] at ht'
    exact Option.some.inj ht' ▸ hn
  cases hm with
  | advanced ha =>
    cases ha with
    | closed =>
      next after => exact h.frame (hat rfl) (by cases after <;> simp [AfterSet.task, Task.stores])
    | _ => exact h.frame (hat rfl) (by simp [Task.stores])
  | captured seen =>
    exact { h.frame (o := some (.inputs (p.gen + 1))) (hat rfl) (by simp [Task.stores]) with }
  | dialing gen inputs =>
    exact { h.frame (o := some (.dialing gen p.opened)) (hat rfl) (by simp [Task.stores]) with }
  | dialled gen s =>
    exact { h.frame (o := some (.swap gen s)) (hat rfl) (by simp [Task.stores]) with }
  | failed gen s cause he => exact { h.frame (o := none) (hat rfl) (by simp) with }
  | installed gen s hg => exact { h.swapped (hat rfl) with }
  | cleared restart => exact { h.swapped (hat rfl) with }
  | rejected s => exact { h.frame (o := none) (hat rfl) (by simp) with }
  | stored sess n old after =>
    have hn : p.stored < n := htidy
    obtain ⟨hle, heq⟩ := h.stores id _ ht _ rfl
    refine ⟨hle, heq, fun m hlt hm => ?_, ?_⟩
    · obtain ⟨id', t, s, ht', hs⟩ := h.pending m (hn.trans hlt) hm
      have hne : id' ≠ id := by
        rintro rfl
        rw [ht] at ht'
        cases ht'
        cases hs
        exact absurd hlt (lt_irrefl _)
      exact ⟨id', t, s, by rw [lookup_assign, if_neg hne]; exact ht', hs⟩
    · exact forall_assign h.stores fun t ht s hs => by
        cases ht
        cases hs
  | closed old after =>
    exact { h.frame (o := after.task) (hat rfl)
      (by cases after <;> simp [AfterSet.task, Task.stores]) with }
  | unavailable restart =>
    exact { h.frame (o := if restart then some (.capture none) else none) (hat rfl)
      (by cases restart <;> simp [Task.stores]) with }

theorem Published.moves (h : p.Published) (hok : p.Tidy op) (hm : p.Moves parse op p') :
    p'.Published := by
  cases hm with
  | entered hid ht =>
    refine h.frame (by simp [hid]) fun t' ht' => ?_
    cases ht'
    cases ht <;> rfl
  | changed hid st =>
    exact { h.frame (o := some .live) (by simp [hid]) (by simp [Task.stores]) with }
  | ran ht hm => exact h.ran ht (hok _ ht) hm
  | _ => exact { h with }

end Owner

/-! ## Who asked for it -/

/-- The teardown after which a redirect saw a session. -/
def Task.seen : Task → Option ℕ
  | .capture seen => seen
  | _ => none

namespace Owner

variable {parse : Guid → Option UUID} {p p' : Owner} {op : OwnerOp} {id : ℕ} {t : Task}
  {o : Option Task} {err : Option Cause}

structure Requested (p : Owner) : Prop where
  live : p.sess ≠ none → p.requested = true
  gens : ∀ id t, p.tasks.lookup id = some t → ∀ g ∈ t.gen, g = p.gen → p.requested = true
  seen : ∀ id t, p.tasks.lookup id = some t → ∀ e ∈ t.seen,
    e ≤ p.epoch ∧ (e = p.epoch → p.requested = true)

theorem requested_init (st : Store) (config : DialConfig) : (init st config).Requested where
  live hs := absurd rfl hs
  gens id t ht := by simp [init] at ht
  seen id t ht := by simp [init] at ht

theorem Requested.frame (h : p.Requested) (id : ℕ) (hg : ∀ t ∈ o, ∀ g ∈ t.gen,
      ∃ t', p.tasks.lookup id = some t' ∧ t'.gen = some g)
    (hs : ∀ t ∈ o, ∀ e ∈ t.seen, e = p.epoch ∧ p.sess ≠ none) :
    { p with tasks := assign p.tasks id o }.Requested where
  live := h.live
  gens := forall_assign h.gens fun t ht g hg' => by
    obtain ⟨t', ht', he⟩ := hg t ht g hg'
    exact h.gens id t' ht' g he
  seen := forall_assign h.seen fun t ht e he => by
    obtain ⟨rfl, hsess⟩ := hs t ht e he
    exact ⟨le_rfl, fun _ => h.live hsess⟩

theorem Advances.seen (ha : p.Advances parse t o) :
    ∀ t' ∈ o, ∀ e ∈ t'.seen, e = p.epoch ∧ p.sess ≠ none := by
  cases ha with
  | live hs => simpa [Task.seen] using hs
  | @closed after => cases after <;> simp [AfterSet.task, Task.seen]
  | _ => simp [Task.seen]

theorem Requested.ran (h : p.Requested) (hB : p.Bounded) (ht : p.tasks.lookup id = some t)
    (htidy : p.TidyTask t) (hm : p.TaskMoves parse id err t p') : p'.Requested := by
  cases hm with
  | advanced ha => exact h.frame id (fun t' ht' g hg => ⟨t, ht, ha.gen t' ht' g hg⟩) ha.seen
  | captured seen =>
    have hreq : (p.requested || seen.isNone) = true := by
      cases seen with
      | none => simp
      | some e =>
        have : e = p.epoch ∨ p.requested = true := htidy
        simp only [Option.isNone_some, Bool.or_false]
        exact this.elim (h.seen id _ ht e rfl).2 (fun h => h)
    refine ⟨fun _ => hreq, ?_, ?_⟩
    · exact fun _ _ _ _ _ _ => hreq
    · refine forall_assign (fun id' t' ht' e he => ?_) fun t' ht' e he => ?_
      · exact ⟨(h.seen id' t' ht' e he).1, fun _ => hreq⟩
      · cases ht'
        cases he
  | dialing gen inputs =>
    exact { h.frame (o := some (.dialing gen p.opened)) id
      (by simp [ht, Task.gen]) (by simp [Task.seen]) with }
  | dialled gen s =>
    exact { h.frame (o := some (.swap gen s)) id (by simp [ht, Task.gen]) (by simp [Task.seen]) with }
  | failed gen s cause he => exact { h.frame (o := none) id (by simp) (by simp) with }
  | installed gen s hg =>
    have hreq := h.gens id _ ht gen rfl hg
    exact { h.frame (o := some (.store (some s) (p.swaps + 1) p.sess .installed)) id
      (by simp [Task.gen]) (by simp [Task.seen]) with
      live := fun _ => hreq }
  | cleared restart =>
    refine ⟨fun hs => absurd rfl hs, ?_, ?_⟩
    · refine forall_assign (fun id' t' ht' g hg => ?_) fun t' ht' g hg => ?_
      · have hle := hB id' t' ht' g hg
        exact fun he => by dsimp only at he; omega
      · cases ht'
        cases hg
    · refine forall_assign (fun id' t' ht' e he => ?_) fun t' ht' e he => ?_
      · have := (h.seen id' t' ht' e he).1
        exact ⟨this.trans (Nat.le_succ _), fun he => by dsimp only at he; omega⟩
      · cases ht'
        cases he
  | rejected s => exact { h.frame (o := none) id (by simp) (by simp) with }
  | stored sess n old after =>
    exact { h.frame (o := some (.close old after)) id
      (by simp [Task.gen]) (by simp [Task.seen]) with }
  | closed old after =>
    exact { h.frame (o := after.task) id
      (by cases after <;> simp [AfterSet.task, Task.gen])
      (by cases after <;> simp [AfterSet.task, Task.seen]) with }
  | unavailable restart =>
    exact { h.frame (o := if restart then some (.capture none) else none) id
      (by cases restart <;> simp [Task.gen]) (by cases restart <;> simp [Task.seen]) with }

theorem Requested.moves (h : p.Requested) (hB : p.Bounded) (hok : p.Tidy op)
    (hm : p.Moves parse op p') : p'.Requested := by
  cases hm with
  | entered hid ht =>
    refine h.frame _ (fun t' ht' g hg => ?_) fun t' ht' e he => ?_
    · cases ht'
      cases ht <;> cases hg
    · cases ht'
      cases ht <;> cases he
  | @changed id c hid st =>
    exact { h.frame (o := some .live) id (by simp [Task.gen]) (by simp [Task.seen]) with }
  | ran ht hm => exact h.ran hB ht (hok _ ht) hm
  | _ => exact { h with }

theorem owned_of (hA : p.Accounted) (hP : p.Published) (hR : p.Requested) : p.Owned where
  one hrest := hP.last (le_antisymm hP.le (Nat.le_of_not_lt fun hlt => by
    obtain ⟨id, t, s, ht, -⟩ := hP.pending p.swaps hlt le_rfl
    simp [hrest] at ht))
  closed hrest sid hsid hfailed := by
    have h := hA sid
    have hone : (List.range p.opened).count sid = 1 := by
      rw [List.count_range, if_pos hsid]
    rw [hrest, List.count_eq_zero_of_not_mem hfailed, hone] at h
    change _ + _ + 0 + 0 = 1 at h
    cases hs : p.sess with
    | none =>
      rw [hs] at h
      simpa using h
    | some s =>
      rw [hs] at h
      simp only [Option.toList_some, List.count_singleton, beq_iff_eq] at h
      simp only [Option.some.injEq]
      split at h <;> simp_all
  requested := hR.live

end Owner

/-- **One owner**, along every run in which no older swap is stored over a newer
one and no redirect takes its generation after a teardown. -/
theorem one_owner (parse : Guid → Option UUID) (st : Store) (config : DialConfig)
    (ops : List OwnerOp) (p : Owner)
    (htidy : Meets (Owner.step parse) Owner.Tidy (.init st config) ops)
    (hrun : exec (Owner.step parse) (.init st config) ops = some p) : p.Owned := by
  have h : p.Accounted ∧ p.Bounded ∧ p.Published ∧ p.Requested := exec_invariant
    (I := fun p : Owner => p.Accounted ∧ p.Bounded ∧ p.Published ∧ p.Requested)
    (fun _ _ _ h hok hs =>
      have ⟨hA, hB, hP, hR⟩ := h
      have hm := Owner.step_moves hs
      ⟨hA.moves hm, hB.moves hm, hP.moves hok hm, hR.moves hB hok hm⟩)
    ⟨Owner.accounted_init st config, Owner.bounded_init st config, Owner.published_init st config,
      Owner.requested_init st config⟩ htidy hrun
  exact Owner.owned_of h.1 h.2.2.1 h.2.2.2

/-- The nil UUID is one that parses. -/
def parseNil (guid : Guid) : Option UUID :=
  if guid = "00000000-0000-0000-0000-000000000000" then some .nil else none

def someSecret : String := "0123456789012345678901234567890123456789012"

/-- The local client is known, and `SyncClient` brings credentials. -/
def synced : List OwnerOp :=
  [.self (some ("00000000-0000-0000-0000-000000000000", ⟨"a", "b", "c", 0⟩)),
    .change 0 (.setVoiceCredentials someSecret "a:1" ""), .run 0 none]

/-- `Connect` dials up to the swap. -/
def connecting : List OwnerOp := .start 0 :: List.replicate 7 (.run 0 none)

def redirecting : List OwnerOp :=
  .change 1 (.setVoiceAddresses "b:1" "") :: List.replicate 10 (.run 1 none)

def disconnected : Owner := .init .new ⟨"", 0, ""⟩

theorem one_owner_redirected : ∃ p, exec (Owner.step parseNil) disconnected
    (synced ++ connecting ++ [.run 0 none, .run 0 none] ++ redirecting) = some p ∧
      p.sess = some 1 ∧ p.closes = [0] ∧ p.Owned := by
  have hrun : (exec (Owner.step parseNil) disconnected
      (synced ++ connecting ++ [.run 0 none, .run 0 none] ++ redirecting)).map
        (fun p => (p.sess, p.closes)) = some (some 1, [0]) := by decide +kernel
  obtain ⟨p, hp, hv⟩ := Option.map_eq_some_iff.1 hrun
  exact ⟨p, hp, congrArg Prod.fst hv, congrArg Prod.snd hv,
    one_owner parseNil .new ⟨"", 0, ""⟩ _ p (by decide +kernel) hp⟩

/-- **The older install stores last**: the bridge is left with a closed session. -/
theorem older_store_last : ∃ p, exec (Owner.step parseNil) disconnected
    (synced ++ connecting ++ redirecting ++ [.run 0 none, .run 0 none]) = some p ∧
      p.closes = [0] ∧ ¬p.Owned := by
  have hrun : (exec (Owner.step parseNil) disconnected
      (synced ++ connecting ++ redirecting ++ [.run 0 none, .run 0 none])).map
        (fun p => (p.closes, p.bridge, p.sess, p.tasks.entries.length)) =
      some ([0], some 0, some 1, 0) := by decide +kernel
  obtain ⟨p, hp, hv⟩ := Option.map_eq_some_iff.1 hrun
  simp only [Prod.mk.injEq, List.length_eq_zero_iff] at hv
  obtain ⟨hcloses, hbridge, hsess, hrest⟩ := hv
  refine ⟨p, hp, hcloses, fun h => ?_⟩
  have := h.one (AList.ext hrest)
  rw [hbridge, hsess] at this
  cases this

end VcsClient.App
