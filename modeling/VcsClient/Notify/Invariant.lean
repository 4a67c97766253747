import VcsClient.Notify.Coalesce

/-!
# What holds of the list after every section

`Kept` is the invariant of the list: at most one unresolved row a key and that
one the newest, no unresolved row of a suppressed key, ids that fall from the
head, no more rows than the cap, and no resolved or informational row unread.
Each publishing entry point keeps it and publishes when it changed the list
(`Op.commit_spec`); a suppression is left only where the history accounts for it
(`Op.commit_suppressed`).
-/

namespace VcsClient.Notify

open VcsClient.Lib

variable {δ : Type*}

/-! ## The invariant -/

structure Notifier.Kept (n : Notifier δ) : Prop where
  cap : 0 < n.cap
  ids : ∃ seqs : List ℕ, n.items.map (·.id) = seqs.map idOf ∧ seqs.Pairwise (· > ·) ∧
    ∀ x ∈ seqs, x ≤ n.seq
  length : n.items.length ≤ n.cap
  newest : n.items.Pairwise fun a b => a.key = b.key → a.key ≠ "" → b.resolved = true
  suppressed : ∀ k ∈ n.suppressed, k ≠ "" ∧ ∀ it ∈ n.items, it.key = k → it.resolved = true
  read : ∀ it ∈ n.items, it.unread = true → it.resolved = false ∧ it.severity ≠ severityInfo

theorem Notifier.new_kept (cap : ℤ) : (Notifier.new δ cap).Kept where
  cap := by
    unfold Notifier.new defaultCap
    split <;> simp only <;> omega
  ids := ⟨[], rfl, .nil, by simp⟩
  length := Nat.zero_le _
  newest := .nil
  suppressed := fun k hk => absurd hk (AList.notMem_empty k)
  read := by simp [Notifier.new]

namespace Notifier.Kept

variable {n : Notifier δ}

theorem nodup_ids (h : n.Kept) : (n.items.map (·.id)).Nodup := by
  obtain ⟨seqs, hids, hdec, -⟩ := h.ids
  rw [hids]
  exact (hdec.imp fun hab => (Nat.ne_of_lt hab).symm).map idOf fun a b hab he => hab (idOf_inj he)

/-- The invariant reads the list, the counter, the suppressions and the cap. -/
theorem congr {n' : Notifier δ} (h : n.Kept) (hcap : n'.cap = n.cap) (hitems : n'.items = n.items)
    (hseq : n'.seq = n.seq) (hsup : ∀ k ∈ n'.suppressed, k ∈ n.suppressed) : n'.Kept where
  cap := hcap ▸ h.cap
  ids := by rw [hitems, hseq]; exact h.ids
  length := by rw [hitems, hcap]; exact h.length
  newest := hitems ▸ h.newest
  suppressed := fun k hk => hitems ▸ h.suppressed k (hsup k hk)
  read := hitems ▸ h.read

/-- A row is put on the list under a key with no unresolved row. -/
theorem insertLocked (h : n.Kept) (now : ℤ) (item : Item)
    (hkey : item.key ≠ "" → ∀ it ∈ n.items, it.key = item.key → it.resolved = true)
    (hsup : item.key ∉ n.suppressed) : (n.insertLocked now item).2.Kept where
  cap := h.cap
  ids := by
    obtain ⟨seqs, hids, hdec, hle⟩ := h.ids
    refine ⟨((n.seq + 1) :: seqs).take n.cap, ?_, ?_, ?_⟩
    · simp only [Notifier.insertLocked, List.map_take, List.map_cons, hids]
      rfl
    · refine (List.pairwise_cons.2 ⟨fun x hx => ?_, hdec⟩).sublist (List.take_sublist _ _)
      exact Nat.lt_succ_of_le (hle x hx)
    · intro x hx
      rcases List.mem_cons.1 (List.mem_of_mem_take hx) with rfl | hx
      · exact le_rfl
      · exact Nat.le_succ_of_le (hle x hx)
  length := List.length_take_le _ _
  newest := by
    refine (List.pairwise_cons.2 ⟨fun it hit he hne => ?_, h.newest⟩).sublist (List.take_sublist _ _)
    exact hkey hne it hit he.symm
  suppressed := by
    intro k hk
    refine ⟨(h.suppressed k hk).1, fun it hit he => ?_⟩
    rcases List.mem_cons.1 (List.mem_of_mem_take hit) with rfl | hit
    · exact absurd (he ▸ hk) hsup
    · exact (h.suppressed k hk).2 it hit he
  read := by
    intro it hit hun
    rcases List.mem_cons.1 (List.mem_of_mem_take hit) with rfl | hit
    · exact ⟨rfl, by simpa [Item.stamped] using hun⟩
    · exact h.read it hit hun

theorem rewrite (h : n.Kept) {n' : Notifier δ} (hcap : n'.cap = n.cap) (hseq : n'.seq = n.seq)
    (hsup : ∀ k ∈ n'.suppressed, k ∈ n.suppressed)
    (hrows : List.Forall₂ (fun a b : Item => a.id = b.id ∧ a.key = b.key ∧
      (a.resolved = true → b.resolved = true)) n.items n'.items)
    (hread : ∀ it ∈ n'.items, it.unread = true →
      it.resolved = false ∧ it.severity ≠ severityInfo) : n'.Kept where
  cap := hcap ▸ h.cap
  ids := by
    obtain ⟨seqs, hids, hdec, hle⟩ := h.ids
    refine ⟨seqs, hids ▸ ?_, hdec, hseq ▸ hle⟩
    have : List.Forall₂ (fun a b => b = a) (n.items.map (·.id)) (n'.items.map (·.id)) :=
      List.forall₂_map_left_iff.2 (List.forall₂_map_right_iff.2 (hrows.imp fun _ _ hab => hab.1.symm))
    exact List.forall₂_eq_eq_eq ▸ this.flip
  length := by rw [← hrows.length_eq, hcap]; exact h.length
  newest := by
    refine Pairwise.of_forall₂ hrows h.newest fun a a' b b' hab hab' hnew he hne => ?_
    exact hab'.2.2 (hnew (by rw [hab.2.1, hab'.2.1, he]) (by rwa [hab.2.1]))
  suppressed := by
    intro k hk
    obtain ⟨hne, hres⟩ := h.suppressed k (hsup k hk)
    refine ⟨hne, fun b hb he => ?_⟩
    obtain ⟨a, ha, hab⟩ := forall₂_mem hrows hb
    exact hab.2.2 (hres a ha (hab.2.1.trans he))
  read := hread

/-- Rows are taken off the list, and keys suppressed that have no unresolved
row left. -/
theorem remove (h : n.Kept) {n' : Notifier δ} (hcap : n'.cap = n.cap) (hseq : n'.seq = n.seq)
    (hrows : n'.items.Sublist n.items)
    (hsup : ∀ k ∈ n'.suppressed, k ∈ n.suppressed ∨
      k ≠ "" ∧ ∀ it ∈ n'.items, it.key = k → it.resolved = true) : n'.Kept where
  cap := hcap ▸ h.cap
  ids := by
    obtain ⟨seqs, hids, hdec, hle⟩ := h.ids
    have hsub : (n'.items.map (·.id)).Sublist (seqs.map idOf) := hids ▸ hrows.map _
    obtain ⟨seqs', hsub', he⟩ := List.sublist_map_iff.1 hsub
    exact ⟨seqs', he, hdec.sublist hsub', fun x hx => hseq ▸ hle x (hsub'.subset hx)⟩
  length := by
    have := hrows.length_le
    have := h.length
    omega
  newest := h.newest.sublist hrows
  suppressed := by
    intro k hk
    rcases hsup k hk with hk | hk
    · obtain ⟨hne, hres⟩ := h.suppressed k hk
      exact ⟨hne, fun it hit => hres it (hrows.subset hit)⟩
    · exact hk
  read := fun it hit => h.read it (hrows.subset hit)

end Notifier.Kept

/-! ## The coalescer's sections leave the list alone -/

/-- The list, its counter, its suppressions and its cap are the same. -/
def Notifier.SameList (n n' : Notifier δ) : Prop :=
  n'.cap = n.cap ∧ n'.items = n.items ∧ n'.seq = n.seq ∧ n'.suppressed = n.suppressed

namespace Notifier.SameList

variable {n n' n'' : Notifier δ}

theorem refl (n : Notifier δ) : n.SameList n := ⟨rfl, rfl, rfl, rfl⟩

theorem trans (h : n.SameList n') (h' : n'.SameList n'') : n.SameList n'' :=
  ⟨h'.1.trans h.1, h'.2.1.trans h.2.1, h'.2.2.1.trans h.2.2.1, h'.2.2.2.trans h.2.2.2⟩

theorem kept (h : n.SameList n') (hk : n.Kept) : n'.Kept :=
  hk.congr h.1 h.2.1 h.2.2.1 fun _ => h.2.2.2 ▸ id

theorem stop (n : Notifier δ) (timer : Option ℕ) : n.SameList (n.stop timer) := by
  cases timer <;> exact ⟨rfl, rfl, rfl, rfl⟩

theorem retirePendingLocked (n : Notifier δ) (key : Key) :
    n.SameList (n.retirePendingLocked key) := ⟨rfl, rfl, rfl, rfl⟩

theorem cancelPendingLocked (n : Notifier δ) (key : Key) :
    n.SameList (n.cancelPendingLocked key) := by
  unfold Notifier.cancelPendingLocked
  simp only
  split
  · exact ⟨rfl, rfl, rfl, rfl⟩
  · next p _ =>
    have hstop := stop { n with cancelGen := n.cancelGen + 1 } p.timer
    exact hstop.trans (retirePendingLocked _ _)

theorem armLocked (n : Notifier δ) (now : ℤ) (key : Key) (window : ℤ) :
    n.SameList (n.armLocked now key window) := by
  unfold Notifier.armLocked
  split
  · exact ⟨rfl, rfl, rfl, rfl⟩
  · next p _ => exact (stop n p.timer).trans ⟨rfl, rfl, rfl, rfl⟩

theorem stopTimersLoop (l : List (Sigma fun _ : Key => PendingChange)) (n : Notifier δ) :
    n.SameList (n.stopTimersLoop l) := by
  induction l generalizing n with
  | nil => exact refl n
  | cons e l ih => exact ((stop _ _).trans (retirePendingLocked _ _)).trans (ih _)

theorem stopTimers (n : Notifier δ) : n.SameList n.stopTimers :=
  trans ⟨rfl, rfl, rfl, rfl⟩ (stopTimersLoop _ _)

end Notifier.SameList

/-! ## The publishing sections -/

section
variable (sha256 : List UInt8 → δ)

/-- The row `findByKeyLocked` finds and those after it are the rows of the key. -/
theorem Notifier.Kept.resolved_of_findByKey {n : Notifier δ} (h : n.Kept) {key : Key} {it : Item}
    (hkey : key ≠ "") (hf : n.findByKeyLocked key = some it) {x : Item} (hx : x ∈ n.items)
    (hxk : x.key = key) : x = it ∨ x.resolved = true := by
  obtain ⟨hit, as, bs, hsplit, has⟩ := List.find?_eq_some_iff_append.1 hf
  have hpw := h.newest
  rw [hsplit] at hx hpw
  rcases List.mem_append.1 hx with hx | hx
  · exact absurd hxk (by simpa using has x hx)
  · rcases List.mem_cons.1 hx with rfl | hx
    · exact .inl rfl
    · have hrel := (List.pairwise_cons.1 (List.pairwise_append.1 hpw).2.1).1 x hx
      simp only [beq_iff_eq] at hit
      exact .inr (hrel (hit.trans hxk.symm) (hit ▸ hkey))

/-- Taking an unresolved row off the list leaves its key without one. -/
theorem Notifier.Kept.resolved_of_eraseP {n : Notifier δ} (h : n.Kept) {id : String} {it : Item}
    (hf : n.items.find? (·.id == id) = some it) (hkey : it.key ≠ "") (hun : it.resolved = false)
    {x : Item} (hx : x ∈ n.items.eraseP (·.id == id)) (hxk : x.key = it.key) :
    x.resolved = true := by
  obtain ⟨hit, as, bs, hsplit, has⟩ := List.find?_eq_some_iff_append.1 hf
  have hpw := h.newest
  rw [hsplit] at hpw hx
  have hx : x ∈ as ++ bs := by
    rw [List.eraseP_append_right _ (fun a ha => by simpa using has a ha)] at hx
    simpa [List.eraseP_cons, hit] using hx
  obtain ⟨-, hbs, hcross⟩ := List.pairwise_append.1 hpw
  rcases List.mem_append.1 hx with hx | hx
  · have := hcross x hx it List.mem_cons_self hxk (hxk ▸ hkey)
    rw [hun] at this
    cases this
  · exact (List.pairwise_cons.1 hbs).1 x hx hxk.symm hkey

theorem Notifier.forget_items (n : Notifier δ) (it : Item) :
    (n.forget sha256 it).cap = n.cap ∧ (n.forget sha256 it).items = n.items ∧
      (n.forget sha256 it).seq = n.seq := by
  obtain ⟨hcap, hitems, hseq, -⟩ := Notifier.SameList.cancelPendingLocked n it.key
  unfold Notifier.forget
  simp only
  split
  · exact ⟨rfl, rfl, rfl⟩
  · split <;> exact ⟨hcap, hitems, hseq⟩

/-- Dismissing a row suppresses its key at its content when it is unresolved,
and touches no other suppression. -/
theorem Notifier.forget_suppressed (n : Notifier δ) (it : Item) {k : Key} {fp : δ}
    (h : (n.forget sha256 it).suppressed.lookup k = some fp) :
    n.suppressed.lookup k = some fp ∨
      k = it.key ∧ k ≠ "" ∧ it.resolved = false ∧ fingerprint sha256 it = fp := by
  have hsame := (Notifier.SameList.cancelPendingLocked n it.key).2.2.2
  unfold Notifier.forget at h
  simp only at h
  split at h
  · exact .inl h
  · next hne =>
    split at h
    · next hcond =>
      simp only [hsame] at h
      by_cases hk : k = it.key
      · subst hk
        rw [AList.lookup_insert, Option.some.injEq] at h
        simp only [Bool.and_eq_true, Bool.not_eq_true'] at hcond
        exact .inr ⟨rfl, hne, hcond.1, h⟩
      · rw [AList.lookup_insert_ne hk] at h
        exact .inl h
    · exact .inl (hsame ▸ h)

theorem Notifier.foldl_forget_items (l : List Item) (n : Notifier δ) :
    (l.foldl (Notifier.forget sha256) n).cap = n.cap ∧
      (l.foldl (Notifier.forget sha256) n).items = n.items ∧
      (l.foldl (Notifier.forget sha256) n).seq = n.seq := by
  induction l generalizing n with
  | nil => exact ⟨rfl, rfl, rfl⟩
  | cons it l ih =>
    obtain ⟨h₁, h₂, h₃⟩ := ih (n.forget sha256 it)
    obtain ⟨k₁, k₂, k₃⟩ := n.forget_items sha256 it
    exact ⟨h₁.trans k₁, h₂.trans k₂, h₃.trans k₃⟩

theorem Notifier.foldl_forget_suppressed {l : List Item} {n : Notifier δ} {k : Key} {fp : δ}
    (h : (l.foldl (Notifier.forget sha256) n).suppressed.lookup k = some fp) :
    n.suppressed.lookup k = some fp ∨
      k ≠ "" ∧ ∃ it ∈ l, it.key = k ∧ it.resolved = false ∧ fingerprint sha256 it = fp := by
  induction l generalizing n with
  | nil => exact .inl h
  | cons it l ih =>
    rcases ih h with h | ⟨hne, x, hx, hxk⟩
    · rcases n.forget_suppressed sha256 it h with h | ⟨rfl, hne, hun, hfp⟩
      · exact .inl h
      · exact .inr ⟨hne, it, List.mem_cons_self, rfl, hun, hfp⟩
    · exact .inr ⟨hne, x, List.mem_cons_of_mem _ hx, hxk⟩

end

/-! ### One row -/

@[simp] theorem Item.stamped_key (it : Item) (id : String) (now : ℤ) :
    (it.stamped id now).key = it.key := rfl

@[simp] theorem Item.stamped_id (it : Item) (id : String) (now : ℤ) :
    (it.stamped id now).id = id := rfl

@[simp] theorem Item.stamped_resolved (it : Item) (id : String) (now : ℤ) :
    (it.stamped id now).resolved = false := rfl

theorem Item.stamped_same (it : Item) (id : String) (now : ℤ) :
    (it.stamped id now).SameContent it := ⟨rfl, rfl, rfl, rfl, rfl, rfl, rfl, rfl⟩

theorem Item.stamped_unread {it : Item} {id : String} {now : ℤ}
    (h : (it.stamped id now).unread = true) : it.severity ≠ severityInfo := by
  simpa [Item.stamped] using h

theorem Item.seen_ne {it : Item} (h : it.unread = true) : it.seen ≠ it := by
  intro he
  have := congrArg Item.unread he
  rw [h] at this
  cases this

namespace Notifier.Kept

variable {n : Notifier δ}

theorem eq_of_id (h : n.Kept) {x y : Item} (hx : x ∈ n.items) (hy : y ∈ n.items)
    (hid : x.id = y.id) : x = y :=
  List.inj_on_of_nodup_map h.nodup_ids hx hy hid

theorem fresh_id (h : n.Kept) {x : Item} (hx : x ∈ n.items) : x.id ≠ idOf (n.seq + 1) := by
  obtain ⟨seqs, hids, -, hle⟩ := h.ids
  intro he
  have hmem : x.id ∈ seqs.map idOf := hids ▸ List.mem_map_of_mem hx
  obtain ⟨y, hy, hyx⟩ := List.mem_map.1 hmem
  have := idOf_inj (hyx.trans he)
  have := hle y hy
  omega

/-- A list that holds a changed row is a changed list. -/
theorem ne_of_rewritten (h : n.Kept) {x it : Item} {items : List Item} (hit : it ∈ n.items)
    (hid : x.id = it.id) (hne : x ≠ it) (hmem : x ∈ items) : items ≠ n.items := by
  rintro rfl
  exact hne (h.eq_of_id hmem hit hid)

/-- The section that puts a row on the list: what is new is that row. -/
theorem insertLocked_new (h : n.Kept) (now : ℤ) (item : Item) :
    item.stamped (idOf (n.seq + 1)) now ∈ (n.insertLocked now item).2.items ∧
      item.stamped (idOf (n.seq + 1)) now ∉ n.items := by
  refine ⟨?_, fun hmem => h.fresh_id hmem rfl⟩
  obtain ⟨c, hc⟩ := Nat.exists_eq_succ_of_ne_zero (Nat.pos_iff_ne_zero.1 h.cap)
  simp [Notifier.insertLocked, hc]

end Notifier.Kept

/-- What a section that publishes may do to the list it found. -/
structure Outcome.Honest (before : List Item) (op : Op) (r : Outcome δ) : Prop where
  quiet : r.snap = none → r.n.items = before ∧ r.sound = none
  news : ∀ snap, r.snap = some snap → snap = .of r.n.items ∧ r.n.items ≠ before
  heard : ∀ it, r.sound = some it → it.severity = severityError ∧ it ∈ r.n.items ∧ it ∉ before ∧
    ((∃ item, op = .post item) ∨ ∃ key item, op = .raise key item)

theorem Outcome.Honest.unchanged {n n' : Notifier δ} (h : n'.items = n.items) (op : Op) :
    Outcome.Honest n.items op n'.unchanged where
  quiet := fun _ => ⟨h, rfl⟩
  news := fun _ hs => by cases hs
  heard := fun _ hs => by cases hs

theorem Outcome.Honest.changed {n' : Notifier δ} {before : List Item} (h : n'.items ≠ before)
    (op : Op) : Outcome.Honest before op n'.changed where
  quiet := fun hs => by cases hs
  news := fun _ hs => by cases hs; exact ⟨rfl, h⟩
  heard := fun _ hs => by cases hs

/-- Announcing the row `it`, which was not on the list before. -/
theorem Outcome.Honest.announced {n' : Notifier δ} (hk : n'.Kept) {before : List Item} {it : Item}
    (hmem : it ∈ n'.items) (hnew : it ∉ before) {op : Op}
    (hop : (∃ item, op = .post item) ∨ ∃ key item, op = .raise key item) :
    Outcome.Honest before op (Notifier.announced (it.id, n')) where
  quiet := fun hs => by cases hs
  news := fun _ hs => by cases hs; exact ⟨rfl, fun he => hnew (he ▸ hmem)⟩
  heard := by
    intro x hx
    obtain ⟨hfind, hsev⟩ := Option.filter_eq_some_iff.1 hx
    have hx : x = it := by
      refine hk.eq_of_id (List.mem_of_find?_eq_some hfind) hmem ?_
      simpa using List.find?_some hfind
    subst hx
    exact ⟨by simpa using hsev, hmem, hnew, hop⟩

section
variable (sha256 : List UInt8 → δ)

theorem Notifier.Kept.raiseInPlace {n : Notifier δ} (h : n.Kept) (now : ℤ) {key : Key}
    (item : Item) {it : Item} (hf : n.findByKeyLocked key = some it) (hun : it.resolved = false) :
    Notifier.Kept { n with
      items := modifyFirst (·.key == key)
        (fun _ => Item.stamped { item with key := key } it.id now) n.items } := by
  have hkey : it.key = key := by simpa using List.find?_some hf
  refine h.rewrite rfl rfl (fun _ => id) (forall₂_modifyFirst (fun _ => ⟨rfl, rfl, id⟩) ?_) ?_
  · intro a ha
    cases hf.symm.trans ha
    exact ⟨rfl, hkey, fun hr => by rw [hun] at hr; cases hr⟩
  · intro x hx hunread
    rcases mem_modifyFirst hx with hx | ⟨a, -, rfl⟩
    · exact h.read x hx hunread
    · exact ⟨rfl, Item.stamped_unread hunread⟩

theorem Notifier.post_spec {n : Notifier δ} (h : n.Kept) (now : ℤ) (item : Item) :
    (n.post now item).n.Kept ∧ (n.post now item).n.suppressed = n.suppressed ∧
      (n.post now item).snap ≠ none ∧
      ∀ op, ((∃ item, op = .post item) ∨ ∃ key item, op = .raise key item) →
        Outcome.Honest n.items op (n.post now item) := by
  have hk := h.insertLocked now { item with key := "" } (fun he => absurd rfl he) fun hc =>
    (h.suppressed "" hc).1 rfl
  obtain ⟨hmem, hnew⟩ := h.insertLocked_new now { item with key := "" }
  exact ⟨hk, rfl, by simp [Notifier.post, Notifier.announced], fun op hop => .announced hk hmem hnew hop⟩

theorem Notifier.resolveReport_spec {n : Notifier δ} (h : n.Kept) (key : Key) :
    (n.resolveReport key).n.Kept ∧ Outcome.Honest n.items (.resolve key) (n.resolveReport key) := by
  unfold Notifier.resolveReport
  split
  · exact ⟨h, .unchanged rfl _⟩
  · simp only
    have hlift : Notifier.Kept { n with suppressed := n.suppressed.erase key } :=
      h.congr rfl rfl rfl fun k hk => (AList.mem_erase.1 hk).2
    split
    · exact ⟨hlift, .unchanged (by rfl) _⟩
    · next it hf =>
      split
      · exact ⟨hlift, .unchanged (by rfl) _⟩
      · next hun =>
        have hne : it.cleared ≠ it := fun he => hun (congrArg Item.resolved he).symm
        refine ⟨?_, .changed (h.ne_of_rewritten (x := it.cleared) (List.mem_of_find?_eq_some hf)
          rfl hne (mem_modifyFirst_self hf)) _⟩
        refine hlift.rewrite rfl rfl (fun _ => id) (forall₂_modifyFirst (fun _ => ⟨rfl, rfl, id⟩)
          fun a _ => ⟨rfl, rfl, fun _ => rfl⟩) fun x hx hunread => ?_
        rcases mem_modifyFirst hx with hx | ⟨a, -, rfl⟩
        · exact h.read x hx hunread
        · cases hunread

theorem Notifier.Kept.markRead_rows {n : Notifier δ} (h : n.Kept) {items : List Item}
    (hrows : List.Forall₂ (fun a b : Item => b = a ∨ b = a.seen)
      n.items items) : Notifier.Kept { n with items := items } := by
  refine h.rewrite rfl rfl (fun _ => id) (hrows.imp fun a b hab => ?_) fun b hb hunread => ?_
  · rcases hab with rfl | rfl
    · exact ⟨rfl, rfl, id⟩
    · exact ⟨rfl, rfl, id⟩
  · obtain ⟨a, ha, hab⟩ := forall₂_mem hrows hb
    rcases hab with rfl | rfl
    · exact h.read _ ha hunread
    · cases hunread

theorem Notifier.markRead_spec {n : Notifier δ} (h : n.Kept) (id : String) :
    (n.markRead id).n.Kept ∧ (n.markRead id).n.suppressed = n.suppressed ∧
      Outcome.Honest n.items (.markRead id) (n.markRead id) := by
  unfold Notifier.markRead
  split
  · next hany =>
    obtain ⟨it, hf⟩ := Option.isSome_iff_exists.1 (List.find?_isSome.2 (List.any_eq_true.1 hany))
    have hun : it.unread = true := by
      have := List.find?_some hf
      simp only [Bool.and_eq_true] at this
      exact this.2
    exact ⟨h.markRead_rows (forall₂_modifyFirst (fun _ => .inl rfl) fun _ _ => .inr rfl), rfl,
      .changed (h.ne_of_rewritten (x := it.seen) (List.mem_of_find?_eq_some hf) rfl
        (Item.seen_ne hun) (mem_modifyFirst_self hf)) _⟩
  · exact ⟨h, rfl, .unchanged rfl _⟩

theorem Notifier.markAllRead_spec {n : Notifier δ} (h : n.Kept) :
    n.markAllRead.n.Kept ∧ n.markAllRead.n.suppressed = n.suppressed ∧
      Outcome.Honest n.items .markAllRead n.markAllRead := by
  unfold Notifier.markAllRead
  split
  · next hany =>
    obtain ⟨it, hit, hun⟩ := List.any_eq_true.1 hany
    refine ⟨h.markRead_rows ?_, rfl, .changed (h.ne_of_rewritten (x := it.seen) hit rfl
      (Item.seen_ne hun) (List.mem_map_of_mem hit)) _⟩
    exact List.forall₂_map_right_iff.2 (List.forall₂_same.2 fun _ _ => .inr rfl)
  · exact ⟨h, rfl, .unchanged rfl _⟩

theorem Notifier.dismiss_spec {n : Notifier δ} (h : n.Kept) (id : String) :
    (n.dismiss sha256 id).n.Kept ∧
      Outcome.Honest n.items (.dismiss id) (n.dismiss sha256 id) := by
  unfold Notifier.dismiss
  split
  · exact ⟨h, .unchanged rfl _⟩
  · next it hf =>
    obtain ⟨hcap, hitems, hseq⟩ := n.forget_items sha256 it
    simp only [hitems]
    refine ⟨h.remove hcap hseq List.eraseP_sublist fun k hk => ?_, .changed (fun he => ?_) _⟩
    · obtain ⟨fp, hfp⟩ := Option.isSome_iff_exists.1 (AList.lookup_isSome.2 hk)
      rcases n.forget_suppressed sha256 it hfp with hfp | ⟨rfl, hne, hun, -⟩
      · exact .inl (AList.lookup_isSome.1 (hfp ▸ rfl))
      · exact .inr ⟨hne, fun x hx hxk => h.resolved_of_eraseP hf hne hun hx hxk⟩
    · have hlen := congrArg List.length he
      have hmem := List.mem_of_find?_eq_some hf
      rw [List.length_eraseP_of_mem hmem (List.find?_some hf)] at hlen
      have := List.length_pos_of_mem hmem
      omega

theorem Notifier.clear_spec {n : Notifier δ} (h : n.Kept) :
    (n.clear sha256).n.Kept ∧ Outcome.Honest n.items .clear (n.clear sha256) := by
  unfold Notifier.clear
  split
  · exact ⟨h, .unchanged rfl _⟩
  · next hne =>
    obtain ⟨hcap, -, hseq⟩ := n.foldl_forget_items sha256 n.items
    refine ⟨h.remove hcap hseq (List.nil_sublist _) fun k hk => ?_, .changed (Ne.symm hne) _⟩
    obtain ⟨fp, hfp⟩ := Option.isSome_iff_exists.1 (AList.lookup_isSome.2 hk)
    rcases n.foldl_forget_suppressed sha256 hfp with hfp | ⟨hne, -⟩
    · exact .inl (AList.lookup_isSome.1 (hfp ▸ rfl))
    · exact .inr ⟨hne, fun it hit => absurd hit List.not_mem_nil⟩

end

section
variable [DecidableEq δ] (sha256 : List UInt8 → δ)

/-- What `raiseLocked` does when it changes the list: a new row under a key with
no unresolved row, or the unresolved row of the key rewritten. -/
theorem Notifier.raiseLocked_cases {n : Notifier δ} (h : n.Kept) {now : ℤ} {key : Key}
    (hkey : key ≠ "") {item : Item} {r : String × Notifier δ}
    (hr : n.raiseLocked sha256 now key item = some r) :
    n.suppressed.lookup key ≠ some (fingerprint sha256 { item with key := key }) ∧
    (((∀ it ∈ n.items, it.key = key → it.resolved = true) ∧
        r = ({ n with suppressed := n.suppressed.erase key }.insertLocked now
          { item with key := key })) ∨
      ∃ it, n.findByKeyLocked key = some it ∧ it.resolved = false ∧
        fingerprint sha256 it ≠ fingerprint sha256 { item with key := key } ∧
        r = (it.id, { n with
          items := modifyFirst (·.key == key)
            (fun _ => Item.stamped { item with key := key } it.id now) n.items })) := by
  unfold Notifier.raiseLocked at hr
  simp only at hr
  split at hr
  · cases hr
  · next hsup =>
    refine ⟨hsup, ?_⟩
    split at hr
    · next hf =>
      cases hr
      refine .inl ⟨fun it hit he => ?_, rfl⟩
      have := List.find?_eq_none.1 hf it hit
      simp [he] at this
    · next it hf =>
      split at hr
      · next hres =>
        cases hr
        refine .inl ⟨fun x hx he => ?_, rfl⟩
        rcases h.resolved_of_findByKey hkey hf hx he with rfl | h
        · exact hres
        · exact h
      · next hres =>
        split at hr
        · cases hr
        · next hfp =>
          cases hr
          exact .inr ⟨it, hf, by simpa using hres, hfp, rfl⟩

theorem Notifier.raiseLocked_none {n : Notifier δ} {now : ℤ} {key : Key} {item : Item}
    (hr : n.raiseLocked sha256 now key item = none) :
    n.suppressed.lookup key = some (fingerprint sha256 { item with key := key }) ∨
      ∃ it ∈ n.items, it.key = key ∧ it.resolved = false ∧
        fingerprint sha256 it = fingerprint sha256 { item with key := key } := by
  unfold Notifier.raiseLocked at hr
  simp only at hr
  split at hr
  · next hsup => exact .inl hsup
  · split at hr
    · cases hr
    · next it hf =>
      split at hr
      · cases hr
      · next hres =>
        split at hr
        · next hfp =>
          refine .inr ⟨it, List.mem_of_find?_eq_some hf, ?_, by simpa using hres, hfp⟩
          simpa using List.find?_some hf
        · cases hr

theorem Notifier.raiseReport_spec {n : Notifier δ} (h : n.Kept) (now : ℤ) (key : Key)
    (item : Item) :
    (n.raiseReport sha256 now key item).n.Kept ∧
      Outcome.Honest n.items (.raise key item) (n.raiseReport sha256 now key item) := by
  unfold Notifier.raiseReport
  split
  · obtain ⟨hk, -, -, hhonest⟩ := Notifier.post_spec h now item
    exact ⟨hk, hhonest _ (.inr ⟨key, item, rfl⟩)⟩
  · next hkey =>
    split
    · exact ⟨h, .unchanged rfl _⟩
    · next r hr =>
      obtain ⟨-, ⟨hres, rfl⟩ | ⟨it, hf, hun, hfp, rfl⟩⟩ := Notifier.raiseLocked_cases sha256 h hkey hr
      · have hlift : Notifier.Kept { n with suppressed := n.suppressed.erase key } :=
          h.congr rfl rfl rfl fun k hk => (AList.mem_erase.1 hk).2
        have hk := hlift.insertLocked now { item with key := key } (fun _ => hres) fun hc =>
          (AList.mem_erase.1 hc).1 rfl
        obtain ⟨hmem, hnew⟩ := hlift.insertLocked_new now { item with key := key }
        exact ⟨hk, .announced hk hmem hnew (.inr ⟨key, item, rfl⟩)⟩
      · have hk := h.raiseInPlace now item hf hun
        have hmem := mem_modifyFirst_self
          (f := fun _ => Item.stamped { item with key := key } it.id now) hf
        refine ⟨hk, .announced hk hmem (fun hc => hfp ?_) (.inr ⟨key, item, rfl⟩)⟩
        have := h.eq_of_id (List.mem_of_find?_eq_some hf) hc rfl
        rw [this]
        exact (Item.stamped_same _ _ _).fingerprint_eq sha256

/-- **Every publishing section keeps the list**, and publishes when and only
when it changed it. -/
theorem Op.commit_spec {n : Notifier δ} (h : n.Kept) (now : ℤ) (op : Op) :
    (Op.commit sha256 now n op).n.Kept ∧
      Outcome.Honest n.items op (Op.commit sha256 now n op) := by
  cases op with
  | post item =>
    obtain ⟨hk, -, -, hhonest⟩ := Notifier.post_spec h now item
    exact ⟨hk, hhonest _ (.inl ⟨item, rfl⟩)⟩
  | raise key item => exact Notifier.raiseReport_spec sha256 h now key item
  | resolve key => exact Notifier.resolveReport_spec h key
  | markRead id =>
    obtain ⟨hk, -, hhonest⟩ := Notifier.markRead_spec h id
    exact ⟨hk, hhonest⟩
  | markAllRead =>
    obtain ⟨hk, -, hhonest⟩ := Notifier.markAllRead_spec h
    exact ⟨hk, hhonest⟩
  | dismiss id => exact Notifier.dismiss_spec sha256 h id
  | clear => exact Notifier.clear_spec sha256 h

end

end VcsClient.Notify
