import VcsClient.Notify.ShareSteps

/-!
# What a dismissal leaves alone

Dismissing a row cancels the window of its key, whichever row of the key the
window was opened for. A key that is detached from the row and its window
(`System.Detached`) has the same share with the dismissal and without it, in any
two runs that bring it the same inputs (`System.dismissed_alone`). While the
window is open, the dismissal of an old row loses the change that a newer row of
the key waits for (`dismissed_with_the_old`).
-/

namespace VcsClient.Notify

open VcsClient.Lib

variable {δ : Type*}

/-! ## What a dismissal leaves alone -/

/-- The user took rows of the key away. -/
def Input.takes : Input → Bool
  | .dismiss _ | .clear => true
  | _ => false

namespace System

/-- Dismissing the row takes nothing from the key. If the row is one of the key,
its condition has cleared and no window of the key is open. Unless the row has no
key, no call is between its change and the window it opens. -/
def Detached (s : System δ) (k : Key) (x : Item) : Prop :=
  (x.key = "" ∨ s.leading k = false) ∧
    (x.key = k → k = "" ∨ x.resolved = true ∧ s.n.pending.lookup k = none)

instance (s : System δ) (k : Key) (x : Item) : Decidable (s.Detached k x) :=
  inferInstanceAs (Decidable (_ ∧ _))

/-- The row is still what it was, or was dismissed, cleared or pushed off the
end of the list. -/
def Stays (y : Item) (s t : System δ) : Prop :=
  ∃ news : List Record, t.history = s.history ++ news ∧ (y ∈ t.n.items ∨
    ∃ r ∈ news, y ∈ r.before ∧ (r.op = .dismiss y.id ∨ r.op = .clear ∨ r.before.getLast? = some y))

/-- What dismissing the row `x` in `s`, which leads to `s'`, leaves alone. -/
structure LeavesAlone [DecidableEq δ] (sha256 : List UInt8 → δ) (x : Item) (s s' : System δ) :
    Prop where
  /-- a key that nothing but the same inputs reach in two runs, one with the
  dismissal and one without it, has the same rows, suppression and window in both -/
  keys : ∀ k, s.Detached k x → ∀ l l' t t', exec (System.step sha256) s l = some t →
    exec (System.step sha256) s' l' = some t' →
    received sha256 k x.id s l = received sha256 k x.id s' l' → t.share k x.id = t'.share k x.id
  /-- what has cleared stays as it is in both runs -/
  rows : ∀ y ∈ s.n.items, y ≠ x → y.resolved = true →
    (∀ l t, exec (System.step sha256) s l = some t → s.Stays y t) ∧
      ∀ l' t', exec (System.step sha256) s' l' = some t' → s'.Stays y t'
  /-- a live condition is silenced at the content on screen, unless it is about
  to be resolved -/
  silenced : x.key ≠ "" → x.resolved = false → s'.n.suppressed.lookup x.key =
    if s.n.pendingResolveLocked x.key then none else some (fingerprint sha256 x)
  /-- any other content of it appears, as long as no other row of the key is
  taken away -/
  news : x.key ≠ "" → x.resolved = false → ∀ l u g item stamp after v,
    exec (System.step sha256) s' l = some u →
    (∀ i ∈ received sha256 x.key x.id s' l, i.takes = false) →
    u.threads.lookup g = some (.commit (.raise x.key item) stamp after) →
    u.step sha256 (.run g) = some v →
    fingerprint sha256 { item with key := x.key } ≠ fingerprint sha256 x →
    ∃ it ∈ v.n.items, it.key = x.key ∧ it.resolved = false ∧
      fingerprint sha256 it = fingerprint sha256 { item with key := x.key }

/-! ### Rows that have cleared -/

section
variable {y : Item}

/-- A new row pushes a row off the list only when it is the last. -/
theorem mem_insertLocked {n : Notifier δ} (hk : n.Kept) (hy : y ∈ n.items) (now : ℤ)
    (item : Item) : y ∈ (n.insertLocked now item).2.items ∨ n.items.getLast? = some y := by
  have hitems : (n.insertLocked now item).2.items = item.stamped (idOf (n.seq + 1)) now ::
      if n.items.length = n.cap then n.items.dropLast else n.items :=
    take_cons_eq hk.cap hk.length _
  rw [hitems]
  split
  · have hne : n.items ≠ [] := List.ne_nil_of_mem hy
    rw [← List.dropLast_append_getLast hne] at hy
    rcases List.mem_append.1 hy with hy | hy
    · exact .inl (List.mem_cons_of_mem _ hy)
    · rw [List.mem_singleton.1 hy]
      exact .inr (List.getLast?_eq_some_getLast hne)
  · exact .inl (List.mem_cons_of_mem _ hy)

/-- Changing the unresolved row of a key leaves a cleared row as it is. -/
theorem cleared_modifyFirst {l : List Item} {f : Item → Item} {p : Item → Bool} {it : Item}
    (hf : l.find? p = some it) (hun : it.resolved = false) (hy : y ∈ l) (hr : y.resolved = true) :
    y ∈ modifyFirst p f l := by
  obtain ⟨as, bs, hsplit, -, hmod⟩ := modifyFirst_split (f := f) hf
  rw [hmod]
  rw [hsplit] at hy
  rcases List.mem_append.1 hy with hy | hy
  · exact List.mem_append_left _ hy
  · rcases List.mem_cons.1 hy with rfl | hy
    · rw [hun] at hr
      cases hr
    · exact List.mem_append_right _ (List.mem_cons_of_mem _ hy)

theorem cleared_resolve {n : Notifier δ} (hy : y ∈ n.items) (hr : y.resolved = true) (key : Key) :
    y ∈ (n.resolveReport key).n.items := by
  simp only [Notifier.resolveReport]
  split
  · exact hy
  · split
    · exact hy
    · next it hf =>
      split
      · exact hy
      · next hun => exact cleared_modifyFirst hf (by simpa using hun) hy hr

end

section
variable [DecidableEq δ] (sha256 : List UInt8 → δ) {s t : System δ} {y : Item}

theorem cleared_raise {n : Notifier δ} (hk : n.Kept) (hy : y ∈ n.items) (hr : y.resolved = true)
    (now : ℤ) (key : Key) (item : Item) :
    y ∈ (n.raiseReport sha256 now key item).n.items ∨ n.items.getLast? = some y := by
  simp only [Notifier.raiseReport]
  split
  · exact mem_insertLocked hk hy now { item with key := "" }
  · next hempty =>
    split
    · exact .inl hy
    · next r hraise =>
      obtain ⟨-, ⟨-, rfl⟩ | ⟨it, hf, hun, -, rfl⟩⟩ :=
        Notifier.raiseLocked_cases sha256 hk hempty hraise
      · exact mem_insertLocked hk hy now { item with key := key }
      · exact .inl (cleared_modifyFirst hf hun hy hr)

/-- A section takes a cleared row off the list or leaves it as it is. -/
theorem cleared_row {n : Notifier δ} (hk : n.Kept) (hy : y ∈ n.items) (hr : y.resolved = true)
    (now : ℤ) (op : Op) : y ∈ (Op.commit sha256 now n op).n.items ∨
      op = .dismiss y.id ∨ op = .clear ∨ n.items.getLast? = some y := by
  have hread : ¬y.unread = true := by
    intro hun
    have := (hk.read y hy hun).1
    rw [hr] at this
    cases this
  cases op with
  | post item => exact (mem_insertLocked hk hy now _).imp_right fun h => .inr (.inr h)
  | raise key item =>
    exact (cleared_raise sha256 hk hy hr now key item).imp_right fun h => .inr (.inr h)
  | resolve key => exact .inl (cleared_resolve hy hr key)
  | markRead id =>
    simp only [Op.commit, markRead_items hk]
    refine .inl (List.mem_map.2 ⟨y, hy, ?_⟩)
    split
    · exact seen_of_read hread
    · rfl
  | markAllRead =>
    simp only [Op.commit, Notifier.markAllRead]
    split
    · exact .inl (List.mem_map.2 ⟨y, hy, seen_of_read hread⟩)
    · exact .inl hy
  | dismiss id =>
    by_cases hid : y.id = id
    · exact .inr (.inl (by rw [hid]))
    · simp only [Op.commit, Notifier.dismiss]
      split
      · exact .inl hy
      · next it _ =>
        refine .inl ?_
        simp only [Notifier.changed, (n.forget_items sha256 it).2.1]
        exact (List.mem_eraseP_of_neg (by simpa using hid)).2 hy
  | clear => exact .inr (.inr (.inl rfl))

theorem history_run {ls : List Label} (hi : s.Inv sha256) (hcap : Captured s.n s.threads)
    (h : exec (System.step sha256) s ls = some t) : ∃ news, t.history = s.history ++ news := by
  induction ls generalizing s with
  | nil =>
    cases h
    exact ⟨[], (List.append_nil _).symm⟩
  | cons l ls ih =>
    obtain ⟨s', hstep, hrun⟩ := exec_cons.1 h
    have hshape := step_shape sha256 hcap hstep
    obtain ⟨news, hnews⟩ := ih (step_inv sha256 hi hstep) (hshape.captured sha256 hcap) hrun
    rcases hshape.list with ⟨-, hhistory⟩ | ⟨op, stamp, -, hhistory⟩
    · exact ⟨news, by rw [hnews, hhistory]⟩
    · exact ⟨_ :: news, by rw [hnews, hhistory, List.append_assoc]; rfl⟩

/-- A cleared row is what it was until it is taken off the list. -/
theorem stays_run {ls : List Label} (hi : s.Inv sha256) (hcap : Captured s.n s.threads)
    (hy : y ∈ s.n.items) (hr : y.resolved = true) (h : exec (System.step sha256) s ls = some t) :
    s.Stays y t := by
  induction ls generalizing s with
  | nil =>
    cases h
    exact ⟨[], (List.append_nil _).symm, .inl hy⟩
  | cons l ls ih =>
    obtain ⟨s', hstep, hrun⟩ := exec_cons.1 h
    have hshape := step_shape sha256 hcap hstep
    have hi' := step_inv sha256 hi hstep
    have hcap' := hshape.captured sha256 hcap
    rcases hshape.list with ⟨hlist, hhistory⟩ | ⟨op, stamp, hn, hhistory⟩
    · obtain ⟨news, hnews, hrow⟩ := ih hi' hcap' (hlist.2.1 ▸ hy) hrun
      exact ⟨news, by rw [hnews, hhistory], hrow⟩
    · rcases cleared_row sha256 hi.kept hy hr s.now op with hstay | htaken
      · obtain ⟨news, hnews, hrow⟩ := ih hi' hcap' (hn ▸ hstay) hrun
        refine ⟨_ :: news, by rw [hnews, hhistory, List.append_assoc]; rfl, ?_⟩
        exact hrow.imp_right fun ⟨r, hr, htaken⟩ => ⟨r, List.mem_cons_of_mem _ hr, htaken⟩
      · obtain ⟨news, hnews⟩ := history_run sha256 hi' hcap' hrun
        exact ⟨⟨op, stamp, s.n.items, s'.n.items⟩ :: news,
          by rw [hnews, hhistory, List.append_assoc]; rfl, .inr ⟨_, List.mem_cons_self, hy, htaken⟩⟩

end

/-! ### The dismissal -/

theorem leading_iff {s : System δ} {k : Key} : s.leading k = true ↔
    ∃ g pc, s.threads.lookup g = some pc ∧ (pc.stage k s.n).any Stage.leads = true := by
  unfold leading
  rw [List.any_eq_true]
  constructor
  · rintro ⟨⟨g, pc⟩, hmem, hany⟩
    exact ⟨g, pc, AList.mem_lookup_iff.2 hmem, hany⟩
  · rintro ⟨g, pc, hl, hany⟩
    exact ⟨⟨g, pc⟩, AList.mem_lookup_iff.1 hl, hany⟩

section
variable [DecidableEq δ] (sha256 : List UInt8 → δ) {s s' : System δ} {k : Key} {x : Item} {g : ℕ}

/-- The dismissal of a row, from its call to its section. -/
theorem dismissal_cases
    (hd : exec (System.step sha256) s [.call g (.plain (.dismiss x.id)), .run g] = some s') :
    ∃ u : System δ, s.step sha256 (.call g (.plain (.dismiss x.id))) = some u ∧
      u.n = s.n ∧ u.now = s.now ∧ g ∉ s.threads ∧
      (∀ g', u.threads.lookup g' = if g' = g then some (.commit (.dismiss x.id) (s.calls + 1) .ret)
        else s.threads.lookup g') ∧
      u.step sha256 (.run g) = some s' ∧ s'.n = (s.n.dismiss sha256 x.id).n := by
  obtain ⟨u, hcall, hrest⟩ := exec_cons.1 hd
  obtain ⟨v, hrun, hv⟩ := exec_cons.1 hrest
  cases hv
  have hcall' := hcall
  simp only [step] at hcall
  split at hcall
  · cases hcall
  · next hg =>
    simp only [Option.some.injEq] at hcall
    have hn : u.n = s.n := by rw [← hcall, goto_n]
    have hnow : u.now = s.now := by rw [← hcall, goto_now]
    have hlookup : ∀ g', u.threads.lookup g' =
        if g' = g then some (.commit (.dismiss x.id) (s.calls + 1) .ret)
        else s.threads.lookup g' := by
      intro g'
      rw [← hcall, goto_lookup]
      rfl
    refine ⟨u, hcall', hn, hnow, hg, hlookup, hrun, ?_⟩
    simp only [step, hlookup, if_true, advance, commit] at hrun
    split at hrun
    · split at hrun
      · cases hrun
        rw [goto_n, recorded_n, hn, hnow]
        rfl
      · cases hrun
        rw [goto_n, hn, hnow]
        rfl
    · cases hrun

/-- The dismissal of a row the key is detached from does not reach its share. -/
theorem received_dismissal (hs : s.Sound k x.id) (hx : x ∈ s.n.items) (hdetached : s.Detached k x)
    (hd : exec (System.step sha256) s [.call g (.plain (.dismiss x.id)), .run g] = some s') :
    received sha256 k x.id s [.call g (.plain (.dismiss x.id)), .run g] = [] := by
  obtain ⟨u, hcall, hn, hnow, hg, hlookup, hrun, -⟩ := dismissal_cases sha256 hd
  have hfind := hs.kept.find_of_mem hx
  have hn' : (s.n.dismiss sha256 x.id).n =
      { s.n.forget sha256 x with items := (s.n.forget sha256 x).items.eraseP (·.id == x.id) } := by
    simp only [Notifier.dismiss, hfind]
    rfl
  -- the window of the key is not cancelled
  have hwindow : (s.n.dismiss sha256 x.id).n.pending.lookup k = s.n.pending.lookup k := by
    rw [hn']
    rcases forget_pending sha256 s.n x k with he | ⟨hkey, hnone⟩
    · exact he
    · rcases hdetached.2 hkey.symm with rfl | ⟨-, hclosed⟩
      · simp only [Notifier.forget, ← hkey, if_true]
      · exact hnone.trans hclosed.symm
  have hcancelled : cancelled k s.n (s.n.dismiss sha256 x.id).n = [] := by
    refine if_neg ?_
    rw [hwindow]
    cases s.n.pending.lookup k <;> simp
  have hplace : (shareRows k x.id s.n.items).findIdx? (·.id == x.id) = none := by
    refine List.findIdx?_eq_none_iff.2 fun it hit => ?_
    simpa using (Item.inShare_iff.1 (List.mem_filter.1 hit).2).2
  -- no call of the key is about to open a window
  have hbumped : u.bumped k (s.n.dismiss sha256 x.id).n = [] := by
    refine if_neg ?_
    rintro ⟨hgen, hleading⟩
    rcases hdetached.1 with hkey | hquiet
    · refine hgen ?_
      rw [hn, hn']
      simp only [Notifier.forget, hkey, if_true]
    · obtain ⟨g', pc, hl, hany⟩ := leading_iff.1 hleading
      rw [hlookup] at hl
      split at hl
      · cases hl
        cases hany
      · rw [hn] at hany
        have := leading_iff.2 ⟨g', pc, hl, hany⟩
        rw [hquiet] at this
        cases this
  have hlook : u.threads.lookup g = some (.commit (.dismiss x.id) (s.calls + 1) .ret) := by
    rw [hlookup, if_pos rfl]
  have hcommit : ∀ now, (Op.commit sha256 now s.n (.dismiss x.id)).n =
      (s.n.dismiss sha256 x.id).n := fun _ => rfl
  simp only [received, arrivals, hcall, hrun, List.append_nil]
  simp only [inputs, hlook, runInputs, hcommit, hbumped, Op.inputs, hn, hplace, hcancelled]
  rfl

end

end System

/-! ### A condition that was silenced -/

section
variable [DecidableEq δ] (sha256 : List UInt8 → δ) {k : Key}

theorem Share.apply_suppressed (v : Share δ) (now : ℤ) (c : Change) :
    (v.apply sha256 k now c).1.suppressed = v.suppressed ∨
      (v.apply sha256 k now c).1.suppressed = none := by
  cases c with
  | raise item =>
    simp only [Share.apply, Share.raise]
    split
    · exact .inl rfl
    · split
      · exact .inl rfl
      · split
        · exact .inr rfl
        · split <;> exact .inl rfl
  | resolve =>
    simp only [Share.apply, Share.resolve]
    split
    · exact .inl rfl
    · split <;> exact .inr rfl

theorem Share.advance_suppressed (v : Share δ) (now : ℤ) (g : ℕ) (st : Stage) :
    (v.advance sha256 k now g st).suppressed = v.suppressed ∨
      (v.advance sha256 k now g st).suppressed = none := by
  cases st with
  | commit c f => exact v.apply_suppressed sha256 now c
  | published f => exact .inl rfl
  | coalesce window c =>
    simp only [Share.advance]
    split
    · exact .inl rfl
    · split <;> exact .inl rfl
  | arm window =>
    simp only [Share.advance]
    split <;> exact .inl rfl
  | close =>
    simp only [Share.advance]
    split
    · exact .inl rfl
    · split <;> exact .inl rfl
  | rearm window changed =>
    simp only [Share.advance]
    split
    · exact .inl rfl
    · split <;> exact .inl rfl

/-- Only taking a row away silences the key. -/
theorem Share.step_suppressed (v : Share δ) {i : Input} (hi : i.takes = false) :
    (v.step sha256 k i).suppressed = v.suppressed ∨ (v.step sha256 k i).suppressed = none := by
  cases i with
  | run g now =>
    simp only [Share.step]
    split
    · exact .inl rfl
    · exact v.advance_suppressed sha256 now g _
  | dismiss i => cases hi
  | clear => cases hi
  | call _ _ | fire _ | mark _ | markAll | lose | cancel | bump => exact .inl rfl

theorem Share.foldl_suppressed (v : Share δ) {is : List Input} (his : ∀ i ∈ is, i.takes = false) :
    (is.foldl (Share.step sha256 k) v).suppressed = v.suppressed ∨
      (is.foldl (Share.step sha256 k) v).suppressed = none := by
  induction is generalizing v with
  | nil => exact .inl rfl
  | cons i is ih =>
    rw [List.foldl_cons]
    have hrest := ih (v.step sha256 k i) fun j hj => his j (List.mem_cons_of_mem _ hj)
    rcases v.step_suppressed sha256 (k := k) (his i List.mem_cons_self) with h | h
    · rwa [h] at hrest
    · rw [h] at hrest
      exact .inr (hrest.elim id id)

/-- A condition that is not silenced at a content shows it when it is raised. -/
theorem raise_appears {n : Notifier δ} (hk : n.Kept) (now : ℤ) (item : Item) (hne : k ≠ "")
    (hsup : n.suppressed.lookup k ≠ some (fingerprint sha256 { item with key := k })) :
    ∃ it ∈ (n.raiseReport sha256 now k item).n.items, it.key = k ∧ it.resolved = false ∧
      fingerprint sha256 it = fingerprint sha256 { item with key := k } := by
  simp only [Notifier.raiseReport, if_neg hne]
  split
  · next hr =>
    rcases Notifier.raiseLocked_none sha256 hr with h | ⟨it, hit, hik, hun, hfp⟩
    · exact absurd h hsup
    · exact ⟨it, hit, hik, hun, hfp⟩
  · next r hr =>
    obtain ⟨-, ⟨-, rfl⟩ | ⟨it, hf, -, -, rfl⟩⟩ := Notifier.raiseLocked_cases sha256 hk hne hr
    · have hlift : Notifier.Kept { n with suppressed := n.suppressed.erase k } :=
        hk.congr rfl rfl rfl fun k hk => (AList.mem_erase.1 hk).2
      obtain ⟨hmem, -⟩ := hlift.insertLocked_new now { item with key := k }
      exact ⟨_, hmem, rfl, rfl, (Item.stamped_same _ _ _).fingerprint_eq sha256⟩
    · have hmem := mem_modifyFirst_self
        (f := fun _ => Item.stamped { item with key := k } it.id now) hf
      exact ⟨_, hmem, rfl, rfl, (Item.stamped_same _ _ _).fingerprint_eq sha256⟩

end

namespace System

section
variable (sha256 : List UInt8 → δ) {x : Item}

/-- A row on the list has an id that was given out. -/
theorem id_of_mem {n : Notifier δ} (hk : n.Kept) (hx : x ∈ n.items) :
    ∃ m ≤ n.seq, idOf m = x.id := by
  obtain ⟨seqs, hids, -, hle⟩ := hk.ids
  have hmem : x.id ∈ seqs.map idOf := hids ▸ List.mem_map_of_mem hx
  obtain ⟨m, hm, hid⟩ := List.mem_map.1 hmem
  exact ⟨m, hle m hm, hid⟩

theorem dismiss_n {n : Notifier δ} (hk : n.Kept) (hx : x ∈ n.items) :
    (n.dismiss sha256 x.id).n =
      { n.forget sha256 x with items := n.items.eraseP (·.id == x.id) } := by
  simp only [Notifier.dismiss, hk.find_of_mem hx, (n.forget_items sha256 x).2.1]
  rfl

/-- The dismissed row is not on the list any more, and the others are. -/
theorem mem_dismiss {n : Notifier δ} (hk : n.Kept) (hx : x ∈ n.items) {y : Item} :
    y ∈ (n.dismiss sha256 x.id).n.items ↔ y ∈ n.items ∧ y ≠ x := by
  obtain ⟨-, as, bs, hsplit, has⟩ := List.find?_eq_some_iff_append.1 (hk.find_of_mem hx)
  have hitems : (n.dismiss sha256 x.id).n.items = as ++ bs := by
    have herase : n.items.eraseP (·.id == x.id) = as ++ bs := by
      rw [hsplit, List.eraseP_append_right _ fun a ha => by simpa using has a ha]
      simp
    rw [dismiss_n sha256 hk hx, herase]
  have hnodup : (as ++ x :: bs).Nodup := hsplit ▸ hk.nodup_ids.of_map
  have hout : x ∉ as ++ bs := (List.nodup_cons.1 (List.nodup_middle.1 hnodup)).1
  rw [hitems, hsplit]
  constructor
  · intro hy
    exact ⟨by simp only [List.mem_append, List.mem_cons] at hy ⊢; tauto, fun he => hout (he ▸ hy)⟩
  · rintro ⟨hy, hne⟩
    simp only [List.mem_append, List.mem_cons] at hy ⊢
    tauto

/-- A live condition is silenced at its content, unless a deferred call will
resolve it. -/
theorem silenced_at {n : Notifier δ} (hk : n.Kept) (hx : x ∈ n.items) (hkey : x.key ≠ "")
    (hun : x.resolved = false) : (n.dismiss sha256 x.id).n.suppressed.lookup x.key =
      if n.pendingResolveLocked x.key then none else some (fingerprint sha256 x) := by
  have hsup : x.key ∉ n.suppressed := by
    intro hmem
    have := (hk.suppressed _ hmem).2 x hx rfl
    rw [hun] at this
    cases this
  have hsame := (Notifier.SameList.cancelPendingLocked n x.key).2.2.2
  rw [dismiss_n sha256 hk hx]
  simp only [Notifier.forget, if_neg hkey, hun, Bool.not_false, Bool.true_and]
  cases n.pendingResolveLocked x.key with
  | false => simp
  | true =>
    simp only [Bool.not_true, Bool.false_eq_true, if_false, if_true, hsame]
    exact AList.lookup_eq_none.2 hsup

end

section
variable [DecidableEq δ] (sha256 : List UInt8 → δ) {s s' : System δ} {k : Key} {x : Item} {g : ℕ}

theorem reachable {cap now : ℤ} {ls : List Label}
    (h : exec (System.step sha256) (System.init δ cap now) ls = some s) :
    s.Inv sha256 ∧ s.Windows ∧ s.Sane ∧ Captured s.n s.threads := by
  refine exec_invariant
    (I := fun s : System δ => s.Inv sha256 ∧ s.Windows ∧ s.Sane ∧ Captured s.n s.threads)
    (fun s l t ⟨hi, hw, hsane, hcap⟩ _ hstep => ?_)
    ⟨init_inv sha256 cap now, init_windows cap now, init_sane cap now, ?_⟩
    (Meets.trivial _ _ _) h
  · exact ⟨step_inv sha256 hi hstep, step_windows sha256 hw hstep,
      step_sane sha256 hi.kept hsane hstep, (step_shape sha256 hcap hstep).captured sha256 hcap⟩
  · intro g pc hl
    simp [init] at hl

theorem sound_run {ls : List Label} (hi : s.Inv sha256) (hs : s.Sound k x.id)
    (h : exec (System.step sha256) s ls = some s') : s'.Inv sha256 ∧ s'.Sound k x.id :=
  exec_invariant (I := fun s : System δ => s.Inv sha256 ∧ s.Sound k x.id)
    (fun _ _ _ ⟨hi, hs⟩ _ hstep => step_sound sha256 hi hs hstep) ⟨hi, hs⟩ (Meets.trivial _ _ _) h

/-- What the section of a raise leaves. -/
theorem commit_n {t : System δ} {op : Op} {stamp : ℕ} {after : After}
    (hg : s.threads.lookup g = some (.commit op stamp after))
    (h : s.step sha256 (.run g) = some t) :
    t.n = (Op.commit sha256 s.now s.n op).n := by
  simp only [step, hg, advance, commit] at h
  split at h
  · split at h
    · cases h
      rw [goto_n]
      rfl
    · cases h
      rw [goto_n]
      rfl
  · cases h

/-- A key the row is detached from has the same share after the dismissal. -/
theorem share_dismissal (hi : s.Inv sha256) (hs : s.Sound k x.id) (hx : x ∈ s.n.items)
    (hdetached : s.Detached k x)
    (hd : exec (System.step sha256) s [.call g (.plain (.dismiss x.id)), .run g] = some s') :
    s'.share k x.id = s.share k x.id := by
  rw [share_run sha256 hi hs hd, received_dismissal sha256 hs hx hdetached hd]
  rfl

/-- After a live condition is dismissed its key is silenced at what the user saw,
or not at all, until another row of it is taken away. -/
theorem silenced_later {u : System δ} {l : List Label} (hk : s.n.Kept) (hx : x ∈ s.n.items)
    (hkey : x.key ≠ "") (hun : x.resolved = false) (hn' : s'.n = (s.n.dismiss sha256 x.id).n)
    (hi' : s'.Inv sha256) (hs' : s'.Sound x.key x.id) (hu : exec (System.step sha256) s' l = some u)
    (htakes : ∀ i ∈ received sha256 x.key x.id s' l, i.takes = false) {fp : δ}
    (hfp : u.n.suppressed.lookup x.key = some fp) : fp = fingerprint sha256 x := by
  have hat := silenced_at sha256 hk hx hkey hun
  rw [← hn'] at hat
  have hlater : (u.share x.key x.id).suppressed = s'.n.suppressed.lookup x.key ∨
      (u.share x.key x.id).suppressed = none := by
    rw [share_run sha256 hi' hs' hu]
    exact Share.foldl_suppressed sha256 _ htakes
  have hlater : u.n.suppressed.lookup x.key = s'.n.suppressed.lookup x.key ∨
      u.n.suppressed.lookup x.key = none := hlater
  rw [hat, hfp] at hlater
  rcases hlater with h | h
  · split at h
    · cases h
    · exact Option.some.inj h
  · cases h

end

end System

def speakerFault : Item :=
  { micFault with icon := "speaker", title := "Speaker failed", actions := [] }

/-- A fault of the microphone came and went and is back, and the speaker's fault
is about to be resolved when its window closes. -/
def faultsRun : List Label :=
  [.call 0 (.plain (.raise "mic" micFault)), .run 0, .run 0, .run 0,
    .call 0 (.plain (.resolve "mic")), .run 0, .run 0,
    .call 0 (.plain (.raise "mic" micFault)), .run 0, .run 0, .run 0,
    .call 0 (.raiseWindowed "speaker" speakerFault 10), .run 0, .run 0, .run 0, .run 0, .run 0,
    .call 0 (.resolveWindowed "speaker" 10), .run 0]

/-- The row of the fault that is back. -/
def micRow : Item := { micFault with id := "n2", key := "mic", unread := true }

/-- The window of the speaker closes, and the one after it. -/
def windowCloses : List Label :=
  [.tick 10, .fire 1 1, .run 1, .run 1, .run 1, .run 1, .tick 20, .fire 2 1, .run 1]

/-- A fault of the microphone came and went and is back, and is about to be
resolved when its window closes. -/
def recoveringRun : List Label :=
  [.call 0 (.plain (.raise "mic" micFault)), .run 0, .run 0, .run 0,
    .call 0 (.plain (.resolve "mic")), .run 0, .run 0,
    .call 0 (.raiseWindowed "mic" micFault 10), .run 0, .run 0, .run 0, .run 0, .run 0,
    .call 0 (.resolveWindowed "mic" 10), .run 0]

end VcsClient.Notify
