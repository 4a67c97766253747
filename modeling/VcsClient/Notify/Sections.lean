import VcsClient.Notify.Windows

/-!
# A section and the keys

A publishing section is about at most one key. The rows, the suppression and
the window of every other key it spares, unless it takes a row of that key from
the user (`Op.commit_spares`); the key it is about then shows on the list what
the change asked for (`Op.commit_shows`).
-/

namespace VcsClient.Notify

open VcsClient.Lib

variable {δ : Type*}

/-! ## What a section does to the other keys -/

/-- The entry point asserts or resolves the condition `k`. -/
def Op.on (k : Key) (op : Op) : Bool := op.change?.any (·.1 == k)

theorem Op.not_on_raise {k key : Key} {item : Item} (h : ¬(Op.raise key item).on k = true) :
    key ≠ k := by
  simpa [Op.on, Op.change?] using h

theorem Op.not_on_resolve {k key : Key} (h : ¬(Op.resolve key).on k = true) : key ≠ k := by
  simpa [Op.on, Op.change?] using h

/-- The rows, the suppression and the window of a key that a section is not
about, and takes no row of. -/
structure Spares (k : Key) (takes : List Key) (n n' : Notifier δ) : Prop where
  down : ∀ x ∈ n'.items, x.key = k → ∃ y ∈ n.items, y.key = k ∧ y.resolved = x.resolved ∧
    x.SameContent y
  up : k ∉ takes → ∀ y ∈ n.items, y.key = k → y.resolved = false →
    ∃ x ∈ n'.items, x.key = k ∧ x.resolved = false ∧ x.SameContent y
  suppressed : k ∉ takes → n'.suppressed.lookup k = n.suppressed.lookup k
  pending : ∀ p, n'.pending.lookup k = some p → n.pending.lookup k = some p
  window : k ∉ takes → n'.pending.lookup k = n.pending.lookup k

theorem Spares.of_rows {k : Key} {takes : List Key} {n n' : Notifier δ}
    (hdown : ∀ x ∈ n'.items, x.key = k → x ∈ n.items)
    (hup : k ∉ takes → ∀ y ∈ n.items, y.key = k → y.resolved = false → y ∈ n'.items)
    (hsup : k ∉ takes → n'.suppressed.lookup k = n.suppressed.lookup k)
    (hpending : n'.pending.lookup k = n.pending.lookup k ∨
      k ∈ takes ∧ n'.pending.lookup k = none) : Spares k takes n n' where
  down := fun x hx hk => ⟨x, hdown x hx hk, hk, rfl, .refl x⟩
  up := fun ht y hy hk hr => ⟨y, hup ht y hy hk hr, hk, hr, .refl y⟩
  suppressed := hsup
  pending := by
    intro p hp
    rcases hpending with he | ⟨-, he⟩
    · exact he ▸ hp
    · rw [he] at hp
      cases hp
  window := fun ht => hpending.resolve_right fun hc => ht hc.1

/-- Rows of the key are rewritten without changing what they say. -/
theorem Spares.of_rewrite {k : Key} {takes : List Key} {n n' : Notifier δ}
    (hrows : List.Forall₂ (fun a b : Item => b = a ∨ b = a.seen) n.items n'.items)
    (hsup : n'.suppressed = n.suppressed) (hpending : n'.pending = n.pending) :
    Spares k takes n n' where
  down := by
    intro x hx hk
    obtain ⟨y, hy, rfl | rfl⟩ := forall₂_mem hrows hx
    · exact ⟨_, hy, hk, rfl, .refl _⟩
    · exact ⟨y, hy, hk, rfl, rfl, rfl, rfl, rfl, rfl, rfl, rfl, rfl⟩
  up := by
    intro _ y hy hk hr
    obtain ⟨x, hx, hyx⟩ := forall₂_mem hrows.flip hy
    rcases hyx with rfl | rfl
    · exact ⟨_, hx, hk, hr, .refl _⟩
    · exact ⟨_, hx, hk, hr, rfl, rfl, rfl, rfl, rfl, rfl, rfl, rfl⟩
  suppressed := fun _ => by rw [hsup]
  pending := fun p hp => hpending ▸ hp
  window := fun _ => by rw [hpending]

/-- A row that is not on the list any more is one of those the section took. -/
theorem mem_of_not_taken {n n' : Notifier δ} (hk : n.Kept) {op : Op} {y : Item} (hy : y ∈ n.items)
    (hop : (∃ item, op = .post item) ∨ ∃ key item, op = .raise key item)
    (hnew : ∀ x ∈ n'.items, x.id = y.id → x ∈ n.items) (hr : y.resolved = false)
    (ht : y.key ∉ op.takes n.items n'.items) : y ∈ n'.items := by
  have hany : n'.items.any (fun x => x.id == y.id) = true := by
    by_contra hno
    refine ht ?_
    have hmem : y ∈ n.items.filter fun it => !it.resolved && !n'.items.any (·.id == it.id) := by
      simp only [List.mem_filter, Bool.and_eq_true, Bool.not_eq_true']
      exact ⟨hy, by simpa using hr, by simpa using hno⟩
    rcases hop with ⟨item, rfl⟩ | ⟨key, item, rfl⟩ <;> exact List.mem_map_of_mem hmem
  obtain ⟨x, hx, hid⟩ := List.any_eq_true.1 hany
  have hid : x.id = y.id := by simpa using hid
  rw [← hk.eq_of_id (hnew x hx hid) hy hid]
  exact hx

theorem Spares.insertLocked {n : Notifier δ} (hk : n.Kept) {k key : Key} {op : Op}
    (hop : (∃ item, op = .post item) ∨ ∃ key item, op = .raise key item) (now : ℤ) (item : Item)
    (hitem : item.key = key) (hne : key ≠ k) :
    Spares k (op.takes n.items (n.insertLocked now item).2.items) n (n.insertLocked now item).2 := by
  have hold : ∀ x ∈ (n.insertLocked now item).2.items,
      x = item.stamped (idOf (n.seq + 1)) now ∨ x ∈ n.items := by
    intro x hx
    exact List.mem_cons.1 (List.mem_of_mem_take hx)
  refine .of_rows (fun x hx hxk => ?_) (fun ht y hy hyk hr => ?_) (fun _ => rfl) (.inl rfl)
  · rcases hold x hx with rfl | hx
    · exact absurd (hitem.symm.trans hxk) hne
    · exact hx
  · refine mem_of_not_taken hk hy hop (fun x hx hid => ?_) hr (hyk ▸ ht)
    rcases hold x hx with rfl | hx
    · exact absurd hid.symm (hk.fresh_id hy)
    · exact hx

theorem forget_pending (sha256 : List UInt8 → δ) (n : Notifier δ) (it : Item) (k : Key) :
    (n.forget sha256 it).pending.lookup k = n.pending.lookup k ∨
      k = it.key ∧ (n.forget sha256 it).pending.lookup k = none := by
  have hcancel : (n.cancelPendingLocked it.key).pending.lookup k = n.pending.lookup k ∨
      k = it.key ∧ (n.cancelPendingLocked it.key).pending.lookup k = none := by
    unfold Notifier.cancelPendingLocked
    simp only
    split
    · exact .inl rfl
    · next p hp =>
      have hstop : ∀ timer, (({ n with cancelGen := n.cancelGen + 1 } : Notifier δ).stop timer).pending =
          n.pending := by
        intro timer
        cases timer <;> rfl
      simp only [Notifier.retirePendingLocked, hstop]
      by_cases hk : k = it.key
      · subst hk
        exact .inr ⟨rfl, AList.lookup_erase _ _⟩
      · exact .inl (AList.lookup_erase_ne hk)
  unfold Notifier.forget
  simp only
  split
  · exact .inl rfl
  · split <;> exact hcancel

theorem forget_suppressed_ne (sha256 : List UInt8 → δ) (n : Notifier δ) {it : Item} {k : Key}
    (hk : k ≠ it.key) : (n.forget sha256 it).suppressed.lookup k = n.suppressed.lookup k := by
  have hsame := (Notifier.SameList.cancelPendingLocked n it.key).2.2.2
  unfold Notifier.forget
  simp only
  split
  · rfl
  · split
    · rw [AList.lookup_insert_ne hk, hsame]
    · rw [hsame]

theorem foldl_forget_spares (sha256 : List UInt8 → δ) (l : List Item) (n : Notifier δ) (k : Key) :
    (k ∉ l.map (·.key) → (l.foldl (Notifier.forget sha256) n).suppressed.lookup k =
      n.suppressed.lookup k) ∧
    ((l.foldl (Notifier.forget sha256) n).pending.lookup k = n.pending.lookup k ∨
      k ∈ l.map (·.key) ∧ (l.foldl (Notifier.forget sha256) n).pending.lookup k = none) := by
  induction l generalizing n with
  | nil => exact ⟨fun _ => rfl, .inl rfl⟩
  | cons it l ih =>
    obtain ⟨hsup, hpending⟩ := ih (n.forget sha256 it)
    simp only [List.foldl_cons, List.map_cons, List.mem_cons, not_or]
    refine ⟨fun hk => (hsup hk.2).trans (forget_suppressed_ne sha256 n hk.1), ?_⟩
    rcases hpending with he | ⟨hmem, he⟩
    · rcases forget_pending sha256 n it k with he' | ⟨hk, he'⟩
      · exact .inl (he.trans he')
      · exact .inr ⟨.inl hk, he.trans he'⟩
    · exact .inr ⟨.inr hmem, he⟩

/-- **A section spares the keys it is not about.** -/
theorem Op.commit_spares [DecidableEq δ] (sha256 : List UInt8 → δ) {n : Notifier δ} (hk : n.Kept)
    (now : ℤ) (op : Op) {k : Key} (hne : k ≠ "") (hop : ¬op.on k = true) :
    Spares k (op.takes n.items (Op.commit sha256 now n op).n.items) n
      (Op.commit sha256 now n op).n := by
  have hrefl : ∀ takes, Spares k takes n n := fun takes =>
    .of_rows (fun _ hx _ => hx) (fun _ _ hy _ _ => hy) (fun _ => rfl) (.inl rfl)
  cases op with
  | post item => exact .insertLocked hk (.inl ⟨item, rfl⟩) now _ rfl (Ne.symm hne)
  | raise key item =>
    have hkey := Op.not_on_raise hop
    have hraise : (∃ i, Op.raise key item = .post i) ∨ ∃ key' i, Op.raise key item = .raise key' i :=
      .inr ⟨key, item, rfl⟩
    simp only [Op.commit, Notifier.raiseReport]
    split
    · exact .insertLocked hk hraise now _ rfl (Ne.symm hne)
    · next hempty =>
      split
      · exact hrefl _
      · next r hr =>
        obtain ⟨-, ⟨-, rfl⟩ | ⟨it, hf, hun, -, rfl⟩⟩ := Notifier.raiseLocked_cases sha256 hk hempty hr
        · have hlift : Notifier.Kept { n with suppressed := n.suppressed.erase key } :=
            hk.congr rfl rfl rfl fun k hk => (AList.mem_erase.1 hk).2
          have hs := Spares.insertLocked hlift hraise now { item with key := key } rfl hkey
          exact ⟨hs.down, hs.up, fun ht => (hs.suppressed ht).trans
            (AList.lookup_erase_ne (Ne.symm hkey)), hs.pending, hs.window⟩
        · have hik : it.key = key := by simpa using List.find?_some hf
          refine .of_rows (fun x hx hxk => ?_) (fun _ y hy hyk hr => ?_) (fun _ => rfl) (.inl rfl)
          · rcases mem_modifyFirst hx with hx | ⟨a, -, rfl⟩
            · exact hx
            · exact absurd hxk hkey
          · exact mem_modifyFirst_of_not hy (by simpa [hyk] using Ne.symm hkey)
  | resolve key =>
    have hkey := Op.not_on_resolve hop
    have herase : (n.suppressed.erase key).lookup k = n.suppressed.lookup k :=
      AList.lookup_erase_ne (Ne.symm hkey)
    simp only [Op.commit, Notifier.resolveReport]
    split
    · exact hrefl _
    · split
      · exact .of_rows (fun _ hx _ => hx) (fun _ _ hy _ _ => hy) (fun _ => herase) (.inl rfl)
      · next it hf =>
        have hik : it.key = key := by simpa using List.find?_some hf
        split
        · exact .of_rows (fun _ hx _ => hx) (fun _ _ hy _ _ => hy) (fun _ => herase) (.inl rfl)
        · refine .of_rows (fun x hx hxk => ?_) (fun _ y hy hyk hr => ?_) (fun _ => herase) (.inl rfl)
          · rcases mem_modifyFirst hx with hx | ⟨a, ha, rfl⟩
            · exact hx
            · have : a.key = key := by simpa using List.find?_some ha
              exact absurd (this.symm.trans hxk) hkey
          · exact mem_modifyFirst_of_not hy (by simpa [hyk] using Ne.symm hkey)
  | markRead id =>
    simp only [Op.commit, Notifier.markRead]
    split
    · exact .of_rewrite (forall₂_modifyFirst (fun _ => .inl rfl) fun _ _ => .inr rfl) rfl rfl
    · exact hrefl _
  | markAllRead =>
    simp only [Op.commit, Notifier.markAllRead]
    split
    · exact .of_rewrite (List.forall₂_map_right_iff.2 (List.forall₂_same.2 fun _ _ => .inr rfl)) rfl rfl
    · exact hrefl _
  | dismiss id =>
    simp only [Op.commit, Notifier.dismiss]
    split
    · exact hrefl _
    · next it hf =>
      have htakes : ∀ after, Op.takes (.dismiss id) n.items after = [it.key] := by
        intro after
        simp [Op.takes, hf]
      simp only [htakes, (n.forget_items sha256 it).2.1]
      refine .of_rows (fun x hx _ => List.eraseP_sublist.subset hx) (fun ht y hy hyk hr => ?_)
        (fun ht => forget_suppressed_ne sha256 n (by simpa using ht)) ?_
      · have hyit : y ≠ it := by
          rintro rfl
          exact ht (by simp [hyk])
        refine (List.mem_eraseP_of_neg fun hid => hyit ?_).2 hy
        have hit : it.id = id := by simpa using List.find?_some hf
        exact hk.eq_of_id hy (List.mem_of_find?_eq_some hf) ((by simpa using hid : y.id = id).trans hit.symm)
      · rcases forget_pending sha256 n it k with he | ⟨he, hnone⟩
        · exact .inl he
        · exact .inr ⟨by simp [he], hnone⟩
  | clear =>
    simp only [Op.commit, Notifier.clear]
    split
    · exact hrefl _
    · obtain ⟨hsup, hpending⟩ := foldl_forget_spares sha256 n.items n k
      refine .of_rows (fun x hx _ => by cases hx) (fun ht y hy hyk _ => ?_) hsup hpending
      exact absurd (List.mem_map.2 ⟨y, hy, hyk⟩) ht

/-! ## What a call asks for -/

/-- The list shows what the change asked for: the condition with its content,
unless that content is suppressed, or no unresolved row. -/
def Notifier.Shows (sha256 : List UInt8 → δ) (k : Key) (n : Notifier δ) : Change → Prop
  | .raise item =>
    n.suppressed.lookup k = some (fingerprint sha256 { item with key := k }) ∨
      ∃ it ∈ n.items, it.key = k ∧ it.resolved = false ∧ it.SameContent { item with key := k }
  | .resolve => ∀ it ∈ n.items, it.key = k → it.resolved = true

/-- The fingerprint tells a change from the row on screen. -/
def Change.Distinct [DecidableEq δ] (sha256 : List UInt8 → δ) (k : Key) (n : Notifier δ) :
    Change → Prop
  | .raise item => ∀ it ∈ n.items, it.key = k → it.resolved = false →
    fingerprint sha256 it = fingerprint sha256 { item with key := k } →
      it.SameContent { item with key := k }
  | .resolve => True

instance [DecidableEq δ] (sha256 : List UInt8 → δ) (k : Key) (n : Notifier δ) :
    (c : Change) → Decidable (c.Distinct sha256 k n)
  | .raise item => List.decidableBAll (fun it : Item => it.key = k → it.resolved = false →
    fingerprint sha256 it = fingerprint sha256 { item with key := k } →
      it.SameContent { item with key := k }) n.items
  | .resolve => .isTrue trivial

theorem Spares.shows {sha256 : List UInt8 → δ} {k : Key} {takes : List Key} {n n' : Notifier δ}
    (h : Spares k takes n n') (ht : k ∉ takes) {c : Change} (hs : n.Shows sha256 k c) :
    n'.Shows sha256 k c := by
  cases c with
  | raise item =>
    rcases hs with hs | ⟨y, hy, hyk, hr, hsame⟩
    · exact .inl ((h.suppressed ht).trans hs)
    · obtain ⟨x, hx, hxk, hxr, hxy⟩ := h.up ht y hy hyk hr
      exact .inr ⟨x, hx, hxk, hxr, hxy.trans hsame⟩
  | resolve =>
    intro x hx hxk
    obtain ⟨y, hy, hyk, hr, -⟩ := h.down x hx hxk
    exact hr ▸ hs y hy hyk

/-- **A section of the key itself** leaves on the list what it was to show. -/
theorem Op.commit_shows [DecidableEq δ] (sha256 : List UInt8 → δ) {n : Notifier δ} (hk : n.Kept)
    (now : ℤ) {op : Op} {k : Key} {c : Change} (hne : k ≠ "") (hop : op.change? = some (k, c))
    (hdistinct : c.Distinct sha256 k n) :
    (Op.commit sha256 now n op).n.Shows sha256 k c ∧
      (Op.commit sha256 now n op).n.pending = n.pending := by
  cases op with
  | raise key item =>
    simp only [Op.change?, Option.some.injEq, Prod.mk.injEq] at hop
    obtain ⟨rfl, rfl⟩ := hop
    simp only [Op.commit, Notifier.raiseReport, if_neg hne]
    split
    · next hr =>
      refine ⟨?_, rfl⟩
      rcases Notifier.raiseLocked_none sha256 hr with hs | ⟨it, hit, hik, hun, hfp⟩
      · exact .inl hs
      · exact .inr ⟨it, hit, hik, hun, hdistinct it hit hik hun hfp⟩
    · next r hr =>
      obtain ⟨-, ⟨-, rfl⟩ | ⟨it, hf, hun, -, rfl⟩⟩ := Notifier.raiseLocked_cases sha256 hk hne hr
      · have hlift : Notifier.Kept { n with suppressed := n.suppressed.erase key } :=
          hk.congr rfl rfl rfl fun k hk => (AList.mem_erase.1 hk).2
        obtain ⟨hmem, -⟩ := hlift.insertLocked_new now { item with key := key }
        exact ⟨.inr ⟨_, hmem, rfl, rfl, Item.stamped_same _ _ _⟩, rfl⟩
      · have hmem := mem_modifyFirst_self
          (f := fun _ => Item.stamped { item with key := key } it.id now) hf
        exact ⟨.inr ⟨_, hmem, rfl, rfl, Item.stamped_same _ _ _⟩, rfl⟩
  | resolve key =>
    simp only [Op.change?, Option.some.injEq, Prod.mk.injEq] at hop
    obtain ⟨rfl, rfl⟩ := hop
    simp only [Op.commit, Notifier.resolveReport, if_neg hne]
    split
    · next hf =>
      refine ⟨fun it hit hik => ?_, rfl⟩
      have := List.find?_eq_none.1 hf it hit
      simp [hik] at this
    · next it hf =>
      split
      · next hres =>
        refine ⟨fun x hx hxk => ?_, rfl⟩
        rcases hk.resolved_of_findByKey hne hf hx hxk with rfl | hr
        · exact hres
        · exact hr
      · refine ⟨fun x hx hxk => ?_, rfl⟩
        obtain ⟨as, bs, hsplit, has, hmod⟩ := modifyFirst_split (f := Item.cleared) hf
        have hx : x ∈ as ++ it.cleared :: bs := hmod ▸ hx
        have hnewest := hk.newest
        rw [hsplit] at hnewest
        have hit : it.key = key := by simpa using List.find?_some hf
        rcases List.mem_append.1 hx with hx | hx
        · exact absurd (by simpa using hxk) (has x hx)
        · rcases List.mem_cons.1 hx with rfl | hx
          · rfl
          · exact (List.pairwise_cons.1 (List.pairwise_append.1 hnewest).2.1).1 x hx
              (hit.trans hxk.symm) (hit ▸ hne)
  | _ => cases hop

end VcsClient.Notify
