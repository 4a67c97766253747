import VcsClient.Notify.Share

/-!
# Rows of a share

A row that goes on the list, the row of the key that is rewritten, and the row
that is pushed off at the end. Raising and resolving the key do to its share
what they do there (`share_raise`, `share_resolve`).
-/

namespace VcsClient.Notify

open VcsClient.Lib

variable {δ : Type*}

/-! ## Rows by their place -/

section
variable {k : Key} {x : String} {n : Notifier δ}

theorem Item.inShare_iff {it : Item} : it.inShare k x = true ↔ it.key = k ∧ it.id ≠ x := by
  simp [Item.inShare]

theorem Notifier.Kept.find_of_mem (hk : n.Kept) {x : Item} (hx : x ∈ n.items) :
    n.items.find? (·.id == x.id) = some x := by
  obtain ⟨it, hf⟩ := Option.isSome_iff_exists.1
    (List.find?_isSome.2 ⟨x, hx, by simp⟩ : (n.items.find? (·.id == x.id)).isSome = true)
  rw [hf, hk.eq_of_id (List.mem_of_find?_eq_some hf) hx (by simpa using List.find?_some hf)]

/-- The row of an id and its place in the share. -/
theorem Notifier.Kept.place (hk : n.Kept) (id : String) :
    match (shareRows k x n.items).findIdx? (·.id == id) with
    | some i => ∃ it, n.items.find? (·.id == id) = some it ∧ it.inShare k x = true ∧
        (shareRows k x n.items)[i]? = some it
    | none => ∀ it ∈ n.items, it.id = id → ¬it.inShare k x = true := by
  split
  · next i hi =>
    obtain ⟨hlt, hid, -⟩ := List.findIdx?_eq_some_iff_getElem.1 hi
    have hmem := List.mem_filter.1 (List.getElem_mem hlt)
    refine ⟨_, ?_, hmem.2, List.getElem?_eq_getElem hlt⟩
    obtain ⟨it, hf⟩ := Option.isSome_iff_exists.1
      (List.find?_isSome.2 ⟨_, hmem.1, hid⟩ : (n.items.find? (·.id == id)).isSome = true)
    rw [hf]
    refine congrArg some (hk.eq_of_id (List.mem_of_find?_eq_some hf) hmem.1 ?_)
    have hit : it.id = id := by simpa using List.find?_some hf
    exact hit.trans (by simpa using hid : _ = id).symm
  · next hnone =>
    intro it hit hid hin
    have := List.findIdx?_eq_none_iff.1 hnone it (List.mem_filter.2 ⟨hit, hin⟩)
    simp [hid] at this

theorem seen_of_read {it : Item} (h : ¬it.unread = true) : it.seen = it := by
  have h : it.unread = false := by simpa using h
  cases it
  simp only [Item.seen, Item.mk.injEq, true_and, and_true]
  exact h.symm

/-- Marking a row read marks the row of its id. -/
theorem markRead_items (hk : n.Kept) (id : String) :
    (n.markRead id).n.items = n.items.map fun it => if it.id = id then it.seen else it := by
  have hnodup := hk.nodup_ids
  have hmap : ∀ l : List Item, (l.map (·.id)).Nodup →
      modifyFirst (fun it => it.id == id && it.unread) Item.seen l =
        l.map fun it => if it.id = id then it.seen else it := by
    intro l hl
    induction l with
    | nil => rfl
    | cons a l ih =>
      rw [List.map_cons, List.nodup_cons] at hl
      rw [modifyFirst_cons, List.map_cons]
      by_cases hid : a.id = id
      · have hrest : (l.map fun it => if it.id = id then it.seen else it) = l := by
          refine (List.map_congr_left (g := fun it => it) fun it hit => ?_).trans (List.map_id' l)
          refine if_neg fun he => ?_
          exact hl.1 (List.mem_map.2 ⟨it, hit, he.trans hid.symm⟩)
        rw [if_pos hid, hrest]
        split
        · rfl
        · next hun =>
          rw [ih hl.2, hrest, seen_of_read (by simpa [hid] using hun)]
      · rw [if_neg (by simp [hid]), if_neg hid, ih hl.2]
  unfold Notifier.markRead
  split
  · exact hmap _ hnodup
  · next hany =>
    refine ((List.map_congr_left (g := fun it => it) fun it hit => ?_).trans (List.map_id' _)).symm
    split
    · next hid =>
      refine seen_of_read fun hun => hany ?_
      exact List.any_eq_true.2 ⟨it, hit, by simp [hid, hun]⟩
    · rfl

end

/-! ## Sections that change the list -/

/-- `x` is the id of a row that was put on the list, and that row is none of the
key's condition any more. -/
def Notifier.Aside (k : Key) (x : String) (n : Notifier δ) : Prop :=
  (∃ m ≤ n.seq, idOf m = x) ∧ ∀ it ∈ n.items, it.id = x → it.key = k → k = "" ∨ it.resolved = true

section
variable {k : Key} {x : String} {n n' : Notifier δ} {threads : AList fun _ : ℕ => Pc}

theorem Notifier.Aside.fresh_ne (h : n.Aside k x) : idOf (n.seq + 1) ≠ x := by
  obtain ⟨⟨m, hm, rfl⟩, -⟩ := h
  intro he
  have := idOf_inj he
  omega

/-- The newest row of the share is the unresolved row of the key, or nothing of
the key is unresolved. -/
theorem Notifier.Kept.newest_row (hk : n.Kept) (ha : n.Aside k x) (hne : k ≠ "")
    (threads : AList fun _ : ℕ => Pc) :
    (∃ it rest, n.findByKeyLocked k = some it ∧ it.resolved = false ∧ it.inShare k x = true ∧
      shareRows k x n.items = it :: rest ∧
      (shareOf k x n threads).live = some (it.unnamed, rest.map Item.unnamed)) ∨
    ((∀ it, n.findByKeyLocked k = some it → it.resolved = true) ∧
      (∀ it ∈ shareRows k x n.items, it.resolved = true) ∧
      (shareOf k x n threads).live = none) := by
  by_cases hres : ∀ it, n.findByKeyLocked k = some it → it.resolved = true
  · have hall : ∀ it ∈ shareRows k x n.items, it.resolved = true := by
      intro r hrow
      obtain ⟨hmem, hin⟩ := List.mem_filter.1 hrow
      have hkey := (Item.inShare_iff.1 hin).1
      cases hf : n.findByKeyLocked k with
      | none =>
        have := List.find?_eq_none.1 hf r hmem
        simp [hkey] at this
      | some it =>
        rcases hk.resolved_of_findByKey hne hf hmem hkey with rfl | h
        · exact hres _ hf
        · exact h
    refine .inr ⟨hres, hall, ?_⟩
    simp only [Share.live, shareOf]
    cases hl : shareRows k x n.items with
    | nil => rfl
    | cons r rest => exact if_pos (hall r (hl ▸ List.mem_cons_self))
  · simp only [not_forall, Bool.not_eq_true] at hres
    obtain ⟨it, hf, hr⟩ := hres
    obtain ⟨hit, as, bs, hsplit, has⟩ := List.find?_eq_some_iff_append.1 hf
    have hkey : it.key = k := by simpa using hit
    have hin : it.inShare k x = true := by
      refine Item.inShare_iff.2 ⟨hkey, fun hx => ?_⟩
      rcases ha.2 it (List.mem_of_find?_eq_some hf) hx hkey with h | h
      · exact hne h
      · rw [hr] at h
        cases h
    have hnone : as.filter (Item.inShare k x) = [] := by
      refine List.filter_eq_nil_iff.2 fun a ha' hin' => ?_
      have := has a ha'
      simp [(Item.inShare_iff.1 hin').1] at this
    have hrows : shareRows k x n.items = it :: bs.filter (Item.inShare k x) := by
      rw [shareRows, hsplit, List.filter_append, hnone, List.nil_append,
        List.filter_cons_of_pos hin]
    refine .inl ⟨it, _, hf, hr, hin, hrows, ?_⟩
    simp only [Share.live, shareOf, hrows, List.map_cons]
    exact if_neg (by simpa [Item.unnamed] using hr)

theorem lost_eq_nil {before after : List Item} (h : ∀ it ∈ before, ∃ it' ∈ after, it'.id = it.id) :
    lost k x before after = [] := by
  refine if_neg ?_
  cases hl : before.getLast? with
  | none => simp
  | some z =>
    obtain ⟨z', hz', hid⟩ := h z (List.mem_of_getLast? hl)
    have hany : after.any (·.id == z.id) = true := List.any_eq_true.2 ⟨z', hz', by simp [hid]⟩
    simp [hany]

theorem lost_modifyFirst {l : List Item} {p : Item → Bool} {f : Item → Item}
    (hf : ∀ a, l.find? p = some a → (f a).id = a.id) : lost k x l (modifyFirst p f l) = [] := by
  refine lost_eq_nil fun it hit => ?_
  have hrows : List.Forall₂ (fun a b : Item => b.id = a.id) l (modifyFirst p f l) :=
    forall₂_modifyFirst (fun _ => rfl) hf
  exact forall₂_mem hrows.flip hit

section
variable [DecidableEq δ] (sha256 : List UInt8 → δ)

/-- A row goes on the list, and the last one off when the list is full. -/
theorem share_insert (hk : n.Kept) (now : ℤ) (item : Item) :
    shareOf k x (n.insertLocked now item).2 threads =
      (lost k x n.items (n.insertLocked now item).2.items).foldl (Share.step sha256 k)
        { shareOf k x n threads with
          rows := (shareRows k x (item.stamped (idOf (n.seq + 1)) now :: n.items)).map
            Item.unnamed } := by
  have hitems : (n.insertLocked now item).2.items = item.stamped (idOf (n.seq + 1)) now ::
      if n.items.length = n.cap then n.items.dropLast else n.items :=
    take_cons_eq hk.cap hk.length _
  suffices hrows : (shareRows k x (n.insertLocked now item).2.items).map Item.unnamed =
      ((lost k x n.items (n.insertLocked now item).2.items).foldl (Share.step sha256 k)
        { shareOf k x n threads with
          rows := (shareRows k x (item.stamped (idOf (n.seq + 1)) now :: n.items)).map
            Item.unnamed }).rows by
    refine Share.ext hrows ?_ ?_ ?_ <;> unfold lost <;> split <;> rfl
  rw [hitems]
  split
  · next hfull =>
    obtain ⟨init, z, hsplit⟩ : ∃ init z, n.items = init ++ [z] := by
      have hpos : n.items ≠ [] := by
        intro he
        have := hk.cap
        rw [← hfull, he] at this
        exact absurd this (by simp)
      exact ⟨_, _, (List.dropLast_append_getLast hpos).symm⟩
    have hgone : (item.stamped (idOf (n.seq + 1)) now :: init).any (·.id == z.id) = false := by
      rw [← Bool.not_eq_true, List.any_eq_true]
      rintro ⟨y, hy, hid⟩
      have hid : y.id = z.id := by simpa using hid
      have hz : z ∈ n.items := by simp [hsplit]
      rcases List.mem_cons.1 hy with rfl | hy
      · exact hk.fresh_id hz hid.symm
      · have hnodup := hk.nodup_ids
        rw [hsplit, List.map_append, List.nodup_append] at hnodup
        exact hnodup.2.2 y.id (List.mem_map_of_mem hy) z.id (by simp) hid
    simp only [hsplit, List.dropLast_concat, lost, List.getLast?_concat, Option.any_some, hgone,
      Bool.not_false, Bool.and_true]
    by_cases hz : z.inShare k x = true
    · rw [if_pos hz]
      simp only [List.foldl_cons, List.foldl_nil, Share.step, shareRows]
      rw [← List.cons_append, List.filter_append, List.filter_cons_of_pos hz, List.filter_nil,
        List.map_append]
      exact (List.dropLast_concat).symm
    · rw [if_neg hz]
      simp only [List.foldl_nil, shareRows]
      rw [← List.cons_append, List.filter_append, List.filter_cons_of_neg hz, List.filter_nil,
        List.append_nil]
  · rw [lost_eq_nil fun it hit => ⟨it, List.mem_cons_of_mem _ hit, rfl⟩]
    rfl

end

end

/-! ### Changes of the key -/

theorem stamped_inShare {k : Key} {x : String} {n : Notifier δ} (ha : n.Aside k x) (now : ℤ)
    {item : Item} (hkey : item.key = k) :
    (item.stamped (idOf (n.seq + 1)) now).inShare k x = true :=
  Item.inShare_iff.2 ⟨hkey, ha.fresh_ne⟩

/-- The unresolved row of the key is rewritten. -/
theorem shareRows_modify {k : Key} {x : String} {n : Notifier δ} {f : Item → Item} {it : Item}
    {rest : List Item}
    (hf : n.findByKeyLocked k = some it) (hin : it.inShare k x = true)
    (hin' : (f it).inShare k x = true) (hshare : shareRows k x n.items = it :: rest) :
    shareRows k x (modifyFirst (·.key == k) f n.items) = f it :: rest := by
  have hshare : n.items.filter (Item.inShare k x) = it :: rest := hshare
  rw [shareRows, filter_modifyFirst hf hin hin', hshare, modifyFirst_cons,
    if_pos (by simpa using (Item.inShare_iff.1 hin).1)]

/-- **Resolving the key** does to the share what resolving it there does. -/
theorem share_resolve {k : Key} {x : String} {n : Notifier δ} {threads : AList fun _ : ℕ => Pc}
    (hk : n.Kept) (ha : n.Aside k x) :
    shareOf k x (n.resolveReport k).n threads = ((shareOf k x n threads).resolve k).1 ∧
      (n.resolveReport k).snap.isSome = ((shareOf k x n threads).resolve k).2 := by
  by_cases hne : k = ""
  · simp only [Notifier.resolveReport, Share.resolve, if_pos hne]
    exact ⟨rfl, rfl⟩
  have herase : shareOf k x { n with suppressed := n.suppressed.erase k } threads =
      { shareOf k x n threads with suppressed := none } := by
    simp only [shareOf, AList.lookup_erase]
    rfl
  simp only [Notifier.resolveReport, Share.resolve, if_neg hne]
  rcases hk.newest_row ha hne threads with
    ⟨it, rest, hf, hun, hin, hshare, hlive⟩ | ⟨hres, -, hlive⟩
  · have hf' : Notifier.findByKeyLocked { n with suppressed := n.suppressed.erase k } k =
        some it := hf
    have hmod := shareRows_modify (f := Item.cleared) hf hin hin hshare
    simp only [hf', hlive, hun, Bool.false_eq_true, if_false]
    refine ⟨?_, rfl⟩
    simp only [Notifier.changed, shareOf, hmod, AList.lookup_erase]
    rfl
  · simp only [hlive]
    cases hf : n.findByKeyLocked k with
    | none =>
      have hf' : Notifier.findByKeyLocked { n with suppressed := n.suppressed.erase k } k =
          none := hf
      simp only [hf']
      exact ⟨herase, rfl⟩
    | some it =>
      have hf' : Notifier.findByKeyLocked { n with suppressed := n.suppressed.erase k } k =
          some it := hf
      simp only [hf', hres it hf, if_true]
      exact ⟨herase, rfl⟩

section
variable [DecidableEq δ] (sha256 : List UInt8 → δ)
variable {k : Key} {x : String} {n : Notifier δ} {threads : AList fun _ : ℕ => Pc}

/-- A row of the key goes on the list. -/
theorem share_fresh (hk : n.Kept) (ha : n.Aside k x) (now : ℤ) {item : Item} (hkey : item.key = k) :
    shareOf k x (n.insertLocked now item).2 threads =
      (lost k x n.items (n.insertLocked now item).2.items).foldl (Share.step sha256 k)
        ((shareOf k x n threads).fresh now item) := by
  rw [share_insert sha256 hk now item]
  simp only [shareRows, List.filter_cons_of_pos (stamped_inShare ha now hkey)]
  rfl

/-- **Raising the key** does to the share what raising it there does. -/
theorem share_raise (hk : n.Kept) (ha : n.Aside k x) (now : ℤ) (item : Item) :
    shareOf k x (n.raiseReport sha256 now k item).n threads =
        (lost k x n.items (n.raiseReport sha256 now k item).n.items).foldl (Share.step sha256 k)
          ((shareOf k x n threads).raise sha256 k now item).1 ∧
      (n.raiseReport sha256 now k item).snap.isSome =
        ((shareOf k x n threads).raise sha256 k now item).2 := by
  have hquiet : lost k x n.items n.items = [] := lost_eq_nil fun it hit => ⟨it, hit, rfl⟩
  by_cases hne : k = ""
  · subst hne
    simp only [Notifier.raiseReport, Share.raise, if_true, Notifier.post, Notifier.announced]
    exact ⟨share_fresh sha256 hk ha now rfl, rfl⟩
  have hsup : (shareOf k x n threads).suppressed = n.suppressed.lookup k := rfl
  have hfresh : shareOf k x ({ n with suppressed := n.suppressed.erase k }.insertLocked now
      { item with key := k }).2 threads =
      (lost k x n.items ({ n with suppressed := n.suppressed.erase k }.insertLocked now
        { item with key := k }).2.items).foldl (Share.step sha256 k)
          ({ shareOf k x n threads with suppressed := none }.fresh now { item with key := k }) := by
    have hlift : Notifier.Kept { n with suppressed := n.suppressed.erase k } :=
      hk.congr rfl rfl rfl fun k hk => (AList.mem_erase.1 hk).2
    have ha' : Notifier.Aside k x { n with suppressed := n.suppressed.erase k } := ha
    rw [share_fresh sha256 hlift ha' now rfl]
    simp only [shareOf, AList.lookup_erase]
    rfl
  simp only [Notifier.raiseReport, if_neg hne, Notifier.raiseLocked, Share.raise, hsup]
  by_cases hsilent : n.suppressed.lookup k = some (fingerprint sha256 { item with key := k })
  · simp only [if_pos hsilent, Notifier.unchanged, hquiet]
    exact ⟨rfl, rfl⟩
  simp only [if_neg hsilent]
  rcases hk.newest_row ha hne threads with
    ⟨it, rest, hf, hun, hin, hshare, hlive⟩ | ⟨hres, -, hlive⟩
  · simp only [hf, hlive, hun, Bool.false_eq_true, if_false]
    by_cases hfp : fingerprint sha256 it = fingerprint sha256 { item with key := k }
    · have hfp' : fingerprint sha256 it.unnamed = fingerprint sha256 { item with key := k } := hfp
      simp only [if_pos hfp, if_pos hfp', Notifier.unchanged, hquiet]
      exact ⟨rfl, rfl⟩
    · have hfp' : ¬fingerprint sha256 it.unnamed = fingerprint sha256 { item with key := k } := hfp
      have hin' : (Item.stamped { item with key := k } it.id now).inShare k x = true :=
        Item.inShare_iff.2 ⟨rfl, (Item.inShare_iff.1 hin).2⟩
      have hmod := shareRows_modify (f := fun _ => Item.stamped { item with key := k } it.id now)
        hf hin hin' hshare
      have hkept : lost k x n.items (modifyFirst (·.key == k)
          (fun _ => Item.stamped { item with key := k } it.id now) n.items) = [] := by
        refine lost_modifyFirst fun a ha' => ?_
        rw [hf.symm.trans ha' |> Option.some.inj]
        rfl
      simp only [if_neg hfp, if_neg hfp', Notifier.announced, hkept]
      refine ⟨?_, rfl⟩
      simp only [List.foldl_nil, shareOf, hmod]
      rfl
  · simp only [hlive]
    cases hf : n.findByKeyLocked k with
    | none => exact ⟨hfresh, rfl⟩
    | some it =>
      simp only [hres it hf, if_true]
      exact ⟨hfresh, rfl⟩

end

end VcsClient.Notify
