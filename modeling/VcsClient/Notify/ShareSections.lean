import VcsClient.Notify.ShareRows

/-!
# Sections and a share

A section of the key itself does to the share what its change does there
(`share_about`). Every other section does what its inputs do (`share_other`):
nothing, but for the rows the user marks or takes away, a row pushed off the
list, and a window cancelled with the row left out.
-/

namespace VcsClient.Notify

open VcsClient.Lib

variable {δ : Type*}

/-! ### What the user takes away -/

theorem pending_cancelPendingLocked (n : Notifier δ) (k : Key) :
    (n.cancelPendingLocked k).pending.lookup k = none := by
  unfold Notifier.cancelPendingLocked
  simp only
  split
  · next h => exact h
  · exact AList.lookup_erase _ _

namespace Share

theorem cancel_cancel (v : Share δ) : v.cancel.cancel = v.cancel := by
  refine Share.ext rfl rfl rfl (funext fun g => ?_)
  simp only [cancel]
  rcases v.stages g with _ | (_ | ⟨_, _ | _ | _⟩ | (_ | _ | _) | _ | _ | _) <;> rfl

variable {sha256 : List UInt8 → δ} {k : Key}

theorem forget_resolved (hne : k ≠ "") (v : Share δ) {it : Item} (h : it.resolved = true) :
    v.forget sha256 k it = v.cancel := by
  simp [forget, hne, h]

theorem cancel_forget (hne : k ≠ "") (v : Share δ) (it : Item) :
    (v.forget sha256 k it).cancel = v.forget sha256 k it := by
  unfold forget
  rw [if_neg hne]
  dsimp only
  split
  · have hstages := congrArg (fun w : Share δ => w.stages) v.cancel_cancel
    exact Share.ext rfl rfl rfl hstages
  · exact v.cancel_cancel

theorem foldl_forget_empty (v : Share δ) (l : List Item) : l.foldl (forget sha256 "") v = v := by
  induction l generalizing v with
  | nil => rfl
  | cons it l ih => exact ih v

/-- Of the rows of a key only the first can be unresolved. -/
theorem foldl_forget (hne : k ≠ "") (v : Share δ) {it : Item} {l : List Item}
    (hl : ∀ r ∈ l, r.resolved = true) :
    (it :: l).foldl (forget sha256 k) v = v.forget sha256 k it := by
  rw [List.foldl_cons]
  induction l with
  | nil => rfl
  | cons r l ih =>
    rw [List.foldl_cons, forget_resolved hne _ (hl r List.mem_cons_self), cancel_forget hne]
    exact ih fun r' hr' => hl r' (List.mem_cons_of_mem _ hr')

end Share

section
variable (sha256 : List UInt8 → δ)
variable {k : Key} {x : String} {n : Notifier δ} {threads : AList fun _ : ℕ => Pc}

/-- The notifier in another generation. -/
def Notifier.inGen (n : Notifier δ) (c : ℕ) : Notifier δ := { n with cancelGen := c }

theorem share_forget_other {s : System δ} (hw : s.Windows) (c : ℕ) {it : Item} (hne : k ≠ it.key) :
    shareOf k x ((s.n.forget sha256 it).inGen c) threads = shareOf k x (s.n.inGen c) threads := by
  have hwin := hw.sameWindow_forget sha256 hne
  refine shareOf_same ?_ (forget_suppressed_ne sha256 s.n hne)
    ⟨hwin.pending, hwin.period, hwin.timer⟩ rfl
  simp only [Notifier.inGen, (s.n.forget_items sha256 it).2.1]

theorem share_forget_own (c : ℕ) {it : Item} (hkey : it.key = k) :
    shareOf k x ((n.forget sha256 it).inGen c) threads =
      (shareOf k x (n.inGen c) threads).forget sha256 k it := by
  by_cases hne : k = ""
  · simp only [Notifier.forget, Share.forget, hkey, if_pos hne]
  have hsame := Notifier.SameList.cancelPendingLocked n k
  have hcancel : shareOf k x ((n.cancelPendingLocked k).inGen c) threads =
      (shareOf k x (n.inGen c) threads).cancel := by
    refine shareOf_cancel (pending_cancelPendingLocked n k) ?_ ?_ rfl
    · simp only [Notifier.inGen, hsame.2.1]
    · simp only [Notifier.inGen, hsame.2.2.2]
  have hclears : n.pendingResolveLocked k = (shareOf k x (n.inGen c) threads).clears := by
    simp only [Notifier.pendingResolveLocked, Share.clears, shareOf, Notifier.openWindow,
      Notifier.inGen]
    cases n.pending.lookup k <;> rfl
  simp only [Notifier.forget, Share.forget, hkey, if_neg hne, hclears]
  split
  · rw [← hcancel]
    simp only [shareOf, Notifier.inGen, AList.lookup_insert]
    rfl
  · exact hcancel

theorem share_foldl_forget {s : System δ} (hw : s.Windows) (c : ℕ) (l : List Item) :
    shareOf k x ((l.foldl (Notifier.forget sha256) s.n).inGen c) threads =
      (l.filter (·.key == k)).foldl (Share.forget sha256 k)
        (shareOf k x (s.n.inGen c) threads) := by
  induction l generalizing s with
  | nil => rfl
  | cons it l ih =>
    have ih := ih (hw.forget sha256 it)
    by_cases hkey : it.key = k
    · rw [List.filter_cons_of_pos (by simpa using hkey), List.foldl_cons, List.foldl_cons, ih]
      exact congrArg (List.foldl (Share.forget sha256 k) · _) (share_forget_own sha256 c hkey)
    · rw [List.filter_cons_of_neg (by simpa using hkey), List.foldl_cons, ih]
      exact congrArg (List.foldl (Share.forget sha256 k) · _)
        (share_forget_other sha256 hw c (Ne.symm hkey))

/-- The window of the key is cancelled, or nothing of it changes. -/
theorem share_cancelled [DecidableEq δ] {n' m : Notifier δ} (hm : m.pending = n.pending)
    (h : shareOf k x n' threads = shareOf k x m threads ∨
      shareOf k x n' threads = (shareOf k x m threads).cancel) :
    shareOf k x n' threads =
      (cancelled k n n').foldl (Share.step sha256 k) (shareOf k x m threads) := by
  have hwindow : (shareOf k x m threads).window.isSome = (n.pending.lookup k).isSome := by
    simp [shareOf, Notifier.openWindow, hm]
  have hwindow' : (shareOf k x n' threads).window.isSome = (n'.pending.lookup k).isSome := by
    simp [shareOf, Notifier.openWindow]
  unfold cancelled
  rcases h with h | h
  · rw [if_neg]
    · exact h
    · rw [h, hwindow] at hwindow'
      rw [hwindow']
      cases n'.pending.lookup k <;> simp
  · split
    · exact h
    · next hopen =>
      have hnone : n'.pending.lookup k = none := by
        rw [h] at hwindow'
        simpa [Share.cancel] using hwindow'.symm
      have hclosed : m.pending.lookup k = none := by
        rw [hm]
        simpa [hnone] using hopen
      rw [h, cancel_closed hclosed]
      rfl

end

section
variable {k : Key} {x : String}

/-- Marking the row of an id is marking its place among the rows of the share. -/
theorem map_seen {n : Notifier δ} (hk : n.Kept) (id : String) :
    ((shareRows k x n.items).map fun it => if it.id = id then it.seen else it).map Item.unnamed =
      match (shareRows k x n.items).findIdx? (·.id == id) with
      | some i => ((shareRows k x n.items).map Item.unnamed).modify i Item.seen
      | none => (shareRows k x n.items).map Item.unnamed := by
  have hplace := hk.place (k := k) (x := x) id
  cases hi : (shareRows k x n.items).findIdx? (·.id == id) with
  | none =>
    refine congrArg (List.map Item.unnamed) ?_
    refine (List.map_congr_left (g := fun it => it) fun it hit => ?_).trans (List.map_id' _)
    have := List.findIdx?_eq_none_iff.1 hi it hit
    exact if_neg (by simpa using this)
  | some i =>
    rw [hi] at hplace
    obtain ⟨it, hf, -, hget⟩ := hplace
    have hid : it.id = id := by simpa using List.find?_some hf
    -- only the row at this place has the id
    have hone : ∀ j r, (shareRows k x n.items)[j]? = some r → (r.id = id ↔ j = i) := by
      intro j r hr
      constructor
      · intro hrid
        have hnodup : ((shareRows k x n.items).map (·.id)).Nodup :=
          hk.nodup_ids.sublist (List.filter_sublist.map _)
        obtain ⟨hj, rfl⟩ := List.getElem?_eq_some_iff.1 hr
        obtain ⟨hi', rfl⟩ := List.getElem?_eq_some_iff.1 hget
        have hj' : j < ((shareRows k x n.items).map (·.id)).length := by simpa using hj
        have hi'' : i < ((shareRows k x n.items).map (·.id)).length := by simpa using hi'
        have hids : ((shareRows k x n.items).map (·.id))[j] =
            ((shareRows k x n.items).map (·.id))[i] := by
          simpa using hrid.trans hid.symm
        exact (List.Nodup.getElem_inj_iff hnodup).1 hids
      · rintro rfl
        rw [hr] at hget
        cases hget
        exact hid
    refine List.ext_getElem? fun j => ?_
    rw [List.getElem?_modify, List.getElem?_map, List.getElem?_map, List.getElem?_map]
    cases hr : (shareRows k x n.items)[j]? with
    | none => simp
    | some r =>
      have hiff := hone j r hr
      by_cases hj : i = j
      · simp [hiff.2 hj.symm, hj, Item.unnamed, Item.seen]
      · have : ¬r.id = id := fun h => hj (hiff.1 h).symm
        simp [this, hj]

end

section
variable [DecidableEq δ] (sha256 : List UInt8 → δ)
variable {k : Key} {x : String} {threads : AList fun _ : ℕ => Pc} {s : System δ}

theorem lost_self (l : List Item) : lost k x l l = [] := lost_eq_nil fun it hit => ⟨it, hit, rfl⟩

/-- A row of another key goes on the list. -/
theorem share_pushed {n : Notifier δ} (hk : n.Kept) (now : ℤ) (item : Item) (hkey : item.key ≠ k) :
    shareOf k x (n.insertLocked now item).2 threads =
      (lost k x n.items (n.insertLocked now item).2.items).foldl (Share.step sha256 k)
        (shareOf k x n threads) := by
  have hout : ¬(item.stamped (idOf (n.seq + 1)) now).inShare k x = true :=
    fun h => hkey (Item.inShare_iff.1 h).1
  rw [share_insert sha256 hk now item]
  simp only [shareRows, List.filter_cons_of_neg hout]
  rfl

theorem share_markRead {n : Notifier δ} (hk : n.Kept) (id : String) :
    shareOf k x (n.markRead id).n threads =
      ((Op.markRead id).inputs k x n (n.markRead id).n).foldl (Share.step sha256 k)
        (shareOf k x n threads) := by
  have hrest : shareOf k x (n.markRead id).n threads = { shareOf k x n threads with
      rows := (shareRows k x (n.markRead id).n.items).map Item.unnamed } := by
    unfold Notifier.markRead
    split <;> rfl
  have hrows : shareRows k x (n.markRead id).n.items =
      (shareRows k x n.items).map fun it => if it.id = id then it.seen else it := by
    rw [markRead_items hk, shareRows, List.filter_map]
    congr 1
    refine List.filter_congr fun it _ => ?_
    simp only [Function.comp]
    split <;> rfl
  rw [hrest, hrows, map_seen hk id]
  simp only [Op.inputs]
  cases (shareRows k x n.items).findIdx? (·.id == id) <;> rfl

theorem share_markAllRead (n : Notifier δ) :
    shareOf k x n.markAllRead.n threads =
      ((Op.markAllRead).inputs k x n n.markAllRead.n).foldl (Share.step sha256 k)
        (shareOf k x n threads) := by
  have hitems : n.markAllRead.n.items = n.items.map Item.seen := by
    unfold Notifier.markAllRead
    split
    · rfl
    · next hany =>
      refine ((List.map_congr_left (g := fun it => it) fun it hit => ?_).trans
        (List.map_id' _)).symm
      exact seen_of_read fun hun => hany (List.any_eq_true.2 ⟨it, hit, hun⟩)
  have hrows : (shareRows k x n.markAllRead.n.items).map Item.unnamed =
      ((shareRows k x n.items).map Item.unnamed).map Item.seen := by
    rw [hitems, shareRows, List.filter_map, List.map_map, List.map_map]
    rfl
  have hrest : shareOf k x n.markAllRead.n threads = { shareOf k x n threads with
      rows := (shareRows k x n.markAllRead.n.items).map Item.unnamed } := by
    unfold Notifier.markAllRead
    split <;> rfl
  rw [hrest, hrows]
  rfl

end

section
variable (sha256 : List UInt8 → δ) {k : Key} {x : String} {s : System δ}

/-- The row left out is taken away: nothing of the key but its window. -/
theorem share_forget_aside {n : Notifier δ} (threads : AList fun _ : ℕ => Pc) (c : ℕ) {it : Item}
    (hkey : it.key = k) (ha : k = "" ∨ it.resolved = true) :
    shareOf k x ((n.forget sha256 it).inGen c) threads = shareOf k x (n.inGen c) threads ∨
      shareOf k x ((n.forget sha256 it).inGen c) threads =
        (shareOf k x (n.inGen c) threads).cancel := by
  rw [share_forget_own sha256 c hkey]
  by_cases hne : k = ""
  · subst hne
    exact .inl rfl
  · exact .inr (Share.forget_resolved hne _ (ha.resolve_left hne))

/-- Of the rows of the key only the first can be unresolved, the ones the share
leaves out are resolved, and the share has the others. -/
theorem keyed_rows (hk : s.n.Kept) (ha : s.n.Aside k x) {rows : List Item}
    (hrows : rows = s.n.items.filter (·.key == k)) :
    shareRows k x s.n.items = rows.filter (Item.inShare k x) ∧
      (∀ it ∈ rows, ¬it.inShare k x = true → k = "" ∨ it.resolved = true) ∧
      (k ≠ "" → rows.Pairwise fun _ b => b.resolved = true) := by
  subst hrows
  refine ⟨?_, fun it hit hout => ?_, fun hne => ?_⟩
  · rw [List.filter_filter, shareRows]
    refine List.filter_congr fun it _ => ?_
    by_cases hin : it.inShare k x = true
    · simp [hin, (Item.inShare_iff.1 hin).1]
    · simp [hin]
  · obtain ⟨hmem, hkey⟩ := List.mem_filter.1 hit
    have hkey : it.key = k := by simpa using hkey
    refine ha.2 it hmem ?_ hkey
    by_contra hx
    exact hout (Item.inShare_iff.2 ⟨hkey, hx⟩)
  · refine (hk.newest.sublist List.filter_sublist).imp_of_mem fun {a b} ha' hb' h => ?_
    have hka : a.key = k := by simpa using (List.mem_filter.1 ha').2
    have hkb : b.key = k := by simpa using (List.mem_filter.1 hb').2
    exact h (hka.trans hkb.symm) (hka ▸ hne)

/-- When no row of the key is in the share, clearing the list is at most the end
of the window there. -/
theorem forget_aside_rows {v : Share δ} {rows : List Item}
    (hout : ∀ it ∈ rows, k = "" ∨ it.resolved = true) (hnil : v.rows = []) :
    { rows.foldl (Share.forget sha256 k) v with rows := [] } = v ∨
      { rows.foldl (Share.forget sha256 k) v with rows := [] } = v.cancel := by
  by_cases hne : k = ""
  · subst hne
    rw [Share.foldl_forget_empty]
    exact .inl (Share.ext hnil.symm rfl rfl rfl)
  cases rows with
  | nil => exact .inl (Share.ext hnil.symm rfl rfl rfl)
  | cons it rest =>
    have hres := fun r hr => (hout r hr).resolve_left hne
    rw [Share.foldl_forget hne _ fun r hr => hres r (List.mem_cons_of_mem _ hr),
      Share.forget_resolved hne _ (hres it List.mem_cons_self)]
    exact .inr (Share.ext hnil.symm rfl rfl rfl)

/-- Clearing the rows of the key forgets what the first row of the share does. -/
theorem forget_first_row {v : Share δ} {rows others : List Item} {r : Item}
    (haside : ∀ it ∈ rows, ¬it.inShare k x = true → k = "" ∨ it.resolved = true)
    (hnewest : k ≠ "" → rows.Pairwise fun _ b => b.resolved = true)
    (hF : rows.filter (Item.inShare k x) = r :: others) :
    rows.foldl (Share.forget sha256 k) v = v.forget sha256 k r := by
  by_cases hne : k = ""
  · subst hne
    rw [Share.foldl_forget_empty]
    rfl
  have hr : r ∈ rows ∧ r.inShare k x = true := List.mem_filter.1 (hF ▸ List.mem_cons_self)
  cases rows with
  | nil => exact absurd hr.1 List.not_mem_nil
  | cons it rest =>
    have hrest : ∀ r ∈ rest, r.resolved = true := (List.pairwise_cons.1 (hnewest hne)).1
    rw [Share.foldl_forget hne _ hrest]
    by_cases hin : it.inShare k x = true
    · rw [List.filter_cons_of_pos hin] at hF
      cases hF
      rfl
    · have hmem : r ∈ rest := by
        refine (List.mem_cons.1 hr.1).resolve_left ?_
        rintro rfl
        exact hin hr.2
      rw [Share.forget_resolved hne _ (hrest r hmem), Share.forget_resolved hne _
        ((haside it List.mem_cons_self hin).resolve_left hne)]

end

section
variable [DecidableEq δ] (sha256 : List UInt8 → δ)
variable {k : Key} {x : String} {threads : AList fun _ : ℕ => Pc} {s : System δ}

theorem share_dismiss (hk : s.n.Kept) (ha : s.n.Aside k x) (hw : s.Windows) (id : String) :
    shareOf k x (s.n.dismiss sha256 id).n threads =
      ((Op.dismiss id).inputs k x s.n (s.n.dismiss sha256 id).n).foldl (Share.step sha256 k)
        (shareOf k x (s.n.inGen (s.n.dismiss sha256 id).n.cancelGen) threads) := by
  have hplace := hk.place (k := k) (x := x) id
  simp only [Op.inputs]
  cases hf : s.n.items.find? (·.id == id) with
  | none =>
    have hd : s.n.dismiss sha256 id = s.n.unchanged := by simp only [Notifier.dismiss, hf]
    rw [hd]
    cases hi : (shareRows k x s.n.items).findIdx? (·.id == id) with
    | some i =>
      rw [hi] at hplace
      obtain ⟨it, hf', -⟩ := hplace
      rw [hf] at hf'
      cases hf'
    | none => exact share_cancelled sha256 rfl (.inl rfl)
  | some it =>
    have hid : it.id = id := by simpa using List.find?_some hf
    have hmem := List.mem_of_find?_eq_some hf
    obtain ⟨-, hitems, -⟩ := s.n.forget_items sha256 it
    have hd : (s.n.dismiss sha256 id).n =
        { s.n.forget sha256 it with items := s.n.items.eraseP (·.id == id) } := by
      simp only [Notifier.dismiss, hf, hitems]
      rfl
    have hall : ∀ r ∈ s.n.items, (r.id == id) = true → r = it := fun r hr hrid =>
      hk.eq_of_id hr hmem ((by simpa using hrid : r.id = id).trans hid.symm)
    have hcancel : (s.n.dismiss sha256 id).n.cancelGen = (s.n.forget sha256 it).cancelGen := by
      rw [hd]
    have hshare : shareOf k x (s.n.dismiss sha256 id).n threads =
        { shareOf k x ((s.n.forget sha256 it).inGen (s.n.dismiss sha256 id).n.cancelGen)
          threads with
          rows := (shareRows k x (s.n.items.eraseP (·.id == id))).map Item.unnamed } := by
      rw [hcancel, hd]
      rfl
    cases hi : (shareRows k x s.n.items).findIdx? (·.id == id) with
    | some i =>
      rw [hi] at hplace
      obtain ⟨it', hf', hin, hget⟩ := hplace
      rw [hf] at hf'
      cases hf'
      have hrows : shareRows k x (s.n.items.eraseP (·.id == id)) =
          (shareRows k x s.n.items).eraseIdx i := by
        rw [shareRows, filter_eraseP fun r hr hrid => (hall r hr hrid).symm ▸ hin]
        have hi' : (s.n.items.filter (Item.inShare k x)).findIdx? (·.id == id) = some i := hi
        rw [List.eraseP_eq_eraseIdx, hi']
        rfl
      have hget' : (shareOf k x (s.n.inGen (s.n.dismiss sha256 id).n.cancelGen) threads).rows[i]? =
          some it.unnamed := by
        simp [shareOf, Notifier.inGen, hget]
      have herase :
          (shareOf k x (s.n.inGen (s.n.dismiss sha256 id).n.cancelGen) threads).rows.eraseIdx i =
            ((shareRows k x s.n.items).eraseIdx i).map Item.unnamed := by
        simp [shareOf, Notifier.inGen, List.eraseIdx_map]
      rw [hshare, share_forget_own sha256 _ (Item.inShare_iff.1 hin).1, hrows]
      simp only [List.foldl_cons, List.foldl_nil, Share.step, hget', herase]
      rfl
    | none =>
      rw [hi] at hplace
      have hout : ¬it.inShare k x = true := hplace it hmem hid
      have hrows : shareRows k x (s.n.items.eraseP (·.id == id)) = shareRows k x s.n.items :=
        filter_eraseP_of_neg fun r hr hrid => (hall r hr hrid).symm ▸ hout
      refine share_cancelled sha256 rfl ?_
      rw [hshare, hrows]
      by_cases hkey : it.key = k
      · have hx : it.id = x := by
          by_contra hx
          exact hout (Item.inShare_iff.2 ⟨hkey, hx⟩)
        rcases share_forget_aside sha256 (x := x) (n := s.n) threads
          (s.n.dismiss sha256 id).n.cancelGen hkey (ha.2 it hmem hx hkey) with h | h
        · exact .inl (by rw [h]; rfl)
        · exact .inr (by rw [h]; rfl)
      · rw [share_forget_other sha256 hw _ (Ne.symm hkey)]
        exact .inl rfl

theorem share_clear (hk : s.n.Kept) (ha : s.n.Aside k x) (hw : s.Windows) :
    shareOf k x (s.n.clear sha256).n threads =
      ((Op.clear).inputs k x s.n (s.n.clear sha256).n).foldl (Share.step sha256 k)
        (shareOf k x (s.n.inGen (s.n.clear sha256).n.cancelGen) threads) := by
  by_cases hempty : s.n.items = []
  · have hc : s.n.clear sha256 = s.n.unchanged := if_pos hempty
    have hrows : shareRows k x s.n.items = [] := by rw [hempty]; rfl
    simp only [Op.inputs, if_pos hrows, hc]
    exact share_cancelled sha256 rfl (.inl rfl)
  set c := (s.n.clear sha256).n.cancelGen with hc
  have hshare : shareOf k x (s.n.clear sha256).n threads =
      { (s.n.items.filter (·.key == k)).foldl (Share.forget sha256 k)
        (shareOf k x (s.n.inGen c) threads) with rows := [] } := by
    rw [← share_foldl_forget sha256 hw c s.n.items, hc]
    simp only [Notifier.clear, if_neg hempty]
    rfl
  obtain ⟨hsub, haside, hnewest⟩ := keyed_rows hk ha rfl
  have hV : (shareOf k x (s.n.inGen c) threads).rows =
      ((s.n.items.filter (·.key == k)).filter (Item.inShare k x)).map Item.unnamed := by
    rw [← hsub]
    rfl
  simp only [Op.inputs, hsub]
  generalize s.n.items.filter (·.key == k) = rows at hshare haside hnewest hV
  cases hF : rows.filter (Item.inShare k x) with
  | nil =>
    have hout : ∀ it ∈ rows, k = "" ∨ it.resolved = true := fun it hit =>
      haside it hit fun hin => List.not_mem_nil (hF ▸ List.mem_filter.2 ⟨hit, hin⟩)
    rw [if_pos rfl]
    refine share_cancelled sha256 rfl ?_
    rw [hshare]
    exact forget_aside_rows sha256 hout (by rw [hV, hF]; rfl)
  | cons r others =>
    rw [hF] at hV
    have hclear : (shareOf k x (s.n.inGen c) threads).step sha256 k .clear =
        { (shareOf k x (s.n.inGen c) threads).forget sha256 k r with rows := [] } := by
      simp only [Share.step, hV, List.map_cons]
      rfl
    rw [if_neg (List.cons_ne_nil _ _), List.foldl_cons, List.foldl_nil, hclear, hshare,
      forget_first_row sha256 haside hnewest hF]

end

/-! ### Every section -/

theorem share_resolve_other {k : Key} {x : String} {threads : AList fun _ : ℕ => Pc}
    (n : Notifier δ) {key : Key} (hkey : key ≠ k) :
    shareOf k x (n.resolveReport key).n threads = shareOf k x n threads := by
  have hsup : (n.suppressed.erase key).lookup k = n.suppressed.lookup k :=
    AList.lookup_erase_ne (Ne.symm hkey)
  unfold Notifier.resolveReport
  split
  · rfl
  · simp only
    split
    · exact shareOf_same rfl hsup ⟨rfl, rfl, fun _ _ _ _ => rfl⟩ rfl
    · next it hf =>
      split
      · exact shareOf_same rfl hsup ⟨rfl, rfl, fun _ _ _ _ => rfl⟩ rfl
      · refine shareOf_same ?_ hsup ⟨rfl, rfl, fun _ _ _ _ => rfl⟩ rfl
        refine filter_modifyFirst_of_neg fun b hb => ?_
        have hbk : b.key = key := by simpa using List.find?_some hb
        exact ⟨fun h => hkey (hbk.symm.trans (Item.inShare_iff.1 h).1),
          fun h => hkey (hbk.symm.trans (Item.inShare_iff.1 h).1)⟩

theorem Op.about_filter {k : Key} {op : Op} {key : Key} {c : Change}
    (h : op.about.filter (·.1 = k) = some (key, c)) :
    key = k ∧ op.about = some (k, c) := by
  obtain ⟨ha, hk⟩ := Option.filter_eq_some_iff.1 h
  have hk : key = k := by simpa using hk
  exact ⟨hk, hk ▸ ha⟩

section
variable [DecidableEq δ] (sha256 : List UInt8 → δ)
variable {k : Key} {x : String} {threads : AList fun _ : ℕ => Pc} {s : System δ}

theorem share_raise_other {n : Notifier δ} (hk : n.Kept) (now : ℤ) {key : Key} (hkey : key ≠ k)
    (item : Item) :
    shareOf k x (n.raiseReport sha256 now key item).n threads =
      (lost k x n.items (n.raiseReport sha256 now key item).n.items).foldl (Share.step sha256 k)
        (shareOf k x n threads) := by
  unfold Notifier.raiseReport
  split
  · next hempty =>
    have hne : "" ≠ k := fun h => hkey (hempty.trans h)
    exact share_pushed sha256 hk now { item with key := "" } hne
  · next hempty =>
    split
    · simp only [Notifier.unchanged, lost_self, List.foldl_nil]
    · next r hr =>
      obtain ⟨-, ⟨-, rfl⟩ | ⟨it, hf, -, -, rfl⟩⟩ := Notifier.raiseLocked_cases sha256 hk hempty hr
      · have hlift : Notifier.Kept { n with suppressed := n.suppressed.erase key } :=
          hk.congr rfl rfl rfl fun k hk => (AList.mem_erase.1 hk).2
        have hsame : shareOf k x { n with suppressed := n.suppressed.erase key } threads =
            shareOf k x n threads :=
          shareOf_same rfl (AList.lookup_erase_ne (Ne.symm hkey)) ⟨rfl, rfl, fun _ _ _ _ => rfl⟩ rfl
        rw [← hsame]
        exact share_pushed sha256 hlift now { item with key := key } hkey
      · have hik : it.key = key := by simpa using List.find?_some hf
        have hrows : shareRows k x (modifyFirst (·.key == key)
            (fun _ => Item.stamped { item with key := key } it.id now) n.items) =
            shareRows k x n.items := by
          refine filter_modifyFirst_of_neg fun b hb => ?_
          have hbk : b.key = key := by simpa using List.find?_some hb
          exact ⟨fun h => hkey (hbk.symm.trans (Item.inShare_iff.1 h).1),
            fun h => hkey (Item.inShare_iff.1 h).1⟩
        have hfind : n.items.find? (·.key == key) = some it := hf
        simp only [Notifier.announced]
        rw [lost_modifyFirst fun a ha => by rw [hfind] at ha; cases ha; rfl, List.foldl_nil]
        exact shareOf_same hrows rfl ⟨rfl, rfl, fun _ _ _ _ => rfl⟩ rfl

/-- **A section of the key** does to the share what the change does there. -/
theorem share_about {n : Notifier δ} (hk : n.Kept) (ha : n.Aside k x)
    (threads : AList fun _ : ℕ => Pc) (now : ℤ) {op : Op} {c : Change}
    (hop : op.about = some (k, c)) :
    shareOf k x (Op.commit sha256 now n op).n threads =
        (op.inputs k x n (Op.commit sha256 now n op).n).foldl (Share.step sha256 k)
          ((shareOf k x n threads).apply sha256 k now c).1 ∧
      (Op.commit sha256 now n op).snap.isSome =
        ((shareOf k x n threads).apply sha256 k now c).2 := by
  cases op with
  | post item =>
    cases hop
    exact share_raise sha256 hk ha now item
  | raise key item =>
    cases hop
    exact share_raise sha256 hk ha now item
  | resolve key =>
    cases hop
    exact share_resolve hk ha
  | markRead _ | markAllRead | dismiss _ | clear => cases hop

/-- **Any other section** does to the share what its inputs do. -/
theorem share_other (hk : s.n.Kept) (ha : s.n.Aside k x) (hw : s.Windows) (now : ℤ) {op : Op}
    (hop : op.about.filter (·.1 = k) = none) :
    shareOf k x (Op.commit sha256 now s.n op).n threads =
      (op.inputs k x s.n (Op.commit sha256 now s.n op).n).foldl (Share.step sha256 k)
        (shareOf k x (s.n.inGen (Op.commit sha256 now s.n op).n.cancelGen) threads) := by
  have hne : ∀ key c, op.about = some (key, c) → key ≠ k := by
    intro key c habout he
    rw [habout] at hop
    simp [Option.filter, he] at hop
  cases op with
  | post item =>
    exact share_pushed sha256 hk now { item with key := "" } (hne _ _ rfl)
  | raise key item =>
    have hgen : (Op.commit sha256 now s.n (.raise key item)).n.cancelGen = s.n.cancelGen :=
      (commit_windows sha256 now s.n key (.raise item)).cancelGen
    rw [hgen]
    exact share_raise_other sha256 hk now (hne _ _ rfl) item
  | resolve key =>
    have hgen : (Op.commit sha256 now s.n (.resolve key)).n.cancelGen = s.n.cancelGen :=
      (commit_windows sha256 now s.n key .resolve).cancelGen
    rw [hgen]
    exact share_resolve_other s.n (hne _ _ rfl)
  | markRead id =>
    have hgen : (Op.commit sha256 now s.n (.markRead id)).n.cancelGen = s.n.cancelGen := by
      simp only [Op.commit, Notifier.markRead]
      split <;> rfl
    rw [hgen]
    exact share_markRead sha256 hk id
  | markAllRead =>
    have hgen : (Op.commit sha256 now s.n .markAllRead).n.cancelGen = s.n.cancelGen := by
      simp only [Op.commit, Notifier.markAllRead]
      split <;> rfl
    rw [hgen]
    exact share_markAllRead sha256 s.n
  | dismiss id => exact share_dismiss sha256 hk ha hw id
  | clear => exact share_clear sha256 hk ha hw

end

end VcsClient.Notify
