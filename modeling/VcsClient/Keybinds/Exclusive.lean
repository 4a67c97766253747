import VcsClient.Keybinds.Store

/-!
# One trigger, one action

`Exclusive` holds after every operation of the store. `Load` establishes it from
any raw map; `RemoveAt` and `Clear` only take triggers away; `Add` takes the
trigger from the one action that holds it (`Added`).
-/

namespace VcsClient.Keybinds

open VcsClient.Lib

namespace Store

variable {s s' : Store} {id id' : ActionID} {t t' : Trigger} {o : IterOrder ActionID}

/-- No trigger is bound twice, an action has one chord at most, and no list is
empty. -/
structure Exclusive (s : Store) : Prop where
  owner : ∀ id id' t t', t ∈ s.triggers id → t' ∈ s.triggers id' → t.equal t' = true → id = id'
  once : ∀ id, (s.triggers id).Pairwise fun t t' => t.equal t' = false
  oneKey : ∀ id, ((s.triggers id).filter Trigger.isKey).length ≤ 1
  nonempty : ∀ id l, s.binds.lookup id = some l → l ≠ []

/-- What `Add` does with a trigger the action does not hold. -/
structure Added (s : Store) (id : ActionID) (t : Trigger) (s' : Store) (stolen : Option Stolen) :
    Prop where
  /-- The action gains it, a chord in the place of its chord. -/
  own : s'.binds.lookup id =
    some ((if t.isKey then (s.triggers id).filter fun e => !e.isKey else s.triggers id) ++ [t])
  /-- Another action that held it loses it, and nothing else changes. -/
  others : ∀ other ≠ id, s'.binds.lookup other =
    if (s.triggers other).any (fun e => e.equal t) then
      entryOf ((s.triggers other).filter fun e => !e.equal t)
    else s.binds.lookup other
  /-- That action is reported. -/
  stolen_iff : ∀ v, stolen = some v ↔
    v.actionID ≠ id ∧ v.trigger ∈ s.triggers v.actionID ∧ v.trigger.equal t = true
  /-- There is one at most. -/
  one : ∀ other other', (s.triggers other).any (fun e => e.equal t) = true →
    (s.triggers other').any (fun e => e.equal t) = true → other = other'
  unknown : s'.unknown = s.unknown

/-! ## Lists of triggers -/

theorem triggers_of_lookup {l : List Trigger} (h : s.binds.lookup id = some l) :
    s.triggers id = l := by
  unfold triggers
  rw [h]
  rfl

theorem triggers_assign {b : AList fun _ : ActionID => List Trigger} {l : Option (List Trigger)}
    (hb : s'.binds = assign b id l) (id' : ActionID) :
    s'.triggers id' = if id' = id then l.getD [] else (b.lookup id').getD [] := by
  unfold triggers
  rw [hb, lookup_assign]
  split <;> rfl

theorem getD_entryOf (l : List Trigger) : (entryOf l).getD [] = l := by
  unfold entryOf
  split
  · next h => rw [h]; rfl
  · rfl

theorem any_equal_iff {l : List Trigger} : (l.any fun e => e.equal t) = true ↔ t ∈ l := by
  rw [List.any_eq_true]
  constructor
  · rintro ⟨e, he, heq⟩
    rwa [← Trigger.equal_iff.1 heq]
  · exact fun h => ⟨t, h, Trigger.equal_iff.2 rfl⟩

theorem filter_equal {l : List Trigger} (h : l.Nodup) :
    l.filter (fun e => !e.equal t) = l.erase t := by
  rw [h.erase_eq_filter]
  refine List.filter_congr fun e _ => ?_
  by_cases he : e = t
  · simp [he, Trigger.equal_iff.2 rfl]
  · have : e.equal t = false := by
      rw [← Bool.not_eq_true, Trigger.equal_iff]
      exact he
    simp [he, this]

/-! ## Exclusive, by membership -/

/-- `Exclusive` up to empty lists. -/
structure Apart (s : Store) : Prop where
  owner : ∀ id id' t, t ∈ s.triggers id → t ∈ s.triggers id' → id = id'
  nodup : ∀ id, (s.triggers id).Nodup
  oneKey : ∀ id, ((s.triggers id).filter Trigger.isKey).length ≤ 1

def Full (s : Store) : Prop := ∀ id l, s.binds.lookup id = some l → l ≠ []

theorem exclusive_iff : s.Exclusive ↔ s.Apart ∧ s.Full := by
  have hpair : ∀ l : List Trigger, (l.Pairwise fun t t' => t.equal t' = false) ↔ l.Nodup := by
    intro l
    unfold List.Nodup
    refine ⟨fun h => h.imp fun {a b} hab => ?_, fun h => h.imp fun {a b} hab => ?_⟩
    · rintro rfl
      rw [Trigger.equal_iff.2 rfl] at hab
      cases hab
    · rw [← Bool.not_eq_true, Trigger.equal_iff]
      exact hab
  constructor
  · intro h
    exact ⟨⟨fun id id' t ht ht' => h.owner id id' t t ht ht' (Trigger.equal_iff.2 rfl),
      fun id => (hpair _).1 (h.once id), h.oneKey⟩, h.nonempty⟩
  · rintro ⟨h, hf⟩
    refine ⟨fun id id' t t' ht ht' heq => ?_, fun id => (hpair _).2 (h.nodup id), h.oneKey, hf⟩
    rw [Trigger.equal_iff] at heq
    exact h.owner id id' t ht (heq ▸ ht')

theorem Apart.of_sublist (h : s.Apart) (hsub : ∀ id, (s'.triggers id).Sublist (s.triggers id)) :
    s'.Apart where
  owner id id' t ht ht' := h.owner id id' t ((hsub id).subset ht) ((hsub id').subset ht')
  nodup id := (hsub id).nodup (h.nodup id)
  oneKey id := (((hsub id).filter _).length_le).trans (h.oneKey id)

theorem Full.assign (h : s.Full) {l : Option (List Trigger)} (hl : ∀ l' ∈ l, l' ≠ []) :
    { s with binds := assign s.binds id l }.Full :=
  forall_assign (fun id l hid => h id l hid) hl

theorem entryOf_ne_nil {l : List Trigger} : ∀ l' ∈ entryOf l, l' ≠ [] := by
  intro l' hl'
  unfold entryOf at hl'
  split at hl'
  · cases hl'
  · next hne =>
    cases hl'
    exact hne

theorem Apart.shrink (h : s.Apart) {l : List Trigger} (hsub : l.Sublist (s.triggers id)) :
    { s with binds := assign s.binds id (entryOf l) }.Apart := by
  refine h.of_sublist fun id' => ?_
  have htriggers := @triggers_assign { s with binds := assign s.binds id (entryOf l) } id s.binds
    (entryOf l) rfl id'
  rw [htriggers, getD_entryOf]
  split
  · next he => exact he ▸ hsub
  · exact List.Sublist.refl _

/-! ## Add -/

theorem takeOut_eq (l : List Trigger) :
    takeOut t l = if t ∈ l then some (t, l.erase t) else none := by
  have hp : (fun e : Trigger => e.equal t) = fun e => e == t := by
    funext e
    rw [Bool.eq_iff_iff, Trigger.equal_iff, beq_iff_eq]
  unfold takeOut
  rw [hp]
  split
  · next hmem =>
    have hfind : (l.find? fun e => e == t) = some t := by
      cases hf : l.find? fun e => e == t with
      | none => exact absurd (List.find?_eq_none.1 hf t hmem) (by simp)
      | some e =>
        have he : (e == t) = true := List.find?_some (p := fun e => e == t) hf
        rw [beq_iff_eq.1 he]
    rw [hfind, List.erase_eq_eraseP']
    rfl
  · next hmem =>
    have hfind : (l.find? fun e => e == t) = none :=
      List.find?_eq_none.2 fun e he heq => hmem ((beq_iff_eq (a := e) (b := t)).1 heq ▸ he)
    rw [hfind]
    rfl

/-- The loop of `Add` finds a holder, or there is none among the ids. -/
theorem steal_cases (s : Store) (id : ActionID) (t : Trigger) (ids : List ActionID) :
    (∃ other ∈ ids, other ≠ id ∧ t ∈ s.triggers other ∧ s.steal id t ids =
      ({ s with binds := assign s.binds other (entryOf ((s.triggers other).erase t)) },
        some ⟨other, t⟩)) ∨
    (∀ other ∈ ids, other ≠ id → t ∉ s.triggers other) ∧ s.steal id t ids = (s, none) := by
  induction ids with
  | nil => exact .inr ⟨fun _ h => absurd h List.not_mem_nil, rfl⟩
  | cons other ids ih =>
    unfold steal
    by_cases hid : other = id
    · rw [if_pos hid]
      rcases ih with ⟨v, hv, hrest⟩ | ⟨hno, heq⟩
      · exact .inl ⟨v, List.mem_cons_of_mem _ hv, hrest⟩
      · refine .inr ⟨fun v hv hne => ?_, heq⟩
        rcases List.mem_cons.1 hv with rfl | hv
        · exact absurd hid hne
        · exact hno v hv hne
    · rw [if_neg hid, takeOut_eq]
      by_cases hmem : t ∈ s.triggers other
      · rw [if_pos hmem]
        exact .inl ⟨other, List.mem_cons_self, hid, hmem, rfl⟩
      · rw [if_neg hmem]
        rcases ih with ⟨v, hv, hrest⟩ | ⟨hno, heq⟩
        · exact .inl ⟨v, List.mem_cons_of_mem _ hv, hrest⟩
        · refine .inr ⟨fun v hv hne => ?_, heq⟩
          rcases List.mem_cons.1 hv with rfl | hv
          · exact hmem
          · exact hno v hv hne

theorem mem_keys_of_mem_triggers (h : t ∈ s.triggers id) : id ∈ s.binds.keys := by
  unfold triggers at h
  cases hl : s.binds.lookup id with
  | none => rw [hl] at h; cases h
  | some l => exact AList.lookup_isSome.1 (by rw [hl]; rfl)

/-- The store when the loop of `Add` starts: a chord has displaced the action's. -/
def displaced (s : Store) (id : ActionID) (t : Trigger) : Store :=
  if t.isKey then
    { s with binds := s.binds.insert id ((s.triggers id).filter fun e => !e.isKey) }
  else s

theorem displaced_triggers (s : Store) (id : ActionID) (t : Trigger) (id' : ActionID) :
    (s.displaced id t).triggers id' = if id' = id ∧ t.isKey = true then
      (s.triggers id).filter fun e => !e.isKey else s.triggers id' := by
  unfold displaced
  by_cases hk : t.isKey = true
  · rw [if_pos hk]
    by_cases hid : id' = id
    · subst hid
      rw [if_pos ⟨rfl, hk⟩]
      unfold triggers
      rw [AList.lookup_insert]
      rfl
    · rw [if_neg fun h => hid h.1]
      unfold triggers
      rw [AList.lookup_insert_ne hid]
  · rw [if_neg hk, if_neg fun h => hk h.2]

theorem add_eq (o : IterOrder ActionID) (s : Store) (id : ActionID) (t : Trigger)
    (hnew : t ∉ s.triggers id) :
    s.add o id t =
      let r := (s.displaced id t).steal id t (o.order (s.displaced id t).binds.keys)
      ({ r.1 with binds := r.1.binds.insert id (r.1.triggers id ++ [t]) }, r.2) := by
  unfold add
  rw [if_neg fun h => hnew (any_equal_iff.1 h)]
  rfl

theorem add_held (o : IterOrder ActionID) (h : t ∈ s.triggers id) : s.add o id t = (s, none) := by
  unfold add
  rw [if_pos (any_equal_iff.2 h)]

theorem displaced_lookup {other : ActionID} (hne : other ≠ id) :
    (s.displaced id t).binds.lookup other = s.binds.lookup other := by
  unfold displaced
  split
  · exact AList.lookup_insert_ne hne
  · rfl

theorem Apart.added (h : s.Apart) (o : IterOrder ActionID) (hnew : t ∉ s.triggers id) :
    s.Added id t (s.add o id t).1 (s.add o id t).2 := by
  have hkeys : ∀ other ≠ id, t ∈ s.triggers other →
      other ∈ o.order (s.displaced id t).binds.keys := by
    intro other hne hmem
    rw [(o.perm _).mem_iff]
    refine mem_keys_of_mem_triggers (t := t) ?_
    rw [displaced_triggers, if_neg fun hc => hne hc.1]
    exact hmem
  have hown : (s.displaced id t).triggers id =
      if t.isKey then (s.triggers id).filter fun e => !e.isKey else s.triggers id := by
    rw [displaced_triggers]
    simp
  have hone : ∀ other other', t ∈ s.triggers other → t ∈ s.triggers other' → other = other' :=
    fun other other' => h.owner other other' t
  rw [add_eq o s id t hnew]
  rcases steal_cases (s.displaced id t) id t (o.order (s.displaced id t).binds.keys) with
    ⟨victim, -, hvne, hv, heq⟩ | ⟨hno, heq⟩
  · have hvt : (s.displaced id t).triggers victim = s.triggers victim := by
      rw [displaced_triggers, if_neg fun hc => hvne hc.1]
    rw [hvt] at hv heq
    rw [heq]
    refine ⟨?_, fun other hne => ?_, fun v => ?_, fun other other' h₁ h₂ => ?_, ?_⟩
    · show (AList.insert _ _ _).lookup id = _
      rw [AList.lookup_insert, triggers_assign rfl, if_neg (Ne.symm hvne), ← hown]
      rfl
    · show (AList.insert _ _ _).lookup other = _
      rw [AList.lookup_insert_ne hne, lookup_assign]
      by_cases hov : other = victim
      · subst hov
        rw [if_pos rfl, if_pos (any_equal_iff.2 hv), filter_equal (h.nodup other)]
      · rw [if_neg hov, if_neg fun hc => hov (hone _ _ (any_equal_iff.1 hc) hv),
          displaced_lookup hne]
    · constructor
      · rintro ⟨⟩
        exact ⟨hvne, hv, Trigger.equal_iff.2 rfl⟩
      · rintro ⟨hne, hmem, he⟩
        rw [Trigger.equal_iff] at he
        rw [he] at hmem
        rw [hone _ _ hv hmem, ← he]
    · exact hone _ _ (any_equal_iff.1 h₁) (any_equal_iff.1 h₂)
    · show (s.displaced id t).unknown = s.unknown
      unfold displaced
      split <;> rfl
  · have hnone : ∀ other ≠ id, t ∉ s.triggers other := fun other hne hmem => by
      refine hno other (hkeys other hne hmem) hne ?_
      rw [displaced_triggers, if_neg fun hc => hne hc.1]
      exact hmem
    rw [heq]
    refine ⟨?_, fun other hne => ?_, fun v => ?_, fun other other' h₁ h₂ => ?_, ?_⟩
    · show (AList.insert _ _ _).lookup id = _
      rw [AList.lookup_insert, ← hown]
    · show (AList.insert _ _ _).lookup other = _
      rw [AList.lookup_insert_ne hne, if_neg fun hc => hnone other hne (any_equal_iff.1 hc),
        displaced_lookup hne]
    · constructor
      · rintro ⟨⟩
      · rintro ⟨hne, hmem, he⟩
        rw [Trigger.equal_iff] at he
        exact absurd (he ▸ hmem) (hnone _ hne)
    · exact hone _ _ (any_equal_iff.1 h₁) (any_equal_iff.1 h₂)
    · show (s.displaced id t).unknown = s.unknown
      unfold displaced
      split <;> rfl

theorem Added.triggers_own {v : Option Stolen} (h : s.Added id t s' v) : s'.triggers id =
    (if t.isKey then (s.triggers id).filter fun e => !e.isKey else s.triggers id) ++ [t] :=
  triggers_of_lookup h.own

theorem Added.triggers_other {v : Option Stolen} (h : s.Added id t s' v) (hne : id' ≠ id) :
    (s'.triggers id').Sublist (s.triggers id') ∧ t ∉ s'.triggers id' := by
  have hl := h.others id' hne
  split at hl
  · have htr : s'.triggers id' = (s.triggers id').filter fun e => !e.equal t := by
      conv_lhs => unfold triggers
      rw [hl, getD_entryOf]
    rw [htr]
    refine ⟨List.filter_sublist, fun hmem => ?_⟩
    have := (List.mem_filter.1 hmem).2
    rw [Trigger.equal_iff.2 rfl] at this
    cases this
  · next hno =>
    have htr : s'.triggers id' = s.triggers id' := by
      unfold triggers
      rw [hl]
    rw [htr]
    exact ⟨List.Sublist.refl _, fun hmem => hno (any_equal_iff.2 hmem)⟩

theorem Added.apart {v : Option Stolen} (h : s.Added id t s' v) (hs : s.Apart)
    (hnew : t ∉ s.triggers id) : s'.Apart := by
  have hsub : ((if t.isKey then (s.triggers id).filter fun e => !e.isKey else s.triggers id)).Sublist
      (s.triggers id) := by
    split
    · exact List.filter_sublist
    · exact List.Sublist.refl _
  have hmem : ∀ id' e, e ∈ s'.triggers id' → e = t ∧ id' = id ∨ e ≠ t ∧ e ∈ s.triggers id' := by
    intro id' e he
    by_cases hid : id' = id
    · subst hid
      rw [h.triggers_own, List.mem_append, List.mem_singleton] at he
      rcases he with he | he
      · exact .inr ⟨fun hc => hnew (hc ▸ hsub.subset he), hsub.subset he⟩
      · exact .inl ⟨he, rfl⟩
    · obtain ⟨hsub', hnot⟩ := h.triggers_other hid
      exact .inr ⟨fun hc => hnot (hc ▸ he), hsub'.subset he⟩
  refine ⟨fun id₁ id₂ e h₁ h₂ => ?_, fun id' => ?_, fun id' => ?_⟩
  · rcases hmem id₁ e h₁ with ⟨he, rfl⟩ | ⟨hne, h₁⟩
    · rcases hmem id₂ e h₂ with ⟨-, rfl⟩ | ⟨hne, -⟩
      · rfl
      · exact absurd he hne
    · rcases hmem id₂ e h₂ with ⟨he, -⟩ | ⟨-, h₂⟩
      · exact absurd he hne
      · exact hs.owner id₁ id₂ e h₁ h₂
  · by_cases hid : id' = id
    · subst hid
      rw [h.triggers_own, List.nodup_append]
      refine ⟨hsub.nodup (hs.nodup id'), List.nodup_singleton t, fun a ha b hb => ?_⟩
      rw [List.mem_singleton.1 hb]
      exact fun hc => hnew (hc ▸ hsub.subset ha)
    · exact (h.triggers_other hid).1.nodup (hs.nodup id')
  · by_cases hid : id' = id
    · subst hid
      rw [h.triggers_own, List.filter_append, List.length_append]
      have hkey := hs.oneKey id'
      cases hk : t.isKey with
      | true =>
        -- the chords the action had are displaced
        have hnone : ((s.triggers id').filter fun e => !e.isKey).filter Trigger.isKey = [] := by
          rw [List.filter_filter]
          exact List.filter_eq_nil_iff.2 fun e _ => by simp
        simp [hnone, hk]
      | false => simpa [hk] using hkey
    · exact (((h.triggers_other hid).1.filter _).length_le).trans (hs.oneKey id')

theorem Added.full {v : Option Stolen} (h : s.Added id t s' v) (hs : s.Full) : s'.Full := by
  intro id' l hl
  by_cases hid : id' = id
  · subst hid
    rw [h.own] at hl
    cases hl
    simp
  · rw [h.others id' hid] at hl
    split at hl
    · exact entryOf_ne_nil l hl
    · exact hs id' l hl

/-! ## Load -/

/-- The triggers kept so far of an entry: none of them was taken before. -/
structure Entry.Kept (claimed : List Claim) (e : Entry) : Prop where
  sub : claimed ⊆ e.claimed
  owned : ∀ t ∈ e.out, ∃ c ∈ e.claimed, c.t = t
  fresh : ∀ t ∈ e.out, ∀ c ∈ claimed, c.t ≠ t
  nodup : e.out.Nodup
  oneKey : (e.out.filter Trigger.isKey).length ≤ 1
  noKey : e.keptKey = [] → e.out.filter Trigger.isKey = []
  valid : ∀ t ∈ e.out, t.Valid

theorem Entry.Kept.take {claimed : List Claim} {e : Entry} (h : e.Kept claimed) (id str : String) :
    (Entry.take id e str).Kept claimed := by
  unfold Entry.take
  split
  · exact h
  · next t ht =>
    have hvalid : t.Valid := Trigger.parse_valid ht
    split
    · exact h
    · next hfree =>
      have hnot : ∀ c ∈ e.claimed, c.t ≠ t := fun c hc he =>
        hfree (List.any_eq_true.2 ⟨c, hc, Trigger.equal_iff.2 he⟩)
      have hout : t ∉ e.out := fun hmem => by
        obtain ⟨c, hc, he⟩ := h.owned t hmem
        exact hnot c hc he
      split
      · exact h
      · next hkey =>
        refine ⟨fun c hc => List.mem_append_left _ (h.sub hc), fun t' ht' => ?_,
          fun t' ht' c hc => ?_, ?_, ?_, ?_, fun t' ht' => ?_⟩
        · rcases List.mem_append.1 ht' with ht' | ht'
          · obtain ⟨c, hc, he⟩ := h.owned t' ht'
            exact ⟨c, List.mem_append_left _ hc, he⟩
          · rw [List.mem_singleton.1 ht']
            exact ⟨⟨t, id⟩, List.mem_append_right _ (List.mem_singleton.2 rfl), rfl⟩
        · rcases List.mem_append.1 ht' with ht' | ht'
          · exact h.fresh t' ht' c hc
          · rw [List.mem_singleton.1 ht']
            exact hnot c (h.sub hc)
        · rw [List.nodup_append]
          refine ⟨h.nodup, List.nodup_singleton t, fun a ha b hb => ?_⟩
          rw [List.mem_singleton.1 hb]
          exact fun hc => hout (hc ▸ ha)
        · show ((e.out ++ [t]).filter Trigger.isKey).length ≤ 1
          rw [List.filter_append, List.length_append]
          cases hk : t.isKey with
          | true =>
            have hempty : e.keptKey = [] := by
              by_contra hne
              exact hkey ⟨hk, hne⟩
            simp [h.noKey hempty, hk]
          | false => simpa [hk] using h.oneKey
        · intro hempty
          show (e.out ++ [t]).filter Trigger.isKey = []
          rw [List.filter_append]
          cases hk : t.isKey with
          | true =>
            change (if t.isKey then t.text else e.keptKey) = [] at hempty
            rw [if_pos hk] at hempty
            exact absurd hempty hvalid.text_ne_nil
          | false =>
            change (if t.isKey then t.text else e.keptKey) = [] at hempty
            rw [hk, if_neg (by simp)] at hempty
            simp [h.noKey hempty, hk]
        · rcases List.mem_append.1 ht' with ht' | ht'
          · exact h.valid t' ht'
          · rw [List.mem_singleton.1 ht']
            exact hvalid

theorem kept_foldl (claimed : List Claim) (id : String) (list : List String) :
    (list.foldl (Entry.take id) ⟨[], [], claimed⟩).Kept claimed := by
  have hstart : (⟨[], [], claimed⟩ : Entry).Kept claimed :=
    ⟨List.Subset.refl _, fun _ h => absurd h List.not_mem_nil,
      fun _ h => absurd h List.not_mem_nil, List.nodup_nil, Nat.zero_le _, fun _ => rfl,
      fun _ h => absurd h List.not_mem_nil⟩
  generalize (⟨[], [], claimed⟩ : Entry) = e at hstart
  induction list generalizing e with
  | nil => exact hstart
  | cons str list ih => exact ih _ (hstart.take id str)

/-- What holds after each turn of the outer loop. -/
structure Loaded (s : Store) (claimed : List Claim) : Prop where
  apart : s.Apart
  full : s.Full
  owned : ∀ id, ∀ t ∈ s.triggers id, ∃ c ∈ claimed, c.t = t

theorem Loaded.entry {claimed : List Claim} (h : Loaded s claimed) (raw : RawBinds) (id : String) :
    Loaded (loadEntry raw (s, claimed) id).1 (loadEntry raw (s, claimed) id).2 := by
  unfold loadEntry
  split
  · exact ⟨⟨h.apart.owner, h.apart.nodup, h.apart.oneKey⟩, h.full, h.owned⟩
  · have hk := kept_foldl claimed id ((raw.lookup id).getD [])
    dsimp only
    generalize ((raw.lookup id).getD []).foldl (Entry.take id) ⟨[], [], claimed⟩ = e at hk
    split
    · next hne =>
      have htr : ∀ id', ({ s with binds := s.binds.insert id e.out } : Store).triggers id' =
          if id' = id then e.out else s.triggers id' := fun id' =>
        triggers_assign (b := s.binds) (l := some e.out) rfl id'
      refine ⟨⟨fun id₁ id₂ t h₁ h₂ => ?_, fun id' => ?_, fun id' => ?_⟩, ?_, fun id' t ht => ?_⟩
      · have hcross : ∀ i, t ∈ e.out → t ∈ s.triggers i → False := fun i ho hs => by
          obtain ⟨c, hc, he⟩ := h.owned i t hs
          exact hk.fresh t ho c hc he
        rw [htr] at h₁ h₂
        split at h₁
        · next e₁ =>
          split at h₂
          · next e₂ => exact e₁.trans e₂.symm
          · exact (hcross _ h₁ h₂).elim
        · split at h₂
          · exact (hcross _ h₂ h₁).elim
          · exact h.apart.owner id₁ id₂ t h₁ h₂
      · rw [htr]
        split
        · exact hk.nodup
        · exact h.apart.nodup id'
      · rw [htr]
        split
        · exact hk.oneKey
        · exact h.apart.oneKey id'
      · exact h.full.assign (l := some e.out) fun l hl => by cases hl; exact hne
      · rw [htr] at ht
        split at ht
        · exact hk.owned t ht
        · obtain ⟨c, hc, he⟩ := h.owned id' t ht
          exact ⟨c, hk.sub hc, he⟩
    · exact ⟨h.apart, h.full, fun id' t ht => by
        obtain ⟨c, hc, he⟩ := h.owned id' t ht
        exact ⟨c, hk.sub hc, he⟩⟩

theorem new_apart : new.Apart where
  owner _ _ _ h := by cases h
  nodup _ := List.nodup_nil
  oneKey _ := Nat.zero_le _

theorem new_full : new.Full := fun _ _ h => by cases h

theorem loaded_foldl (raw : RawBinds) (ids : List String) :
    Loaded (ids.foldl (loadEntry raw) (new, [])).1 (ids.foldl (loadEntry raw) (new, [])).2 := by
  have hstart : Loaded (new, ([] : List Claim)).1 (new, ([] : List Claim)).2 :=
    ⟨new_apart, new_full, fun _ _ h => by cases h⟩
  generalize (new, ([] : List Claim)) = st at hstart
  induction ids generalizing st with
  | nil => exact hstart
  | cons id ids ih => exact ih _ (hstart.entry raw id)

/-! ## Every operation -/

theorem removeAt_some {i : ℤ} (h : s.removeAt id i = some s') :
    s' = { s with binds := assign s.binds id (entryOf ((s.triggers id).eraseIdx i.toNat)) } := by
  simp only [removeAt] at h
  split at h
  · cases h
  · cases h
    rfl

theorem perform_exclusive (h : s.Apart ∧ s.Full) (op : StoreOp) :
    (s.perform op).Apart ∧ (s.perform op).Full := by
  obtain ⟨hA, hF⟩ := h
  cases op with
  | load raw =>
    have hl := loaded_foldl raw (sortedIDs raw)
    exact ⟨hl.apart, hl.full⟩
  | add o id t =>
    show (s.add o id t).1.Apart ∧ (s.add o id t).1.Full
    by_cases hheld : t ∈ s.triggers id
    · rw [add_held o hheld]
      exact ⟨hA, hF⟩
    · have h := hA.added o hheld
      exact ⟨h.apart hA hheld, h.full hF⟩
  | removeAt id i =>
    show ((s.removeAt id i).getD s).Apart ∧ ((s.removeAt id i).getD s).Full
    cases hr : s.removeAt id i with
    | none => exact ⟨hA, hF⟩
    | some s' =>
      cases removeAt_some hr
      exact ⟨hA.shrink (List.eraseIdx_sublist _ _), hF.assign entryOf_ne_nil⟩
  | clear id =>
    show (s.clear id).Apart ∧ (s.clear id).Full
    exact ⟨hA.shrink (l := []) (List.nil_sublist _), hF.assign (l := none) (by simp)⟩

end Store

/-- **Keybind store invariant.** After every run of operations no trigger is bound
twice, no action has two chords and no list is empty; and `Add` leaves a trigger
alone that its action holds, or else takes it from its one holder. -/
theorem keybinds_exclusive (ops : List StoreOp) : (Store.run ops).Exclusive ∧
    ∀ (o : IterOrder ActionID) (id : ActionID) (t : Trigger),
      if ((Store.run ops).triggers id).any fun e => e.equal t then
        (Store.run ops).add o id t = (Store.run ops, none)
      else
        (Store.run ops).Added id t ((Store.run ops).add o id t).1 ((Store.run ops).add o id t).2 := by
  have h : (Store.run ops).Apart ∧ (Store.run ops).Full := by
    unfold Store.run
    have hstart := And.intro Store.new_apart Store.new_full
    generalize Store.new = s at hstart
    induction ops generalizing s with
    | nil => exact hstart
    | cons op ops ih => exact ih _ (Store.perform_exclusive hstart op)
  refine ⟨Store.exclusive_iff.2 h, fun o id t => ?_⟩
  split
  · next hheld => exact Store.add_held o (Store.any_equal_iff.1 hheld)
  · next hnew => exact h.1.added o fun hmem => hnew (Store.any_equal_iff.2 hmem)

end VcsClient.Keybinds
