import VcsClient.Keybinds.Exclusive

/-!
# Storing the keybinds

What `Snapshot` writes `Load` reads back, so the rollback of `AddTrigger`,
`RemoveTrigger` and `ClearKeybind` restores the store when a save fails. The
store has to hold what the file can: triggers that can be printed, under action
ids that `Load` recognises.
-/

namespace VcsClient.Keybinds

open VcsClient.Lib

/-- `CaptureDTO`, of the keyboard. -/
structure Capture where
  code : String
  ctrl : Bool
  alt : Bool
  shift : Bool
  super : Bool

inductive BindError where
  | parse (e : ChordError)
  | noSuchTrigger
  | persist
  deriving DecidableEq

namespace Store

/-- `AddTrigger`; `saved` tells whether the configuration could be saved. -/
def addTrigger (o : IterOrder ActionID) (s : Store) (id : ActionID) (cap : Capture)
    (saved : Bool) : Except BindError (Option Stolen) × Store :=
  match Chord.fromCode cap.code cap.ctrl cap.alt cap.shift cap.super with
  | .error e => (.error (.parse e), s)
  | .ok c =>
    let before := s.snapshot
    let (s', stolen) := s.add o id (.key c)
    if saved then (.ok stolen, s') else (.error .persist, load before)

/-- `RemoveTrigger`. -/
def removeTrigger (s : Store) (id : ActionID) (i : ℤ) (saved : Bool) :
    Except BindError Unit × Store :=
  let before := s.snapshot
  match s.removeAt id i with
  | none => (.error .noSuchTrigger, s)
  | some s' => if saved then (.ok (), s') else (.error .persist, load before)

/-- `ClearKeybind`. -/
def clearKeybind (s : Store) (id : ActionID) (saved : Bool) : Except BindError Unit × Store :=
  let before := s.snapshot
  if saved then (.ok (), s.clear id) else (.error .persist, load before)

/-- The same lists under the same ids, and the same unrecognised entries. -/
structure Same (s s' : Store) : Prop where
  binds : ∀ id, s.binds.lookup id = s'.binds.lookup id
  unknown : ∀ id, s.unknown.lookup id = s'.unknown.lookup id

/-- The store survives a snapshot, and each operation whose save fails. -/
structure RoundTrips (s : Store) : Prop where
  load_snapshot : (load s.snapshot).Same s
  addTrigger : ∀ o id cap, (s.addTrigger o id cap false).2.Same s
  removeTrigger : ∀ id i, (s.removeTrigger id i false).2.Same s
  clearKeybind : ∀ id, (s.clearKeybind id false).2.Same s

end Store

/-- The file can hold the trigger. -/
def StoreOp.Storable : StoreOp → Prop
  | .add _ id t => recognised id = true ∧ t.Valid
  | _ => True

namespace Store

variable {s s' : Store} {id id' : ActionID} {t t' : Trigger} {o : IterOrder ActionID}

structure Stored (s : Store) : Prop where
  apart : s.Apart
  full : s.Full
  valid : ∀ id, ∀ t ∈ s.triggers id, t.Valid
  known : ∀ id l, s.binds.lookup id = some l → recognised id = true
  unknown : ∀ id l, s.unknown.lookup id = some l → recognised id = false

/-! ## Reading an entry back -/

theorem take_fresh {e : Entry} (ht : t.Valid) (hfree : ∀ c ∈ e.claimed, c.t ≠ t)
    (hkey : t.isKey = true → e.keptKey = []) :
    Entry.take id e (String.ofList t.text) =
      ⟨e.out ++ [t], if t.isKey then t.text else e.keptKey, e.claimed ++ [⟨t, id⟩]⟩ := by
  unfold Entry.take
  rw [String.toList_ofList, ht.parse_text]
  have hno : ¬ (e.claimed.any fun c => c.t.equal t) = true := fun h => by
    obtain ⟨c, hc, heq⟩ := List.any_eq_true.1 h
    exact hfree c hc (Trigger.equal_iff.1 heq)
  simp only [if_neg hno]
  rw [if_neg fun h => h.2 (hkey h.1)]

/-- A list of triggers that nobody has claimed is read back whole. -/
theorem foldl_take (id : ActionID) {claimed : List Claim} {l₁ l : List Trigger} {e : Entry}
    (hvalid : ∀ t ∈ l, t.Valid) (hnodup : (l₁ ++ l).Nodup)
    (hkey : ((l₁ ++ l).filter Trigger.isKey).length ≤ 1)
    (hfree : ∀ t ∈ l, ∀ c ∈ claimed, c.t ≠ t) (hout : e.out = l₁)
    (hclaimed : ∀ c ∈ e.claimed, c ∈ claimed ∨ c.t ∈ l₁)
    (hkept : e.keptKey ≠ [] → ∃ k ∈ l₁, k.isKey = true) :
    ((l.map fun t => String.ofList t.text).foldl (Entry.take id) e).out = l₁ ++ l ∧
      ∀ c ∈ ((l.map fun t => String.ofList t.text).foldl (Entry.take id) e).claimed,
        c ∈ claimed ∨ c.t ∈ l₁ ++ l := by
  induction l generalizing l₁ e with
  | nil =>
    rw [List.append_nil]
    exact ⟨hout, hclaimed⟩
  | cons t l ih =>
    have hfresh : ∀ c ∈ e.claimed, c.t ≠ t := by
      intro c hc he
      rcases hclaimed c hc with hc | hc
      · exact hfree t List.mem_cons_self c hc he
      · exact (List.nodup_append.1 hnodup).2.2 _ hc t List.mem_cons_self he
    have hnokey : t.isKey = true → e.keptKey = [] := by
      intro hk
      by_contra hne
      obtain ⟨k, hmem, hkk⟩ := hkept hne
      rw [List.filter_append, List.length_append, List.filter_cons_of_pos hk,
        List.length_cons] at hkey
      have : 0 < (l₁.filter Trigger.isKey).length :=
        List.length_pos_of_mem (List.mem_filter.2 ⟨hmem, hkk⟩)
      omega
    have happ : l₁ ++ t :: l = (l₁ ++ [t]) ++ l := by simp
    rw [List.map_cons, List.foldl_cons, take_fresh (hvalid t List.mem_cons_self) hfresh hnokey, happ]
    rw [happ] at hnodup hkey
    refine ih (fun t' ht' => hvalid t' (List.mem_cons_of_mem _ ht')) hnodup hkey
      (fun t' ht' => hfree t' (List.mem_cons_of_mem _ ht')) (by rw [hout]) (fun c hc => ?_)
      fun hne => ?_
    · rcases List.mem_append.1 hc with hc | hc
      · exact (hclaimed c hc).imp_right fun h => List.mem_append_left _ h
      · rw [List.mem_singleton.1 hc]
        exact .inr (List.mem_append_right _ (List.mem_singleton.2 rfl))
    · cases hk : t.isKey with
      | true => exact ⟨t, List.mem_append_right _ (List.mem_singleton.2 rfl), hk⟩
      | false =>
        rw [hk] at hne
        obtain ⟨k, hmem, hkk⟩ := hkept hne
        exact ⟨k, List.mem_append_left _ hmem, hkk⟩

/-! ## Reading a snapshot back -/

theorem lookup_snapshot (s : Store) (id : ActionID) : s.snapshot.lookup id =
    (s.unknown.lookup id).or
      ((s.binds.lookup id).map fun l => l.map fun t => String.ofList t.text) := by
  unfold snapshot
  rw [lookup_copyInto, lookup_copyInto, AList.lookup_empty, Option.or_none, Option.map_id']

/-- `Load` has been through the ids `done` of the snapshot of `s`. -/
structure ReadBack (s : Store) (done : List String) (st : Store × List Claim) : Prop where
  binds : ∀ id, st.1.binds.lookup id = if id ∈ done then s.binds.lookup id else none
  unknown : ∀ id, st.1.unknown.lookup id = if id ∈ done then s.unknown.lookup id else none
  claimed : ∀ c ∈ st.2, ∃ id ∈ done, c.t ∈ s.triggers id

theorem lookup_insert_if {V : Type} {m m' : AList fun _ : String => V} {done : List String}
    {v : V} (hm : ∀ i, m.lookup i = if i ∈ done then m'.lookup i else none)
    (hv : m'.lookup id = some v) :
    ∀ i, (m.insert id v).lookup i = if i ∈ done ++ [id] then m'.lookup i else none := by
  intro i
  by_cases hi : i = id
  · subst hi
    rw [AList.lookup_insert, if_pos (List.mem_append_right _ (List.mem_singleton.2 rfl)), hv]
  · rw [AList.lookup_insert_ne hi, hm]
    simp [hi]

theorem lookup_extend_if {V : Type} {m m' : AList fun _ : String => V} {done : List String}
    (hm : ∀ i, m.lookup i = if i ∈ done then m'.lookup i else none)
    (hv : m'.lookup id = none) :
    ∀ i, m.lookup i = if i ∈ done ++ [id] then m'.lookup i else none := by
  intro i
  rw [hm]
  by_cases hi : i = id
  · subst hi
    rw [hv]
    simp
  · simp [hi]

theorem ReadBack.entry {done : List String} {st : Store × List Claim} (h : s.ReadBack done st)
    (hs : s.Stored) (hnew : id ∉ done) (hid : id ∈ s.snapshot) :
    s.ReadBack (done ++ [id]) (loadEntry s.snapshot st id) := by
  have hclaimed : ∀ c ∈ st.2, ∃ i ∈ done ++ [id], c.t ∈ s.triggers i := fun c hc => by
    obtain ⟨i, hi, ht⟩ := h.claimed c hc
    exact ⟨i, List.mem_append_left _ hi, ht⟩
  have hlookup := lookup_snapshot s id
  have hsome : (s.snapshot.lookup id).isSome = true := AList.lookup_isSome.2 hid
  simp only [loadEntry]
  cases hr : recognised id with
  | false =>
    have hnone : s.binds.lookup id = none := by
      cases hb : s.binds.lookup id with
      | none => rfl
      | some l => rw [hs.known id l hb] at hr; cases hr
    rw [hnone, Option.map_none, Option.or_none] at hlookup
    rw [hlookup] at hsome ⊢
    obtain ⟨l, hl⟩ := Option.isSome_iff_exists.1 hsome
    rw [if_pos rfl, hl]
    exact ⟨lookup_extend_if h.binds hnone, lookup_insert_if h.unknown hl, hclaimed⟩
  | true =>
    have hnone : s.unknown.lookup id = none := by
      cases hu : s.unknown.lookup id with
      | none => rfl
      | some l => rw [hs.unknown id l hu] at hr; cases hr
    rw [hnone, Option.none_or] at hlookup
    rw [hlookup, Option.isSome_map] at hsome
    obtain ⟨l, hl⟩ := Option.isSome_iff_exists.1 hsome
    have htr : s.triggers id = l := triggers_of_lookup hl
    rw [if_neg (by simp), hlookup, hl]
    have hfree : ∀ t ∈ l, ∀ c ∈ st.2, c.t ≠ t := by
      intro t ht c hc he
      obtain ⟨i, hi, hti⟩ := h.claimed c hc
      rw [he] at hti
      exact hnew (hs.apart.owner i id t hti (htr ▸ ht) ▸ hi)
    obtain ⟨hout, hcl⟩ := foldl_take id (e := ⟨[], [], st.2⟩)
      (fun t ht => hs.valid id t (htr ▸ ht)) (htr ▸ hs.apart.nodup id) (htr ▸ hs.apart.oneKey id)
      hfree rfl (fun c hc => .inl hc) (fun hne => absurd rfl hne)
    show s.ReadBack _ (if ((l.map fun t => String.ofList t.text).foldl (Entry.take id)
      ⟨[], [], st.2⟩).out ≠ [] then _ else _)
    rw [List.nil_append] at hout hcl
    rw [if_pos (by rw [hout]; exact hs.full id l hl)]
    refine ⟨?_, lookup_extend_if h.unknown hnone, fun c hc => ?_⟩
    · show ∀ i, (AList.insert id _ st.1.binds).lookup i = _
      rw [Option.map_some, Option.getD_some, hout]
      exact lookup_insert_if h.binds hl
    · rcases hcl c hc with hc | hc
      · exact hclaimed c hc
      · exact ⟨id, List.mem_append_right _ (List.mem_singleton.2 rfl), htr ▸ hc⟩

theorem ReadBack.foldl (ids : List String) {done : List String} {st : Store × List Claim}
    (h : s.ReadBack done st) (hs : s.Stored) (hnodup : (done ++ ids).Nodup)
    (hids : ∀ id ∈ ids, id ∈ s.snapshot) :
    s.ReadBack (done ++ ids) (ids.foldl (loadEntry s.snapshot) st) := by
  induction ids generalizing done st with
  | nil =>
    rw [List.append_nil]
    exact h
  | cons id ids ih =>
    have happ : done ++ id :: ids = (done ++ [id]) ++ ids := by simp
    have hnew : id ∉ done := fun hmem =>
      (List.nodup_append.1 hnodup).2.2 _ hmem id List.mem_cons_self rfl
    rw [happ] at hnodup ⊢
    exact ih (h.entry hs hnew (hids id List.mem_cons_self)) hnodup
      fun i hi => hids i (List.mem_cons_of_mem _ hi)

theorem Stored.load_snapshot (hs : s.Stored) : (load s.snapshot).Same s := by
  have hperm : (sortedIDs s.snapshot).Perm s.snapshot.keys := List.perm_insertionSort _ _
  have hmem : ∀ id, id ∈ sortedIDs s.snapshot ↔ id ∈ s.snapshot := fun id => hperm.mem_iff
  have hstart : s.ReadBack [] (new, []) :=
    ⟨fun _ => rfl, fun _ => rfl, fun _ h => absurd h List.not_mem_nil⟩
  have hend := hstart.foldl (sortedIDs s.snapshot) hs
    (by rw [List.nil_append]; exact hperm.nodup_iff.2 s.snapshot.keys_nodup)
    fun id hid => (hmem id).1 hid
  have habsent : ∀ id, id ∉ sortedIDs s.snapshot →
      s.binds.lookup id = none ∧ s.unknown.lookup id = none := by
    intro id hid
    have hnone : s.snapshot.lookup id = none := AList.lookup_eq_none.2 fun h => hid ((hmem id).2 h)
    rw [lookup_snapshot, Option.or_eq_none_iff, Option.map_eq_none_iff] at hnone
    exact hnone.symm
  constructor
  · intro id
    refine (hend.binds id).trans ?_
    split
    · rfl
    · next hid => exact (habsent id hid).1.symm
  · intro id
    refine (hend.unknown id).trans ?_
    split
    · rfl
    · next hid => exact (habsent id hid).2.symm

theorem Same.refl (s : Store) : s.Same s := ⟨fun _ => rfl, fun _ => rfl⟩

theorem Stored.roundTrips (hs : s.Stored) : s.RoundTrips where
  load_snapshot := hs.load_snapshot
  addTrigger o id cap := by
    unfold addTrigger
    split
    · exact .refl s
    · exact hs.load_snapshot
  removeTrigger id i := by
    unfold removeTrigger
    split
    · exact .refl s
    · exact hs.load_snapshot
  clearKeybind id := hs.load_snapshot

/-! ## What the file can hold, after every operation -/

/-- `Stored`, entry by entry. -/
structure Named (s : Store) : Prop where
  binds : ∀ id l, s.binds.lookup id = some l → recognised id = true ∧ ∀ t ∈ l, t.Valid
  unknown : ∀ id l, s.unknown.lookup id = some l → recognised id = false

theorem Named.stored (h : s.Named) (hA : s.Apart) (hF : s.Full) : s.Stored where
  apart := hA
  full := hF
  valid id t ht := by
    unfold triggers at ht
    cases hl : s.binds.lookup id with
    | none => rw [hl] at ht; cases ht
    | some l => rw [hl] at ht; exact (h.binds id l hl).2 t ht
  known id l hl := (h.binds id l hl).1
  unknown := h.unknown

theorem Named.shrink (h : s.Named) {l : List Trigger} (hsub : ∀ t ∈ l, t ∈ s.triggers id) :
    { s with binds := assign s.binds id (entryOf l) }.Named := by
  refine ⟨forall_assign h.binds fun l' hl' => ?_, h.unknown⟩
  unfold entryOf at hl'
  split at hl'
  · cases hl'
  · next hne =>
    cases hl'
    obtain ⟨t, ht⟩ := List.exists_mem_of_ne_nil l hne
    have hmem := hsub t ht
    unfold triggers at hmem hsub
    cases hl : s.binds.lookup id with
    | none => rw [hl] at hmem; cases hmem
    | some l₀ =>
      rw [hl] at hsub
      exact ⟨(h.binds id l₀ hl).1, fun t ht => (h.binds id l₀ hl).2 t (hsub t ht)⟩

theorem Named.entry {claimed : List Claim} (h : s.Named) (raw : RawBinds) (id : String) :
    (loadEntry raw (s, claimed) id).1.Named := by
  unfold loadEntry
  split
  · next hr => exact ⟨h.binds, forall_assign (o := some _) h.unknown fun _ _ => by simpa using hr⟩
  · next hr =>
    have hk := kept_foldl claimed id ((raw.lookup id).getD [])
    dsimp only
    generalize ((raw.lookup id).getD []).foldl (Entry.take id) ⟨[], [], claimed⟩ = e at hk
    split
    · refine ⟨forall_assign (o := some e.out) h.binds fun l hl => ?_, h.unknown⟩
      cases hl
      exact ⟨by simpa using hr, hk.valid⟩
    · exact h

theorem new_named : new.Named := ⟨(fun _ _ h => by cases h), (fun _ _ h => by cases h)⟩

theorem named_load (raw : RawBinds) : (load raw).Named := by
  unfold load
  have hstart : (new, ([] : List Claim)).1.Named := new_named
  generalize (new, ([] : List Claim)) = st at hstart
  induction sortedIDs raw generalizing st with
  | nil => exact hstart
  | cons id ids ih => exact ih _ (hstart.entry raw id)

theorem Added.named {v : Option Stolen} (h : s.Added id t s' v) (hs : s.Named)
    (hid : recognised id = true) (ht : t.Valid) : s'.Named := by
  refine ⟨fun id' l hl => ?_, fun id' l hl => hs.unknown id' l (h.unknown ▸ hl)⟩
  have hmem : ∀ id', ∀ e ∈ s.triggers id', e.Valid := fun id' e he => by
    unfold triggers at he
    cases hb : s.binds.lookup id' with
    | none => rw [hb] at he; cases he
    | some l => rw [hb] at he; exact (hs.binds id' l hb).2 e he
  by_cases hii : id' = id
  · subst hii
    rw [h.own] at hl
    cases hl
    refine ⟨hid, fun e he => ?_⟩
    rcases List.mem_append.1 he with he | he
    · split at he
      · exact hmem id' e (List.mem_of_mem_filter he)
      · exact hmem id' e he
    · rw [List.mem_singleton.1 he]
      exact ht
  · rw [h.others id' hii] at hl
    split at hl
    · next hany =>
      have hin := any_equal_iff.1 hany
      unfold entryOf at hl
      split at hl
      · cases hl
      · cases hl
        refine ⟨?_, fun e he => hmem id' e (List.mem_of_mem_filter he)⟩
        unfold triggers at hin
        cases hb : s.binds.lookup id' with
        | none => rw [hb] at hin; cases hin
        | some l => exact (hs.binds id' l hb).1
    · exact hs.binds id' l hl

theorem perform_named (h : s.Named) (hA : s.Apart) {op : StoreOp} (hop : op.Storable) :
    (s.perform op).Named := by
  cases op with
  | load raw => exact named_load raw
  | add o id t =>
    show (s.add o id t).1.Named
    by_cases hheld : t ∈ s.triggers id
    · rw [add_held o hheld]
      exact h
    · exact (hA.added o hheld).named h hop.1 hop.2
  | removeAt id i =>
    show ((s.removeAt id i).getD s).Named
    cases hr : s.removeAt id i with
    | none => exact h
    | some s' =>
      cases removeAt_some hr
      exact h.shrink fun t ht => List.mem_of_mem_eraseIdx ht
  | clear id => exact h.shrink (l := []) fun t ht => by cases ht

theorem run_roundTrips {ops : List StoreOp} (hops : ∀ op ∈ ops, op.Storable) :
    (run ops).RoundTrips := by
  have h : (run ops).Apart ∧ (run ops).Full ∧ (run ops).Named := by
    unfold run
    have hstart : new.Apart ∧ new.Full ∧ new.Named := ⟨new_apart, new_full, new_named⟩
    generalize new = s at hstart
    induction ops generalizing s with
    | nil => exact hstart
    | cons op ops ih =>
      obtain ⟨hA, hF, hN⟩ := hstart
      have hex := perform_exclusive ⟨hA, hF⟩ op
      exact ih (fun op' hop' => hops op' (List.mem_cons_of_mem _ hop')) _
        ⟨hex.1, hex.2, perform_named hN hA (hops op List.mem_cons_self)⟩
  exact (h.2.2.stored h.1 h.2.1).roundTrips

end Store

/-- **Keybind round trip.** A store that is reached through actions the store
recognises survives being saved, and each operation whose save fails; a trigger or
chord that a capture or a file can yield is read back from its text, so the text of
what was read is canonical. -/
theorem keybinds_roundTrip {ops : List StoreOp} (hops : ∀ op ∈ ops, op.Storable) :
    (Store.run ops).RoundTrips ∧
      (∀ t : Trigger, t.Valid → Trigger.parse t.text = .ok t) ∧
      (∀ c : Chord, c.Valid → Chord.parse c.text = .ok c) ∧
      (∀ s t, Trigger.parse s = .ok t → Trigger.parse t.text = .ok t) ∧
      ∀ s c, Chord.parse s = .ok c → Chord.parse c.text = .ok c :=
  ⟨Store.run_roundTrips hops, fun _ h => h.parse_text, fun _ h => h.parse_text,
    fun _ _ h => (Trigger.parse_valid h).parse_text, fun _ _ h => (Chord.parse_valid h).parse_text⟩

/-- A chord and a joystick binding with a modifier; then one of them is taken away. -/
theorem keybinds_roundTrip_captured :
    (Store.run
      [.add (IterOrder.stored _) "global.ptt" (.key ⟨5, "V"⟩),
        .add (IterOrder.stored _) "radio.0.ptt"
          (.joy ⟨"044f_b10a", hatButton 0 2, some ⟨"044f_b10a", 3⟩⟩),
        .removeAt "global.ptt" 0]).RoundTrips := by
  refine (keybinds_roundTrip fun op hop => ?_).1
  simp only [List.mem_cons, List.not_mem_nil, or_false] at hop
  rcases hop with rfl | rfl | rfl
  · exact ⟨by decide +kernel, ⟨by decide +kernel, by decide⟩⟩
  · refine ⟨by decide +kernel, ⟨by decide +kernel, by decide⟩, fun m hm => ?_⟩
    cases hm
    exact ⟨by decide +kernel, by decide⟩
  · exact trivial

/-- No key prints to nothing, which is not a chord; and a binding under an id that
is not an action comes back as an unrecognised entry. -/
theorem unrecognised_not_roundTrips :
    (¬ ∀ c : Chord, Chord.parse c.text = .ok c) ∧
      ¬ ∀ ops : List StoreOp, (∀ o id t, .add o id t ∈ ops → t.Valid) →
        (Store.run ops).RoundTrips := by
  refine ⟨fun h => ?_, fun h => ?_⟩
  · have hno : Chord.parse (Chord.text ⟨0, ""⟩) = .error .empty := by decide +kernel
    rw [h] at hno
    cases hno
  · have hvalid : Chord.Valid ⟨0, "V"⟩ := ⟨by decide +kernel, by decide⟩
    have hback := (h [.add (IterOrder.stored _) "radio" (.key ⟨0, "V"⟩)] fun o id t ht => by
      cases List.mem_singleton.1 ht
      exact hvalid).load_snapshot.binds "radio"
    have hnone : (Store.load (Store.run [.add (IterOrder.stored _) "radio"
      (.key ⟨0, "V"⟩)]).snapshot).binds.lookup "radio" = none := by decide +kernel
    have hsome : (Store.run [.add (IterOrder.stored _) "radio" (.key ⟨0, "V"⟩)]).binds.lookup
      "radio" = some [.key ⟨0, "V"⟩] := by decide +kernel
    rw [hnone, hsome] at hback
    cases hback

end VcsClient.Keybinds
