import VcsClient.Joystick.Capture

/-!
# Hats

`internal/joystick/hat.go` and `pov.go`: which of the eight directions a deflected hat holds down.
A diagonal holds its two cardinals as well, so a binding of a cardinal outlives a nudge
(`hat_nudged`), and a capture takes one direction of them all the same (`hat_captured`).
-/

namespace VcsClient.Joystick

open VcsClient.Keybinds

/-- `povDirection`: hundredths of a degree, clockwise from up. -/
def povDirection (raw : UInt32) : Option ℕ :=
  if 36000 ≤ raw then none else some (((raw + 2250) / 4500).toNat % 8)

/-- `povDirections`, of the Windows backend. -/
def povDirections (raw : UInt32) : List ℕ := (povDirection raw).elim [] expandHatDirection

/-- What a sample of the device holds of one hat. -/
def hatHeld (device : DeviceID) (hat : ℕ) (dirs : List ℕ) : Finset JoyButton :=
  (dirs.map fun dir => ⟨device, hatButton hat dir⟩).toFinset

/-! ## The directions -/

theorem povDirection_eq {raw : UInt32} (h : raw < 36000) :
    povDirection raw = some ((raw.toNat + 2250) / 4500 % 8) := by
  have hlt : raw.toNat < 36000 := UInt32.lt_iff_toNat_lt.1 h
  have hadd : (raw + 2250).toNat = raw.toNat + 2250 := by
    rw [UInt32.toNat_add]
    exact Nat.mod_eq_of_lt (by simp only [UInt32.reduceToNat]; omega)
  rw [povDirection, if_neg (UInt32.not_le.2 h), UInt32.toNat_div, hadd]
  rfl

/-- A cardinal is held up to three quarters of a right angle from it. -/
theorem cardinal_mem_povDirections {raw : UInt32} (h : raw < 36000) {k : ℕ} (hk : k < 4) :
    2 * k ∈ povDirections raw ↔ (raw.toNat + 36000 + 6750 - 9000 * k) % 36000 < 13500 := by
  have hlt : raw.toNat < 36000 := UInt32.lt_iff_toNat_lt.1 h
  rw [povDirections, povDirection_eq h, Option.elim_some]
  generalize raw.toNat = n at hlt
  have hmem : ∀ dir < 8, (2 * k ∈ expandHatDirection dir ↔
      dir = 2 * k ∨ dir = 2 * k + 1 ∨ dir = (2 * k + 7) % 8) := by
    intro dir hdir
    unfold expandHatDirection
    split <;> simp <;> omega
  rw [hmem _ (Nat.mod_lt _ (by decide))]
  omega

/-! ## What a binding sees -/

variable {device : DeviceID} {hat dir : ℕ}

/-- A satisfied binding without a modifier keeps its action active, unless one with a modifier
claims its button. -/
theorem mem_active {binds : Binds} {s : State} {id : ActionID} {list : List Binding} {b : Binding}
    (hlist : binds.lookup id = some list) (hb : b ∈ list) (hbare : b.joy.modifier = none)
    (hheld : b.joy.main ∈ s.held)
    (hfree : ∀ id' list', binds.lookup id' = some list' → ∀ b' ∈ list', ∀ m ∈ b'.joy.modifier,
      b.joy.main ≠ b'.joy.main ∧ b.joy.main ≠ m) : id ∈ active binds s := by
  have hsat : (id, b.joy) ∈ satisfied binds s := by
    refine List.mem_flatMap.2 ⟨⟨id, list⟩, AList.mem_lookup_iff.1 hlist, ?_⟩
    refine List.mem_map.2 ⟨b, List.mem_filter.2 ⟨hb, ?_⟩, rfl⟩
    simp [Binding.satisfied, State.isHeld, hheld, hbare]
  have hunclaimed : b.joy.main ∉ claimed (satisfied binds s) := by
    intro hmem
    obtain ⟨⟨id', joy⟩, ht, hin⟩ := List.mem_flatMap.1 hmem
    obtain ⟨⟨id', list'⟩, he, hjoy⟩ := List.mem_flatMap.1 ht
    obtain ⟨b', hb', heq⟩ := List.mem_map.1 hjoy
    obtain ⟨rfl, rfl⟩ := Prod.mk.inj heq
    cases hm : b'.joy.modifier with
    | none => simp [hm] at hin
    | some m =>
      obtain ⟨hmain, hmod⟩ := hfree id' list' (AList.mem_lookup_iff.2 he) b'
        (List.mem_filter.1 hb').1 m hm
      simp [hm, hmain, hmod] at hin
  simp only [active, List.mem_toFinset, List.mem_map, List.mem_filter]
  exact ⟨_, ⟨hsat, by simp [hunclaimed]⟩, rfl⟩

/-- **A nudge does not let go.** Let an action be bound to a cardinal of a hat alone, and let no
binding with a modifier use that direction. As long as the readings of the hat stay within three
quarters of a right angle of the cardinal, the action is active in every sample. -/
theorem hat_nudged (binds : Binds) (id : ActionID) (list : List Binding) (hold : Bool)
    (device : DeviceID) (hat k : ℕ) (hk : k < 4) (hlist : binds.lookup id = some list)
    (hb : ⟨⟨device, hatButton hat (2 * k), none⟩, hold⟩ ∈ list)
    (hfree : ∀ id' list', binds.lookup id' = some list' → ∀ b' ∈ list', ∀ m ∈ b'.joy.modifier,
      ⟨device, hatButton hat (2 * k)⟩ ≠ b'.joy.main ∧ ⟨device, hatButton hat (2 * k)⟩ ≠ m)
    (samples : List (UInt32 × State))
    (hsampled : ∀ p ∈ samples, hatHeld device hat (povDirections p.1) ⊆ p.2.held)
    (hnear : ∀ p ∈ samples, p.1 < 36000 ∧ (p.1.toNat + 36000 + 6750 - 9000 * k) % 36000 < 13500) :
    ∀ p ∈ samples, id ∈ active binds p.2 := by
  intro p hp
  refine mem_active hlist hb rfl (hsampled p hp ?_) hfree
  rw [hatHeld, List.mem_toFinset]
  exact List.mem_map.2
    ⟨2 * k, (cardinal_mem_povDirections (hnear p hp).1 hk).2 (hnear p hp).2, rfl⟩

/-- Up, and the hat drifts to the right and back. -/
theorem hat_nudged_drift :
    let up : Binding := ⟨⟨"stick", hatButton 0 0, none⟩, true⟩
    let binds : Binds := AList.insert "ptt" [up] ∅
    ∀ p ∈ [((0 : UInt32), (⟨hatHeld "stick" 0 (povDirections 0)⟩ : State)),
      (4500, ⟨hatHeld "stick" 0 (povDirections 4500)⟩), (35000, ⟨hatHeld "stick" 0 [0]⟩)],
      "ptt" ∈ active binds p.2 :=
  hat_nudged _ "ptt" _ true "stick" 0 0 (by decide) rfl (List.mem_singleton_self _)
    (fun id' list' hlist b' hb' m hm => by
      obtain rfl | hne := eq_or_ne id' "ptt"
      · cases hlist
        rw [List.mem_singleton.1 hb'] at hm
        cases hm
      · rw [AList.lookup_insert_ne hne] at hlist
        cases hlist) _ (by decide) (by decide)

/-! ## What a capture takes -/

theorem hat_hatButton (h : hat * hatDirs + dir < 65408) (hdir : dir < hatDirs) :
    (hatButton hat dir).isHat = true ∧ (hatButton hat dir).hat = (hat, dir) := by
  unfold hatDirs at h hdir
  have hnat : (UInt16.ofNat (hat * hatDirs + dir)).toNat = hat * 8 + dir :=
    UInt16.toNat_ofNat_of_lt (by simp only [UInt16.size]; unfold hatDirs; omega)
  have hsum : (hatButton hat dir).toNat = 128 + (hat * 8 + dir) := by
    rw [hatButton, UInt16.toNat_add, hnat]
    exact Nat.mod_eq_of_lt (by simp only [hatBase, UInt16.reduceToNat]; omega)
  have hge : hatBase ≤ hatButton hat dir := by
    rw [UInt16.le_iff_toNat_le, hsum]
    exact Nat.le_add_right _ _
  refine ⟨decide_eq_true hge, ?_⟩
  have hsub : (hatButton hat dir - hatBase).toNat = hat * 8 + dir := by
    rw [UInt16.toNat_sub_of_le _ _ hge, hsum]
    exact Nat.add_sub_cancel_left _ _
  simp only [Button.hat, hsub, hatDirs, Prod.mk.injEq]
  omega

/-- Nothing of the hat is in the set. -/
def Elsewhere (device : DeviceID) (hat : ℕ) (others : Finset JoyButton) : Prop :=
  ∀ b ∈ others, b.device = device → b.button.isHat = true → b.button.hat.1 ≠ hat

theorem mem_hatHeld {b : JoyButton} {dirs : List ℕ} :
    b ∈ hatHeld device hat dirs ↔ ∃ e ∈ dirs, b = ⟨device, hatButton hat e⟩ := by
  simp only [hatHeld, List.mem_toFinset, List.mem_map, eq_comm]

theorem of_mem_expand {e : ℕ} (hdir : dir < hatDirs) (he : e ∈ expandHatDirection dir) :
    e < hatDirs ∧ (e ≠ dir → dir % 2 = 1 ∧ e % 2 = 0 ∧ e ∈ (expandHatDirection dir).tail) := by
  unfold hatDirs at hdir ⊢
  unfold expandHatDirection at he ⊢
  split at he
  · obtain rfl := List.mem_singleton.1 he
    exact ⟨hdir, fun hne => absurd rfl hne⟩
  · simp only [List.mem_cons, List.not_mem_nil, or_false] at he
    simp only [if_neg ‹_›, List.tail_cons, List.mem_cons, List.not_mem_nil, or_false]
    omega

theorem not_mem_tail : dir ∉ (expandHatDirection dir).tail := by
  unfold expandHatDirection
  split
  · simp
  · simp only [List.tail_cons, List.mem_cons, List.not_mem_nil, or_false]
    omega

theorem diagonalCardinals_eq {b : JoyButton} (hhat : b.button.isHat = true) :
    diagonalCardinals b = if b.button.hat.2 % 2 = 0 then ∅ else
      hatHeld b.device b.button.hat.1 (expandHatDirection b.button.hat.2).tail := by
  rw [diagonalCardinals, if_neg (by rw [hhat]; decide)]
  rfl

theorem hat_range {b : Button} (h : b.isHat = true) {e : ℕ} (he : e < hatDirs) :
    b.hat.2 < hatDirs ∧ b.hat.1 * hatDirs + e < 65408 := by
  have hge : hatBase ≤ b := of_decide_eq_true h
  have hlt := b.toNat_lt
  have hsub : (b - hatBase).toNat = b.toNat - 128 := UInt16.toNat_sub_of_le _ _ hge
  have hnat : 128 ≤ b.toNat := UInt16.le_iff_toNat_le.1 hge
  simp only [Button.hat, hsub, hatDirs] at he ⊢
  omega

theorem decode {e : ℕ} (hhat : hat < hatCount) (he : e < hatDirs) :
    (hatButton hat e).isHat = true ∧ (hatButton hat e).hat = (hat, e) :=
  hat_hatButton (by unfold hatDirs hatCount at *; omega) he

section

variable {others others' seen : Finset JoyButton} (hhat : hat < hatCount) (hdir : dir < hatDirs)
  (ho : Elsewhere device hat others)

include hhat hdir ho

/-- The direction of the hat is no cardinal of a diagonal that is held. -/
theorem not_mem_cardinals : ⟨device, hatButton hat dir⟩ ∉
    (others ∪ hatHeld device hat (expandHatDirection dir)).biUnion diagonalCardinals := by
  intro hmem
  obtain ⟨b, hb, hin⟩ := Finset.mem_biUnion.1 hmem
  by_cases hbhat : b.button.isHat = true
  · rw [diagonalCardinals_eq hbhat] at hin
    split at hin
    · simp at hin
    · rename_i hodd
      obtain ⟨e, he, heq⟩ := mem_hatHeld.1 hin
      obtain ⟨hdevice, hbutton⟩ := JoyButton.mk.inj heq
      have hlt := (of_mem_expand (hat_range hbhat hdir).1 (List.mem_of_mem_tail he)).1
      have hdecode := (hat_hatButton (hat_range hbhat hlt).2 hlt).2
      rw [← hbutton, (decode hhat hdir).2] at hdecode
      obtain ⟨hsame, rfl⟩ := Prod.mk.inj hdecode
      obtain hb | hb := Finset.mem_union.1 hb
      · exact ho b hb hdevice.symm hbhat hsame.symm
      · obtain ⟨e', he', rfl⟩ := mem_hatHeld.1 hb
        have hexpand := of_mem_expand hdir he'
        have hdecode' := (decode hhat hexpand.1).2
        rw [hdecode'] at hodd he
        obtain rfl | hne := eq_or_ne e' dir
        · exact not_mem_tail he
        · exact hodd (hexpand.2 hne).2.1
  · simp [diagonalCardinals, hbhat] at hin

theorem fresh_eq (hsub : others' ⊆ others) :
    suppressDiagonalCardinals
        (((others' ∪ hatHeld device hat (expandHatDirection dir)) \
          others.filter (· ∈ others' ∪ hatHeld device hat (expandHatDirection dir))) \ seen)
        (others' ∪ hatHeld device hat (expandHatDirection dir)) =
      {⟨device, hatButton hat dir⟩} \ seen := by
  have ho' : Elsewhere device hat others' := fun b hb => ho b (hsub hb)
  have hself : dir ∈ expandHatDirection dir := by
    unfold expandHatDirection
    split <;> simp
  have hout : ∀ e < hatDirs, (⟨device, hatButton hat e⟩ : JoyButton) ∉ others := fun e he hmem => by
    obtain ⟨hishat, hdecode⟩ := decode hhat he
    exact ho _ hmem rfl hishat (by rw [hdecode])
  have hnone := not_mem_cardinals hhat hdir ho'
  ext b
  simp only [suppressDiagonalCardinals, Finset.mem_sdiff, Finset.mem_union, Finset.mem_filter,
    Finset.mem_singleton]
  constructor
  · rintro ⟨⟨⟨hb, hold⟩, hseen⟩, hcard⟩
    obtain hb | hb := hb
    · exact absurd ⟨hsub hb, .inl hb⟩ hold
    · obtain ⟨e, he, rfl⟩ := mem_hatHeld.1 hb
      refine ⟨?_, hseen⟩
      by_contra hne
      have hned : e ≠ dir := fun h => hne (by rw [h])
      obtain ⟨hodd, -, htail⟩ := (of_mem_expand hdir he).2 hned
      -- a cardinal of the diagonal that is held
      obtain ⟨hishat, hdecode⟩ := decode hhat hdir
      refine hcard (Finset.mem_biUnion.2 ⟨⟨device, hatButton hat dir⟩, ?_, ?_⟩)
      · exact Finset.mem_union_right _ (mem_hatHeld.2 ⟨dir, hself, rfl⟩)
      · rw [diagonalCardinals_eq hishat, hdecode, if_neg (by omega)]
        exact mem_hatHeld.2 ⟨e, htail, rfl⟩
  · rintro ⟨rfl, hseen⟩
    exact ⟨⟨⟨.inr (mem_hatHeld.2 ⟨dir, hself, rfl⟩), fun h => hout dir hdir h.1⟩, hseen⟩, hnone⟩

omit hdir in
theorem filter_held {dirs : List ℕ} (hdirs : ∀ e ∈ dirs, e < hatDirs) (hsub : others' ⊆ others) :
    others.filter (· ∈ others' ∪ hatHeld device hat dirs) = others' := by
  ext b
  simp only [Finset.mem_filter, Finset.mem_union]
  refine ⟨?_, fun hb => ⟨hsub hb, .inl hb⟩⟩
  rintro ⟨hb, hb' | hb'⟩
  · exact hb'
  · obtain ⟨e, he, rfl⟩ := mem_hatHeld.1 hb'
    obtain ⟨hishat, hdecode⟩ := decode hhat (hdirs e he)
    exact absurd (by rw [hdecode]) (ho _ hb rfl hishat)

/-- A sample with the hat held; it is new in the first of them. -/
theorem feed_held {order : List JoyButton} {done : ℕ} (hsub : others' ⊆ others)
    (hnew : order ++ ({⟨device, hatButton hat dir⟩} \ seen : Finset JoyButton).sort =
      [⟨device, hatButton hat dir⟩])
    (hseen : seen ⊆ {⟨device, hatButton hat dir⟩}) :
    CaptureState.feed ⟨some others, order, seen, done⟩
        ⟨others' ∪ hatHeld device hat (expandHatDirection dir)⟩ =
      .inl ⟨some others', [⟨device, hatButton hat dir⟩], {⟨device, hatButton hat dir⟩}, done⟩ := by
  have hself : dir ∈ expandHatDirection dir := by
    unfold expandHatDirection
    split <;> simp
  have hheld : (⟨device, hatButton hat dir⟩ : JoyButton) ∈
      hatHeld device hat (expandHatDirection dir) := mem_hatHeld.2 ⟨dir, hself, rfl⟩
  have hfilter := filter_held hhat ho (fun e he => (of_mem_expand hdir he).1) hsub
  simp only [CaptureState.feed, State.isHeld, decide_eq_true_eq]
  rw [fresh_eq hhat hdir ho hsub, hfilter, hnew]
  simp [State.isHeld, hheld, Finset.union_sdiff_of_subset hseen]

end

/-- Samples up to the one that completes the capture. -/
def CaptureState.feedAll (c : CaptureState) : List State → CaptureState ⊕ JoyBinding
  | [] => .inl c
  | s :: samples =>
    match c.feed s with
    | .inl c' => c'.feedAll samples
    | .inr b => .inr b

theorem feed_released {b : JoyButton} {others after : Finset JoyButton} {done : ℕ}
    (hsub : after ⊆ others) (hb : b ∉ after) :
    CaptureState.feed ⟨some others, [b], {b}, done⟩ ⟨after⟩ = .inr ⟨b.device, b.button, none⟩ := by
  have hfilter : others.filter (· ∈ after) = after := by
    rw [Finset.filter_mem_eq_inter, Finset.inter_eq_right.2 hsub]
  have hfresh : suppressDiagonalCardinals ((after \ after) \ {b}) after = ∅ := by
    simp [suppressDiagonalCardinals]
  simp only [CaptureState.feed, State.isHeld, decide_eq_true_eq]
  rw [hfilter, hfresh]
  simp [State.isHeld, hb, CaptureState.binding]

theorem feedAll_held (hhat : hat < hatCount) (hdir : dir < hatDirs) {done : ℕ}
    {after : Finset JoyButton} : ∀ (during : List (Finset JoyButton)) {others : Finset JoyButton},
    Elsewhere device hat others → (others :: during ++ [after]).IsChain (· ⊇ ·) →
    CaptureState.feedAll
        ⟨some others, [⟨device, hatButton hat dir⟩], {⟨device, hatButton hat dir⟩}, done⟩
        (during.map (fun others => ⟨others ∪ hatHeld device hat (expandHatDirection dir)⟩) ++
          [⟨after⟩]) = .inr ⟨device, hatButton hat dir, none⟩
  | [], others, ho, hless => by
    have hsub : after ⊆ others := (List.isChain_cons_cons.1 hless).1
    have hout : (⟨device, hatButton hat dir⟩ : JoyButton) ∉ after := fun hmem => by
      obtain ⟨hishat, hdecode⟩ := decode hhat hdir
      exact ho _ (hsub hmem) rfl hishat (by rw [hdecode])
    simp only [List.map_nil, List.nil_append, CaptureState.feedAll, feed_released hsub hout]
  | others' :: during, others, ho, hless => by
    have hsub : others' ⊆ others := (List.isChain_cons_cons.1 hless).1
    rw [List.map_cons, List.cons_append, CaptureState.feedAll,
      feed_held hhat hdir ho hsub (by simp) subset_rfl]
    exact feedAll_held hhat hdir during (fun b hb => ho b (hsub hb))
      (List.isChain_cons_cons.1 hless).2

/-- **A capture takes one direction.** A capture begins while the hat is at rest; then the hat is
held in any direction, over any number of samples, and let go of. Whatever else was held when the
capture began and is let go of meanwhile, the capture is of that direction and of it alone. -/
theorem hat_captured (device : DeviceID) (hat dir done : ℕ) (hhat : hat < hatCount)
    (hdir : dir < hatDirs) (before after : Finset JoyButton) (during : List (Finset JoyButton))
    (hother : Elsewhere device hat before) (hheld : during ≠ [])
    (hless : (before :: during ++ [after]).IsChain (· ⊇ ·)) :
    (CaptureState.new done).feedAll (⟨before⟩ ::
      during.map (fun others => ⟨others ∪ hatHeld device hat (expandHatDirection dir)⟩) ++
        [⟨after⟩]) = .inr ⟨device, hatButton hat dir, none⟩ := by
  obtain _ | ⟨others, during⟩ := during
  · exact absurd rfl hheld
  have hsub : others ⊆ before := (List.isChain_cons_cons.1 hless).1
  rw [List.map_cons, List.cons_append, List.cons_append, CaptureState.feedAll]
  simp only [CaptureState.feed, CaptureState.new]
  rw [CaptureState.feedAll, feed_held hhat hdir hother hsub (by simp) (Finset.empty_subset _)]
  exact feedAll_held hhat hdir during (fun b hb => hother b (hsub hb))
    (List.isChain_cons_cons.1 hless).2

/-- The stick's trigger is held from the start, and let go of while the hat is up and right. -/
theorem hat_captured_nudge : (CaptureState.new 0).feedAll
    [⟨{⟨"stick", 0⟩}⟩, ⟨{⟨"stick", 0⟩} ∪ hatHeld "stick" 1 (expandHatDirection 1)⟩,
      ⟨∅ ∪ hatHeld "stick" 1 (expandHatDirection 1)⟩, ⟨∅⟩] =
      .inr ⟨"stick", hatButton 1 1, none⟩ := by
  have h := hat_captured "stick" 1 1 0 (by decide) (by decide) {⟨"stick", 0⟩} ∅ [{⟨"stick", 0⟩}, ∅]
    (by unfold Elsewhere; decide) (by decide) (by decide)
  simpa only [List.map_cons, List.map_nil, List.cons_append, List.nil_append] using h

end VcsClient.Joystick
