import VcsClient.App.OneOwner

/-!
# What the live session was dialled with

`Followed`: a goroutine is about to take a new generation, or every dial of the
current generation read the credentials the store holds and so did the live
session's, unless such a dial is to replace it.

Two steps break it, and `Follows` leaves them out. A redirect that finds no live
session goes away, though a dial that read the old credentials may be under way;
and a dial that fails leaves the old session installed.
-/

namespace VcsClient.App

open VcsClient.Lib VcsClient.State VcsClient.Voice

/-- A generation is about to be taken. -/
def Task.announces : Task → Bool
  | .live | .capture _ => true
  | _ => false

/-- What the goroutine has read of the credentials is what the store holds. -/
def Task.Fresh (st : Store) (inputs : ℕ → DialInputs) : Task → Prop
  | .self _ secret addr | .config _ secret addr _ =>
    secret = st.voiceSecret ∧ addr = st.coalitionVoiceAddr
  | .dial _ inputs => inputs.Current st
  | .dialing _ sid | .swap _ sid => (inputs sid).Current st
  | _ => True

instance (st : Store) (inputs : ℕ → DialInputs) : ∀ t, Decidable (Task.Fresh st inputs t)
  | .self _ _ _ | .config _ _ _ _ => inferInstanceAs (Decidable (_ ∧ _))
  | .dial _ inputs => inferInstanceAs (Decidable (inputs.Current st))
  | .dialing _ sid | .swap _ sid => inferInstanceAs (Decidable ((inputs sid).Current st))
  | .live | .capture _ | .inputs _ | .clear _ | .reject _ | .store _ _ _ _ | .close _ _
  | .unavailable _ => .isTrue trivial

namespace Owner

def inputs (p : Owner) (sid : ℕ) : DialInputs := (p.sessions sid).inputs

/-- The live session, if any, was dialled with what the store holds. -/
def LiveFresh (p : Owner) : Prop := ∀ sid ∈ p.sess, (p.inputs sid).Current p.st

instance (p : Owner) : Decidable p.LiveFresh :=
  inferInstanceAs (Decidable (∀ sid ∈ p.sess, (p.inputs sid).Current p.st))

/-- No dial of the current generation has read other credentials. -/
def UpToDate (p : Owner) : Prop :=
  ∀ e ∈ p.tasks.entries, e.2.gen = some p.gen → e.2.Fresh p.st p.inputs

instance (p : Owner) : Decidable p.UpToDate :=
  inferInstanceAs (Decidable (∀ e ∈ p.tasks.entries, _ → _))

/-- The dial does not come to a session. -/
def fails (parse : Guid → Option UUID) (p : Owner) (err : Option Cause) : Task → Bool
  | .inputs _ => decide (p.st.voiceSecret = "")
  | .self _ _ _ => (parse p.st.selfGuid).isNone
  | .dial _ inputs => decide (inputs.secret.utf8ByteSize ≠ voiceSecretLen)
  | .dialing _ _ => err.isSome
  | _ => false

/-- A redirect finds no live session only when no dial with older credentials is
under way; a dial of the current generation fails only when the live session
needs no replacing. -/
def FollowsTask (parse : Guid → Option UUID) (p : Owner) (err : Option Cause) : Task → Prop
  | .live => p.sess = none → p.UpToDate
  | t => t.gen = some p.gen → p.fails parse err t = true → p.LiveFresh

instance (parse : Guid → Option UUID) (p : Owner) (err : Option Cause) :
    ∀ t, Decidable (p.FollowsTask parse err t)
  | .live => inferInstanceAs (Decidable (p.sess = none → p.UpToDate))
  | .capture _ | .inputs _ | .self _ _ _ | .config _ _ _ _ | .dial _ _ | .dialing _ _ | .swap _ _
  | .clear _ | .reject _ | .store _ _ _ _ | .close _ _ | .unavailable _ =>
    inferInstanceAs (Decidable (_ = _ → _ = true → p.LiveFresh))

def Follows (parse : Guid → Option UUID) (p : Owner) : OwnerOp → Prop
  | .run id err => ∀ t ∈ p.tasks.lookup id, p.FollowsTask parse err t
  | _ => True

instance (parse : Guid → Option UUID) (p : Owner) : ∀ op, Decidable (p.Follows parse op)
  | .run id err => inferInstanceAs (Decidable (∀ t ∈ p.tasks.lookup id, p.FollowsTask parse err t))
  | .start _ | .restart _ | .stop _ | .change _ _ | .self _ | .configure _ | .commit _ _ _
  | .deliver _ => .isTrue trivial

variable {parse : Guid → Option UUID} {p p' : Owner} {op : OwnerOp} {id : ℕ} {t : Task}
  {o : Option Task} {err : Option Cause}

theorem upToDate_iff : p.UpToDate ↔ ∀ id t, p.tasks.lookup id = some t →
    t.gen = some p.gen → t.Fresh p.st p.inputs :=
  ⟨fun h id t ht => h ⟨id, t⟩ (AList.mem_lookup_iff.1 ht),
    fun h e he => h e.1 e.2 (AList.mem_lookup_iff.2 he)⟩

/-- A dial of the current generation is under way. -/
def Dialling (p : Owner) : Prop := ∃ id t, p.tasks.lookup id = some t ∧ t.gen = some p.gen

def Followed (p : Owner) : Prop :=
  (∃ id t, p.tasks.lookup id = some t ∧ t.announces = true) ∨
    p.UpToDate ∧ (p.LiveFresh ∨ p.Dialling)

theorem followed_init (st : Store) (config : DialConfig) : (init st config).Followed :=
  .inr ⟨fun e he => absurd he (by simp [init]), .inl fun sid hs => by cases hs⟩

theorem Task.fresh_congr {st : Store} {inputs inputs' : ℕ → DialInputs}
    (h : ∀ sid ∈ t.hands, inputs' sid = inputs sid) (hf : t.Fresh st inputs) :
    t.Fresh st inputs' := by
  cases t with
  | dialing gen sid | swap gen sid =>
    change (inputs' sid).Current st
    rw [h sid (by simp [Task.hands])]
    exact hf
  | _ => exact hf

/-- A goroutine goes on that announced nothing, keeping its generation or with
the live session fresh. -/
theorem Followed.goes (h : p.Followed) (hA : p.Accounted) (ht : p.tasks.lookup id = some t)
    (hta : t.announces = false) (hst : p'.st = p.st) (hsess : p'.sess = p.sess)
    (hgen : p'.gen = p.gen) (htasks : p'.tasks = assign p.tasks id o)
    (hin : ∀ sid < p.opened, p'.inputs sid = p.inputs sid)
    (hfresh : ∀ t' ∈ o, t'.gen = some p.gen →
      t.gen = some p.gen ∧ (t.Fresh p.st p.inputs → t'.Fresh p.st p'.inputs))
    (hkeep : t.gen = some p.gen → (∃ t' ∈ o, t'.gen = some p.gen) ∨ p.LiveFresh) :
    p'.Followed := by
  rcases h with ⟨id', t', ht', ha⟩ | ⟨hup, hlive⟩
  · have hne : id' ≠ id := by
      rintro rfl
      rw [ht] at ht'
      cases ht'
      rw [hta] at ha
      cases ha
    exact .inl ⟨id', t', by rw [htasks, lookup_assign, if_neg hne]; exact ht', ha⟩
  · rw [upToDate_iff] at hup
    refine .inr ⟨?_, ?_⟩
    · rw [upToDate_iff, htasks, hgen, hst]
      refine forall_assign (fun id' t' ht' hg => ?_) fun t' ht' hg => ?_
      · exact Task.fresh_congr (fun sid hs => hin sid (hA.in_hands ht' hs).1) (hup id' t' ht' hg)
      · obtain ⟨hg', hf⟩ := hfresh t' ht' hg
        exact hf (hup id t ht hg')
    · have hkeepLive : p.LiveFresh → p'.LiveFresh := fun hl sid hs => by
        rw [hsess] at hs
        rw [hin sid (hA.installed hs).1, hst]
        exact hl sid hs
      rcases hlive with hl | ⟨id', t', ht', hg⟩
      · exact .inl (hkeepLive hl)
      · by_cases he : id' = id
        · subst he
          rw [ht] at ht'
          cases ht'
          rcases hkeep hg with ⟨t', ho, hg'⟩ | hl
          · exact .inr ⟨id', t', by rw [htasks, lookup_assign, if_pos rfl]; exact ho,
              hgen ▸ hg'⟩
          · exact .inl (hkeepLive hl)
        · exact .inr ⟨id', t', by rw [htasks, lookup_assign, if_neg he]; exact ht', hgen ▸ hg⟩

theorem Followed.entered (h : p.Followed) (hid : p.tasks.lookup id = none) (ht : t.gen = none) :
    { p with tasks := assign p.tasks id (some t) }.Followed := by
  have hne : ∀ {id' t'}, p.tasks.lookup id' = some t' →
      (assign p.tasks id (some t)).lookup id' = some t' := fun {id' t'} ht' => by
    rw [lookup_assign, if_neg, ht']
    rintro rfl
    rw [hid] at ht'
    cases ht'
  rcases h with ⟨id', t', ht', ha⟩ | ⟨hup, hlive⟩
  · exact .inl ⟨id', t', hne ht', ha⟩
  · rw [upToDate_iff] at hup
    refine .inr ⟨?_, hlive.imp (fun hl => hl) fun ⟨id', t', ht', hg⟩ => ⟨id', t', hne ht', hg⟩⟩
    rw [upToDate_iff]
    refine forall_assign hup fun t' ht' hg => ?_
    cases ht'
    rw [ht] at hg
    cases hg

theorem Followed.advanced (h : p.Followed) (hA : p.Accounted) (ht : p.tasks.lookup id = some t)
    (hok : p.FollowsTask parse err t) (ha : p.Advances parse t o) :
    { p with tasks := assign p.tasks id o }.Followed := by
  cases ha with
  | dead hs =>
    have hup : p.UpToDate := hok hs
    rw [upToDate_iff] at hup
    refine .inr ⟨?_, .inl fun sid hsid => ?_⟩
    · rw [upToDate_iff]
      exact forall_assign hup (by simp)
    · change p.sess = some sid at hsid
      rw [hs] at hsid
      cases hsid
  | live hs => exact .inl ⟨id, _, by rw [lookup_assign, if_pos rfl], rfl⟩
  | noSecret hs =>
    exact h.goes (o := some (.unavailable false)) hA ht rfl rfl rfl rfl rfl (fun _ _ => rfl)
      (by simp [Task.gen]) fun hg => .inr (hok hg (by simp [fails, hs]))
  | @inputs g =>
    refine h.goes (o := some (.self g p.st.voiceSecret p.st.coalitionVoiceAddr)) hA ht rfl rfl rfl
      rfl rfl (fun _ _ => rfl) (fun t' ht' hg => ?_) fun hg => .inl ⟨_, rfl, hg⟩
    cases ht'
    exact ⟨hg, fun _ => ⟨rfl, rfl⟩⟩
  | noSelf hs =>
    exact h.goes (o := some (.unavailable false)) hA ht rfl rfl rfl rfl rfl (fun _ _ => rfl)
      (by simp [Task.gen]) fun hg => .inr (hok hg (by simp [fails, hs]))
  | @self g secret addr guid =>
    refine h.goes (o := some (.config g secret addr guid)) hA ht rfl rfl rfl rfl rfl
      (fun _ _ => rfl) (fun t' ht' hg => ?_) fun hg => .inl ⟨_, rfl, hg⟩
    cases ht'
    exact ⟨hg, fun hf => hf⟩
  | @config g secret addr guid =>
    refine h.goes (o := some (.dial g ⟨guid, secret, addr, addr, p.config.host, p.config.port,
      p.config.serverURL⟩)) hA ht rfl rfl rfl rfl rfl (fun _ _ => rfl) (fun t' ht' hg => ?_)
      fun hg => .inl ⟨_, rfl, hg⟩
    cases ht'
    exact ⟨hg, fun hf => ⟨hf.1, hf.2, hf.2⟩⟩
  | badSecret hs =>
    exact h.goes (o := none) hA ht rfl rfl rfl rfl rfl (fun _ _ => rfl)
      (by simp) fun hg => .inr (hok hg (by simp [fails, hs]))
  | @stale g sid hg =>
    exact h.goes (o := some (.reject sid)) hA ht rfl rfl rfl rfl rfl (fun _ _ => rfl)
      (by simp [Task.gen]) fun hg' => absurd (Option.some.inj hg') hg
  | @closed after =>
    exact h.goes (o := after.task) hA ht rfl rfl rfl rfl rfl (fun _ _ => rfl)
      (by cases after <;> simp [AfterSet.task, Task.gen]) fun hg => by cases hg

theorem Followed.ran (h : p.Followed) (hA : p.Accounted) (hB : p.Bounded)
    (ht : p.tasks.lookup id = some t) (hok : p.FollowsTask parse err t)
    (hm : p.TaskMoves parse id err t p') : p'.Followed := by
  -- a new generation leaves the dials of the older ones behind
  have hlt : ∀ id' t', p.tasks.lookup id' = some t' → t'.gen ≠ some (p.gen + 1) :=
    fun id' t' ht' hg => by
      have := hB id' t' ht' _ hg
      omega
  have hsame : ∀ {sid : ℕ} {s : Dialled}, s.inputs = (p.sessions sid).inputs →
      ∀ i < p.opened, (Function.update p.sessions sid s i).inputs = p.inputs i :=
    fun hs i _ => update_keeps Dialled.inputs hs i
  have hclosed : ∀ (sid : ℕ) (st : SessionState) (err : Option Cause),
      ((p.sessions sid).setState st err).inputs = (p.sessions sid).inputs := fun sid st err => by
    unfold Dialled.setState
    split <;> rfl
  cases hm with
  | advanced ha => exact h.advanced hA ht hok ha
  | captured seen =>
    refine .inr ⟨?_, .inr ⟨id, .inputs (p.gen + 1), by rw [lookup_assign, if_pos rfl], rfl⟩⟩
    rw [upToDate_iff]
    refine forall_assign (fun id' t' ht' hg => absurd hg (hlt id' t' ht')) fun t' ht' _ => ?_
    cases ht'
    exact trivial
  | dialing gen inputs =>
    refine h.goes (o := some (.dialing gen p.opened)) hA ht rfl rfl rfl rfl rfl (fun i hi => ?_)
      (fun t' ht' hg => ?_) fun hg => .inl ⟨_, rfl, hg⟩
    · simp [Owner.inputs, Function.update_of_ne (Nat.ne_of_lt hi)]
    · cases ht'
      refine ⟨hg, fun hf => ?_⟩
      change (Function.update p.sessions p.opened (.dial inputs) p.opened).inputs.Current p.st
      rw [Function.update_self]
      exact hf
  | dialled gen s =>
    refine h.goes (o := some (.swap gen s)) hA ht rfl rfl rfl rfl rfl (hsame rfl)
      (fun t' ht' hg => ?_) fun hg => .inl ⟨_, rfl, hg⟩
    cases ht'
    refine ⟨hg, fun hf => ?_⟩
    change (Function.update p.sessions s _ s).inputs.Current p.st
    rw [Function.update_self]
    exact hf
  | failed gen s cause he =>
    exact h.goes (o := none) hA ht rfl rfl rfl rfl rfl (hsame (hclosed s _ _)) (by simp)
      fun hg => .inr (hok hg (by simp [fails, he]))
  | installed gen s hg =>
    rcases h with ⟨id', t', ht', ha⟩ | ⟨hup, -⟩
    · have hne : id' ≠ id := by
        rintro rfl
        rw [ht] at ht'
        cases ht'
        cases ha
      exact .inl ⟨id', t', by rw [lookup_assign, if_neg hne]; exact ht', ha⟩
    · rw [upToDate_iff] at hup
      refine .inr ⟨?_, .inl fun sid hsid => ?_⟩
      · rw [upToDate_iff]
        refine forall_assign hup fun t' ht' hg' => ?_
        cases ht'
        cases hg'
      · cases hsid
        exact hup id _ ht (congrArg some hg)
  | cleared restart =>
    refine .inr ⟨?_, .inl fun sid hsid => by cases hsid⟩
    rw [upToDate_iff]
    refine forall_assign (fun id' t' ht' hg => absurd hg (hlt id' t' ht')) fun t' ht' hg => ?_
    cases ht'
    cases hg
  | rejected s =>
    exact h.goes (o := none) hA ht rfl rfl rfl rfl rfl (hsame (hclosed s _ _)) (by simp)
      fun hg => by cases hg
  | stored sess n old after =>
    exact h.goes (o := some (.close old after)) hA ht rfl rfl rfl rfl rfl (fun _ _ => rfl)
      (by simp [Task.gen]) fun hg => by cases hg
  | closed old after =>
    exact h.goes (o := after.task) hA ht rfl rfl rfl rfl rfl (hsame (hclosed old _ _))
      (by cases after <;> simp [AfterSet.task, Task.gen]) fun hg => by cases hg
  | unavailable restart =>
    exact h.goes (o := if restart then some (.capture none) else none) hA ht rfl rfl rfl rfl rfl
      (fun _ _ => rfl) (by cases restart <;> simp [Task.gen]) fun hg => by cases hg

/-- What the sessions were dialled with, and the store, are all that matters. -/
theorem Followed.congr (h : p.Followed) (hst : p'.st.voiceSecret = p.st.voiceSecret)
    (ha : p'.st.coalitionVoiceAddr = p.st.coalitionVoiceAddr) (hsess : p'.sess = p.sess)
    (hgen : p'.gen = p.gen) (htasks : p'.tasks = p.tasks) (hin : p'.inputs = p.inputs) :
    p'.Followed := by
  have hcur : ∀ i : DialInputs, i.Current p'.st ↔ i.Current p.st := fun i => by
    unfold DialInputs.Current
    rw [hst, ha]
  rcases h with hann | ⟨hup, hlive⟩
  · exact .inl (by rw [htasks]; exact hann)
  · refine .inr ⟨fun e he hg => ?_, hlive.imp (fun hl sid hs => ?_) fun hd => ?_⟩
    · rw [htasks] at he
      rw [hgen] at hg
      have hf := hup e he hg
      rw [hin]
      revert hf
      cases e.2 <;> simp only [Task.Fresh, hst, ha, hcur] <;> exact fun hf => hf
    · rw [hsess] at hs
      rw [hin]
      exact (hcur _).2 (hl sid hs)
    · unfold Dialling
      rw [htasks, hgen]
      exact hd

theorem Followed.moves (h : p.Followed) (hA : p.Accounted) (hB : p.Bounded)
    (hok : p.Follows parse op) (hm : p.Moves parse op p') : p'.Followed := by
  cases hm with
  | entered hid ht => exact h.entered hid (by cases ht <;> rfl)
  | @changed id c hid st => exact .inl ⟨id, .live, by rw [lookup_assign, if_pos rfl], rfl⟩
  | told st hs ha => exact h.congr hs ha rfl rfl rfl rfl
  | configured config => exact h
  | ran ht hm => exact h.ran hA hB ht (hok _ ht) hm
  | @committed sid st err hr hc =>
    refine h.congr rfl rfl rfl rfl rfl (funext fun i => update_keeps Dialled.inputs ?_ i)
    unfold Dialled.setState
    split <;> rfl
  | delivered hq hsid =>
    refine h.congr rfl rfl rfl rfl rfl (funext fun i => update_keeps Dialled.inputs ?_ i)
    rfl

theorem Followed.rest (h : p.Followed) (hrest : p.tasks = ∅) : p.LiveFresh := by
  rcases h with ⟨id, t, ht, -⟩ | ⟨-, hl | ⟨id, t, ht, -⟩⟩
  · simp [hrest] at ht
  · exact hl
  · simp [hrest] at ht

end Owner

/-- **Redirects converge**: at rest the live session was dialled with the secret
and the address the store holds, along every run in which no redirect goes away
while a dial with older credentials is under way and no dial fails that was to
replace a session. -/
theorem redirects_followed (parse : Guid → Option UUID) (st : Store) (config : DialConfig)
    (ops : List OwnerOp) (p : Owner)
    (hok : Meets (Owner.step parse) (Owner.Follows parse) (.init st config) ops)
    (hrun : exec (Owner.step parse) (.init st config) ops = some p) :
    p.tasks = ∅ → p.LiveFresh := by
  have h : p.Accounted ∧ p.Bounded ∧ p.Followed := exec_invariant
    (I := fun p : Owner => p.Accounted ∧ p.Bounded ∧ p.Followed)
    (fun _ _ _ h hok hs =>
      have ⟨hA, hB, hF⟩ := h
      have hm := Owner.step_moves hs
      ⟨hA.moves hm, hB.moves hm, hF.moves hA hB hok hm⟩)
    ⟨Owner.accounted_init st config, Owner.bounded_init st config,
      Owner.followed_init st config⟩ hok hrun
  exact h.2.2.rest

theorem redirects_followed_once : ∃ p, exec (Owner.step parseNil) disconnected
    (synced ++ connecting ++ [.run 0 none, .run 0 none] ++ redirecting) = some p ∧
      p.sess = some 1 ∧ (p.inputs 1).src.update = "b:1" ∧ (p.tasks = ∅ → p.LiveFresh) := by
  have hrun : (exec (Owner.step parseNil) disconnected
      (synced ++ connecting ++ [.run 0 none, .run 0 none] ++ redirecting)).map
        (fun p => (p.sess, (p.inputs 1).src.update)) = some (some 1, "b:1") := by decide +kernel
  obtain ⟨p, hp, hv⟩ := Option.map_eq_some_iff.1 hrun
  exact ⟨p, hp, congrArg Prod.fst hv, congrArg Prod.snd hv,
    redirects_followed parseNil .new ⟨"", 0, ""⟩ _ p (by decide +kernel) hp⟩

/-- **A redirect during the first dial is lost**: it comes after the inputs were
read and before the session is installed. -/
theorem early_redirect_lost : ∃ p, exec (Owner.step parseNil) disconnected
    (synced ++ [.start 0, .run 0 none, .run 0 none,
      .change 1 (.setVoiceAddresses "b:1" ""), .run 1 none] ++ List.replicate 7 (.run 0 none)) =
        some p ∧ p.tasks = ∅ ∧ p.sess = some 0 ∧ ¬p.LiveFresh := by
  have hrun : (exec (Owner.step parseNil) disconnected
      (synced ++ [.start 0, .run 0 none, .run 0 none,
        .change 1 (.setVoiceAddresses "b:1" ""), .run 1 none] ++
          List.replicate 7 (.run 0 none))).map
        (fun p => (p.tasks.entries.length, p.sess, decide p.LiveFresh)) =
      some (0, some 0, false) := by decide +kernel
  obtain ⟨p, hp, hv⟩ := Option.map_eq_some_iff.1 hrun
  simp only [Prod.mk.injEq, List.length_eq_zero_iff, decide_eq_false_iff_not] at hv
  exact ⟨p, hp, AList.ext hv.1, hv.2.1, hv.2.2⟩

end VcsClient.App
