import VcsClient.Hydrate.Guard

/-!
# Hydrated windows

In every run a window shows the newest state once every event has come, and the snapshot
guard takes no result that is older than a snapshot that has come (`Run.inv`, `Inv.newest`).

The argument is about the live handle, where its latest fetch started. While the fetch is
in flight and clean, no delta has come since; the result then has every delta that came, and
deltas that it has as well change nothing when they come again.
-/

namespace VcsClient.Hydrate

open VcsClient.Lib Sync

variable {σ δ : Type*} {S : System σ δ} {s s' : Sync σ δ} {f : Flight} {i moment : ℕ}

/-! ## Deliveries -/

/-- A delta has come since the fetch started. -/
def Pushed (s : Sync σ δ) (f : Flight) : Prop :=
  ∃ (j : ℕ) (d : δ), f.seen ≤ j ∧ j < s.delivered ∧ s.commits[j]? = some (.delta d)

/-- The store is a state of the backend with deltas on it, of which the state may have some. -/
def Fits (S : System σ δ) (s : Sync σ δ) (f : Flight) : Prop :=
  ∃ d m, f.seen ≤ d ∧ d ≤ s.delivered ∧ d ≤ m ∧ m ≤ s.commits.length ∧
    s.store = S.deltas.play (deltasOf ((s.commits.take s.delivered).drop d)) (s.stateAt S m)

theorem stateAt_commit (c : Commit σ δ) (h : moment ≤ s.commits.length) :
    ({ s with commits := s.commits ++ [c] } : Sync σ δ).stateAt S moment = s.stateAt S moment := by
  unfold stateAt
  rw [List.take_append_of_le_length h]

theorem deltasOf_deliver {cs : List (Commit σ δ)} {n d : ℕ} {c : Commit σ δ}
    (hc : cs[n]? = some c) (hd : d ≤ n) :
    deltasOf ((cs.take (n + 1)).drop d) =
      deltasOf ((cs.take n).drop d) ++ c.delta?.toList := by
  have hlt : n < cs.length := (List.getElem?_eq_some_iff.1 hc).1
  rw [List.take_add_one, hc, Option.toList_some,
    List.drop_append_of_le_length (by rw [List.length_take]; omega), deltasOf_append]
  congr 1

theorem stateAt_succ {c : Commit σ δ} (hc : s.commits[moment]? = some c) :
    s.stateAt S (moment + 1) = c.run S (s.stateAt S moment) := by
  unfold stateAt
  rw [List.take_add_one, hc, Option.toList_some, runCommits_concat]

theorem Pushed.commit (c : Commit σ δ) (hle : s.delivered ≤ s.commits.length) :
    Pushed { s with commits := s.commits ++ [c] } f ↔ Pushed s f := by
  have hsame : ∀ j, j < s.delivered → (s.commits ++ [c])[j]? = s.commits[j]? :=
    fun j hj => List.getElem?_append_left (by omega)
  constructor
  · rintro ⟨j, d, hseen, hj, hd⟩
    exact ⟨j, d, hseen, hj, hsame j hj ▸ hd⟩
  · rintro ⟨j, d, hseen, hj, hd⟩
    exact ⟨j, d, hseen, hj, (hsame j hj).trans hd⟩

theorem Pushed.skip {c : Commit σ δ} (hc : s.commits[s.delivered]? = some c)
    (hdelta : c.delta? = none) (f : Flight) :
    Pushed { s with delivered := s.delivered + 1 } f ↔ Pushed s f := by
  constructor
  · rintro ⟨j, d, hseen, hj, hd⟩
    obtain rfl | hlt : j = s.delivered ∨ j < s.delivered := by
      have hj' : j < s.delivered + 1 := hj
      omega
    · have hd' : s.commits[s.delivered]? = some (.delta d) := hd
      rw [hc] at hd'
      cases hd'
      cases hdelta
    · exact ⟨j, d, hseen, hlt, hd⟩
  · rintro ⟨j, d, hseen, hj, hd⟩
    exact ⟨j, d, hseen, Nat.lt_succ_of_lt hj, hd⟩

theorem Fits.commit (c : Commit σ δ) (hle : s.delivered ≤ s.commits.length) (h : Fits S s f) :
    Fits S { s with commits := s.commits ++ [c] } f := by
  obtain ⟨d, m, hseen, hd, hdm, hm, hstore⟩ := h
  refine ⟨d, m, hseen, hd, hdm, ?_, ?_⟩
  · rw [List.length_append]
    omega
  · rw [stateAt_commit c hm]
    show s.store = S.deltas.play (deltasOf (((s.commits ++ [c]).take s.delivered).drop d)) _
    rw [List.take_append_of_le_length hle, hstore]

theorem Fits.skip {c : Commit σ δ} (hc : s.commits[s.delivered]? = some c)
    (hdelta : c.delta? = none) (h : Fits S s f) :
    Fits S { s with delivered := s.delivered + 1 } f := by
  obtain ⟨d, m, hseen, hd, hdm, hm, hstore⟩ := h
  refine ⟨d, m, hseen, Nat.le_succ_of_le hd, hdm, hm, ?_⟩
  show s.store = S.deltas.play (deltasOf ((s.commits.take (s.delivered + 1)).drop d)) _
  rw [deltasOf_deliver hc hd, hdelta, Option.toList_none, List.append_nil]
  exact hstore

theorem Fits.push {d : δ} (hc : s.commits[s.delivered]? = some (.delta d)) (h : Fits S s f) :
    Fits S { s with delivered := s.delivered + 1, store := S.deltas.apply d s.store } f := by
  obtain ⟨k, m, hseen, hk, hkm, hm, hstore⟩ := h
  refine ⟨k, m, hseen, Nat.le_succ_of_le hk, hkm, hm, ?_⟩
  show S.deltas.apply d s.store =
    S.deltas.play (deltasOf ((s.commits.take (s.delivered + 1)).drop k)) _
  rw [deltasOf_deliver hc hk, Deltas.play_append, hstore]
  rfl

/-- What is looked at says enough of a state for the deltas. -/
def Respects {α : Type*} (S : System σ δ) (look : σ → α) : Prop :=
  ∀ d st st', look st = look st' → look (S.deltas.apply d st) = look (S.deltas.apply d st')

theorem Respects.play {α : Type*} {look : σ → α} (h : Respects S look) (ds : List δ) {st st' : σ}
    (hst : look st = look st') : look (S.deltas.play ds st) = look (S.deltas.play ds st') := by
  induction ds generalizing st st' with
  | nil => exact hst
  | cons d ds ih =>
    rw [Deltas.play_cons, Deltas.play_cons]
    exact ih (h d st st' hst)

/-- Where every change is reported the deltas lead from one state to a later one. -/
theorem look_stateAt {α : Type*} {look : σ → α} (hlook : Respects S look) {d n : ℕ} (hdn : d ≤ n)
    (hn : n ≤ s.commits.length)
    (hreport : ∀ (j : ℕ) c, d ≤ j → s.commits[j]? = some c →
      look (c.run S (s.stateAt S j)) = look (S.deltas.play c.delta?.toList (s.stateAt S j))) :
    look (s.stateAt S n) =
      look (S.deltas.play (deltasOf ((s.commits.take n).drop d)) (s.stateAt S d)) := by
  induction hdn with
  | refl =>
    rw [List.drop_eq_nil_of_le (List.length_take_le _ _)]
    rfl
  | @step n hdn ih =>
    obtain ⟨c, hc⟩ : ∃ c, s.commits[n]? = some c := ⟨_, List.getElem?_eq_getElem (by omega)⟩
    rw [stateAt_succ hc, hreport n c hdn hc, deltasOf_deliver hc hdn, Deltas.play_append]
    exact hlook.play _ (ih (by omega))

/-- **A window that has had every event** shows the newest state. -/
theorem Fits.newest {α : Type*} {look : σ → α} (hlook : Respects S look) (h : Fits S s f)
    (hall : s.delivered = s.commits.length)
    (hreport : ∀ (j : ℕ) c, f.seen ≤ j → s.commits[j]? = some c →
      look (c.run S (s.stateAt S j)) = look (S.deltas.play c.delta?.toList (s.stateAt S j))) :
    look s.store = look (s.newest S) := by
  obtain ⟨d, m, hseen, hd, hdm, hm, hstore⟩ := h
  have hreport' : ∀ (j : ℕ) c, d ≤ j → s.commits[j]? = some c →
      look (c.run S (s.stateAt S j)) = look (S.deltas.play c.delta?.toList (s.stateAt S j)) :=
    fun j c hj hc => hreport j c (Nat.le_trans hseen hj) hc
  -- the deltas that the fetched state has, and the ones it has not
  have hsplit : (s.commits.take s.commits.length).drop d =
      (s.commits.take m).drop d ++ (s.commits.take s.commits.length).drop m := by
    rw [List.take_length, ← List.drop_append_of_le_length (by rw [List.length_take]; omega),
      List.take_append_drop]
  have hmid := look_stateAt hlook hdm hm hreport'
  have hlast := look_stateAt hlook (Nat.le_trans hdm hm) (Nat.le_refl _) hreport'
  calc look s.store
      = look (S.deltas.play (deltasOf ((s.commits.take m).drop d) ++
          deltasOf ((s.commits.take s.commits.length).drop m)) (s.stateAt S m)) := by
        rw [hstore, hall, hsplit, deltasOf_append]
    _ = look (S.deltas.play (deltasOf ((s.commits.take m).drop d) ++
          deltasOf ((s.commits.take s.commits.length).drop m))
            (S.deltas.play (deltasOf ((s.commits.take m).drop d)) (s.stateAt S d))) :=
        hlook.play _ hmid
    _ = look (s.newest S) := by
        rw [Deltas.play_overlap, ← Deltas.play_append, ← deltasOf_append, ← hsplit]
        exact hlast.symm

/-! ## The live handle -/

/-- The deltas of the snapshot guard are the whole state. -/
def Whole (S : System σ δ) : Prop :=
  S.rule = .snapshot → ∀ d st st', S.deltas.apply d st = S.change d st'

/-- What is known of the live handle. -/
structure Current (S : System σ δ) (s : Sync σ δ) (i : ℕ) (f : Flight) : Prop where
  mounted : s.mounted = true
  enabled : f.handle.disposed = false
  /-- it was started after every `connected` that has come -/
  latest : ∀ j : ℕ, j < s.delivered → s.commits[j]? = some .rehydrate → j < f.seen
  clean : f.handle.inflight = true → f.handle.dirty = false → ¬Pushed s f
  dirtied : f.handle.dirty = true → Pushed s f
  /-- a result was taken -/
  fits : f.handle.inflight = false → (i, Call.onError) ∉ s.calls →
    S.rule = .snapshot ∨ (i, Call.warn) ∉ s.calls → Fits S s f
  /-- snapshots that came were written -/
  whole : S.rule = .snapshot → Pushed s f → Fits S s f

structure Inv (S : System σ δ) (s : Sync σ δ) : Prop where
  le : s.delivered ≤ s.commits.length
  order : ∀ (i : ℕ) f, s.handles[i]? = some f →
    f.seen ≤ f.since ∧ f.since ≤ s.commits.length ∧ f.seen ≤ s.delivered
  retired : ∀ (i : ℕ) f, s.handles[i]? = some f → s.live ≠ some i → f.handle.disposed = true
  current : ∀ i, s.live = some i → ∃ f, s.handles[i]? = some f ∧ Current S s i f
  /-- no result is taken that is older than a snapshot that had come -/
  fresh : S.rule = .snapshot → ∀ (i m n : ℕ), (i, Call.apply m n) ∈ s.calls → n ≤ s.commits.length ∧
    ∀ (j : ℕ) d, j < n → s.commits[j]? = some (.delta d) → j < m

theorem Inv.init : Inv S (Sync.init S) where
  le := Nat.le_refl 0
  order _ _ h := nomatch h
  retired _ _ h := nomatch h
  current _ h := nomatch h
  fresh _ _ _ _ h := nomatch h

theorem Current.commit (c : Commit σ δ) (hle : s.delivered ≤ s.commits.length)
    (h : Current S s i f) : Current S { s with commits := s.commits ++ [c] } i f where
  mounted := h.mounted
  enabled := h.enabled
  latest j hj hc := by
    have hj' : j < s.delivered := hj
    rw [List.getElem?_append_left (by omega)] at hc
    exact h.latest j hj hc
  clean hin hd := (Pushed.commit c hle).not.2 (h.clean hin hd)
  dirtied hd := (Pushed.commit c hle).2 (h.dirtied hd)
  fits hin he hw := (h.fits hin he hw).commit c hle
  whole hr hp := (h.whole hr ((Pushed.commit c hle).1 hp)).commit c hle

theorem Inv.commit (c : Commit σ δ) (h : Inv S s) :
    Inv S { s with commits := s.commits ++ [c] } where
  le := by
    have := h.le
    show s.delivered ≤ (s.commits ++ [c]).length
    rw [List.length_append]
    omega
  order i f hf := by
    obtain ⟨hseen, hsince, hdel⟩ := h.order i f hf
    refine ⟨hseen, ?_, hdel⟩
    show f.since ≤ (s.commits ++ [c]).length
    rw [List.length_append]
    omega
  retired := h.retired
  current i hi := by
    obtain ⟨f, hf, hcur⟩ := h.current i hi
    exact ⟨f, hf, hcur.commit c h.le⟩
  fresh hr i m n hcall := by
    obtain ⟨hn, hfresh⟩ := h.fresh hr i m n hcall
    refine ⟨?_, fun j d hj hd => ?_⟩
    · show n ≤ (s.commits ++ [c]).length
      rw [List.length_append]
      omega
    · rw [List.getElem?_append_left (by omega)] at hd
      exact hfresh j d hj hd

theorem Inv.vacant (h : Inv S s) (hlive : s.live = none) (store : σ) (mounted : Bool) :
    Inv S { s with store := store, mounted := mounted } where
  le := h.le
  order := h.order
  retired := h.retired
  current i hi := by
    have hi' : s.live = some i := hi
    rw [hlive] at hi'
    cases hi'
  fresh := h.fresh

theorem Inv.skip {c : Commit σ δ} (h : Inv S s) (hc : s.commits[s.delivered]? = some c)
    (hquiet : s.live = none ∨ ∃ st, c = .reset st) :
    Inv S { s with delivered := s.delivered + 1 } where
  le := (List.getElem?_eq_some_iff.1 hc).1
  order i f hf := by
    obtain ⟨hseen, hsince, hdel⟩ := h.order i f hf
    exact ⟨hseen, hsince, Nat.le_succ_of_le hdel⟩
  retired := h.retired
  current i hi := by
    have hi' : s.live = some i := hi
    obtain hnone | ⟨st, rfl⟩ := hquiet
    · rw [hnone] at hi'
      cases hi'
    obtain ⟨f, hf, hcur⟩ := h.current i hi
    refine ⟨f, hf, hcur.mounted, hcur.enabled, fun j hj hre => ?_, fun hin hd => ?_, fun hd => ?_,
      fun hin he hw => ?_, fun hr hp => ?_⟩
    · obtain rfl | hlt : j = s.delivered ∨ j < s.delivered := by
        have hj' : j < s.delivered + 1 := hj
        omega
      · have hre' : s.commits[s.delivered]? = some .rehydrate := hre
        rw [hc] at hre'
        cases hre'
      · exact hcur.latest j hlt hre
    · exact (Pushed.skip hc rfl f).not.2 (hcur.clean hin hd)
    · exact (Pushed.skip hc rfl f).2 (hcur.dirtied hd)
    · exact (hcur.fits hin he hw).skip hc rfl
    · exact (hcur.whole hr ((Pushed.skip hc rfl f).1 hp)).skip hc rfl
  fresh := h.fresh

theorem eq_of_getElem?_modify {α : Type*} {l : List α} {g : α → α} {b : α} {k i : ℕ}
    (h : (l.modify k g)[i]? = some b) : ∃ a, l[i]? = some a ∧ b = if k = i then g a else a := by
  rw [List.getElem?_modify, Option.map_eq_map, Option.map_eq_some_iff] at h
  obtain ⟨a, ha, rfl⟩ := h
  exact ⟨a, ha, rfl⟩

theorem live_dispose (s : Sync σ δ) : s.dispose.live = none := by
  unfold dispose
  split
  · assumption
  · rfl

theorem Inv.dispose (h : Inv S s) : Inv S s.dispose := by
  cases hlive : s.live with
  | none =>
    unfold Sync.dispose
    rw [hlive]
    exact h
  | some k =>
    have hget : ∀ (i : ℕ) f, s.dispose.handles[i]? = some f → ∃ f₀, s.handles[i]? = some f₀ ∧
        f = if k = i then { f₀ with handle := f₀.handle.dispose } else f₀ := by
      intro i f hf
      unfold Sync.dispose at hf
      rw [hlive] at hf
      dsimp only at hf
      exact eq_of_getElem?_modify hf
    have hrest : s.dispose.commits = s.commits ∧ s.dispose.delivered = s.delivered ∧
        s.dispose.calls = s.calls := by
      unfold Sync.dispose
      rw [hlive]
      exact ⟨rfl, rfl, rfl⟩
    obtain ⟨hcommits, hdelivered, hcalls⟩ := hrest
    refine ⟨?_, fun i f hf => ?_, fun i f hf _ => ?_, fun i hi => ?_, ?_⟩
    · rw [hcommits, hdelivered]
      exact h.le
    · obtain ⟨f₀, hf₀, rfl⟩ := hget i f hf
      rw [hcommits, hdelivered]
      split
      · exact h.order i f₀ hf₀
      · exact h.order i f₀ hf₀
    · obtain ⟨f₀, hf₀, rfl⟩ := hget i f hf
      split
      · rfl
      · next hne =>
        refine h.retired i f₀ hf₀ ?_
        rw [hlive]
        exact fun he => hne (Option.some.inj he)
    · rw [live_dispose] at hi
      cases hi
    · rw [hcommits, hcalls]
      exact h.fresh

theorem eq_of_getElem?_concat {α : Type*} {l : List α} {a b : α} {i : ℕ}
    (h : (l ++ [a])[i]? = some b) : l[i]? = some b ∧ i ≠ l.length ∨ i = l.length ∧ b = a := by
  by_cases hlt : i < l.length
  · rw [List.getElem?_append_left hlt] at h
    exact .inl ⟨h, Nat.ne_of_lt hlt⟩
  · rw [List.getElem?_append_right (by omega), List.getElem?_singleton] at h
    split_ifs at h with hz
    exact .inr ⟨by omega, (Option.some.inj h).symm⟩

theorem Rule.hydrate_new (rule : Rule) : rule.hydrate.disposed = false ∧
    rule.hydrate.inflight = true ∧ rule.hydrate.dirty = false := by
  cases rule <;> exact ⟨rfl, rfl, rfl⟩

theorem Current.started {h : Handle} (hmounted : s.mounted = true) (hlive : h.disposed = false)
    (hin : h.inflight = true) (hdirty : h.dirty = false) :
    Current S s i ⟨h, s.commits.length, s.delivered⟩ := by
  have hnone : ¬Pushed s ⟨h, s.commits.length, s.delivered⟩ := by
    rintro ⟨j, d, hseen, hj, -⟩
    exact absurd hj (Nat.not_lt.2 hseen)
  refine ⟨hmounted, hlive, fun j hj _ => hj, fun _ _ => hnone, fun hd => ?_, fun hidle => ?_,
    fun _ hp => absurd hp hnone⟩
  · exact absurd (hdirty.symm.trans hd) Bool.false_ne_true
  · exact absurd (hidle.symm.trans hin) Bool.false_ne_true

theorem Inv.hydrated (h : Inv S s) (hlive : s.live = none) :
    Inv S { s with
      handles := s.handles ++ [⟨S.rule.hydrate, s.commits.length, s.delivered⟩]
      live := some s.handles.length
      mounted := true } where
  le := h.le
  order i f hf := by
    obtain ⟨hf, -⟩ | ⟨-, rfl⟩ := eq_of_getElem?_concat hf
    · exact h.order i f hf
    · exact ⟨h.le, Nat.le_refl _, Nat.le_refl _⟩
  retired i f hf hne := by
    obtain ⟨hf, -⟩ | ⟨rfl, -⟩ := eq_of_getElem?_concat hf
    · refine h.retired i f hf ?_
      rw [hlive]
      exact nofun
    · exact absurd rfl hne
  current i hi := by
    obtain rfl : s.handles.length = i := Option.some.inj hi
    obtain ⟨hlive, hin, hdirty⟩ := S.rule.hydrate_new
    exact ⟨_, List.getElem?_concat_length, Current.started rfl hlive hin hdirty⟩
  fresh := h.fresh

theorem receive_delta_none (S : System σ δ) (hlive : s.live = none) (d : δ) :
    s.receive S (.delta d) = { s with store := S.deltas.apply d s.store } := by
  have hpushed : s.pushed = s := by
    unfold Sync.pushed
    rw [hlive]
  show { s.pushed with store := S.deltas.apply d s.store } = _
  rw [hpushed]

theorem receive_delta_some (S : System σ δ) (hlive : s.live = some i) (d : δ) :
    s.receive S (.delta d) = { s with
      store := S.deltas.apply d s.store
      handles := s.handles.modify i fun f => { f with handle := f.handle.pushed } } := by
  have hpushed : s.pushed = { s with
      handles := s.handles.modify i fun f => { f with handle := f.handle.pushed } } := by
    unfold Sync.pushed
    rw [hlive]
  show { s.pushed with store := S.deltas.apply d s.store } = _
  rw [hpushed]

theorem Handle.disposed_pushed (h : Handle) : h.pushed.disposed = h.disposed := by
  unfold pushed
  split <;> rfl

theorem Handle.inflight_pushed (h : Handle) : h.pushed.inflight = h.inflight := by
  unfold pushed
  split <;> rfl

theorem Current.push {d : δ} (hwhole : Whole S)
    (hle : f.seen ≤ s.delivered) (h : Current S s i f)
    (hc : s.commits[s.delivered]? = some (.delta d)) (handles : List Flight) :
    Current S { s with
        delivered := s.delivered + 1
        store := S.deltas.apply d s.store
        handles := handles } i { f with handle := f.handle.pushed } where
  mounted := h.mounted
  enabled := (Handle.disposed_pushed _).trans h.enabled
  latest j hj hre := by
    obtain rfl | hlt : j = s.delivered ∨ j < s.delivered := by
      have hj' : j < s.delivered + 1 := hj
      omega
    · have hre' : s.commits[s.delivered]? = some .rehydrate := hre
      rw [hc] at hre'
      cases hre'
    · exact h.latest j hlt hre
  clean hin hdirty := by
    have hin' : f.handle.inflight = true := (Handle.inflight_pushed _).symm.trans hin
    have hdirty' : f.handle.pushed.dirty = false := hdirty
    unfold Handle.pushed at hdirty'
    rw [if_pos hin'] at hdirty'
    cases hdirty'
  dirtied _ := ⟨s.delivered, d, hle, Nat.lt_succ_self _, hc⟩
  fits hidle he hw :=
    (h.fits ((Handle.inflight_pushed _).symm.trans hidle) he hw).push hc
  whole hr _ := by
    refine ⟨s.delivered + 1, s.delivered + 1, Nat.le_succ_of_le hle, Nat.le_refl _, Nat.le_refl _,
      (List.getElem?_eq_some_iff.1 hc).1, ?_⟩
    show S.deltas.apply d s.store =
      S.deltas.play (deltasOf ((s.commits.take (s.delivered + 1)).drop (s.delivered + 1)))
        (s.stateAt S (s.delivered + 1))
    rw [List.drop_eq_nil_of_le (List.length_take_le _ _), stateAt_succ hc]
    exact hwhole hr d _ _

theorem Inv.push {d : δ} (hwhole : Whole S)
    (h : Inv S s) (hc : s.commits[s.delivered]? = some (.delta d)) :
    Inv S (Sync.receive S { s with delivered := s.delivered + 1 } (.delta d)) := by
  obtain hlive | ⟨k, hlive⟩ : s.live = none ∨ ∃ k, s.live = some k := by
    cases s.live <;> simp
  · rw [receive_delta_none S (s := { s with delivered := s.delivered + 1 }) hlive]
    exact (h.skip hc (.inl hlive)).vacant hlive (S.deltas.apply d s.store) s.mounted
  · rw [receive_delta_some S (s := { s with delivered := s.delivered + 1 }) hlive]
    refine ⟨(List.getElem?_eq_some_iff.1 hc).1, fun i f hf => ?_, fun i f hf hne => ?_,
      fun i hi => ?_, h.fresh⟩
    · obtain ⟨f₀, hf₀, rfl⟩ := eq_of_getElem?_modify hf
      obtain ⟨hseen, hsince, hdel⟩ := h.order i f₀ hf₀
      split
      · exact ⟨hseen, hsince, Nat.le_succ_of_le hdel⟩
      · exact ⟨hseen, hsince, Nat.le_succ_of_le hdel⟩
    · obtain ⟨f₀, hf₀, rfl⟩ := eq_of_getElem?_modify hf
      have hlive' := h.retired i f₀ hf₀ hne
      split
      · exact (Handle.disposed_pushed _).trans hlive'
      · exact hlive'
    · obtain rfl : k = i := Option.some.inj (hlive.symm.trans hi)
      obtain ⟨f, hf, hcur⟩ := h.current k hlive
      refine ⟨{ f with handle := f.handle.pushed }, ?_,
        hcur.push hwhole (h.order k f hf).2.2 hc _⟩
      show (s.handles.modify k _)[k]? = _
      rw [List.getElem?_modify, hf]
      exact congrArg some (if_pos rfl)

theorem eq_of_getElem?_set {α : Type*} {l : List α} {a b : α} {k i : ℕ}
    (h : (l.set k a)[i]? = some b) : k = i ∧ b = a ∨ k ≠ i ∧ l[i]? = some b := by
  rw [List.getElem?_set] at h
  split_ifs at h with hk hlt
  · exact .inl ⟨hk, (Option.some.inj h).symm⟩
  · exact .inr ⟨hk, h⟩

theorem Inv.replace {f' : Flight} {store : σ} {calls : List (ℕ × Call)} (h : Inv S s)
    (hlive : s.live = some i) (hf : s.handles[i]? = some f)
    (horder : f'.seen ≤ f'.since ∧ f'.since ≤ s.commits.length ∧ f'.seen ≤ s.delivered)
    (hcur : Current S { s.setFlight i f' with store := store, calls := calls } i f')
    (hfresh : S.rule = .snapshot → ∀ (i m n : ℕ), (i, Call.apply m n) ∈ calls →
      n ≤ s.commits.length ∧ ∀ (j : ℕ) d, j < n → s.commits[j]? = some (.delta d) → j < m) :
    Inv S { s.setFlight i f' with store := store, calls := calls } where
  le := h.le
  order j g hg := by
    obtain ⟨-, rfl⟩ | ⟨-, hg⟩ := eq_of_getElem?_set hg
    · exact horder
    · exact h.order j g hg
  retired j g hg hne := by
    obtain ⟨rfl, -⟩ | ⟨-, hg⟩ := eq_of_getElem?_set hg
    · exact absurd hlive hne
    · exact h.retired j g hg hne
  current j hj := by
    obtain rfl : i = j := Option.some.inj (hlive.symm.trans hj)
    refine ⟨f', ?_, hcur⟩
    show (s.handles.set i f')[i]? = some f'
    rw [List.getElem?_set, if_pos rfl, if_pos (List.getElem?_eq_some_iff.1 hf).1]
  fresh := hfresh

theorem Inv.retire {f' : Flight} (h : Inv S s) (hf : s.handles[i]? = some f)
    (hdisposed : f.handle.disposed = true) (hdisposed' : f'.handle.disposed = true)
    (horder : f'.seen ≤ f'.since ∧ f'.since ≤ s.commits.length ∧ f'.seen ≤ s.delivered) :
    Inv S (s.setFlight i f') where
  le := h.le
  order j g hg := by
    obtain ⟨-, rfl⟩ | ⟨-, hg⟩ := eq_of_getElem?_set hg
    · exact horder
    · exact h.order j g hg
  retired j g hg hne := by
    obtain ⟨-, rfl⟩ | ⟨-, hg⟩ := eq_of_getElem?_set hg
    · exact hdisposed'
    · exact h.retired j g hg hne
  current j hj := by
    obtain ⟨g, hg, hcur⟩ := h.current j hj
    have hne : i ≠ j := by
      rintro rfl
      obtain rfl : f = g := Option.some.inj (hf.symm.trans hg)
      exact absurd (hdisposed.symm.trans hcur.enabled).symm Bool.false_ne_true
    refine ⟨g, ?_, hcur.mounted, hcur.enabled, hcur.latest, hcur.clean, hcur.dirtied, hcur.fits,
      hcur.whole⟩
    show (s.handles.set i f')[j]? = some g
    rw [List.getElem?_set, if_neg hne, hg]
  fresh := h.fresh

theorem Inv.live (h : Inv S s) (hf : s.handles[i]? = some f) (hd : f.handle.disposed = false) :
    s.live = some i ∧ Current S s i f := by
  have hlive : s.live = some i := by
    by_contra hne
    exact absurd (h.retired i f hf hne ▸ hd) (by decide)
  obtain ⟨g, hg, hcur⟩ := h.current i hlive
  obtain rfl : f = g := Option.some.inj (hf.symm.trans hg)
  exact ⟨hlive, hcur⟩

theorem resolve_disposed (hd : f.handle.disposed = true) (s : Sync σ δ) (moment : ℕ) :
    s.resolve S i moment f = s.setFlight i { f with handle := f.handle.landed } := by
  unfold Sync.resolve
  rw [S.rule.resolve_disposed hd]

theorem reject_disposed (hd : f.handle.disposed = true) (s : Sync σ δ) :
    s.reject i f = s.setFlight i { f with handle := f.handle.landed } := by
  unfold Sync.reject
  rw [hd, if_pos rfl, List.append_nil]
  rfl

theorem Inv.reject (h : Inv S s) (hf : s.handles[i]? = some f) : Inv S (s.reject i f) := by
  cases hd : f.handle.disposed with
  | true =>
    rw [reject_disposed hd]
    exact h.retire hf hd hd (h.order i f hf)
  | false =>
    obtain ⟨hlive, hcur⟩ := h.live hf hd
    have hsame : s.reject i f = { s.setFlight i { f with handle := f.handle.landed } with
        store := s.store, calls := s.calls ++ [(i, .onError)] } := by
      unfold Sync.reject
      rw [hd]
      rfl
    rw [hsame]
    refine h.replace hlive hf (h.order i f hf) ?_ fun hr k m n hcall => ?_
    · refine ⟨hcur.mounted, hd, hcur.latest, fun hin => ?_, hcur.dirtied, fun _ he => ?_,
        hcur.whole⟩
      · exact absurd hin Bool.false_ne_true
      · exact absurd (List.mem_append_right _ (List.mem_singleton_self _)) he
    · obtain hcall | hcall := List.mem_append.1 hcall
      · exact h.fresh hr k m n hcall
      · cases List.mem_singleton.1 hcall

/-- A result that is taken where no delta has come since the fetch started. -/
theorem Fits.taken (hclean : ¬Pushed s f) (horder : f.seen ≤ f.since ∧ f.seen ≤ s.delivered)
    (hsince : f.since ≤ moment) (hmoment : moment ≤ s.commits.length) (s' : Sync σ δ)
    (hcommits : s'.commits = s.commits) (hdelivered : s'.delivered = s.delivered)
    (hstore : s'.store = s.stateAt S moment) (f' : Flight) (hseen : f'.seen = f.seen) :
    Fits S s' f' := by
  have hnone : deltasOf ((s.commits.take s.delivered).drop f.seen) = [] := by
    refine List.filterMap_eq_nil_iff.2 fun c hc => ?_
    obtain ⟨k, hk⟩ := List.getElem?_of_mem hc
    rw [List.getElem?_drop, List.getElem?_take] at hk
    split_ifs at hk with hlt
    cases c with
    | delta d => exact absurd ⟨f.seen + k, d, Nat.le_add_right _ _, hlt, hk⟩ hclean
    | reset st => rfl
    | rehydrate => rfl
    | loggedOut => rfl
  refine ⟨f.seen, moment, Nat.le_of_eq hseen, hdelivered ▸ horder.2, Nat.le_trans horder.1 hsince,
    hcommits ▸ hmoment, ?_⟩
  rw [hcommits, hdelivered, hnone, hstore]
  show _ = s'.stateAt S moment
  unfold stateAt
  rw [hcommits]

/-- What a handle that is not disposed does with a result. -/
theorem Rule.resolve_enabled (rule : Rule) {h : Handle} (hd : h.disposed = false) :
    h.dirty = false ∧ rule.resolve h = (h.landed, .applied false) ∨
      h.dirty = true ∧ (rule = .snapshot ∧ rule.resolve h = (h.landed, .dropped) ∨
        rule ≠ .snapshot ∧ (rule.resolve h = (h.landed.run, .retried) ∨
          rule.resolve h = (h.landed, .applied true))) := by
  cases hdirty : h.dirty with
  | false =>
    refine .inl ⟨rfl, ?_⟩
    cases rule with
    | snapshot => simp [resolve, resolveSnapshot, hd, hdirty]
    | delta maxAttempts => simp [resolve, resolveDelta, hd, hdirty]
  | true =>
    refine .inr ⟨rfl, ?_⟩
    cases rule with
    | snapshot => exact .inl ⟨rfl, by simp [resolve, resolveSnapshot, hdirty]⟩
    | delta maxAttempts =>
      refine .inr ⟨by rintro ⟨⟩, ?_⟩
      by_cases hlt : h.attempt < maxAttempts
      · exact .inl (by simp [resolve, resolveDelta, hd, hdirty, hlt])
      · exact .inr (by simp [resolve, resolveDelta, hd, hdirty, hlt])

theorem Inv.resolve (h : Inv S s) (hf : s.handles[i]? = some f)
    (hin : f.handle.inflight = true) (hsince : f.since ≤ moment)
    (hmoment : moment ≤ s.commits.length) : Inv S (s.resolve S i moment f) := by
  have horder := h.order i f hf
  cases hd : f.handle.disposed with
  | true =>
    rw [resolve_disposed hd]
    exact h.retire hf hd hd horder
  | false =>
    obtain ⟨hlive, hcur⟩ := h.live hf hd
    have hlanded : f.handle.landed.disposed = false := hd
    obtain ⟨hdirty, hres⟩ | ⟨hdirty, hrest⟩ := S.rule.resolve_enabled hd
    · -- the result has every delta that came
      have hclean := hcur.clean hin hdirty
      have hsame : s.resolve S i moment f =
          { s.setFlight i { f with handle := f.handle.landed } with
            store := s.stateAt S moment
            calls := s.calls ++ [(i, .apply moment s.delivered)] } := by
        unfold Sync.resolve
        rw [hres]
        dsimp only
        rw [if_neg Bool.false_ne_true, List.append_nil]
      have hfits := Fits.taken (S := S) hclean ⟨horder.1, horder.2.2⟩ hsince hmoment
        (s.resolve S i moment f) (by rw [hsame]; rfl) (by rw [hsame]; rfl) (by rw [hsame])
        { f with handle := f.handle.landed } rfl
      rw [hsame] at hfits ⊢
      refine h.replace hlive hf horder ?_ fun hr k m n hcall => ?_
      · exact ⟨hcur.mounted, hlanded, hcur.latest, fun _ _ => hclean, hcur.dirtied,
          fun _ _ _ => hfits, fun _ _ => hfits⟩
      · obtain hcall | hcall := List.mem_append.1 hcall
        · exact h.fresh hr k m n hcall
        · cases List.mem_singleton.1 hcall
          refine ⟨h.le, fun j d hj hdelta => ?_⟩
          by_contra hge
          exact hclean ⟨j, d, by omega, hj, hdelta⟩
    · obtain ⟨hrule, hres⟩ | ⟨hrule, hres | hres⟩ := hrest
      · -- dropped: the snapshots that came are in the store
        have hsame : s.resolve S i moment f = { s.setFlight i { f with handle := f.handle.landed }
            with store := s.store, calls := s.calls } := by
          unfold Sync.resolve
          rw [hres]
          rfl
        rw [hsame]
        refine h.replace hlive hf horder ?_ h.fresh
        exact ⟨hcur.mounted, hlanded, hcur.latest,
          fun hidle => absurd hidle Bool.false_ne_true, hcur.dirtied,
          fun _ _ _ => hcur.whole hrule (hcur.dirtied hdirty), hcur.whole⟩
      · -- fetched again
        have hsame : s.resolve S i moment f =
            { s.setFlight i ⟨f.handle.landed.run, s.commits.length, s.delivered⟩ with
              store := s.store, calls := s.calls } := by
          unfold Sync.resolve
          rw [hres]
          rfl
        rw [hsame]
        refine h.replace hlive hf ⟨h.le, Nat.le_refl _, Nat.le_refl _⟩ ?_ h.fresh
        exact Current.started (s := { s.setFlight i
          ⟨f.handle.landed.run, s.commits.length, s.delivered⟩ with
            store := s.store, calls := s.calls }) hcur.mounted hlanded rfl rfl
      · -- the last attempt
        have hsame : s.resolve S i moment f =
            { s.setFlight i { f with handle := f.handle.landed } with
              store := s.stateAt S moment
              calls := s.calls ++ [(i, .warn)] ++ [(i, .apply moment s.delivered)] } := by
          unfold Sync.resolve
          rw [hres]
          rfl
        rw [hsame]
        refine h.replace hlive hf horder ?_ fun hr => absurd hr hrule
        refine ⟨hcur.mounted, hlanded, hcur.latest, fun hidle => absurd hidle Bool.false_ne_true,
          hcur.dirtied, fun _ _ hwarn => absurd ?_ (hwarn.resolve_left hrule),
          fun hr => absurd hr hrule⟩
        exact List.mem_append_left _ (List.mem_append_right _ (List.mem_singleton_self _))

/-! ## Runs -/

theorem with_mounted (h : s.mounted = true) : { s with mounted := true } = s := by
  cases s
  cases h
  rfl

theorem frame_dispose (s : Sync σ δ) : s.dispose.commits = s.commits ∧
    s.dispose.delivered = s.delivered ∧ s.dispose.calls = s.calls ∧
      s.dispose.mounted = s.mounted := by
  unfold Sync.dispose
  split <;> exact ⟨rfl, rfl, rfl, rfl⟩

theorem Inv.hydrate (h : Inv S s.dispose) : Inv S { s.hydrate S with mounted := true } :=
  h.hydrated (live_dispose s)

theorem Inv.dispose_deliver {c : Commit σ δ} (h : Inv S s)
    (hc : s.commits[s.delivered]? = some c) :
    Inv S ({ s with delivered := s.delivered + 1 } : Sync σ δ).dispose := by
  have hswap : ({ s with delivered := s.delivered + 1 } : Sync σ δ).dispose =
      { s.dispose with delivered := s.dispose.delivered + 1 } := by
    obtain ⟨commits, delivered, mounted, store, handles, live, calls⟩ := s
    cases live <;> rfl
  obtain ⟨hcommits, hdelivered, -, -⟩ := frame_dispose s
  rw [hswap]
  refine h.dispose.skip (c := c) ?_ (.inl (live_dispose s))
  rw [hcommits, hdelivered]
  exact hc

theorem inv_step {a : Act σ δ} (hwhole : Whole S) (h : Inv S s) (hstep : step S s a = some s') :
    Inv S s' := by
  cases a with
  | commit c =>
    cases hstep
    exact h.commit c
  | deliver =>
    simp only [step] at hstep
    split at hstep
    · cases hstep
    · next c hc =>
      cases hstep
      split
      · next hmounted =>
        cases c with
        | delta d => exact h.push hwhole hc
        | reset st => exact h.skip hc (.inr ⟨st, rfl⟩)
        | rehydrate =>
          have hmounted' :
              (({ s with delivered := s.delivered + 1 } : Sync σ δ).hydrate S).mounted = true :=
            (frame_dispose { s with delivered := s.delivered + 1 }).2.2.2.trans hmounted
          have hnew := (h.dispose_deliver hc).hydrate
          rwa [with_mounted hmounted'] at hnew
        | loggedOut =>
          exact (h.dispose_deliver hc).vacant (live_dispose _) S.cleared _
      · next hmounted =>
        refine h.skip hc (.inl ?_)
        by_contra hne
        obtain ⟨i, hi⟩ := Option.ne_none_iff_exists'.1 hne
        obtain ⟨f, -, hcur⟩ := h.current i hi
        exact hmounted hcur.mounted
  | mount =>
    simp only [step] at hstep
    split at hstep
    · cases hstep
    · cases hstep
      exact h.dispose.hydrate
  | unmount =>
    simp only [step] at hstep
    split at hstep
    · cases hstep
      exact h.dispose.vacant (live_dispose s) s.dispose.store false
    · cases hstep
  | hydrate =>
    simp only [step] at hstep
    split at hstep
    · next hmounted =>
      cases hstep
      have hmounted' : (s.hydrate S).mounted = true := (frame_dispose s).2.2.2.trans hmounted
      have hnew := h.dispose.hydrate
      rwa [with_mounted hmounted'] at hnew
    · cases hstep
  | resolve i moment =>
    simp only [step] at hstep
    split at hstep
    · cases hstep
    · next f hf =>
      split at hstep
      · next hok =>
        cases hstep
        exact h.resolve hf hok.1 hok.2.1 hok.2.2
      · cases hstep
  | reject i =>
    simp only [step] at hstep
    split at hstep
    · cases hstep
    · next f hf =>
      split at hstep
      · cases hstep
        exact h.reject hf
      · cases hstep

def Run (S : System σ δ) (s : Sync σ δ) : Prop :=
  ∃ acts, exec (step S) (Sync.init S) acts = some s

theorem Run.inv (hwhole : Whole S) (h : Run S s) : Inv S s := by
  obtain ⟨acts, hrun⟩ := h
  exact exec_invariant (fun _ _ _ hi _ hs => inv_step hwhole hi hs) Inv.init
    (Meets.trivial _ _ _) hrun

/-- **At rest** the live handle's window shows the newest state. -/
theorem Inv.newest {α : Type*} (look : σ → α) (hlook : Respects S look) (h : Inv S s)
    (hall : s.Delivered S look) (hlive : s.live = some i) (hf : s.handles[i]? = some f)
    (hfits : Current S s i f → Fits S s f) : look s.store = look (s.newest S) := by
  obtain ⟨g, hg, hcur⟩ := h.current i hlive
  obtain rfl : f = g := Option.some.inj (hf.symm.trans hg)
  refine (hfits hcur).newest hlook hall.all fun j c hseen hc => ?_
  obtain heq | ⟨k, hjk, hk⟩ := hall.followed j c hc
  · exact heq
  · have hlt : k < s.delivered := by
      rw [hall.all]
      exact (List.getElem?_eq_some_iff.1 hk).1
    exact absurd (hcur.latest k hlt hk) (by omega)

end VcsClient.Hydrate
