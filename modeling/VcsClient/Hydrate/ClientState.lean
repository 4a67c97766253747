import VcsClient.Hydrate.Results
import VcsClient.State.Store

/-!
# The client, radio and identity stores of a window

`useClientStateSync`: what its handlers write of `state:radio_update`,
`state:client_update` and `state:client_left`, and what the backend changed before it sent
them. A client that leaves goes with its radios in the backend, and stays in the window's
radio store: that store alone can be behind until the next `connected` (`Told`). With this what
the guards are for is together (`hydrate_guards`).
-/

namespace VcsClient.Hydrate

open VcsClient.Lib State

/-- A cell of the window's stores. -/
inductive Cell where
  | client (guid : Guid)
  | radio (guid : Guid)
  /-- `self` and `selfGuid` -/
  | self
  deriving DecidableEq

abbrev Cell.Value : Cell → Type
  | .client _ => Option ClientInfo
  | .radio _ => Option RadioInfo
  | .self => Option ClientInfo × Guid

abbrev View := ∀ c, Cell.Value c

/-- `applySnapshot` of `getClientState`. -/
def applySnapshot (st : Store) : View
  | .client guid => st.clients.lookup guid
  | .radio guid => st.radios.lookup guid
  | .self => (st.self, st.selfGuid)

inductive ClientEvent where
  | radioUpdate (guid : Guid) (radio : RadioInfo)
  | clientUpdate (guid : Guid) (info : ClientInfo)
  | clientLeft (guid : Guid)

/-- `setForGuid`, `upsert` and `remove`. -/
def ClientEvent.write : ClientEvent → Σ c, Cell.Value c
  | .radioUpdate guid radio => ⟨.radio guid, some radio⟩
  | .clientUpdate guid info => ⟨.client guid, some info⟩
  | .clientLeft guid => ⟨.client guid, none⟩

/-- The store's mutation that `route` makes before it emits the event. -/
def ClientEvent.route : ClientEvent → Store → Store
  | .radioUpdate guid radio, st => st.setRadios guid radio
  | .clientUpdate guid info, st => st.updateClient guid info
  | .clientLeft guid, st => st.removeClient guid

/-- That mutation, of what a window shows of the store. -/
def ClientEvent.change : ClientEvent → View → View
  | .clientLeft guid, st =>
    Function.update (Function.update st (.client guid) none) (.radio guid) none
  | e, st => (Deltas.perKey Cell.Value).apply e.write st

/-- **What a window shows changes** as the store does. -/
theorem change_applySnapshot (e : ClientEvent) (st : Store) :
    e.change (applySnapshot st) = applySnapshot (e.route st) := by
  funext c
  cases e with
  | radioUpdate guid radio =>
    show Function.update (applySnapshot st) (.radio guid) (some radio) c = _
    by_cases hc : c = .radio guid
    · subst hc
      rw [Function.update_self]
      exact (AList.lookup_insert st.radios).symm
    · rw [Function.update_of_ne hc]
      cases c with
      | client guid' => rfl
      | radio guid' =>
        exact (AList.lookup_insert_ne fun h => hc (congrArg Cell.radio h)).symm
      | self => rfl
  | clientUpdate guid info =>
    show Function.update (applySnapshot st) (.client guid) (some info) c = _
    by_cases hc : c = .client guid
    · subst hc
      rw [Function.update_self]
      exact (AList.lookup_insert st.clients).symm
    · rw [Function.update_of_ne hc]
      cases c with
      | client guid' =>
        exact (AList.lookup_insert_ne fun h => hc (congrArg Cell.client h)).symm
      | radio guid' => rfl
      | self => rfl
  | clientLeft guid =>
    show Function.update (Function.update (applySnapshot st) (.client guid) none)
      (.radio guid) none c = _
    cases c with
    | client guid' =>
      rw [Function.update_of_ne (by simp)]
      by_cases hg : guid' = guid
      · subst hg
        rw [Function.update_self]
        exact (AList.lookup_erase guid' st.clients).symm
      · rw [Function.update_of_ne (by simpa using hg)]
        exact (AList.lookup_erase_ne hg).symm
    | radio guid' =>
      by_cases hg : guid' = guid
      · subst hg
        rw [Function.update_self]
        exact (AList.lookup_erase guid' st.radios).symm
      · rw [Function.update_of_ne (by simpa using hg), Function.update_of_ne (by simp)]
        exact (AList.lookup_erase_ne hg).symm
    | self =>
      rw [Function.update_of_ne (by simp), Function.update_of_ne (by simp)]
      rfl

/-- The handle `client` of the hook, in a window that opens on a store. -/
def clientSystem (origin : Store) (shown : View) : System View ClientEvent where
  rule := .delta 3
  deltas := (Deltas.perKey Cell.Value).comap ClientEvent.write
  change := ClientEvent.change
  origin := applySnapshot origin
  shown := shown
  cleared := applySnapshot Store.new

/-- A handler writes all that the mutation changed, but for the radios of a client that
leaves. -/
theorem change_eq_write (e : ClientEvent) (st : View) {c : Cell}
    (hc : ∀ guid, e = .clientLeft guid → c ≠ .radio guid) :
    e.change st c = (Deltas.perKey Cell.Value).apply e.write st c := by
  cases e with
  | radioUpdate guid radio => rfl
  | clientUpdate guid info => rfl
  | clientLeft guid => exact Function.update_of_ne (hc guid rfl) _ _

/-- Every event has come, and a change without events was followed by `connected`; so was
the departure of the client, where its radios are looked at. -/
structure Told (s : Sync View ClientEvent) (c : Cell) : Prop where
  all : s.delivered = s.commits.length
  followed : ∀ (j : ℕ) e, s.commits[j]? = some e →
    (∃ st, e = .reset st) ∨ (∃ guid, e = .delta (.clientLeft guid) ∧ c = .radio guid) →
      ∃ k : ℕ, j < k ∧ s.commits[k]? = some .rehydrate

theorem Told.delivered {s : Sync View ClientEvent} {c : Cell} (h : Told s c) (origin : Store)
    (shown : View) : s.Delivered (clientSystem origin shown) (fun st => st c) := by
  refine ⟨h.all, fun j e he => ?_⟩
  cases e with
  | delta e =>
    by_cases hleft : ∃ guid, e = .clientLeft guid ∧ c = .radio guid
    · obtain ⟨guid, rfl, hc⟩ := hleft
      exact .inr (h.followed j _ he (.inr ⟨guid, rfl, hc⟩))
    · exact .inl (change_eq_write e _ fun guid hguid hc => hleft ⟨guid, hguid, hc⟩)
  | reset st => exact .inr (h.followed j _ he (.inl ⟨st, rfl⟩))
  | rehydrate => exact .inl rfl
  | loggedOut => exact .inl rfl

theorem respects_clientSystem (origin : Store) (shown : View) (c : Cell) :
    Respects (clientSystem origin shown) (fun st => st c) :=
  fun e _ _ h => Respects.perKey c e.write h

/-! ## What the guards are for -/

/-- **The hydrate guards.** A window of either guard shows the newest state once it has had
every event; no result is taken that is older than a snapshot that had come; disposed
handles are silent; and a result settles its handle, or is fetched again a bounded number of
times. The client, radio and identity stores follow the Go store with `hydrateDelta`. -/
theorem hydrate_guards {σ κ : Type*} (v : κ → Type*) [DecidableEq κ] :
    (∀ (origin shown cleared : σ) (s : Sync σ σ), Run (.snapshot origin shown cleared) s →
      (s.Delivered (.snapshot origin shown cleared) id → ∀ i f, s.live = some i →
        s.handles[i]? = some f →
          f.handle.inflight = false ∧ (i, .onError) ∉ s.calls ∨ Pushed s f →
            s.store = s.newest (.snapshot origin shown cleared)) ∧
      ∀ (i m n : ℕ), (i, .apply m n) ∈ s.calls → ∀ (j : ℕ) d, j < n →
        s.commits[j]? = some (.delta d) → j < m) ∧
    (∀ (maxAttempts : ℕ) (origin shown cleared : ∀ k, v k) (s : Sync (∀ k, v k) (Σ k, v k)),
      Run (.delta maxAttempts origin shown cleared) s → ∀ k,
        s.Delivered (.delta maxAttempts origin shown cleared) (fun st => st k) →
          ∀ i f, s.live = some i → s.handles[i]? = some f → f.handle.inflight = false →
            (i, .onError) ∉ s.calls → (i, .warn) ∉ s.calls →
              s.store k = s.newest (.delta maxAttempts origin shown cleared) k) ∧
    (∀ origin shown cleared : σ,
      Retires (.snapshot origin shown cleared) ∧ Lands (.snapshot origin shown cleared) ∧
        Settles (.snapshot origin shown cleared) id) ∧
    (∀ (maxAttempts : ℕ) (origin shown cleared : ∀ k, v k),
      Retires (.delta maxAttempts origin shown cleared) ∧
        Lands (.delta maxAttempts origin shown cleared) ∧
          ∀ k, Settles (.delta maxAttempts origin shown cleared) (fun st => st k)) ∧
    ∀ (origin : Store) (shown : View),
      (∀ (e : ClientEvent) (st : Store), e.change (applySnapshot st) = applySnapshot (e.route st)) ∧
      Retires (clientSystem origin shown) ∧ Lands (clientSystem origin shown) ∧
      (∀ c, Settles (clientSystem origin shown) (fun st => st c)) ∧
      ∀ s c, Told s c → s.Delivered (clientSystem origin shown) (fun st => st c) ∧
        (Run (clientSystem origin shown) s → ∀ i f, s.live = some i → s.handles[i]? = some f →
          f.handle.inflight = false → (i, .onError) ∉ s.calls → (i, .warn) ∉ s.calls →
            s.store c = s.newest (clientSystem origin shown) c) := by
  have hsnapshot : ∀ origin shown cleared : σ, Whole (.snapshot origin shown cleared) :=
    fun _ _ _ _ _ _ _ => rfl
  have hdelta : ∀ (maxAttempts : ℕ) (origin shown cleared : ∀ k, v k),
      Whole (.delta maxAttempts origin shown cleared) := fun _ _ _ _ => nofun
  have hclient : ∀ (origin : Store) (shown : View), Whole (clientSystem origin shown) :=
    fun _ _ => nofun
  refine ⟨fun origin shown cleared s hs => ⟨fun hall i f hlive hf hdone => ?_, fun i m n hcall =>
      ((hs.inv (hsnapshot origin shown cleared)).fresh rfl i m n hcall).2⟩,
    fun maxAttempts origin shown cleared s hs k hall i f hlive hf hidle herr hwarn => ?_,
    fun origin shown cleared => ?_, fun maxAttempts origin shown cleared => ?_,
    fun origin shown => ⟨change_applySnapshot, retires (hclient origin shown),
      lands (hclient origin shown),
      fun c => results_settle (hclient origin shown) (respects_clientSystem origin shown c),
      fun s c htold => ⟨htold.delivered origin shown, fun hs i f hlive hf hidle herr hwarn => ?_⟩⟩⟩
  · refine (hs.inv (hsnapshot origin shown cleared)).newest id (fun _ _ _ _ => rfl)
      hall hlive hf fun hcur => ?_
    obtain ⟨hidle, herr⟩ | hpushed := hdone
    · exact hcur.fits hidle herr (.inl rfl)
    · exact hcur.whole rfl hpushed
  · exact hs.newest (hdelta maxAttempts origin shown cleared)
      (fun x _ _ h => Respects.perKey k x h) hall hlive hf hidle herr (.inr hwarn)
  · have hwhole := hsnapshot origin shown cleared
    exact ⟨retires hwhole, lands hwhole, results_settle hwhole fun _ _ _ _ => rfl⟩
  · have hwhole := hdelta maxAttempts origin shown cleared
    exact ⟨retires hwhole, lands hwhole,
      fun k => results_settle hwhole fun x _ _ h => Respects.perKey k x h⟩
  · exact hs.newest (hclient origin shown) (respects_clientSystem origin shown c)
      (htold.delivered origin shown) hlive hf hidle herr (.inr hwarn)

/-- A snapshot comes during the first fetch; the window hydrates again after the next. -/
def stale : List (Act ℕ ℕ) :=
  [.mount, .commit (.delta 7), .deliver, .resolve 0 0, .commit (.delta 8), .hydrate,
    .resolve 1 2, .deliver]

def staleEnd : Sync ℕ ℕ where
  commits := [.delta 7, .delta 8]
  delivered := 2
  mounted := true
  store := 8
  handles := [⟨⟨false, true, true, 0⟩, 0, 0⟩, ⟨⟨false, false, false, 0⟩, 2, 1⟩]
  live := some 1
  calls := [(1, .apply 2 1)]

/-- `hydrateDelta` for two keys. -/
abbrev twoKeys : System (Bool → ℕ) (Σ _ : Bool, ℕ) :=
  .delta 3 (fun _ => 0) (fun _ => 0) fun _ => 0

/-- A push comes during the first fetch. -/
def raced : List (Act (Bool → ℕ) (Σ _ : Bool, ℕ)) :=
  [.mount, .commit (.delta ⟨true, 7⟩), .deliver]

def racedAt (f : Flight) (calls : List (ℕ × Call)) : Sync (Bool → ℕ) (Σ _ : Bool, ℕ) where
  commits := [.delta ⟨true, 7⟩]
  delivered := 1
  mounted := true
  store := Function.update (fun _ => 0) true 7
  handles := [f]
  live := some 0
  calls := calls

theorem hydrate_guards_raced :
    (∃ s, exec (Sync.step (.snapshot 0 0 0)) (Sync.init (.snapshot 0 0 0)) stale = some s ∧
      s.calls = [(1, .apply 2 1)] ∧ s.store = 8 ∧ s.store = s.newest (.snapshot 0 0 0)) ∧
    ∃ s s', exec (Sync.step twoKeys) (Sync.init twoKeys) raced = some s ∧
      Sync.step twoKeys s (.resolve 0 0) = some s' ∧
      s'.handles[0]? = some ⟨⟨true, false, false, 2⟩, 1, 1⟩ ∧
      ∃ s'', Sync.step twoKeys s' (.resolve 0 1) = some s'' ∧ s''.calls = [(0, .apply 1 1)] ∧
        s''.store true = 7 ∧ s''.store true = s''.newest twoKeys true := by
  have hstale : exec (Sync.step (.snapshot 0 0 0)) (Sync.init (.snapshot 0 0 0)) stale =
    some staleEnd := rfl
  have hraced : exec (Sync.step twoKeys) (Sync.init twoKeys) raced =
    some (racedAt ⟨⟨true, true, false, 1⟩, 0, 0⟩ []) := rfl
  have hretry : Sync.step twoKeys (racedAt ⟨⟨true, true, false, 1⟩, 0, 0⟩ []) (.resolve 0 0) =
    some (racedAt ⟨⟨true, false, false, 2⟩, 1, 1⟩ []) := rfl
  have hdone : Sync.step twoKeys (racedAt ⟨⟨true, false, false, 2⟩, 1, 1⟩ []) (.resolve 0 1) =
    some (racedAt ⟨⟨false, false, false, 2⟩, 1, 1⟩ [(0, .apply 1 1)]) := rfl
  obtain ⟨hsnapshot, hdelta, -, hresults, -⟩ := hydrate_guards (σ := ℕ) fun _ : Bool => ℕ
  refine ⟨⟨staleEnd, hstale, rfl, rfl, ?_⟩, _, _, hraced, hretry, ?_, _, hdone, rfl, rfl, ?_⟩
  · refine (hsnapshot 0 0 0 staleEnd ⟨stale, hstale⟩).1 ⟨rfl, fun j c hc => ?_⟩ 1 _ rfl rfl
      (.inl ⟨rfl, by decide⟩)
    match j, hc with
    | 0, rfl => exact .inl rfl
    | 1, rfl => exact .inl rfl
  · obtain ⟨t, ht, hleft⟩ := (hresults 3 _ _ _).2.1.retried _ ⟨raced, hraced⟩ 0 _ 0 3
      ⟨rfl, rfl, Nat.le_refl _, Nat.zero_le _⟩ rfl ⟨0, _, Nat.le_refl _, Nat.one_pos, rfl⟩ rfl
      (by decide : 1 < 3)
    obtain rfl := Option.some.inj (hretry.symm.trans ht)
    exact hleft.flight
  · have hrun : Run twoKeys (racedAt ⟨⟨false, false, false, 2⟩, 1, 1⟩ [(0, .apply 1 1)]) :=
      (Run.step ⟨raced, hraced⟩ hretry).step hdone
    refine hdelta 3 _ _ _ _ hrun true ⟨rfl, fun j c hc => ?_⟩ 0 _ rfl rfl rfl (by decide)
      (by decide)
    match j, hc with
    | 0, rfl => exact .inl rfl

end VcsClient.Hydrate
