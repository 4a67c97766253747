import VcsClient.Control.Held
import VcsClient.Lib.Patches

/-!
# A snapshot and the updates around it

The server's clients, radios and settings under a history of updates, each a
full value or a delete of one key. A store that took a snapshot made somewhere
in the history agrees with the server once the updates of any stream opened
before the snapshot are routed on top of it.
-/

namespace VcsClient.Control

open VcsClient.Lib VcsClient.State

/-- What an update is about: one key, given a full value or deleted. -/
inductive Change where
  | client (guid : Guid) (info : ClientInfo)
  | left (guid : Guid)
  | radios (guid : Guid) (info : RadioInfo)
  | settings (settings : ServerSettings)
  deriving DecidableEq

/-- The change an update carries; `none` for an action, an address, or an
update without its payload. -/
def ServerUpdate.change (upd : ServerUpdate) : Option Change :=
  match upd.type with
  | .clientJoined | .clientInfoUpdate =>
    upd.getClientUpdate.bind fun cu => cu.clientInfo.map (.client cu.getClientGuid)
  | .clientLeft => upd.getClientUpdate.map fun cu => .left cu.getClientGuid
  | .clientRadioUpdate =>
    upd.getClientUpdate.bind fun cu => cu.radioInfo.map (.radios cu.getClientGuid)
  | .serverSettingsChanged => upd.getSettingsUpdate.map .settings
  | _ => none

structure Server where
  clients : Guid → Option ClientInfo
  radios : Guid → Option RadioInfo
  settings : ServerSettings

namespace Server

/-- One change: a client that leaves goes with its radios. -/
def change (srv : Server) : Change → Server
  | .client guid info => { srv with clients := Function.update srv.clients guid (some info) }
  | .left guid =>
    { srv with
      clients := Function.update srv.clients guid none
      radios := Function.update srv.radios guid none }
  | .radios guid info => { srv with radios := Function.update srv.radios guid (some info) }
  | .settings s => { srv with settings := s }

def apply (srv : Server) (upd : ServerUpdate) : Server :=
  match upd.change with
  | none => srv
  | some c => srv.change c

def after (srv : Server) (us : List ServerUpdate) : Server := us.foldl apply srv

end Server

/-- `data` is a snapshot of the server. -/
structure SyncData.SnapshotOf (data : SyncData) (srv : Server) : Prop where
  clients : ∀ guid, data.clients.lookup guid = srv.clients guid
  radios : ∀ guid, data.radios.lookup guid = srv.radios guid
  settings : data.settings = some srv.settings

/-- The store knows what the server keeps. -/
structure Agrees (st : Store) (srv : Server) : Prop where
  clients : ∀ guid, st.clients.lookup guid = srv.clients guid
  radios : ∀ guid, st.radios.lookup guid = srv.radios guid
  settings : st.settings = some srv.settings

/-! ## Cells -/

/-- A cell that a change assigns or deletes. -/
inductive Cell where
  | client (guid : Guid)
  | radios (guid : Guid)
  | settings
  deriving DecidableEq

abbrev Cell.Value : Cell → Type
  | .client _ => Option ClientInfo
  | .radios _ => Option RadioInfo
  | .settings => Option ServerSettings

def storeCells (st : Store) : ∀ c : Cell, c.Value
  | .client guid => st.clients.lookup guid
  | .radios guid => st.radios.lookup guid
  | .settings => st.settings

def Server.cells (srv : Server) : ∀ c : Cell, c.Value
  | .client guid => srv.clients guid
  | .radios guid => srv.radios guid
  | .settings => some srv.settings

theorem agrees_iff {st : Store} {srv : Server} : Agrees st srv ↔ storeCells st = srv.cells := by
  constructor
  · intro h
    funext c
    cases c with
    | client guid => exact h.clients guid
    | radios guid => exact h.radios guid
    | settings => exact h.settings
  · intro h
    exact ⟨fun guid => congrFun h (.client guid), fun guid => congrFun h (.radios guid),
      congrFun h .settings⟩

def Change.writes : Change → ∀ c : Cell, Option c.Value
  | .client guid info, .client guid' => if guid' = guid then some (some info) else none
  | .left guid, .client guid' => if guid' = guid then some none else none
  | .left guid, .radios guid' => if guid' = guid then some none else none
  | .radios guid info, .radios guid' => if guid' = guid then some (some info) else none
  | .settings s, .settings => some (some s)
  | _, _ => none

def ServerUpdate.writes (upd : ServerUpdate) : ∀ c : Cell, Option c.Value :=
  match upd.change with
  | none => fun _ => none
  | some c => c.writes

/-- A change made to the store. -/
def Change.apply (st : Store) : Change → Store
  | .client guid info => st.updateClient guid info
  | .left guid => st.removeClient guid
  | .radios guid info => st.setRadios guid info
  | .settings s => st.setSettings s

section
variable {β : Type} (guid guid' : Guid) (b : β)

theorem lookup_insert_getD (m : AList fun _ : Guid => β) :
    (m.insert guid b).lookup guid' =
      (if guid' = guid then some (some b) else none).getD (m.lookup guid') := by
  by_cases h : guid' = guid
  · subst h
    simp
  · simp [AList.lookup_insert_ne h, h]

theorem lookup_erase_getD (m : AList fun _ : Guid => β) :
    (m.erase guid).lookup guid' =
      (if guid' = guid then some none else none).getD (m.lookup guid') := by
  by_cases h : guid' = guid
  · subst h
    simp
  · simp [AList.lookup_erase_ne h, h]

theorem update_getD (f : Guid → β) :
    Function.update f guid b guid' = (if guid' = guid then some b else none).getD (f guid') := by
  by_cases h : guid' = guid
  · subst h
    simp
  · simp [h]

end

theorem storeCells_apply (st : Store) (c : Change) :
    storeCells (c.apply st) = overwrite c.writes (storeCells st) := by
  funext cell
  cases c with
  | client guid info =>
    cases cell with
    | client guid' => exact lookup_insert_getD guid guid' info st.clients
    | radios guid' => rfl
    | settings => rfl
  | left guid =>
    cases cell with
    | client guid' => exact lookup_erase_getD guid guid' st.clients
    | radios guid' => exact lookup_erase_getD guid guid' st.radios
    | settings => rfl
  | radios guid info =>
    cases cell with
    | client guid' => rfl
    | radios guid' => exact lookup_insert_getD guid guid' info st.radios
    | settings => rfl
  | settings s => cases cell <;> rfl

theorem Server.cells_change (srv : Server) (c : Change) :
    (srv.change c).cells = overwrite c.writes srv.cells := by
  funext cell
  cases c with
  | client guid info =>
    cases cell with
    | client guid' => exact update_getD guid guid' (some info) srv.clients
    | radios guid' => rfl
    | settings => rfl
  | left guid =>
    cases cell with
    | client guid' => exact update_getD guid guid' none srv.clients
    | radios guid' => exact update_getD guid guid' none srv.radios
    | settings => rfl
  | radios guid info =>
    cases cell with
    | client guid' => rfl
    | radios guid' => exact update_getD guid guid' (some info) srv.radios
    | settings => rfl
  | settings s => cases cell <;> rfl

/-- `route` makes the change of the update, and touches nothing else of the
clients, radios and settings. -/
theorem storeCells_route (upd : ServerUpdate) (st : Store) :
    storeCells (route upd st).1 = overwrite upd.writes (storeCells st) := by
  have hnone : ∀ st' : Store, st'.clients = st.clients → st'.radios = st.radios →
      st'.settings = st.settings → storeCells st' = overwrite (fun _ => none) (storeCells st) := by
    intro st' hclients hradios hsettings
    funext cell
    cases cell <;> simp [storeCells, overwrite, hclients, hradios, hsettings]
  obtain ⟨type, update⟩ := upd
  have hrefl := hnone st rfl rfl rfl
  unfold route ServerUpdate.writes ServerUpdate.change
  cases type with
  | clientJoined | clientInfoUpdate =>
    cases hcu : ServerUpdate.getClientUpdate ⟨_, update⟩ with
    | none => simpa only [Option.bind_none] using hrefl
    | some cu =>
      cases hinfo : cu.clientInfo with
      | none => simpa only [Option.bind_some, hinfo, Option.map_none] using hrefl
      | some info =>
        simp only [Option.bind_some, hinfo, Option.map_some]
        exact storeCells_apply st (.client cu.getClientGuid info)
  | clientLeft =>
    cases hcu : ServerUpdate.getClientUpdate ⟨_, update⟩ with
    | none => simpa only [Option.map_none] using hrefl
    | some cu =>
      simp only [Option.map_some]
      exact storeCells_apply st (.left cu.getClientGuid)
  | clientRadioUpdate =>
    cases hcu : ServerUpdate.getClientUpdate ⟨_, update⟩ with
    | none => simpa only [Option.bind_none] using hrefl
    | some cu =>
      cases hinfo : cu.radioInfo with
      | none => simpa only [Option.bind_some, hinfo, Option.map_none] using hrefl
      | some info =>
        simp only [Option.bind_some, hinfo, Option.map_some]
        exact storeCells_apply st (.radios cu.getClientGuid info)
  | serverSettingsChanged =>
    cases hs : ServerUpdate.getSettingsUpdate ⟨_, update⟩ with
    | none => simpa only [Option.map_none] using hrefl
    | some s =>
      simp only [Option.map_some]
      exact storeCells_apply st (.settings s)
  | voiceAddressUpdate =>
    cases hv : ServerUpdate.getVoiceAddressUpdate ⟨_, update⟩ with
    | none => exact hrefl
    | some vu =>
      simp only
      split
      · exact hnone _ rfl rfl rfl
      · exact hnone _ rfl rfl rfl
  | serverAction | distributionUpdate | unknown => exact hrefl

theorem Server.cells_apply (srv : Server) (upd : ServerUpdate) :
    (srv.apply upd).cells = overwrite upd.writes srv.cells := by
  unfold Server.apply ServerUpdate.writes
  cases upd.change with
  | none => rfl
  | some c => exact srv.cells_change c

theorem storeCells_routeAll (us : List ServerUpdate) (st : Store) :
    storeCells (routeAll us st) = replay (us.map ServerUpdate.writes) (storeCells st) := by
  induction us generalizing st with
  | nil => rfl
  | cons upd us ih =>
    rw [List.map_cons, replay_cons, ← storeCells_route]
    exact ih _

theorem Server.cells_after (us : List ServerUpdate) (srv : Server) :
    (srv.after us).cells = replay (us.map ServerUpdate.writes) srv.cells := by
  induction us generalizing srv with
  | nil => rfl
  | cons upd us ih =>
    rw [List.map_cons, replay_cons, ← Server.cells_apply]
    exact ih _

/-! ## The snapshot -/

theorem foldl_updateClient (l : List (Sigma fun _ : Guid => ClientInfo)) (hl : l.NodupKeys)
    (st : Store) :
    let st' := (l.map fun e => Hydration.updateClient e.1 e.2).foldl Hydration.apply st
    (∀ guid, st'.clients.lookup guid = (l.dlookup guid).or (st.clients.lookup guid)) ∧
      st'.radios = st.radios ∧ st'.settings = st.settings := by
  induction l generalizing st with
  | nil => exact ⟨fun guid => rfl, rfl, rfl⟩
  | cons e l ih =>
    obtain ⟨guid', info⟩ := e
    obtain ⟨hnot, hl⟩ := List.nodupKeys_cons.1 hl
    obtain ⟨hclients, hradios, hsettings⟩ := ih hl (st.updateClient guid' info)
    refine ⟨fun guid => ?_, hradios, hsettings⟩
    simp only [List.map_cons, List.foldl_cons]
    refine (hclients guid).trans ?_
    by_cases he : guid = guid'
    · subst he
      have : l.dlookup guid = none := List.dlookup_eq_none.2 hnot
      simp [this, Store.updateClient, List.dlookup_cons_eq]
    · simp [Store.updateClient, AList.lookup_insert_ne he, List.dlookup_cons_ne, he]

theorem foldl_setRadios (l : List (Sigma fun _ : Guid => RadioInfo)) (hl : l.NodupKeys)
    (st : Store) :
    let st' := (l.map fun e => Hydration.setRadios e.1 e.2).foldl Hydration.apply st
    (∀ guid, st'.radios.lookup guid = (l.dlookup guid).or (st.radios.lookup guid)) ∧
      st'.clients = st.clients ∧ st'.settings = st.settings := by
  induction l generalizing st with
  | nil => exact ⟨fun guid => rfl, rfl, rfl⟩
  | cons e l ih =>
    obtain ⟨guid', info⟩ := e
    obtain ⟨hnot, hl⟩ := List.nodupKeys_cons.1 hl
    obtain ⟨hradios, hclients, hsettings⟩ := ih hl (st.setRadios guid' info)
    refine ⟨fun guid => ?_, hclients, hsettings⟩
    simp only [List.map_cons, List.foldl_cons]
    refine (hradios guid).trans ?_
    by_cases he : guid = guid'
    · subst he
      have : l.dlookup guid = none := List.dlookup_eq_none.2 hnot
      simp [this, Store.setRadios, List.dlookup_cons_eq]
    · simp [Store.setRadios, AList.lookup_insert_ne he, List.dlookup_cons_ne, he]

/-- The store once the roster of a snapshot is in. -/
def withRoster (data : SyncData) (st : Store) : Store :=
  (data.radios.entries.map fun e => Hydration.setRadios e.1 e.2).foldl Hydration.apply
    ((data.clients.entries.map fun e => Hydration.updateClient e.1 e.2).foldl Hydration.apply
      st.resetRoster)

theorem syncClient_withRoster {data : SyncData} {settings : ServerSettings}
    (h : data.settings = some settings) (st : Store) :
    (syncClient data st).clients = (withRoster data st).clients ∧
      (syncClient data st).radios = (withRoster data st).radios ∧
      (syncClient data st).settings = some settings := by
  unfold syncClient SyncData.hydrations withRoster
  rw [h]
  cases data.hadSecret <;>
    simp [Hydration.apply, Store.setSettings, Store.setVoiceCredentials, Store.setVoiceAddresses]

theorem agrees_syncClient {data : SyncData} {srv : Server} (h : data.SnapshotOf srv)
    (st : Store) : Agrees (syncClient data st) srv := by
  obtain ⟨hc, hr, hs⟩ := syncClient_withRoster h.settings st
  obtain ⟨hclients, hradios₁, -⟩ :=
    foldl_updateClient data.clients.entries data.clients.nodupKeys st.resetRoster
  obtain ⟨hradios, hclients₁, -⟩ := foldl_setRadios data.radios.entries data.radios.nodupKeys
    ((data.clients.entries.map fun e => Hydration.updateClient e.1 e.2).foldl Hydration.apply
      st.resetRoster)
  refine ⟨fun guid => ?_, fun guid => ?_, hs⟩
  · rw [hc, withRoster, hclients₁, hclients, ← h.clients]
    exact Option.or_none
  · rw [hr, withRoster, hradios, hradios₁, ← h.radios]
    exact Option.or_none

/-- A stream opened before the snapshot was made brings the store up to date. -/
theorem agrees_replay {data : SyncData} {srv : Server} {us : List ServerUpdate} {i j : ℕ}
    (hij : i ≤ j) (h : data.SnapshotOf (srv.after (us.take j))) (st : Store) :
    Agrees (routeAll (us.drop i) (syncClient data st)) (srv.after us) := by
  -- the updates of the stream that the snapshot has already, and the others
  have hdrop : us.drop i = (us.take j).drop i ++ us.drop j := by
    have := List.take_append_drop (j - i) (us.drop i)
    rw [List.drop_drop, Nat.add_sub_cancel' hij] at this
    rw [List.drop_take, this]
  have htake : us.take j = us.take i ++ (us.take j).drop i := by
    conv_lhs => rw [← List.take_append_drop i (us.take j), List.take_take, min_eq_left hij]
  have hoverlap := replay_overlap ((us.take i).map ServerUpdate.writes)
    (((us.take j).drop i).map ServerUpdate.writes) ((us.drop j).map ServerUpdate.writes) srv.cells
  rw [← List.map_append, ← List.map_append, ← List.map_append, ← hdrop, ← htake,
    List.take_append_drop] at hoverlap
  rw [agrees_iff, storeCells_routeAll, agrees_iff.1 (agrees_syncClient h st), Server.cells_after,
    Server.cells_after]
  exact hoverlap

/-- **Held updates lose and reorder nothing.** At every point of a run nothing
was routed unless `Release` was called, and what was routed followed by what
waits is what was received; once `Release` is through and `Consume` back at its
stream, nothing waits. Only an update that overflows the hold is dropped, and
it ends the stream. And a store brought up by any snapshot made after the
stream was opened agrees with the server once the stream is routed. -/
theorem held_converges {max : ℕ} {ops : List HeldOp} {r : HeldRun}
    (h : exec HeldRun.step (HeldRun.init max) ops = some r) :
    (¬r.Begun → r.routed = []) ∧
      (r.overflow = none → r.routed ++ r.pending = r.received) ∧
      (r.overflow = none → r.held.released = true → r.consumer = .reading →
        r.routed = r.received) ∧
      (∀ upd, r.overflow = some upd → r.routed ++ r.pending ++ [upd] = r.received ∧ r.Overflowed) ∧
      ∀ (srv : Server) (us : List ServerUpdate) (i j : ℕ) (data : SyncData) (st : Store), i ≤ j →
        data.SnapshotOf (srv.after (us.take j)) →
          Agrees (routeAll (us.drop i) (syncClient data st)) (srv.after us) := by
  have hi := HeldRun.exec_inv h
  have horder := hi.order
  refine ⟨hi.quiet, fun ho => ?_, fun ho hrel hc => ?_, fun upd ho => ?_,
    fun srv us i j data st hij hd => agrees_replay hij hd st⟩
  · simpa only [ho, Option.toList_none, List.append_nil] using horder
  · obtain ⟨hbuf, hreplaying⟩ := hi.drained hrel
    simpa only [ho, HeldRun.pending, HeldRun.inHand, hc, hreplaying, Option.getD_none, hbuf,
      Option.toList_none, List.append_nil] using horder
  · refine ⟨?_, hi.overflowed (by simp [ho])⟩
    simpa only [ho, Option.toList_some] using horder

/-- A client joins, is seen while the snapshot loads and leaves after `Release`. -/
def joined : ServerUpdate :=
  ⟨.clientJoined, some (.clientUpdate ⟨some "g-1", some ⟨"Maverick", "blue", "VF-1", 0⟩, none⟩)⟩

def left : ServerUpdate := ⟨.clientLeft, some (.clientUpdate ⟨some "g-1", none, none⟩)⟩

theorem held_converges_join : ∃ r : HeldRun,
    exec HeldRun.step (HeldRun.init 256)
      [.recv joined, .lock, .release, .recv left, .replay, .replay, .lock, .route] = some r ∧
      r.routed = [joined, left] ∧ r.routed = r.received ∧
      Agrees (routeAll [joined, left] (syncClient
        ⟨(∅ : AList fun _ : Guid => ClientInfo).insert "g-1" ⟨"Maverick", "blue", "VF-1", 0⟩, ∅,
          some ⟨[], [], [], 4⟩, "", "", "s"⟩ Store.new))
        (Server.after ⟨fun _ => none, fun _ => none, ⟨[], [], [], 4⟩⟩ [joined, left]) := by
  have hrun : exec HeldRun.step (HeldRun.init 256)
      [.recv joined, .lock, .release, .recv left, .replay, .replay, .lock, .route] =
        some ⟨⟨256, [], true⟩, .reading, none, [joined, left], [joined, left], none, false⟩ := by
    decide +kernel
  obtain ⟨-, -, hrouted, -, hagrees⟩ := held_converges hrun
  refine ⟨_, hrun, rfl, hrouted rfl rfl rfl, ?_⟩
  refine hagrees ⟨fun _ => none, fun _ => none, ⟨[], [], [], 4⟩⟩ [joined, left] 0 1 _ Store.new
    (by decide) ⟨fun guid => ?_, fun guid => rfl, rfl⟩
  show _ = Function.update (fun _ => none) "g-1" (some _) guid
  by_cases hg : guid = "g-1"
  · subst hg
    simp only [AList.lookup_insert, Function.update_self]
  · rw [AList.lookup_insert_ne hg, Function.update_of_ne hg]
    rfl

end VcsClient.Control
