import VcsClient.State.Store

/-!
# The update stream and the snapshot

`route` of `stream.go`, which takes one server update into the store and the
emitter, and what `SyncClient` does to the store with a successful answer. The
answer's maps are ranged over, so it stands here with its entries in the order
the loops visit them.
-/

namespace VcsClient.Control

open VcsClient.State

/-- `ServerUpdate.UpdateType`; a number the enumeration does not have counts as
unknown. -/
inductive UpdateType where
  | unknown
  | clientJoined
  | clientLeft
  | clientRadioUpdate
  | clientInfoUpdate
  | serverSettingsChanged
  | serverAction
  | distributionUpdate
  | voiceAddressUpdate
  deriving DecidableEq

structure ClientUpdate where
  clientGuid : Option Guid
  clientInfo : Option ClientInfo
  radioInfo : Option RadioInfo
  deriving DecidableEq

structure VoiceAddressUpdate where
  coalitionVoiceAddr : String
  globalVoiceAddr : String
  voiceSecret : String
  deriving DecidableEq

/-- The `oneof` of `ServerUpdate`. -/
inductive Payload where
  | clientUpdate (cu : ClientUpdate)
  | serverAction
  | settingsUpdate (s : ServerSettings)
  | voiceHosts
  | voiceAddressUpdate (vu : VoiceAddressUpdate)
  deriving DecidableEq

structure ServerUpdate where
  type : UpdateType
  update : Option Payload
  deriving DecidableEq

namespace ServerUpdate

def getClientUpdate (upd : ServerUpdate) : Option ClientUpdate :=
  match upd.update with
  | some (.clientUpdate cu) => some cu
  | _ => none

def getSettingsUpdate (upd : ServerUpdate) : Option ServerSettings :=
  match upd.update with
  | some (.settingsUpdate s) => some s
  | _ => none

def getVoiceAddressUpdate (upd : ServerUpdate) : Option VoiceAddressUpdate :=
  match upd.update with
  | some (.voiceAddressUpdate vu) => some vu
  | _ => none

end ServerUpdate

def ClientUpdate.getClientGuid (cu : ClientUpdate) : Guid := cu.clientGuid.getD ""

/-- What `route` emits. -/
inductive Event where
  | clientUpdate (guid : Guid) (name coalition unitId : String) (roleId : UInt32)
  | clientLeft (guid : Guid)
  | radioUpdate (guid : Guid) (radios : List Radio) (muted : Bool)
  | voiceAddressUpdate (coalitionAddr globalAddr : String)
  deriving DecidableEq

/-- `route`: the store and the events of one update. -/
def route (upd : ServerUpdate) (st : Store) : Store × List Event :=
  match upd.type with
  | .clientJoined | .clientInfoUpdate =>
    match upd.getClientUpdate with
    | none => (st, [])
    | some cu =>
      match cu.clientInfo with
      | none => (st, [])
      | some info =>
        let guid := cu.getClientGuid
        (st.updateClient guid info,
          [.clientUpdate guid info.name info.coalition info.unitId info.roleId])
  | .clientLeft =>
    match upd.getClientUpdate with
    | none => (st, [])
    | some cu => (st.removeClient cu.getClientGuid, [.clientLeft cu.getClientGuid])
  | .clientRadioUpdate =>
    match upd.getClientUpdate with
    | none => (st, [])
    | some cu =>
      match cu.radioInfo with
      | none => (st, [])
      | some info =>
        (st.setRadios cu.getClientGuid info, [.radioUpdate cu.getClientGuid info.radios info.muted])
  | .serverSettingsChanged =>
    match upd.getSettingsUpdate with
    | none => (st, [])
    | some s => (st.setSettings s, [])
  | .voiceAddressUpdate =>
    match upd.getVoiceAddressUpdate with
    | none => (st, [])
    | some vu =>
      -- a blank secret is a malformed message, not a revocation
      let st :=
        if vu.voiceSecret ≠ "" then
          st.setVoiceCredentials vu.voiceSecret vu.coalitionVoiceAddr vu.globalVoiceAddr
        else st.setVoiceAddresses vu.coalitionVoiceAddr vu.globalVoiceAddr
      (st, [.voiceAddressUpdate vu.coalitionVoiceAddr vu.globalVoiceAddr])
  | .serverAction | .distributionUpdate | .unknown => (st, [])

/-- The updates routed one after the other. -/
def routeAll (us : List ServerUpdate) (st : Store) : Store := us.foldl (fun st u => (route u st).1) st

/-- `ServerSyncResult`, its maps listed in the order they are ranged over. -/
structure SyncData where
  clients : AList fun _ : Guid => ClientInfo
  radios : AList fun _ : Guid => RadioInfo
  settings : Option ServerSettings
  coalitionVoiceAddr : String
  globalVoiceAddr : String
  voiceSecret : String

/-- One mutator call of `SyncClient`. -/
inductive Hydration where
  | resetRoster
  | updateClient (guid : Guid) (info : ClientInfo)
  | setRadios (guid : Guid) (info : RadioInfo)
  | setSettings (settings : ServerSettings)
  | setVoiceCredentials (secret coalitionAddr globalAddr : String)
  | setVoiceAddresses (coalitionAddr globalAddr : String)
  deriving DecidableEq

def Hydration.apply (st : Store) : Hydration → Store
  | .resetRoster => st.resetRoster
  | .updateClient guid info => st.updateClient guid info
  | .setRadios guid info => st.setRadios guid info
  | .setSettings settings => st.setSettings settings
  | .setVoiceCredentials secret coalitionAddr globalAddr =>
    st.setVoiceCredentials secret coalitionAddr globalAddr
  | .setVoiceAddresses coalitionAddr globalAddr => st.setVoiceAddresses coalitionAddr globalAddr

namespace SyncData

def hadSecret (data : SyncData) : Bool := data.voiceSecret ≠ ""

/-- The mutator calls of `SyncClient` on a successful answer, in order. -/
def hydrations (data : SyncData) : List Hydration :=
  .resetRoster ::
    (data.clients.entries.map fun e => Hydration.updateClient e.1 e.2) ++
    (data.radios.entries.map fun e => Hydration.setRadios e.1 e.2) ++
    (data.settings.toList.map Hydration.setSettings) ++
    [if data.hadSecret then
      .setVoiceCredentials data.voiceSecret data.coalitionVoiceAddr data.globalVoiceAddr
    else .setVoiceAddresses data.coalitionVoiceAddr data.globalVoiceAddr]

end SyncData

/-- `SyncClient` on a successful answer. -/
def syncClient (data : SyncData) (st : Store) : Store := data.hydrations.foldl Hydration.apply st

end VcsClient.Control
