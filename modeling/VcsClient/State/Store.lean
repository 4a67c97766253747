import Mathlib.Data.List.AList

/-!
# The state store

The messages of `srs.proto` the client keeps and the store they are kept in,
with its mutators. A mutator is one locked section. Observers are not modelled.
-/

namespace VcsClient.State

abbrev Guid := String

/-- `ClientInfo`. -/
structure ClientInfo where
  name : String
  coalition : String
  unitId : String
  roleId : UInt32
  deriving DecidableEq

/-- `Radio`; the frequency is a 32-bit float, kept as its bits. -/
structure Radio where
  id : UInt32
  name : String
  frequency : UInt32
  enabled : Bool
  isIntercom : Bool
  deriving DecidableEq

/-- `RadioInfo`. -/
structure RadioInfo where
  radios : List Radio
  muted : Bool
  deriving DecidableEq

/-- `Coalition`. -/
structure Coalition where
  name : String
  color : String
  description : String
  deriving DecidableEq

/-- `ServerSettings`. -/
structure ServerSettings where
  coalitions : List Coalition
  testFrequencies : List UInt32
  globalFrequencies : List UInt32
  maxRadiosPerClient : Int
  deriving DecidableEq

structure Store where
  clients : AList fun _ : Guid => ClientInfo
  radios : AList fun _ : Guid => RadioInfo
  settings : Option ServerSettings
  selfGuid : Guid
  self : Option ClientInfo
  voiceSecret : String
  coalitionVoiceAddr : String
  globalVoiceAddr : String

namespace Store

/-- `New`. -/
def new : Store where
  clients := ∅
  radios := ∅
  settings := none
  selfGuid := ""
  self := none
  voiceSecret := ""
  coalitionVoiceAddr := ""
  globalVoiceAddr := ""

def updateClient (st : Store) (guid : Guid) (info : ClientInfo) : Store :=
  { st with clients := st.clients.insert guid info }

/-- The client goes with its radios. -/
def removeClient (st : Store) (guid : Guid) : Store :=
  { st with clients := st.clients.erase guid, radios := st.radios.erase guid }

def setRadios (st : Store) (guid : Guid) (info : RadioInfo) : Store :=
  { st with radios := st.radios.insert guid info }

def setSelf (st : Store) (guid : Guid) (info : ClientInfo) : Store :=
  { st with selfGuid := guid, self := some info }

def clearSelf (st : Store) : Store := { st with selfGuid := "", self := none }

def resetRoster (st : Store) : Store := { st with clients := ∅, radios := ∅ }

def setSettings (st : Store) (settings : ServerSettings) : Store :=
  { st with settings := some settings }

def setVoiceCredentials (st : Store) (secret coalitionAddr globalAddr : String) : Store :=
  { st with
    voiceSecret := secret
    coalitionVoiceAddr := coalitionAddr
    globalVoiceAddr := globalAddr }

def setVoiceAddresses (st : Store) (coalitionAddr globalAddr : String) : Store :=
  { st with coalitionVoiceAddr := coalitionAddr, globalVoiceAddr := globalAddr }

/-- The second section of `ResetSession`; the first is `resetRoster`. -/
def clearVoice (st : Store) : Store := st.setVoiceCredentials "" "" ""

/-- No client and no radio is known. -/
def RosterEmpty (st : Store) : Prop := st.clients = ∅ ∧ st.radios = ∅

def VoiceEmpty (st : Store) : Prop :=
  st.voiceSecret = "" ∧ st.coalitionVoiceAddr = "" ∧ st.globalVoiceAddr = ""

/-- The local client is not known. -/
def SelfEmpty (st : Store) : Prop := st.selfGuid = "" ∧ st.self = none

end Store

end VcsClient.State
