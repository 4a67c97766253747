import Mathlib.Data.List.AList

/-!
# The configuration

The types of `internal/config` and of `internal/profile` that the settings
backend keeps and writes to `config.toml`. A 32-bit float is kept as its bits.
-/

namespace VcsClient

namespace Config

structure General where
  startMinimized : Bool
  minimizeToTray : Bool
  showTransmitterName : Bool
  playConnectionSounds : Bool
  playNotificationSounds : Bool
  radioSwitchAsPTT : Bool
  deriving DecidableEq

structure Radio where
  id : UInt32
  name : String
  frequencyKHz : UInt32
  enabled : Bool
  isIntercom : Bool
  deriving DecidableEq

structure LayoutBlock where
  radioID : UInt32
  variant : String
  deriving DecidableEq

structure CommsLayout where
  windowW : ℤ
  windowH : ℤ
  blocks : List LayoutBlock
  deriving DecidableEq

structure AudioLevels where
  master : UInt32
  voice : UInt32
  sfx : UInt32
  notification : UInt32
  deriving DecidableEq

structure AudioEffect where
  enabled : Bool
  file : String
  deriving DecidableEq

structure Audio where
  inputDevice : String
  outputDevice : String
  inputDeviceName : String
  outputDeviceName : String
  micPassthrough : Bool
  agc : Bool
  noiseSuppression : Bool
  vox : Bool
  voxThreshold : UInt32
  voxMinLengthMS : ℤ
  voxNoiseCancel : Bool
  voxHangMS : ℤ
  pttStartDelayMS : ℤ
  pttReleaseDelayMS : ℤ
  voiceEffect : String
  clippingEffect : String
  levels : AudioLevels
  effects : AList fun _ : String => AudioEffect

/-- `KeybindValue`. -/
abbrev KeybindValue := List String

/-- What `Reconcile` and the conversions leave of a `profile.Document`, as far as it
is applied. -/
structure Document where
  radios : List Radio
  layout : CommsLayout
  deriving DecidableEq

def defaultWindowW : ℤ := 540

def defaultWindowH : ℤ := 720

def defaultVariant : String := "vertical"

/-- `selectionFor`. -/
def selectionFor (radios : List Radio) (current : UInt32) : UInt32 :=
  if radios.any (fun r => r.id == current && r.enabled) then current
  else ((radios.find? (·.enabled)).map (·.id)).getD 0

end Config

/-- The fields of `Config` that a transaction writes. -/
structure Config where
  lastServerAddress : String
  general : Config.General
  keybinds : AList fun _ : String => Config.KeybindValue
  keybindDevices : AList fun _ : String => String
  audio : Config.Audio
  radios : List Config.Radio
  selectedRadioID : UInt32
  activeProfile : String
  profilesDir : String
  builtinProfiles : AList fun _ : String => String
  commsLayout : Config.CommsLayout

end VcsClient
