import VcsClient.App.Capture
import VcsClient.App.CaptureExclusive
import VcsClient.App.FlushNotice
import VcsClient.App.Follows
import VcsClient.App.HoldMap
import VcsClient.App.HotkeyNotices
import VcsClient.App.Muting
import VcsClient.App.OneOwner
import VcsClient.App.PermissionPoll
import VcsClient.App.PersistCfg
import VcsClient.App.PersistSerial
import VcsClient.App.PressBalance
import VcsClient.App.Profiles
import VcsClient.App.PushToTalk
import VcsClient.App.RadioPush
import VcsClient.App.ReceiveFollows
import VcsClient.App.Receiving
import VcsClient.App.Redirects
import VcsClient.App.Refresh
import VcsClient.App.SelectedRadio
import VcsClient.App.Signature
import VcsClient.App.Voice
import VcsClient.App.VoiceHealth
import VcsClient.App.VoiceOwner
import VcsClient.App.VoiceTargets
import VcsClient.App.Windows
import VcsClient.Audio.FrameBuffer
import VcsClient.Audio.Gate
import VcsClient.Audio.PttTiming
import VcsClient.Audio.Reopen
import VcsClient.Audio.Ring
import VcsClient.Audio.RingFifo
import VcsClient.Audio.Streams
import VcsClient.Audio.StreamsOwned
import VcsClient.Audio.Voices
import VcsClient.Audio.VoicesWhole
import VcsClient.Audio.VoxHang
import VcsClient.Audio.Wav
import VcsClient.Config.Config
import VcsClient.Config.Quote
import VcsClient.Connhealth.Monitor
import VcsClient.Connhealth.Samples
import VcsClient.Control.Converge
import VcsClient.Control.Held
import VcsClient.Control.Stream
import VcsClient.History.Csv
import VcsClient.History.Log
import VcsClient.History.Mirror
import VcsClient.History.Persist
import VcsClient.Hotkeys.Dispatch
import VcsClient.Hotkeys.KeyStream
import VcsClient.Hotkeys.Notify
import VcsClient.Hotkeys.OneStream
import VcsClient.Hotkeys.Repeat
import VcsClient.Hydrate.ClientState
import VcsClient.Hydrate.Disposed
import VcsClient.Hydrate.Guard
import VcsClient.Hydrate.Results
import VcsClient.Hydrate.Settled
import VcsClient.Joystick.Balanced
import VcsClient.Joystick.Capture
import VcsClient.Joystick.Fires
import VcsClient.Joystick.Hats
import VcsClient.Joystick.Manager
import VcsClient.Joystick.Resolve
import VcsClient.Keybinds.Chord
import VcsClient.Keybinds.Exclusive
import VcsClient.Keybinds.RoundTrip
import VcsClient.Keybinds.Store
import VcsClient.Keybinds.Trigger
import VcsClient.Lib.Announce
import VcsClient.Lib.Assoc
import VcsClient.Lib.BigEndian
import VcsClient.Lib.Binary64
import VcsClient.Lib.Bitmap
import VcsClient.Lib.Csv
import VcsClient.Lib.Decimal
import VcsClient.Lib.Deltas
import VcsClient.Lib.Fields
import VcsClient.Lib.FirstMatch
import VcsClient.Lib.Firsts
import VcsClient.Lib.History
import VcsClient.Lib.HostPort
import VcsClient.Lib.Json
import VcsClient.Lib.Listing
import VcsClient.Lib.Lists
import VcsClient.Lib.LittleEndian
import VcsClient.Lib.Log
import VcsClient.Lib.Machine
import VcsClient.Lib.Owed
import VcsClient.Lib.Patches
import VcsClient.Lib.Rounding
import VcsClient.Lib.Runs
import VcsClient.Lib.Saving
import VcsClient.Lib.Serial
import VcsClient.Lib.Slots
import VcsClient.Lib.Spells
import VcsClient.Lib.Terminated
import VcsClient.Lib.Text
import VcsClient.Lib.Toml
import VcsClient.Loadgen.CmdProto
import VcsClient.Loadgen.Deaths
import VcsClient.Loadgen.Hist
import VcsClient.Loadgen.Joins
import VcsClient.Loadgen.Ledger
import VcsClient.Loadgen.Ramp
import VcsClient.Loadgen.RateLimiter
import VcsClient.Loadgen.Reflect
import VcsClient.Notify.Coalesce
import VcsClient.Notify.Dismissal
import VcsClient.Notify.Fingerprint
import VcsClient.Notify.Instant
import VcsClient.Notify.Invariant
import VcsClient.Notify.Rate
import VcsClient.Notify.Runs
import VcsClient.Notify.Sections
import VcsClient.Notify.Settled
import VcsClient.Notify.Settles
import VcsClient.Notify.Share
import VcsClient.Notify.ShareRows
import VcsClient.Notify.ShareSections
import VcsClient.Notify.ShareSteps
import VcsClient.Notify.Store
import VcsClient.Notify.Windows
import VcsClient.Profile.Document
import VcsClient.Profile.Seed
import VcsClient.Profile.Starts
import VcsClient.Profile.Store
import VcsClient.Session.Attempts
import VcsClient.Session.Cancellation
import VcsClient.Session.Contexts
import VcsClient.Session.Departed
import VcsClient.Session.Dial
import VcsClient.Session.Flow
import VcsClient.Session.Life
import VcsClient.Session.Machine
import VcsClient.Session.Moves
import VcsClient.Session.Published
import VcsClient.Session.State
import VcsClient.Session.Streams
import VcsClient.Session.Superseded
import VcsClient.Session.Threads
import VcsClient.Session.Verdicts
import VcsClient.Settings.Commits
import VcsClient.Settings.Kept
import VcsClient.Shared.Freq
import VcsClient.Shared.Throttle
import VcsClient.State.Store
import VcsClient.Voice.Endpoint
import VcsClient.Voice.Freq
import VcsClient.Voice.Goodbye
import VcsClient.Voice.Jitter
import VcsClient.Voice.JitterDeadline
import VcsClient.Voice.JitterDelivery
import VcsClient.Voice.JitterOrder
import VcsClient.Voice.JitterWindow
import VcsClient.Voice.Keepalive
import VcsClient.Voice.Lifecycle
import VcsClient.Voice.Packet
import VcsClient.Voice.Rebinding
import VcsClient.Voice.Receiver
import VcsClient.Voice.Rx
import VcsClient.Voice.RxClose
import VcsClient.Voice.RxHistory
import VcsClient.Voice.RxIdle
import VcsClient.Voice.RxReports
import VcsClient.Voice.RxStreams
import VcsClient.Voice.Tx
import VcsClient.Voice.TxConserved
import VcsClient.Voice.TxKeyed
import VcsClient.Voice.TxOrder
import VcsClient.Voice.TxPipeline
