import BupApp.Lib.Transition
import BupApp.Lib.Text
import BupApp.Lib.Ipv4
import BupApp.App.Utils
import BupApp.App.Server
import BupApp.App.ServerSteps
import BupApp.App.ServerRuns
import BupApp.Server.TornReads
import BupApp.Lib.Shell
import BupApp.Server.ShellCommand
import BupApp.Lib.Overlay
import BupApp.Server.CopyTargets
import BupApp.Server.Isolation
import BupApp.Server.OutOfRange
import BupApp.App.Network
import BupApp.App.NetworkSteps
import BupApp.Network.Handshake
import BupApp.Network.KeyRetention
import BupApp.Network.KeyInstall
import BupApp.Network.StartUp
import BupApp.Network.AtMostOnce
import BupApp.Network.Feedback
import BupApp.Network.Echo
import BupApp.App.Session
import BupApp.Server.Reconnection
import BupApp.Server.FailedRegistration
import BupApp.Server.RegistryHistory
import BupApp.Server.NullMessages
import BupApp.Server.Exceptions
import BupApp.Server.Reregistration
import BupApp.Server.Addresses
import BupApp.Server.Independence
import BupApp.Server.Mkdir
import BupApp.Client.Registration
import BupApp.Client.KeyFile
import BupApp.Client.SetUp
import BupApp.Client.Requests
import BupApp.Server.PublicKey
import BupApp.Server.Recovery
import BupApp.Server.Wills
import BupApp.Lib.Segments
import BupApp.Client.KeyWait
import BupApp.Client.ReplyLog
import BupApp.Server.Lookup
import BupApp.Lib.Stdio
import BupApp.Server.CommandOutput
import BupApp.Lib.Refinement
import BupApp.Lib.Fifo
import BupApp.Mqtt.ThreadQueue
import BupApp.Mqtt.QueueFifo
import BupApp.Mqtt.WakeUps
import BupApp.Mqtt.Token
import BupApp.Mqtt.AsyncClient
import BupApp.Mqtt.PendingTokens
import BupApp.Mqtt.Completion
import BupApp.Lib.Lag
import BupApp.Network.Gap
import BupApp.Network.Library
import BupApp.Network.Implements
import BupApp.Network.CutOff
import BupApp.Server.LogRace
import BupApp.Mqtt.LostConnection
import BupApp.Network.Delivery
import BupApp.Network.Settles
import BupApp.Network.Replies
import BupApp.Lib.Objects
import BupApp.Mqtt.Message
import BupApp.Mqtt.ConnectOptions
