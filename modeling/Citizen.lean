import Citizen.Arrays.Basic
import Citizen.Arrays.Bounds
import Citizen.Arrays.Convergence
import Citizen.ClientRegistry.Basic
import Citizen.ClientRegistry.Coherence
import Citizen.ClientRegistry.Drops
import Citizen.ClientRegistry.Election
import Citizen.ClientRegistry.Handshake
import Citizen.ClientRegistry.Host
import Citizen.ClientRegistry.Once
import Citizen.CloneManager.FrameAck
import Citizen.CloneManager.FrameAckRoundTrip
import Citizen.CloneManager.FrameSound
import Citizen.CloneManager.FrameSync
import Citizen.CloneManager.ObjectIds
import Citizen.CloneManager.ServerAcks
import Citizen.CloneManager.ServerAcksSound
import Citizen.Clones.Ack
import Citizen.Clones.Fragments
import Citizen.Clones.HandleCloneUpdate
import Citizen.Clones.NAck
import Citizen.Clones.NodeWrapper
import Citizen.Clones.Relay
import Citizen.Clones.ServerSetters
import Citizen.Clones.Slot
import Citizen.Console.Constraints
import Citizen.Console.ExecuteBuffer
import Citizen.Console.Grammar
import Citizen.Console.Replication
import Citizen.Console.SaveConfiguration
import Citizen.Console.Tokenize
import Citizen.Console.Variables
import Citizen.EventCore.Dispatch
import Citizen.EventCore.RefContainer
import Citizen.EventCore.RefContainerRuns
import Citizen.EventCore.RefContainerSound
import Citizen.EventReassembly.Agreement
import Citizen.EventReassembly.Bounds
import Citizen.EventReassembly.Burst
import Citizen.EventReassembly.Calls
import Citizen.EventReassembly.Collect
import Citizen.EventReassembly.Component
import Citizen.EventReassembly.Isolation
import Citizen.EventReassembly.Network
import Citizen.EventReassembly.Packet
import Citizen.EventReassembly.Receive
import Citizen.EventReassembly.Send
import Citizen.EventReassembly.Sender
import Citizen.EventReassembly.Tick
import Citizen.EventReassembly.Tracking
import Citizen.EventReassembly.WireFormat
import Citizen.GameServer.ConnectionToken
import Citizen.GameServer.DeferCall
import Citizen.GameState.Apart
import Citizen.GameState.Basic
import Citizen.GameState.ClientTick
import Citizen.GameState.Consistent
import Citizen.GameState.Creations
import Citizen.GameState.Deletions
import Citizen.GameState.Drop
import Citizen.GameState.FrameBacklog
import Citizen.GameState.Frames
import Citizen.GameState.Lockdown
import Citizen.GameState.Messages
import Citizen.GameState.ObjectIdList
import Citizen.GameState.ObjectIds
import Citizen.GameState.Ownership
import Citizen.GameState.PlayerSlots
import Citizen.GameState.Records
import Citizen.GameState.Registry
import Citizen.GameState.Removes
import Citizen.GameState.Scopes
import Citizen.GameState.SlotScan
import Citizen.GameState.Tick
import Citizen.HttpServer.Arrival
import Citizen.HttpServer.Basic
import Citizen.HttpServer.ChunkedBodies
import Citizen.HttpServer.Connection
import Citizen.HttpServer.Http2
import Citizen.HttpServer.Http2Bodies
import Citizen.HttpServer.Http2Response
import Citizen.HttpServer.OneRead
import Citizen.HttpServer.PostString
import Citizen.HttpServer.Response
import Citizen.HttpServer.ResponseFraming
import Citizen.InitConnect.Deferral
import Citizen.InitConnect.SingleUse
import Citizen.InitConnect.Ticket
import Citizen.InitConnect.TicketBounds
import Citizen.Lib.Adjacent
import Citizen.Lib.AssocMap
import Citizen.Lib.BinarySearch
import Citizen.Lib.Bits
import Citizen.Lib.Chunked
import Citizen.Lib.Congruential
import Citizen.Lib.Explore
import Citizen.Lib.FirstIndex
import Citizen.Lib.LittleEndian
import Citizen.Lib.Loop
import Citizen.Lib.OrderedMap
import Citizen.Lib.PrefixOrder
import Citizen.Lib.Round
import Citizen.Lib.Transition
import Citizen.MessageBuffer.Basic
import Citizen.MessageBuffer.Clone
import Citizen.MessageBuffer.CopyBits
import Citizen.MessageBuffer.Cursor
import Citizen.MessageBuffer.Field
import Citizen.MessageBuffer.RoundTrip
import Citizen.MessageBuffer.Signed
import Citizen.MessageBuffer.Single
import Citizen.MessageBuffer.Stream
import Citizen.MessageBuffer.Windows
import Citizen.MsgpackJson.Basic
import Citizen.MsgpackJson.RoundTrip
import Citizen.MsgpackJson.ToJson
import Citizen.Mumble.Audience
import Citizen.Mumble.Bandwidth
import Citizen.Mumble.Changes
import Citizen.Mumble.ChannelTree
import Citizen.Mumble.CryptState
import Citizen.Mumble.Isolation
import Citizen.Mumble.Membership
import Citizen.Mumble.MembershipRuns
import Citizen.Mumble.Messages
import Citizen.Mumble.Ocb
import Citizen.Mumble.Pds
import Citizen.Mumble.Relay
import Citizen.Mumble.Replay
import Citizen.Mumble.Server
import Citizen.Mumble.Voice
import Citizen.Mumble.VoiceChannel
import Citizen.Mumble.VoiceLink
import Citizen.Net.Buffer
import Citizen.Net.Cursor
import Citizen.Net.Multiplex
import Citizen.Net.UvStream
import Citizen.ResourceKvp.Basic
import Citizen.ResourceKvp.Isolation
import Citizen.Resources.FileDatabase
import Citizen.Resources.FilesComponent
import Citizen.Resources.ForAllResources
import Citizen.Resources.GetResource
import Citizen.Resources.MatchFiles
import Citizen.Resources.MatchFilesSound
import Citizen.Resources.NormalizePath
import Citizen.Resources.StartOrder
import Citizen.Resources.StartOrderSound
import Citizen.Resources.StreamComponent
import Citizen.Security.Context
import Citizen.Security.History
import Citizen.ServerRPC.Native
import Citizen.ServerRPC.ReplayList
import Citizen.ServerRPC.Tokens
import Citizen.StateBag.Component
import Citizen.StateBag.Lifetime
import Citizen.StateBag.Malformed
import Citizen.StateBag.Packet
import Citizen.StateBag.Replication
import Citizen.StateBag.Routed
import Citizen.StateBag.Routing
import Citizen.StateBag.Send
import Citizen.Vehicles.Occupants
import Citizen.Vehicles.Seats
import Citizen.Vfs.FileHandle
import Citizen.Vfs.FileHandleSound
import Citizen.Vfs.FindEntry
import Citizen.Vfs.RagePackfile7
import Citizen.WorldGrid.Basic
import Citizen.WorldGrid.Owners
