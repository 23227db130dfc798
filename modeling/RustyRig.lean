import RustyRig.Proofs.LinkTree.Run
import RustyRig.Proofs.LinkTree.Atomic
import RustyRig.Proofs.LinkMesh.Route
import RustyRig.Proofs.Identity.Revision
import RustyRig.Proofs.BackendWorker.Dominance
import RustyRig.Proofs.Link.Join
import RustyRig.Proofs.Link.Admission
import RustyRig.Proofs.Relay.Upstream
import RustyRig.Rrserver.BackendQueue
import RustyRig.Proofs.BackendWorker.Linked
import RustyRig.Proofs.BackendWorker.Ledger
import RustyRig.Proofs.BackendWorker.Completion
import RustyRig.Proofs.BackendWorker.Queue
import RustyRig.Proofs.RigProperties.Versions
import RustyRig.Proofs.Supervision.Provenance
import RustyRig.Proofs.Serial.Tunnel
import RustyRig.Lib.Chronicle
import RustyRig.Rrserver.Invitation
import RustyRig.Proofs.Invitation.Tables
import RustyRig.Proofs.Invitation.Lifecycle
import RustyRig.Lib.Register
import RustyRig.Rrserver.Catalog
import RustyRig.Proofs.Catalog.Keys
import RustyRig.Proofs.Catalog.Ownership
import RustyRig.Lib.Along
import RustyRig.Proofs.Catalog.Squatting
import RustyRig.Rrserver.RelayMedia
import RustyRig.Proofs.Base64.Codec
import RustyRig.Proofs.RelayMedia.Reassembly
import RustyRig.Rrserver.MeshAuth
import RustyRig.Proofs.MeshAuth.Mutual
import RustyRig.Rrserver.RelayAdmission
import RustyRig.Proofs.RelayAdmission.Windows
import RustyRig.Proofs.Serial.Tape
import RustyRig.Proofs.Serial.Bytes
import RustyRig.Rrserver.LinkPeers
import RustyRig.Proofs.Link.Agreement
import RustyRig.Proofs.LinkMesh.Table
import RustyRig.Proofs.LinkPeers.Provenance
import RustyRig.Proofs.RelayTables.Lost
import RustyRig.Proofs.Files.Slots
import RustyRig.Lib.Folds
import RustyRig.Proofs.BackendWorker.Shutdown
import RustyRig.Rrserver.RadioConfig
import RustyRig.Proofs.RadioConfig.Prepare
import RustyRig.Proofs.RadioConfig.Controllable
import RustyRig.Rrserver.BridgeManager
import RustyRig.Proofs.BridgeManager.Steps
import RustyRig.Proofs.BridgeManager.Tuning
import RustyRig.Proofs.BridgeManager.Newest
import RustyRig.Lib.Cumulative
import RustyRig.Rrclient.IrcDcc
import RustyRig.Proofs.IrcDcc.Session
import RustyRig.Proofs.IrcDcc.Agreement
import RustyRig.Proofs.IrcDcc.Transfer
import RustyRig.Proofs.IrcDcc.Complete
import RustyRig.Lib.Pages
import RustyRig.Rrclient.ReceiverCatalog
import RustyRig.Proofs.ReceiverCatalog.Pieces
import RustyRig.Proofs.ReceiverCatalog.Steps
import RustyRig.Proofs.ReceiverCatalog.Completion
import RustyRig.Rrserver.Link
import RustyRig.Proofs.LinkSnapshot.Sites
import RustyRig.Proofs.LinkSnapshot.Trees
import RustyRig.Rrserver.RigProperties
import RustyRig.Proofs.RigProperties.Control
import RustyRig.Proofs.Supervision.Forced
import RustyRig.Proofs.BridgeManager.Covered
import RustyRig.Lib.Lines
import RustyRig.Rrclient.IrcDccChat
import RustyRig.Proofs.IrcDccChat.Delivery
import RustyRig.Proofs.IrcDccChat.Arrival
import RustyRig.Rrbridge.KiwiRedirect
import RustyRig.Rrbridge.Kiwi
import RustyRig.Proofs.Kiwi.Response
import RustyRig.Proofs.Kiwi.Attempts
import RustyRig.Lib.Keyed
import RustyRig.Rrserver.PolicyTables
import RustyRig.Rrserver.PolicyCommands
import RustyRig.Proofs.Policy.Rows
import RustyRig.Proofs.Policy.Commands
import RustyRig.Proofs.Policy.Effective
import RustyRig.Rrserver.AccessRequests
import RustyRig.Proofs.AccessRequests.Grants
import RustyRig.Proofs.AccessRequests.Run
import RustyRig.Rrserver.LinkDeferred
import RustyRig.Proofs.Link.Deferred
import RustyRig.Rrserver.Identity
import RustyRig.Proofs.Identity.Numeral
import RustyRig.Proofs.RadioConfig.Exclusive
import RustyRig.Proofs.RigProperties.Schema
import RustyRig.Proofs.RigProperties.Definitions
import RustyRig.Rrserver.MeshEnroll
import RustyRig.Proofs.MeshEnroll.Import
import RustyRig.Proofs.MeshEnroll.Downgrade
import RustyRig.Rrserver.RelayTables
import RustyRig.Proofs.RelayTables.Fanout
import RustyRig.Lib.Scanf
import RustyRig.Rrserver.RxSlice
import RustyRig.Proofs.RxSlice.Names
import RustyRig.Proofs.RxSlice.Registry
import RustyRig.Lib.Slots
import RustyRig.Rrserver.RigRegistry
import RustyRig.Proofs.RigRegistry.Numbers
import RustyRig.Lib.Checked
import RustyRig.Rrserver.Si5351
import RustyRig.Lib.Nearest
import RustyRig.Proofs.Si5351.Plan
import RustyRig.Lib.Attempt
import RustyRig.Rrserver.Si5351Driver
import RustyRig.Proofs.Si5351.Synthesizer
import RustyRig.Proofs.Si5351.Record
import RustyRig.Proofs.Si5351.Synced
import RustyRig.Lib.Inodes
import RustyRig.Rrserver.FilePaths
import RustyRig.Proofs.FilePaths.Confined
import RustyRig.Lib.Acyclic
import RustyRig.Lib.Frontier
import RustyRig.Rrclient.AudioGraph
import RustyRig.Proofs.AudioGraph.Acyclic
import RustyRig.Lib.Ring
import RustyRig.Rrclient.AudioEngine
import RustyRig.Proofs.AudioEngine.Streams
import RustyRig.Proofs.AudioEngine.Runs
import RustyRig.Lib.Limiter
import RustyRig.Libfwdspmgr.Subproc
import RustyRig.Libfwdspmgr.SpawnGuard
import RustyRig.Proofs.SpawnGuard.Limit
import RustyRig.Lib.Keyset
import RustyRig.Rrserver.AdminListing
import RustyRig.Proofs.AdminListing.Pages
import RustyRig.Lib.Words
import RustyRig.Librustyirc.Message
import RustyRig.Proofs.IrcMessage.RoundTrip
import RustyRig.Lib.Numeral
import RustyRig.Librustyirc.DccOffer
import RustyRig.Proofs.DccOffer.Decoder
import RustyRig.Lib.Newest
import RustyRig.Libfwdspmgr.PcmBacklog
import RustyRig.Proofs.PcmBacklog.Newest
import RustyRig.Libfwdspmgr.ParseRead
import RustyRig.Proofs.ParseRead.Taps
import RustyRig.Lib.Buffer
import RustyRig.Librustyirc.Sasl
import RustyRig.Proofs.Sasl.Response
import RustyRig.Lib.Glob
import RustyRig.Rrserver.Quota
import RustyRig.Proofs.Quota.Matches
import RustyRig.Rrserver.Gps
import RustyRig.Proofs.Gps.Angle
import RustyRig.Librustyirc.DccAudio
import RustyRig.Proofs.DccAudio.Codecs
import RustyRig.Proofs.IrcConnection.Framing
import RustyRig.Proofs.IrcConnection.Negotiation
import RustyRig.Lib.Settle
import RustyRig.Rrclient.Objects
import RustyRig.Proofs.Objects.Removal
import RustyRig.Proofs.Objects.Cache
import RustyRig.Rrserver.Ptt
import RustyRig.Proofs.Ptt.Accounting
import RustyRig.Proofs.Ptt.Safety
import RustyRig.Proofs.Gps.Runs
