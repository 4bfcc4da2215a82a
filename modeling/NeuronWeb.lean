import NeuronWeb.Consensus.ConflictResolver
import NeuronWeb.Consensus.QuorumIntersection
import NeuronWeb.Consensus.SeatGrinding
import NeuronWeb.Consensus.SeedChain
import NeuronWeb.Consensus.Vrf
import NeuronWeb.Content.Calibration
import NeuronWeb.Content.ChallengeSelection
import NeuronWeb.Content.ChordDht
import NeuronWeb.Content.FailureComponents
import NeuronWeb.Content.FileFold
import NeuronWeb.Content.ManifestCodec
import NeuronWeb.Content.Presence
import NeuronWeb.Content.QuotaCheck
import NeuronWeb.Content.SaturationPlan
import NeuronWeb.Content.Settlement
import NeuronWeb.Content.UnobservedProviders
import NeuronWeb.Core.DomainNames
import NeuronWeb.Core.InclusionBinding
import NeuronWeb.Core.SubAccounts
import NeuronWeb.Directory.RelayOrder
import NeuronWeb.Directory.SendPath
import NeuronWeb.Economy.Rewards
import NeuronWeb.Ledger.AtomicAdd
import NeuronWeb.Ledger.ClaimedOnce
import NeuronWeb.Ledger.Conservation
import NeuronWeb.Ledger.EvidenceSoundness
import NeuronWeb.Ledger.FrozenInert
import NeuronWeb.Ledger.LateVotes
import NeuronWeb.Ledger.LearnedFirst
import NeuronWeb.Ledger.PurgeResync
import NeuronWeb.Ledger.ReplayOrder
import NeuronWeb.Ledger.Reset
import NeuronWeb.Ledger.SignedOnly
import NeuronWeb.Ledger.Usernames
import NeuronWeb.Ledger.VotingPower
import NeuronWeb.Net.RelayDirectory
import NeuronWeb.Network.ProviderLookup
import NeuronWeb.Network.ShareRefresh
import NeuronWeb.Node.ArchiveRetention
import NeuronWeb.Node.CommitteeVotes
import NeuronWeb.Node.DeltaSync
import NeuronWeb.Node.EngineIngest
import NeuronWeb.Node.LyingArchive
import NeuronWeb.Node.ResyncWatermark
import NeuronWeb.Node.Snapshot
import NeuronWeb.Node.WithdrawalSweep
import NeuronWeb.Recovery.BadRelay
import NeuronWeb.Recovery.BlobRoundTrip
import NeuronWeb.Recovery.PinLockout
import NeuronWeb.Recovery.Threshold
import NeuronWeb.Relay.ChainBackfill
import NeuronWeb.Relay.Challenges
import NeuronWeb.Relay.NetworkIsolation
import NeuronWeb.Relay.Nullifiers
import NeuronWeb.Relay.ShareBinding
import NeuronWeb.Relay.Usernames
import NeuronWeb.Storage.Devices
import NeuronWeb.Storage.ProviderSelection
import NeuronWeb.Storage.PublisherCopy
import NeuronWeb.Storage.RangeReads
import NeuronWeb.Storage.ReadCredit
