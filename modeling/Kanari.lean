import Kanari.Proofs.Provenance
import Kanari.Proofs.TxContext
import Kanari.Proofs.BurnBatch
import Kanari.Proofs.DagFinalization
import Kanari.Proofs.Pruning
import Kanari.Proofs.DenyLists
import Kanari.Proofs.SessionBinding
import Kanari.Proofs.SignatureMemos
import Kanari.Proofs.Publication
import Kanari.Proofs.AccessSets
import Kanari.Proofs.StreamAuthenticity
import Kanari.Proofs.MerkleProofs
import Kanari.Proofs.SparseStaging
import Kanari.Proofs.NodeKeys
import Kanari.Proofs.RootCommitment
import Kanari.Proofs.AccessVersions
import Kanari.Proofs.ConflictKeys
import Kanari.Proofs.ArgumentText
import Kanari.Proofs.TypeArguments
import Kanari.Proofs.FieldTypes
import Kanari.Proofs.CompressedProofs
import Kanari.Proofs.MultisigPaths
import Kanari.Proofs.ThresholdSignatures
import Kanari.Proofs.SignedMessages
import Kanari.Proofs.ZkLoginAddress
import Kanari.Proofs.Payments
import Kanari.Proofs.BcsReading
import Kanari.Proofs.Quotes
import Kanari.Proofs.RootsAndPowers
import Kanari.Proofs.RateLimits
import Kanari.Proofs.Backoff
import Kanari.Proofs.Schedules
import Kanari.Proofs.TransactionLookup
import Kanari.Proofs.SyncBuffers
import Kanari.Proofs.SuggestedNonces
import Kanari.Proofs.CheckpointRoundTrip
import Kanari.Proofs.SyncEvidence
import Kanari.Proofs.LockedRecords
import Kanari.Proofs.ChunkTransfers
import Kanari.Proofs.ObjectStorage
import Kanari.Proofs.SnapshotRoundTrip
