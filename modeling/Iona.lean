import Iona.Consensus.Accountability
import Iona.Consensus.Agreement
import Iona.Consensus.Chain
import Iona.Consensus.Evidence
import Iona.Consensus.GuardShare
import Iona.Consensus.LockRule
import Iona.Consensus.NonEquivocation
import Iona.Consensus.ProducerLife
import Iona.Consensus.ProposerCache
import Iona.Consensus.Quorum
import Iona.Consensus.SetHash
import Iona.Consensus.SetMerge
import Iona.Execution.Batch
import Iona.Execution.Equivalence
import Iona.Execution.Failure
import Iona.Execution.Fees
import Iona.Execution.Root
import Iona.Governance.Locking
import Iona.Governance.ProposalCache
import Iona.Hashing.Cache
import Iona.Hashing.Preimage
import Iona.Lst.Rounding
import Iona.Managers
import Iona.Mempool
import Iona.Mempool.Bookkeeping
import Iona.Mempool.Commit
import Iona.Mempool.Order
import Iona.Merkle.Binding
import Iona.Net.HostilePeers
import Iona.Rpc.LogQuery
import Iona.Slashing.RoundTrip
import Iona.Slashing.Uptime
import Iona.Staking.Bond
import Iona.Staking.Failure
import Iona.Staking.Jail
import Iona.Staking.RewardSplit
import Iona.Staking.Rewards
import Iona.Staking.SlashExact
import Iona.Staking.Tx
import Iona.Staking.Unbonding
import Iona.Storage.Attestation
import Iona.Storage.BlockIndex
import Iona.Storage.Delta
import Iona.Storage.Snapshots
import Iona.Tombstone
import Iona.Vm.Atomic
import Iona.Vm.Balance
import Iona.Vm.CachedEnds
import Iona.Vm.Charges
import Iona.Vm.Create
import Iona.Vm.Jumps
import Iona.Vm.Multiplication
import Iona.Vm.StackOrder
import Iona.Wal.Durability
