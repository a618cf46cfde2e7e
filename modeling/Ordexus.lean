import Ordexus.Node.BlockhashQueue
import Ordexus.Node.EpochCaches
import Ordexus.Node.RoundSplit
import Ordexus.Consensus.RefusedBlock
import Ordexus.Programs.Unbonding
import Ordexus.Programs.LoaderRuns
import Ordexus.Runtime.Conservation
import Ordexus.Runtime.PoolReserve
import Ordexus.Programs.StakeMaturity
import Ordexus.Consensus.VoteOrder
import Ordexus.Blockchain.Durability
import Ordexus.Node.SigningRuns
import Ordexus.Consensus.LeaderDraws
import Ordexus.Runtime.FailedTransaction
import Ordexus.Consensus.SlashingOrder
import Ordexus.Vm.ImageRoundTrip
