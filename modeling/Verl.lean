import Verl.Base.Python
import Verl.Base.Dict
import Verl.Base.Grouping
import Verl.Base.Heapq
import Verl.Base.Blocks
import Verl.Base.Reindex
import Verl.Base.Masked
import Verl.Base.Rebind
import Verl.Base.Text
import Verl.Base.Staged
import Verl.Base.Machine
import Verl.Base.Spmd
import Verl.Base.Tensor
import Verl.Base.NdArray
import Verl.Base.Effects
import Verl.Base.Discounted
import Verl.Base.Ranking
import Verl.Base.Strings
import Verl.Base.Regex
import Verl.Base.Tags
import Verl.Base.Search
import Verl.Base.Replace
import Verl.Base.Substitute
import Verl.Base.Binary64
import Verl.Base.Numerals
import Verl.Base.Brackets
import Verl.Base.Lines
import Verl.Base.Bump
import Verl.Base.FileTree
import Verl.Base.FirstFit
import Verl.Base.Matching
import Verl.Base.Layout
import Verl.Base.Bounds
import Verl.Base.CText
import Verl.Base.ClassicBpf
import Verl.Protocol.DataProto
import Verl.Protocol.Rows
import Verl.Protocol.Collectives
import Verl.Protocol.Operations
import Verl.Protocol.Invariant
import Verl.Protocol.Heap
import Verl.Protocol.Runs
import Verl.Protocol.InPlace
import Verl.Protocol.PopUnion
import Verl.Protocol.Padding
import Verl.Protocol.NdProto
import Verl.Protocol.RowMaps
import Verl.Protocol.FoldBatch
import Verl.Megatron.Layout
import Verl.Megatron.LayerMap
import Verl.SingleController.Dispatch
import Verl.SingleController.MegatronDispatch
import Verl.SingleController.ResourcePool
import Verl.SingleController.Colocated
import Verl.SingleController.ColocatedDispatch
import Verl.SingleController.ExecuteAll
import Verl.SingleController.ExtractPg
import Verl.SeqlenBalancing.KarmarkarKarp
import Verl.SeqlenBalancing.Partitions
import Verl.SeqlenBalancing.Spread
import Verl.SeqlenBalancing.MicroBatches
import Verl.SeqlenBalancing.TokenBudget
import Verl.Checkpoint.Managers
import Verl.Checkpoint.Trainer
import Verl.Checkpoint.Resume
import Verl.Checkpoint.MegatronRestore
import Verl.Checkpoint.LocalPaths
import Verl.Checkpoint.ModelMerger
import Verl.Trainer.Fit
import Verl.Trainer.Restarts
import Verl.Trainer.PrimeSteps
import Verl.Trainer.Advantage
import Verl.Trainer.KlController
import Verl.Trainer.SftStep
import Verl.Trainer.TokenTensors
import Verl.Trainer.Gae
import Verl.Trainer.RewardToGo
import Verl.Trainer.Rloo
import Verl.Trainer.PrimeRloo
import Verl.Trainer.BalanceBatch
import Verl.Trainer.PrimeFilter
import Verl.Trainer.ResourcePools
import Verl.Llama.Weights
import Verl.Llama.Shards
import Verl.Llama.Model
import Verl.Llama.Loader
import Verl.Llama.Saver
import Verl.Llama.Placement
import Verl.Llama.LoadShards
import Verl.Llama.Replicas
import Verl.Llama.MergeShards
import Verl.Llama.RoundTrip
import Verl.Llama.SaverLockstep
import Verl.Workers.Forward
import Verl.Workers.PrimeRewardModel
import Verl.Workers.PrimeTokenScore
import Verl.Workers.LossWeights
import Verl.Workers.Rollout
import Verl.Workers.RolloutOrder
import Verl.Workers.SglangRollout
import Verl.Workers.LeftPadding
import Verl.Workers.SamplingParams
import Verl.Workers.RemovePadding
import Verl.Workers.RmpadLogProbs
import Verl.Workers.PackedAttention
import Verl.Workers.RolloutRows
import Verl.Workers.ParallelScore
import Verl.Ulysses.Model
import Verl.Ulysses.Gather
import Verl.Ulysses.Exchange
import Verl.Workers.RewardManagers
import Verl.Workers.RewardModelWorker
import Verl.ShardingManager.ModuleParams
import Verl.ShardingManager.TpConcat
import Verl.ShardingManager.NormalizeParams
import Verl.RewardScore.Coder1
import Verl.RewardScore.Coder1Score
import Verl.RewardScore.Boxed
import Verl.RewardScore.PrimeCode
import Verl.RewardScore.StdinCompare
import Verl.RewardScore.StripString
import Verl.RewardScore.StripFixedPoints
import Verl.RewardScore.GradeAnswer
import Verl.RewardScore.CommaGroups
import Verl.RewardScore.GradeLiterals
import Verl.Dataset.Fit
import Verl.Dataset.Sft
import Verl.Dataset.Rm
import Verl.Dataset.RopeIndex
import Verl.Dataset.RopeBlocks
import Verl.Dataset.RopePlaces
import Verl.Dataset.Rlhf
import Verl.Dataset.MropePositions
import Verl.Protocol.Flow
import Verl.Dataset.Collate
import Verl.Utils.MemoryBuffer
import Verl.Utils.PackedInputs
import Verl.Utils.CopyToLocal
import Verl.Firejail.SeccompFile
import Verl.Firejail.SyscallList
import Verl.Firejail.DropKeep
import Verl.Firejail.Optimizer
import Verl.Firejail.ArgumentFilters
import Verl.Firejail.Installed
import Verl.Firejail.ProfileList
