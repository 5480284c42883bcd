import Vllm.Hashing.Separation
import Vllm.KVCache.BlockHashMap
import Vllm.KVCache.Sizing
import Vllm.KVCache.Integrity
import Vllm.KVCache.Events
import Vllm.Eplb.RebalanceCorrect
import Vllm.Offload.Jobs
import Vllm.Offload.TierRuns
import Vllm.Multimodal.MirrorCache
import Vllm.Engine.FanOut
import Vllm.Engine.Streaming
import Vllm.Distributed.ShmBroadcast
import Vllm.Multimodal.ShmProtection
import Vllm.Worker.BatchRefinement
import Vllm.Distributed.WaveSafety
import Vllm.Ascend.RecomputeDrops
import Vllm.KVCache.HybridLargest
import Vllm.KVCache.ChunkedHit
import Vllm.KVCache.Recycling
import Vllm.Ascend.CpuOffload
import Vllm.Rust.DecodeStream
import Vllm.Sched.EncoderDecoderCache
import Vllm.Eplb.Replication
import Vllm.Eplb.SlotPreservation
import Vllm.Worker.ThinkingBudget
import Vllm.Worker.BatchReorder
import Vllm.Engine.StopGrouping
import Vllm.StructuredOutput.Advance
import Vllm.SpecDecode.NgramProposer
import Vllm.Ascend.PoolScheduler
import Vllm.Offload.Eviction
import Vllm.Rust.ReasoningParser
