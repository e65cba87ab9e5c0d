import NodeAgg.Datum
import NodeAgg.Trans
import NodeAgg.HashTable
import NodeAgg.State
import NodeAgg.Retrieve
import NodeAgg.Node
import NodeAgg.Combine
import NodeAgg.Classes
import NodeAgg.Group
import NodeAgg.Scan
import NodeAgg.HashAgg
import NodeAgg.Rollup
import NodeAgg.Sorted
import NodeAgg.Output
import NodeAgg.GroupingSets
import NodeAgg.TransFold
import NodeAgg.Sizing
import NodeAgg.HashColumns
import NodeAgg.Sharing
import NodeAgg.ProjectedSet
import NodeAgg.RingBuffer
import NodeAgg.Redistribute
import NodeAgg.LoadFile
import NodeAgg.Reload
import NodeAgg.HybridGroups
import NodeAgg.HybridFill
import NodeAgg.RecordBytes
import NodeAgg.Parallel
import NodeAgg.ParallelSafety
import NodeAgg.ParallelRuns
import NodeAgg.ParallelProgress
import NodeAgg.ParallelDelivery
