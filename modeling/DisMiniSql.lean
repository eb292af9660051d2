import DisMiniSql.Proofs.Buffer.ClockReplacer
import DisMiniSql.Proofs.Buffer.Lifetime
import DisMiniSql.Proofs.Buffer.LruPointers
import DisMiniSql.Proofs.Catalog.CatalogRefinement
import DisMiniSql.Proofs.Distributed.AdminSnapshot
import DisMiniSql.Proofs.Distributed.BalancedPrimaries
import DisMiniSql.Proofs.Distributed.CurrentReads
import DisMiniSql.Proofs.Distributed.KeywordRouting
import DisMiniSql.Proofs.Distributed.LiveNodes
import DisMiniSql.Proofs.Distributed.LocalSql
import DisMiniSql.Proofs.Distributed.RebalanceKeeps
import DisMiniSql.Proofs.Distributed.RecoveryCut
import DisMiniSql.Proofs.Distributed.Redelivery
import DisMiniSql.Proofs.Distributed.ShardKey
import DisMiniSql.Proofs.Distributed.ShardLogIndexes
import DisMiniSql.Proofs.Distributed.SnapshotCrash
import DisMiniSql.Proofs.Distributed.SnapshotFile
import DisMiniSql.Proofs.Distributed.ZkRefinement
import DisMiniSql.Proofs.Executor.DatabaseMap
import DisMiniSql.Proofs.Executor.Uniqueness
import DisMiniSql.Proofs.Index.Destroy
import DisMiniSql.Proofs.Index.IndexIterator
import DisMiniSql.Proofs.Index.PinRuns
import DisMiniSql.Proofs.Index.RootPage
import DisMiniSql.Proofs.Page.CheckedSearch
import DisMiniSql.Proofs.Page.FreeSpace
import DisMiniSql.Proofs.Page.IndexRootsSlots
import DisMiniSql.Proofs.Parser.Spacing
import DisMiniSql.Proofs.Planner.IndexScans
import DisMiniSql.Proofs.Record.KeyOrder
import DisMiniSql.Proofs.Recovery.Lives
import DisMiniSql.Proofs.Storage.DiskFile
import DisMiniSql.Proofs.Storage.HeapRefinement
import DisMiniSql.Proofs.Storage.HeapReopen
import DisMiniSql.Proofs.Storage.HeapUpdate
import DisMiniSql.Proofs.Storage.IteratorPins
