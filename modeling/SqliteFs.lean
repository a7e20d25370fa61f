import SqliteFs.Lib.KeyTable
import SqliteFs.Lib.Txn
import SqliteFs.Lib.Success
import SqliteFs.Lib.Writes
import SqliteFs.Lib.Scripts
import SqliteFs.Lib.Frames
import SqliteFs.Lib.Chunks
import SqliteFs.Lib.Paging
import SqliteFs.Lib.Span
import SqliteFs.Lib.Checked
import SqliteFs.Lib.Run
import SqliteFs.Lib.Plays
import SqliteFs.Lib.Lifetimes
import SqliteFs.Lib.Terminated
import SqliteFs.Lib.RecursiveQuery
import SqliteFs.Lib.ParentForest
import SqliteFs.Types
import SqliteFs.Paths
import SqliteFs.PathGrammar
import SqliteFs.Schema
import SqliteFs.Tables
import SqliteFs.Blobs.Basic
import SqliteFs.Blobs.Frame
import SqliteFs.Blobs.Refinement
import SqliteFs.Blobs.Runs
import SqliteFs.Blobs.Bounds
import SqliteFs.Blobs.Arithmetic
import SqliteFs.Locks.Basic
import SqliteFs.Locks.Spans
import SqliteFs.Locks.Exclusion
import SqliteFs.Locks.PerByte
import SqliteFs.Locks.Independence
import SqliteFs.Locks.Unlock
import SqliteFs.Locks.Queries
import SqliteFs.Locks.Arithmetic
import SqliteFs.Runtime
import SqliteFs.Watchers
import SqliteFs.Filesystem.Basic
import SqliteFs.Filesystem.Machine
import SqliteFs.Filesystem.Updates
import SqliteFs.Filesystem.Effects
import SqliteFs.Filesystem.Outcomes
import SqliteFs.Filesystem.Commits
import SqliteFs.Filesystem.Calls
import SqliteFs.Filesystem.Shape
import SqliteFs.Filesystem.Frames
import SqliteFs.Filesystem.Tree
import SqliteFs.Filesystem.TreeInvariant
import SqliteFs.Filesystem.Names
import SqliteFs.Filesystem.LinkCounts
import SqliteFs.Filesystem.Unlink
import SqliteFs.Filesystem.OpenFiles
import SqliteFs.Filesystem.Statements
import SqliteFs.Filesystem.Rows
import SqliteFs.Filesystem.Ownership
import SqliteFs.Filesystem.TrustedAttributes
import SqliteFs.Filesystem.WritePermission
import SqliteFs.Filesystem.Scripts
import SqliteFs.Filesystem.Footprint
import SqliteFs.Filesystem.ChangeTimes
import SqliteFs.Filesystem.Kinds
import SqliteFs.Filesystem.Leaks
import SqliteFs.Filesystem.LockLifetimes
import SqliteFs.Filesystem.Resolution
import SqliteFs.Filesystem.ResolutionErrors
import SqliteFs.Filesystem.PathRoundTrip
import SqliteFs.Filesystem.ParentPaths
import SqliteFs.Filesystem.Mirror
import SqliteFs.Filesystem.RenamePaths
import SqliteFs.Filesystem.ManyLinks
import SqliteFs.Filesystem.FailedCalls
import SqliteFs.Filesystem.EventLog
import SqliteFs.Filesystem.Events
import SqliteFs.Filesystem.Subscriptions
import SqliteFs.Filesystem.ModifyEvents
import SqliteFs.Filesystem.Success
import SqliteFs.Filesystem.Contents
import SqliteFs.Filesystem.NameTable
import SqliteFs.Filesystem.Identity
import SqliteFs.Filesystem.Consistency
import SqliteFs.Filesystem.Attributes
import SqliteFs.Filesystem.CreateExisting
import SqliteFs.Filesystem.ChunkArithmetic
import SqliteFs.Filesystem.Passes
import SqliteFs.Filesystem.SearchPermission
import SqliteFs.Filesystem.CommitBoundaries
import SqliteFs.Filesystem.ReadOnly
import SqliteFs.Fuse.Adapter
import SqliteFs.Fuse.Requests
import SqliteFs.Fuse.Getattr
import SqliteFs.Fuse.Readdir
import SqliteFs.Fuse.Setattr
import SqliteFs.Fuse.AllOrNothing
import SqliteFs.Fuse.Times
import SqliteFs.Fuse.NoClobber
import SqliteFs.Fuse.Sessions
import SqliteFs.Fuse.Contents
import SqliteFs.Fuse.Names
import SqliteFs.Fuse.Listings
import SqliteFs.Fuse.Identity
import SqliteFs.Fuse.Attributes
import SqliteFs.Fsck
import SqliteFs.Python.Types
import SqliteFs.Python.Tables
import SqliteFs.Python.Blobs
import SqliteFs.Python.ChunkStores
import SqliteFs.Python.Runtime
import SqliteFs.Python.Filesystem
import SqliteFs.Python.Machine
import SqliteFs.Python.Adapter
import SqliteFs.Python.Skeleton
import SqliteFs.Python.Resolution
import SqliteFs.Python.Effects
import SqliteFs.Python.Outcomes
import SqliteFs.Python.Rename
import SqliteFs.Python.Calls
import SqliteFs.Python.Changes
import SqliteFs.Python.PathCache
import SqliteFs.Python.Contents
import SqliteFs.Python.Overwriting
import SqliteFs.Python.Transfers
import SqliteFs.Python.WritePermission
import SqliteFs.Python.AdapterAgreement
import SqliteFs.Python.Tree
import SqliteFs.Python.LinkCounts
import SqliteFs.Python.SharedTables
import SqliteFs.Python.PlainRename
import SqliteFs.Python.RenameAgreement
import SqliteFs.Python.Exchange
import SqliteFs.Python.Substitution
import SqliteFs.Python.LinkResolution
import SqliteFs.Python.Locks
import SqliteFs.Python.Unlock
import SqliteFs.Python.Paths
import SqliteFs.Lib.PathMap
import SqliteFs.Lib.Broadcast
import SqliteFs.Lib.Purge
import SqliteFs.Python.Statements
