import SpillStorage.Offset
import SpillStorage.Segment
import SpillStorage.Index
import SpillStorage.Path
import SpillStorage.Failure
import SpillStorage.Pool
import SpillStorage.Buffer
import SpillStorage.Pool.Audit
import SpillStorage.Pool.Fragmentation
import SpillStorage.Registry
import SpillStorage.Disk
import SpillStorage.SpillFiles
import SpillStorage.Chain
import SpillStorage.Space.Batch
import SpillStorage.Space.Report
import SpillStorage.RecordLog
import SpillStorage.StagingCache
import SpillStorage.Decimal.Layout
import SpillStorage.Value
import SpillStorage.Json.Reader
import SpillStorage.Json.Writer
import SpillStorage.Value.Forms
import SpillStorage.Settings.Environment
import SpillStorage.Session
import SpillStorage.Proofs.Offset
import SpillStorage.Proofs.Index
import SpillStorage.Proofs.Pool.Representation
import SpillStorage.Proofs.Pool.FreeBytes
import SpillStorage.Proofs.Path
import SpillStorage.Proofs.Json.Token
import SpillStorage.Proofs.Json.RoundTrip
import SpillStorage.Proofs.Value.Forms
import SpillStorage.Proofs.Settings
import SpillStorage.Proofs.Pool.Consistency
import SpillStorage.Proofs.Pool.Audit
import SpillStorage.Proofs.Pool.Checked
import SpillStorage.Proofs.Pool.Canonical
import SpillStorage.Proofs.Pool.BestFit
import SpillStorage.Proofs.Pool.Slots
import SpillStorage.Proofs.Chain.Layout
import SpillStorage.Proofs.Chain.Windows
import SpillStorage.Proofs.Registry
import SpillStorage.Proofs.Disk
import SpillStorage.Proofs.SpillFiles
import SpillStorage.Proofs.Space.Sound
import SpillStorage.Proofs.Space.Growth
import SpillStorage.Proofs.Space.Batch
import SpillStorage.Proofs.Space.Change
import SpillStorage.Proofs.Space.Ledger
import SpillStorage.Proofs.Space.Regions
import SpillStorage.Proofs.Space.Carving
import SpillStorage.Proofs.Tenants
import SpillStorage.Proofs.Buffer
import SpillStorage.Proofs.Chain.Image
import SpillStorage.Proofs.Chain.Initial
import SpillStorage.Proofs.Space.Housed
import SpillStorage.Proofs.Accounts
import SpillStorage.Proofs.Space.Bytes
import SpillStorage.Proofs.Space.Face
import SpillStorage.Proofs.Space.Course
import SpillStorage.Proofs.Space.Capacity
import SpillStorage.Proofs.Space.FirstFit
import SpillStorage.Proofs.RecordLog
import SpillStorage.Proofs.StagingCache.Slots
import SpillStorage.Proofs.StagingCache.Steps
import SpillStorage.Proofs.Courses
import SpillStorage.Proofs.StagingCache.Alignment
import SpillStorage.Proofs.StagingCache.Partition
import SpillStorage.Proofs.StagingCache.Reading
import SpillStorage.Proofs.StagingCache.Contents
import SpillStorage.Proofs.StagingCache.References
import SpillStorage.Proofs.Session.Run
import SpillStorage.Proofs.Session.Tenancy
import SpillStorage.Proofs.Session.Sound
import SpillStorage.Proofs.Session.Guarantees
import SpillStorage.Proofs.Session.Array
import SpillStorage.Proofs.Session.Staging
import SpillStorage.Proofs.Session.Partition
import SpillStorage.Proofs.Session.Backing
import SpillStorage.Proofs.Session.Records
import SpillStorage.Proofs.Session.References
import SpillStorage.Proofs.Session.Batches
import SpillStorage.Proofs.Session.History
import SpillStorage.Proofs.Session.Growth
import SpillStorage.Proofs.Session.Course
import SpillStorage.Proofs.Session.Capacity
import SpillStorage.Proofs.Session.Initial
import SpillStorage.Proofs.Session.Reuse
import SpillStorage.Proofs.Session.Windows
import SpillStorage.Proofs.Session.Layout
import SpillStorage.Proofs.Storage
