import Logbook.Text.Utf8
import Logbook.Storage.Folder
import Logbook.Storage.Handles
import Logbook.Engine.Move
import Logbook.Engine.Session
import Logbook.KeyValue.Workload
import Logbook.Probe.Action
import Logbook.Chain.Call
import Logbook.Proofs.Bytes
import Logbook.Proofs.Chain.Linked
import Logbook.Proofs.Chain.Walk
import Logbook.Proofs.Chain.Closing
import Logbook.Proofs.Chain.Custody
import Logbook.Proofs.Recovery.Judged
import Logbook.Proofs.Region.RoundTrip
import Logbook.Proofs.Recovery.Passed
import Logbook.Proofs.Recovery.Scanned
import Logbook.Proofs.Recovery.Inline
import Logbook.Proofs.Storage.Memory
import Logbook.Proofs.Chain.Written
import Logbook.Proofs.Storage.Reliable
import Logbook.Proofs.Storage.File
import Logbook.Proofs.Engine.Accepted
import Logbook.Proofs.Recovery.Newest
import Logbook.Proofs.Engine.Sequenced
import Logbook.Proofs.Engine.Tracked
import Logbook.Proofs.Engine.Lined
import Logbook.Proofs.Engine.Delivering
import Logbook.Proofs.Engine.Stopping
import Logbook.Proofs.Engine.Acknowledged
import Logbook.Proofs.Engine.InMemory
import Logbook.Proofs.Engine.Gathered
import Logbook.Proofs.Engine.Halted
import Logbook.KeyValue.Rounds
import Logbook.KeyValue.Seasons
import Logbook.KeyValue.Transcript
import Logbook.Proofs.Entry
import Logbook.Proofs.KeyValue.RoundTrip
import Logbook.Proofs.Engine.Promised
import Logbook.Proofs.Engine.Lineage
import Logbook.Proofs.Engine.Continued
import Logbook.Proofs.Recovery.Gapless
import Logbook.Proofs.Recovery.Shared
import Logbook.Proofs.KeyValue.Standing
import Logbook.Proofs.KeyValue.Attested
import Logbook.Proofs.KeyValue.Survivors
import Logbook.Proofs.KeyValue.Replayed
import Logbook.Proofs.KeyValue.Rebuilt
import Logbook.Proofs.Engine.Quiet
import Logbook.Proofs.KeyValue.Rounds
import Logbook.Proofs.Recovery.Curtailed
import Logbook.Proofs.KeyValue.Carried
import Logbook.Proofs.KeyValue.Seasons
import Logbook.Proofs.KeyValue.Resurfacing
import Logbook.Proofs.KeyValue.Recounted
import Logbook.Proofs.KeyValue.Transcript
import Logbook.Proofs.Recovery.Sifted
import Logbook.Proofs.Recovery.Serving
import Logbook.Proofs.Recovery.Consumed
import Logbook.Proofs.Recovery.Covered
import Logbook.Proofs.Recovery.Workers
import Logbook.Proofs.KeyValue.Reordered
import Logbook.Proofs.Engine.Shutdown
import Logbook.Proofs.Engine.Reopened
import Logbook.Proofs.KeyValue.Canonical
import Logbook.Storage.AppendLog
import Logbook.Proofs.Storage.Framed
import Logbook.Proofs.Storage.Mirrored
import Logbook.Proofs.Storage.Opened
import Logbook.Proofs.KeyValue.Counted
import Logbook.Proofs.Region.Whole
import Logbook.Proofs.Region.Corrupted
import Logbook.Chain.Event
import Logbook.Proofs.Adler32.Rolling
import Logbook.Proofs.Chain.Barrier
import Logbook.Proofs.Chain.Settled
import Logbook.Storage.DiskCall
import Logbook.Storage.DiskLedger
import Logbook.Proofs.Storage.Ledger
import Logbook.Proofs.Storage.Handles
import Logbook.Proofs.Storage.Audited
import Logbook.Chain.Errand
import Logbook.Proofs.Chain.Spaced
import Logbook.Proofs.Chain.Attended
import Logbook.Proofs.Chain.Performed
import Logbook.Proofs.Chain.Termination
import Logbook.Proofs.Engine.Words
