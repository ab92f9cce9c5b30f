import RateLedger.Main
import RateLedger.Proofs.Records
import RateLedger.Proofs.KeyOrder
import RateLedger.Proofs.Steps
import RateLedger.Proofs.Scans
import RateLedger.Proofs.Edits
import RateLedger.Proofs.Invariants
import RateLedger.Proofs.Runs
import RateLedger.Proofs.Soundness
import RateLedger.Proofs.Histories
import RateLedger.Proofs.Holdings
import RateLedger.Proofs.Batches
import RateLedger.Proofs.Ledgers
import RateLedger.Proofs.IdentityRows
import RateLedger.Proofs.Pruning
import RateLedger.Proofs.Traversals
import RateLedger.Proofs.RecordForms
import RateLedger.Proofs.Handles
import RateLedger.Proofs.Drafts
import RateLedger.Proofs.Atomicity
import RateLedger.Proofs.Isolation
import RateLedger.Proofs.PrefixQueries
import RateLedger.Proofs.Scannable
import RateLedger.Proofs.Answers
import RateLedger.Proofs.Intake
import RateLedger.Proofs.Survivors
import RateLedger.Proofs.OwnBatches
import RateLedger.Proofs.Requests
import RateLedger.Proofs.Ticks
import RateLedger.Proofs.Rounds
import RateLedger.Proofs.Tasks
import RateLedger.Proofs.Dates
import RateLedger.Proofs.Deliveries
import RateLedger.Proofs.Queries
import RateLedger.Proofs.Contents
import RateLedger.Proofs.Upkeep
import RateLedger.Proofs.FullTicks
import RateLedger.Proofs.Truncations
import RateLedger.Proofs.PrunedRuns
import RateLedger.Proofs.Rankings
import RateLedger.Proofs.Windows
import RateLedger.Proofs.StrayRows
import RateLedger.Proofs.Instants
import RateLedger.Proofs.DateTexts
import RateLedger.Proofs.Zones
import RateLedger.Proofs.VendorTimes
import RateLedger.Proofs.SettingsFiles
import RateLedger.Proofs.OrderedKeys
import RateLedger.Proofs.FieldRows
import RateLedger.Proofs.CapitalForms
import RateLedger.Proofs.PairTexts
