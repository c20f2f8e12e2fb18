import VeaValidator.Keyed
import VeaValidator.Stores
import VeaValidator.Blocks
import VeaValidator.Tasks
import VeaValidator.Dispatcher
import VeaValidator.Handlers
import VeaValidator.Indexer
import VeaValidator.Fraud
import VeaValidator.Verdict
import VeaValidator.Resync
import VeaValidator.Mirror
import VeaValidator.Pass
import VeaValidator.Lifecycle
import VeaValidator.Coop.Asks
import VeaValidator.Writes
import VeaValidator.Changes
import VeaValidator.Scanning
import VeaValidator.Rescan
import VeaValidator.Coverage
import VeaValidator.Coop.Local
import VeaValidator.Coop.Clock
import VeaValidator.Epochs
import VeaValidator.Settlement
import VeaValidator.Finality
import VeaValidator.ReadyList
import VeaValidator.Feeding
import VeaValidator.Uniqueness
import VeaValidator.Invalidation
import VeaValidator.Catchup
import VeaValidator.Buffer
import VeaValidator.Periods
import VeaValidator.Coop.Patch
import VeaValidator.Pages
import VeaValidator.Turns
import VeaValidator.Replay
import VeaValidator.Interleaving
import VeaValidator.Coop.Talk
import VeaValidator.Searches
import VeaValidator.ClaimMap
import VeaValidator.Bytes
import VeaValidator.Revert
import VeaValidator.Slices
import VeaValidator.Filtering
import VeaValidator.Twice
import VeaValidator.Failures
import VeaValidator.EpochWatcher
import VeaValidator.Outages
import VeaValidator.Brackets
import VeaValidator.Files
import VeaValidator.Crashes
import VeaValidator.Reload
import VeaValidator.Coop.Beside
import VeaValidator.Coop.Stages
import VeaValidator.Main
import VeaValidator.Gate
import VeaValidator.Queue
import VeaValidator.Coop.Comes
import VeaValidator.Coop.Learn
import VeaValidator.Evidence
import VeaValidator.Audit
import VeaValidator.Snapshots
import VeaValidator.Relays
import VeaValidator.Window
import VeaValidator.Startup
import VeaValidator.Validator
