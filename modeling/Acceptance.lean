import Acceptance.Machine.Playbook
import Acceptance.Main
import Acceptance.Proofs.Layout
import Acceptance.Proofs.Files
import Acceptance.Proofs.Machine
import Acceptance.Proofs.Talk
import Acceptance.Proofs.Session
import Acceptance.Proofs.Performer
import Acceptance.Proofs.Visit
import Acceptance.Proofs.FeatureTest
import Acceptance.Proofs.Install
import Acceptance.Proofs.Batch
import Acceptance.Proofs.Digits
import Acceptance.Proofs.JsonText
import Acceptance.Proofs.Rounding
import Acceptance.Proofs.RunSort
import Acceptance.Proofs.Shortest
import Acceptance.Proofs.JsonNumber
import Acceptance.Proofs.JsonDocument
import Acceptance.Proofs.JsonBytes
import Acceptance.Proofs.Places
import Acceptance.Proofs.Sparing
import Acceptance.Proofs.JsonRecord
import Acceptance.Proofs.JsonReading
import Acceptance.Proofs.JsonPrinting
import Acceptance.Proofs.Tally
import Acceptance.Proofs.Entry
import Acceptance.Proofs.Store
import Acceptance.Proofs.Ordinary
import Acceptance.Proofs.SameFields
import Acceptance.Proofs.Agenda
import Acceptance.Proofs.Loading
import Acceptance.Proofs.Bookkeeping
import Acceptance.Proofs.Commands
import Acceptance.Proofs.Editing
import Acceptance.Proofs.WorkingOff
import Acceptance.Proofs.Verdicts
import Acceptance.Proofs.TestCommands
import Acceptance.Proofs.Exports
import Acceptance.Proofs.Invocation
import Acceptance.Proofs.Changes
import Acceptance.Proofs.NewProject
import Acceptance.Proofs.Register
import Acceptance.Proofs.Usage
import Acceptance.Proofs.Wording
import Acceptance.Proofs.SettingsTexts
import Acceptance.Proofs.Answering
import Acceptance.Proofs.ArgumentTexts
import Acceptance.Proofs.Configuring
import Acceptance.Proofs.Holding
import Acceptance.Proofs.Replying
import Acceptance.Proofs.Reporting
import Acceptance.Proofs.Causes
import Acceptance.Proofs.SessionLife
import Acceptance.Proofs.Alone
import Acceptance.Proofs.JsonCanon
import Acceptance.Proofs.Limits
import Acceptance.Proofs.TimeLimits
import Acceptance.Proofs.Recording
import Acceptance.Proofs.Committing
import Acceptance.Proofs.EveryAnswer
import Acceptance.Proofs.Verifying
import Acceptance.Proofs.Addresses
import Acceptance.Proofs.Capture
import Acceptance.Proofs.Reopening
import Acceptance.Proofs.Attempts
import Acceptance.Proofs.Longest
import Acceptance.Proofs.LowerCase
import Acceptance.Proofs.Navigating
import Acceptance.Proofs.Performing
import Acceptance.Proofs.Pieces
import Acceptance.Proofs.AnyCase
import Acceptance.Proofs.Entering
import Acceptance.Proofs.Waiting
import Acceptance.Proofs.Snapshots
import Acceptance.Proofs.Reviewing
import Acceptance.Proofs.Screenshots
import Acceptance.Proofs.Rereading
import Acceptance.Proofs.Written
import Acceptance.Proofs.Neighbours
import Acceptance.Proofs.NewIds
import Acceptance.Proofs.Watching
import Acceptance.Proofs.Checking
import Acceptance.Proofs.Below
import Acceptance.Proofs.Guides
import Acceptance.Proofs.Making
import Acceptance.Proofs.Counting
import Acceptance.Proofs.CommitCommands
import Acceptance.Proofs.Routes
import Acceptance.Proofs.Selectors
import Acceptance.Proofs.Calendar
import Acceptance.Proofs.Timestamps
import Acceptance.Proofs.Instants
import Acceptance.Proofs.KeyNames
import Acceptance.Proofs.TallyKeys
import Acceptance.Proofs.LastWritten
import Acceptance.Proofs.Copies
import Acceptance.Proofs.Spelling
import Acceptance.Proofs.Cutting
import Acceptance.Proofs.Tidy
