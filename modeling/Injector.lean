import Injector.Proofs.Aliases
import Injector.Proofs.AlikeInstances
import Injector.Proofs.AlikeWorlds
import Injector.Proofs.Alone
import Injector.Proofs.Answers
import Injector.Proofs.Asking
import Injector.Proofs.Attempts
import Injector.Proofs.Beginnings
import Injector.Proofs.BuildLocks
import Injector.Proofs.ByteOrder
import Injector.Proofs.CacheHits
import Injector.Proofs.Caches
import Injector.Proofs.Chains
import Injector.Proofs.Containers
import Injector.Proofs.Correspondences
import Injector.Proofs.Cycles
import Injector.Proofs.Deadlock
import Injector.Proofs.Deeds
import Injector.Proofs.Delegation
import Injector.Proofs.Deliveries
import Injector.Proofs.Dependencies
import Injector.Proofs.Depth
import Injector.Proofs.DetouredSystems
import Injector.Proofs.DetouredTasks
import Injector.Proofs.Detours
import Injector.Proofs.Edits
import Injector.Proofs.Effective
import Injector.Proofs.Effects
import Injector.Proofs.Endings
import Injector.Proofs.Failures
import Injector.Proofs.Filling
import Injector.Proofs.Finalization
import Injector.Proofs.Following
import Injector.Proofs.Handover
import Injector.Proofs.Histories
import Injector.Proofs.Hooks
import Injector.Proofs.Interchange
import Injector.Proofs.Isolation
import Injector.Proofs.Jobs
import Injector.Proofs.KeyOrder
import Injector.Proofs.LateHooks
import Injector.Proofs.Leftovers
import Injector.Proofs.Located
import Injector.Proofs.Locking
import Injector.Proofs.Lockstep
import Injector.Proofs.Marks
import Injector.Proofs.Nesting
import Injector.Proofs.NormalForm
import Injector.Proofs.Notices
import Injector.Proofs.Once
import Injector.Proofs.OrderedMaps
import Injector.Proofs.Pins
import Injector.Proofs.Places
import Injector.Proofs.Positions
import Injector.Proofs.Presence
import Injector.Proofs.Primitives
import Injector.Proofs.Provenance
import Injector.Proofs.Rearrangements
import Injector.Proofs.Records
import Injector.Proofs.Reentrance
import Injector.Proofs.Refusals
import Injector.Proofs.Registered
import Injector.Proofs.Registrations
import Injector.Proofs.Releases
import Injector.Proofs.RenamedTasks
import Injector.Proofs.RenamedWorlds
import Injector.Proofs.Renamings
import Injector.Proofs.Reports
import Injector.Proofs.Resets
import Injector.Proofs.Resolved
import Injector.Proofs.Runs
import Injector.Proofs.Schedules
import Injector.Proofs.Serving
import Injector.Proofs.Settings
import Injector.Proofs.Sharing
import Injector.Proofs.Sound
import Injector.Proofs.Stacks
import Injector.Proofs.Steps
import Injector.Proofs.Surplus
import Injector.Proofs.Teardowns
import Injector.Proofs.Termination
import Injector.Proofs.Turns
import Injector.Proofs.Typing
import Injector.Proofs.Unused
import Injector.Session
