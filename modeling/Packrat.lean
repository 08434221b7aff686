import Packrat.Results.Shared
import Packrat.Scan
import Packrat.Script
import Packrat.Trace
import Packrat.Proofs.Hooks.Calls
import Packrat.Proofs.Memory.Accounts
import Packrat.Proofs.Memory.Course
import Packrat.Proofs.Memory.Count
import Packrat.Proofs.Memory.Reuse
import Packrat.Proofs.Memory.Transparency
import Packrat.Proofs.Placement.Safety
import Packrat.Proofs.Scanning.Reference
import Packrat.Proofs.Seeds.DirectFold
import Packrat.Proofs.Seeds.IndirectCycle
import Packrat.Proofs.Seeds.Transparency
import Packrat.Proofs.Seeds.Unbounded
import Packrat.Proofs.Sharing.Programs
import Packrat.Proofs.Building.Bound
import Packrat.Proofs.Building.Naming
import Packrat.Proofs.Names.Balance
import Packrat.Proofs.Depth.Guarded
import Packrat.Proofs.Depth.Seeded
import Packrat.Proofs.Plain.Longest
import Packrat.Proofs.Translation.Attempts
import Packrat.Proofs.Algebra.Insertion
import Packrat.Proofs.Algebra.Unrolling
import Packrat.Proofs.Skipping.Fixpoint
import Packrat.Proofs.Region.Tiling
import Packrat.Proofs.Plain.Lookbehind
import Packrat.Proofs.AnyOrder.Bounds
import Packrat.Proofs.AnyOrder.EveryOrder
import Packrat.Proofs.AnyOrder.Replay
import Packrat.Proofs.Dispatch.Brackets
import Packrat.Proofs.Dispatch.Commits
import Packrat.Proofs.Dispatch.Nullable
import Packrat.Proofs.Dispatch.Recording
import Packrat.Proofs.Scanning.Verbatim
import Packrat.Proofs.Reading.Anchored
import Packrat.Proofs.Sets.Canonical
import Packrat.Proofs.Tokens.Words
import Packrat.Proofs.Layout.Reports
import Packrat.Proofs.Layout.Tabs
import Packrat.Proofs.Tables.Obtained
import Packrat.Proofs.Analysis.Preorder
