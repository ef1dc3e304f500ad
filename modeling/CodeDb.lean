import CodeDb.Lib.SortOn
import CodeDb.Lib.SortedMap
import CodeDb.Lib.Delimited
import CodeDb.Lib.ThreeWay
import CodeDb.Lib.UpdateFirst
import CodeDb.Model.Json
import CodeDb.Model.ProgramRoot
import CodeDb.Model.RootQueries
import CodeDb.Store.CanonicalJson
import CodeDb.Store.Hashing
import CodeDb.Store.ContentAddress
import CodeDb.Store.Objects
import CodeDb.Store.Branches
import CodeDb.Store.StoreM
import CodeDb.Store.ReadBack
import CodeDb.History.Apply
import CodeDb.Merge.SymbolState
import CodeDb.Merge.MergeRoot
import CodeDb.Merge.OneSided
import CodeDb.Merge.Symmetry
import CodeDb.Merge.Plan
import CodeDb.Operations.Elaborator
import CodeDb.Operations.Operation
import CodeDb.Operations.Names
import CodeDb.Operations.Types
import CodeDb.Operations.Functions
import CodeDb.Operations.Apply
import CodeDb.Invariants.Runs
import CodeDb.Invariants.RepeatedType
import CodeDb.History.Requests
import CodeDb.History.Chain
import CodeDb.Operations.TypeRoundTrip
import CodeDb.Jobs.ArtifactJobs
import CodeDb.Jobs.Ownership
import CodeDb.Language.EffectSoundness
import CodeDb.Language.Exhaustiveness
import CodeDb.SelfHosted.ObjectHash
import CodeDb.SelfHosted.LexerAgreement
import CodeDb.Cir.RoundTrip
import CodeDb.Layout.Physical
import CodeDb.Import.CliqueInvariance
import CodeDb.SelfHosted.Eval.Machine
import CodeDb.SelfHosted.Eval.OperatorAgreement
import CodeDb.SelfHosted.Eval.ScalarMemory
import CodeDb.SelfHosted.Json
import CodeDb.SelfHosted.Numerals
import CodeDb.Backend.StackFrames
import CodeDb.Lowering.AcceptedFlows
import CodeDb.Import.Components
import CodeDb.Backend.ObjectFiles
import CodeDb.Language.RegionInstances
import CodeDb.History.Growth
import CodeDb.History.Batches
import CodeDb.History.CommonAncestor
import CodeDb.Merge.Replay
import CodeDb.Build.Dependencies
import CodeDb.Build.Impact
import CodeDb.Verify.Edges
import CodeDb.Operations.Engine
import CodeDb.Bundle.Import
import CodeDb.Bundle.Reachable
import CodeDb.Workspace.AtMostOnce
