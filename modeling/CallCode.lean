import CallCode.ClassUnit
import CallCode.Machine.Expectation
import CallCode.Proofs.Machine.Writing
import CallCode.Proofs.Lowering.Run
import CallCode.Proofs.Lowering.Coercion
import CallCode.Proofs.Lowering.Binding
import CallCode.Proofs.Lowering.Dispatch
import CallCode.Proofs.Lowering.Invocation
import CallCode.Proofs.Lowering.MethodCall
import CallCode.Proofs.Lowering.Construction
import CallCode.Proofs.Lowering.Expression
import CallCode.Proofs.Lowering.ConstructorChain
import CallCode.Proofs.Lowering.SwitchLayout
import CallCode.Proofs.Lowering.Statement
import CallCode.Proofs.TrackedStack
import CallCode.Proofs.SpreadArguments
import CallCode.Proofs.DistinctMembers
import CallCode.Proofs.Machine.StackSafety
import CallCode.Proofs.Lowering.StackEffects
import CallCode.Proofs.Lowering.SwitchPaths
import CallCode.Proofs.Lowering.SwitchSafety
import CallCode.Proofs.CandidateTable
import CallCode.Proofs.ReachableLedger
import CallCode.Proofs.StackDepth
import CallCode.Proofs.ConstructorSwitch
import CallCode.Proofs.Machine.Walking
import CallCode.Proofs.Machine.Outline
import CallCode.Proofs.Machine.Fields
import CallCode.Proofs.Machine.Emissions
import CallCode.Proofs.Lowering.Outcome
import CallCode.Proofs.Machine.Steps
import CallCode.Proofs.Lowering.Evaluation
import CallCode.Proofs.Lowering.Straight
import CallCode.Proofs.Lowering.StraightCalls
import CallCode.Proofs.Lowering.ChainOutcome
import CallCode.Proofs.EvaluationOrder
import CallCode.Proofs.ResolvedTarget
import CallCode.Proofs.Lowering.Bodies
import CallCode.Proofs.ConstantKinds
import CallCode.Proofs.RegisteredTypes
import CallCode.Proofs.CollisionReports
import CallCode.Proofs.SafeNavigation
import CallCode.Proofs.Lowering.Sites
import CallCode.Proofs.SiteTable
import CallCode.Proofs.Machine.Symbols
import CallCode.Proofs.Lowering.SwitchSymbols
import CallCode.Proofs.Lowering.Parallel
import CallCode.Proofs.Lowering.Stepwise
import CallCode.Proofs.Lowering.SharedState
import CallCode.Proofs.MethodBodies
import CallCode.Proofs.FailedBodies
import CallCode.Proofs.StateIndependence
import CallCode.Proofs.TypeHierarchy
import CallCode.Proofs.TypeIndex
import CallCode.Proofs.Assignability
import CallCode.Proofs.StableAnswers
import CallCode.Proofs.Descriptors
import CallCode.Proofs.EmittedCode
import CallCode.Proofs.ChainedOperands
import CallCode.Proofs.Machine.InstanceLoads
import CallCode.Proofs.Lowering.EvaluatedCalls
import CallCode.Proofs.Lowering.InstanceLoads
import CallCode.Proofs.StaticCode
import CallCode.Proofs.ConstantIndices
import CallCode.Proofs.BoundArguments
import CallCode.Proofs.VariadicArguments
import CallCode.Proofs.ReceiverOwner
import CallCode.Proofs.ApplicableMethods
import CallCode.Proofs.CandidateAccounts
import CallCode.Proofs.Machine.Echoes
import CallCode.Proofs.Lowering.Marks
import CallCode.Proofs.Lowering.Schedule
import CallCode.Proofs.Lowering.ScheduledCalls
import CallCode.Proofs.Lowering.Planned
import CallCode.Proofs.Lowering.Replay
import CallCode.Proofs.Relowering
import CallCode.Proofs.EnclosingInstances
import CallCode.Proofs.FunctionalInterfaces
import CallCode.Proofs.SettledCoercions
import CallCode.Proofs.BareTables
import CallCode.Proofs.BranchTargets
import CallCode.Proofs.ConstructorOrder
import CallCode.Proofs.PoolHistory
import CallCode.Proofs.Lowering.Tasks
import CallCode.Proofs.SuperMethods
import CallCode.Proofs.CallLines
import CallCode.Proofs.Lowering.PlacedCoercions
import CallCode.Proofs.Lowering.ArmExtent
import CallCode.Proofs.SwitchDistances
import CallCode.Proofs.ArgumentVectors
import CallCode.Proofs.MemberIdentities
import CallCode.Proofs.OpcodeContainment
