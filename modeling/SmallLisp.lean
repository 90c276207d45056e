import SmallLisp.Evaluation.Trace
import SmallLisp.Main
import SmallLisp.Proofs.Numerals
import SmallLisp.Proofs.Literals
import SmallLisp.Proofs.Parsing
import SmallLisp.Proofs.TableKeys
import SmallLisp.Proofs.Grammar
import SmallLisp.Proofs.NormalTexts
import SmallLisp.Proofs.RoundTrip
import SmallLisp.Proofs.Layout
import SmallLisp.Proofs.Operations
import SmallLisp.Proofs.Lookups
import SmallLisp.Proofs.PureBuiltins
import SmallLisp.Proofs.StoreBuiltins
import SmallLisp.Proofs.Calls
import SmallLisp.Proofs.SpecialForms
import SmallLisp.Proofs.Evaluator
import SmallLisp.Proofs.Sessions
import SmallLisp.Proofs.ReachedStates
import SmallLisp.Proofs.ErrorContainment
import SmallLisp.Proofs.FailureChannels
import SmallLisp.Proofs.ScopeIsolation
import SmallLisp.Proofs.ExpansionAgreement
import SmallLisp.Proofs.FailurePropagation
import SmallLisp.Proofs.TemplateInstances
import SmallLisp.Proofs.ReadingDepth
import SmallLisp.Proofs.BoundedPrinting
import SmallLisp.Proofs.Answers
import SmallLisp.Proofs.BoundedAnswers
import SmallLisp.Proofs.JoinedTexts
import SmallLisp.Proofs.EnclosedTexts
import SmallLisp.Proofs.Loading
import SmallLisp.Proofs.RejectedScripts
import SmallLisp.Proofs.Nesting
import SmallLisp.Proofs.TailPositions
import SmallLisp.Proofs.TailLoops
import SmallLisp.Proofs.CallPropagation
import SmallLisp.Proofs.ThrownValues
import SmallLisp.Proofs.KeyEquality
import SmallLisp.Proofs.AssociationLists
import SmallLisp.Proofs.TableHistories
import SmallLisp.Proofs.TableSlots
import SmallLisp.Proofs.PartsInOrder
import SmallLisp.Proofs.StoreChanges
import SmallLisp.Proofs.Moments
import SmallLisp.Proofs.CallRules
import SmallLisp.Proofs.BundledPrelude
import SmallLisp.Proofs.Clauses
import SmallLisp.Proofs.NameGeneration
import SmallLisp.Proofs.Alternatives
import SmallLisp.Proofs.Capture
import SmallLisp.Proofs.VectorTemplates
import SmallLisp.Proofs.NormalForms
import SmallLisp.Proofs.EqualArguments
import SmallLisp.Proofs.WaysToCall
import SmallLisp.Proofs.ExpandedSpecialForms
import SmallLisp.Proofs.Segmentation
import SmallLisp.Proofs.IncompleteInput
import SmallLisp.Proofs.SelfEvaluation
import SmallLisp.Proofs.Updates
import SmallLisp.Proofs.Division
import SmallLisp.Proofs.SettingValues
import SmallLisp.Proofs.ParameterLists
import SmallLisp.Proofs.CallParts
import SmallLisp.Proofs.GeneratorCalls
import SmallLisp.Proofs.Runs
import SmallLisp.Proofs.PreludeDefinitions
import SmallLisp.Proofs.FreshNames
import SmallLisp.Proofs.ScopeHistories
import SmallLisp.Proofs.ScopeChains
