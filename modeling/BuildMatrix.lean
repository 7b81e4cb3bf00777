import BuildMatrix.Main
import BuildMatrix.Proofs.Graph.Search
import BuildMatrix.Proofs.Graph.Construction
import BuildMatrix.Proofs.Graph.Validity
import BuildMatrix.Proofs.Graph.Staging
import BuildMatrix.Proofs.SortedMap
import BuildMatrix.Proofs.Variant.Names
import BuildMatrix.Proofs.Emission.Targets
import BuildMatrix.Proofs.Emission.Order
import BuildMatrix.Proofs.Emission.Success
import BuildMatrix.Proofs.Flag.Codec
import BuildMatrix.Proofs.Json.RoundTrip
import BuildMatrix.Proofs.Probe.CacheFile
import BuildMatrix.Proofs.Probe.Persistence
import BuildMatrix.Proofs.Tree.Growth
import BuildMatrix.Proofs.Tree.Entry
import BuildMatrix.Proofs.Task
import BuildMatrix.Proofs.Tree.Writing
import BuildMatrix.Proofs.Probe.Memo
import BuildMatrix.Proofs.Session.Episode
import BuildMatrix.Proofs.Session.History
import BuildMatrix.Proofs.Path.Holder
import BuildMatrix.Proofs.Tree.Beginning
import BuildMatrix.Proofs.Tree.Replacement
import BuildMatrix.Proofs.Path.Relative
import BuildMatrix.Proofs.Source.Discovery
import BuildMatrix.Proofs.Variant.Questions
import BuildMatrix.Proofs.Configure.Run
import BuildMatrix.Proofs.Probe.Recall
import BuildMatrix.Proofs.Configure.Again
import BuildMatrix.Proofs.Session.Progress
import BuildMatrix.Proofs.Configure.Progress
import BuildMatrix.Proofs.Variant.Plan
import BuildMatrix.Proofs.Emission.Isolation
import BuildMatrix.Proofs.Source.Collected
import BuildMatrix.Proofs.Source.Origin
import BuildMatrix.Proofs.Configure.Consistency
import BuildMatrix.Proofs.Configure.Feedback
import BuildMatrix.Proofs.Path.Lexical
import BuildMatrix.Proofs.Emission.Places
import BuildMatrix.Proofs.Tree.Reading
import BuildMatrix.Proofs.Session.Reloading
import BuildMatrix.Proofs.Session.Succession
import BuildMatrix.Proofs.Path.Components
import BuildMatrix.Proofs.Tree.Spelling
import BuildMatrix.Proofs.Emission.BuildRoot
import BuildMatrix.Proofs.Variant.Families
import BuildMatrix.Proofs.Ninja.Distinct
import BuildMatrix.Proofs.Path.Ordinary
import BuildMatrix.Proofs.Source.Walk
import BuildMatrix.Proofs.Session.Interruption
import BuildMatrix.Proofs.Configure.Interruption
import BuildMatrix.Proofs.Emission.Listing
import BuildMatrix.Proofs.Variant.Standards
import BuildMatrix.Proofs.Emission.ExampleNames
import BuildMatrix.Proofs.Tree.Filling
import BuildMatrix.Proofs.Probe.Course
import BuildMatrix.Proofs.Session.Rereading
import BuildMatrix.Proofs.Tree.Overwriting
import BuildMatrix.Proofs.Emission.Precedence
import BuildMatrix.Proofs.Text.Words
import BuildMatrix.Proofs.Variant.Words
import BuildMatrix.Proofs.Emission.Words
import BuildMatrix.Proofs.Variant.Provenance
import BuildMatrix.Proofs.Variant.Gating
import BuildMatrix.Proofs.Variant.Mode
import BuildMatrix.Proofs.Path.Respelled
import BuildMatrix.Proofs.Source.Respelled
import BuildMatrix.Proofs.Source.Search
import BuildMatrix.Proofs.Source.Access
import BuildMatrix.Proofs.Text.Utf8
import BuildMatrix.Proofs.Ninja.Expansion
import BuildMatrix.Proofs.Emission.Commands
import BuildMatrix.Proofs.Ninja.Splitting
import BuildMatrix.Proofs.Emission.BuildLines
import BuildMatrix.Proofs.Tree.Atomicity
import BuildMatrix.Proofs.Compiler.Classification
import BuildMatrix.Proofs.Source.EntryPoint
import BuildMatrix.Proofs.Graph.Answers
import BuildMatrix.Proofs.Flag.Stages
