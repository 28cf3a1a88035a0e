import EvalRun.Interchange.Config
import EvalRun.Interchange.Ranking
import EvalRun.Main
import EvalRun.Pipeline.Interleaving
import EvalRun.Proofs.Pipeline.Halting
import EvalRun.Proofs.Pipeline.Interleaving
import EvalRun.Proofs.Ranking.Processing
import EvalRun.Pipeline.Ending
import EvalRun.Proofs.Pipeline.Rankings
import EvalRun.Proofs.Pipeline.Independence
import EvalRun.Proofs.RunFile.Table
import EvalRun.Proofs.RunFile.WellFormed
import EvalRun.Pipeline.Stateful
import EvalRun.Proofs.Pipeline.Stateful
import EvalRun.Proofs.RunFile.Uniqueness
import EvalRun.Proofs.FileSystem.Writing
import EvalRun.Proofs.Pipeline.Conversation
import EvalRun.Proofs.Pipeline.Execution
import EvalRun.Proofs.Json.Ordered
import EvalRun.Proofs.Response.Decoding
import EvalRun.Proofs.HitStore.Registration
import EvalRun.Proofs.Config.RoundTrip
import EvalRun.Proofs.Ranking.Passes
import EvalRun.Proofs.Ranking.Enumeration
import EvalRun.Proofs.Ranking.Displacement
import EvalRun.Proofs.Binary64.Nearest
import EvalRun.Proofs.RunFile.Scores
import EvalRun.Proofs.Topics.Grouping
import EvalRun.Proofs.Pipeline.Summary
import EvalRun.Proofs.HitStore.Reordering
import EvalRun.Proofs.CommandLine.Layers
import EvalRun.Proofs.RunFile.Arrival
import EvalRun.Proofs.Topics.Commented
import EvalRun.Proofs.Ranking.Comparison
import EvalRun.Proofs.Ranking.FillerFile
import EvalRun.Proofs.Xml.Traversal
import EvalRun.Proofs.Response.NumericIds
