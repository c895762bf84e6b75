import PadScript.Engine.Operation
import PadScript.Main
import PadScript.Proofs.CounterTurns
import PadScript.Proofs.EngineInvariant
import PadScript.Proofs.FailedStop
import PadScript.Proofs.FinalReport
import PadScript.Proofs.FrameRate
import PadScript.Proofs.HeadlessRestart
import PadScript.Proofs.ImportErrors
import PadScript.Proofs.InnerNames
import PadScript.Proofs.LineGrammar
import PadScript.Proofs.PartitionCheck
import PadScript.Proofs.PlaybackFidelity
import PadScript.Proofs.RerecordedTrace
import PadScript.Proofs.ResultsFile
import PadScript.Proofs.RoundTrip
import PadScript.Proofs.SavedSettings
import PadScript.Proofs.SegmentSources
import PadScript.Proofs.Splicing
import PadScript.Proofs.TriggerEdges
import PadScript.Proofs.WriteFailures
import PadScript.Storage.Journal
import PadScript.Storage.Memory
