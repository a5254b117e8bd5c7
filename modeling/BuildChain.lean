import BuildChain.Main
import BuildChain.Proofs.Plan.Selected
import BuildChain.Proofs.Script.OrderProgram
import BuildChain.Proofs.Settings.RoundTrip
import BuildChain.Proofs.Properties.Document
import BuildChain.Proofs.Properties.RoundTrip
import BuildChain.Proofs.FilePath
import BuildChain.Proofs.FileTree
import BuildChain.Proofs.Run.Writing
import BuildChain.Proofs.Run.DryRun
import BuildChain.Proofs.Run.Rerun
import BuildChain.Proofs.Run.PluginFile
import BuildChain.Proofs.Plan.Reordering
import BuildChain.Proofs.Run.Reordering
import BuildChain.Proofs.TestOrder.Neighbours
import BuildChain.Proofs.Settings.LineNumbers
import BuildChain.Proofs.Settings.PrintedText
import BuildChain.Proofs.Settings.FollowsPath
import BuildChain.Proofs.Settings.IncludeForms
import BuildChain.Proofs.Report
import BuildChain.Proofs.Script.Literal
import BuildChain.Proofs.Script.Section
import BuildChain.Proofs.Script.PluginText
import BuildChain.Proofs.Script.OrderReading
import BuildChain.Proofs.Properties.WellFormed
import BuildChain.Proofs.Conventions.Items
import BuildChain.Proofs.Conventions.Layers
import BuildChain.Proofs.CommandLine.Reading
