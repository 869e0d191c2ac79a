import ClassAtlas.Layout.Distance
import ClassAtlas.Main
import ClassAtlas.Proofs.ClassFile.Decision
import ClassAtlas.Proofs.ClassFile.Passes
import ClassAtlas.Proofs.ClassFile.RoundTrip
import ClassAtlas.Proofs.FileTree.Operations
import ClassAtlas.Proofs.Graph.Growth
import ClassAtlas.Proofs.Graph.Interleaving
import ClassAtlas.Proofs.Graph.Sharing
import ClassAtlas.Proofs.Graph.Views
import ClassAtlas.Proofs.Origin.Coherence
import ClassAtlas.Proofs.Origin.Confinement
import ClassAtlas.Proofs.Scan.Requests
import ClassAtlas.Proofs.Scan.Chunks
import ClassAtlas.Proofs.Scan.Resources
import ClassAtlas.Proofs.Layout.Arithmetic
import ClassAtlas.Proofs.Origin.Roots
import ClassAtlas.Proofs.Layout.Balance
import ClassAtlas.Proofs.Layout.Rest
import ClassAtlas.Proofs.Layout.TwoBodies
import ClassAtlas.Proofs.Classpath.Validation
import ClassAtlas.Proofs.Report.Lines
import ClassAtlas.Proofs.Report.ReadBack
import ClassAtlas.Proofs.Settings.Resolution
