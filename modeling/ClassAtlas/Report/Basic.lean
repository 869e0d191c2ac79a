import ClassAtlas.Graph.Basic
import ClassAtlas.Report.Document
import ClassAtlas.Scan.Status

/-!
# Reports

Report of a finished scan: statistics, nodes and edges, rendered as JSON or as compact text.
Specification: `SPEC_FULL.md` §10.5, lines 158–163, and §10.6, lines 166–170 and 179–180.
-/

namespace ClassAtlas

/-- Output formats. -/
inductive ReportFormat where
  | json
  | text
  deriving DecidableEq, Repr

/-- Node of a report. -/
structure NodeReport where
  identity : String
  package : String
  simpleName : String
  origin : Origin
  color : Color
  position : Vec3 Float32

/-- Report of a node of the graph. -/
def NodeReport.ofNode (node : Node Float32) : NodeReport where
  identity := node.identity
  package := node.package
  simpleName := node.simpleName
  origin := node.origin
  color := node.color
  position := node.position

/-- Report with the classpath as given, the scan statistics, the duration in milliseconds, and the
ordered node and edge listings. -/
structure GraphReport where
  classpath : List String
  state : ScanState
  scan : ScanCounts
  layoutTicks : Nat
  nodeCount : Nat
  edgeCount : Nat
  durationMs : Nat
  nodes : List NodeReport
  edges : List Edge

namespace GraphReport

/-- Report of a graph. -/
def collect (classpath : List String) (graph : Graph Float32) (state : ScanState)
    (scan : ScanCounts) (layoutTicks durationMs : Nat) : GraphReport :=
  let nodes := graph.snapshot.map NodeReport.ofNode
  let edges := graph.edges
  { classpath, state, scan, layoutTicks, nodeCount := nodes.length, edgeCount := edges.length,
    durationMs, nodes, edges }

end GraphReport

/-- JSON value of a position. -/
def Vec3.toDocument (v : Vec3 Float32) : Document := .array (v.toList.map Document.ofFloat)

/-- JSON value of a color. -/
def Color.toDocument (color : Color) : Document := .array (color.toList.map Document.ofFloat)

/-- JSON value of a weight. -/
def Weight.toDocument (weight : Weight) : Document := Document.ofFloat weight.toFloat

/-- JSON value of an edge. -/
def Edge.toDocument (edge : Edge) : Document :=
  .object [("a", .text edge.a), ("b", .text edge.b), ("weight", edge.weight.toDocument)]

/-- JSON value of a node of a report. -/
def NodeReport.toDocument (node : NodeReport) : Document :=
  .object [("identity", .text node.identity), ("package", .text node.package),
    ("simple_name", .text node.simpleName), ("origin", .text node.origin.label),
    ("color", node.color.toDocument), ("position", node.position.toDocument)]

/-- JSON value of scan statistics. -/
def ScanCounts.toDocument (scan : ScanCounts) : Document :=
  .object [("classes_parsed", .natural scan.classesParsed),
    ("entries_failed", .natural scan.entriesFailed), ("roots_failed", .natural scan.rootsFailed)]

/-- JSON value of a node snapshot, relationships included. -/
def Node.toDocument (node : Node Float32) : Document :=
  .object [("identity", .text node.identity), ("origin", .text node.origin.label),
    ("position", node.position.toDocument),
    ("relationships", .object (node.partners.toList.map fun (partner, weight) =>
      (partner, weight.toDocument)))]

/-- JSON value of a graph snapshot. -/
def Graph.snapshotDocument (graph : Graph Float32) : Document :=
  .array (graph.snapshot.map Node.toDocument)

/-- JSON value of an edge listing. -/
def Graph.edgesDocument (graph : Graph Float32) : Document :=
  .array (graph.edges.map Edge.toDocument)

namespace GraphReport

/-- JSON value of a report. -/
def toDocument (report : GraphReport) : Document :=
  .object [("classpath", .array (report.classpath.map Document.text)),
    ("state", .text report.state.label), ("scan", report.scan.toDocument),
    ("layout_ticks", .natural report.layoutTicks), ("node_count", .natural report.nodeCount),
    ("edge_count", .natural report.edgeCount), ("duration_ms", .natural report.durationMs),
    ("nodes", .array (report.nodes.map NodeReport.toDocument)),
    ("edges", .array (report.edges.map Edge.toDocument))]

/-- Number of decimal places of a coordinate in the text format. -/
def coordinatePlaces : Nat := 2

/-- Coordinate in the text format. -/
def coordinate (value : Float32) : String :=
  (Number.Single.ofFloat value).fixed coordinatePlaces

/-- Header lines of the text format. -/
def headerLines (report : GraphReport) : List String :=
  ["state: " ++ report.state.title,
    "classes_parsed: " ++ Number.decimal report.scan.classesParsed,
    "entries_failed: " ++ Number.decimal report.scan.entriesFailed,
    "roots_failed: " ++ Number.decimal report.scan.rootsFailed,
    "layout_ticks: " ++ Number.decimal report.layoutTicks,
    "nodes: " ++ Number.decimal report.nodeCount,
    "edges: " ++ Number.decimal report.edgeCount,
    "duration_ms: " ++ Number.decimal report.durationMs]

/-- Node line of the text format. -/
def nodeLine (node : NodeReport) : String :=
  "- " ++ node.identity ++ " [" ++ node.origin.title ++ "] at (" ++
    String.intercalate ", " (node.position.toList.map coordinate) ++ ")"

/-- Edge line of the text format. -/
def edgeLine (edge : Edge) : String :=
  "  " ++ edge.a ++ " -- " ++ edge.b ++ " (" ++
    (Number.Single.ofFloat edge.weight.toFloat).plain ++ ")"

/-- Lines of the text format. -/
def lines (report : GraphReport) : List String :=
  report.headerLines ++ report.nodes.map nodeLine ++ report.edges.map edgeLine

/-- Rendered report. -/
def render (report : GraphReport) : ReportFormat → String
  | .json => report.toDocument.pretty
  | .text => String.join (report.lines.map (· ++ "\n"))

end GraphReport

end ClassAtlas
