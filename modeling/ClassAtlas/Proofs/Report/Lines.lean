import ClassAtlas.Proofs.Graph.Views
import ClassAtlas.Proofs.Number.Text
import Mathlib

/-!
# Line structure of text reports

The text format has eight header lines, one line per node and one per edge. Numbers and labels hold
no newline, but class names are copied verbatim, so the text splits into these lines if and only if
no class name holds a newline; a line reader then recovers the nodes, and the edges if no name holds
a blank either. Specification: `SPEC_FULL.md` §10.5, lines 159–163.
-/

namespace ClassAtlas

/-! ### Lines -/

namespace Text

/-- The text is the concatenation of lines without newlines, each terminated by one. -/
def HasLines (text : String) (lines : List String) : Prop :=
  text.toList.splitOn '\n' = lines.map String.toList ++ [[]]

private theorem length_splitOn (separator : Char) (text : List Char) :
    (text.splitOn separator).length = text.count separator + 1 := by
  induction text with
  | nil => rfl
  | cons c rest ih =>
    rw [List.splitOn_cons_eq_if_modifyHead, List.count_cons]
    split_ifs
    · rw [List.length_cons, ih]
    · rw [List.length_modifyHead, ih, Nat.add_zero]

private theorem toList_join_lines (lines : List String) :
    (String.join (lines.map (· ++ "\n"))).toList =
      lines.flatMap fun line => line.toList ++ ['\n'] := by
  rw [String.toList_join, List.flatMap_map]
  simp

/-- Splitting terminated lines splits each line at its own newlines. -/
theorem splitOn_join_lines (lines : List String) :
    (String.join (lines.map (· ++ "\n"))).toList.splitOn '\n' =
      lines.flatMap (fun line => line.toList.splitOn '\n') ++ [[]] := by
  rw [toList_join_lines]
  induction lines with
  | nil => rfl
  | cons line lines ih =>
    rw [List.flatMap_cons, List.flatMap_cons, List.append_assoc, List.singleton_append,
      List.splitOn_append_cons_self, ih, List.append_assoc]

private theorem count_join_lines (lines : List String) :
    (String.join (lines.map (· ++ "\n"))).toList.count '\n' =
      lines.length + (lines.map fun line => line.toList.count '\n').sum := by
  rw [toList_join_lines]
  induction lines with
  | nil => rfl
  | cons line lines ih =>
    rw [List.flatMap_cons, List.count_append, ih, List.count_append, List.length_cons,
      List.map_cons, List.sum_cons, List.count_singleton_self]
    omega

/-- Terminated lines are lines of their concatenation if and only if none holds a newline. -/
theorem hasLines_join_iff (lines : List String) :
    HasLines (String.join (lines.map (· ++ "\n"))) lines ↔
      ∀ line ∈ lines, '\n' ∉ line.toList := by
  rw [HasLines]
  constructor
  · intro h line hline
    have hlength := congrArg List.length h
    rw [length_splitOn, count_join_lines, List.length_append, List.length_map,
      List.length_singleton] at hlength
    have hsum : (lines.map fun line => line.toList.count '\n').sum = 0 := by omega
    have hzero := List.sum_eq_zero_iff.mp hsum _ (List.mem_map_of_mem hline)
    exact List.count_eq_zero.mp hzero
  · intro h
    rw [splitOn_join_lines]
    congr 1
    rw [List.map_eq_flatMap]
    exact List.flatMap_congr fun line hline => List.splitOn_eq_singleton (h line hline)

end Text

/-! ### Lines of a report -/

namespace GraphReport

open Number (isNumberChar)

/-- A character that is no number character does not occur in a numeral. -/
theorem notMem_decimal {c : Char} (h : isNumberChar c = false) (value : Nat) :
    c ∉ (Number.decimal value).toList := by
  intro hmem
  rw [Number.decimal, String.toList_ofList] at hmem
  rw [Number.isNumberChar_of_isDigit (Number.isDigit_of_mem_digits hmem)] at h
  cases h

private theorem notMem_coordinates {c : Char} (h : isNumberChar c = false) (hcomma : c ≠ ',')
    (hblank : c ≠ ' ') (position : Vec3 Float32) :
    c ∉ (String.intercalate ", " (position.toList.map coordinate)).toList := by
  rw [String.toList_intercalate]
  have hnumber (value : Float32) : c ∉ (coordinate value).toList := by
    intro hmem
    rw [Number.isNumberChar_of_mem_fixed hmem] at h
    cases h
  simp [Vec3.toList, List.intercalate, hnumber, hcomma, hblank]

private theorem newline_notMem_headerLines (report : GraphReport) :
    ∀ line ∈ report.headerLines, '\n' ∉ line.toList := by
  have hdecimal := notMem_decimal (c := '\n') rfl
  have htitle : '\n' ∉ report.state.title.toList := by
    cases report.state <;> decide
  simp [headerLines, hdecimal, htitle]

/-- A node line is a dash, the name, and a bracketed remainder without further opening brackets. -/
theorem exists_nodeLine (node : NodeReport) :
    ∃ behind, (nodeLine node).toList =
        '-' :: ' ' :: (node.identity.toList ++ ' ' :: '[' :: behind) ∧
      '\n' ∉ behind ∧ '[' ∉ behind := by
  refine ⟨node.origin.title.toList ++ "] at (".toList ++
    (String.intercalate ", " (node.position.toList.map coordinate)).toList ++ ")".toList,
    ?_, ?_, ?_⟩
  · simp only [nodeLine, String.toList_append]
    simp
  · have hposition := notMem_coordinates (c := '\n') rfl (by decide) (by decide) node.position
    have htitle : '\n' ∉ node.origin.title.toList := by
      cases node.origin <;> decide
    simp only [List.mem_append, not_or]
    exact ⟨⟨⟨htitle, by decide⟩, hposition⟩, by decide⟩
  · have hposition := notMem_coordinates (c := '[') rfl (by decide) (by decide) node.position
    have htitle : '[' ∉ node.origin.title.toList := by
      cases node.origin <;> decide
    simp only [List.mem_append, not_or]
    exact ⟨⟨⟨htitle, by decide⟩, hposition⟩, by decide⟩

/-- An edge line is two blanks, both names, and a parenthesized remainder without further opening
parentheses. -/
theorem exists_edgeLine (edge : Edge) :
    ∃ behind, (edgeLine edge).toList =
        ' ' :: ' ' :: (edge.a.toList ++ ' ' :: '-' :: '-' :: ' ' :: edge.b.toList ++
          ' ' :: '(' :: behind) ∧
      '\n' ∉ behind ∧ '(' ∉ behind := by
  have hweight {c : Char} (h : isNumberChar c = false) :
      c ∉ (Number.Single.ofFloat edge.weight.toFloat).plain.toList := by
    intro hmem
    rw [Number.isNumberChar_of_mem_plain hmem] at h
    cases h
  refine ⟨(Number.Single.ofFloat edge.weight.toFloat).plain.toList ++ ")".toList, ?_, ?_, ?_⟩
  · simp [edgeLine]
  · exact List.not_mem_append (hweight rfl) (by decide)
  · exact List.not_mem_append (hweight rfl) (by decide)

/-! ### Line reader -/

/-- Text in front of the last occurrence of a character and of the blank before it. -/
def beforeLast (mark : Char) (text : List Char) : List Char :=
  ((text.reverse.dropWhile (· ≠ mark)).drop 2).reverse

private theorem beforeLast_append {mark : Char} (text : List Char) {behind : List Char}
    (h : mark ∉ behind) : beforeLast mark (text ++ ' ' :: mark :: behind) = text := by
  have hall : ∀ c ∈ behind.reverse, decide (c ≠ mark) = true := by
    intro c hc
    exact decide_eq_true fun heq => h (heq ▸ List.mem_reverse.mp hc)
  have hreverse : (text ++ ' ' :: mark :: behind).reverse =
      behind.reverse ++ mark :: ' ' :: text.reverse := by simp
  rw [beforeLast, hreverse, List.dropWhile_append_of_pos hall]
  simp

/-- Identity on a node line. -/
def nodeOfLine? : List Char → Option String
  | '-' :: ' ' :: rest => some (String.ofList (beforeLast '[' rest))
  | _ => none

/-- Names on an edge line; the first one is taken to end at the first blank. -/
def edgeOfLine? : List Char → Option (String × String)
  | ' ' :: ' ' :: rest =>
    let names := beforeLast '(' rest
    some (String.ofList (names.takeWhile (· ≠ ' ')),
      String.ofList ((names.dropWhile (· ≠ ' ')).drop 4))
  | _ => none

private theorem nodeOfLine?_headerLines (report : GraphReport) :
    ∀ line ∈ report.headerLines,
      nodeOfLine? line.toList = none ∧ edgeOfLine? line.toList = none := by
  simp [headerLines, nodeOfLine?, edgeOfLine?]

private theorem nodeOfLine?_nodeLine (node : NodeReport) :
    nodeOfLine? (nodeLine node).toList = some node.identity ∧
      edgeOfLine? (nodeLine node).toList = none := by
  obtain ⟨behind, hline, -, hbehind⟩ := exists_nodeLine node
  rw [hline]
  simp [nodeOfLine?, edgeOfLine?, beforeLast_append _ hbehind]

private theorem nodeOfLine?_edgeLine (edge : Edge) : nodeOfLine? (edgeLine edge).toList = none := by
  obtain ⟨behind, hline, -, -⟩ := exists_edgeLine edge
  rw [hline]
  simp [nodeOfLine?]

private theorem edgeOfLine?_edgeLine {edge : Edge} (h : ' ' ∉ edge.a.toList) :
    edgeOfLine? (edgeLine edge).toList = some (edge.a, edge.b) := by
  obtain ⟨behind, hline, -, hbehind⟩ := exists_edgeLine edge
  have hall : ∀ c ∈ edge.a.toList, decide (c ≠ ' ') = true := by
    intro c hc
    exact decide_eq_true fun heq => h (heq ▸ hc)
  rw [hline, edgeOfLine?]
  simp only [beforeLast_append _ hbehind, List.takeWhile_append_of_pos hall,
    List.dropWhile_append_of_pos hall]
  simp

/-! ### Laws -/

/-- Laws of the text format: eight labelled header lines followed by node and edge lines in order,
which begin with the names; strictly ordered nodes and edges; the number of lines; the number of
newlines, which counts those in names; the equivalence of the line structure with the absence of
newlines in names; and the recovery of nodes and edges by the line reader. -/
structure LineLaws (report : GraphReport) : Prop where
  lines : report.lines =
    report.headerLines ++ report.nodes.map nodeLine ++ report.edges.map edgeLine
  labels : List.Forall₂ (fun label line => label.toList <+: line.toList)
    ["state: ", "classes_parsed: ", "entries_failed: ", "roots_failed: ", "layout_ticks: ",
      "nodes: ", "edges: ", "duration_ms: "] report.headerLines
  nodeLine (node : NodeReport) : ("- " ++ node.identity).toList <+: (nodeLine node).toList
  edgeLine (edge : Edge) :
    ("  " ++ edge.a ++ " -- " ++ edge.b).toList <+: (edgeLine edge).toList
  nodes_strict : report.nodes.Pairwise fun node other => node.identity < other.identity
  edges_strict : report.edges.Pairwise Edge.Precedes
  length : report.lines.length = 8 + report.nodeCount + report.edgeCount
  newlines : (report.render .text).toList.count '\n' = 8 + report.nodeCount + report.edgeCount +
    ((report.nodes.map fun node => node.identity.toList.count '\n').sum +
      (report.edges.map fun edge => edge.a.toList.count '\n' + edge.b.toList.count '\n').sum)
  hasLines : Text.HasLines (report.render .text) report.lines ↔
    ∀ node ∈ report.nodes, '\n' ∉ node.identity.toList
  nodesRead : (∀ node ∈ report.nodes, '\n' ∉ node.identity.toList) →
    ((report.render .text).toList.splitOn '\n').filterMap nodeOfLine? =
      report.nodes.map (·.identity)
  edgesRead : (∀ node ∈ report.nodes, '\n' ∉ node.identity.toList ∧ ' ' ∉ node.identity.toList) →
    ((report.render .text).toList.splitOn '\n').filterMap edgeOfLine? =
      report.edges.map fun edge => (edge.a, edge.b)

private theorem count_newline_nodeLine (node : NodeReport) :
    (GraphReport.nodeLine node).toList.count '\n' = node.identity.toList.count '\n' := by
  obtain ⟨behind, hline, hbehind, -⟩ := exists_nodeLine node
  rw [hline]
  simp [List.count_eq_zero.mpr hbehind]

private theorem count_newline_edgeLine (edge : Edge) :
    (GraphReport.edgeLine edge).toList.count '\n' =
      edge.a.toList.count '\n' + edge.b.toList.count '\n' := by
  obtain ⟨behind, hline, hbehind, -⟩ := exists_edgeLine edge
  rw [hline]
  simp [List.count_eq_zero.mpr hbehind]

private theorem newline_notMem_nodeLine_iff {node : NodeReport} :
    '\n' ∉ (GraphReport.nodeLine node).toList ↔ '\n' ∉ node.identity.toList := by
  rw [← List.count_eq_zero, count_newline_nodeLine, List.count_eq_zero]

private theorem newline_notMem_edgeLine_iff {edge : Edge} :
    '\n' ∉ (GraphReport.edgeLine edge).toList ↔ '\n' ∉ edge.a.toList ∧ '\n' ∉ edge.b.toList := by
  rw [← List.count_eq_zero, count_newline_edgeLine, Nat.add_eq_zero_iff, List.count_eq_zero,
    List.count_eq_zero]

/-- Number of lines of a report. -/
theorem length_lines {report : GraphReport} (hnodes : report.nodeCount = report.nodes.length)
    (hedges : report.edgeCount = report.edges.length) :
    report.lines.length = 8 + report.nodeCount + report.edgeCount := by
  simp only [GraphReport.lines, headerLines, hnodes, hedges, List.length_append, List.length_map,
    List.length_cons, List.length_nil]

/-- The newlines within lines are those of the names. -/
theorem sum_count_newline_lines (report : GraphReport) :
    (report.lines.map fun line => line.toList.count '\n').sum =
      (report.nodes.map fun node => node.identity.toList.count '\n').sum +
        (report.edges.map fun edge => edge.a.toList.count '\n' + edge.b.toList.count '\n').sum := by
  have hheader : (report.headerLines.map fun line => line.toList.count '\n').sum = 0 := by
    rw [List.sum_eq_zero_iff, List.forall_mem_map]
    exact fun line hline => List.count_eq_zero.mpr (newline_notMem_headerLines report line hline)
  simp [GraphReport.lines, Function.comp_def, count_newline_nodeLine, count_newline_edgeLine,
    hheader]

/-- Both names of every edge have nodes in the report. -/
def EndsListed (report : GraphReport) : Prop :=
  ∀ edge ∈ report.edges, (∃ node ∈ report.nodes, node.identity = edge.a) ∧
    ∃ node ∈ report.nodes, node.identity = edge.b

variable {report : GraphReport}

/-- The lines hold no newline if and only if the names of the nodes hold none. -/
theorem EndsListed.newline_notMem_lines_iff (h : report.EndsListed) :
    (∀ line ∈ report.lines, '\n' ∉ line.toList) ↔
      ∀ node ∈ report.nodes, '\n' ∉ node.identity.toList := by
  simp only [GraphReport.lines, List.forall_mem_append, List.forall_mem_map,
    newline_notMem_nodeLine_iff, newline_notMem_edgeLine_iff]
  constructor
  · rintro ⟨⟨-, hnodes⟩, -⟩
    exact hnodes
  · intro hnodes
    refine ⟨⟨newline_notMem_headerLines report, hnodes⟩, fun edge hedge => ?_⟩
    obtain ⟨⟨first, hfirst, ha⟩, second, hsecond, hb⟩ := h edge hedge
    exact ⟨ha ▸ hnodes first hfirst, hb ▸ hnodes second hsecond⟩

/-- Splitting a report whose names hold no newline yields its lines. -/
theorem EndsListed.filterMap_splitOn (h : report.EndsListed)
    (hnodes : ∀ node ∈ report.nodes, '\n' ∉ node.identity.toList) {β : Type}
    {read : List Char → Option β} (hempty : read [] = none) :
    ((report.render .text).toList.splitOn '\n').filterMap read =
      report.headerLines.filterMap (fun line => read line.toList) ++
        report.nodes.filterMap (fun node => read (GraphReport.nodeLine node).toList) ++
        report.edges.filterMap fun edge => read (GraphReport.edgeLine edge).toList := by
  have hlines : Text.HasLines (report.render .text) report.lines :=
    (Text.hasLines_join_iff report.lines).mpr (h.newline_notMem_lines_iff.mpr hnodes)
  rw [hlines]
  simp [GraphReport.lines, List.filterMap_append, List.filterMap_map, hempty, Function.comp_def]

/-- The line reader recovers the nodes. -/
theorem EndsListed.nodesRead (h : report.EndsListed)
    (hnodes : ∀ node ∈ report.nodes, '\n' ∉ node.identity.toList) :
    ((report.render .text).toList.splitOn '\n').filterMap nodeOfLine? =
      report.nodes.map (·.identity) := by
  have hheader : report.headerLines.filterMap (fun line => nodeOfLine? line.toList) = [] :=
    List.filterMap_eq_nil_iff.mpr fun line hline => (nodeOfLine?_headerLines report line hline).1
  rw [h.filterMap_splitOn hnodes rfl, hheader]
  simp [nodeOfLine?_nodeLine, nodeOfLine?_edgeLine, List.filterMap_eq_map']

private theorem EndsListed.edgesRead (h : report.EndsListed)
    (hnodes : ∀ node ∈ report.nodes, '\n' ∉ node.identity.toList ∧ ' ' ∉ node.identity.toList) :
    ((report.render .text).toList.splitOn '\n').filterMap edgeOfLine? =
      report.edges.map fun edge => (edge.a, edge.b) := by
  have hheader : report.headerLines.filterMap (fun line => edgeOfLine? line.toList) = [] :=
    List.filterMap_eq_nil_iff.mpr fun line hline => (nodeOfLine?_headerLines report line hline).2
  have hedges :
      report.edges.filterMap (fun edge => edgeOfLine? (GraphReport.edgeLine edge).toList) =
        report.edges.map fun edge => (edge.a, edge.b) := by
    rw [← List.filterMap_eq_map]
    refine List.filterMap_congr fun edge hedge => ?_
    obtain ⟨⟨node, hnode, ha⟩, -⟩ := h edge hedge
    exact edgeOfLine?_edgeLine (ha ▸ (hnodes node hnode).2)
  rw [h.filterMap_splitOn (fun node hnode => (hnodes node hnode).1) rfl, hheader, hedges]
  simp [nodeOfLine?_nodeLine]

end GraphReport

open GraphReport in
/-- The report of a well-formed graph satisfies the laws. -/
theorem Graph.IsWellFormed.lineLaws_collect {originOf : String → Origin} {g : Graph Float32}
    (h : g.IsWellFormed originOf) (classpath : List String) (state : ScanState)
    (scan : ScanCounts) (layoutTicks durationMs : Nat) :
    (collect classpath g state scan layoutTicks durationMs).LineLaws := by
  have hends : (collect classpath g state scan layoutTicks durationMs).EndsListed := by
    intro edge hedge
    have hlisted {name : String} (hname : (g.find? name).isSome) :
        ∃ node ∈ g.snapshot.map NodeReport.ofNode, node.identity = name := by
      obtain ⟨node, hnode, rfl⟩ := h.viewsAgree.exists_snapshot.mp hname
      exact ⟨_, List.mem_map_of_mem hnode, rfl⟩
    have hweight := h.mem_edges.mp hedge
    exact ⟨hlisted (isSome_find?_of_weight? hweight), hlisted (h.weight hweight).2.2⟩
  constructor
  case lines => rfl
  case labels =>
    rw [headerLines]
    simp only [List.forall₂_cons, String.toList_append, List.prefix_append, true_and]
    exact .nil
  case nodeLine =>
    intro node
    obtain ⟨behind, hline, -, -⟩ := exists_nodeLine node
    rw [hline]
    simp
  case edgeLine =>
    intro edge
    obtain ⟨behind, hline, -, -⟩ := exists_edgeLine edge
    rw [hline]
    simp
  case nodes_strict =>
    have hstrict := h.viewsAgree.snapshot_strict
    exact List.pairwise_map.mpr hstrict
  case edges_strict =>
    have hstrict := h.flatMap_edges_precede
    rw [← h.edges_eq] at hstrict
    exact hstrict
  case length => exact length_lines rfl rfl
  case newlines =>
    have hcount := Text.count_join_lines
      (collect classpath g state scan layoutTicks durationMs).lines
    rw [length_lines rfl rfl, sum_count_newline_lines] at hcount
    exact hcount
  case hasLines => exact (Text.hasLines_join_iff _).trans hends.newline_notMem_lines_iff
  case nodesRead => exact hends.nodesRead
  case edgesRead => exact hends.edgesRead

namespace Graph

open GraphReport (collect nodeOfLine? edgeOfLine?)

/-- The nodes of a report are those of the graph, in order. -/
theorem map_identity_collect {originOf : String → Origin} {g : Graph Float32}
    (h : g.IsWellFormed originOf) (classpath : List String) (state : ScanState)
    (scan : ScanCounts) (layoutTicks durationMs : Nat) :
    (collect classpath g state scan layoutTicks durationMs).nodes.map (·.identity) =
      g.nodeList.map (·.identity) := by
  rw [← h.snapshot_eq]
  exact List.map_map

/-- The report of every reachable graph satisfies the laws of the text format. -/
theorem lineLaws_of_reachable {resolver : OriginResolver} {tree : FileTree} {g : Graph Float32}
    (h : Reachable resolver tree g) (classpath : List String) (state : ScanState)
    (scan : ScanCounts) (layoutTicks durationMs : Nat) :
    (collect classpath g state scan layoutTicks durationMs).LineLaws :=
  (isWellFormed_of_reachable h).lineLaws_collect classpath state scan layoutTicks durationMs

/-- The line reader recovers a subclass and its superclass. -/
theorem lineLaws_of_reachable_subclass :
    ∃ g : Graph Float32, Reachable .empty (.fresh []) g ∧
      (collect [] g .completed {} 0 0).LineLaws ∧
      (((collect [] g .completed {} 0 0).render .text).toList.splitOn '\n').filterMap nodeOfLine? =
        ["A", "p.B"] ∧
      (((collect [] g .completed {} 0 0).render .text).toList.splitOn '\n').filterMap edgeOfLine? =
        [("A", "p.B")] := by
  let g : Graph Float32 :=
    empty.relate (OriginResolver.resolve .empty (.fresh [])) "p.B" "A" .inheritance
  have hreach : Reachable .empty (.fresh []) g := .relate "p.B" "A" .inheritance .empty
  have hlaws := lineLaws_of_reachable hreach [] .completed {} 0 0
  have hnames := map_identity_collect (isWellFormed_of_reachable hreach) [] .completed {} 0 0
  have hlisted : g.nodeList.map (·.identity) = ["A", "p.B"] := by decide +kernel
  rw [hlisted] at hnames
  have htidy : ∀ name ∈ ["A", "p.B"], '\n' ∉ name.toList ∧ ' ' ∉ name.toList := by decide
  rw [← hnames, List.forall_mem_map] at htidy
  have hedges : (collect [] g .completed {} 0 0).edges = [⟨"A", "p.B", ⟨4⟩⟩] := by decide +kernel
  refine ⟨g, hreach, hlaws, ?_, ?_⟩
  · rw [hlaws.nodesRead fun node hnode => (htidy node hnode).1, hnames]
  · rw [hlaws.edgesRead htidy, hedges]
    rfl

/-- A class file whose class name holds a newline yields a report with more lines than its nodes and
edges account for. -/
theorem not_hasLines_of_newline :
    ∃ (bytes : List UInt8) (facts : List Fact) (g : Graph Float32),
      ClassFile.extractFacts bytes = .ok facts ∧
      g = addFacts (OriginResolver.resolve .empty (.fresh [])) facts empty ∧
      (collect [] g .completed {} 0 0).nodeCount = 2 ∧
      (collect [] g .completed {} 0 0).edgeCount = 1 ∧
      ((collect [] g .completed {} 0 0).render .text).toList.count '\n' = 13 ∧
      ¬Text.HasLines ((collect [] g .completed {} 0 0).render .text)
        (collect [] g .completed {} 0 0).lines := by
  let bytes : List UInt8 :=
    [0xCA, 0xFE, 0xBA, 0xBE, 0, 0, 0, 0, 0, 5, 1, 0, 3, 0x61, 0x0A, 0x62, 7, 0, 1, 1, 0, 1, 0x63,
      7, 0, 3, 0, 0, 0, 2, 0, 4, 0, 0, 0, 0, 0, 0, 0, 0]
  let g : Graph Float32 :=
    addFacts (OriginResolver.resolve .empty (.fresh [])) [⟨"a\nb", "c", .inheritance⟩] empty
  have hfacts : ClassFile.extractFacts bytes = .ok [⟨"a\nb", "c", .inheritance⟩] := by cbv
  have hwf : g.IsWellFormed (OriginResolver.resolve .empty (.fresh [])) :=
    isWellFormed_of_reachable (.insert hfacts .empty)
  have hlaws := hwf.lineLaws_collect [] .completed {} 0 0
  have hnames := map_identity_collect hwf [] .completed {} 0 0
  have hlisted : g.nodeList.map (·.identity) = ["a\nb", "c"] := by decide +kernel
  rw [hlisted] at hnames
  have hedges : (collect [] g .completed {} 0 0).edges = [⟨"a\nb", "c", ⟨4⟩⟩] := by decide +kernel
  have hnodeCount : (collect [] g .completed {} 0 0).nodeCount = 2 := by
    have hlength := congrArg List.length hnames
    rwa [List.length_map] at hlength
  have hedgeCount : (collect [] g .completed {} 0 0).edgeCount = 1 := congrArg List.length hedges
  have hnewlines := hlaws.newlines
  have hmap : (collect [] g .completed {} 0 0).nodes.map
      (fun node => node.identity.toList.count '\n') =
        ["a\nb", "c"].map (·.toList.count '\n') := by
    rw [← hnames, List.map_map]
    rfl
  rw [hnodeCount, hedgeCount, hedges, hmap] at hnewlines
  refine ⟨bytes, _, g, hfacts, rfl, hnodeCount, hedgeCount, hnewlines, fun hlines => ?_⟩
  have htidy : ∀ name ∈ (collect [] g .completed {} 0 0).nodes.map (·.identity),
      '\n' ∉ name.toList := List.forall_mem_map.mpr (hlaws.hasLines.mp hlines)
  rw [hnames] at htidy
  exact htidy "a\nb" List.mem_cons_self (by decide)

end Graph

end ClassAtlas
