import ClassAtlas.Proofs.Json.Reader
import ClassAtlas.Report.Basic
import Mathlib

/-!
# Round trip of JSON reports

The indented form of a document lexes to the tokens of its value, whatever its texts contain, and
hence parses to that value. Rendering therefore separates reports that differ in a text, a counter,
a state, an origin or a list. Specification: `SPEC_FULL.md` §10.5, lines 159–163, and §10.8, lines
199–201.
-/

namespace ClassAtlas

open Json (lex Spells Delimited)

/-! ### Texts -/

namespace Document

private theorem hexPadded_of_lt {value : Nat} (h : value < 0x20) :
    (Number.hexPadded 4 value).toList.length = 4 ∧
      Json.hexUnit? (Number.hexPadded 4 value).toList = some (UInt16.ofNat value) := by
  revert value
  decide +kernel

private theorem lexText_backslash {units : List UInt16} {c d : Char} {rest : List Char}
    (hd : d ≠ 'u')
    (h : Json.unescaped? d = some c) :
    Json.lexText units ('\\' :: d :: rest) =
      Json.lexText (units ++ Text.Utf16.encodeChar c) rest := by
  rw [Json.lexText, if_neg (by decide), if_pos rfl, Json.lexEscape, if_neg hd, h, Option.bind_some]

/-- A character lexes from its escape. -/
theorem lexText_escape (units : List UInt16) (c : Char) (rest : List Char) :
    Json.lexText units (escape c ++ rest) =
      Json.lexText (units ++ Text.Utf16.encodeChar c) rest := by
  rw [escape]
  split_ifs with hquote hbackslash hnewline hreturn htab hback hfeed hcontrol
  · exact lexText_backslash (by decide) (by rw [hquote]; rfl)
  · exact lexText_backslash (by decide) (by rw [hbackslash]; rfl)
  · exact lexText_backslash (by decide) (by rw [hnewline]; rfl)
  · exact lexText_backslash (by decide) (by rw [hreturn]; rfl)
  · exact lexText_backslash (by decide) (by rw [htab]; rfl)
  · exact lexText_backslash (by decide) (by rw [hback]; rfl)
  · exact lexText_backslash (by decide) (by rw [hfeed]; rfl)
  · obtain ⟨hlength, hunit⟩ := hexPadded_of_lt hcontrol
    rw [List.append_assoc, List.cons_append, Json.lexText, if_neg (by decide), if_pos rfl,
      List.singleton_append, Json.lexEscape, if_pos rfl, Json.lexUnit_append hlength hunit,
      Text.Utf16.encodeChar, if_pos (by omega)]
  · rw [List.singleton_append, Json.lexText, if_neg hquote, if_neg hbackslash, if_neg hcontrol]

/-- A text lexes from its escapes. -/
theorem lexText_flatMap_escape (units : List UInt16) (text rest : List Char) :
    Json.lexText units (text.flatMap escape ++ rest) =
      Json.lexText (units ++ Text.Utf16.encode text) rest := by
  induction text generalizing units with
  | nil => simp [Text.Utf16.encode]
  | cons c text ih =>
    rw [List.flatMap_cons, List.append_assoc, lexText_escape, ih, Text.Utf16.encode,
      Text.Utf16.encode, List.flatMap_cons, List.append_assoc]

/-- A quoted text is one token. -/
theorem spells_quote (text : String) : Spells (quote text) [.atom (.text text)] := by
  intro rest _
  rw [quote, List.append_assoc, List.cons_append, lex, if_neg (by decide), if_neg (by decide),
    if_pos rfl, lexText_flatMap_escape, List.nil_append, List.singleton_append, Json.lexText,
    if_pos rfl, Json.ofUnits?_encode, Option.bind_some]
  rfl

/-! ### Documents -/

mutual

/-- Value of a document; a number that is not finite is `null`. -/
def meaning : Document → Json
  | text value => .text value
  | natural value => .number value
  | single value => value.shown?.elim .null .number
  | array items => .array (meaningItems items)
  | object fields => .object (meaningFields fields)

/-- Values of array items. -/
def meaningItems : List Document → List Json
  | [] => []
  | item :: rest => item.meaning :: meaningItems rest

/-- Values of object fields. -/
def meaningFields : List (String × Document) → List (String × Json)
  | [] => []
  | (name, value) :: rest => (name, value.meaning) :: meaningFields rest

end

private theorem meaningItems_eq_map (items : List Document) :
    meaningItems items = items.map meaning := by
  induction items with
  | nil => rfl
  | cons item items ih => rw [meaningItems, ih, List.map_cons]

private theorem meaningFields_eq_map (fields : List (String × Document)) :
    meaningFields fields = fields.map fun field => (field.1, field.2.meaning) := by
  induction fields with
  | nil => rfl
  | cons field fields ih => rw [meaningFields, ih, List.map_cons]

private theorem prettyItems_eq_map (depth : Nat) (items : List Document) :
    prettyItems depth items = items.map (prettyChars depth) := by
  induction items with
  | nil => rfl
  | cons item items ih => rw [prettyItems, ih, List.map_cons]

/-- Indented form of an object field. -/
def prettyField (depth : Nat) (field : String × Document) : List Char :=
  quote field.1 ++ ':' :: ' ' :: field.2.prettyChars depth

private theorem prettyFields_eq_map (depth : Nat) (fields : List (String × Document)) :
    prettyFields depth fields = fields.map (prettyField depth) := by
  induction fields with
  | nil => rfl
  | cons field fields ih => rw [prettyFields, ih, List.map_cons, prettyField]

private theorem lex_newline (depth : Nat) (rest : List Char) :
    lex (newline depth ++ rest) = lex rest := by
  refine Json.lex_blanks ?_ rest
  rw [newline, List.forall_mem_cons]
  refine ⟨rfl, fun c hc => ?_⟩
  rw [List.eq_of_mem_replicate hc]
  rfl

private theorem delimited_newline (depth : Nat) (rest : List Char) :
    Delimited (newline depth ++ rest) := by
  rintro c hc
  obtain rfl := Option.some.inj hc
  exact .inl rfl

private theorem delimited_comma (rest : List Char) : Delimited (',' :: rest) := by
  rintro c hc
  obtain rfl := Option.some.inj hc
  exact .inr rfl

section

variable {α : Type} {text : α → List Char} {tokens : α → List Json.Token} {depth : Nat}

/-- Comma-separated parts on lines of their own spell their tokens with commas in between. -/
theorem spells_intercalate {item : α} {items : List α}
    (h : ∀ item' ∈ item :: items, Spells (text item') (tokens item')) :
    Spells (List.intercalate (',' :: newline depth) ((item :: items).map text))
      (List.intercalate [.mark ','] ((item :: items).map tokens)) := by
  induction items generalizing item with
  | nil =>
    simp only [List.map_singleton, List.intercalate_singleton]
    exact h item List.mem_cons_self
  | cons next items ih =>
    obtain ⟨hitem, hitems⟩ := List.forall_mem_cons.mp h
    intro rest hrest
    rw [List.map_cons, List.map_cons, List.intercalate_cons_cons, ← List.map_cons,
      List.append_assoc, List.append_assoc, List.cons_append, hitem _ (delimited_comma _),
      Json.lex_mark rfl, lex_newline, ih hitems rest hrest, Option.map_map, Option.map_map]
    simp only [Function.comp_def, List.map_cons, List.intercalate_cons_cons, List.append_assoc,
      List.cons_append, List.nil_append]

/-- Bracketed parts spell their tokens between brackets. -/
theorem spells_encloseLines {items : List α} (h : ∀ item ∈ items, Spells (text item) (tokens item))
    {first last : Char} (hfirst : Json.isMark first = true) (hlast : Json.isMark last = true) :
    Spells (encloseLines depth first last (items.map text))
      (Json.enclosed first last (items.map tokens)) := by
  intro rest hrest
  cases items with
  | nil =>
    show lex (first :: last :: rest) = _
    rw [Json.lex_mark hfirst, Json.lex_mark hlast, Option.map_map]
    rfl
  | cons item items =>
    rw [encloseLines, if_neg (by simp)]
    simp only [List.cons_append, List.append_assoc]
    rw [Json.lex_mark hfirst, lex_newline, spells_intercalate h _ (delimited_newline depth _),
      lex_newline, List.nil_append, Json.lex_mark hlast, Option.map_map, Option.map_map]
    simp only [Function.comp_def, Json.enclosed, List.append_assoc, List.cons_append,
      List.nil_append]

end

/-- A document at a depth spells the tokens of its value. -/
def IsSpelt (depth : Nat) (document : Document) : Prop :=
  Spells (document.prettyChars depth) document.meaning.tokens

private theorem IsSpelt.field {depth : Nat} {field : String × Document}
    (h : field.2.IsSpelt depth) :
    Spells (prettyField depth field) (Json.tokensOfField (field.1, field.2.meaning)) := by
  intro rest hrest
  have hcolon : Delimited (':' :: ' ' :: (field.2.prettyChars depth ++ rest)) := by
    rintro c hc
    obtain rfl := Option.some.inj hc
    exact .inr rfl
  rw [prettyField, List.append_assoc, List.cons_append, List.cons_append,
    spells_quote field.1 _ hcolon, Json.lex_mark rfl, Json.lex_blank rfl, h rest hrest,
    Option.map_map, Option.map_map]
  rfl

/-- Every document spells the tokens of its value. -/
theorem isSpelt (depth : Nat) (document : Document) : IsSpelt depth document := by
  refine prettyChars.induct IsSpelt (fun depth fields => ∀ field ∈ fields, field.2.IsSpelt depth)
    (fun depth items => ∀ item ∈ items, item.IsSpelt depth) ?text ?natural ?single ?array ?object
    ?noItems ?items ?noFields ?fields depth document
  case text =>
    intro depth value
    rw [IsSpelt, prettyChars, meaning]
    exact spells_quote value
  case natural =>
    intro depth value
    rw [IsSpelt, prettyChars, meaning]
    exact Json.spells_numeral (Number.number?_digits value)
  case single =>
    intro depth value
    rw [IsSpelt, prettyChars, meaning, numeral]
    obtain ⟨hnone, hshown⟩ | ⟨text, shown, htext, hshown, hnumber⟩ := Number.number?_document? value
    · rw [hnone, hshown]
      exact Json.spells_null
    · rw [htext, hshown]
      exact Json.spells_numeral hnumber
  case array =>
    intro depth items hitems
    rw [IsSpelt, prettyChars, prettyItems_eq_map, meaning, meaningItems_eq_map, Json.tokens,
      Json.tokensOfItems_eq_map, List.map_map]
    exact spells_encloseLines hitems rfl rfl
  case object =>
    intro depth fields hfields
    rw [IsSpelt, prettyChars, prettyFields_eq_map, meaning, meaningFields_eq_map, Json.tokens,
      Json.tokensOfFields_eq_map, List.map_map]
    exact spells_encloseLines (fun field hfield => (hfields field hfield).field) rfl rfl
  case noItems => exact fun depth => List.forall_mem_nil _
  case items => exact fun depth item items hitem hitems => List.forall_mem_cons.mpr ⟨hitem, hitems⟩
  case noFields => exact fun depth => List.forall_mem_nil _
  case fields =>
    exact fun depth name value fields hvalue hfields => List.forall_mem_cons.mpr ⟨hvalue, hfields⟩

/-- The indented form of a document lexes to the tokens of its value. -/
theorem lex_pretty (document : Document) :
    lex document.pretty.toList = some document.meaning.tokens := by
  have hspelt := document.isSpelt 0 [] (by simp [Delimited])
  rw [List.append_nil, lex, Option.map_some, List.append_nil] at hspelt
  rw [pretty, String.toList_ofList, hspelt]

end Document

/-! ### Reports -/

/-- Value of a machine number, `null` unless it is finite. -/
def Json.ofFloat (value : Float32) : Json :=
  (Number.Single.ofFloat value).shown?.elim .null .number

/-- Value of a report node. -/
def NodeReport.toJson (node : NodeReport) : Json :=
  .object [("identity", .text node.identity), ("package", .text node.package),
    ("simple_name", .text node.simpleName), ("origin", .text node.origin.label),
    ("color", .array (node.color.toList.map Json.ofFloat)),
    ("position", .array (node.position.toList.map Json.ofFloat))]

/-- Value of an edge. -/
def Edge.toJson (edge : Edge) : Json :=
  .object [("a", .text edge.a), ("b", .text edge.b),
    ("weight", Json.ofFloat edge.weight.toFloat)]

namespace GraphReport

/-- Value of a report. -/
def toJson (report : GraphReport) : Json :=
  .object [("classpath", .array (report.classpath.map Json.text)),
    ("state", .text report.state.label),
    ("scan", .object [("classes_parsed", .number report.scan.classesParsed),
      ("entries_failed", .number report.scan.entriesFailed),
      ("roots_failed", .number report.scan.rootsFailed)]),
    ("layout_ticks", .number report.layoutTicks), ("node_count", .number report.nodeCount),
    ("edge_count", .number report.edgeCount), ("duration_ms", .number report.durationMs),
    ("nodes", .array (report.nodes.map NodeReport.toJson)),
    ("edges", .array (report.edges.map Edge.toJson))]

end GraphReport

open Document (meaning meaningItems_eq_map)

private theorem Document.meaning_ofFloat (value : Float32) :
    (Document.ofFloat value).meaning = Json.ofFloat value := by
  rw [Document.ofFloat, meaning, Json.ofFloat]

private theorem NodeReport.meaning_toDocument (node : NodeReport) :
    node.toDocument.meaning = node.toJson := by
  simp [NodeReport.toDocument, Color.toDocument, Vec3.toDocument, meaning, Document.meaningFields,
    meaningItems_eq_map, Document.meaning_ofFloat, NodeReport.toJson]

private theorem Edge.meaning_toDocument (edge : Edge) : edge.toDocument.meaning = edge.toJson := by
  simp [Edge.toDocument, Weight.toDocument, meaning, Document.meaningFields,
    Document.meaning_ofFloat, Edge.toJson]

/-- The document of a report denotes its value. -/
theorem GraphReport.meaning_toDocument (report : GraphReport) :
    report.toDocument.meaning = report.toJson := by
  simp [GraphReport.toDocument, ScanCounts.toDocument, meaning, Document.meaningFields,
    meaningItems_eq_map, NodeReport.meaning_toDocument, Edge.meaning_toDocument, GraphReport.toJson]

/-- Distinct states have distinct labels. -/
theorem ScanState.label_injective : Function.Injective ScanState.label := by
  intro state other
  cases state <;> cases other <;> simp [ScanState.label]

/-- Distinct origins have distinct labels. -/
theorem Origin.label_injective : Function.Injective Origin.label := by
  intro origin other
  cases origin <;> cases other <;> simp [Origin.label]

/-- Names and origin of a report node. -/
def NodeReport.words (node : NodeReport) : String × String × String × Origin :=
  (node.identity, node.package, node.simpleName, node.origin)

private theorem NodeReport.words_eq_of_toJson_eq {node other : NodeReport}
    (h : node.toJson = other.toJson) : node.words = other.words := by
  simp only [NodeReport.toJson, Json.object.injEq, List.cons.injEq, Prod.mk.injEq, Json.text_inj,
    true_and] at h
  obtain ⟨hidentity, hpackage, hname, horigin, -⟩ := h
  rw [NodeReport.words, hidentity, hpackage, hname, Origin.label_injective horigin,
    NodeReport.words]

/-- Names of an edge. -/
def Edge.names (edge : Edge) : String × String := (edge.a, edge.b)

private theorem Edge.names_eq_of_toJson_eq {edge other : Edge} (h : edge.toJson = other.toJson) :
    edge.names = other.names := by
  simp only [Edge.toJson, Json.object.injEq, List.cons.injEq, Prod.mk.injEq, Json.text_inj,
    true_and] at h
  obtain ⟨ha, hb, -⟩ := h
  rw [Edge.names, ha, hb, Edge.names]

private theorem map_eq_map_of_imp {α β γ : Type} {f : α → β} {g : α → γ}
    (hfg : ∀ a b, f a = f b → g a = g b) {items others : List α}
    (h : items.map f = others.map f) : items.map g = others.map g := by
  rw [← List.forall₂_eq_eq_eq, List.forall₂_map_left_iff, List.forall₂_map_right_iff] at h ⊢
  exact h.imp hfg

namespace GraphReport

/-- Agreement of reports in all but coordinates, colors and weights. -/
structure Agrees (report other : GraphReport) : Prop where
  classpath : report.classpath = other.classpath
  state : report.state = other.state
  scan : report.scan = other.scan
  layoutTicks : report.layoutTicks = other.layoutTicks
  nodeCount : report.nodeCount = other.nodeCount
  edgeCount : report.edgeCount = other.edgeCount
  durationMs : report.durationMs = other.durationMs
  nodes : report.nodes.map NodeReport.words = other.nodes.map NodeReport.words
  edges : report.edges.map Edge.names = other.edges.map Edge.names

/-- Reports with the same value agree. -/
theorem agrees_of_toJson_eq {report other : GraphReport} (h : report.toJson = other.toJson) :
    report.Agrees other := by
  simp only [toJson, Json.object.injEq, List.cons.injEq, Prod.mk.injEq, Json.text_inj,
    Json.number_inj, Json.array.injEq, Nat.cast_inj, true_and, and_true] at h
  obtain ⟨hclasspath, hstate, hscan, hticks, hnodeCount, hedgeCount, hduration, hnodes, hedges⟩ := h
  constructor
  case classpath => exact List.map_injective_iff.mpr (fun _ _ => Json.text_inj.mp) hclasspath
  case state => exact ScanState.label_injective hstate
  case scan => exact (ScanCounts.mk.injEq ..).mpr hscan
  case layoutTicks => exact hticks
  case nodeCount => exact hnodeCount
  case edgeCount => exact hedgeCount
  case durationMs => exact hduration
  case nodes => exact map_eq_map_of_imp (fun _ _ => NodeReport.words_eq_of_toJson_eq) hnodes
  case edges => exact map_eq_map_of_imp (fun _ _ => Edge.names_eq_of_toJson_eq) hedges

/-- The indented form of a report parses to its value, with every text, counter, state, origin and
list. Reports that differ in any of these have different renderings. -/
theorem isReadBack (report : GraphReport) :
    Json.read? (report.render .json) = some report.toJson ∧
      lex (report.render .json).toList = some report.toJson.tokens ∧
      ∀ other : GraphReport, other.render .json = report.render .json → report.Agrees other := by
  have hlex (report : GraphReport) :
      lex (report.render .json).toList = some report.toJson.tokens := by
    rw [render, Document.lex_pretty, meaning_toDocument]
  have hread (report : GraphReport) : Json.read? (report.render .json) = some report.toJson :=
    Json.read?_eq_some_iff.mpr (hlex report)
  refine ⟨hread report, hlex report, fun other hother => agrees_of_toJson_eq ?_⟩
  have hvalue := hread other
  rw [hother, hread report] at hvalue
  exact Option.some.inj hvalue

end GraphReport

end ClassAtlas
