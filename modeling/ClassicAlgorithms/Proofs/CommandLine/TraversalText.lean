import ClassicAlgorithms.Proofs.CommandLine.Outcome
import ClassicAlgorithms.Proofs.Graph.SpanningForest
import ClassicAlgorithms.Proofs.Text.Numeral

/-!
# Reading a traversal back from its report

The report of a search shows the order of discovery and the edges with their kinds, row
by row. No row has a line feed in it and no word of a row a blank, so that all of this can
be read back, and with it the graph. Numberings and roots are not shown, but they follow
from the graph.
-/
namespace ClassicAlgorithms

/-- What a report shows of a traversal. -/
structure Printed where
  order : List ℕ
  edges : List (Edge × EdgeKind)
deriving DecidableEq

namespace Printed

/-- The graph of the report, which has as many nodes as were discovered. -/
def graph (p : Printed) : GraphInput := ⟨p.order.length, p.edges.map Prod.fst⟩

def kinds (p : Printed) : List EdgeKind := p.edges.map Prod.snd

def orderRow (order : List ℕ) : List Char := [' '].intercalate (order.map (Nat.toDigits 10))

/-- The words of an edge are its tail, its head and the letter of its kind. -/
def edgeWords (p : Edge × EdgeKind) : List (List Char) :=
  [Nat.toDigits 10 p.1.tail, Nat.toDigits 10 p.1.head, [p.2.letter]]

def edgeRow (p : Edge × EdgeKind) : List Char := [' '].intercalate (edgeWords p)

def rows (p : Printed) : List (List Char) := orderRow p.order :: p.edges.map edgeRow

/-- The rows, each with a line feed behind it. -/
def text (p : Printed) : List Char := p.rows.flatMap fun row => row ++ ['\n']

def readDecimal (word : List Char) : ℕ := Nat.ofDigitChars 10 word 0

def readKind? (word : List Char) : Option EdgeKind :=
  EdgeKind.all.find? fun kind => word = [kind.letter]

def readEdge? (row : List Char) : Option (Edge × EdgeKind) :=
  match row.splitOn ' ' with
  | [tail, head, letter] =>
    (readKind? letter).map fun kind => (⟨readDecimal tail, readDecimal head⟩, kind)
  | _ => none

def readOrder (row : List Char) : List ℕ := (row.splitOn ' ').map readDecimal

/-- Reads a text row by row; behind the last line feed there is no row. -/
def read? (text : List Char) : Option Printed :=
  match (text.splitOn '\n').dropLast with
  | [] => none
  | first :: rest => (rest.mapM readEdge?).map fun edges => ⟨readOrder first, edges⟩

section
variable {separator c : Char} {words rows : List (List Char)}

theorem not_mem_intercalate (hc : c ≠ separator) (h : ∀ word ∈ words, c ∉ word) :
    c ∉ [separator].intercalate words := by
  induction words with
  | nil => simp
  | cons word rest ih =>
    obtain ⟨hword, hrest⟩ := List.forall_mem_cons.mp h
    cases rest with
    | nil => simpa using hword
    | cons next rest =>
      rw [List.intercalate_cons_cons]
      simp [hword, hc, ih hrest]

/-- Rows that end in a separator have an empty row between the last one and the end. -/
theorem flatMap_eq_intercalate (rows : List (List Char)) :
    (rows.flatMap fun row => row ++ [separator]) = [separator].intercalate (rows ++ [[]]) := by
  induction rows with
  | nil => simp
  | cons row rest ih =>
    rw [List.flatMap_cons, ih, List.cons_append, List.intercalate_cons_of_ne_nil (by simp)]

theorem dropLast_splitOn_flatMap (h : ∀ row ∈ rows, separator ∉ row) :
    ((rows.flatMap fun row => row ++ [separator]).splitOn separator).dropLast = rows := by
  have hrows : ∀ row ∈ rows ++ [[]], separator ∉ row := by
    simpa [or_imp, forall_and] using h
  rw [flatMap_eq_intercalate, List.splitOn_intercalate _ hrows (by simp), List.dropLast_concat]

end

@[simp] theorem readDecimal_toDigits (n : ℕ) : readDecimal (Nat.toDigits 10 n) = n :=
  Nat.ofDigitChars_ten_toDigits

@[simp] theorem readKind?_letter (kind : EdgeKind) : readKind? [kind.letter] = some kind := by
  cases kind <;> rfl

theorem letter_ne {c : Char} (hc : c ∉ EdgeKind.all.map EdgeKind.letter) (kind : EdgeKind) :
    c ≠ kind.letter := by
  rintro rfl
  exact hc (List.mem_map_of_mem kind.mem_all)

theorem not_mem_edgeWords {c : Char} (hdigit : c.isDigit = false)
    (hletter : c ∉ EdgeKind.all.map EdgeKind.letter) (p : Edge × EdgeKind) :
    ∀ word ∈ edgeWords p, c ∉ word := by
  simp [edgeWords, Text.not_mem_toDigits hdigit, letter_ne hletter]

theorem readEdge?_edgeRow (p : Edge × EdgeKind) : readEdge? (edgeRow p) = some p := by
  have hwords : (edgeRow p).splitOn ' ' = edgeWords p :=
    List.splitOn_intercalate _ (not_mem_edgeWords (by decide) (by decide) p) (by simp [edgeWords])
  rw [readEdge?, hwords]
  simp [edgeWords]

theorem mapM_readEdge? (edges : List (Edge × EdgeKind)) :
    (edges.map edgeRow).mapM readEdge? = some edges := by
  induction edges with
  | nil => rfl
  | cons p rest ih => simp [readEdge?_edgeRow, ih]

theorem readOrder_orderRow {order : List ℕ} (h : order ≠ []) :
    readOrder (orderRow order) = order := by
  have hwords : ∀ word ∈ order.map (Nat.toDigits 10), ' ' ∉ word := by
    simp [Text.not_mem_toDigits (c := ' ') (by decide)]
  rw [readOrder, orderRow, List.splitOn_intercalate _ hwords (by simpa using h), List.map_map]
  simp [Function.comp_def]

/-- No row has a line feed in it. -/
theorem not_mem_rows (p : Printed) : ∀ row ∈ p.rows, '\n' ∉ row := by
  have horder : ∀ word ∈ p.order.map (Nat.toDigits 10), '\n' ∉ word := by
    simp [Text.not_mem_toDigits (c := '\n') (by decide)]
  rw [rows, List.forall_mem_cons, List.forall_mem_map]
  constructor
  · exact not_mem_intercalate (by decide) horder
  · exact fun q _ => not_mem_intercalate (by decide) (not_mem_edgeWords (by decide) (by decide) q)

/-- Everything that is printed can be read back, unless there are no nodes. -/
theorem read?_text (p : Printed) (h : p.order ≠ []) : read? p.text = some p := by
  rw [read?, text, dropLast_splitOn_flatMap p.not_mem_rows]
  simp only [rows, mapM_readEdge?, readOrder_orderRow h, Option.map_some]

/-- What the report of a traversal prints. -/
def ofTraversal (edges : List Edge) (t : Traversal) : Printed :=
  ⟨t.discovery.toList, edges.zip t.kinds.toList⟩

theorem toList_orderText (order : List ℕ) : (Report.orderText order).toList = orderRow order := by
  rw [Report.orderText, String.toList_intercalate, List.map_map]
  simp [orderRow, Function.comp_def]

theorem flatMap_edgePieces (p : Edge × EdgeKind) :
    (Report.edgePieces p).flatMap String.toList = edgeRow p ++ ['\n'] := by
  simp [Report.edgePieces, edgeRow, edgeWords]

theorem toList_render (g : Digraph) (t : Traversal) :
    (Report.traversal g t).render.toList = (ofTraversal g.edges.toList t).text := by
  rw [Report.render, String.toList_join, Report.pieces, List.flatMap_append, List.flatMap_assoc]
  simp [flatMap_edgePieces, toList_orderText, text, rows, ofTraversal, List.flatMap_map]

/-- The text consists of the printed rows, which are those of the graph and its traversal, and
reading it brings back what is printed. -/
structure Tells (p : Printed) (text : List Char) (input : GraphInput) (t : Traversal) : Prop where
  text_eq : text = p.rows.flatMap fun row => row ++ ['\n']
  feed_not_mem : ∀ row ∈ p.rows, '\n' ∉ row
  length_rows : p.rows.length = input.edges.length + 1
  order_perm : p.order.Perm (List.range input.nodeCount)
  order_eq : p.order = t.discovery.toList
  graph_eq : p.graph = input
  kinds_eq : p.kinds = t.kinds.toList
  read_eq : read? text = some p

theorem tells_ofTraversal [Memory] {input : GraphInput} {g : Digraph} {t : Traversal}
    (hbuild : Digraph.build input.nodeCount input.edges = .ok g) (hclassify : classify g = .ok t) :
    (ofTraversal g.edges.toList t).Tells (Report.traversal g t).render.toList input t := by
  obtain ⟨F, hF, hg, hcount, hedges, hclassify'⟩ := exists_spans_of_build hbuild
  obtain rfl : Spans.traversal g F = t := Except.ok.inj (hclassify'.symm.trans hclassify)
  have horder : (Spans.traversal g F).discovery.toList.Perm (List.range input.nodeCount) := by
    rw [Spans.discovery_traversal, ← hcount]
    exact hF.nodes_perm hg
  have hkinds : (Spans.traversal g F).kinds.toList.length = input.edges.length := by
    rw [← hedges, Array.length_toList]
    exact (hF.complete_play hg byNumber).length_kinds
  have hnonempty : (Spans.traversal g F).discovery.toList ≠ [] := by
    have hpos := hg.nodes_pos
    have hlength := horder.length_eq
    rw [List.length_range, ← hcount] at hlength
    exact List.ne_nil_of_length_pos (by omega)
  constructor
  · exact toList_render g _
  · exact not_mem_rows _
  · simp [rows, ofTraversal, hedges, hkinds]
  · exact horder
  · rfl
  · rw [graph, ofTraversal, hedges, List.map_fst_zip (by omega), horder.length_eq,
      List.length_range]
  · rw [kinds, ofTraversal, hedges, List.map_snd_zip (by omega)]
  · rw [toList_render]
    exact read?_text _ hnonempty

end Printed

open Printed

theorem Command.exists_tells [Memory] {text : String} {report : Report}
    (h : (runDfs text).outcome = .ok report) :
    ∃ input g t p, GraphInput.parse text = .ok input ∧
      Digraph.build input.nodeCount input.edges = .ok g ∧ classify g = .ok t ∧
      report = .traversal g t ∧ Tells p report.render.toList input t := by
  obtain ⟨input, g, t, hparse, hbuild, hclassify, rfl⟩ := outcome_runDfs_eq_ok_iff.mp h
  exact ⟨input, g, t, _, hparse, hbuild, hclassify, rfl, tells_ofTraversal hbuild hclassify⟩

/-- The report of a search tells the graph, the order of discovery and all kinds. As these tell
the rest of the traversal, texts with the same report have the same graph and the same
traversal. -/
theorem report_of_runDfs_determines [Memory] :
    (∀ text report, (Command.runDfs text).outcome = .ok report →
      ∃ input g t p, GraphInput.parse text = .ok input ∧
        Digraph.build input.nodeCount input.edges = .ok g ∧ classify g = .ok t ∧
        report = .traversal g t ∧ Tells p report.render.toList input t) ∧
    ∀ text text' report report', (Command.runDfs text).outcome = .ok report →
      (Command.runDfs text').outcome = .ok report' → report.render = report'.render →
      GraphInput.parse text = GraphInput.parse text' ∧ report = report' := by
  refine ⟨fun text report => Command.exists_tells, fun text text' report report' h h' hsame => ?_⟩
  obtain ⟨input, g, t, p, hparse, hbuild, hclassify, rfl, htells⟩ := Command.exists_tells h
  obtain ⟨input', g', t', p', hparse', hbuild', hclassify', rfl, htells'⟩ :=
    Command.exists_tells h'
  have hread := htells.read_eq
  rw [hsame, htells'.read_eq, Option.some.injEq] at hread
  subst hread
  -- The rows give the graph, and everything else is computed from it.
  obtain rfl : input = input' := htells.graph_eq.symm.trans htells'.graph_eq
  obtain rfl : g = g' := Except.ok.inj (hbuild.symm.trans hbuild')
  obtain rfl : t = t' := Except.ok.inj (hclassify.symm.trans hclassify')
  exact ⟨hparse.trans hparse'.symm, rfl⟩

/-- Signs, leading zeros and the layout are not part of the graph. -/
theorem report_of_runDfs_determines_other_layout :
    (Command.runDfs "3 3\n0 2\n2 0\n1 2\n").outcome =
        .ok (.traversal ⟨#[⟨0, 2⟩, ⟨2, 0⟩, ⟨1, 2⟩], #[#[0], #[2], #[1]]⟩
          ⟨#[0, 2, 1], #[.tree, .back, .cross], #[1, 3, 2], #[2, 3, 1], #[0, 1]⟩) ∧
      ∃ report, (Command.runDfs "+3 03 0\t2 2 0 1 2").outcome = .ok report ∧
        GraphInput.parse "3 3\n0 2\n2 0\n1 2\n" = GraphInput.parse "+3 03 0\t2 2 0 1 2" ∧
        (∃ input g t p, report = .traversal g t ∧ Tells p report.render.toList input t) := by
  have h : (Command.runDfs "3 3\n0 2\n2 0\n1 2\n").outcome =
      .ok (.traversal ⟨#[⟨0, 2⟩, ⟨2, 0⟩, ⟨1, 2⟩], #[#[0], #[2], #[1]]⟩
        ⟨#[0, 2, 1], #[.tree, .back, .cross], #[1, 3, 2], #[2, 3, 1], #[0, 1]⟩) := by decide +kernel
  have h' : (Command.runDfs "+3 03 0\t2 2 0 1 2").outcome =
      .ok (.traversal ⟨#[⟨0, 2⟩, ⟨2, 0⟩, ⟨1, 2⟩], #[#[0], #[2], #[1]]⟩
        ⟨#[0, 2, 1], #[.tree, .back, .cross], #[1, 3, 2], #[2, 3, 1], #[0, 1]⟩) := by decide +kernel
  obtain ⟨htells, hsame⟩ := report_of_runDfs_determines
  obtain ⟨input, g, t, p, -, -, -, hreport, hp⟩ := htells _ _ h'
  exact ⟨h, _, h', (hsame _ _ _ _ h h' rfl).1, input, g, t, p, hreport, hp⟩

end ClassicAlgorithms
