import Tinox.Data.Lines
import Tinox.Runtime.Map

/-!
# CSV

`Csv.toString` writes rows of cells and `Csv.parse` reads them.  The writer doubles the quotes of
a cell, while each quote only switches the reader between its two states, and the reader cuts the
text into lines before it looks at quotes.
-/

namespace Tinox.Formats.Csv

open Tinox.Runtime

def newline : UInt8 := 10

def quote : UInt8 := 34

def comma : UInt8 := 44

/-- The loop of `Csv.parseRow`. -/
def parseRowLoop (inQuotes : Bool) (current : CString) : CString → List CString
  | [] => [current]
  | c :: line =>
      if c = quote then parseRowLoop (!inQuotes) current line
      else if c = comma && inQuotes == false then current :: parseRowLoop inQuotes [] line
      else parseRowLoop inQuotes (current ++ [c]) line

/-- `Csv.parseRow`. -/
def parseRow (line : CString) : List CString :=
  parseRowLoop false [] line

/-- `Csv.parse`. -/
def parse (content : CString) : List (List CString) :=
  ((content.splitOn newline).filter fun line => 0 < line.length).map parseRow

/-- A cell in `Csv.rowToString`. -/
def cellToString (cell : CString) : CString :=
  if cell.contains comma || cell.contains quote then
    [quote] ++ cell.flatMap (fun c => if c = quote then [quote, quote] else [c]) ++ [quote]
  else cell

/-- `Csv.rowToString`. -/
def rowToString (row : List CString) : CString :=
  [comma].intercalate (row.map cellToString)

/-- `Csv.toString`. -/
def toString (data : List (List CString)) : CString :=
  data.flatMap fun row => rowToString row ++ [newline]

theorem parseRowLoop_plain {c : UInt8} (notQuote : c ≠ quote) {inQuotes : Bool}
    (inside : inQuotes = true ∨ c ≠ comma) (current line : CString) :
    parseRowLoop inQuotes current (c :: line) = parseRowLoop inQuotes (current ++ [c]) line := by
  rw [parseRowLoop, if_neg notQuote, if_neg]
  rw [Bool.and_eq_true, decide_eq_true_iff, beq_iff_eq]
  rintro ⟨isComma, isOutside⟩
  rcases inside with isInside | notComma
  · exact Bool.noConfusion (isOutside.symm.trans isInside)
  · exact notComma isComma

theorem parseRowLoop_text {cell : CString} (noQuote : quote ∉ cell) {inQuotes : Bool}
    (inside : inQuotes = true ∨ comma ∉ cell) (current rest : CString) :
    parseRowLoop inQuotes current (cell ++ rest) = parseRowLoop inQuotes (current ++ cell) rest := by
  induction cell generalizing current with
  | nil => rw [List.nil_append, List.append_nil]
  | cons c cell ih =>
      rw [List.mem_cons, not_or] at noQuote
      rw [List.mem_cons, not_or] at inside
      rw [List.cons_append, parseRowLoop_plain (Ne.symm noQuote.1) (inside.imp_right fun none => Ne.symm none.1),
        ih noQuote.2 (inside.imp_right And.right), List.append_assoc, List.singleton_append]

theorem flatMap_noQuote {cell : CString} (noQuote : quote ∉ cell) :
    cell.flatMap (fun c => if c = quote then [quote, quote] else [c]) = cell := by
  induction cell with
  | nil => rfl
  | cons c cell ih =>
      rw [List.mem_cons, not_or] at noQuote
      rw [List.flatMap_cons, ih noQuote.2, if_neg (Ne.symm noQuote.1), List.singleton_append]

theorem parseRowLoop_cell {cell : CString} (noQuote : quote ∉ cell) (rest : CString) :
    parseRowLoop false [] (cellToString cell ++ rest) = parseRowLoop false cell rest := by
  rw [cellToString]
  split
  next isQuoted =>
    rw [flatMap_noQuote noQuote, List.append_assoc, List.append_assoc, List.singleton_append,
      parseRowLoop, if_pos rfl, Bool.not_false, parseRowLoop_text noQuote (Or.inl rfl), List.nil_append,
      List.singleton_append, parseRowLoop, if_pos rfl, Bool.not_true]
  next isPlain =>
    rw [Bool.or_eq_true, not_or, List.contains_iff_mem] at isPlain
    exact parseRowLoop_text noQuote (Or.inr isPlain.1) [] rest

theorem parseRow_rowToString {row : List CString} (some : row ≠ [])
    (noQuote : ∀ cell ∈ row, quote ∉ cell) : parseRow (rowToString row) = row := by
  rw [parseRow, rowToString]
  induction row with
  | nil => exact absurd rfl some
  | cons cell row ih =>
      rw [List.forall_mem_cons] at noQuote
      cases row with
      | nil =>
          have isRead := parseRowLoop_cell noQuote.1 []
          rw [List.append_nil] at isRead
          rw [List.map_singleton, List.intercalate_singleton, isRead, parseRowLoop]
      | cons next row =>
          have notQuote : comma ≠ quote := by decide
          rw [List.map_cons, List.map_cons, List.intercalate_cons_cons, ← List.map_cons, List.append_assoc,
            List.singleton_append, parseRowLoop_cell noQuote.1, parseRowLoop, if_neg notQuote,
            if_pos (by decide), ih (List.cons_ne_nil next row) noQuote.2]

theorem mem_parseRowLoop {inQuotes : Bool} {current line cell : CString} {b : UInt8}
    (isCell : cell ∈ parseRowLoop inQuotes current line) (member : b ∈ cell) :
    b ∈ current ∨ b ∈ line ∧ b ≠ quote := by
  induction line generalizing inQuotes current with
  | nil =>
      rw [parseRowLoop, List.mem_singleton] at isCell
      exact Or.inl (isCell ▸ member)
  | cons c line ih =>
      have behind : b ∈ line ∧ b ≠ quote → b ∈ c :: line ∧ b ≠ quote :=
        fun found => ⟨List.mem_cons_of_mem c found.1, found.2⟩
      rw [parseRowLoop] at isCell
      split at isCell
      next isQuote => exact (ih isCell).imp_right behind
      next notQuote =>
        split at isCell
        next isComma =>
          rcases List.mem_cons.mp isCell with isCurrent | later
          · exact Or.inl (isCurrent ▸ member)
          · rcases ih later with none | found
            · exact absurd none List.not_mem_nil
            · exact Or.inr (behind found)
        next notComma =>
          rcases ih isCell with before | found
          · rcases List.mem_append.mp before with earlier | here
            · exact Or.inl earlier
            · rw [List.mem_singleton.mp here]
              exact Or.inr ⟨List.mem_cons_self .., notQuote⟩
          · exact Or.inr (behind found)

theorem clean_of_mem_parse {content : CString} {row : List CString} (isRow : row ∈ parse content)
    {cell : CString} (isCell : cell ∈ row) : quote ∉ cell ∧ newline ∉ cell := by
  rcases List.mem_map.mp isRow with ⟨line, isLine, isParsed⟩
  have free := Lines.notMem_of_mem_splitOn (List.mem_of_mem_filter isLine)
  rw [← isParsed] at isCell
  constructor
  · intro isQuote
    rcases mem_parseRowLoop isCell isQuote with none | ⟨_, notQuote⟩
    · exact absurd none List.not_mem_nil
    · exact notQuote rfl
  · intro isBreak
    rcases mem_parseRowLoop isCell isBreak with none | ⟨inLine, _⟩
    · exact absurd none List.not_mem_nil
    · exact free inLine

theorem newline_notMem_rowToString {row : List CString} (free : ∀ cell ∈ row, newline ∉ cell) :
    newline ∉ rowToString row := by
  have inCell {cell : CString} (noBreak : newline ∉ cell) : newline ∉ cellToString cell := by
    rw [cellToString]
    split
    · rw [List.mem_append, List.mem_append, List.mem_flatMap]
      rintro ((isFirst | ⟨c, member, isHere⟩) | isLast)
      · exact absurd isFirst (by decide)
      · split at isHere
        · exact absurd isHere (by decide)
        · rw [List.mem_singleton] at isHere
          exact noBreak (isHere ▸ member)
      · exact absurd isLast (by decide)
    · exact noBreak
  rw [rowToString]
  induction row with
  | nil => exact List.not_mem_nil
  | cons cell row ih =>
      rw [List.forall_mem_cons] at free
      cases row with
      | nil =>
          rw [List.map_singleton, List.intercalate_singleton]
          exact inCell free.1
      | cons next row =>
          rw [List.map_cons, List.map_cons, List.intercalate_cons_cons, ← List.map_cons, List.mem_append,
            List.mem_append]
          rintro ((here | isComma) | later)
          · exact inCell free.1 here
          · exact absurd isComma (by decide)
          · exact ih free.2 later

theorem rowToString_eq_nil_iff {row : List CString} (some : row ≠ []) :
    rowToString row = [] ↔ row = [[]] := by
  constructor
  · intro isEmpty
    rw [rowToString] at isEmpty
    cases row with
    | nil => exact absurd rfl some
    | cons cell row =>
        cases row with
        | nil =>
            rw [List.map_singleton, List.intercalate_singleton, cellToString] at isEmpty
            split at isEmpty
            · exact absurd isEmpty (by simp)
            · rw [isEmpty]
        | cons next row =>
            rw [List.map_cons, List.map_cons, List.intercalate_cons_cons] at isEmpty
            exact absurd isEmpty (by simp)
  · rintro rfl
    rfl

/-- Rows without quotes and line breaks are read as they were written, but for those of one
empty cell. -/
theorem parse_toString {rows : List (List CString)} (some : ∀ row ∈ rows, row ≠ [])
    (clean : ∀ row ∈ rows, ∀ cell ∈ row, quote ∉ cell ∧ newline ∉ cell) :
    parse (toString rows) = rows.filter (· ≠ [[]]) := by
  have free : ∀ line ∈ rows.map rowToString, newline ∉ line := by
    intro line isLine
    rcases List.mem_map.mp isLine with ⟨row, isRow, rfl⟩
    exact newline_notMem_rowToString fun cell isCell => (clean row isRow cell isCell).2
  have isText : toString rows = (rows.map rowToString).flatMap fun line => line ++ [newline] := by
    rw [toString, List.flatMap_map]
  rw [parse, isText, Lines.splitOn_flatMap free, List.filter_append, List.filter_map, List.map_append,
    List.map_map]
  have isRead : (rows.filter ((fun line => decide (0 < line.length)) ∘ rowToString)) =
      rows.filter (· ≠ [[]]) := by
    apply List.filter_congr
    intro row isRow
    rw [Function.comp_apply, decide_eq_decide, List.length_pos_iff, ne_eq, ne_eq,
      rowToString_eq_nil_iff (some row isRow)]
  rw [isRead]
  have same : (rows.filter (· ≠ [[]])).map (parseRow ∘ rowToString) = rows.filter (· ≠ [[]]) := by
    conv_rhs => rw [← List.map_id (rows.filter (· ≠ [[]]))]
    apply List.map_congr_left
    intro row isKept
    have isRow := List.mem_of_mem_filter isKept
    exact parseRow_rowToString (some row isRow) fun cell isCell => (clean row isRow cell isCell).1
  rw [same]
  exact List.append_nil _

theorem parseRowLoop_ne_nil (inQuotes : Bool) (current line : CString) :
    parseRowLoop inQuotes current line ≠ [] := by
  induction line generalizing inQuotes current with
  | nil => exact List.cons_ne_nil _ _
  | cons c line ih =>
      rw [parseRowLoop]
      split
      · exact ih _ _
      · split
        · exact List.cons_ne_nil _ _
        · exact ih _ _

/-- What is read of any text is read again when it is written, but for rows of one empty cell. -/
theorem parse_toString_parse (content : CString) :
    parse (toString (parse content)) = (parse content).filter (· ≠ [[]]) := by
  refine parse_toString (fun row isRow => ?_) fun row isRow cell isCell => clean_of_mem_parse isRow isCell
  rcases List.mem_map.mp isRow with ⟨line, -, rfl⟩
  exact parseRowLoop_ne_nil false [] line

/-- Rows survive exactly when no cell holds a quote or a line break and no row is one empty
cell. -/
theorem parse_toString_iff (rows : List (List CString)) (some : ∀ row ∈ rows, row ≠ []) :
    parse (toString rows) = rows ↔
      ∀ row ∈ rows, row ≠ [[]] ∧ ∀ cell ∈ row, quote ∉ cell ∧ newline ∉ cell := by
  constructor
  · intro same
    have clean : ∀ row ∈ rows, ∀ cell ∈ row, quote ∉ cell ∧ newline ∉ cell := by
      intro row isRow cell isCell
      rw [← same] at isRow
      exact clean_of_mem_parse isRow isCell
    rw [parse_toString some clean, List.filter_eq_self] at same
    intro row isRow
    exact ⟨of_decide_eq_true (same row isRow), clean row isRow⟩
  · intro survives
    rw [parse_toString some fun row isRow => (survives row isRow).2, List.filter_eq_self]
    intro row isRow
    exact decide_eq_true (survives row isRow).1

/-- A cell with a comma is quoted and read back. -/
theorem parse_toString_iff_comma :
    parse (toString [[[97, 44], []], [[13]]]) = [[[97, 44], []], [[13]]] := by
  rw [parse_toString_iff]
  · decide
  · decide

/-- A quote inside a cell is lost. -/
theorem quote_lost : parse (toString [[[97, 34, 98]]]) ≠ [[[97, 34, 98]]] := by
  decide

end Tinox.Formats.Csv
