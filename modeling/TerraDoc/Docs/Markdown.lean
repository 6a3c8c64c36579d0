/-!
The pieces of Markdown that the documents are made of. A row of a table is one line whatever its
cells hold: pipes in them are escaped and line breaks become blanks.
-/

namespace TerraDoc.Docs.Markdown

def line (text : List Char) : List Char :=
  text ++ ['\n']

def heading1 (text : List Char) : List Char :=
  line text ++ line "======".toList ++ line []

def heading2 (text : List Char) : List Char :=
  line text ++ line "------".toList ++ line []

def paragraph (text : List Char) : List Char :=
  line text

def bullet (text : List Char) : List Char :=
  line ('*' :: ' ' :: text)

/-- The text of a cell without unescaped pipes and without line breaks. -/
def escapeCell : List Char → List Char
  | [] => []
  | '|' :: rest => '\\' :: '|' :: escapeCell rest
  | '\r' :: '\n' :: rest => ' ' :: escapeCell rest
  | '\r' :: rest => ' ' :: escapeCell rest
  | '\n' :: rest => ' ' :: escapeCell rest
  | c :: rest => c :: escapeCell rest

def separator : List Char :=
  [' ', '|', ' ']

def row (cells : List (List Char)) : List Char :=
  separator.intercalate cells

def table (headers : List (List Char)) (rows : List (List (List Char))) : List Char :=
  line ('|' :: (row headers ++ ['|'])) ++
    line (row (headers.map fun _ => ['-', '-', '-'])) ++
    (rows.map fun cells => line (row (cells.map escapeCell))).flatten ++
    line []

def code (text : List Char) : List Char :=
  '`' :: (text ++ ['`'])

def link (text target : List Char) : List Char :=
  '[' :: (text ++ ']' :: '(' :: (target ++ [')']))

theorem escapeCell_no_break (text : List Char) :
    ∀ c ∈ escapeCell text, c ≠ '\n' ∧ c ≠ '\r' := by
  fun_induction escapeCell text with
  | case1 => simp
  | case2 rest inductionHypothesis => simpa using inductionHypothesis
  | case3 rest inductionHypothesis => simpa using inductionHypothesis
  | case4 rest other inductionHypothesis => simpa using inductionHypothesis
  | case5 rest inductionHypothesis => simpa using inductionHypothesis
  | case6 c rest noPipe noPair noReturn noFeed inductionHypothesis =>
      intro d member
      rcases List.mem_cons.mp member with same | later
      · subst same
        exact ⟨fun feed => noFeed feed, fun back => noReturn back⟩
      · exact inductionHypothesis d later

end TerraDoc.Docs.Markdown
