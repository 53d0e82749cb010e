/-!
# Lines

Two ways to cut a text into lines. Main statements: lines that keep their ends concatenate to the
text.
-/

namespace AssetBake.Text

/-- The lines of a text, each with the newline that ends it. -/
def newlinePieces : List Char → List (List Char)
  | [] => []
  | c :: rest =>
    if c = '\n' then [c] :: newlinePieces rest
    else
      match newlinePieces rest with
      | [] => [[c]]
      | line :: more => (c :: line) :: more

theorem flatten_newlinePieces (s : List Char) : (newlinePieces s).flatten = s := by
  induction s with
  | nil => rfl
  | cons c rest ih =>
    simp only [newlinePieces]
    split
    · simp [ih]
    · cases h : newlinePieces rest with
      | nil => simp_all
      | cons line more => simp_all

/-- A line without the newline, or the carriage return and newline, that ends it. -/
def withoutLineEnd (line : List Char) : List Char :=
  match line.reverse with
  | '\n' :: '\r' :: rest => rest.reverse
  | '\n' :: rest => rest.reverse
  | _ => line

/-- The lines of a text without their ends. -/
def plainLines (s : List Char) : List (List Char) :=
  (newlinePieces s).map withoutLineEnd

/-- The lines of a text where a carriage return ends a line as well, alone or before a newline;
each line keeps its end. -/
def endedLines : List Char → List (List Char)
  | [] => []
  | '\r' :: '\n' :: rest => ['\r', '\n'] :: endedLines rest
  | c :: rest =>
    if c = '\n' || c = '\r' then [c] :: endedLines rest
    else
      match endedLines rest with
      | [] => [[c]]
      | line :: more => (c :: line) :: more

theorem flatten_endedLines (s : List Char) : (endedLines s).flatten = s := by
  fun_induction endedLines s with
  | case1 => rfl
  | case2 rest ih => simp [ih]
  | case3 c rest _ _ ih => simp [ih]
  | case4 c rest _ _ h ih => simp_all
  | case5 c rest _ _ line more h ih => simp_all

end AssetBake.Text
