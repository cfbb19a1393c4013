/-!
# Lines

A line ends with a line feed, and a carriage return right before it belongs to the end. What stands
after the last line feed is a line too, unless it is empty; a carriage return at its end stays.

Main statement: `lines_append`, cutting after a line feed cuts the list of lines.
-/

namespace LayerGraph.Text

/-- Drops the carriage return at the front of a reversed line. -/
def dropReturn : List Char → List Char
  | '\r' :: rest => rest
  | line => line

/-- The lines of what is left, when the current line has been read up to here, in reverse. -/
def linesFrom (current : List Char) : List Char → List (List Char)
  | [] => if current.isEmpty then [] else [current.reverse]
  | c :: rest =>
    if c = '\n' then (dropReturn current).reverse :: linesFrom [] rest
    else linesFrom (c :: current) rest

/-- The lines of a text, without their ends. -/
def lines (cs : List Char) : List (List Char) :=
  linesFrom [] cs

theorem linesFrom_append (front back : List Char) :
    ∀ current, linesFrom current (front ++ '\n' :: back) =
      linesFrom current (front ++ ['\n']) ++ lines back := by
  induction front with
  | nil => intro current; simp [linesFrom, lines]
  | cons c front ih =>
    intro current
    by_cases hc : c = '\n'
    · simp [linesFrom, hc, ih]
    · simp [linesFrom, hc, ih]

theorem lines_append (front back : List Char) :
    lines (front ++ '\n' :: back) = lines (front ++ ['\n']) ++ lines back :=
  linesFrom_append front back []

end LayerGraph.Text
