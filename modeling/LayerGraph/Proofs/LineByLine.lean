import LayerGraph.Record.File
import Mathlib.Data.List.Basic

/-!
# Lines that are read by themselves

What a line holds depends on the line alone, and a line feed always ends a line, also one in the
middle of a quoted text or of an object. So a text that ends with a line feed can be read apart from
what stands behind it: the lines behind it hold what they would hold in a text of their own, and
only their numbers are higher. A line that is not blank comes to one record or to one warning,
whatever is wrong with it.

Main statements:
1. `Text.lines_append_of_endsLine`, `Text.length_lines`: the lines of a text that ends its last
   line.
2. `Text.countP_lines`: which lines count, without reading them.
3. `RecordFile.entries_append`: what the lines of two parts of a text hold.
4. `RecordFile.lines_read_apart`: records and warnings line by line.
-/

namespace LayerGraph

/-! ## Texts that end their last line -/

namespace Text

variable {front : List Char}

/-- Nothing that stands behind the text becomes a part of its last line. -/
def EndsLine (cs : List Char) : Prop :=
  cs = [] ∨ cs.getLast? = some '\n'

theorem endsLine_concat (cs : List Char) : EndsLine (cs ++ ['\n']) :=
  .inr List.getLast?_concat

theorem lines_append_of_endsLine (h : EndsLine front) (back : List Char) :
    lines (front ++ back) = lines front ++ lines back := by
  rcases h with rfl | h
  · rfl
  · obtain ⟨init, rfl⟩ := List.getLast?_eq_some_iff.1 h
    rw [List.append_assoc, List.singleton_append]
    exact lines_append init back

/-- A text that ends its last line has as many lines as line feeds. -/
theorem length_lines (h : EndsLine front) : (lines front).length = front.count '\n' := by
  rcases h with rfl | h
  · rfl
  · obtain ⟨init, rfl⟩ := List.getLast?_eq_some_iff.1 h
    suffices count : ∀ current, (linesFrom current (init ++ ['\n'])).length = init.count '\n' + 1 by
      rw [lines, count, List.count_append, List.count_singleton_self]
    clear h
    induction init with
    | nil =>
      intro current
      rfl
    | cons c init ih =>
      intro current
      rw [List.cons_append, linesFrom]
      by_cases hc : c = '\n'
      · rw [if_pos hc, List.length_cons, ih, hc, List.count_cons_self]
      · rw [if_neg hc, ih, List.count_cons_of_ne hc]

/-- A line that is not blank. -/
def isFilled (line : List Char) : Bool :=
  !line.all isBlank

theorem isFilled_dropReturn (current : List Char) :
    isFilled (dropReturn current).reverse = isFilled current.reverse := by
  have blank : isBlank '\r' = true := by decide
  unfold dropReturn
  split
  · simp [isFilled, blank]
  · rfl

/-- The lines that are not blank are the pieces between line feeds that are not blank: neither the
ends of lines nor an empty piece behind the last one make a difference. -/
theorem countP_lines (cs : List Char) :
    (lines cs).countP isFilled = (cs.splitOn '\n').countP isFilled := by
  have whole (pieces : List (List Char)) : pieces.modifyHead ([] ++ ·) = pieces :=
    congrFun List.modifyHead_id pieces
  suffices from_current : ∀ current, (linesFrom current cs).countP isFilled =
      ((cs.splitOn '\n').modifyHead (current.reverse ++ ·)).countP isFilled by
    rw [lines, from_current, List.reverse_nil, whole]
  induction cs with
  | nil =>
    intro current
    have empty : isFilled [] = false := rfl
    cases current <;> simp [linesFrom, empty]
  | cons c cs ih =>
    intro current
    rw [linesFrom, List.splitOn_cons_eq_if_modifyHead]
    by_cases hc : c = '\n'
    · rw [if_pos hc, if_pos (beq_iff_eq.2 hc), List.countP_cons, isFilled_dropReturn, ih,
        List.reverse_nil, whole, List.modifyHead_cons, List.append_nil, List.countP_cons]
    · simp [hc, ih, List.modifyHead_modifyHead, Function.comp_def]

end Text

/-! ## Lines and what they hold -/

/-- The warning for a line that stands `n` lines further down. -/
def LoadWarning.lower (n : Nat) (w : LoadWarning) : LoadWarning :=
  { w with lineNumber := w.lineNumber + n }

theorem LoadWarning.lower_lower (w : LoadWarning) (m n : Nat) :
    (w.lower m).lower n = w.lower (n + m) :=
  congrArg (LoadWarning.mk w.project · w.fault) (by dsimp only [lower]; omega)

namespace RecordFile

variable {front : List Char}

theorem entries_add (start n : Nat) (content : List Char) :
    entries (start + n) content = (entries start content).map fun e => (e.1 + n, e.2) := by
  rw [entries, Nat.add_comm, ← List.map_snd_add_zipIdx_eq_zipIdx, List.filterMap_map, entries,
    List.map_filterMap]
  refine List.filterMap_congr fun (line, i) _ => ?_
  simp only [Function.comp_apply, Prod.map_apply, id_eq]
  split <;> rfl

theorem entries_append (h : Text.EndsLine front) (start : Nat) (back : List Char) :
    entries start (front ++ back) = entries start front ++
      (entries start back).map fun e => (e.1 + front.count '\n', e.2) := by
  rw [← entries_add, entries, Text.lines_append_of_endsLine h, List.zipIdx_append,
    List.filterMap_append, Text.length_lines h]
  rfl

theorem length_entries (start : Nat) (content : List Char) :
    (entries start content).length = (Text.lines content).countP Text.isFilled := by
  have numbered := List.zipIdx_map_fst start (Text.lines content)
  rw [entries, List.length_filterMap_eq_countP, ← congrArg (List.countP Text.isFilled) numbered,
    List.countP_map]
  refine List.countP_congr fun (line, n) _ => ?_
  simp only [Function.comp_apply, Text.isFilled]
  split <;> simp_all

theorem records_append (h : Text.EndsLine front) (back : List Char) :
    records (front ++ back) = records front ++ records back := by
  rw [records, entries_append h, List.filterMap_append, List.filterMap_map]
  rfl

/-- The warning that an entry comes to, if it holds no record. -/
def warning? (project : String) (e : Nat × Except String EntityRecord) : Option LoadWarning :=
  match e.2 with
  | .ok _ => none
  | .error fault => some ⟨project, e.1, fault⟩

theorem warnings_eq (project : String) (content : List Char) :
    warnings project content = (entries 1 content).filterMap (warning? project) := rfl

theorem warnings_append (project : String) (h : Text.EndsLine front) (back : List Char) :
    warnings project (front ++ back) =
      warnings project front ++ (warnings project back).map (·.lower (front.count '\n')) := by
  rw [warnings_eq, entries_append h, List.filterMap_append, List.filterMap_map, warnings_eq,
    warnings_eq, List.map_filterMap]
  refine congrArg (_ ++ ·) (List.filterMap_congr fun (n, entry) _ => ?_)
  cases entry <;> rfl

/-- Each line that is not blank comes to a record or to a warning. -/
theorem length_records_add_length_warnings (project : String) (content : List Char) :
    (records content).length + (warnings project content).length =
      (Text.lines content).countP Text.isFilled := by
  have read : (records content).length = (entries 1 content).countP fun e => e.2.isOk := by
    rw [records, List.length_filterMap_eq_countP]
    refine List.countP_congr fun (n, entry) _ => ?_
    cases entry <;> simp [Except.toOption, Except.isOk, Except.toBool]
  have failed : (warnings project content).length =
      (entries 1 content).countP fun e => !e.2.isOk := by
    rw [warnings_eq, List.length_filterMap_eq_countP]
    refine List.countP_congr fun (n, entry) _ => ?_
    cases entry <;> simp [warning?, Except.isOk, Except.toBool]
  rw [read, failed, ← length_entries 1, List.length_eq_countP_add_countP fun e => e.2.isOk]
  simp

/-- A warning names its project and a line of the text. -/
theorem warning_of_mem {project : String} {content : List Char} {w : LoadWarning}
    (h : w ∈ warnings project content) :
    w.project = project ∧ 1 ≤ w.lineNumber ∧ w.lineNumber ≤ (Text.lines content).length := by
  rw [warnings_eq] at h
  obtain ⟨⟨n, entry⟩, hentry, hw⟩ := List.mem_filterMap.1 h
  obtain ⟨⟨line, i⟩, hline, hi⟩ := List.mem_filterMap.1 hentry
  obtain ⟨low, high, -⟩ := List.mem_zipIdx hline
  have own : i = n := by
    dsimp only at hi
    split at hi
    · cases hi
    · exact (Prod.mk.inj (Option.some.inj hi)).1
  cases entry with
  | ok r => cases hw
  | error fault =>
    obtain rfl : _ = w := Option.some.inj hw
    exact ⟨rfl, by dsimp only; omega, by dsimp only; omega⟩

/-- A line comes to the same in every text: to one record or to one warning, or to nothing if it is
blank. What the lines around it come to does not depend on it. -/
theorem exists_line_reads (project : String) {line : List Char} (h : '\n' ∉ line) :
    ∃ (held : List EntityRecord) (faults : List String),
      held.length + faults.length = (if Text.isFilled line then 1 else 0) ∧
      ∀ front back, Text.EndsLine front →
        records (front ++ line ++ '\n' :: back) = records front ++ held ++ records back ∧
        warnings project (front ++ line ++ '\n' :: back) =
          warnings project front ++ faults.map (⟨project, front.count '\n' + 1, ·⟩) ++
            (warnings project back).map (·.lower (front.count '\n' + 1)) := by
  have ends := Text.endsLine_concat line
  have count : (line ++ ['\n']).count '\n' = 1 := by
    rw [List.count_append, List.count_singleton_self, List.count_eq_zero.2 h]
  have pieces : (line ++ ['\n']).splitOn '\n' = [line, []] := by
    rw [List.splitOn_append_cons_self_of_not_mem h, List.splitOn_nil]
  obtain ⟨faults, own⟩ : ∃ faults : List String,
      warnings project (line ++ ['\n']) = faults.map (⟨project, 1, ·⟩) := by
    refine ⟨(warnings project (line ++ ['\n'])).map LoadWarning.fault, ?_⟩
    rw [List.map_map]
    refine ((List.map_congr_left fun w hw => ?_).trans (List.map_id _)).symm
    obtain ⟨hproject, low, high⟩ := warning_of_mem hw
    rw [Text.length_lines ends, count] at high
    obtain ⟨project', n, fault⟩ := w
    obtain rfl : project' = project := hproject
    obtain rfl : n = 1 := Nat.le_antisymm high low
    rfl
  refine ⟨records (line ++ ['\n']), faults, ?_, fun front back hfront => ?_⟩
  · have total := length_records_add_length_warnings project (line ++ ['\n'])
    rw [own, List.length_map, Text.countP_lines, pieces] at total
    rw [total]
    simp [List.countP_cons, Text.isFilled]
  · have parts : front ++ line ++ '\n' :: back = front ++ ((line ++ ['\n']) ++ back) := by simp
    rw [parts, records_append hfront, records_append ends, warnings_append project hfront,
      warnings_append project ends, count, own]
    generalize front.count '\n' = n
    constructor
    · rw [List.append_assoc]
    · rw [List.map_append, List.map_map, List.map_map, ← List.append_assoc]
      congr 2
      · refine List.map_congr_left fun fault _ => ?_
        exact congrArg (LoadWarning.mk project · fault) (Nat.add_comm 1 n)
      · funext w
        exact w.lower_lower 1 n

/-- Records and warnings are found line by line. -/
theorem lines_read_apart (project : String) :
    (∀ front back, Text.EndsLine front →
      records (front ++ back) = records front ++ records back ∧
      warnings project (front ++ back) =
        warnings project front ++ (warnings project back).map (·.lower (front.count '\n'))) ∧
    (∀ content, (records content).length + (warnings project content).length =
        (Text.lines content).countP Text.isFilled ∧
      (Text.lines content).countP Text.isFilled = (content.splitOn '\n').countP Text.isFilled) ∧
    ∀ line, '\n' ∉ line → ∃ (held : List EntityRecord) (faults : List String),
      held.length + faults.length = (if Text.isFilled line then 1 else 0) ∧
      ∀ front back, Text.EndsLine front →
        records (front ++ line ++ '\n' :: back) = records front ++ held ++ records back ∧
        warnings project (front ++ line ++ '\n' :: back) =
          warnings project front ++ faults.map (⟨project, front.count '\n' + 1, ·⟩) ++
            (warnings project back).map (·.lower (front.count '\n' + 1)) := by
  refine ⟨fun front back h => ⟨records_append h back, warnings_append project h back⟩,
    fun content => ?_, fun line h => exists_line_reads project h⟩
  exact ⟨length_records_add_length_warnings project content, Text.countP_lines content⟩

/-- A record with a carriage return behind it, and a line of one blank. -/
def tableLines : List Char :=
  "\x7b\"kind\":\"table\",\"name\":\"T\"\x7d\r\n\u2003\n".toList

/-- A record whose line is not ended. -/
def pageLine : List Char :=
  "\x7b\"kind\":\"page\",\"name\":\"P\"\x7d".toList

/-- A quote that is left open between them is a fault of its own line. -/
theorem lines_read_apart_openQuote :
    Text.EndsLine tableLines ∧ '\n' ∉ ['"', 'x'] ∧
      records (tableLines ++ ['"', 'x'] ++ '\n' :: pageLine) =
        [{ kind := .table, name := "T" }, { kind := .page, name := "P" }] ∧
      ∃ fault, warnings "demo" (tableLines ++ ['"', 'x'] ++ '\n' :: pageLine) =
        [⟨"demo", 3, fault⟩] := by
  have ends : Text.EndsLine tableLines := .inr (by rfl)
  have inside : '\n' ∉ ['"', 'x'] := by decide
  have count : tableLines.count '\n' = 2 := by rfl
  have table : records tableLines = [{ kind := .table, name := "T" }] := by rfl
  have page : records pageLine = [{ kind := .page, name := "P" }] := by rfl
  have table_quiet : warnings "demo" tableLines = [] := by rfl
  have page_quiet : warnings "demo" pageLine = [] := by rfl
  have alone : records ['"', 'x', '\n'] = [] := by rfl
  obtain ⟨held, faults, total, around⟩ := (lines_read_apart "demo").2.2 ['"', 'x'] inside
  have held_eq : held = [] := by
    have own := (around [] [] (.inl rfl)).1
    have nothing : records [] = [] := rfl
    rw [List.nil_append, List.cons_append, List.cons_append, List.nil_append, alone, nothing,
      List.nil_append, List.append_nil] at own
    exact own.symm
  have filled : Text.isFilled ['"', 'x'] = true := by decide
  rw [held_eq, filled, if_pos rfl, List.length_nil, Nat.zero_add] at total
  obtain ⟨fault, rfl⟩ := List.length_eq_one_iff.1 total
  obtain ⟨hrecords, hwarnings⟩ := around tableLines pageLine ends
  rw [table, page, held_eq] at hrecords
  rw [table_quiet, page_quiet, count] at hwarnings
  exact ⟨ends, inside, hrecords, fault, hwarnings⟩

end RecordFile

end LayerGraph
