import LayerGraph.Proofs.ReadLength
import LayerGraph.Proofs.RecordText

/-!
# How much a record file can say

A record is no longer than the line that it is read from: each name that it refers to has taken at
least one character, and so has the record itself. So a file has fewer records and targets than
characters.

Main statements:
1. `EntityRecord.read_size`: a record with its targets is no longer than its text, and its order has
   64 bits.
2. `RecordFile.size_le`: the records of a file with all their targets are no more than its
   characters.
-/

namespace LayerGraph

open Json

variable {cs rest : List Char} {bound : Nat} {r : EntityRecord}

namespace RecordDraft

/-- The number of names that the draft refers to. -/
def targetCount (d : RecordDraft) : Nat :=
  d.parentClass.join.toList.length + (d.usesTables.getD []).length +
    (d.callsProcedures.getD []).length + (d.usesClasses.getD []).length

/-- There was text enough for the names that the draft refers to and for what is left, and its order
has 64 bits. -/
structure Fits (d : RecordDraft) (cs : List Char) (bound : Nat) : Prop where
  room : d.targetCount + cs.length ≤ bound
  order : ∀ o ∈ d.order.join, -2 ^ 63 ≤ o ∧ o < 2 ^ 63

variable {d d' : RecordDraft}

theorem Fits.shorten (h : Fits d cs bound) (shorter : rest.length ≤ cs.length) :
    Fits d rest bound :=
  ⟨Nat.le_trans (Nat.add_le_add_left shorter _) h.room, h.order⟩

/-- A field that is read takes as much text as it has names. -/
theorem Fits.read (h : Fits d cs bound) {f : RecordField} (hread : d.read f cs = .ok (d', rest)) :
    Fits d' rest bound := by
  have room := h.room
  unfold targetCount at room
  cases f <;> obtain ⟨⟨v, left⟩, hv, hd⟩ := bind_eq_ok.1 hread <;> cases hd
  case kind => exact ⟨(h.shorten (readVariant_le hv)).room, h.order⟩
  case name => exact ⟨(h.shorten (Nat.le_of_lt (readText_lt hv))).room, h.order⟩
  case parentClass =>
    refine ⟨?_, h.order⟩
    obtain ⟨rfl, shorter⟩ | ⟨s, cs', rfl, shorter, hs⟩ := readOptional_cases hv
    · simp only [targetCount, Option.join_some, Option.toList_none, List.length_nil]
      omega
    · have := readText_lt hs
      simp only [targetCount, Option.join_some, Option.toList_some, List.length_singleton]
      omega
  case usesTables | callsProcedures | usesClasses =>
    have := readTexts_le hv
    refine ⟨?_, h.order⟩
    simp only [targetCount, Option.getD_some]
    omega
  case order =>
    obtain ⟨rfl, shorter⟩ | ⟨i, cs', rfl, shorter, hi⟩ := readOptional_cases hv
    · exact ⟨(h.shorten shorter).room, by simp⟩
    · obtain ⟨le, bounds⟩ := readInteger_le hi
      exact ⟨(h.shorten (Nat.le_trans le shorter)).room, by simpa using bounds⟩
  case layer =>
    obtain ⟨rfl, shorter⟩ | ⟨l, cs', rfl, shorter, hl⟩ := readOptional_cases hv
    · exact ⟨(h.shorten shorter).room, h.order⟩
    · exact ⟨(h.shorten (Nat.le_trans (readVariant_le hl) shorter)).room, h.order⟩

theorem Fits.readMember (h : Fits d cs bound) {key : String}
    (hread : EntityRecord.readMember d key cs = .ok (d', rest)) : Fits d' rest bound := by
  unfold EntityRecord.readMember at hread
  split at hread
  · split at hread
    · unfold EntityRecord.objectFault at hread
      split at hread <;> cases hread
    · obtain ⟨value, hcolon, hvalue⟩ := bind_eq_ok.1 hread
      exact (h.shorten (colon_le hcolon)).read hvalue
  · simp only [bind_eq_ok] at hread
    obtain ⟨value, hcolon, left, hskip, hd⟩ := hread
    cases hd
    exact h.shorten (Nat.le_trans (skipValue_le hskip) (colon_le hcolon))

/-- The record of a draft has its names and its order. -/
theorem Fits.finish (h : Fits d cs bound) (hr : d.finish = .ok r) :
    r.relations.length + cs.length ≤ bound ∧ r.HasOrder64 := by
  have room := h.room
  unfold targetCount at room
  unfold RecordDraft.finish at hr
  split at hr
  · cases hr
  · cases hr
  · cases hr
    refine ⟨?_, h.order⟩
    simp only [EntityRecord.relations, List.length_append, List.length_map]
    exact room

end RecordDraft

namespace EntityRecord

open RecordDraft

variable {d : RecordDraft}

theorem nextKey?_le {isFirst more : Bool} (h : nextKey? isFirst cs = .ok (more, rest)) :
    rest.length ≤ cs.length := by
  unfold nextKey? at h
  grind

theorem nextItem?_le {isFirst more : Bool} (h : nextItem? isFirst cs = .ok (more, rest)) :
    rest.length ≤ cs.length := by
  unfold nextItem? at h
  grind

theorem readListEnd_le (h : readListEnd cs = .ok rest) : rest.length ≤ cs.length := by
  unfold readListEnd at h
  grind

theorem readMembers_size {fuel : Nat} {isFirst : Bool} (h : Fits d cs bound)
    (hr : readMembers fuel isFirst d cs = .ok (r, rest)) :
    r.relations.length + rest.length ≤ bound ∧ r.HasOrder64 := by
  induction fuel generalizing isFirst d cs with
  | zero => cases hr
  | succ fuel ih =>
    simp only [readMembers, bind_eq_ok] at hr
    obtain ⟨⟨more, left⟩, hkey, hr⟩ := hr
    have next := h.shorten (nextKey?_le hkey)
    dsimp only at hr
    split at hr
    · -- one more member: the draft fits the text behind it
      simp only [bind_eq_ok] at hr
      obtain ⟨⟨key, value⟩, hquoted, ⟨d', left'⟩, hmember, hr⟩ := hr
      exact ih ((next.shorten (Nat.le_of_lt (scanQuoted_lt hquoted))).readMember hmember) hr
    · split at hr
      · cases hr
        exact next.finish ‹_›
      · cases hr

theorem finished_size (h : Fits d cs bound) (hr : readItems.finished d cs = .ok (r, rest)) :
    r.relations.length + rest.length ≤ bound ∧ r.HasOrder64 := by
  unfold readItems.finished at hr
  split at hr
  · cases hr
    exact h.finish ‹_›
  · cases hr

theorem readItems_size {count : Nat} {fields : List RecordField} (h : Fits d cs bound)
    (hr : readItems count d fields cs = .ok (r, rest)) :
    r.relations.length + rest.length ≤ bound ∧ r.HasOrder64 := by
  induction fields generalizing count d cs with
  | nil =>
    obtain ⟨left, hend, hr⟩ := bind_eq_ok.1 hr
    exact finished_size (h.shorten (readListEnd_le hend)) hr
  | cons f fields ih =>
    simp only [readItems, bind_eq_ok] at hr
    obtain ⟨⟨more, left⟩, hnext, hr⟩ := hr
    have next := h.shorten (nextItem?_le hnext)
    dsimp only at hr
    split at hr
    · obtain ⟨⟨d', left'⟩, hfield, hr⟩ := bind_eq_ok.1 hr
      exact ih (next.read hfield) hr
    · exact finished_size next hr

/-- A record is read from more characters than it has targets, and its order has 64 bits. -/
theorem read_size (hr : read cs = .ok (r, rest)) :
    r.relations.length + rest.length < cs.length ∧ r.HasOrder64 := by
  have blanks := length_skipSpaces_le cs
  have start (inside : List Char) : Fits {} inside inside.length := ⟨by simp [targetCount], by simp⟩
  unfold read at hr
  split at hr
  · rename_i inside first
    rw [first, List.length_cons] at blanks
    obtain ⟨le, order⟩ := readMembers_size (start inside) hr
    exact ⟨by omega, order⟩
  · rename_i inside first
    rw [first, List.length_cons] at blanks
    obtain ⟨le, order⟩ := readItems_size (start inside) hr
    exact ⟨by omega, order⟩
  · exact (refuse_ne_ok hr).elim

/-- The record itself and the names that it refers to. -/
def size (r : EntityRecord) : Nat := r.relations.length + 1

end EntityRecord

theorem Text.length_linesFrom_le (cs : List Char) : ∀ current,
    ((linesFrom current cs).map List.length).sum ≤ current.length + cs.length := by
  induction cs with
  | nil =>
    intro current
    unfold linesFrom
    split <;> simp
  | cons c cs ih =>
    intro current
    unfold linesFrom
    split
    · have end_le : (dropReturn current).length ≤ current.length := by
        unfold dropReturn
        split <;> simp
      have := ih []
      simp only [List.map_cons, List.sum_cons, List.length_reverse, List.length_cons,
        List.length_nil] at this ⊢
      omega
    · have := ih (c :: current)
      simp only [List.length_cons] at this ⊢
      omega

namespace RecordFile

theorem lineRecord?_size {line : List Char} (h : lineRecord? line = some r) :
    r.size ≤ line.length ∧ r.HasOrder64 := by
  unfold lineRecord? readLine at h
  split at h
  · cases h
  · cases hread : Json.readWhole EntityRecord.read line with
    | error fault =>
      rw [hread] at h
      cases h
    | ok r' =>
      rw [hread] at h
      cases h
      obtain ⟨⟨r', rest⟩, hr, hend⟩ := bind_eq_ok.1 hread
      obtain ⟨lt, order⟩ := EntityRecord.read_size hr
      dsimp only at hend
      split at hend
      · cases hend
        exact ⟨by unfold EntityRecord.size; omega, order⟩
      · cases hend

/-- The records of a text with all their targets are no more than its characters. -/
theorem size_le (content : List Char) :
    ((records content).map EntityRecord.size).sum ≤ content.length := by
  have of_lines (lines : List (List Char)) : ((lines.filterMap lineRecord?).map
      EntityRecord.size).sum ≤ (lines.map List.length).sum := by
    induction lines with
    | nil => simp
    | cons line lines ih =>
      rw [List.filterMap_cons, List.map_cons, List.sum_cons]
      cases hr : lineRecord? line with
      | none => exact Nat.le_trans ih (Nat.le_add_left _ _)
      | some r =>
        dsimp only
        rw [List.map_cons, List.sum_cons]
        exact Nat.add_le_add (lineRecord?_size hr).1 ih
  have cut := Text.length_linesFrom_le content []
  rw [List.length_nil, Nat.zero_add] at cut
  rw [records_eq]
  exact Nat.le_trans (of_lines _) cut

theorem hasOrder64_of_mem {content : List Char} (h : r ∈ records content) : r.HasOrder64 := by
  rw [records_eq] at h
  obtain ⟨line, -, hr⟩ := List.mem_filterMap.1 h
  exact (lineRecord?_size hr).2

end RecordFile

end LayerGraph
