/-!
# Blank characters and trimming

The blanks are the characters with the Unicode property `White_Space`. Names, type names and
relation targets are compared after trimming, so this one set decides which of them count as empty.

Main statements:
1. `trimChars_eq_nil_iff`: trimming leaves nothing exactly when there are only blanks.
2. `trim_eq_empty_iff`: the same for whole texts.
-/

namespace LayerGraph.Text

/-- Membership in the Unicode property `White_Space`. Controls U+001C to U+001F, the Mongolian vowel
separator, the zero-width space and the byte order mark do not have it. -/
def isBlank (c : Char) : Bool :=
  let n := c.toNat
  (9 ≤ n && n ≤ 13) || n == 0x20 || n == 0x85 || n == 0xA0 || n == 0x1680 ||
    (0x2000 ≤ n && n ≤ 0x200A) || n == 0x2028 || n == 0x2029 || n == 0x202F || n == 0x205F ||
    n == 0x3000

/-- The text without the blanks at its two ends. -/
def trimChars (cs : List Char) : List Char :=
  ((cs.dropWhile isBlank).reverse.dropWhile isBlank).reverse

/-- The text without the blanks at its two ends; blanks inside stay. -/
def trim (s : String) : String :=
  String.ofList (trimChars s.toList)

/-- A text is blank when no character of it survives trimming. -/
def isBlankText (s : String) : Bool :=
  s.toList.all isBlank

theorem dropWhile_eq_nil_iff_all {p : Char → Bool} :
    ∀ {cs : List Char}, cs.dropWhile p = [] ↔ cs.all p = true
  | [] => by simp
  | c :: cs => by
    have ih : cs.dropWhile p = [] ↔ cs.all p = true := dropWhile_eq_nil_iff_all
    by_cases h : p c = true
    · simp [h, ih]
    · simp [h]

/-- The first character that `dropWhile` keeps is one it does not drop. -/
theorem head_dropWhile_not {p : Char → Bool} {c : Char} :
    ∀ {cs rest : List Char}, cs.dropWhile p = c :: rest → p c = false
  | [], _, h => by simp at h
  | d :: cs, rest, h => by
    by_cases hd : p d = true
    · simp only [List.dropWhile_cons, hd, if_true] at h
      exact head_dropWhile_not h
    · simp only [List.dropWhile_cons, hd, Bool.false_eq_true, if_false, List.cons.injEq] at h
      rw [← h.1]
      simpa using hd

theorem trimChars_eq_nil_iff {cs : List Char} : trimChars cs = [] ↔ cs.all isBlank = true := by
  unfold trimChars
  have whole : cs.dropWhile isBlank = [] ↔ cs.all isBlank = true := dropWhile_eq_nil_iff_all
  rw [List.reverse_eq_nil_iff, dropWhile_eq_nil_iff_all, List.all_reverse, ← whole]
  constructor
  · intro h
    match hd : cs.dropWhile isBlank with
    | [] => rfl
    | c :: rest =>
      rw [hd] at h
      simp [head_dropWhile_not hd] at h
  · intro h
    simp [h]

theorem trim_eq_empty_iff {s : String} : trim s = "" ↔ isBlankText s = true := by
  unfold trim isBlankText
  rw [← trimChars_eq_nil_iff]
  constructor
  · intro h
    have := congrArg String.toList h
    simpa using this
  · intro h
    rw [h]

end LayerGraph.Text
