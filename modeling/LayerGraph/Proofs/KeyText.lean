import LayerGraph.StoredGraph

/-!
# Keys as texts

A key is written as `Type:Name`. The name may hold anything, further colons and names of types
included: no type has a colon in its name, so the first colon of a text is the one behind the type,
and what follows it is the name as it is. Only a key with a blank name cannot be read from its own
text. Conversely a key is read from several texts, since the type may be written in any case of its
letters and with blanks around it.

Main statements:
1. `Text.exists_trimChars`, `Text.trimChars_blanks`: trimming takes away the blanks at both ends and
   nothing else.
2. `NodeType.ofText?_eq_some_iff`, `NodeKey.ofText_eq_ok_iff`: from which texts a type and a key are
   read.
3. `NodeKey.ofText_exact`: what a key's text tells, and what the key that is read from a text is.
-/

namespace LayerGraph

/-! ## Blanks and cases -/

namespace Text

variable {c : Char} {cs left middle right : List Char}

/-- The word, with its ASCII letters in any case and with blanks around it or not. -/
def Spells (cs : List Char) (word : String) : Prop :=
  ∃ left middle right, cs = left ++ middle ++ right ∧ left.all isBlank = true ∧
    right.all isBlank = true ∧ middle.map Char.toLower = word.toList.map Char.toLower

theorem spells_self (word : String) : Spells word.toList word :=
  ⟨[], word.toList, [], by simp, rfl, rfl, rfl⟩

theorem exists_trimChars (cs : List Char) : ∃ left right, cs = left ++ trimChars cs ++ right ∧
    left.all isBlank = true ∧ right.all isBlank = true := by
  have parts (ds : List Char) : ds.takeWhile isBlank ++ ds.dropWhile isBlank = ds :=
    List.takeWhile_append_dropWhile
  refine ⟨cs.takeWhile isBlank, ((cs.dropWhile isBlank).reverse.takeWhile isBlank).reverse, ?_,
    List.all_takeWhile, ?_⟩
  · rw [trimChars, List.append_assoc, ← List.reverse_append, parts, List.reverse_reverse, parts]
  · rw [List.all_reverse]
    exact List.all_takeWhile

theorem dropWhile_of_solid (solid : ∀ c ∈ cs, isBlank c = false) : cs.dropWhile isBlank = cs := by
  cases cs with
  | nil => rfl
  | cons c rest => rw [List.dropWhile_cons, solid c List.mem_cons_self, if_neg Bool.false_ne_true]

theorem trimChars_blanks (hleft : left.all isBlank = true) (hright : right.all isBlank = true)
    (solid : ∀ c ∈ middle, isBlank c = false) : trimChars (left ++ middle ++ right) = middle := by
  cases middle with
  | nil =>
    rw [trimChars_eq_nil_iff, List.append_nil, List.all_append, hleft, hright]
    rfl
  | cons c rest =>
    have front : (left ++ c :: rest ++ right).dropWhile isBlank = c :: rest ++ right := by
      rw [List.append_assoc, List.dropWhile_append_of_pos (List.all_eq_true.1 hleft),
        List.cons_append, List.dropWhile_cons, solid c List.mem_cons_self, if_neg Bool.false_ne_true]
    have behind : ∀ c ∈ right.reverse, isBlank c = true := by
      simpa using hright
    have back : ∀ d ∈ (c :: rest).reverse, isBlank d = false :=
      fun d hd => solid d (List.mem_reverse.1 hd)
    rw [trimChars, front, List.reverse_append, List.dropWhile_append_of_pos behind,
      dropWhile_of_solid back, List.reverse_reverse]

theorem lowerAscii_eq (c : Char) : lowerAscii c = c.toLower := by
  have same : ('A' ≤ c && c ≤ 'Z') = true ↔ c.val ≥ 'A'.val ∧ c.val ≤ 'Z'.val := by
    rw [Bool.and_eq_true, decide_eq_true_iff, decide_eq_true_iff]
    rfl
  unfold lowerAscii Char.toLower
  by_cases upper : c.val ≥ 'A'.val ∧ c.val ≤ 'Z'.val
  · have last : c.val.toNat ≤ 90 := upper.2
    have valid : (c.toNat + 32).isValidChar := .inl (show c.val.toNat + 32 < 0xd800 by omega)
    have small : c.val.toNat + 32 < 2 ^ 32 := by omega
    rw [if_pos (same.2 upper), dif_pos upper, Char.ofNat, dif_pos valid]
    refine Char.toNat_inj.1 ?_
    show c.val.toNat + 32 = (c.val + 32).toNat
    rw [UInt32.toNat_add]
    exact (Nat.mod_eq_of_lt small).symm
  · rw [if_neg (mt same.1 upper), dif_neg upper]

theorem toLower_of_isBlank (h : isBlank c = true) : c.toLower = c := by
  rw [← lowerAscii_eq, lowerAscii, if_neg]
  rw [Bool.and_eq_true, decide_eq_true_eq, decide_eq_true_eq]
  rintro ⟨first, last⟩
  have first : 65 ≤ c.toNat := first
  have last : c.toNat ≤ 90 := last
  simp only [isBlank, Bool.or_eq_true, Bool.and_eq_true, decide_eq_true_eq, beq_iff_eq] at h
  omega

/-- A word without blanks in it is spelled by a text that is this word when it has been trimmed, but
for the case of ASCII letters. -/
theorem spells_iff {s word : String} (solid : ∀ c ∈ word.toList.map Char.toLower, isBlank c = false) :
    Spells s.toList word ↔ sameAsciiCase word (trim s) = true := by
  have same : sameAsciiCase word (trim s) = true ↔
      (trimChars s.toList).map Char.toLower = word.toList.map Char.toLower := by
    rw [sameAsciiCase, beq_iff_eq, funext lowerAscii_eq, trim, String.toList_ofList, eq_comm]
  rw [same]
  constructor
  · rintro ⟨left, middle, right, parts, hleft, hright, spelled⟩
    -- a blank would be its own lower case, and there is none in the word
    have free : ∀ c ∈ middle, isBlank c = false := by
      intro c hc
      cases blank : isBlank c with
      | false => rfl
      | true =>
        have lower := solid c.toLower (spelled ▸ List.mem_map_of_mem hc)
        rw [toLower_of_isBlank blank, blank] at lower
        cases lower
    rw [parts, trimChars_blanks hleft hright free, spelled]
  · intro spelled
    obtain ⟨left, right, parts, hleft, hright⟩ := exists_trimChars s.toList
    exact ⟨left, trimChars s.toList, right, parts, hleft, hright, spelled⟩

end Text

/-! ## Types -/

namespace NodeType

variable {s : String} {t t' : NodeType}

theorem mem_all (t : NodeType) : t ∈ all := by
  cases t <;> decide

theorem solid_name (t : NodeType) : ∀ c ∈ t.name.toList.map Char.toLower, Text.isBlank c = false := by
  have solid : (t.name.toList.map Char.toLower).any Text.isBlank = false := by
    cases t <;> decide
  simpa using solid

theorem colon_notMem_name (t : NodeType) : ':' ∉ t.name.toList := by
  cases t <;> decide

/-- The names of types differ in more than the case of letters. -/
theorem eq_of_name (h : t.name.toList.map Char.toLower = t'.name.toList.map Char.toLower) :
    t = t' := by
  revert h
  cases t <;> cases t' <;> decide

theorem ofText?_eq_some_iff : ofText? s = some t ↔ Text.Spells s.toList t.name := by
  rw [Text.spells_iff t.solid_name, ofText?]
  constructor
  · exact List.find?_some
  · intro same
    cases found : all.find? fun t => Text.sameAsciiCase t.name (Text.trim s) with
    | none => exact absurd same (List.find?_eq_none.1 found t t.mem_all)
    | some t' =>
      have same' := List.find?_some found
      rw [Text.sameAsciiCase, beq_iff_eq, funext Text.lowerAscii_eq] at same same'
      rw [eq_of_name (same'.trans same.symm)]

end NodeType

/-! ## Keys -/

namespace NodeKey

variable {s : String} {k k' : NodeKey} {front back : List Char}

/-- The text stands for the key: in front of its first colon it has the name of the type, with blanks
around it or not and with ASCII letters in any case, and behind it the name, which is not blank. -/
def Denotes (s : String) (k : NodeKey) : Prop :=
  Text.trim k.name ≠ "" ∧ ∃ front, s.toList = front ++ ':' :: k.name.toList ∧ ':' ∉ front ∧
    Text.Spells front k.type.name

theorem splitAtColon_append (h : ':' ∉ front) :
    splitAtColon (front ++ ':' :: back) = some (front, back) := by
  induction front with
  | nil => rfl
  | cons c front ih =>
    rw [List.mem_cons, not_or] at h
    rw [List.cons_append, splitAtColon, if_neg (Ne.symm h.1), ih h.2]
    rfl

theorem toList_text (k : NodeKey) : k.text.toList = k.type.name.toList ++ ':' :: k.name.toList := by
  simp [text]

/-- The first colon of a key's text is the one behind the type. -/
theorem splitAtColon_text (k : NodeKey) :
    splitAtColon k.text.toList = some (k.type.name.toList, k.name.toList) := by
  rw [toList_text, splitAtColon_append k.type.colon_notMem_name]

theorem text_injective (h : k.text = k'.text) : k = k' := by
  have parts := splitAtColon_text k'
  rw [← h, splitAtColon_text, Option.some.injEq, Prod.mk.injEq] at parts
  obtain ⟨types, names⟩ := parts
  obtain ⟨type, name⟩ := k
  obtain ⟨type', name'⟩ := k'
  obtain rfl : type = type' := NodeType.eq_of_name (congrArg (List.map Char.toLower) types)
  obtain rfl : name = name' := String.toList_inj.1 names
  rfl

/-- What is read of a text, by what stands in front of its first colon and behind it. -/
theorem ofText_of_split (parts : splitAtColon s.toList = some (front, back)) {t : NodeType}
    (typed : Text.Spells front t.name) : ofText s =
      if Text.trim (String.ofList back) = "" then .error .blankName
      else .ok ⟨t, String.ofList back⟩ := by
  have type : NodeType.ofText? (String.ofList front) = some t :=
    NodeType.ofText?_eq_some_iff.2 (by rwa [String.toList_ofList])
  simp only [ofText, parts, type, Text.trim_eq_empty_iff, Text.isBlankText, String.toList_ofList]

theorem ofText_eq_ok_iff : ofText s = .ok k ↔ Denotes s k := by
  constructor
  · intro read
    unfold ofText at read
    split at read
    · cases read
    · next front back parts =>
      split at read
      · cases read
      · next type typed =>
        split at read
        · cases read
        · next solid =>
          obtain rfl := Except.ok.inj read
          obtain ⟨whole, first⟩ := eq_of_splitAtColon parts
          have spelled := NodeType.ofText?_eq_some_iff.1 typed
          rw [String.toList_ofList] at spelled
          refine ⟨?_, front, ?_, first, spelled⟩
          · rwa [ne_eq, Text.trim_eq_empty_iff, Text.isBlankText, String.toList_ofList]
          · rw [whole, String.toList_ofList]
  · rintro ⟨named, front, whole, first, typed⟩
    have parts : splitAtColon s.toList = some (front, k.name.toList) := by
      rw [whole, splitAtColon_append first]
    rw [ofText_of_split parts typed, String.ofList_toList, if_neg named]

theorem ofText_text (k : NodeKey) :
    ofText k.text = if Text.trim k.name = "" then .error .blankName else .ok k := by
  rw [ofText_of_split (splitAtColon_text k) (Text.spells_self _), String.ofList_toList]

theorem isReadable_iff : StoredGraph.isReadable k = true ↔ ofText k.text = .ok k := by
  rw [StoredGraph.isReadable, Bool.not_eq_true', ← Bool.not_eq_true, ← Text.trim_eq_empty_iff,
    ofText_text]
  split
  · next blank => simp [blank]
  · next named => simp [named]

theorem ofText?_text (k : NodeKey) :
    ofText? k.text = if StoredGraph.isReadable k then some k else none := by
  split
  · next readable =>
    rw [ofText?, isReadable_iff.1 readable]
    rfl
  · next blank =>
    rw [isReadable_iff, ofText_text] at blank
    rw [ofText?, ofText_text]
    split
    · rfl
    · next named => exact absurd (if_neg named) blank

/-- Keys with one text are one key, and a key is read from its own text unless its name is blank. A
key is read from just those texts that stand for it, and then from its own text too. A stored graph
leaves out no other keys than those that cannot be read. -/
theorem ofText_exact :
    (∀ k k' : NodeKey, k.text = k'.text ↔ k = k') ∧
    (∀ k : NodeKey, ofText k.text =
      if Text.trim k.name = "" then .error .blankName else .ok k) ∧
    (∀ s k, ofText s = .ok k ↔ Denotes s k) ∧
    (∀ s, (ofText s).bind (fun k => ofText k.text) = ofText s) ∧
    ∀ k, StoredGraph.isReadable k = true ↔ ofText k.text = .ok k := by
  refine ⟨fun k k' => ⟨text_injective, congrArg text⟩, ofText_text, fun s k => ofText_eq_ok_iff,
    fun s => ?_, fun k => isReadable_iff⟩
  cases read : ofText s with
  | error fault => rfl
  | ok k =>
    obtain ⟨named, -⟩ := ofText_eq_ok_iff.1 read
    show ofText k.text = .ok k
    rw [ofText_text, if_neg named]

example : ofText "\u00a0tAbLe :Class: x " = .ok ⟨.table, "Class: x "⟩ := by cbv

end NodeKey

end LayerGraph
