import Mathlib
import LayerGraph.Json.Read
import LayerGraph.Json.Value

/-!
# JSON texts that are read back

The readers are given what the writer wrote, with more text behind it: they give the value back and
leave that text. A quoted text ends with its quote and a list with its bracket, so anything may
follow them. A number goes on as long as there are digits, so it matters what follows it.

Main statements:
1. `scanQuoted_escaped`: a text is escaped such that it is read back.
2. `readTexts_compact`, `readVariant_quote`, `readInteger_intText`: so are lists of texts, words and
   integers of 64 bits.
3. `Value.noControls_compact`: the text of a value is a single line.
-/

namespace LayerGraph.Json

variable {α β : Type}

@[simp] theorem ok_bind (a : α) (f : α → Except Fault β) : (Except.ok a >>= f) = f a :=
  rfl

/-! ## Quoted texts -/

theorem hexValue4?_escapeChar : ∀ n < 32,
    hexValue4? '0' '0' (if n < 16 then '0' else '1') (escapeChar.hexDigit (n % 16)) = some n := by
  decide

/-- A control without a letter of its own is read back from its number. -/
theorem scanEscape_control {c : Char} (hc : c.toNat < 32) (more : List Char) :
    scanEscape ('u' :: '0' :: '0' :: (if c.toNat < 16 then '0' else '1') ::
      escapeChar.hexDigit (c.toNat % 16) :: more) = .ok (c, more) := by
  have small : ¬ (0xDC00 ≤ c.toNat ∧ c.toNat ≤ 0xDFFF) := by omega
  have single : c.toNat < 0xD800 ∨ 0xDBFF < c.toNat := by omega
  simp [scanEscape, scanCodeUnits, scanHex, hexValue4?_escapeChar c.toNat hc, small, single]

theorem scanText_letter {letter c : Char} (h : escapeLetter? letter = some c) (hu : letter ≠ 'u')
    (fuel : Nat) (read more : List Char) :
    scanText (fuel + 1) read ('\\' :: letter :: more) = scanText fuel (c :: read) more := by
  simp [scanText, scanEscape, h, hu]

/-- One character of a text is read from what it was written as. -/
theorem scanText_escapeChar (fuel : Nat) (read : List Char) (c : Char) (more : List Char) :
    scanText (fuel + 1) read (escapeChar c ++ more) = scanText fuel (c :: read) more := by
  have named {d : Char} (h : c.toNat = d.toNat) : d = c := (Char.toNat_inj.1 h).symm
  -- the cases are those of the writer: a letter behind a backslash, a number, the character itself
  unfold escapeChar
  split
  · subst c
    exact scanText_letter rfl (by decide) fuel read more
  split
  · subst c
    exact scanText_letter rfl (by decide) fuel read more
  split
  · cases named (d := '\x08') ‹_›
    exact scanText_letter rfl (by decide) fuel read more
  split
  · cases named (d := '\t') ‹_›
    exact scanText_letter rfl (by decide) fuel read more
  split
  · cases named (d := '\n') ‹_›
    exact scanText_letter rfl (by decide) fuel read more
  split
  · cases named (d := '\x0c') ‹_›
    exact scanText_letter rfl (by decide) fuel read more
  split
  · cases named (d := '\r') ‹_›
    exact scanText_letter rfl (by decide) fuel read more
  split
  · rename_i h
    simp [scanText, scanEscape_control h]
  · rename_i quote backslash _ _ _ _ _ plain
    simp [scanText, quote, backslash, plain]

theorem scanText_escaped (s : List Char) : ∀ (fuel : Nat) (read more : List Char),
    s.length < fuel →
    scanText fuel read (s.flatMap escapeChar ++ '"' :: more) =
      .ok (String.ofList (read.reverse ++ s), more) := by
  induction s with
  | nil =>
    intro fuel read more hfuel
    obtain ⟨fuel, rfl⟩ := Nat.exists_eq_succ_of_ne_zero (Nat.ne_of_gt hfuel)
    simp [scanText]
  | cons c s ih =>
    intro fuel read more hfuel
    obtain ⟨fuel, rfl⟩ := Nat.exists_eq_succ_of_ne_zero (Nat.ne_of_gt (Nat.zero_lt_of_lt hfuel))
    rw [List.flatMap_cons, List.append_assoc, scanText_escapeChar,
      ih fuel (c :: read) more (Nat.lt_of_succ_lt_succ hfuel)]
    simp

theorem escapeChar_ne_nil (c : Char) : escapeChar c ≠ [] := by
  unfold escapeChar
  grind

theorem length_le_length_flatMap {f : α → List β} (h : ∀ a, f a ≠ []) (as : List α) :
    as.length ≤ (as.flatMap f).length := by
  induction as with
  | nil => simp
  | cons a as ih =>
    have := List.length_pos_iff.2 (h a)
    simp only [List.flatMap_cons, List.length_append, List.length_cons]
    omega

/-- A text is read back from what stands between its quotes. -/
theorem scanQuoted_escaped (s : String) (more : List Char) :
    scanQuoted (s.toList.flatMap escapeChar ++ '"' :: more) = .ok (s, more) := by
  have long := length_le_length_flatMap escapeChar_ne_nil s.toList
  rw [scanQuoted, scanText_escaped _ _ _ _ (by simp only [List.length_append]; omega)]
  simp

@[simp] theorem toList_quote (s : String) :
    (quote s).toList = '"' :: (s.toList.flatMap escapeChar ++ ['"']) := by
  simp [quote]

theorem skipSpaces_cons {c : Char} (h : isSpace c = false) (cs : List Char) :
    skipSpaces (c :: cs) = c :: cs := by
  simp [skipSpaces, h]

theorem readText_quote (s : String) (more : List Char) :
    readText ((quote s).toList ++ more) = .ok (s, more) := by
  simp [readText, skipSpaces_cons (c := '"') rfl, scanQuoted_escaped]

theorem readVariant_quote {known : List (String × α)} {word : String} {a : α}
    (h : known.lookup word = some a) (more : List Char) :
    readVariant known ((quote word).toList ++ more) = .ok (a, more) := by
  have scanned : scanQuoted (word.toList.flatMap escapeChar ++ ['"'] ++ more) =
      .ok (word, more) := by
    rw [List.append_assoc]
    exact scanQuoted_escaped word more
  have found : variantOf known word more = .ok a := by
    rw [variantOf, h]
  unfold readVariant
  rw [toList_quote, List.cons_append, skipSpaces_cons rfl]
  show (scanQuoted _ >>= _) = _
  rw [scanned, ok_bind]
  show (variantOf known word more >>= _) = _
  rw [found, ok_bind]
  rfl

/-! ## Lists of texts -/

theorem intercalate_cons_eq (separator : α) (part : List α) (parts : List (List α)) :
    [separator].intercalate (part :: parts) = part ++ parts.flatMap (separator :: ·) := by
  induction parts generalizing part with
  | nil => simp
  | cons next parts ih => simp [List.intercalate_cons_cons, ih]

theorem toList_compact_texts (ss : List String) :
    (Value.texts ss).compact.toList =
      '[' :: ([','].intercalate (ss.map fun s => (quote s).toList) ++ [']']) := by
  have items : ∀ ss : List String, Value.compactItems (ss.map .str) = ss.map quote := by
    intro ss
    induction ss with
    | nil => rfl
    | cons s ss ih => simp [Value.compactItems, Value.compact, ih]
  simp [Value.texts, Value.compact, items, Function.comp_def]

theorem readTextItems_quotes (ss : List String) : ∀ (s : String) (fuel : Nat)
    (read : List String) (more : List Char), ss.length < fuel →
    readTextItems fuel read
        ((quote s).toList ++ (ss.flatMap fun s => ',' :: (quote s).toList) ++ ']' :: more) =
      .ok (read.reverse ++ s :: ss, more) := by
  induction ss with
  | nil =>
    intro s fuel read more hfuel
    obtain ⟨fuel, rfl⟩ := Nat.exists_eq_succ_of_ne_zero (Nat.ne_of_gt hfuel)
    rw [List.flatMap_nil, List.append_nil, readTextItems, readText_quote]
    simp [readListNext, skipSpaces_cons (c := ']') rfl]
    rfl
  | cons t ss ih =>
    intro s fuel read more hfuel
    obtain ⟨fuel, rfl⟩ := Nat.exists_eq_succ_of_ne_zero (Nat.ne_of_gt (Nat.zero_lt_of_lt hfuel))
    rw [List.append_assoc, readTextItems, readText_quote, List.flatMap_cons]
    have next : readListNext (',' :: (quote t).toList ++ (ss.flatMap fun s =>
        ',' :: (quote s).toList) ++ ']' :: more) = .ok (true, (quote t).toList ++ (ss.flatMap fun s =>
        ',' :: (quote s).toList) ++ ']' :: more) := by
      simp [readListNext, skipSpaces_cons (c := ',') rfl, skipSpaces_cons (c := '"') rfl]
    rw [ok_bind]
    dsimp only
    rw [next, ok_bind]
    dsimp only
    rw [if_pos rfl, ih t fuel (s :: read) more (Nat.lt_of_succ_lt_succ hfuel)]
    simp

theorem readTexts_quote (cs : List Char) :
    readTexts ('[' :: '"' :: cs) = readTextItems (cs.length + 1) [] ('"' :: cs) := by
  simp [readTexts, skipSpaces_cons (c := '[') rfl, skipSpaces_cons (c := '"') rfl]

/-- A list of texts is read back; its length is enough for all of its items. -/
theorem readTexts_compact (ss : List String) (more : List Char) :
    readTexts ((Value.texts ss).compact.toList ++ more) = .ok (ss, more) := by
  rw [toList_compact_texts]
  cases ss with
  | nil => simp [readTexts, skipSpaces_cons (c := '[') rfl, skipSpaces_cons (c := ']') rfl]
  | cons s ss =>
    have long := length_le_length_flatMap
      (f := fun s => ',' :: (quote s).toList) (fun _ => List.cons_ne_nil _ _) ss
    have items := fun fuel => readTextItems_quotes ss s fuel [] more
    rw [toList_quote] at items
    rw [List.map_cons, intercalate_cons_eq, List.flatMap_map, toList_quote, List.append_assoc,
      List.cons_append, List.cons_append]
    simp only [List.cons_append, List.append_assoc, List.nil_append] at items ⊢
    rw [readTexts_quote, items]
    · rfl
    · simp only [List.length_append, List.length_cons]
      omega

/-! ## Integers -/

theorem digits_ne_nil (n : Nat) : Decimal.digits n ≠ [] := by
  rw [Decimal.digits]
  split <;> simp

theorem digitChar_ne_zero : ∀ d < 10, d ≠ 0 → Decimal.digitChar d ≠ '0' := by
  decide

theorem head?_digits {n : Nat} (h : n ≠ 0) : (Decimal.digits n).head? ≠ some '0' := by
  rw [Decimal.digits]
  split
  · rename_i small
    simpa using digitChar_ne_zero n small h
  · rw [List.head?_append, Option.or_of_isSome (by simpa using digits_ne_nil _)]
    exact head?_digits (by omega)

/-- A number of several digits does not begin with a zero. -/
theorem digits_ne_zero_cons (n : Nat) (d : Char) (ds : List Char) :
    Decimal.digits n ≠ '0' :: d :: ds := by
  intro e
  by_cases h : n = 0
  · rw [h, Decimal.digits] at e
    simp at e
  · exact head?_digits h (by rw [e, List.head?_cons])

theorem le_foldl_digits (ds : List Char) : ∀ n : Nat,
    n ≤ ds.foldl (fun n c => n * 10 + Decimal.digitValue c) n := by
  induction ds with
  | nil => exact fun n => Nat.le_refl n
  | cons d ds ih =>
    intro n
    have := ih (n * 10 + Decimal.digitValue d)
    rw [List.foldl_cons]
    omega

/-- Digits are added up as long as their number is within the limit. -/
theorem addDigits_eq (ds : List Char) : ∀ significand count : Nat,
    ds.foldl (fun n c => n * 10 + Decimal.digitValue c) significand ≤ maxSignificand →
    addDigits significand count ds =
      (ds.foldl (fun n c => n * 10 + Decimal.digitValue c) significand, count + ds.length) := by
  induction ds with
  | nil =>
    intro significand count _
    rfl
  | cons d ds ih =>
    intro significand count hle
    rw [List.foldl_cons] at hle ⊢
    rw [addDigits, if_pos (Nat.le_trans (le_foldl_digits ds _) hle), ih _ _ hle, List.length_cons]
    congr 1
    omega

theorem addDigits_digits {n : Nat} (h : n ≤ maxSignificand) :
    addDigits 0 0 (Decimal.digits n) = (n, (Decimal.digits n).length) := by
  have value := Decimal.value_digits n
  rw [Decimal.value] at value
  rw [addDigits_eq _ _ _ (Nat.le_trans (Nat.le_of_eq value) h), value, Nat.zero_add]

/-- What follows a member of an object: a number does not go on with it. -/
def IsMemberEnd (c : Char) : Prop :=
  c = ',' ∨ c = '\x7d'

/-- Digits are read up to the end of a member. -/
theorem scanNumber_digits {n : Nat} (h : n ≤ maxSignificand) {c : Char} (hc : IsMemberEnd c)
    (more : List Char) :
    scanNumber true (Decimal.digits n ++ c :: more) = .ok (.int n, c :: more) ∧
      (n ≠ 0 → n ≤ Nat.pow 2 63 →
        scanNumber false (Decimal.digits n ++ c :: more) = .ok (.int (-n), c :: more)) := by
  have digit : Decimal.isDigit c = false := by
    rcases hc with rfl | rfl <;> decide
  have taken : (Decimal.digits n ++ c :: more).takeWhile Decimal.isDigit = Decimal.digits n := by
    rw [List.takeWhile_append_of_pos (Decimal.isDigit_of_mem_digits n)]
    simp [digit]
  have left : (Decimal.digits n ++ c :: more).dropWhile Decimal.isDigit = c :: more := by
    rw [List.dropWhile_append_of_pos (Decimal.isDigit_of_mem_digits n)]
    simp [digit]
  unfold scanNumber
  simp only [taken, left, addDigits_digits h]
  split
  · rename_i none
    exact absurd none (digits_ne_nil n)
  · rename_i zeros
    exact absurd zeros (digits_ne_zero_cons n _ _)
  · rcases hc with rfl | rfl <;> simp <;> omega

theorem isSpace_of_isDigit {c : Char} (h : Decimal.isDigit c = true) : isSpace c = false := by
  cases hc : isSpace c with
  | false => rfl
  | true =>
    simp only [isSpace, Bool.or_eq_true, decide_eq_true_eq] at hc
    rcases hc with ((rfl | rfl) | rfl) | rfl <;> exact absurd h (by decide)

/-- An integer of 64 bits is read back if a member ends behind it. -/
theorem readInteger_intText {i : Int} (low : -2 ^ 63 ≤ i) (high : i < 2 ^ 63) {c : Char}
    (hc : IsMemberEnd c) (more : List Char) :
    readInteger ((Decimal.intText i).toList ++ c :: more) = .ok (i, c :: more) := by
  obtain ⟨natural, negated⟩ := scanNumber_digits (n := i.natAbs)
    (by unfold maxSignificand; simp only [UInt64.size]; omega) hc more
  rw [Decimal.intText, String.toList_ofList]
  by_cases hi : i < 0
  · have back : -(i.natAbs : Int) = i := by omega
    have inside : i.natAbs ≤ Nat.pow 2 63 := by simp only [Nat.pow_eq]; omega
    have below : i < Nat.pow 2 63 := by simp only [Nat.pow_eq]; omega
    rw [if_pos hi, List.cons_append, readInteger, skipSpaces_cons rfl]
    show (scanNumber false _ >>= _) = _
    rw [negated (by omega) inside, ok_bind, back]
    exact if_pos below
  · have back : (i.natAbs : Int) = i := by omega
    -- the first character is a digit, so the reader takes the last of its ways
    obtain ⟨d, ds, hds⟩ := List.exists_cons_of_ne_nil (digits_ne_nil i.natAbs)
    have digit : Decimal.isDigit d = true :=
      Decimal.isDigit_of_mem_digits i.natAbs d (by rw [hds]; exact List.mem_cons_self)
    rw [if_neg hi, hds, List.cons_append]
    rw [hds, List.cons_append] at natural
    unfold readInteger
    rw [skipSpaces_cons (isSpace_of_isDigit digit)]
    split
    · rename_i minus
      cases minus
      exact absurd digit (by decide)
    · rename_i empty
      cases empty
    · rename_i first
      cases first
      rw [if_pos digit, natural, ok_bind]
      simp [back]
      omega

/-! ## No controls -/

/-- No character of the text is a control below U+0020, so none is a line feed or a carriage
return. -/
def NoControls (cs : List Char) : Prop :=
  ∀ c ∈ cs, 32 ≤ c.toNat

theorem noControls_append {as bs : List Char} (has : NoControls as) (hbs : NoControls bs) :
    NoControls (as ++ bs) :=
  List.forall_mem_append.2 ⟨has, hbs⟩

theorem hexDigit_not_control : ∀ d < 16, 32 ≤ (escapeChar.hexDigit d).toNat := by
  decide

theorem noControls_escapeChar (c : Char) : NoControls (escapeChar c) := by
  have digit := hexDigit_not_control (c.toNat % 16) (Nat.mod_lt _ (by decide))
  unfold escapeChar
  -- a character that stands for itself is no control, and all others are written in letters
  by_cases control : c.toNat < 32
  · split_ifs <;> simp [NoControls, digit]
  · have itself : 32 ≤ c.toNat := Nat.le_of_not_lt control
    split_ifs <;> simp [NoControls, itself]

theorem noControls_quote (s : String) : NoControls (quote s).toList := by
  have escaped : NoControls (s.toList.flatMap escapeChar) := by
    intro c hc
    obtain ⟨d, -, hd⟩ := List.mem_flatMap.1 hc
    exact noControls_escapeChar d c hd
  rw [toList_quote]
  exact List.forall_mem_cons.2
    ⟨by decide, noControls_append escaped (List.forall_mem_singleton.2 (by decide))⟩

theorem noControls_intText (i : Int) : NoControls (Decimal.intText i).toList := by
  have digits : NoControls (Decimal.digits i.natAbs) := by
    intro c hc
    have digit := Decimal.isDigit_of_mem_digits _ c hc
    rw [Decimal.isDigit, Bool.and_eq_true, decide_eq_true_iff] at digit
    exact Nat.le_trans (by decide) (Char.le_def.1 digit.1)
  rw [Decimal.intText, String.toList_ofList]
  split
  · exact List.forall_mem_cons.2 ⟨by decide, digits⟩
  · exact digits

theorem noControls_intercalate {parts : List String} (h : ∀ s ∈ parts, NoControls s.toList) :
    NoControls (",".intercalate parts).toList := by
  rw [String.toList_intercalate]
  cases parts with
  | nil =>
    intro c hc
    exact absurd hc List.not_mem_nil
  | cons part parts =>
    obtain ⟨first, others⟩ := List.forall_mem_cons.1 h
    rw [List.map_cons, show ",".toList = [','] from rfl, intercalate_cons_eq, List.flatMap_map]
    refine noControls_append first fun c hc => ?_
    obtain ⟨s, hs, hmem⟩ := List.mem_flatMap.1 hc
    rcases List.mem_cons.1 hmem with rfl | hmem
    · decide
    · exact others s hs c hmem

namespace Value

mutual

/-- The text of a value is a single line. -/
theorem noControls_compact : ∀ v : Value, NoControls v.compact.toList
  | .null => by simp [compact, NoControls]
  | .bool true => by simp [compact, NoControls]
  | .bool false => by simp [compact, NoControls]
  | .int n => by
    rw [compact]
    exact noControls_intText n
  | .str s => by
    rw [compact]
    exact noControls_quote s
  | .arr items => by
    have inside := noControls_intercalate (noControls_compactItems items)
    rw [compact, String.toList_append, String.toList_append]
    exact noControls_append (noControls_append (by simp [NoControls]) inside) (by simp [NoControls])
  | .obj members => by
    have inside := noControls_intercalate (noControls_compactMembers members)
    rw [compact, String.toList_append, String.toList_append]
    exact noControls_append (noControls_append (by simp [NoControls]) inside) (by simp [NoControls])

theorem noControls_compactItems : ∀ items : List Value,
    ∀ s ∈ compactItems items, NoControls s.toList
  | [] => by simp [compactItems]
  | v :: rest => by
    rw [compactItems]
    exact List.forall_mem_cons.2 ⟨noControls_compact v, noControls_compactItems rest⟩

theorem noControls_compactMembers : ∀ members : List (String × Value),
    ∀ s ∈ compactMembers members, NoControls s.toList
  | [] => by simp [compactMembers]
  | (k, v) :: rest => by
    rw [compactMembers]
    refine List.forall_mem_cons.2 ⟨?_, noControls_compactMembers rest⟩
    rw [String.toList_append, String.toList_append]
    exact noControls_append (noControls_append (noControls_quote k) (by simp [NoControls]))
      (noControls_compact v)

end

end Value

end LayerGraph.Json
