import Mathlib
import LayerGraph.Record.File

/-!
# What readers leave

A reader that succeeds leaves a part of the text behind what it has read, so what is left is no longer
than the text, and shorter if something had to be read. There is one lemma for each reader, by its own
recursion and from the lemmas of the readers that it calls.

Main statements:
1. `readText_lt`, `readTexts_le`: a text takes at least one character, and so does each one of a list.
2. `readVariant_le`, `skipValue_le`: words and values that are passed over.
3. `readInteger_le`: an integer that is read has 64 bits.
-/

namespace LayerGraph.Json

variable {α β : Type} {cs rest : List Char}

/-! ## Steps that can fail -/

@[grind =] theorem bind_eq_ok {x : Except Fault α} {f : α → Except Fault β} {b : β} :
    (x >>= f) = .ok b ↔ ∃ a, x = .ok a ∧ f a = .ok b := by
  cases x <;> simp [bind, Except.bind]

@[grind =] theorem pure_eq_ok (a : α) : (pure a : Except Fault α) = .ok a :=
  rfl

@[grind =] theorem map_eq_ok {x : Except Fault α} {f : α → β} {b : β} :
    x.map f = .ok b ↔ ∃ a, x = .ok a ∧ f a = b := by
  cases x <;> simp [Except.map]

@[grind! .] theorem length_dropWhile_le (p : Char → Bool) (cs : List Char) :
    (cs.dropWhile p).length ≤ cs.length :=
  (List.dropWhile_suffix p).length_le

@[grind! .] theorem length_skipSpaces_le (cs : List Char) : (skipSpaces cs).length ≤ cs.length :=
  length_dropWhile_le isSpace cs

@[grind →] theorem scanWord_le {word : List Char} (h : scanWord word cs = .ok rest) :
    rest.length ≤ cs.length := by
  fun_induction scanWord word cs <;> grind

/-! ## Quoted texts -/

@[grind →] theorem scanHex_le {n : Nat} (h : scanHex cs = .ok (n, rest)) :
    rest.length ≤ cs.length := by
  unfold scanHex at h
  grind

@[grind →] theorem scanPairMark_le {wanted : Char} (h : scanPairMark wanted cs = .ok rest) :
    rest.length ≤ cs.length := by
  unfold scanPairMark at h
  grind

@[grind →] theorem scanCodeUnits_le {c : Char} (h : scanCodeUnits cs = .ok (c, rest)) :
    rest.length ≤ cs.length := by
  unfold scanCodeUnits at h
  simp only [bind_eq_ok] at h
  grind

@[grind →] theorem scanEscape_le {c : Char} (h : scanEscape cs = .ok (c, rest)) :
    rest.length ≤ cs.length := by
  unfold scanEscape at h
  grind

theorem scanText_lt {fuel : Nat} {read : List Char} {s : String}
    (h : scanText fuel read cs = .ok (s, rest)) : rest.length < cs.length := by
  fun_induction scanText fuel read cs <;> grind

@[grind →] theorem scanQuoted_lt {s : String} (h : scanQuoted cs = .ok (s, rest)) :
    rest.length < cs.length :=
  scanText_lt h

@[grind →] theorem skipEscape_le (h : skipEscape cs = .ok rest) : rest.length ≤ cs.length := by
  unfold skipEscape at h
  grind

theorem skipText_le {fuel : Nat} (h : skipText fuel cs = .ok rest) : rest.length ≤ cs.length := by
  fun_induction skipText fuel cs <;> grind

@[grind →] theorem skipQuoted_le (h : skipQuoted cs = .ok rest) : rest.length ≤ cs.length :=
  skipText_le h

/-! ## Numbers -/

@[grind →] theorem floatOr_le {x : Option Float} {n : Number} (h : floatOr cs x = .ok (n, rest)) :
    rest.length ≤ cs.length := by
  cases x <;> simp_all [floatOr]

@[grind →] theorem addExponent_le {exponent : Nat} {e : Option Nat}
    (h : addExponent exponent cs = (e, rest)) : rest.length ≤ cs.length := by
  fun_induction addExponent exponent cs <;> grind

@[grind →] theorem scanExponent_le {positive : Bool} {significand : Nat} {start : Int} {n : Number}
    (h : scanExponent positive significand start cs = .ok (n, rest)) :
    rest.length ≤ cs.length := by
  unfold scanExponent at h
  split at h
  rename_i up digits sign
  have shorter : digits.length ≤ cs.length := by grind
  split at h
  · cases h
  · split at h
    · split at h
      · grind
      · grind
    · cases h

@[grind →] theorem scanExponent?_le {positive : Bool} {significand : Nat} {start : Int}
    {n : Number} (h : scanExponent? positive significand start cs = .ok (n, rest)) :
    rest.length ≤ cs.length := by
  unfold scanExponent? at h
  grind

@[grind →] theorem scanFraction_le {positive : Bool} {significand : Nat} {start : Int} {n : Number}
    (h : scanFraction positive significand start cs = .ok (n, rest)) :
    rest.length ≤ cs.length := by
  unfold scanFraction at h
  dsimp only at h
  split at h
  · grind
  · grind

@[grind →] theorem scanNumber_le {positive : Bool} {n : Number}
    (h : scanNumber positive cs = .ok (n, rest)) : rest.length ≤ cs.length := by
  unfold scanNumber at h
  dsimp only at h
  split at h
  · grind
  · cases h
  · split at h <;> grind

@[grind →] theorem skipExponent_le (h : skipExponent cs = .ok rest) : rest.length ≤ cs.length := by
  unfold skipExponent at h
  dsimp only at h
  grind

@[grind →] theorem skipFraction_le (h : skipFraction cs = .ok rest) : rest.length ≤ cs.length := by
  unfold skipFraction at h
  grind

@[grind →] theorem skipNumber_le (h : skipNumber cs = .ok rest) : rest.length ≤ cs.length := by
  unfold skipNumber at h
  grind

/-! ## Values that are passed over -/

@[grind →] theorem skipKey_le (h : skipKey cs = .ok rest) : rest.length ≤ cs.length := by
  unfold skipKey at h
  grind

@[grind →] theorem skipScalar_le (h : skipScalar cs = .ok rest) : rest.length ≤ cs.length := by
  unfold skipScalar at h
  grind

theorem skipFrom_le {fuel : Nat} {brackets : List Bracket} {place : Place}
    (h : skipFrom fuel brackets place cs = .ok rest) : rest.length ≤ cs.length := by
  fun_induction skipFrom fuel brackets place cs <;> grind

@[grind →] theorem skipValue_le (h : skipValue cs = .ok rest) : rest.length ≤ cs.length :=
  skipFrom_le h

/-! ## Values of a wanted shape -/

@[grind →] theorem refuse_ne_ok {wanted : String} {a : α} (h : refuse wanted cs = .ok a) :
    False := by
  unfold refuse at h
  dsimp only at h
  split at h <;> grind

@[grind →] theorem readText_lt {s : String} (h : readText cs = .ok (s, rest)) :
    rest.length < cs.length := by
  have := length_skipSpaces_le cs
  unfold readText at h
  grind

theorem readOptional_cases {read : List Char → Except Fault (α × List Char)} {o : Option α}
    (h : readOptional read cs = .ok (o, rest)) :
    (o = none ∧ rest.length ≤ cs.length) ∨
      ∃ a cs', o = some a ∧ cs'.length ≤ cs.length ∧ read cs' = .ok (a, rest) := by
  unfold readOptional at h
  grind

@[grind →] theorem readListNext_le {more : Bool} (h : readListNext cs = .ok (more, rest)) :
    rest.length ≤ cs.length := by
  unfold readListNext at h
  grind

@[grind →] theorem readTextItems_le {fuel : Nat} {read ss : List String}
    (h : readTextItems fuel read cs = .ok (ss, rest)) :
    ss.length + rest.length ≤ read.length + cs.length := by
  fun_induction readTextItems fuel read cs <;> grind

@[grind →] theorem readTexts_le {ss : List String} (h : readTexts cs = .ok (ss, rest)) :
    ss.length + rest.length ≤ cs.length := by
  unfold readTexts at h
  grind

@[grind →] theorem colon_le (h : readVariant.colon cs = .ok rest) : rest.length ≤ cs.length := by
  unfold readVariant.colon at h
  grind

@[grind →] theorem unit_le (h : readVariant.unit cs = .ok rest) : rest.length ≤ cs.length := by
  unfold readVariant.unit at h
  grind

@[grind →] theorem readVariant_le {known : List (String × α)} {a : α}
    (h : readVariant known cs = .ok (a, rest)) : rest.length ≤ cs.length := by
  have blanks := length_skipSpaces_le cs
  unfold readVariant at h
  split at h
  · cases h
  · grind
  · rename_i inside whole
    have inner := length_skipSpaces_le inside
    split at h
    · cases h
    · cases h
    · simp only [bind_eq_ok] at h
      obtain ⟨word, hword, a', -, afterColon, hcolon, afterUnit, hunit, h⟩ := h
      have last := length_skipSpaces_le afterUnit
      split at h <;> grind
    · cases h
  · cases h

/-! ## Integers -/

/-- A number with a fraction or an exponent is no integer. -/
@[grind →] theorem floatOr_ne_int {x : Option Float} {i : Int}
    (h : floatOr cs x = .ok (.int i, rest)) : False := by
  cases x <;> simp [floatOr] at h

@[grind →] theorem scanExponent_ne_int {positive : Bool} {significand : Nat} {start i : Int}
    (h : scanExponent positive significand start cs = .ok (.int i, rest)) : False := by
  unfold scanExponent at h
  grind

@[grind →] theorem scanExponent?_ne_int {positive : Bool} {significand : Nat} {start i : Int}
    (h : scanExponent? positive significand start cs = .ok (.int i, rest)) : False := by
  unfold scanExponent? at h
  grind

@[grind →] theorem scanFraction_ne_int {positive : Bool} {significand : Nat} {start i : Int}
    (h : scanFraction positive significand start cs = .ok (.int i, rest)) : False := by
  unfold scanFraction at h
  dsimp only at h
  split at h <;> grind

theorem scanNumber_low {positive : Bool} {i : Int} (h : scanNumber positive cs = .ok (.int i, rest)) :
    -2 ^ 63 ≤ i := by
  unfold scanNumber at h
  dsimp only at h
  split at h
  · grind
  · cases h
  · split at h <;> grind

/-- A number is taken if it is small enough. -/
theorem eq_of_checked {i j : Int} {left : List Char} {e : Fault}
    (h : (if j < (Nat.pow 2 63 : Nat) then .ok (j, left) else .error e) =
      (.ok (i, rest) : Except Fault (Int × List Char))) : j = i ∧ left = rest ∧ i < 2 ^ 63 := by
  split at h
  · rename_i small
    cases h
    exact ⟨rfl, rfl, small⟩
  · cases h

/-- An integer that is read has 64 bits. -/
theorem readInteger_le {i : Int} (h : readInteger cs = .ok (i, rest)) :
    rest.length ≤ cs.length ∧ -2 ^ 63 ≤ i ∧ i < 2 ^ 63 := by
  have blanks := length_skipSpaces_le cs
  unfold readInteger at h
  dsimp only at h
  split at h
  · rename_i negative
    rw [negative, List.length_cons] at blanks
    obtain ⟨⟨number, left⟩, hscan, hlook⟩ := bind_eq_ok.1 h
    cases number with
    | float x => cases hlook
    | int j =>
      obtain ⟨rfl, rfl, small⟩ := eq_of_checked hlook
      exact ⟨Nat.le_trans (scanNumber_le hscan) (Nat.le_of_succ_le blanks), scanNumber_low hscan,
        small⟩
  · cases h
  · rename_i first
    rw [first] at blanks
    split at h
    · obtain ⟨⟨number, left⟩, hscan, hlook⟩ := bind_eq_ok.1 h
      cases number with
      | float x => cases hlook
      | int j =>
        obtain ⟨rfl, rfl, small⟩ := eq_of_checked hlook
        exact ⟨Nat.le_trans (scanNumber_le hscan) blanks, scanNumber_low hscan, small⟩
    · exact (refuse_ne_ok h).elim

end LayerGraph.Json
