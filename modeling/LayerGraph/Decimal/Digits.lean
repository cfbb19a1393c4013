/-!
# Decimal digits

Integers are written without leading zeros and with a minus sign in front when they are negative.

Main statement: `value_digits`, the digits of a number read back as the number.
-/

namespace LayerGraph.Decimal

/-- The character of a digit below ten. -/
def digitChar (d : Nat) : Char :=
  Char.ofNat (48 + d)

/-- The value of a digit character. -/
def digitValue (c : Char) : Nat :=
  c.toNat - 48

/-- Whether a character is one of the ten ASCII digits. -/
def isDigit (c : Char) : Bool :=
  '0' ≤ c && c ≤ '9'

/-- The digits of a number, without leading zeros; zero is one digit. -/
def digits (n : Nat) : List Char :=
  if n < 10 then [digitChar n] else digits (n / 10) ++ [digitChar (n % 10)]

/-- The number that a row of digits stands for. -/
def value (ds : List Char) : Nat :=
  ds.foldl (fun n c => n * 10 + digitValue c) 0

/-- The text of an integer. -/
def intText (i : Int) : String :=
  String.ofList (if i < 0 then '-' :: digits i.natAbs else digits i.natAbs)

/-- The text of a natural number. -/
def natText (n : Nat) : String :=
  String.ofList (digits n)

theorem digitValue_digitChar : ∀ {d : Nat}, d < 10 → digitValue (digitChar d) = d := by
  intro d h
  have all : ∀ d < 10, digitValue (digitChar d) = d := by decide
  exact all d h

theorem isDigit_digitChar : ∀ {d : Nat}, d < 10 → isDigit (digitChar d) = true := by
  intro d h
  have all : ∀ d < 10, isDigit (digitChar d) = true := by decide
  exact all d h

theorem value_digits (n : Nat) : value (digits n) = n := by
  rw [digits]
  split
  · simp [value, digitValue_digitChar (by assumption)]
  · have ih := value_digits (n / 10)
    have last := digitValue_digitChar (Nat.mod_lt n (by decide : 10 > 0))
    unfold value at ih ⊢
    rw [List.foldl_append, ih]
    simp only [List.foldl_cons, List.foldl_nil, last]
    omega

theorem isDigit_of_mem_digits (n : Nat) : ∀ c ∈ digits n, isDigit c = true := by
  rw [digits]
  split
  · intro c hc
    rw [List.mem_singleton.1 hc]
    exact isDigit_digitChar (by assumption)
  · intro c hc
    rcases List.mem_append.1 hc with hc | hc
    · exact isDigit_of_mem_digits (n / 10) c hc
    · rw [List.mem_singleton.1 hc]
      exact isDigit_digitChar (Nat.mod_lt n (by decide))

end LayerGraph.Decimal
