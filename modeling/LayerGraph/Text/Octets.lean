/-!
# Texts as octets

A text is written in UTF-8: the first octet of a character says how many follow it, and which ones
may. Octets that no text is written with can be read too. Where a character breaks off, what there
is of it counts as one character that cannot be shown, and so does each octet that begins none.

Main statement: `octets_append`, a text is written part by part.
-/

namespace LayerGraph.Text

/-- The octets of a text. -/
def octets (s : String) : List UInt8 :=
  s.toUTF8.data.toList

theorem octets_append (s t : String) : octets (s ++ t) = octets s ++ octets t := by
  simp [octets]

/-- Numbers between two bounds. -/
structure OctetRange where
  first : UInt8
  last : UInt8

namespace OctetRange

def holds (r : OctetRange) (octet : UInt8) : Bool :=
  r.first ≤ octet && octet ≤ r.last

/-- The octets that go on with a character. -/
def onward : OctetRange := ⟨0x80, 0xBF⟩

end OctetRange

/-- The ranges of the octets that follow the first one of a character, if it can begin one. The
octet behind it keeps out longer spellings, halves of pairs and what lies beyond the last plane. -/
def following? (octet : UInt8) : Option (List OctetRange) :=
  if octet < 0x80 then some []
  else if octet < 0xC2 then none
  else if octet < 0xE0 then some [.onward]
  else if octet = 0xE0 then some [⟨0xA0, 0xBF⟩, .onward]
  else if octet = 0xED then some [⟨0x80, 0x9F⟩, .onward]
  else if octet < 0xF0 then some [.onward, .onward]
  else if octet = 0xF0 then some [⟨0x90, 0xBF⟩, .onward, .onward]
  else if octet < 0xF4 then some [.onward, .onward, .onward]
  else if octet = 0xF4 then some [⟨0x80, 0x8F⟩, .onward, .onward]
  else none

/-- How many octets lie in the given ranges, one in each, up to the first that does not. -/
def fitting : List OctetRange → List UInt8 → Nat
  | range :: ranges, octet :: rest => if range.holds octet then 1 + fitting ranges rest else 0
  | _, _ => 0

/-- The character that is shown for octets that are none. -/
def unknownChar : Char := Char.ofNat 0xFFFD

/-- The character that octets begin with, and how many octets it takes behind the first. -/
def firstChar (octet : UInt8) (rest : List UInt8) : Char × Nat :=
  match following? octet with
  | none => (unknownChar, 0)
  | some ranges =>
    let n := fitting ranges rest
    let text? := String.fromUTF8? ⟨(octet :: rest.take n).toArray⟩
    ((text?.bind (·.toList.head?)).getD unknownChar, n)

/-- The text of octets. -/
def ofOctets (octets : List UInt8) : String :=
  String.ofList (go octets.length octets)
where
  /-- The characters of octets; there are at most as many as the first number says. -/
  go : Nat → List UInt8 → List Char
    | 0, _ => []
    | _, [] => []
    | fuel + 1, octet :: rest =>
      let (c, n) := firstChar octet rest
      c :: go fuel (rest.drop n)

end LayerGraph.Text
