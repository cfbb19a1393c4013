/-!
# ASCII case

Type, layer and relation names are recognised whatever the case of their ASCII letters; letters
outside ASCII keep their case, so a dotless i is not an i.
-/

namespace LayerGraph.Text

/-- Lowers the letters A to Z and no other character. -/
def lowerAscii (c : Char) : Char :=
  if 'A' ≤ c && c ≤ 'Z' then Char.ofNat (c.toNat + 32) else c

/-- Equality of texts up to the case of their ASCII letters. -/
def sameAsciiCase (a b : String) : Bool :=
  a.toList.map lowerAscii == b.toList.map lowerAscii

end LayerGraph.Text
