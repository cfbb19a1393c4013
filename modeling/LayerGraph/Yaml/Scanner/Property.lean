import LayerGraph.Text.Base
import LayerGraph.Yaml.Scanner

/-!
# Anchors, tags and directives of YAML texts

A node may have an anchor, under which it is named again later, and a tag, which says what it stands
for. A tag may be shortened by a name for its beginning; two such names are always there, and
directives in front of a document give others. Directives also give the version.
-/

namespace LayerGraph.Yaml

/-! ## Tags -/

/-- The characters of tags. Some stand only in tags that are written in full and in directives. -/
def isTagChar (inFull : Bool) (c : Char) : Bool :=
  let signs : List Char :=
    [';', '/', '?', ':', '@', '&', '=', '+', '$', '.', '!', '~', '*', '\'', '(', ')']
  isWordChar c || c ∈ signs || (inFull && (c = ',' || c = '[' || c = ']'))

/-- How many octets follow the first octet of a character in UTF-8. -/
def octetsAfter? (octet : Nat) : Option Nat :=
  if octet < 0x80 then some 0
  else if octet < 0xC0 then none
  else if octet < 0xE0 then some 1
  else if octet < 0xF0 then some 2
  else if octet < 0xF8 then some 3
  else none

/-- Reads the octets of a tag, some of them written as a percent sign and two digits, and gives what
is left. `missing` is how many octets a character written so still needs. -/
def tagOctets? (inFull : Bool) (missing : Nat) : List Char → Option (List Char × List Char)
  | '%' :: a :: b :: rest => do
    let octet ← Text.numberIn? 16 [a, b]
    let missing ←
      match missing with
      | 0 => octetsAfter? octet
      | n + 1 => if 0x80 ≤ octet && octet < 0xC0 then some n else none
    let (octets, rest) ← tagOctets? inFull missing rest
    return (Char.ofNat octet :: octets, rest)
  | c :: rest =>
    if 0 < missing || c = '%' then none
    else if isTagChar inFull c then do
      let (octets, rest) ← tagOctets? inFull 0 rest
      return (c :: octets, rest)
    else some ([], c :: rest)
  | [] => if missing = 0 then some ([], []) else none

/-- Reads a part of a tag that must not be left out. An octet of zero ends its text. -/
def tagText? (inFull : Bool) (cs : List Char) : Option (String × List Char) := do
  let (octets, rest) ← tagOctets? inFull 0 cs
  if octets.isEmpty then none
  else return (String.ofList (octets.takeWhile (·.toNat ≠ 0)), rest)

/-- Reads the name for the beginning of a tag: an exclamation mark and a word, and another mark if
there is one. -/
def tagName? : List Char → Option (List Char × List Char)
  | '!' :: cs =>
    let word := cs.takeWhile isWordChar
    match cs.dropWhile isWordChar with
    | '!' :: rest => some ('!' :: word ++ ['!'], rest)
    | rest => some ('!' :: word, rest)
  | _ => none

/-- Whether a name for the beginning of a tag has both its marks. -/
def isClosedName (name : List Char) : Bool :=
  1 < name.length && name.getLast? = some '!'

/-- The beginnings of tags that have a name without a directive. -/
def commonTagNames : List (String × String) :=
  [("!", "!"), ("!!", "tag:yaml.org,2002:")]

/-- Reads a tag: in full between angle brackets, after a name for its beginning, or after a single
mark, which also stands alone. -/
def tag? (names : List (String × String)) (cs : List Char) : Option (String × List Char) :=
  let stem? (name : List Char) : Option String :=
    (names ++ commonTagNames).lookup (String.ofList name)
  match cs with
  | '!' :: '<' :: cs => do
    match ← tagText? true cs with
    | (text, '>' :: rest) => some (text, rest)
    | _ => none
  | _ => do
    let (name, rest) ← tagName? cs
    if isClosedName name then
      let (text, rest) ← tagText? false rest
      return ((← stem? name) ++ text, rest)
    else
      let (octets, rest) ← tagOctets? false 0 rest
      let text := (name.drop 1 ++ octets).takeWhile (·.toNat ≠ 0)
      if text.isEmpty then return ("!", rest)
      else return ((← stem? ['!']) ++ String.ofList text, rest)

/-! ## Directives -/

/-- What a directive says. -/
inductive Directive
  | version
  | tagName (name stem : String)

/-- Reads a number of a version, of at most nine digits. -/
def versionNumber? (cs : List Char) : Option (Nat × List Char) :=
  let ds := cs.takeWhile Char.isDigit
  if 9 < ds.length then none
  else (Text.numberIn? 10 ds).map fun n => (n, cs.dropWhile Char.isDigit)

/-- Reads the version of a text, which has to be 1.1 or 1.2. -/
def version? (cs : List Char) : Option (Directive × List Char) := do
  let (major, rest) ← versionNumber? cs
  match rest with
  | '.' :: rest => do
    let (minor, rest) ← versionNumber? rest
    if major = 1 && (minor = 1 || minor = 2) then return (.version, rest) else none
  | _ => none

/-- Reads a name for the beginning of tags, and that beginning. -/
def tagNaming? (cs : List Char) : Option (Directive × List Char) := do
  let (name, rest) ← tagName? cs
  if !isClosedName name && name ≠ ['!'] then none
  if !rest.head?.any isBlank then none
  let (stem, rest) ← tagText? true (rest.dropWhile isBlank)
  if endsWord rest then return (.tagName (String.ofList name) stem, rest) else none

/-- Reads a directive behind its percent sign, up to the end of the line. -/
def directive? (cs : List Char) : Option (Directive × List Char) := do
  let word := cs.takeWhile isWordChar
  let rest := cs.dropWhile isWordChar
  if !endsWord rest then none
  let rest := rest.dropWhile isBlank
  let (d, rest) ←
    match String.ofList word with
    | "YAML" => version? rest
    | "TAG" => tagNaming? rest
    | _ => none
  let rest :=
    match rest.dropWhile isBlank with
    | '#' :: rest => rest.dropWhile fun c => !isBreak c
    | rest => rest
  if rest.isEmpty || rest.head?.any isBreak then return (d, rest) else none

namespace Scanner

/-- Passes over what stands before the given rest of the line. -/
def skipTo (s : Scanner) (rest : List Char) : Scanner :=
  s.skip (s.rest.length - rest.length)

/-- Reads a directive. A document has one version, and each name has one meaning. -/
def directive (s : Scanner) : Option Scanner := do
  let s ← s.closeAll
  let (d, rest) ← directive? (s.rest.drop 1)
  let s := s.skipTo rest
  let s := if rest.isEmpty then s else s.takeBreak.2
  let s ←
    match d with
    | .version => if s.isVersioned then none else some { s with isVersioned := true }
    | .tagName name stem =>
      if s.tagNames.any (·.1 = name) then none
      else some { s with tagNames := (name, stem) :: s.tagNames }
  return s.emit .directive

/-- Reads a tag. -/
def tag (s : Scanner) : Option Scanner := do
  let s ← s.markPlace
  let (text, rest) ← tag? s.tagNames s.rest
  if !endsWord rest && !(s.inFlow && rest.head? = some ',') then none
  return ({ s with keyAllowed := false }.skipTo rest).emit (.tag text)

/-! ### Anchors -/

/-- Reads the name of an anchor behind its mark. -/
def anchorName (s : Scanner) : Option (String × Scanner) := do
  let s ← s.markPlace
  let cs := s.rest.drop 1
  let word := cs.takeWhile isWordChar
  let rest := cs.dropWhile isWordChar
  let ends : List Char := ['?', ':', ',', ']', '\x7d', '%', '@', '\x60']
  if word.isEmpty || !(endsWord rest || rest.head?.any (· ∈ ends)) then none
  return (String.ofList word, { s with keyAllowed := false }.skipTo rest)

/-- Reads an anchor. Its name stands for the slot that is numbered by how many names there were
before, and no longer for one that it stood for. -/
def anchor (s : Scanner) : Option Scanner := do
  let (name, s) ← s.anchorName
  let slot := s.slots.length
  let s := { s with slots := (name, slot) :: s.slots.filter (·.1 ≠ name) }
  return s.emit (.anchor slot)

/-- Reads the mark of a node that was named before. -/
def reference (s : Scanner) : Option Scanner := do
  let (name, s) ← s.anchorName
  return s.emit (.reference (← s.slots.lookup name))

end Scanner

end LayerGraph.Yaml
