import LayerGraph.Decimal.Digits
import LayerGraph.Disk
import LayerGraph.Text.AsciiCase
import LayerGraph.Text.Base

/-!
# Where a graph database lies

A graph database has a name: the path of its file, or a URI of the scheme "file", in which octets
may be written as a percent sign and two digits, and whose options say how the file is opened. An
option may give up rights but not claim any. A database without a path is kept in memory, and one
path stands for that too. The path that a URI gives need not be a text.
-/

namespace LayerGraph

/-- What opening a database may do. -/
inductive OpenMode
  | readOnly
  | readWrite
  | create
  | memory
deriving DecidableEq, Repr

namespace OpenMode

/-- The words for modes. -/
def words : List (String × OpenMode) :=
  [("ro", .readOnly), ("rw", .readWrite), ("rwc", .create), ("memory", .memory)]

/-- The rights of a mode; each mode has those of the modes of lower rank. -/
def rank : OpenMode → Nat
  | readOnly => 0
  | readWrite => 1
  | create => 2
  | memory => 3

/-- Whether one mode may take the place of another. A database in memory needs no rights. -/
def allows (current next : OpenMode) : Bool :=
  next = .memory || next.rank ≤ current.rank

end OpenMode

/-- How the files of a database are kept, and how others are kept away from them. -/
inductive FileKeeping
  /-- Others may use the files too. -/
  | shared
  /-- Nobody else may use the files. -/
  | exclusive
  /-- Nobody is kept away. -/
  | unguarded
  /-- Something beside the file that is named for it keeps others away. -/
  | marked
  /-- There are no files. -/
  | memory
deriving DecidableEq, Repr

namespace FileKeeping

/-- The words for ways of keeping files. -/
def words : List (String × FileKeeping) :=
  [("unix", .shared), ("unix-excl", .exclusive), ("unix-none", .unguarded),
   ("unix-dotfile", .marked), ("memdb", .memory)]

end FileKeeping

/-- Why a database was not opened, or refuses to be changed. -/
inductive OpenFault
  /-- The name holds an octet of zero, after so many others. -/
  | nulByte (position : Nat)
  | authority (text : String)
  | unknownMode (option value : String)
  | forbiddenMode (value : String)
  | unknownKeeping (value : String)
  /-- The file is absent, or it is no file. -/
  | noFile
  /-- A file beside the database file cannot be opened. -/
  | noSideFile
  | notDatabase
  | readOnly
  /-- Something cannot be read, looked up or removed. -/
  | unworkable
  /-- Others are kept away from the database. -/
  | taken
deriving DecidableEq, Repr

namespace OpenFault

/-- The wording of a fault of the database of a name. -/
def message (name : String) : OpenFault → String
  | nulByte position => s!"nul byte found in provided data at position: {Decimal.natText position}"
  | authority text => s!"invalid uri authority: {text}"
  | unknownMode option value => s!"no such {option} mode: {value}"
  | forbiddenMode value => s!"access mode not allowed: {value}"
  | unknownKeeping value => s!"no such vfs: {value}"
  | noFile => s!"unable to open database file: {name}"
  | noSideFile => "unable to open database file"
  | notDatabase => "file is not a database"
  | readOnly => "attempt to write a readonly database"
  | unworkable => "disk I/O error"
  | taken => "database is locked"

end OpenFault

/-- Where a database lies, and how it is opened. -/
structure Location where
  path : List UInt8
  mode : OpenMode := .create
  keeping : FileKeeping := .shared
  /-- Nobody is kept away from the files, however they are kept. -/
  isUnguarded : Bool := false
  /-- The file is taken to be one that nobody writes. -/
  isFixed : Bool := false
  /-- The index of the log may only be read. -/
  keepsIndex : Bool := false
  /-- The path of a file that a new one is to be like. -/
  sample? : Option (List UInt8) := none
deriving DecidableEq, Repr, Inhabited

namespace Location

/-! ## Names -/

/-- The octets of a part of a URI. An octet of zero ends the part. -/
def octets : List Char → List UInt8
  | '%' :: a :: b :: rest =>
    match Text.numberIn? 16 [a, b] with
    | some 0 => []
    | some n => UInt8.ofNat n :: octets rest
    | none => Text.octets "%" ++ octets (a :: b :: rest)
  | c :: rest => Text.octets (String.singleton c) ++ octets rest
  | [] => []

/-- What stands before a sign, and what stands behind it. -/
def cut (sign : Char) (cs : List Char) : List Char × List Char :=
  (cs.takeWhile (· ≠ sign), (cs.dropWhile (· ≠ sign)).drop 1)

/-- An option of a URI and its value. -/
structure UriOption where
  name : List UInt8
  value : List UInt8

/-- The value as a message shows it. -/
def UriOption.text (o : UriOption) : String :=
  Text.ofOctets o.value

/-- The options of a URI. What has no name is no option. -/
def options (query : List Char) : List UriOption :=
  let all := ((String.ofList query).splitOn "&").map fun part =>
    let (name, value) := cut '=' part.toList
    UriOption.mk (octets name) (octets value)
  all.filter (·.name ≠ [])

/-- The first option of a name. -/
def option? (options : List UriOption) (name : String) : Option UriOption :=
  options.find? (·.name = Text.octets name)

/-- The number that digits stand for, or zero if it needs more than 31 bits. -/
def shortNumber (base : Nat) (digits : List Char) : Nat :=
  ((Text.numberIn? base digits).filter (· < 2147483648)).getD 0

/-- The number that a value begins with, in base sixteen behind a zero and an x. -/
def leadingNumber (cs : List Char) : Nat :=
  let isHex (c : Char) : Bool := (Text.hexValue? c).isSome
  match cs with
  | '0' :: x :: rest =>
    if (x = 'x' || x = 'X') && rest.head?.any isHex then shortNumber 16 (rest.takeWhile isHex)
    else shortNumber 10 (cs.takeWhile Decimal.isDigit)
  | _ => shortNumber 10 (cs.takeWhile Decimal.isDigit)

/-- Whether a value stands for a yes: a word, or a number whose last eight bits are not all zero. -/
def isYes (value : String) : Bool :=
  if value.toList.head?.any Decimal.isDigit then leadingNumber value.toList % 256 ≠ 0
  else ["on", "yes", "true"].any (Text.sameAsciiCase value)

/-- The location with an option taken into account. -/
def withOption (l : Location) (o : UriOption) : Except OpenFault Location :=
  if o.name = Text.octets "mode" then
    match OpenMode.words.lookup o.text with
    | none => .error (.unknownMode "access" o.text)
    | some mode =>
      if l.mode.allows mode then .ok { l with mode } else .error (.forbiddenMode o.text)
  else if o.name = Text.octets "cache" then
    if o.text ∈ ["shared", "private"] then .ok l else .error (.unknownMode "cache" o.text)
  else .ok l

/-- The location with a way of keeping files taken into account. -/
def withKeeping (l : Location) : Option UriOption → Except OpenFault Location
  | none => .ok l
  | some o =>
    match FileKeeping.words.lookup o.text with
    | none => .error (.unknownKeeping o.text)
    | some keeping => .ok { l with keeping }

/-- The path of a URI behind its scheme, with its options. It may be on this machine only. -/
def uriPath : List Char → Except OpenFault (List Char)
  | '/' :: '/' :: rest =>
    let authority := String.ofList (rest.takeWhile (· ≠ '/'))
    if authority = "" || authority = "localhost" then .ok (rest.dropWhile (· ≠ '/'))
    else .error (.authority authority)
  | cs => .ok cs

/-- The location of a URI without its scheme. What stands behind a hash sign says nothing. Of the
ways of keeping files that are named the last one counts, otherwise the first value of an option. -/
def ofUri (cs : List Char) : Except OpenFault Location := do
  let (path, query) := cut '?' (cut '#' (← uriPath cs)).1
  let options := options query
  let l ← options.foldlM withOption { path := octets path }
  let l ← l.withKeeping (option? options.reverse "vfs")
  let isSet (name : String) : Bool := (option? options name).any fun o => isYes o.text
  return { l with
    isUnguarded := isSet "nolock"
    isFixed := isSet "immutable"
    keepsIndex := isSet "readonly_shm"
    sample? := (option? options "modeof").map UriOption.value }

/-- The location of a database by its name. -/
def ofName (name : String) : Except OpenFault Location :=
  let octets := Text.octets name
  let front := octets.takeWhile (· ≠ 0)
  if front.length < octets.length then .error (.nulByte front.length)
  else
    match name.toList with
    | 'f' :: 'i' :: 'l' :: 'e' :: ':' :: rest => ofUri rest
    | _ => .ok { path := octets }

/-! ## What a location says -/

/-- Whether a database is kept in memory, whatever keeps files. -/
def isInMemory (l : Location) : Bool :=
  l.mode = .memory || l.path = [] || l.path = Text.octets ":memory:"

/-- Whether a database has a file. -/
def hasFile (l : Location) : Bool :=
  !l.isInMemory && l.keeping ≠ .memory

/-- Whether a database may only be read. -/
def isReadOnly (l : Location) : Bool :=
  l.mode = .readOnly || (l.isFixed && !l.isInMemory)

/-- Whether changes can be written to a log beside the file: unless nobody is kept away from it. -/
def hasLog (l : Location) : Bool :=
  (l.keeping = .shared || l.keeping = .exclusive) && !l.isUnguarded && !l.isFixed

/-- Whether something beside the file keeps others away. -/
def hasMark (l : Location) : Bool :=
  l.keeping = .marked && !l.isUnguarded && !l.isFixed

end Location

end LayerGraph
