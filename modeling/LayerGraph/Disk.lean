import LayerGraph.Error
import LayerGraph.Path
import LayerGraph.StoredGraph

/-!
# The files that the program works on

A tree of files and directories, with what the program asks of it: read a text, write a file, create
directories, rename. Files and directories are named by paths, and every place that a path leads
through has to be a directory, also one that the path leaves again. Except for the one that creates
directories, each operation succeeds as a whole or changes nothing. A graph database is a file whose
content is the stored graph it holds.

Main statements: `entryAt?_set` and `entryAt?_erase`, a change at one place is seen there only;
`walk_of_entryAt?_eq`, it leaves the ways to other places open unless it replaces a directory.
-/

namespace LayerGraph

/-- What is at a place. -/
inductive Entry
  | directory
  | file (content : ByteArray)
  /-- Changes are written to a log beside the file first, unless it says that they are not. -/
  | database (content : StoredGraph) (isLogged : Bool)
  /-- A database with a log in which no table has been created. -/
  | bareDatabase
deriving Inhabited

/-- The entries of a file system, and the places at which it refuses to write. -/
structure Disk where
  entries : List (Place × Entry) := []
  locked : List Place := []
  /-- The length of the path from the root to the working directory. -/
  depth : Nat := 32
deriving Inhabited

namespace Disk

/-- What is at a place, if anything is. -/
def entryAt? (d : Disk) (p : Place) : Option Entry :=
  if p.isGiven then some .directory else d.entries.lookup p

/-- Whether a place is a directory. -/
def hasDirectory (d : Disk) (p : Place) : Bool :=
  d.entryAt? p matches some .directory

/-- The disk with an entry at a place, in place of what was there. -/
def set (d : Disk) (p : Place) (e : Entry) : Disk :=
  { d with entries := (p, e) :: d.entries.filter (·.1 ≠ p) }

/-- The disk without what was at a place. -/
def erase (d : Disk) (p : Place) : Disk :=
  { d with entries := d.entries.filter (·.1 ≠ p) }

theorem lookup_filter_ne (entries : List (Place × Entry)) (p q : Place) :
    (entries.filter (·.1 ≠ p)).lookup q = if q = p then none else entries.lookup q := by
  induction entries with
  | nil => simp
  | cons entry rest ih =>
    obtain ⟨r, e⟩ := entry
    by_cases hr : r = p
    · subst hr
      by_cases hq : q = r
      · subst hq
        simpa using ih
      · have head : (q == r) = false := by simpa using hq
        simpa [List.lookup_cons, head, hq] using ih
    · by_cases hq : q = r
      · subst hq
        simp [hr]
      · have head : (q == r) = false := by simpa using hq
        simpa [List.filter_cons, hr, List.lookup_cons, head] using ih

theorem entryAt?_set (d : Disk) (p q : Place) (e : Entry) :
    (d.set p e).entryAt? q =
      if q.isGiven then some .directory else if q = p then some e else d.entryAt? q := by
  unfold entryAt? set
  by_cases hg : q.isGiven = true
  · rw [if_pos hg, if_pos hg]
  · rw [if_neg hg, if_neg hg, if_neg hg, List.lookup_cons]
    by_cases hq : q = p
    · simp [hq]
    · have head : (q == p) = false := by simpa using hq
      rw [head, lookup_filter_ne, if_neg hq, if_neg hq]

theorem entryAt?_erase (d : Disk) (p q : Place) :
    (d.erase p).entryAt? q =
      if q.isGiven then some .directory else if q = p then none else d.entryAt? q := by
  unfold entryAt? erase
  by_cases hg : q.isGiven = true
  · rw [if_pos hg, if_pos hg]
  · rw [if_neg hg, if_neg hg, if_neg hg, lookup_filter_ne]

/-- The most octets that a name may have. -/
def longestName : Nat := 255

/-- The most octets that a path may have. -/
def longestPath : Nat := 4095

/-- Where names lead from a place. Each of them is looked up in a directory; there need not be
anything under the last one. -/
def walk (d : Disk) : Place → List Name → Except FileFault Place
  | p, [] => .ok p
  | p, name :: rest =>
    match d.entryAt? p with
    | none => .error .notFound
    | some .directory =>
      if longestName < name.length then .error .nameTooLong
      else d.walk (p.step name) rest
    | some _ => .error .notDirectory

/-- A way leads through directories, so a change at a place that is none does not close it. -/
theorem walk_of_entryAt?_eq {d d' : Disk} {q : Place} (hq : d.hasDirectory q = false)
    (same : ∀ p, p ≠ q → d'.entryAt? p = d.entryAt? p) {names : List Name} {p r : Place}
    (h : d.walk p names = .ok r) : d'.walk p names = .ok r := by
  induction names generalizing p with
  | nil => simpa [walk] using h
  | cons name rest ih =>
    have hp : p ≠ q := by
      intro e
      subst e
      unfold hasDirectory at hq
      unfold walk at h
      split at h <;> simp_all
    unfold walk at h ⊢
    rw [same p hp]
    split at h
    · simp at h
    · split at h
      · simp at h
      · rename_i long
        simp only [long, if_false]
        exact ih h
    · simp at h

/-- A place, if there is a way to it. -/
def reach (d : Disk) (p : Place) : Except FileFault Place :=
  if p.head? = some [Name.slash] then d.walk Place.root (p.drop 1) else d.walk [] p

/-- Where a path leads. -/
def locateOctets (d : Disk) (path : List UInt8) : Except FileFault Place :=
  if path.contains 0 then .error .nulByte
  else if path = [] then .error .notFound
  else if longestPath < path.length then .error .nameTooLong
  else d.walk (Path.start path) (Path.names path)

/-- Where a path that is a text leads. -/
def locate (d : Disk) (path : String) : Except FileFault Place :=
  d.locateOctets (Text.octets path)

/-- What a path leads to. -/
def findOctets (d : Disk) (path : List UInt8) : Except FileFault Entry := do
  match d.entryAt? (← d.locateOctets path) with
  | some e => .ok e
  | none => .error .notFound

/-- What a path that is a text leads to. -/
def find (d : Disk) (path : String) : Except FileFault Entry :=
  d.findOctets (Text.octets path)

/-- Whether a path leads to a directory. -/
def isDirectory (d : Disk) (path : String) : Bool :=
  d.find path matches .ok .directory

/-- Whether a path leads to anything. -/
def contains (d : Disk) (path : String) : Except FileFault Bool :=
  match d.find path with
  | .ok _ => .ok true
  | .error .notFound => .ok false
  | .error fault => .error fault

/-- The bytes of a file. -/
def readBytes (d : Disk) (path : String) : Except FileFault ByteArray := do
  match ← d.find path with
  | .file content => .ok content
  | .database .. | .bareDatabase => .error .notUtf8
  | .directory => .error .isDirectory

/-- The text of a file. -/
def readText (d : Disk) (path : String) : Except FileFault String := do
  match String.fromUTF8? (← d.readBytes path) with
  | some s => .ok s
  | none => .error .notUtf8

/-- Writes a file. Its directory has to be there. -/
def write (d : Disk) (path : String) (content : ByteArray) : Except FileFault Disk := do
  let p ← d.locate path
  if p ∈ d.locked then .error .permissionDenied
  else if d.hasDirectory p then .error .isDirectory
  else .ok (d.set p (.file content))

/-- Creates a directory in one that is there. -/
def createDirectory (d : Disk) (path : String) : Except FileFault Disk := do
  let p ← d.locate (Path.withoutEndSlashes path)
  if (d.entryAt? p).isSome then .error .alreadyExists else .ok (d.set p .directory)

/-- Creates a directory in one that is there, unless it is there itself. -/
def ensureDirectory (d : Disk) (path : String) : Option FileFault × Disk :=
  match d.createDirectory path with
  | .ok d => (none, d)
  | .error .alreadyExists => (if d.isDirectory path then none else some .alreadyExists, d)
  | .error fault => (some fault, d)

/-- Creates the first of the given directories unless it is there. If there is no way to it, those
behind it are created before. -/
def ensureChain (d : Disk) : List String → Option FileFault × Disk
  | [] => (none, d)
  | path :: above =>
    match d.ensureDirectory path with
    | (some .notFound, _) =>
      match d.ensureChain above with
      | (none, d) => d.ensureDirectory path
      | failed => failed
    | done => done

/-- Creates a directory and those above it, as far as they are absent. The disk is given also when
one cannot be created, since those above it may have been. -/
def createDirectories (d : Disk) (path : String) : Option FileFault × Disk :=
  d.ensureChain (Path.chain path)

/-- Moves a file to a path, over a file that is there. -/
def rename (d : Disk) (source target : String) : Except FileFault Disk := do
  let p ← d.locate source
  let q ← d.locate target
  if q ∈ d.locked then .error .permissionDenied
  else
    match d.entryAt? p with
    | none => .error .notFound
    | some e => if d.hasDirectory q then .error .isDirectory else .ok ((d.erase p).set q e)

end Disk

end LayerGraph
