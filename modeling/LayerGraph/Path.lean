import LayerGraph.Text.Octets

/-!
# Paths and places

A path is a row of octets without a zero, most often a text as a user writes it. Its names, between
slashes, lead from the working directory or, behind a slash in front, from the root: a dot and an
empty name stay where they are, two dots lead up, and any other name leads down. The place at the
end does not depend on what is there; whether there is a way to it is for a disk to say.

Main statement: `names_append`, a slash parts the names before it from those behind it.
-/

namespace LayerGraph

/-- A name in a directory. It need not be a text. -/
abbrev Name := List UInt8

namespace Name

/-- The octet that parts names. -/
def slash : UInt8 := 0x2F

/-- The name that stays where it is. -/
def here : Name := [0x2E]

/-- The name that leads up. -/
def up : Name := [0x2E, 0x2E]

end Name

/-- A place in the file system, as the names that lead to it from the working directory, which is
the empty list. Names that lead up stand only in front, and a slash in front stands for the root. -/
abbrev Place := List Name

namespace Place

/-- The root of the file system. -/
def root : Place := [[Name.slash]]

/-- Whether a place is a directory whatever the disk holds: the root, the working directory, and
those above it. -/
def isGiven (p : Place) : Bool :=
  p = root || p.all (· = Name.up)

/-- The directory that a place lies in. The root lies in itself. -/
def parent (p : Place) : Place :=
  if p = root then p else if p.isGiven then Name.up :: p else p.dropLast

/-- Where a name leads from a place. -/
def step (p : Place) (name : Name) : Place :=
  if name = [] || name = Name.here then p
  else if name = Name.up then p.parent
  else p ++ [name]

/-- The place beside another one under the same name with a longer ending. -/
def beside (p : Place) (ending : String) : Place :=
  p.dropLast ++ [p.getLast?.getD [] ++ Text.octets ending]

/-- The place as a path. -/
def path (p : Place) : List UInt8 :=
  match p with
  | [] => Name.here
  | first :: rest =>
    if first = [Name.slash] then Name.slash :: [Name.slash].intercalate rest
    else [Name.slash].intercalate p

end Place

namespace Path

/-- Where a path starts. -/
def start (path : List UInt8) : Place :=
  if path.head? = some Name.slash then Place.root else []

/-- The names of a path. -/
def names : List UInt8 → List Name
  | [] => [[]]
  | octet :: rest =>
    if octet = Name.slash then [] :: names rest
    else
      match names rest with
      | [] => [[octet]]
      | name :: more => (octet :: name) :: more

theorem names_ne_nil (path : List UInt8) : names path ≠ [] := by
  cases path with
  | nil => simp [names]
  | cons octet rest =>
    unfold names
    split
    · simp
    · split <;> simp

theorem names_append (front back : List UInt8) :
    names (front ++ Name.slash :: back) = names front ++ names back := by
  induction front with
  | nil => simp [names]
  | cons octet front ih =>
    by_cases h : octet = Name.slash
    · simp [names, h, ih]
    · obtain ⟨name, more, hn⟩ := List.exists_cons_of_ne_nil (names_ne_nil front)
      simp [names, h, ih, hn]

/-- The place that a path leads to. -/
def place (path : List UInt8) : Place :=
  (names path).foldl Place.step (start path)

/-- The places that a path leads through, with its start and its end. -/
def places (path : List UInt8) : List Place :=
  go (start path) (names path)
where
  /-- The places that names lead through. -/
  go : Place → List Name → List Place
    | p, [] => [p]
    | p, name :: rest => p :: go (p.step name) rest

/-! ## Paths as texts -/

/-- Drops what stands for nothing at the front of a reversed path: slashes, and dots between
slashes. -/
def dropEmpty : List Char → List Char
  | '/' :: rest => dropEmpty rest
  | '.' :: '/' :: rest => dropEmpty ('/' :: rest)
  | cs => cs

/-- The reversed path of the directory that a reversed path lies in. It is empty for a path of one
name, and also for one below the root. -/
def reversedParent (cs : List Char) : List Char :=
  dropEmpty ((dropEmpty cs).dropWhile (· ≠ '/'))

theorem length_dropEmpty_le (cs : List Char) : (dropEmpty cs).length ≤ cs.length := by
  fun_induction dropEmpty cs <;> grind

theorem head?_dropEmpty_ne (cs : List Char) : (dropEmpty cs).head? ≠ some '/' := by
  fun_induction dropEmpty cs with
  | case1 _ ih => exact ih
  | case2 _ ih => exact ih
  | case3 cs noSlash =>
    intro h
    cases cs with
    | nil => simp at h
    | cons c rest => exact noSlash rest (by simp_all)

theorem length_reversedParent_lt {cs : List Char} (h : dropEmpty cs ≠ []) :
    (reversedParent cs).length < cs.length := by
  have shorter := length_dropEmpty_le cs
  have head := head?_dropEmpty_ne cs
  have below := length_dropEmpty_le ((dropEmpty cs).dropWhile (· ≠ '/'))
  unfold reversedParent
  cases hd : dropEmpty cs with
  | nil => exact absurd hd h
  | cons c rest =>
    rw [hd] at shorter head below
    have hc : c ≠ '/' := fun e => head (by simp [e])
    have tail := (List.dropWhile_suffix (l := rest) (· ≠ '/')).length_le
    simp only [List.dropWhile_cons, ne_eq, hc, not_false_eq_true, decide_true, if_true,
      List.length_cons] at shorter below tail ⊢
    omega

/-- The path of the directory that a path lies in, as it is written there; it is empty for a path of
one name. -/
def parent (path : String) : String :=
  let rest := (dropEmpty path.toList.reverse).dropWhile (· ≠ '/')
  let above := dropEmpty rest
  String.ofList (if above.isEmpty && !rest.isEmpty then ['/'] else above.reverse)

/-- A path and those of the directories above it that it is written with, the longest first, without
the root. -/
def chain (path : String) : List String :=
  go path.toList.reverse
where
  /-- The chain of a reversed path. -/
  go (cs : List Char) : List String :=
    if _h : dropEmpty cs = [] then []
    else String.ofList cs.reverse :: go (reversedParent cs)
  termination_by cs.length
  decreasing_by exact length_reversedParent_lt _h

/-- A path without slashes at its end. -/
def withoutEndSlashes (path : String) : String :=
  String.ofList (path.toList.reverse.dropWhile (· = '/')).reverse

/-- The path of a name in a directory. -/
def join (directory name : String) : String :=
  let isClosed := directory = "" || directory.toList.getLast? = some '/'
  directory ++ (if isClosed then "" else "/") ++ name

end Path

end LayerGraph
