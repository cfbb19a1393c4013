import LayerGraph.Text.Base

/-!
# Arguments

How the arguments of a command are read. An argument is an option by name (`--depth`), a row of
options by letter (`-vc`), a value, or an operand. A value follows its option as the next argument,
after an equals sign, or right behind a letter. After two dashes every argument is an operand.

Reading stops at the first thing that is wrong, and also at an option that asks for something else,
such as the version; which of the two comes first decides. A value in an argument of its own is
looked at when the next argument is taken, so one in front of the name of a command is looked at
only when that command has been read.
-/

namespace LayerGraph.CommandLine

/-- Why there is nothing to run. -/
inductive Halt
  | usage
  | version
  | help
deriving DecidableEq, Repr

/-- What an option takes, and how often it may be given. -/
inductive OptionKind
  /-- No value, once. -/
  | flag
  /-- No value, any number of times. -/
  | counter
  /-- A value that is accepted, once. -/
  | single (accepts : String → Bool)
  /-- A value, any number of times. -/
  | many
  /-- Nothing else is read. -/
  | halt (reason : Halt)

/-- An option. -/
structure OptionForm where
  name : String
  letter : Option Char := none
  kind : OptionKind

/-- What has been read: options with their values, and operands. -/
structure Reading where
  given : List (String × String) := []
  operands : List String := []
deriving Repr

namespace Reading

def has (r : Reading) (name : String) : Bool :=
  r.given.any (·.1 = name)

/-- The value of an option that may be given once. -/
def value? (r : Reading) (name : String) : Option String :=
  r.given.lookup name

/-- The values of an option that may be given several times. -/
def values (r : Reading) (name : String) : List String :=
  (r.given.filter (·.1 = name)).map (·.2)

def operand (r : Reading) (n : Nat) : String :=
  r.operands.getD n ""

end Reading

/-- The numbers that an option takes: those below a limit, with a plus in front or not. Where a
minus is read too, it leaves only zero. -/
structure NumberForm where
  limit : Nat
  readsMinus : Bool

/-- The number that a value stands for. -/
def NumberForm.read? (f : NumberForm) (value : String) : Option Nat :=
  match value.toList with
  | '+' :: digits => (Text.numberIn? 10 digits).filter (· < f.limit)
  | '-' :: digits => (Text.numberIn? 10 digits).filter fun n => f.readsMinus && n = 0
  | digits => (Text.numberIn? 10 digits).filter (· < f.limit)

namespace OptionForm

def takesValue (o : OptionForm) : Bool :=
  match o.kind with
  | .single _ | .many => true
  | _ => false

/-- Takes an option with its value, which is empty for an option without one. -/
def take (o : OptionForm) (value : String) (r : Reading) : Except Halt Reading :=
  let taken : Reading := { r with given := r.given ++ [(o.name, value)] }
  match o.kind with
  | .halt reason => .error reason
  | .flag => if r.has o.name then .error .usage else .ok taken
  | .single accepts => if r.has o.name || !accepts value then .error .usage else .ok taken
  | .counter | .many => .ok taken

end OptionForm

/-- What an argument with options leaves: nothing to do, or an option that waits for its value. -/
inductive Taken
  | done (r : Reading)
  | pending (o : OptionForm) (r : Reading)

/-- Takes an option by its name, with a value if there is an equals sign. -/
def takeName (options : List OptionForm) (r : Reading) (cs : List Char) : Except Halt Taken :=
  let attached := cs.dropWhile (· ≠ '=')
  match options.find? (·.name = String.ofList (cs.takeWhile (· ≠ '='))), attached with
  | none, _ => .error .usage
  | some o, [] => if o.takesValue then .ok (.pending o r) else (o.take "" r).map .done
  | some o, _ :: value =>
    if o.takesValue then (o.take (String.ofList value) r).map .done else .error .usage

/-- Takes options by their letters. What stands behind an option with a value is its value. -/
def takeLetters (options : List OptionForm) (r : Reading) : List Char → Except Halt Taken
  | [] => .ok (.done r)
  | c :: rest =>
    match options.find? (·.letter = some c) with
    | none => .error .usage
    | some o =>
      if o.takesValue then
        match rest with
        | [] => .ok (.pending o r)
        | '=' :: value => (o.take (String.ofList value) r).map .done
        | value => (o.take (String.ofList value) r).map .done
      else
        match o.take "" r with
        | .ok r => takeLetters options r rest
        | .error reason => .error reason

/-- Takes the options of an argument that has some: one that begins with a dash and has more. -/
def takeOptions? (options : List OptionForm) (r : Reading) (argument : String) :
    Option (Except Halt Taken) :=
  match argument.toList with
  | '-' :: '-' :: cs => if cs.isEmpty then none else some (takeName options r cs)
  | '-' :: cs => if cs.isEmpty then none else some (takeLetters options r cs)
  | _ => none

/-- Whether an argument cannot be the value of the option before it. -/
def beginsOption (argument : String) : Bool :=
  argument.toList.head? = some '-' && argument ≠ "-"

/-- Where reading ended. -/
structure Stop where
  /-- What has been read, unless the last value of it turns out to be wrong. -/
  reading : Except Halt Reading
  /-- The name that ended it, and the arguments behind that. -/
  rest : List String := []

/-- Reads arguments up to the first of the given names, with at most `limit` operands. -/
def readArguments (options : List OptionForm) (names : List String) (limit : Nat) (r : Reading) :
    List String → Except Halt Stop
  | [] => .ok { reading := .ok r }
  | argument :: rest =>
    if argument ∈ names then .ok { reading := .ok r, rest := argument :: rest }
    else if argument = "--" then
      if r.operands.length + rest.length ≤ limit then
        .ok { reading := .ok { r with operands := r.operands ++ rest } }
      else .error .usage
    else
      match takeOptions? options r argument with
      | some (.error reason) => .error reason
      | some (.ok (.done r)) => readArguments options names limit r rest
      | some (.ok (.pending o r)) =>
        match rest with
        | [] => .error .usage
        | value :: rest =>
          if beginsOption value then .error .usage
          else if rest.head?.any (· ∈ names) then .ok { reading := o.take value r, rest }
          else
            match o.take value r with
            | .ok r => readArguments options names limit r rest
            | .error reason => .error reason
      | none =>
        if r.operands.length < limit then
          readArguments options names limit { r with operands := r.operands ++ [argument] } rest
        else .error .usage

end LayerGraph.CommandLine
