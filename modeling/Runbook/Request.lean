import Runbook.Keyed
import Runbook.Text.ShellWord
import Runbook.Value

/-!
# Requests to start a program

A request names a program with its arguments, the environment values to lay over the inherited
ones, and whether the output is captured. Since a request always names a program, the argument
vector is kept as its first word and the rest.

Requests from outside arrive as fields with values of any kind. Each field is checked on its own
and nothing is converted: the outcome is either a request that holds exactly what was given, or the
complaints of all fields together.
-/

namespace Runbook

/-- A program to start. -/
structure Request where
  /-- The first word of the argument vector. -/
  program : String
  /-- The other words, in order. -/
  arguments : List String := []
  /-- The values laid over the inherited environment. -/
  environment : Keyed String := []
  /-- Whether the output is kept instead of shown. -/
  capture : Bool := false
deriving DecidableEq, Repr

/-- What is wrong with a field. -/
inductive Problem where
  /-- The field is absent and has no default. -/
  | missing
  /-- A list is expected. -/
  | listType
  /-- The list has to have a member. -/
  | tooShort
  /-- A text is expected. -/
  | stringType
  /-- A mapping is expected. -/
  | dictType
  /-- A truth value is expected. -/
  | boolType
  /-- The value is of a kind that may stand for a truth value, and stands for none. -/
  | boolParsing
  /-- The request is complete and cannot be changed. -/
  | frozen
deriving DecidableEq, Repr

def Problem.tag : Problem → String
  | .missing => "missing"
  | .listType => "list_type"
  | .tooShort => "too_short"
  | .stringType => "string_type"
  | .dictType => "dict_type"
  | .boolType => "bool_type"
  | .boolParsing => "bool_parsing"
  | .frozen => "frozen_instance"

/-- A problem, and the place that has it: a field, then an index or a key. -/
structure Complaint where
  /-- The names that lead to the place. -/
  place : List String
  /-- What is wrong there. -/
  problem : Problem
deriving DecidableEq, Repr

namespace Complaint

/-- Whether `a` comes no later than `b`: by place, then by tag. -/
def le (a b : Complaint) : Bool :=
  match compare a.place b.place with
  | .lt => true
  | .eq => decide (a.problem.tag ≤ b.problem.tag)
  | .gt => false

def sorted (complaints : List Complaint) : List Complaint := complaints.mergeSort le

end Complaint

namespace Request

/-- The whole argument vector. -/
def argv (r : Request) : List String := r.program :: r.arguments

def commandLine (r : Request) : String :=
  String.ofList (Text.shellLine (r.argv.map String.toList))

/-! ## Checking requests from outside -/

/-- The texts among the members of a list, and a complaint for each member that is none. -/
def checkWords (index : Nat) : List Value → List String × List Complaint
  | [] => ([], [])
  | v :: vs =>
    let (words, complaints) := checkWords (index + 1) vs
    match v with
    | .text s => (s :: words, complaints)
    | _ => (words, ⟨["argv", toString index], .stringType⟩ :: complaints)

/-- The argument vector: a list of at least one text. -/
def checkArgv : Option Value → Except (List Complaint) (String × List String)
  | none => .error [⟨["argv"], .missing⟩]
  | some (.list items) =>
    match checkWords 0 items with
    | (program :: arguments, []) => .ok (program, arguments)
    | ([], []) => .error [⟨["argv"], .tooShort⟩]
    | (_, complaints) => .error complaints
  | some _ => .error [⟨["argv"], .listType⟩]

/-- The name of a key. Keys from outside are texts. -/
def keyName : Value → String
  | .text s => s
  | v => String.ofList v.render

/-- The text entries of a mapping, and a complaint for each entry that has no text. -/
def checkBindings : List (Value × Value) → Keyed String × List Complaint
  | [] => ([], [])
  | (key, v) :: rest =>
    let (bindings, complaints) := checkBindings rest
    match v with
    | .text s => ((keyName key, s) :: bindings, complaints)
    | _ => (bindings, ⟨["env", keyName key], .stringType⟩ :: complaints)

/-- The environment: a mapping to texts, or nothing. -/
def checkEnvironment : Option Value → Except (List Complaint) (Keyed String)
  | none => .ok []
  | some (.dict entries) =>
    match checkBindings entries with
    | (bindings, []) => .ok bindings
    | (_, complaints) => .error complaints
  | some _ => .error [⟨["env"], .dictType⟩]

/-- Words that stand for truth values, in lower case. -/
def truthWords : List (String × Bool) :=
  [("0", false), ("f", false), ("n", false), ("no", false), ("off", false), ("false", false),
   ("1", true), ("t", true), ("y", true), ("yes", true), ("on", true), ("true", true)]

/-- Whether a number fits into 64 bits with its sign. -/
def isMachineInt (n : Int) : Bool := -0x8000000000000000 ≤ n && n < 0x8000000000000000

/-- The capture flag: a truth value, a number or a word that stands for one, or nothing. -/
def checkCapture : Option Value → Except (List Complaint) Bool
  | none => .ok false
  | some (.truth b) => .ok b
  | some (.int n) =>
    if n = 0 then .ok false
    else if n = 1 then .ok true
    else if isMachineInt n then .error [⟨["capture_stdout"], .boolParsing⟩]
    else .error [⟨["capture_stdout"], .boolType⟩]
  | some (.text s) =>
    match truthWords.lookup (s.map Char.toLower) with
    | some b => .ok b
    | none => .error [⟨["capture_stdout"], .boolParsing⟩]
  | some _ => .error [⟨["capture_stdout"], .boolType⟩]

/-- The complaints of a check. -/
def complaintsOf {α : Type} : Except (List Complaint) α → List Complaint
  | .ok _ => []
  | .error complaints => complaints

/-- The request that the fields describe, or the complaints of all of them. Fields of other names
are ignored. -/
def ofFields (fields : List (String × Value)) : Except (List Complaint) Request :=
  match checkArgv (fields.lookup "argv"), checkEnvironment (fields.lookup "env"),
      checkCapture (fields.lookup "capture_stdout") with
  | .ok (program, arguments), .ok environment, .ok capture =>
    .ok { program, arguments, environment, capture }
  | argv, environment, capture =>
    .error (complaintsOf argv ++ complaintsOf environment ++ complaintsOf capture)

/-- The complaint about an attempt to change a field of a finished request. -/
def changeRefused (field : String) : Complaint := ⟨[field], .frozen⟩

end Request

end Runbook
