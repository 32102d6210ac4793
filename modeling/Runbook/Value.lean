import Runbook.Text.Literal

/-!
# Values in a diagnostic

What the context of a diagnostic, or a request from outside, may hold: texts, whole numbers, truth
values, nothing, byte strings, and lists, tuples and dictionaries of values. Every value has a
one-line written form. A dictionary is its list of entries in order; entries whose keys are the same
are merged when it is built, the first place and the last value winning.

There are no fractional numbers, and a whole number can be written however many digits it has.
-/

namespace Runbook

/-- A value of a diagnostic. -/
inductive Value where
  /-- A text. -/
  | text (s : String)
  /-- A whole number of any size. -/
  | int (n : Int)
  /-- A truth value. -/
  | truth (b : Bool)
  /-- The absence of a value. -/
  | null
  /-- A byte string. -/
  | bytes (bs : List UInt8)
  /-- A list. -/
  | list (items : List Value)
  /-- A tuple, which differs from a list in its written form only. -/
  | tuple (items : List Value)
  /-- A dictionary, as its entries in order. -/
  | dict (entries : List (Value × Value))
deriving BEq, Repr

namespace Value

mutual

/-- The written form of a value. -/
def render : Value → List Char
  | .text s => Text.literal s.toList
  | .int n => (toString n).toList
  | .truth b => (if b then "True" else "False").toList
  | .null => "None".toList
  | .bytes bs => Text.byteLiteral bs
  | .list items => '[' :: renderItems items ++ [']']
  | .tuple items => '(' :: renderItems items ++ (if items.length = 1 then [',', ')'] else [')'])
  | .dict entries => '{' :: renderEntries entries ++ ['}']
termination_by structural v => v

/-- Values with a comma and a space between neighbours. -/
def renderItems : List Value → List Char
  | [] => []
  | [v] => v.render
  | v :: w :: vs => v.render ++ ',' :: ' ' :: renderItems (w :: vs)
termination_by structural vs => vs

/-- Entries with a comma and a space between neighbours. -/
def renderEntries : List (Value × Value) → List Char
  | [] => []
  | [e] => renderEntry e
  | e :: f :: es => renderEntry e ++ ',' :: ' ' :: renderEntries (f :: es)
termination_by structural es => es

/-- A key and its value, with a colon and a space between them. -/
def renderEntry : Value × Value → List Char
  | (key, v) => key.render ++ ':' :: ' ' :: v.render
termination_by structural e => e

end

mutual

/-- The value as a key: truth values are the numbers one and zero. -/
def asKey : Value → Value
  | .truth b => .int (if b then 1 else 0)
  | .tuple items => .tuple (asKeys items)
  | v => v
termination_by structural v => v

def asKeys : List Value → List Value
  | [] => []
  | v :: vs => v.asKey :: asKeys vs
termination_by structural vs => vs

end

/-- Adds an entry, or gives the entry with the same key a new value in its old place. -/
def putEntry (key v : Value) : List (Value × Value) → List (Value × Value)
  | [] => [(key, v)]
  | (k, w) :: rest =>
    if k.asKey == key.asKey then (k, v) :: rest else (k, w) :: putEntry key v rest

/-- The dictionary that the assignments leave behind, one after another. -/
def ofEntries (entries : List (Value × Value)) : Value :=
  .dict (entries.foldl (fun d e ↦ putEntry e.1 e.2 d) [])

end Value

end Runbook
