import SuiteGate.Config.Document
/-!
# TOML values

The values of TOML (`Toml.Value`) as far as settings can use them.  A table remembers how it came
about: whether it was only mentioned on the way to another one (`implicit`), and whether that was
in a dotted key (`dotted`).  `Toml.descend` goes to a table along a path of keys, making the tables
on the way, and `Toml.insert` puts a value there; both refuse to redefine anything.
-/

namespace SuiteGate.Toml

/-- A value. -/
inductive Value where
  | text (s : String)
  | int (n : Int)
  | bool (b : Bool)
  /-- A date, a time, or a number with a fraction. -/
  | other
  | array (items : List Value)
  /-- A table written as one value; it is closed. -/
  | inline (members : List (String × Value))
  | table (implicit dotted : Bool) (members : List (String × Value))
  /-- An array of tables, the last one first. -/
  | tables (items : List (List (String × Value)))
deriving Inhabited

/-- The members of a table. -/
abbrev Members := List (String × Value)

/-- The members with another value for a key, at the place of the earlier one. -/
def put (key : String) (v : Value) : Members → Members
  | [] => [(key, v)]
  | (k, w) :: ms => if k = key then (k, v) :: ms else (k, w) :: put key v ms

/-- Changes the table at the end of a path of keys.  `change` is given the members of the table
and whether it was made by a dotted key.  The tables on the way are made if they are missing;
those on the way of a dotted key must not have a header of their own. -/
def descend (viaDots : Bool) (change : Bool → Members → Option Members) :
    List String → Bool → Members → Option Members
  | [], dotted, ms => change dotted ms
  | key :: keys, _, ms =>
    match ms.lookup key with
    | none => do
      let inner ← descend viaDots change keys viaDots []
      some (put key (.table true viaDots inner) ms)
    | some (.table implicit dotted inner) =>
      if viaDots && !implicit then none
      else do
        let inner ← descend viaDots change keys dotted inner
        some (put key (.table implicit dotted inner) ms)
    | some (.tables (last :: before)) => do
      let last ← descend viaDots change keys false last
      some (put key (.tables (last :: before)) ms)
    | some _ => none

/-- Puts a value below a dotted key into a table. -/
def insert (path : List String) (key : String) (v : Value) (dotted : Bool) (ms : Members) :
    Option Members :=
  descend true (fun dotted inner =>
    if dotted = path.isEmpty || (inner.lookup key).isSome then none
    else some (inner ++ [(key, v)])) path dotted ms

/-- Opens the table of a header. -/
def openTable (path : List String) (key : String) (ms : Members) : Option Members :=
  descend false (fun _ inner =>
    match inner.lookup key with
    | none => some (inner ++ [(key, .table false false [])])
    | some (.table true false members) => some (put key (.table false false members) inner)
    | some _ => none) path false ms

/-- Opens one more table of an array of tables. -/
def openItem (path : List String) (key : String) (ms : Members) : Option Members :=
  descend false (fun _ inner =>
    match inner.lookup key with
    | none => some (inner ++ [(key, .tables [[]])])
    | some (.tables items) => some (put key (.tables ([] :: items)) inner)
    | some _ => none) path false ms

mutual

/-- A value as a document. -/
def Value.toDocument : Value → Document
  | .text s => .ofText s
  | .int n => .number n
  | .bool b => .bool b
  | .other => .other
  | .array items => .list (toDocuments items) false
  | .inline ms => .table (toMembers ms)
  | .table _ _ ms => .table (toMembers ms)
  | .tables items => .list (toTables items).reverse false

/-- The items of an array as documents. -/
def toDocuments : List Value → List Document
  | [] => []
  | v :: vs => v.toDocument :: toDocuments vs

/-- The members of a table as documents. -/
def toMembers : List (String × Value) → List (Option String × Document)
  | [] => []
  | (k, v) :: ms => (some k, v.toDocument) :: toMembers ms

/-- The tables of an array of tables as documents. -/
def toTables : List (List (String × Value)) → List Document
  | [] => []
  | ms :: rest => .table (toMembers ms) :: toTables rest

end

end SuiteGate.Toml
