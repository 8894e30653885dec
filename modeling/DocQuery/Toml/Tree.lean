import DocQuery.Toml.Token

/-! # Tables under construction

While a document is read, a table remembers how it came to be: by a header, as a step on the way to
another table, or by a key with points. That decides whether it may still be extended.

* `Node`: a value, a table or a list of tables.
* `Node.update`: a change to the table at the end of a path, with the tables on the way made.
* `Node.put`: the entry of a key with a value.
-/

set_option autoImplicit false

namespace DocQuery.Toml

/-- An entry of a table under construction. -/
inductive Node where
  | value (span : Span) (v : Value)
  /-- A table. It is `implicit` if no header names it, and `dotted` if keys with points made it.
  Only a table with a header has a place. -/
  | table (span : Option Span) (implicit dotted : Bool) (entries : List (Key × Node))
  /-- The tables of a list, each under a header of its own. -/
  | tables (items : List (Span × List (Key × Node)))

/-- The entries of a table. The place of an entry is in its key. -/
abbrev Node.Entries : Type := List (Key × Node)

/-- What asks for a table at the end of a path: a header, a key with points under the header of
`table`, or such a key between braces. -/
inductive Asker where
  | header
  | entry (table : List String)
  | braces
deriving DecidableEq, Repr

/-- What is said of a key that is there already. -/
def Asker.taken (asker : Asker) (key : String) : Cause :=
  match asker with
  | entry table => .duplicateIn table key
  | _ => .duplicate key

/-- What is said of a value on the way, where there should be a table. A table with braces of its
own is complete; between braces that is said of its key, and elsewhere it is one more type of
value. -/
def Asker.blocked (asker : Asker) (path : List String) (key : String) (v : Value) : Cause :=
  match asker, v with
  | braces, .table _ => .duplicate key
  | _, _ => .notTable path v.typeName

namespace Node

def find? (key : Key) : Entries → Option Node
  | [] => none
  | (k, n) :: rest => if k.name = key.name then some n else find? key rest

/-- Sets the entry of a key, in its place or at the end. -/
def set (key : Key) (node : Node) : Entries → Entries
  | [] => [(key, node)]
  | (k, n) :: rest => if k.name = key.name then (k, node) :: rest else (k, n) :: set key node rest

def erase (key : Key) (entries : Entries) : Entries := entries.filter (·.1.name != key.name)

/-- Changes the table at the end of a path by `f`, which is told whether keys with points made it.
Tables on the way that are not there are made. A key with points goes only through tables that no
header names. `done` is the path up to here, for reports. -/
def update {β : Type} (asker : Asker) (f : Bool → Entries → Except Cause (Entries × β)) :
    List String → List Key → Bool → Entries → Except Cause (Entries × β)
  | _, [], dotted, entries => f dotted entries
  | done, key :: rest, _, entries =>
    let byKey := asker != .header
    let done' := done ++ [key.name]
    match find? key entries with
    | none => do
      let (inner, b) ← update asker f done' rest byKey []
      return (set key (.table none true byKey inner) entries, b)
    | some (.value _ v) => .error (asker.blocked done' key.name v)
    | some (.table span implicit dotted inner) =>
      if byKey && !implicit then .error (.duplicate key.name)
      else do
        let (inner', b) ← update asker f done' rest dotted inner
        return (set key (.table span implicit dotted inner') entries, b)
    | some (.tables items) =>
      match items.getLast? with
      | some (span, last) => do
        let (last', b) ← update asker f done' rest false last
        return (set key (.tables (items.dropLast ++ [(span, last')])) entries, b)
      | none => .error (.duplicate key.name)

/-- Enters a value under a key with points into a table. Keys with points extend only tables that
such keys made. -/
def put (asker : Asker) (path : List Key) (key : Key) (span : Span) (v : Value)
    (entries : Entries) : Except Cause Entries := do
  let enter (dotted : Bool) (inner : Entries) : Except Cause (Entries × Unit) :=
    -- Without a path it is not `dotted`; refused is a path to a table that no such keys made.
    if dotted == path.isEmpty then .error (.duplicate key.name)
    else match find? key inner with
      | some _ => .error (asker.taken key.name)
      | none => .ok (inner ++ [(key, .value span v)], ())
  return (← update asker enter [] path false entries).1

/-! ## Values -/

/-- The place of a list of tables: from the first to the last one. -/
def itemsSpan? {α : Type} (items : List (Span × α)) : Option Span :=
  match items.head?, items.getLast? with
  | some first, some last => some ⟨first.1.start, last.1.stop⟩
  | _, _ => none

mutual

/-- The value of a node, with its place if it has one. -/
def toValue : Node → Option Span × Value
  | value span v => (some span, v)
  | table span _ _ entries => (span, .table (entriesToValues entries))
  | tables items => (itemsSpan? items, .array (itemsToValues items))
termination_by structural n => n

/-- The values of the entries of a table. -/
def entriesToValues : List (Key × Node) → List (String × Span × Value)
  | [] => []
  | (k, n) :: rest =>
    let (span, v) := toValue n
    (k.name, span.getD k.span, v) :: entriesToValues rest
termination_by structural es => es

/-- The values of a list of tables. -/
def itemsToValues : List (Span × List (Key × Node)) → List (Span × Value)
  | [] => []
  | (span, entries) :: rest => (span, .table (entriesToValues entries)) :: itemsToValues rest
termination_by structural is => is

end

end Node

end DocQuery.Toml
