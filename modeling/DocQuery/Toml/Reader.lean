import DocQuery.Toml.Calendar
import DocQuery.Toml.Number
import DocQuery.Toml.Tree
import DocQuery.Text.Affix

/-! # Reading TOML

A document is a list of lines: entries of the current table, and headers that start another table.

* `value`: a value.
* `Draft`: the tables that have been read.
* `parse`: the table of a whole text.
-/

set_option autoImplicit false

namespace DocQuery.Toml

open DocQuery.Toml.Parser

/-- Puts the cause of a refusal into the form of a failure. -/
def refusal {α : Type} : Except Cause α → Except Blame α
  | .ok a => .ok a
  | .error cause => .error (.because cause)

/-! ## Values -/

/-- An array. Line breaks and comments may stand anywhere between its items, and a comma after the
last one. -/
def array (item : Parser Value) : Parser (List (Span × Value)) := do
  char '['
  let items ← commit do
    let items ← sepBy (do gap; let v ← spanned item; gap; return v) (char ',')
    if !items.isEmpty then
      let _ ← opt (char ',')
    gap
    return items
  commit (expecting "`]`" (within "array" (char ']')))
  return items

/-- An entry as it is written: the parts of the key in front of the last one, the last one, the
place of the value and the value. -/
structure Assignment where
  path : List Key
  key : Key
  span : Span
  value : Value

/-- A key with its value, after which `close` reads the end of the entry. -/
def assignment (item : Parser Value) (close : Parser Unit) : Parser Assignment := do
  let parts ← key
  commit do
    expecting "`=`" (expecting "`.`" (char '='))
    blanks
    let (span, v) ← spanned item
    close
    match parts.getLast? with
    | some last => return ⟨parts.dropLast, last, span, v⟩
    | none => fail

/-- An inline table, which stands on one line. -/
def inlineTable (item : Parser Value) : Parser Node.Entries := do
  char '\x7b'
  let inside : Parser (List Assignment) := do
    let as ← sepBy (assignment item blanks) (char ',')
    blanks
    return as
  let entries ← commit (checked inside fun as => refusal
    (as.foldlM (fun es a => Node.put .braces a.path a.key a.span a.value es) []))
  commit (expecting "`\x7d`" (within "inline table" (char '\x7d')))
  return entries

/-- What is said where a value should start. -/
def noValue {α : Type} (p : Parser α) : Parser α :=
  expecting "`'`" (expecting "`\"`" (within "string" p))

/-- A value that is given by its name. -/
def named (name : String) (v : Value) : Parser Value := do word name; return v

/-- A value inside at most `depth` more arrays and inline tables. -/
def value (depth : Nat) : Parser Value := do
  match ← next with
  | none => fail
  | some c =>
    if c == '"' || c == '\'' then return .string (← string)
    else if c == '[' || c == '\x7b' then
      match depth with
      | 0 => refuse (.because .tooDeep)
      | depth + 1 =>
        if c == '[' then return .array (← array (value depth))
        else return .table (Node.entriesToValues (← inlineTable (value depth)))
    -- Dates and floating-point numbers start like integers.
    else if c == '+' || c == '-' || c.isDigit then
      (do return .datetime (← datetime)) <|> (do return .float (← float)) <|>
        (do return .integer (← integer))
    else if c == '_' then expecting "leading digit" (do return .integer (← integer))
    else if c == '.' then expecting "leading digit" (do return .float (← float))
    else if c == 't' then noValue (commit (named "true" (.boolean true)))
    else if c == 'f' then noValue (commit (named "false" (.boolean false)))
    else if c == 'i' then noValue (named "inf" (.float (1.0 / 0.0)))
    else if c == 'n' then noValue (named "nan" (.float (0.0 / 0.0)))
    else noValue fail

/-! ## Documents -/

/-- The tables that have been read: those that are complete, and the current one with its path and
its place. -/
structure Draft where
  root : Node.Entries
  current : Node.Entries
  path : List Key
  /-- From the header of the current table to the end of its last value. -/
  span : Span
  /-- Whether the current table is an item of a list of tables. -/
  listed : Bool

namespace Draft

def empty : Draft := ⟨[], [], [], ⟨0, 0⟩, false⟩

/-- The report of a header whose last key is there already. -/
def taken {α : Type} (path : List Key) (key : Key) : Except Cause α :=
  .error (.duplicateIn (path.dropLast.map (·.name)) key.text)

/-- Completes the current table. -/
def close (d : Draft) : Except Cause Node.Entries :=
  match d.path.getLast? with
  | none => .ok d.current
  | some key => do
    let enter (_ : Bool) (entries : Node.Entries) : Except Cause (Node.Entries × Unit) :=
      match d.listed, Node.find? key entries with
      | true, none => .ok (Node.set key (.tables [(d.span, d.current)]) entries, ())
      | true, some (.tables items) =>
        .ok (Node.set key (.tables (items ++ [(d.span, d.current)])) entries, ())
      | false, none => .ok (Node.set key (.table (some d.span) false false d.current) entries, ())
      | _, _ => taken d.path key
    return (← Node.update .header enter [] d.path.dropLast false d.root).1

/-- Starts a table under a header. A table that other headers made on their way may be taken up. -/
def openTable (d : Draft) (span : Span) (path : List Key) (key : Key) : Except Cause Draft := do
  let root ← d.close
  let take (_ : Bool) (entries : Node.Entries) : Except Cause (Node.Entries × Node.Entries) :=
    match Node.find? key entries with
    | none => .ok (entries, [])
    | some (.table _ true false inner) => .ok (Node.erase key entries, inner)
    | some _ => taken path key
  let (root', current) ← Node.update .header take [] path.dropLast false root
  return ⟨root', current, path, span, false⟩

/-- Starts the next table of a list. -/
def openItem (d : Draft) (span : Span) (path : List Key) (key : Key) : Except Cause Draft := do
  let root ← d.close
  let check (_ : Bool) (entries : Node.Entries) : Except Cause (Node.Entries × Unit) :=
    match Node.find? key entries with
    | none => .ok (entries, ())
    | some (.tables _) => .ok (entries, ())
    | some _ => taken path key
  let (root', _) ← Node.update .header check [] path.dropLast false root
  return ⟨root', [], path, span, true⟩

/-- Takes up an entry of the current table. -/
def add (d : Draft) (a : Assignment) : Except Cause Draft := do
  let current ← Node.put (.entry (d.path.map (·.name))) a.path a.key a.span a.value d.current
  return { d with current, span := ⟨d.span.start, a.span.stop⟩ }

end Draft

/-- The end of a line behind an entry or a header. -/
def closingLine : Parser Unit := expecting "`#`" (expecting "newline" lineEnd)

/-- A header between brackets: its place and its path. -/
def header (opening closing : String) : Parser (Span × List Key) := do
  let h ← spanned do
    word opening
    let path ← commit key
    commit (expecting ("`" ++ closing ++ "`") (expecting "`.`" (word closing)))
    return path
  commit closingLine
  return h

/-- A line with a header. -/
def headerLine (d : Draft) : Parser Draft :=
  let opened (listed : Bool) (h : Span × List Key) : Except Blame Draft :=
    match h.2.getLast? with
    | some key => refusal (if listed then d.openItem h.1 h.2 key else d.openTable h.1 h.2 key)
    | none => .error .silent
  within "table header" do
    let _ ← ahead (exactly 2 fun _ => true)
    match ← opt (ahead (word "[[")) with
    | some _ => checked (header "[[" "]]") (opened true)
    | none => checked (header "[" "]") (opened false)

/-- A line that starts with the character `c`. -/
def line (c : Char) (d : Draft) : Parser Draft :=
  if c == '#' then commit (do comment; lineClose; return d)
  else if c == '[' then commit (headerLine d)
  else if c == '\n' || c == '\r' then (do lineBreak; return d) <|> fail
  else commit (checked (assignment (value nestingLimit) closingLine) fun a => refusal (d.add a))

/-- The lines of a document, at most `fuel` of them. -/
def lines : Nat → Draft → Parser Draft
  | 0, d => pure d
  | fuel + 1, d => do
    blanks
    match ← next with
    | none => return d
    | some c => lines fuel (← line c d)

/-- The entries of the table that a text describes. -/
def parse (text : String) : Except Fault (List (String × Span × Value)) :=
  -- A byte order mark in front of the text is no part of it.
  let s := (Text.after? [Char.ofNat 0xfeff] text.toList).getD text.toList
  match lines (s.length + 1) .empty s with
  | .error _ place blame => .error (.ahead place blame)
  | .ok d _ =>
    match d.close with
    | .ok root => .ok (Node.entriesToValues root)
    | .error cause => .error (.ahead [] (.because cause))

end DocQuery.Toml
