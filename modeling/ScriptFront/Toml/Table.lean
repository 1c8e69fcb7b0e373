import ScriptFront.Toml.Basic

/-!
# TOML: tables

Builds the table that statements describe. Headers and dotted keys make the tables on their way
as they need them; such a table is **implied** until a header or a binding of its own defines it,
which may happen once. A key that holds an array may be bound again, and the later value stands.

A builder keeps the keys in the order in which they are written: a reader of the table can then say
which key of the text it did not use.
-/

namespace ScriptFront.Toml

open Text

/-- What stands under a key. -/
inductive Node where
  | scalar (s : Scalar)
  | array (items : List Node)
  | table (entries : List (Bytes × Node))
  /-- A list of tables. Only the newest element is open to further entries. -/
  | tables (newest : List (Bytes × Node)) (older : List (List (Bytes × Node)))

/-- The entries of a table, in the order of their first appearance. -/
abbrev Entries := List (Bytes × Node)

namespace Entries

/-- The entries with `node` under `key`, in place of what was there. -/
def put (key : Bytes) (node : Node) : Entries → Entries
  | [] => [(key, node)]
  | (k, n) :: rest => if k = key then (key, node) :: rest else (k, n) :: put key node rest

/-- Changes the entries that a path leads to. Every part of the path has to be a table, or a list
of tables, of which the newest counts. -/
def modifyAt (change : Entries → Option Entries) : Key → Entries → Option Entries
  | [], entries => change entries
  | part :: path, entries =>
    match entries.lookup part with
    | some (.table inner) =>
      (modifyAt change path inner).map fun inner => put part (.table inner) entries
    | some (.tables newest older) =>
      (modifyAt change path newest).map fun newest => put part (.tables newest older) entries
    | _ => none

/-- The entries that a path leads to. -/
def at? : Key → Entries → Option Entries
  | [], entries => some entries
  | part :: path, entries =>
    match entries.lookup part with
    | some (.table inner) => at? path inner
    | some (.tables newest _) => at? path newest
    | _ => none

/-- Puts a node under the last part of a key, with tables made for the other parts. -/
def putAt (last : Bytes) (node : Node) : Key → Entries → Option Entries
  | [], entries => some (put last node entries)
  | part :: path, entries =>
    match entries.lookup part with
    | none => (putAt last node path []).map fun inner => put part (.table inner) entries
    | some (.table inner) =>
      (putAt last node path inner).map fun inner => put part (.table inner) entries
    | some _ => none

end Entries

/-- A table under construction. -/
structure Builder where
  root : Entries := []
  /-- The key of the table that bindings go to. -/
  current : Key := []
  /-- Tables that were made on the way to others. -/
  implied : List Key := []
  /-- Keys that were last bound to an array. -/
  arrays : List Key := []
  /-- Every key that is written, the latest first. -/
  written : List Key := []

namespace Builder

/-- Marks a table as implied. -/
def imply (b : Builder) (key : Key) : Builder :=
  { b with implied := key :: b.implied }

/-- The key is no longer implied. -/
def define (b : Builder) (key : Key) : Builder :=
  { b with implied := b.implied.filter (· ≠ key) }

/-- Notes a key as written. -/
def note (b : Builder) (key : Key) : Builder :=
  { b with written := key :: b.written }

/-- Remembers whether the value under a key is an array. -/
def mark (b : Builder) (key : Key) (isArray : Bool) : Builder :=
  let others := b.arrays.filter (· ≠ key)
  { b with arrays := if isArray then key :: others else others }

/-- The key that a mark for a part of the current table is kept under. A part without a name
shares the mark of its table. -/
def markKey (b : Builder) (part : Bytes) : Key :=
  if part = [] then if b.current = [] then [[]] else b.current else b.current ++ [part]

/-- **Binds** a part in the current table. A part that is bound already may be bound again only if
it holds an array; if it is an implied table, that table stays and is defined from now on. -/
def bind? (b : Builder) (part : Bytes) (node : Node) : Option Builder := do
  let key := b.current ++ [part]
  let entries ← b.root.at? b.current
  let fresh : Option Builder := do
    let root ← b.root.modifyAt (fun es => some (es.put part node)) b.current
    return { b with root }
  match entries.lookup part with
  | none => fresh
  | some _ =>
    if b.arrays.contains key then (← fresh).define key
    else if b.implied.contains key then b.define key
    else none

/-- Adds an empty table to the list of tables under a part of the current table. -/
def extend? (b : Builder) (part : Bytes) : Option Builder := do
  let root ← b.root.modifyAt (fun es =>
    match es.lookup part with
    | none => some (es.put part (.tables [] []))
    | some (.tables newest older) => some (es.put part (.tables [] (newest :: older)))
    | some _ => none) b.current
  return { b with root }

/-- Makes the table at a key if it is not there. -/
def pass? (b : Builder) (key : Key) : Option Builder := do
  match key.getLast? with
  | none => b
  | some part =>
    let entries ← b.root.at? key.dropLast
    match entries.lookup part with
    | none =>
      let root ← b.root.modifyAt (fun es => some (es.put part (.table []))) key.dropLast
      return { b with root }.imply key
    | some (.table _) | some (.tables ..) => return b
    | some _ => none

/-- Makes every table above a key. -/
def approach? (b : Builder) (key : Key) : Option Builder := do
  let b ← ((List.range (key.length - 1)).map fun n => key.take (n + 1)).foldlM pass? b
  return { b with current := key.dropLast }

/-- **Opens the table** at a key, or a new element of the list of tables there. -/
def open? (b : Builder) (key : Key) (element : Bool) : Option Builder := do
  let b ← b.approach? key
  let part := key.getLast?.getD []
  let b ← if element then b.extend? part else b.bind? part (.table [])
  return { b with current := key }

/-- Opens the table of a dotted key: each part but the last leads one table further. -/
def descend? (b : Builder) (path : Key) : Option Builder :=
  path.foldlM (fun b part =>
    let key := b.current ++ [part]
    (b.imply key).open? key false) b

mutual

/-- The node of the value under a part of the current table. Inline tables are built in place. -/
def value? (b : Builder) (part : Bytes) (inArray : Bool) : Value → Option (Node × Builder)
  | .scalar s => some (.scalar s, b)
  | .array items => do
    let (nodes, b) ← items? (b.mark (b.markKey part) true) part items
    return (.array nodes, b)
  | .inlineTable bindings => do
    let key := b.current ++ [part]
    let inside ← (b.imply key).open? key inArray
    let (entries, inside) ← bindings? inside [] bindings
    return (.table entries, { inside with current := b.current })

/-- The nodes of the items of an array. -/
def items? (b : Builder) (part : Bytes) : List Value → Option (List Node × Builder)
  | [] => some ([], b)
  | item :: items => do
    let (node, b) ← value? b part true item
    let (nodes, b) ← items? b part items
    return (node :: nodes, b)

/-- Binds the entries of an inline table, and collects them. -/
def bindings? (b : Builder) (collected : Entries) :
    List (Key × Value) → Option (Entries × Builder)
  | [] => some (collected, b)
  | (key, value) :: bindings => do
    let part := key.getLast?.getD []
    let inside ← b.descend? key.dropLast
    let (node, inside) ← value? (inside.note (inside.current ++ [part])) part false value
    let inside ← inside.bind? part node
    let inside := inside.mark (inside.markKey part) value.isArray
    let collected ← collected.putAt part node key.dropLast
    bindings? { inside with current := b.current } collected bindings

end

/-- Carries out a statement. -/
def statement? (b : Builder) : Statement → Option Builder
  | .table key => do
    let b ← b.open? key false
    return (b.mark key false).note key
  | .element key => do
    let b ← b.open? key true
    return (b.mark key false).note key
  | .binding key value => do
    let (_, b) ← b.bindings? [] [(key, value)]
    return b

/-- The builder after all statements; none if two of them cannot stand together. -/
def ofStatements? (statements : List Statement) : Option Builder :=
  statements.foldlM statement? {}

end Builder

/-- A **table with the keys of its text**, in the order in which they are written. -/
structure Table where
  entries : Entries
  keys : List Key

/-- The table that statements describe. -/
def Table.ofStatements? (statements : List Statement) : Option Table :=
  (Builder.ofStatements? statements).map fun b => ⟨b.root, b.written.reverse⟩

end ScriptFront.Toml
