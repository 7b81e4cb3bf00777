/-!
# TOML

The values of a TOML document and how its statements build them up.  Only what
the library looks at is kept: a number and a moment in time keep nothing.

A table remembers how it was *opened*, since that settles what may still be said
about it.

* A *header* opens a table once and for all.  A second header for it is an error,
  and dotted keys do not reach into it from outside.
* A table that was only *passed* on the way to another header may still get a
  header of its own.
* A table that *dotted* keys made grows by dotted keys alone.  A header may pass
  through it but not open it.

A table in braces is complete where it stands, and so is a list in brackets.  A
list of tables grows by one table with each of its headers, and a path through it
leads to the newest one.

`alter` walks a path of keys and changes the table at its end.  The three
statements of a document are three changes: `assign`, `openTable`, `appendTable`.
-/

namespace BuildMatrix

/-- How a table was opened. -/
inductive Toml.Opening where
  /-- By its own header. -/
  | header
  /-- By the header of a table inside it. -/
  | passed
  /-- By dotted keys. -/
  | dotted
  deriving DecidableEq

/-- A TOML value. -/
inductive Toml where
  | text (value : String)
  | truth (value : Bool)
  | number
  /-- Some date, time or both. -/
  | moment
  /-- A list in brackets. -/
  | list (items : List Toml)
  /-- A table in braces. -/
  | braced (members : List (String × Toml))
  /-- A table that statements build up. -/
  | table (opening : Toml.Opening) (members : List (String × Toml))
  /-- A list of tables that statements build up: the newest table, and the others, oldest first. -/
  | tables (newest : List (String × Toml)) (others : List (List (String × Toml)))

namespace Toml

/-- Named values, in the order of the text. -/
abbrev Members := List (String × Toml)

def members? : Toml → Option Members
  | .braced members => some members
  | .table _ members => some members
  | _ => none

def items? : Toml → Option (List Toml)
  | .list items => some items
  | .tables newest others => some ((others ++ [newest]).map (.table .header))
  | _ => none

/-! ## Changing a table -/

def put (key : String) (value : Toml) : Members → Members
  | [] => [(key, value)]
  | (k, v) :: rest => if k = key then (key, value) :: rest else (k, v) :: put key value rest

/-- Whether a walk that opens tables in one way may enter a table that was opened in another. -/
def mayEnter (opening found : Opening) : Bool := opening ≠ .dotted ∨ found ≠ .header

/-- Change the table that a path of keys leads to.  Tables that are missing on the way are opened as
`opening` says.  The change is told how the table it gets was opened. -/
def alter (opening : Opening) (change : Opening → Members → Option Members) :
    List String → Opening → Members → Option Members
  | [], found, members => change found members
  | key :: path, _, members =>
      match members.lookup key with
      | none =>
          (alter opening change path opening []).map fun inner =>
            put key (.table opening inner) members
      | some (.table found inner) =>
          if mayEnter opening found then
            (alter opening change path found inner).map fun inner =>
              put key (.table found inner) members
          else none
      | some (.tables newest others) =>
          (alter opening change path .header newest).map fun newest =>
            put key (.tables newest others) members
      | some _ => none

/-! ## Statements -/

/-- A key with the keys on the way to it. -/
structure Key where
  /-- The keys on the way, outermost first. -/
  path : List String
  /-- The key itself. -/
  last : String
  deriving DecidableEq

/-- Give a key in a table a value.  The key must be new.  If there are keys on the way, the table they
lead to must be one that dotted keys made. -/
def assign (key : Key) (value : Toml) (members : Members) : Option Members :=
  alter .dotted
    (fun found members =>
      if (key.path = [] ∨ found = .dotted) ∧ (members.lookup key.last).isNone then
        some (put key.last value members)
      else none)
    key.path .header members

/-- Open a table by its header. -/
def openTable (key : Key) (root : Members) : Option Members :=
  alter .passed
    (fun _ members =>
      match members.lookup key.last with
      | none => some (put key.last (.table .header []) members)
      | some (.table .passed inner) => some (put key.last (.table .header inner) members)
      | some _ => none)
    key.path .header root

/-- Append an empty table to a list of tables by its header. -/
def appendTable (key : Key) (root : Members) : Option Members :=
  alter .passed
    (fun _ members =>
      match members.lookup key.last with
      | none => some (put key.last (.tables [] []) members)
      | some (.tables newest others) =>
          some (put key.last (.tables [] (others ++ [newest])) members)
      | some _ => none)
    key.path .header root

/-- A statement of a document. -/
inductive Statement where
  /-- A key gets a value in the table at hand. -/
  | assign (key : Key) (value : Toml)
  /-- A table is opened and becomes the one at hand. -/
  | openTable (key : Key)
  /-- A list of tables gets one more, which becomes the one at hand. -/
  | appendTable (key : Key)

/-- A document that is being built up. -/
structure Document where
  /-- The members of the outermost table. -/
  root : Members := []
  /-- The keys that lead to the table at hand. -/
  here : List String := []

/-- A document after one more statement, if the statement agrees with those before. -/
def Document.add (d : Document) : Statement → Option Document
  | .assign key value =>
      (alter .passed (fun _ => Toml.assign key value) d.here .header d.root).map
        fun root => { d with root }
  | .openTable key => (Toml.openTable key d.root).map fun root => ⟨root, key.path ++ [key.last]⟩
  | .appendTable key => (Toml.appendTable key d.root).map fun root => ⟨root, key.path ++ [key.last]⟩

/-- What the statements of a document say, if they agree. -/
def ofStatements? (statements : List Statement) : Option Toml :=
  (statements.foldlM Document.add {}).map fun d => .table .header d.root

/-! ## Tests -/

/-- A table may not have two headers. -/
example : (ofStatements? [.openTable ⟨[], "a"⟩, .openTable ⟨[], "a"⟩]).isNone = true := by decide

/-- A table that was passed may still get a header. -/
example : (ofStatements? [.openTable ⟨["a"], "b"⟩, .openTable ⟨[], "a"⟩]).isSome = true := by decide

/-- A table that dotted keys made may not get a header, but a table inside it may. -/
example :
    (ofStatements? [.assign ⟨["a"], "b"⟩ .number, .openTable ⟨[], "a"⟩]).isNone = true ∧
      (ofStatements? [.assign ⟨["a"], "b"⟩ .number, .openTable ⟨["a"], "c"⟩]).isSome = true := by
  decide

/-- A key gets its value once. -/
example : (ofStatements? [.assign ⟨[], "a"⟩ .number, .assign ⟨[], "a"⟩ .number]).isNone = true := by
  decide

end Toml

end BuildMatrix
