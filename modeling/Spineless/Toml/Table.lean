/-!
# TOML tables

A table is defined once: by a header, by an inline table, or piece by piece through dotted keys or
the headers of its subtables. Two flags tell these apart. A table is *implicit* while no header of
its own and no inline table defined it, and it is *dotted* if a dotted key brought it about. Keys
may be added to a table only in the way in which it was defined.
-/

namespace Spineless.Toml

mutual

/-- The value of a key. -/
inductive Item where
  /-- An integer. -/
  | integer (n : Int)
  /-- A string. -/
  | string (s : String)
  /-- A boolean. -/
  | boolean (b : Bool)
  /-- A floating-point number, as it was written. -/
  | float (text : String)
  /-- A date, a time or both, as it was written. -/
  | moment (text : String)
  /-- An array of values. -/
  | array (items : List Item)
  /-- A table written inside a value. -/
  | inline (t : Table)
  /-- A table that headers or dotted keys define. -/
  | table (t : Table)
  /-- An array of tables that headers define, the last one first. -/
  | tables (latest : Table) (earlier : List Table)

/-- A table. -/
inductive Table where
  /-- A table with its entries and the two flags. -/
  | mk (entries : List (String × Item)) (isImplicit isDotted : Bool)

end

namespace Table

/-- The keys with their values. -/
def entries : Table → List (String × Item)
  | .mk entries _ _ => entries

/-- Whether no header of its own and no inline table defined the table. -/
def isImplicit : Table → Bool
  | .mk _ isImplicit _ => isImplicit

/-- Whether a dotted key brought the table about. -/
def isDotted : Table → Bool
  | .mk _ _ isDotted => isDotted

/-- An explicitly defined table without entries. -/
def empty : Table := .mk [] false false

/-- The value of a key. -/
def find? (t : Table) (key : String) : Option Item := t.entries.lookup key

/-- The table with a value for a key, in place of any earlier one. -/
def set (t : Table) (key : String) (item : Item) : Table :=
  .mk ((key, item) :: t.entries.filter (fun entry => entry.1 != key)) t.isImplicit t.isDotted

/-- How a path of keys leads into a table. -/
inductive Route where
  /-- The path of a header. -/
  | header
  /-- The path of a dotted key. -/
  | dotted
  /-- The path of a dotted key in an inline table. -/
  | inline

/-- A table that comes about on a route. -/
def Route.fresh : Route → Table
  | .header => .mk [] true false
  | .dotted | .inline => .mk [] true true

/-- A table as the value of a key on a route. -/
def Route.item : Route → Table → Item
  | .header, t | .dotted, t => .table t
  | .inline, t => .inline t

/-- Changes the table at the end of a path. Tables on the way come about as needed; a dotted key
does not lead into a table that is defined already, and nothing leads into a value that is no
table. -/
def descend (route : Route) (change : Table → Option Table) : List String → Table → Option Table
  | [], t => change t
  | key :: path, t =>
    match t.find? key, route with
    | none, _ => do return t.set key (route.item (← descend route change path route.fresh))
    | some (.table child), .header => do
      return t.set key (.table (← descend route change path child))
    | some (.table child), .dotted => do
      guard child.isImplicit
      return t.set key (.table (← descend route change path child))
    | some (.tables latest earlier), .header | some (.tables latest earlier), .dotted => do
      return t.set key (.tables (← descend route change path latest) earlier)
    | some (.inline child), .inline => do
      guard child.isImplicit
      return t.set key (.inline (← descend route change path child))
    | _, _ => none

/-- Adds a value under a dotted key. The table that receives it must come from a dotted key exactly
if the path is dotted, and must not have the key yet. -/
def insert (route : Route) (path : List String) (key : String) (item : Item) (t : Table) :
    Option Table :=
  descend route (fun target => do
    guard (target.isDotted != path.isEmpty)
    guard (target.find? key).isNone
    return target.set key item) path t

/-- Defines the table of a header. -/
def define (path : List String) (key : String) (t : Table) : Option Table :=
  descend .header (fun parent =>
    match parent.find? key with
    | none => some (parent.set key (.table .empty))
    | some (.table child) =>
      if child.isImplicit && !child.isDotted then
        some (parent.set key (.table (.mk child.entries false false)))
      else none
    | _ => none) path t

/-- Adds a table to the array of a header. -/
def append (path : List String) (key : String) (t : Table) : Option Table :=
  descend .header (fun parent =>
    match parent.find? key with
    | none => some (parent.set key (.tables .empty []))
    | some (.tables latest earlier) => some (parent.set key (.tables .empty (latest :: earlier)))
    | _ => none) path t

end Table

end Spineless.Toml
