import Grove.Workspace.Basic

/-!
# Commands

A command works on what names stand for: nodes, owners of trees, registries and settings. Its answer
is told in full, never by reference, so answers outlive what they were read from.
-/
namespace Grove.Session

/-- What a new owner owns. -/
inductive Holding where
  | emptyLevel
  | document (d : Document)
  /-- A node that is there already. -/
  | existing (name : Text)

inductive ConfigChoice where
  /-- The shared ones, for want of others. -/
  | unspecified
  | own (config : StorageConfig)
  | named (name : Text)

inductive Look where
  | length
  | truth
  | description
  | members

inductive View where
  | dump
  | plain (integral : Bool)

inductive Detail where
  | keys
  | items
  | walk

inductive Question where
  | subtree
  | listSize
  | hasKey
  | scalar (kind : Kind) (default : Value)
  | lookup (kind : Option Kind)
  /-- The parent and the last segment of a place for writing. -/
  | place

inductive Use where
  | register (b : Backend) (replace : Bool)
  | unregister (name : Text)
  | names
  | get (name : Text)
  | has (name : Text)
  | selectForPath (storage : Text)
  | selectForString (text : Text)
  | createEmpty
  | loadString (v : Value) (choice : BackendChoice)
  | loadStorage (storage : Text) (choice : BackendChoice)
  | listEntries (storage : Text)
  | serialize (data : Option Text) (choice : BackendChoice)
  | settings

/-- A use of one backend with settings of its own. -/
inductive Probe where
  | locate
  | parse
  | list

inductive Command where
  | makeNode (d : Document)
  | makeOwner (holding : Holding) (registry : Option Text)
  | makeConfig (config : StorageConfig)
  /-- Names the shared settings. -/
  | sharedConfig
  | makeRegistry (backends : List Backend) (config : ConfigChoice) (strict : Bool)
  | addFile (place : Location) (e : Entry)
  | look (on : Text) (what : Look)
  | view (on : Text) (what : View)
  | detail (on : Text) (what : Detail)
  | child (on : Text) (segment : Value)
  | ask (on : Text) (q : Question) (address : Address) (args : List Value)
  /-- Puts an empty container, and answers with it. -/
  | add (on : Text) (address : Address) (content : Content)
  /-- Puts content, and answers whether there was a slot for it. -/
  | set (on : Text) (address : Address) (content : Content)
  /-- Puts a value, and fails if there is no slot for it. -/
  | assign (on : Text) (address : Address) (d : Document)
  | clear (on : Text)
  | item (on : Text) (address : Address)
  | root (on : Text)
  | isLoaded (on : Text)
  | unload (on : Text)
  /-- Unloads, and answers whether there was anything to unload. -/
  | release (on : Text)
  /-- Unloads if a name is given. -/
  | discard (on : Option Text)
  | identical (on other : Text)
  | write (on : Text) (choice : BackendChoice)
  /-- Uses a registry, the shared one if none is named. -/
  | use (on : Option Text) (what : Use)
  | probe (b : Backend) (config : StorageConfig) (storage : Text) (what : Probe)
  /-- Makes storage paths start elsewhere by settings with a name. -/
  | rebase (on : Text) (base : Location)
  /-- Makes storage paths start elsewhere by the shared settings. -/
  | setBase (base : Location)
  | base
  /-- A command whose parameters make no sense, and why. -/
  | refuse (on : Option Text) (writes : Bool) (e : Error)

inductive Answer where
  | nothing
  | boolean (b : Bool)
  | count (n : Nat)
  | text (s : Text)
  | texts (names : List Text)
  | value (v : Value)
  | node (t : Tree)
  /-- The tree of an owner, if it is loaded. -/
  | owned (t : Option Tree)
  | place (parent : Tree) (segment : Segment)
  | keys (keys : List Segment)
  | items (items : List (Segment × Tree))
  | walk (nodes : List (Text × Kind × Value))
  | found (t : Tree) (payload : Value)
  | failed (kind : ErrorKind) (message : Text)
  | settings (config : StorageConfig)

inductive Refusal where
  /-- A name stands for nothing that the command can work on. -/
  | unbound (name : Text)
  | error (e : Error)

/-- How a command ended, with what its receiver holds afterwards if the command writes. -/
structure Report where
  outcome : Except Refusal Answer
  state : Option Answer

end Grove.Session
