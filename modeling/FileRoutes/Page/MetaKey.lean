/-!
# Keys of page metadata

* `MetaKey`: the five keys that are read by name, and the bag of the free-form rest, called `meta`.
* `MetaKey.allowListed?`: the key of a name, `meta` not being one of the five.
* `KeySet`: sets of keys, with `KeySet.contains_insert` and `KeySet.contains_erase`.
-/

namespace FileRoutes

/-- What page metadata is read for. -/
inductive MetaKey where
  | name | path | props | aliases | redirect | bag
  deriving DecidableEq, Repr, Inhabited

namespace MetaKey

/-- The keys that are read by name. -/
def allowList : List MetaKey := [.name, .path, .props, .aliases, .redirect]

/-- All keys. -/
def all : List MetaKey := allowList ++ [.bag]

/-- The name of a key. -/
def label : MetaKey → String
  | .name => "name"
  | .path => "path"
  | .props => "props"
  | .aliases => "alias"
  | .redirect => "redirect"
  | .bag => "meta"

/-- The key of a name. -/
def ofLabel? (label : String) : Option MetaKey := all.find? fun key => key.label == label

/-- The key of a name among those that are read by name. -/
def allowListed? (label : String) : Option MetaKey := allowList.find? fun key => key.label == label

end MetaKey

/-- A set of keys. -/
structure KeySet where
  name : Bool := false
  path : Bool := false
  props : Bool := false
  aliases : Bool := false
  redirect : Bool := false
  bag : Bool := false
  deriving DecidableEq, Repr, Inhabited

namespace KeySet

/-- The set without keys. -/
def empty : KeySet := {}

/-- A key belongs to the set. -/
def contains (set : KeySet) : MetaKey → Bool
  | .name => set.name
  | .path => set.path
  | .props => set.props
  | .aliases => set.aliases
  | .redirect => set.redirect
  | .bag => set.bag

/-- Adds a key or takes it away. -/
def put (set : KeySet) (present : Bool) : MetaKey → KeySet
  | .name => { set with name := present }
  | .path => { set with path := present }
  | .props => { set with props := present }
  | .aliases => { set with aliases := present }
  | .redirect => { set with redirect := present }
  | .bag => { set with bag := present }

/-- Adds a key. -/
def insert (set : KeySet) (key : MetaKey) : KeySet := set.put true key

/-- Takes a key away. -/
def erase (set : KeySet) (key : MetaKey) : KeySet := set.put false key

/-- The keys of the set, in their fixed order. -/
def toList (set : KeySet) : List MetaKey := MetaKey.all.filter set.contains

/-- The set of some keys. -/
def ofList (keys : List MetaKey) : KeySet := keys.foldl insert empty

@[simp] theorem contains_empty (key : MetaKey) : empty.contains key = false := by cases key <;> rfl

@[simp] theorem contains_insert (set : KeySet) (key other : MetaKey) :
    (set.insert key).contains other = (decide (other = key) || set.contains other) := by
  cases key <;> cases other <;> simp [insert, put, contains]

@[simp] theorem contains_erase (set : KeySet) (key other : MetaKey) :
    (set.erase key).contains other = (!decide (other = key) && set.contains other) := by
  cases key <;> cases other <;> simp [erase, put, contains]

end KeySet

end FileRoutes
