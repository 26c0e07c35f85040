import Quorum.Toml.Basic
/-!
# Layers of configuration

A tree laid over another one wins wherever it has a value, and tables are merged key by key. The
sources record, for every dotted path at which a value was supplied, the layer that supplied it.
-/
namespace Quorum

/-- Where a value came from. The order is that of the layers, and a later one is recorded over an
earlier one. -/
inductive Layer
  | defaults
  | file
  | environment
deriving DecidableEq, Repr

namespace Layer

def text : Layer → String
  | defaults => "defaults"
  | file => "config file"
  | environment => "environment variable"

def ofText? (s : String) : Option Layer := [defaults, file, environment].find? (·.text = s)

end Layer

/-- The layer of every recorded path. Paths are texts with the keys joined by dots, so a key with a
dot in it looks like two. -/
abbrev Sources := SortedMap Layer

/-- A path with one more key. The empty path is that of the whole tree and adds no dot. -/
def joinPath (path key : String) : String := if path = "" then key else path ++ "." ++ key

namespace Toml.Value

mutual
/-- `base` with another tree laid over it. -/
def overlay (base : Value) : Value → Value
  | table top =>
    match base with
    | table members => table (overlayMembers members top)
    | _ => table top
  | top => top
def overlayMembers (members : List (String × Value)) :
    List (String × Value) → List (String × Value)
  | [] => members
  | (key, v) :: top =>
    let merged := match members.lookup key with
      | some old => overlay old v
      | none => v
    overlayMembers (putEntry key merged members) top
end

mutual
/-- Records a layer for every value of a tree that is no table. -/
def recordLeaves (layer : Layer) (path : String) (sources : Sources) : Value → Sources
  | table members => recordMembers layer path sources members
  | _ => sources.insert path layer
def recordMembers (layer : Layer) (path : String) (sources : Sources) :
    List (String × Value) → Sources
  | [] => sources
  | (key, v) :: members =>
    recordMembers layer path (recordLeaves layer (joinPath path key) sources v) members
end

mutual
/-- Records a layer where a tree, laid over `base`, decides a value. A table that takes the place of
something else is recorded itself. -/
def recordOverlay (layer : Layer) (path : String) (base : Value) (sources : Sources) :
    Value → Sources
  | table top =>
    match base with
    | table members => recordOverlayMembers layer path members sources top
    | _ => sources.insert path layer
  | _ => sources.insert path layer
def recordOverlayMembers (layer : Layer) (path : String) (members : List (String × Value))
    (sources : Sources) : List (String × Value) → Sources
  | [] => sources
  | (key, v) :: top =>
    let sources := match members.lookup key with
      | some old => recordOverlay layer (joinPath path key) old sources v
      | none => recordLeaves layer (joinPath path key) sources v
    recordOverlayMembers layer path members sources top
end

end Toml.Value

/-- A tree and where its values came from. The two are kept side by side and are changed
together. -/
structure Layered where
  tree : Toml.Value
  sources : Sources := .empty

namespace Layered

/-- A tree all of one layer. The sources have an entry for each of its leaves and none for its
tables. -/
def ofTree (layer : Layer) (path : String) (tree : Toml.Value) : Layered :=
  ⟨tree, tree.recordLeaves layer path .empty⟩

def merge (l : Layered) (layer : Layer) (path : String) (top : Toml.Value) : Layered :=
  ⟨l.tree.overlay top, Toml.Value.recordOverlay layer path l.tree l.sources top⟩

end Layered
end Quorum
