import TokenStream.RunError
import TokenStream.Text.Utf8

/-!
# Files

What a run can read: files by their paths, and one stream of input.

**Paths** the names between slashes lead from directory to directory; an empty name and a
single dot stay where they are, two dots go up. A path that leads through something that is not
a directory is not the same as one whose end is missing.

**Limits** a path has fewer than 4096 bytes and none of them is zero; this is looked at before
anything else. A name has at most 255 bytes; this is looked at when the path has led to it.

**Trees** a tree of files is given by the paths of its files and directories. Nothing is known of
what lies outside of it, except that the directory it stands in is a directory.
-/

namespace TokenStream

structure World where
  readFile : List Char → Except AccessCause ByteArray
  stdin : ByteArray

def Text.decode (bytes : ByteArray) : Except AccessCause (List Char) :=
  match String.fromUTF8? bytes with
  | some s => .ok s.toList
  | none => .error .notText

def World.readText (world : World) (path : List Char) : Except AccessCause (List Char) :=
  match world.readFile path with
  | .ok bytes => Text.decode bytes
  | .error cause => .error cause

namespace Path

/-- The names in a path, some of which may be empty. -/
def names : List Char → List (List Char)
  | [] => [[]]
  | c :: cs =>
    if c = '/' then [] :: names cs
    else match names cs with
      | [] => [[c]]
      | name :: rest => (c :: name) :: rest

/-- The name stays where it is. -/
def isHere (name : List Char) : Bool := name = [] || name = ['.']

/-- The path is a dash, however it is closed. -/
def isDash (path : List Char) : Bool :=
  match names path with
  | [] => false
  | name :: rest => name = ['-'] && rest.all isHere

def maxBytes : Nat := 4095

def maxNameBytes : Nat := 255

/-- What is wrong with a path, wherever it leads. -/
def flaw? (path : List Char) : Option AccessCause :=
  if path.contains '\x00' then some .zeroInName
  else if maxBytes < Text.byteLength path then some .nameTooLong
  else if path.isEmpty then some .notFound
  else none

end Path

inductive Entry where
  | file (bytes : ByteArray)
  | directory

/-- A tree of files: the names on the way to each entry, and the entry. -/
structure Tree where
  entries : List (List (List Char) × Entry)

namespace Tree

/-- Where a path has led to. -/
inductive Place where
  /-- Inside the tree, by the names on the way. -/
  | inside (names : List (List Char))
  /-- A directory outside of the tree. -/
  | outside
deriving DecidableEq, Repr

/-- What stands at a place in the tree. Whatever lies on the way to an entry is a directory. -/
def entryAt? (tree : Tree) (names : List (List Char)) : Option Entry :=
  match tree.entries.find? fun entry => entry.1 = names with
  | some entry => some entry.2
  | none =>
    if names.isEmpty || tree.entries.any fun entry => names.isPrefixOf entry.1 then
      some .directory
    else none

def at? (tree : Tree) : Place → Option Entry
  | .inside names => tree.entryAt? names
  | .outside => some .directory

def Place.parent : Place → Place
  | inside [] => outside
  | inside names => inside names.dropLast
  | outside => outside

/-- The place below with a name, if it is inside the tree. -/
def Place.child? : Place → List Char → Option Place
  | inside names, name => some (inside (names ++ [name]))
  | outside, _ => none

/-- Follows the names of a path. -/
def walk (tree : Tree) (here : Place) (path : List (List Char)) : Except AccessCause ByteArray :=
  match path, tree.at? here with
  | _, none => .error .notFound
  | [], some (.file bytes) => .ok bytes
  | [], some .directory => .error .isDirectory
  | _ :: _, some (.file _) => .error .notDirectory
  | name :: rest, some .directory =>
    if Path.isHere name then tree.walk here rest
    else if name = ['.', '.'] then tree.walk here.parent rest
    else if Path.maxNameBytes < Text.byteLength name then .error .nameTooLong
    else match here.child? name with
      | some below => tree.walk below rest
      | none => .error .notFound

def readFile (tree : Tree) (path : List Char) : Except AccessCause ByteArray :=
  match Path.flaw? path with
  | some cause => .error cause
  | none =>
    if path.head? = some '/' then tree.walk .outside (Path.names path)
    else tree.walk (.inside []) (Path.names path)

/-- The tree with these files and directories; the path of a directory ends in a slash. -/
def ofList (files : List (List Char × ByteArray)) : Tree where
  entries := files.map fun file =>
    let names := (Path.names file.1).filter fun name => !Path.isHere name
    if file.1.getLast? = some '/' then (names, .directory) else (names, .file file.2)

/-- A run in the directory of a tree. -/
def world (tree : Tree) (stdin : ByteArray) : World := ⟨tree.readFile, stdin⟩

end Tree
end TokenStream
