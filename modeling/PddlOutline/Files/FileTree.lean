import PddlOutline.Files.Access

/-!
This module contains trees of files and directories, in which paths are looked up as an operating
system does it: whatever a path goes through has to be a directory. There are no links in a tree,
and nothing in it is kept from being read.
-/

namespace PddlOutline

abbrev Location := List (List UInt8)

inductive Node
  | file (content : List UInt8)
  | directory
deriving Repr, DecidableEq

/--
Files and directories below a root, which is a directory itself, and the directory that relative
paths start from.
-/
structure FileTree where
  nodes : List (Location × Node)
  current : Location
deriving Repr, DecidableEq

namespace FileTree

def node? (t : FileTree) (l : Location) : Option Node :=
  if l = [] then some .directory else t.nodes.lookup l

def addNode (t : FileTree) (l : Location) (node : Node) : FileTree :=
  if (t.node? l).isSome then t else { t with nodes := t.nodes ++ [(l, node)] }

def addDirectories (t : FileTree) (above : Location) : Location → FileTree
  | [] => t
  | name :: names =>
    (t.addNode (above ++ [name]) .directory).addDirectories (above ++ [name]) names

def empty (current : Location) : FileTree :=
  FileTree.addDirectories ⟨[], current⟩ [] current

/--
Where a path leads from the current directory if all that it goes through is there.
-/
def place (t : FileTree) (p : Path) : Location :=
  let names := p.bytes.splitOn Path.slash
  names.foldl step (if p.bytes.head? = some Path.slash then [] else t.current)
where
  step (l : Location) (name : List UInt8) : Location :=
    if Path.isIdle name then l else if Path.isUp name then l.dropLast else l ++ [name]

def addDirectory (t : FileTree) (p : Path) : FileTree :=
  t.addDirectories [] (t.place p)

def addFile (t : FileTree) (p : Path) (content : List UInt8) : FileTree :=
  let l := t.place p
  (t.addDirectories [] l.dropLast).addNode l (.file content)

def walk (t : FileTree) (l : Location) : List (List UInt8) → Except FileError Location
  | [] => .ok l
  | name :: names =>
    match t.node? l with
    | none => .error .notFound
    | some (.file _) => .error .notADirectory
    | some .directory =>
      if Path.isIdle name then
        t.walk l names
      else if Path.isUp name then
        t.walk l.dropLast names
      else if (t.node? (l ++ [name])).isSome then
        t.walk (l ++ [name]) names
      else
        .error .notFound

/--
The location that a path leads to. The empty path leads nowhere.
-/
def locate (t : FileTree) (p : Path) : Except FileError Location :=
  if p.bytes = [] then
    .error .notFound
  else
    t.walk (if p.bytes.head? = some Path.slash then [] else t.current) (p.bytes.splitOn Path.slash)

def reaches (t : FileTree) (p : Path) : Bool :=
  (t.locate p).isOk

def pathTo (l : Location) : Path :=
  Path.ofSegments [Path.slash] l

def resolve (t : FileTree) (p : Path) : Except FileError Path :=
  (t.locate p).map pathTo

def read (t : FileTree) (p : Path) : Except FileError (List UInt8) := do
  match t.node? (← t.locate p) with
  | some (.file content) => return content
  | some .directory => throw .isADirectory
  | none => throw .notFound

def access (t : FileTree) : FileAccess Id :=
  ⟨t.reaches, t.resolve, t.read⟩

end FileTree
end PddlOutline
