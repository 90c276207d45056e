import SmallLisp.Fault
import SmallLisp.Text.Newline
import SmallLisp.Text.Pieces

/-! # Files

A file tree holds the files below the working directory. Paths are normalised in writing only:
empty and `.` segments disappear, while `..` is followed step by step and needs a directory.

The tree is one of a system that takes every name. A system that refuses a name for its length or
its characters, or keeps a directory from being looked into, fails where this tree has no such file;
asking whether a path is a directory then has no answer on some systems, and here it always has one.
-/
namespace SmallLisp

structure Path where
  /-- The slashes at the front: none, one or exactly two. -/
  root : String
  segments : List String
deriving DecidableEq, Repr

namespace Path

/-- The path a text denotes. Two slashes at the front stay two; three or more count as one. -/
def ofText (text : String) : Path :=
  let slashes := text.toList.takeWhile (· = '/')
  let root := if slashes.length = 2 then "//" else if slashes.isEmpty then "" else "/"
  let segments := (Text.pieces '/' text.toList).map String.ofList
  ⟨root, segments.filter fun segment => segment ≠ "" && segment ≠ "."⟩

def text (path : Path) : String :=
  if path.root.isEmpty && path.segments.isEmpty then "."
  else path.root ++ "/".intercalate path.segments

def child (path : Path) (name : String) : Path := { path with segments := path.segments ++ [name] }

end Path

structure FileTree where
  files : List (List String × List UInt8)

namespace FileTree

def empty : FileTree := ⟨[]⟩

def file? (tree : FileTree) (segments : List String) : Option (List UInt8) :=
  tree.files.lookup segments

/-- Whether a directory has these segments: some file lies below it. -/
def hasDirectory (tree : FileTree) (segments : List String) : Bool :=
  segments.isEmpty ||
    tree.files.any fun file => segments.isPrefixOf file.1 && segments.length < file.1.length

inductive Place where
  | directory (segments : List String)
  /-- A directory above the tree or at the root of the file system. -/
  | outside
  | file (bytes : List UInt8)

def enter (tree : FileTree) (place : Place) (segment : String) : Except FileFault Place :=
  match place with
  | .file _ => .error .notDirectory
  | .outside => if segment = ".." then .ok .outside else .error .notFound
  | .directory segments =>
    if segment = ".." then .ok (if segments.isEmpty then .outside else .directory segments.dropLast)
    else
      let inside := segments ++ [segment]
      match tree.file? inside with
      | some bytes => .ok (.file bytes)
      | none => if tree.hasDirectory inside then .ok (.directory inside) else .error .notFound

def locate (tree : FileTree) (path : Path) : Except FileFault Place :=
  path.segments.foldlM tree.enter (if path.root.isEmpty then .directory [] else .outside)

def isDirectory (tree : FileTree) (path : Path) : Bool :=
  match tree.locate path with
  | .ok (.directory _) | .ok .outside => true
  | _ => false

def bytes (tree : FileTree) (path : Path) : Except FileFault (List UInt8) :=
  match tree.locate path with
  | .ok (.file bytes) => .ok bytes
  | .ok _ => .error .isDirectory
  | .error fault => .error fault

end FileTree

def fileText (bytes : List UInt8) : Except Abort String :=
  match Text.decodeUtf8 bytes with
  | .ok text => .ok (String.ofList (Text.unifyNewlines text))
  | .error failure => .error (.undecodable failure)

end SmallLisp
