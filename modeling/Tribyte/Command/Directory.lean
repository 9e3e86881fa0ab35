import Tribyte.Command.Report

/-! Directories: a tree of files, in which a command reads and writes.

A path is walked part by part, and every part but the last has to be a folder. The walk may leave the
directory: around it are folders in which no file is found, and a file written there is not kept. -/
namespace Tribyte.Command

/-! ### Paths -/

/-- The greatest number of bytes in a path. -/
def pathLimit : Nat := 4095

/-- The greatest number of bytes in one part of a path. -/
def nameLimit : Nat := 255

structure Path where
  /-- A slash stands before the first part. -/
  absolute : Bool
  parts : List String
  /-- A slash stands after the last part. -/
  closed : Bool
  deriving DecidableEq, Repr

/-- Several slashes in a row are one. -/
def Path.ofText (text : String) : Except FileError Path :=
  if text = "" then .error .missing
  else if pathLimit < text.utf8ByteSize then .error .nameTooLong
  else .ok {
    absolute := text.startsWith "/"
    parts := (text.splitOn "/").filter (· ≠ "")
    closed := text.endsWith "/" }

/-- Where a path leads. -/
inductive Place where
  | inside (path : List String)
  /-- A folder that is not in the directory. -/
  | outside
  deriving DecidableEq, Repr

namespace Place

def parent : Place → Place
  | inside [] | outside => outside
  | inside (part :: parts) => inside (part :: parts).dropLast

def start (path : Path) : Place := if path.absolute then outside else inside []

end Place

/-! ### Directories -/

/-- Files by their paths. -/
structure Directory where
  files : List (List String × List UInt8) := []
  deriving DecidableEq, Repr

namespace Directory

def ofFiles (files : List (String × List UInt8)) : Directory :=
  ⟨files.map fun (path, content) =>
    ((path.splitOn "/").filter fun part => part ≠ "" && part ≠ ".", content)⟩

def isFolder (d : Directory) : Place → Bool
  | .outside => true
  | .inside path =>
    path = [] || d.files.any fun (file, _) => path.isPrefixOf file && path.length < file.length

def file? (d : Directory) : Place → Option (List UInt8)
  | .outside => none
  | .inside path => d.files.lookup path

/-- Walk one part further. -/
def follow (d : Directory) (place : Place) (part : String) : Except FileError Place :=
  if !d.isFolder place then .error .notFolder
  else if part = "." then .ok place
  else if part = ".." then .ok place.parent
  else if nameLimit < part.utf8ByteSize then .error .nameTooLong
  else
    match place with
    | .outside => .error .missing
    | .inside path =>
      let next := .inside (path ++ [part])
      if d.isFolder next || (d.file? next).isSome then .ok next else .error .missing

def walk (d : Directory) (place : Place) (parts : List String) : Except FileError Place :=
  parts.foldlM d.follow place

def read (d : Directory) (text : String) : Except FileError (List UInt8) := do
  let path ← Path.ofText text
  let place ← d.walk (.start path) path.parts
  match d.file? place with
  | some content => if path.closed then throw .notFolder else return content
  | none => throw .isFolder

/-- Write a file, in place of one of the same path. Its folder has to be there, and neither a slash nor a
part that stands for a folder may end the path. -/
def write (d : Directory) (text : String) (content : List UInt8) : Except FileError Directory := do
  let path ← Path.ofText text
  let folder ← d.walk (.start path) path.parts.dropLast
  match path.parts.getLast? with
  | none => throw .isFolder
  | some name =>
    if !d.isFolder folder then throw .notFolder
    else if path.closed || name = "." || name = ".." then throw .isFolder
    else if nameLimit < name.utf8ByteSize then throw .nameTooLong
    else
      match folder with
      | .outside => return d
      | .inside parts =>
        let file := parts ++ [name]
        if d.isFolder (.inside file) then throw .isFolder
        else return ⟨(file, content) :: d.files.filter (·.1 ≠ file)⟩

/-- Carry out the ending of a job. -/
def perform (d : Directory) (job : Job) : Outcome × Directory :=
  match job.ending with
  | .save path content _ =>
    match d.write path content with
    | .ok d' => (job.outcome (.ok ()), d')
    | .error e => (job.outcome (.error e), d)
  | _ => (job.outcome (.ok ()), d)

end Directory

end Tribyte.Command
