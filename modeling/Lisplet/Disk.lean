import Std.Data.TreeMap

/-! The files a program can reach: directories and files by their names from the root, and the
directory in which a relative path begins. A path is followed one name at a time. -/
namespace Lisplet

inductive DiskFault where
  | missing
  | notADirectory
  | isADirectory
  | nameTooLong
  | nulInName
  | notText
deriving DecidableEq, Repr

def DiskFault.message : DiskFault → String
  | missing => "No such file or directory (os error 2)"
  | notADirectory => "Not a directory (os error 20)"
  | isADirectory => "Is a directory (os error 21)"
  | nameTooLong => "File name too long (os error 36)"
  | nulInName => "file name contained an unexpected NUL byte"
  | notText => "stream did not contain valid UTF-8"

inductive DiskEntry where
  | directory
  | file (content : ByteArray)

/-- A place on the disk: the names that lead to it, the last one first. -/
abbrev Place := List String

namespace Place

/-- The key of a place among the entries; the root has the empty key. -/
def key (place : Place) : String :=
  place.reverse.foldl (fun path name => path ++ "/" ++ name) ""

end Place

structure Disk where
  entries : Std.TreeMap String DiskEntry
  here : Place

namespace Disk

def empty : Disk := ⟨∅, []⟩

def entry? (disk : Disk) : Place → Option DiskEntry
  | [] => some .directory
  | place => disk.entries[place.key]?

def put (disk : Disk) (place : Place) (entry : DiskEntry) : Disk :=
  { disk with entries := disk.entries.insert place.key entry }

def putDirectory (disk : Disk) : Place → Disk
  | [] => disk
  | name :: place => (disk.putDirectory place).put (name :: place) .directory

def inDirectory (here : Place) : Disk := { empty with here }.putDirectory here

def putFile (disk : Disk) (name : String) (content : ByteArray) : Disk :=
  disk.put (name :: disk.here) (.file content)

/-- Follows names from a directory to the directory in which the last of them would stand. -/
def follow (disk : Disk) : Place → List String → Except DiskFault Place
  | place, [] => .ok place
  | place, name :: names =>
    if name = "" ∨ name = "." then follow disk place names
    else if name = ".." then follow disk place.tail names
    else if 255 < name.utf8ByteSize then .error .nameTooLong
    else match disk.entry? (name :: place) with
      | some .directory => follow disk (name :: place) names
      | some (.file _) => .error .notADirectory
      | none => .error .missing

/-- Where a path leads: a directory, or a name in one, with the mark that a slash follows it. -/
inductive Target where
  | directory
  | name (place : Place) (slash : Bool)

/-- Splits the last proper name off a path's names; empty names at the end stand for slashes. -/
def splitLast (names : List String) : List String × Option (String × Bool) :=
  match names.reverse.dropWhile (· == "") with
  | [] => ([], none)
  | last :: front =>
    if last = "." ∨ last = ".." then (names, none)
    else (front.reverse, some (last, names.getLast? == some ""))

def resolve (disk : Disk) (path : String) : Except DiskFault Target :=
  if path.toList.contains '\x00' then .error .nulInName
  else if path = "" then .error .missing
  else if 4096 ≤ path.utf8ByteSize then .error .nameTooLong
  else do
    let names := path.splitOn "/"
    let start : Place := if path.startsWith "/" then [] else disk.here
    match splitLast names with
    | (names, none) =>
      let _ ← disk.follow start names
      return .directory
    | (front, some (last, slash)) =>
      let place ← disk.follow start front
      if 255 < last.utf8ByteSize then throw .nameTooLong
      return .name (last :: place) slash

def read (disk : Disk) (path : String) : Except DiskFault String := do
  match ← disk.resolve path with
  | .directory => throw .isADirectory
  | .name place slash =>
    match disk.entry? place with
    | none => throw .missing
    | some .directory => throw .isADirectory
    | some (.file content) =>
      if slash then throw .notADirectory
      else match String.fromUTF8? content with
        | some text => return text
        | none => throw .notText

/-- Makes a file or replaces its content. A path that ends in a slash names a directory. -/
def write (disk : Disk) (path : String) (text : String) : Except DiskFault Disk := do
  match ← disk.resolve path with
  | .directory => throw .isADirectory
  | .name place slash =>
    if slash then throw .isADirectory
    match disk.entry? place with
    | some .directory => throw .isADirectory
    | _ => return disk.put place (.file text.toUTF8)

end Disk

end Lisplet
