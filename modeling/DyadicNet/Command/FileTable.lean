import DyadicNet.Command.Path
import DyadicNet.Graph.Error

/-!
# Files in memory

A small file system, as a table: the contents of files by their paths.  Most of it is a working
directory, in which a directory exists exactly if a file is in it.  Around the working directory
there are a root with its usual directories, and a few devices.  A device is no file of the table:
what is written to it does not come back.

## Main definitions

* `FileTable` — the type;
* `Device`, `Place` — what a path can lead to;
* `FileTable.find` — where a path leads; `FileTable.target` — the same for a path to be written to;
* `FileTable.read` — the content of a file.
-/

namespace DyadicNet

/-- The contents of files.  The key of a file in the working directory is its names joined by
slashes; elsewhere a slash stands in front of them. -/
abbrev FileTable : Type :=
  NameTable String

/-- A place that takes what is written to it and keeps nothing.  Read, it is empty. -/
inductive Device where
  | null
  /-- The device that never has room. -/
  | full
  /-- The place where lines are said. -/
  | output
deriving DecidableEq

/-- Where a path leads. -/
inductive Place where
  | file (key content : String)
  | directory
  | device (device : Device)
  /-- There is nothing yet, in a directory that exists. -/
  | vacant (key : String)

namespace FileTable

/-! ### Ways

A way is the names from the root to a place, the last name first. -/

/-- The way to the working directory. -/
def workingDirectory : List String :=
  ["work", "tmp"]

/-- The directories in the root. -/
def rootDirectories : List String :=
  ["bin", "boot", "dev", "etc", "home", "lib", "lib64", "media", "mnt", "opt", "proc", "root",
    "run", "sbin", "srv", "sys", "tmp", "usr", "var"]

/-- The devices with their names, all in one directory; nothing comes from the standard input. -/
def devices : List (String × Device) :=
  [("null", .null), ("full", .full), ("stdin", .null), ("stdout", .output)]

/-- The device at the end of a way. -/
def device? : List String → Option Device
  | [name, "dev"] => devices.lookup name
  | _ => none

/-- The key of a file at the end of a way. -/
def keyOf (way : List String) : String :=
  if workingDirectory.isSuffixOf way then
    "/".intercalate (way.take (way.length - workingDirectory.length)).reverse
  else "/" ++ "/".intercalate way.reverse

/-- Whether there is a directory at the end of a way. -/
def isDirectory (files : FileTable) (way : List String) : Bool :=
  way.isSuffixOf workingDirectory || (rootDirectories.map ([·])).contains way
    || files.names.any fun name => name.startsWith (keyOf way ++ "/")

/-- What is at the end of a way. -/
def look (files : FileTable) (way : List String) : Place :=
  if files.isDirectory way then .directory
  else
    match device? way with
    | some device => .device device
    | none =>
      match files.get? (keyOf way) with
      | some content => .file (keyOf way) content
      | none => .vacant (keyOf way)

/-! ### Paths -/

/-- The number of bytes that a name may have. -/
def maxNameBytes : Nat := 255

/-- The number of bytes that a path may have. -/
def maxPathBytes : Nat := 4095

/-- Where names lead from the end of a way.  Everything on the way has to be a directory, and the
root is above itself. -/
def walk (files : FileTable) : List String → List String → Except FileFault Place
  | way, [] => .ok (files.look way)
  | way, name :: rest =>
    match files.look way with
    | .file _ _ | .device _ => .error .notDirectory
    | .vacant _ => .error .notFound
    | .directory =>
      if maxNameBytes < name.utf8ByteSize then .error .nameTooLong
      else if Path.staysHere name then walk files way rest
      else if name = ".." then walk files way.tail rest
      else walk files (name :: way) rest

/-- Where a path leads. -/
def find (files : FileTable) (path : String) : Except FileFault Place :=
  if path.any (· == '\x00') then .error .nulInName
  else if maxPathBytes < path.utf8ByteSize then .error .nameTooLong
  else files.walk (if Path.isRooted path then [] else workingDirectory) (Path.names path)

/-- Where a path leads that is written to.  A path that ends in a slash can only be a directory,
also if there is nothing yet. -/
def target (files : FileTable) (path : String) : Except FileFault Place := do
  let name := String.ofList (path.toList.reverse.dropWhile (· == '/')).reverse
  let place ← files.find name
  return if name = path then place else .directory

/-- The content of the file at a path. -/
def read (files : FileTable) (path : String) : Except FileFault String := do
  match ← files.find path with
  | .file _ content => .ok content
  | .device _ => .ok ""
  | .directory => .error .isDirectory
  | .vacant _ => .error .notFound

end FileTable

end DyadicNet
