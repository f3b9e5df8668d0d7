/-!
# Paths

A path is a text in which slashes stand between the names of directories and, at the end, the name
of a file.  An empty name and a single dot stay where they are, two dots go up.

* `Path.names` — the names of a path;
* `Path.staysHere` — the names that lead nowhere else;
* `Path.beside` — the path of another file in the directory of a file.
-/

namespace DyadicNet.Path

/-- The names between the slashes of a path. -/
def names (path : String) : List String :=
  path.splitOn "/"

/-- Whether a name leads nowhere else. -/
def staysHere (name : String) : Bool :=
  name == "" || name == "."

/-- Whether a path starts at the root. -/
def isRooted (path : String) : Bool :=
  path.startsWith "/"

/-- The path of the file `name` in the directory of the file at `path`.  Names that lead nowhere are
left out at the end of the directory, but not at its front.  A rooted `name` is a path of its
own. -/
def beside (path name : String) : String :=
  if isRooted name then name
  else
    match (names path).dropLast with
    | [] => name
    | first :: rest =>
      let kept := (rest.reverse.dropWhile staysHere).reverse
      "/".intercalate (first :: kept ++ [name])

end DyadicNet.Path
