import Entailment.Error

/-!
# Paths of files

Some paths name no file that can be read, whatever the file system holds.  The
root, the working directory and their parents are directories, and a name has
at most 255 bytes and a path fewer than 4096.
-/

namespace Entailment.CommandLine

/-- The names in a path, without those that stand for a directory in any case. -/
def pathNames (path : String) : List String :=
  (path.splitOn "/").filter fun name => name != "" && name != "." && name != ".."

/-- The fault of a path that names no file in any file system.  Only the first
name counts, because the others are looked up only if it is found. -/
def pathFault? (path : String) : Option FileError :=
  if 4096 ≤ path.utf8ByteSize then some .nameTooLong
  else
    match pathNames path with
    | [] => some .isDirectory
    | name :: _ => if 255 < name.utf8ByteSize then some .nameTooLong else none

end Entailment.CommandLine
