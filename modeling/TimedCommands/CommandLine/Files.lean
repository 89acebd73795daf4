/-!
# Files as seen from a command

A command asks three questions about files: whether a path is that of a file, what it
holds, and whether a file can be created there. Nothing else of the outside world has
any influence on a command.
-/

namespace TimedCommands.CommandLine

/-- Why a file cannot be read or created. -/
inductive FileError where
  | missing
  | denied
  | notDirectory
  | isDirectory
  | notText
  deriving Repr, DecidableEq

/-- The wording of an error. -/
def FileError.message : FileError → String
  | missing => "No such file or directory (os error 2)"
  | denied => "Permission denied (os error 13)"
  | notDirectory => "Not a directory (os error 20)"
  | isDirectory => "Is a directory (os error 21)"
  | notText => "stream did not contain valid UTF-8"

/-- What the outside world answers about paths. -/
structure Files where
  isFile : String → Bool
  read : String → Except FileError String
  create : String → Except FileError Unit

end TimedCommands.CommandLine
