/-!
# File entries

Parameters and genesis are read from files that may be missing. What a name leads to is a value
here; only the outermost layer of a program looks at real files.
-/

namespace StakeLedger

/-- What is found under the name of a file. -/
inductive FileEntry where
  /-- Nothing, but a file can be made. -/
  | absent
  /-- Nothing, and no file can be made. -/
  | unreachable
  | directory
  | file (text : String)
  deriving DecidableEq

def FileEntry.text? : FileEntry → Option String
  | file text => some text
  | _ => none

end StakeLedger
