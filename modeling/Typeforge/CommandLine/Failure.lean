/-
# `Typeforge.CommandLine.Failure` — why a command fails
-/
import Typeforge.Documents
import Typeforge.Files.Glob
import Typeforge.Graph.Json
import Typeforge.Run.Program

namespace Typeforge

namespace CommandLine

inductive Failure where
  | configUnreadable (path reason : String)
  | badConfig (path : String) (fault : DecodeFault)
  | typesUnreadable (path reason : String)
  | badTypes (path : String) (fault : DecodeFault)
  | notLowered (root path : String) (error : CompileError)
  | notCompiled (error : CompileError)
  | badPattern (fault : Glob.PatternFault)
  | nothingMatched (pattern : String)
  | sourceUnreadable (path reason : String)
  | badSource (fault : DocumentFault)
  | invalidDocuments (failed total : Nat)
  | halted (h : Halt)
  | notWritten (path reason : String)

namespace Failure

/-- What is said when no sources are found. -/
def unresolved (reason : String) : String := "failed to resolve input file paths: " ++ reason

def message : Failure → String
  | configUnreadable path reason => "reading config " ++ path ++ ": " ++ reason
  | badConfig path fault => "parsing config " ++ path ++ ": " ++ fault.message
  | typesUnreadable path reason => "reading " ++ path ++ ": " ++ reason
  | badTypes path fault => "parsing type graph " ++ path ++ ": " ++ fault.message
  | notLowered root path error =>
    "lowering `" ++ root ++ "` from " ++ path ++ ": " ++ error.message
  | notCompiled error => error.message
  | badPattern fault => unresolved fault.message
  | nothingMatched pattern => unresolved ("glob pattern matched no files: " ++ pattern)
  | sourceUnreadable path reason => "failed to read source file " ++ path ++ ": " ++ reason
  | badSource fault => fault.message
  | invalidDocuments failed total => s!"{failed} of {total} documents failed validation"
  | halted h => h.message
  | notWritten path reason => "writing " ++ path ++ ": " ++ reason

end Failure

end CommandLine

end Typeforge
