/-!
# Failures

A failure stops a tool: a file cannot be read, settings make no sense, a listing cannot be read
back, or an operand is still symbolic when the program is loaded. Faults in a source program are no
failures; they are diagnostics, and compilation goes on.
-/

namespace CogolToolchain

/-- Why a tool stops. -/
inductive Failure where
  | file (reason : String)
  | settings (reason : String)
  | listing (reason : String) (line : Nat)
  | unresolvedOperand (operand : String) (index : Nat)
  deriving DecidableEq, Repr

def Failure.message : Failure → String
  | .file reason => "IO error: " ++ reason
  | .settings reason => "Configuration error: " ++ reason
  | .listing reason line => "Listing parse error at line " ++ toString line ++ ": " ++ reason
  | .unresolvedOperand operand index =>
    "Unresolved operand '" ++ operand ++ "' in instruction " ++ toString index

end CogolToolchain
