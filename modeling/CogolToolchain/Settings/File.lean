import CogolToolchain.Failure
import CogolToolchain.Settings.Basic
import CogolToolchain.Settings.Reader

/-!
# Settings files

Settings are written as a TOML document with one entry for each of them. A setting that is left out
has its default, and entries and tables that are no settings are ignored.
-/

namespace CogolToolchain
namespace Settings

def malformed : Failure := .settings "the document is not well formed"

def wrongType (key : String) : Failure :=
  .settings ("the setting '" ++ key ++ "' has the wrong type")

def readCount (t : Document.Table) (key : String) (default : Nat) : Except Failure Nat :=
  match t.get? key with
  | none => .ok default
  | some (.value (.integer (.ofNat n))) => .ok n
  | some _ => .error (wrongType key)

def readFlag (t : Document.Table) (key : String) (default : Bool) : Except Failure Bool :=
  match t.get? key with
  | none => .ok default
  | some (.value (.boolean b)) => .ok b
  | some _ => .error (wrongType key)

def read (text : String) : Except Failure Settings :=
  match Document.read? text with
  | none => .error malformed
  | some t => do
    let standard : Settings := {}
    return {
      initialScratchCells := ← readCount t "initial_scratch_cells" standard.initialScratchCells
      callStackSize := ← readCount t "call_stack_size" standard.callStackSize
      optimize := ← readFlag t "optimize" standard.optimize
      annotateListing := ← readFlag t "annotate_listing" standard.annotateListing }

def text (s : Settings) : String :=
  "initial_scratch_cells = " ++ toString s.initialScratchCells ++ "\n"
    ++ "call_stack_size = " ++ toString s.callStackSize ++ "\n"
    ++ "optimize = " ++ toString s.optimize ++ "\n"
    ++ "annotate_listing = " ++ toString s.annotateListing ++ "\n"

end Settings
end CogolToolchain
