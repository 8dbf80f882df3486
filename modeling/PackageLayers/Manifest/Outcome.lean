/-
Purpose: Adding a dependency to a manifest file.
Main exports: PatchOutcome, patchFile
-/
import PackageLayers.Manifest.Patch
import PackageLayers.World

namespace PackageLayers.Manifest

/-!
A manifest file is written only if the change is possible and needed, and then as
a whole.  Whatever goes wrong leaves it as it was.
-/

/-- What became of a request to change a manifest file. -/
inductive PatchOutcome where
  | unchanged
  | applied (changes : List Change)
  | failed (failure : Failure)
  | notWritten (fault : FileFault)
deriving Repr, Inhabited, DecidableEq

namespace PatchOutcome

/-- Whether the dependency is there now. -/
def ok : PatchOutcome → Bool
  | .unchanged | .applied _ => true
  | .failed _ | .notWritten _ => false

/-- Whether the file was written. -/
def changed : PatchOutcome → Bool
  | .applied _ => true
  | _ => false

/-- The word for what went wrong. -/
def reason? : PatchOutcome → Option String
  | .failed failure => some failure.reason
  | .notWritten _ => some "writeFailed"
  | _ => none

/-- The description of what went wrong. -/
def message? : PatchOutcome → Option String
  | .failed failure => some failure.message
  | .notWritten fault => some fault.account
  | _ => none

/-- The changes that were made. -/
def changes : PatchOutcome → List Change
  | .applied changes => changes
  | _ => []

/-- An outcome as a document. -/
def toJson (outcome : PatchOutcome) : Json :=
  .obj
    ([("ok", .bool outcome.ok), ("changed", .bool outcome.changed)] ++
      Json.memberIfSome "reason" .str outcome.reason? ++
      Json.memberIfSome "error" .str outcome.message? ++
      if outcome.changes.isEmpty then []
      else [("changes", .arr (outcome.changes.map Change.toJson))])

end PatchOutcome

/-- The change that adds a dependency to a manifest file. -/
def proposal (floor : String) (files : Files) (manifest : Path)
    (origin destination : String) (context : Option ProductContext) :
    Except Failure Patch :=
  match files.textOf? manifest with
  | none => .error (.parseUnavailable manifest)
  | some text =>
      addDependency floor text manifest origin destination context

/-- Add a dependency to a manifest file. -/
def patchFile (floor : String) (world : World) (manifest : Path)
    (origin destination : String) (context : Option ProductContext) :
    PatchOutcome × World :=
  match proposal floor world.files manifest origin destination context with
  | .error failure => (.failed failure, world)
  | .ok patch =>
      if patch.changes.isEmpty then (.unchanged, world)
      else
        match world.overwrite manifest patch.text with
        | .ok world => (.applied patch.changes, world)
        | .error fault => (.notWritten fault, world)

end PackageLayers.Manifest
