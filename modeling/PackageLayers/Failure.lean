/-
Purpose: Everything that can go wrong with a manifest or an edge.
Main exports: BlockReason, EditFault, ParserFault, Failure, Failure.reason,
  Failure.message
-/
import PackageLayers.Program.Run

namespace PackageLayers

/-!
A failure says what went wrong and carries what its message names.  `reason` is
the short word that programs look at, `message` the sentence that people read.
-/

/-- Why an edge between two targets is refused. -/
inductive BlockReason where
  | cycleBlocked
  | downwardDependency
deriving Repr, Inhabited, DecidableEq

/-- The word for a reason. -/
def BlockReason.label : BlockReason → String
  | .cycleBlocked => "cycleBlocked"
  | .downwardDependency => "downwardDependency"

/-- What keeps a manifest from being edited. -/
inductive EditFault where
  | unbalancedTarget (target : String)
  | dependenciesNotArray (target : String)
  | takesNoDependencies (target : String)
  | declarationsNotArray
  | noPackageCall
deriving Repr, Inhabited, DecidableEq

/-- The description of a fault. -/
def EditFault.message : EditFault → String
  | .unbalancedTarget target => s!"target '{target}' has unbalanced brackets"
  | .dependenciesNotArray target =>
      s!"dependencies of '{target}' is not an array literal"
  | .takesNoDependencies target =>
      s!"'{target}' is a system library or binary target and takes no dependencies"
  | .declarationsNotArray => "package dependencies is not an array literal"
  | .noPackageCall => "no Package(...) call with a targets argument"

/-- What an external parser did wrong. -/
inductive ParserFault where
  | helperNotStarted (command : String) (fault : StartFault)
  | helperOutputUnreadable
  | helperReported (message : String)
  | helperUnexplained
  | helperWithoutPackage
  | helperExited (ending : Program.Ending)
  | dumpNotStarted (command : String) (fault : StartFault)
  | dumpExited (ending : Program.Ending) (output : String)
  | dumpUnreadable
  | dumpWithoutTargets
deriving Repr, Inhabited, DecidableEq

/-- The description of a fault. -/
def ParserFault.message : ParserFault → String
  | .helperNotStarted command fault =>
      s!"failed to spawn {command}: {fault.message}"
  | .helperOutputUnreadable =>
      "failed to read helper output: stream did not contain valid UTF-8"
  | .helperReported message => message
  | .helperUnexplained => "helper reported failure"
  | .helperWithoutPackage => "helper result carried no package"
  | .helperExited ending =>
      s!"helper exited with {ending.text} before sending a result"
  | .dumpNotStarted command fault =>
      s!"failed to run {command}: {fault.message}"
  | .dumpExited ending output =>
      s!"dump-package exited with {ending.text}: {output}"
  | .dumpUnreadable => "invalid dump-package output"
  | .dumpWithoutTargets => "dump-package output has no targets array"

/-- What went wrong. -/
inductive Failure where
  | parseUnavailable (manifest : Path)
  | targetNotFound (target : String) (manifest : Path)
  | manifestMalformed (manifest : Path) (fault : EditFault)
  | policyBlocked (reason : BlockReason) (message : String)
  | parserTimeout (milliseconds : Nat)
  | parserFailed (fault : ParserFault)
  | missingProvenance (package : String)
deriving Repr, Inhabited, DecidableEq

namespace Failure

/-- The word for a failure. -/
def reason : Failure → String
  | .parseUnavailable _ => "parseUnavailable"
  | .targetNotFound _ _ => "targetNotFound"
  | .manifestMalformed _ _ => "manifestMalformed"
  | .policyBlocked reason _ => reason.label
  | .parserTimeout _ => "externalParserTimeout"
  | .parserFailed _ => "externalParserFailed"
  | .missingProvenance _ => "missingProvenance"

/-- The description of a failure. -/
def message : Failure → String
  | .parseUnavailable manifest =>
      s!"no parser could read package structure from {manifest.text}"
  | .targetNotFound target manifest =>
      s!"target '{target}' not found in {manifest.text}"
  | .manifestMalformed manifest fault =>
      s!"malformed manifest {manifest.text}: {fault.message}"
  | .policyBlocked reason message => s!"{reason.label}: {message}"
  | .parserTimeout milliseconds =>
      s!"external parser timed out after {milliseconds}ms"
  | .parserFailed fault => s!"external parser failed: {fault.message}"
  | .missingProvenance package =>
      s!"no source location known for package '{package}'"

end Failure

end PackageLayers
