/-
Purpose: Reading the package that a manifest file declares.
Main exports: Strategy.read, Reader, Reader.readExternally, Reader.read
-/
import PackageLayers.Json.Printer
import PackageLayers.Json.Reader
import PackageLayers.Manifest.Document
import PackageLayers.Manifest.Dump
import PackageLayers.Manifest.Outline
import PackageLayers.Manifest.Strategy
import PackageLayers.World

namespace PackageLayers.Manifest

/-!
A reader tries other programs first, in order, and takes the first package that
has targets; a program that fails or takes too long counts for nothing.  Then it
reads the text itself.

A helper is asked in one line and answers in lines; the first that is a result
decides, and nothing after it matters.  The toolchain's dump is one document.
-/

/-- A line of a helper's answer. -/
structure HelperLine where
  kind : String
  ok : Bool
  package : Option Package
  error : Option String

/-- The line that a document writes. -/
def HelperLine.ofJson? (value : Json) : Option HelperLine := do
  let record ← value.record? ["type", "ok", "package", "error"]
  let kind ← record.required "type" Json.str?
  let ok ← record.defaulted "ok" false Json.bool?
  let package ← record.defaulted "package" none (Json.nullable Package.ofJson?)
  let error ← record.defaulted "error" none (Json.nullable Json.str?)
  pure { kind := kind, ok := ok, package := package, error := error }

/-- What a result says. -/
def HelperLine.verdict (line : HelperLine) : Except Failure Package :=
  if line.ok then
    match line.package with
    | some package => .ok package
    | none => .error (.parserFailed .helperWithoutPackage)
  else
    match line.error with
    | some message => .error (.parserFailed (.helperReported message))
    | none => .error (.parserFailed .helperUnexplained)

/-- What a line says, if it is a result. -/
def verdict? (line : String) : Option (Except Failure Package) :=
  match (Json.read? (Text.trim line)).bind HelperLine.ofJson? with
  | some line => if line.kind = "result" then some line.verdict else none
  | none => none

/-- What the lines of a helper say within a time, if one of them decides, and
when. -/
def decision? (timeout : Nat) :
    List (Nat × Content) → Option (Nat × Except Failure Package)
  | [] => none
  | (time, content) :: rest =>
      if timeout ≤ time then some (timeout, .error (.parserTimeout timeout))
      else
        match content with
        | .binary _ =>
            some (time, .error (.parserFailed .helperOutputUnreadable))
        | .text line =>
            match verdict? line with
            | some verdict => some (time, verdict)
            | none => decision? timeout rest

/-- Whether a time that may never come is not before another. -/
def isTooLate (timeout : Nat) (time : Option Nat) : Bool :=
  time.all (timeout ≤ ·)

/-- What a helper's run says within a time, and when it is stopped. -/
def helperVerdict (timeout : Nat) (run : Program.Run) :
    Nat × Except Failure Package :=
  match decision? timeout run.lines with
  | some verdict => verdict
  | none =>
      if isTooLate timeout run.outputOver then (timeout, .error (.parserTimeout timeout))
      else (timeout, .error (.parserFailed (.helperExited run.ending)))

/-- What a dump's run says within a time. -/
def dumpVerdict (timeout : Nat) (run : Program.Run) : Except Failure Package :=
  if isTooLate timeout run.allOver then .error (.parserTimeout timeout)
  else if !run.ending.isSuccess then
    .error
      (.parserFailed (.dumpExited run.ending (Text.trim run.complaintText)))
  else
    match run.content.text?.bind Json.readCanonical? with
    | some value => Package.ofDump value
    | none => .error (.parserFailed .dumpUnreadable)

/-- The line in which a helper is asked for a manifest. -/
def helperRequest (manifest : Path) : String :=
  Json.render
    (.obj
      [("format", .str "json"), ("manifest", .str manifest.text),
        ("type", .str "parse")]) ++ "\n"

/-- The arguments of a helper. -/
def helperArguments (manifest : Path) : List String :=
  ["--manifest", manifest.text, "--format", "json-lines"]

/-- The arguments of the toolchain. -/
def dumpArguments (manifest : Path) : List String :=
  ["package", "dump-package", "--package-path",
    (manifest.parent?.getD ⟨"."⟩).text]

/-- The package that the text of a manifest declares. -/
def readText (files : Files) (manifest : Path) : Except Failure Package :=
  match (files.textOf? manifest).bind Package.ofText? with
  | some package => .ok package
  | none => .error (.parseUnavailable manifest)

/-- Read a manifest with one strategy, within a time in milliseconds. -/
def Strategy.read (strategy : Strategy) (timeout : Nat) (manifest : Path)
    (world : World) : Except Failure Package × World :=
  match strategy with
  | .helper command =>
      match world.start command (helperArguments manifest)
        (helperRequest manifest) with
      | .ok run =>
          let (time, verdict) := helperVerdict timeout run
          (verdict, world.after run time)
      | .error fault =>
          (.error (.parserFailed (.helperNotStarted command.text fault)), world)
  | .toolchainDump swift =>
      match world.start swift (dumpArguments manifest) "" with
      | .ok run => (dumpVerdict timeout run, world.after run timeout)
      | .error fault =>
          (.error (.parserFailed (.dumpNotStarted swift.text fault)), world)
  | .syntactic => (readText world.files manifest, world)

/-- How manifests are read: the strategies to try, and the time for each. -/
structure Reader where
  strategies : List Strategy
  timeout : Nat
deriving Repr, Inhabited, DecidableEq

namespace Reader

/-- The first package with targets that one of some strategies reads. -/
def firstWithTargets (timeout : Nat) (manifest : Path) :
    List Strategy → World → Option Package × World
  | [], world => (none, world)
  | strategy :: rest, world =>
      match strategy.read timeout manifest world with
      | (.ok package, world) =>
          if package.targets.isEmpty then
            firstWithTargets timeout manifest rest world
          else (some package, world)
      | (.error _, world) => firstWithTargets timeout manifest rest world

/-- The package that another program reads. -/
def readExternally (reader : Reader) (manifest : Path) (world : World) :
    Option Package × World :=
  firstWithTargets reader.timeout manifest
    (reader.strategies.filter Strategy.isExternal) world

/-- A package with the name of the manifest's directory if it has none. -/
def named (manifest : Path) (package : Package) : Package :=
  { package with
    name := package.name.or (manifest.parent?.bind Path.fileName?) }

/-- The package of a manifest, which must have targets. -/
def read (reader : Reader) (manifest : Path) (world : World) :
    Except Failure Package × World :=
  match reader.readExternally manifest world with
  | (some package, world) => (.ok (named manifest package), world)
  | (none, world) =>
      match readText world.files manifest with
      | .error failure => (.error failure, world)
      | .ok package =>
          if package.targets.isEmpty then
            (.error (.parseUnavailable manifest), world)
          else (.ok (named manifest package), world)

end Reader

end PackageLayers.Manifest
