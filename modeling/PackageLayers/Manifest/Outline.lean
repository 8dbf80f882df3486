/-
Purpose: The declarations of a manifest text with their places in it.
Main exports: Outline, Block, DependencyArgument, Outline.ofText, Package.ofText?
-/
import PackageLayers.Manifest.Basic
import PackageLayers.Sorting
import PackageLayers.Source.Literal
import PackageLayers.Source.Search

namespace PackageLayers.Manifest

open Source (Span MemberCall Quoted)

/-!
An outline is what can be said of a manifest without evaluating it.  A handful
of words is looked for in code, and everything else is passed over:

* the call `Package(...)` with its arguments `name`, `products`, `dependencies`
  and `targets`;
* constructors of targets that stand directly in `targets: [...]`, in
  `targets += [...]`, in `targets.append(...)` or in
  `targets.append(contentsOf: [...])`; anywhere else the same words are
  references;
* declarations `.package(...)`.

Reading an outline never fails.  A constructor whose parentheses are not
balanced is listed as skipped and the rest of the text is read on.
-/

/-- How a target's dependencies are written. -/
inductive DependencyArgument where
  | absent
  | array (brackets : Span)
  | expression
deriving Repr, Inhabited, DecidableEq

/-- One entry of an array of dependencies and its place; entries of an unknown
form have no dependency. -/
structure Entry where
  range : Span
  dependency : Option Dependency
deriving Repr, Inhabited, DecidableEq

/-- A target's declaration: the place of its dot, of its parentheses, of the
literal of its name, and of its dependencies. -/
structure Block where
  target : Target
  dot : Nat
  parens : Span
  nameLiteral : Span
  argument : DependencyArgument
  entries : List Entry
deriving Repr, Inhabited, DecidableEq

/-- A constructor of a target without balanced parentheses, and its name where
it can be read all the same. -/
structure Skipped where
  dot : Nat
  name : Option String
deriving Repr, Inhabited, DecidableEq

/-- The declarations of a manifest text and their places. -/
structure Outline where
  package : Package
  call : Option Span
  declarationArray : Option Span
  targetsLabel : Option Nat
  blocks : List Block
  skipped : List Skipped
  declarationRanges : List Span
deriving Repr, Inhabited, DecidableEq

namespace Outline

/-- The first balanced declaration of a target. -/
def block? (outline : Outline) (name : String) : Option Block :=
  outline.blocks.find? fun block => block.target.name == name

/-- Whether a target is named by a constructor that was skipped. -/
def isSkipped (outline : Outline) (name : String) : Bool :=
  outline.skipped.any fun skipped => skipped.name == some name

end Outline

/-! ### Arguments of a call -/

/-- The string literal that is the value of an argument. -/
def labelLiteral? (source : Source) (parens : Span) (label : String) :
    Option Quoted := do
  let after ← source.label? parens label
  let value ← source.nextSignificant? after parens.stop
  source.literalAt? value

/-- The value of an argument that is a string literal. -/
def labelText? (source : Source) (parens : Span) (label : String) :
    Option String :=
  (labelLiteral? source parens label).map Quoted.value

/-- The brackets of the array literal that starts at a position. -/
def arrayAt? (source : Source) (position : Nat) : Option Span :=
  if source.charAt? position = some '[' then
    (source.partner? position).map fun stop => ⟨position, stop⟩
  else none

/-- The brackets of an argument that is an array literal. -/
def labelArray? (source : Source) (parens : Span) (label : String) :
    Option Span := do
  let after ← source.label? parens label
  let value ← source.nextSignificant? after parens.stop
  arrayAt? source value

/-- The values of the elements of an array that start with a string literal. -/
def textElements (source : Source) (brackets : Span) : List String :=
  (source.elements brackets).filterMap fun range =>
    (source.literalAt? range.start).map Quoted.value

/-! ### The call of the package -/

/-- The parentheses of a call `Package(...)` whose first word is at a
position. -/
def packageCallAt? (source : Source) (position : Nat) : Option Span := do
  let after := position + "Package".length
  if 0 < position ∧
      (source.isNameAt (position - 1) ∨ source.charAt? (position - 1) = some '.')
  then none
  else if source.isNameAt after then none
  else
    let paren ← source.nextSignificant? after source.size
    if source.charAt? paren = some '(' then
      (source.partner? paren).map fun stop => ⟨paren, stop⟩
    else none

/-- The parentheses of the first call `Package(...)`. -/
def packageCall? (source : Source) : Option Span :=
  (source.occurrences "Package" source.whole).findSome? (packageCallAt? source)

/-- The last place before a position where a text stands, in code or not. -/
def lastOccurrence? (source : Source) (text : String) (stop : Nat) :
    Option Nat :=
  let print := Source.footprint text
  (Source.positions 0 (stop + 1 - print.length)).reverse.find?
    (source.matchesAt print)

/-! ### Where targets are declared -/

/-- The name that ends at the last significant position before `stop`, and its
start. -/
def wordBefore? (source : Source) (stop : Nat) : Option (Nat × String) := do
  let last ← source.lastSignificant? 0 stop
  let start :=
    match (Source.positions 0 (last + 1)).reverse.find? fun position =>
        !source.isNameAt position with
    | some position => position + 1
    | none => 0
  if start ≤ last then pure (start, source.slice start (last + 1)) else none

/-- Whether the code before `stop` ends with the word `targets`. -/
def endsInTargets (source : Source) (stop : Nat) : Bool :=
  (wordBefore? source stop).any fun word => word.2 == "targets"

/-- Whether a parenthesis opens the arguments of `targets.append`. -/
def isTargetsAppend (source : Source) (paren : Nat) : Bool :=
  match wordBefore? source paren with
  | some (start, "append") =>
      (source.lastSignificant? 0 start).any fun dot =>
        source.charAt? dot == some '.' && endsInTargets source dot
  | _ => false

/-- Whether a bracket opens an array after `targets:`, after `targets +=` or
after `targets.append(contentsOf:`. -/
def isTargetsArray (source : Source) (bracket : Nat) : Bool :=
  match source.lastSignificant? 0 bracket with
  | none => false
  | some before =>
      if source.charAt? before = some ':' then
        match wordBefore? source before with
        | some (_, "targets") => true
        | some (start, "contentsOf") =>
            (source.lastSignificant? 0 start).any fun paren =>
              source.charAt? paren == some '(' && isTargetsAppend source paren
        | _ => false
      else if source.charAt? before = some '=' then
        0 < before && source.charAt? (before - 1) == some '+' &&
          endsInTargets source (before - 1)
      else false

/-- Whether targets stand directly inside the bracket at a position. -/
def isTargetsContainer (source : Source) (bracket : Nat) : Bool :=
  if source.charAt? bracket = some '(' then isTargetsAppend source bracket
  else if source.charAt? bracket = some '[' then isTargetsArray source bracket
  else false

/-! ### Declarations of targets -/

/-- The dependency that an entry `.target(...)`, `.byName(...)` or
`.product(...)` writes. -/
def calledDependency? (source : Source) (name : String) (paren : Nat) :
    Option Dependency := do
  let stop ← source.partner? paren
  let parens : Span := ⟨paren, stop⟩
  let named ← labelText? source parens "name"
  match name with
  | "target" => pure (.target named)
  | "byName" => pure (.byName named)
  | _ => (labelText? source parens "package").map fun package =>
      .product named package

/-- The dependency that an element of an array writes. -/
def dependencyIn? (source : Source) (range : Span) : Option Dependency :=
  match source.literalAt? range.start with
  | some literal => some (.bare literal.value)
  | none =>
      match ["target", "byName", "product"].findSome? fun name =>
          match source.memberCalls name range with
          | call :: _ =>
              if call.dot = range.start then some (name, call.paren) else none
          | [] => none
      with
      | some (name, paren) => calledDependency? source name paren
      | none => none

/-- The entries of an array of dependencies. -/
def entriesIn (source : Source) (brackets : Span) : List Entry :=
  (source.elements brackets).map fun range =>
    { range := range, dependency := dependencyIn? source range }

/-- How the argument `dependencies` of a call is written. -/
def dependencyArgument (source : Source) (parens : Span) : DependencyArgument :=
  match source.label? parens "dependencies" with
  | none => .absent
  | some after =>
      match (source.nextSignificant? after parens.stop).bind (arrayAt? source) with
      | some brackets => .array brackets
      | none => .expression

/-- The entries of an argument that is an array. -/
def DependencyArgument.entries (source : Source) :
    DependencyArgument → List Entry
  | .array brackets => entriesIn source brackets
  | _ => []

/-- A constructor of a target: its kind and its place. -/
structure Candidate where
  kind : TargetKind
  dot : Nat
  paren : Nat
deriving Repr, Inhabited, DecidableEq

/-- Whether a call is a product and not a target: a plugin with targets and
without a capability. -/
def isPluginProduct (source : Source) (kind : TargetKind) (parens : Span) :
    Bool :=
  kind == .plugin && (source.label? parens "targets").isSome &&
    (source.label? parens "capability").isNone

/-- The declaration that a constructor with balanced parentheses writes. -/
def blockAt? (source : Source) (candidate : Candidate) (stop : Nat) :
    Option Block := do
  let parens : Span := ⟨candidate.paren, stop⟩
  let name ← labelLiteral? source parens "name"
  if isPluginProduct source candidate.kind parens then none
  else
    let argument := dependencyArgument source parens
    let entries := argument.entries source
    pure
      { target :=
          { name := name.value
            kind := candidate.kind
            path := labelText? source parens "path"
            sources :=
              (labelArray? source parens "sources").map (textElements source)
            dependencies := entries.filterMap Entry.dependency }
        dot := candidate.dot
        parens := parens
        nameLiteral := ⟨name.start, name.stop⟩
        argument := argument
        entries := entries }

/-- The name that follows a parenthesis as its first argument, whether or not
the parenthesis is closed. -/
def leadingName? (source : Source) (paren : Nat) : Option String := do
  let label ← source.nextSignificant? (paren + 1) source.size
  if !source.matchesAt (Source.footprint "name") label then none
  else
    let colon ← source.nextSignificant? (label + "name".length) source.size
    if source.charAt? colon ≠ some ':' then none
    else
      let value ← source.nextSignificant? (colon + 1) source.size
      (source.literalAt? value).map Quoted.value

/-- All constructors of targets in a text, in order. -/
def candidates (source : Source) : List Candidate :=
  sortBy (fun first second => first.dot ≤ second.dot)
    (TargetKind.constructors.flatMap fun (name, kind) =>
      (source.memberCalls name source.whole).map fun call =>
        { kind := kind, dot := call.dot, paren := call.paren })

/-- What a constructor of a target turned out to be. -/
inductive Finding where
  | block (block : Block)
  | skipped (skipped : Skipped)
deriving Repr, Inhabited, DecidableEq

namespace Finding

/-- The declaration, if it is one. -/
def block? : Finding → Option Block
  | .block found => some found
  | .skipped _ => none

/-- The skipped constructor, if it is one. -/
def skipped? : Finding → Option Skipped
  | .block _ => none
  | .skipped found => some found

end Finding

/-- What the constructors of targets turn out to be.  Those inside a declaration
that was read, which ends before `covered`, are not looked at. -/
def findings (source : Source) : (covered : Nat) → List Candidate → List Finding
  | _, [] => []
  | covered, candidate :: rest =>
      if candidate.dot < covered ||
          !(source.enclosing? candidate.dot).any (isTargetsContainer source) then
        findings source covered rest
      else
        match source.partner? candidate.paren with
        | none =>
            .skipped ⟨candidate.dot, leadingName? source candidate.paren⟩ ::
              findings source covered rest
        | some stop =>
            match blockAt? source candidate stop with
            | some block => .block block :: findings source (stop + 1) rest
            | none => findings source covered rest

/-! ### Declarations of packages and products -/

/-- The version that a nested call such as `.upToNextMajor(from: "1.0.0")`
names. -/
def nestedRequirement? (source : Source) (parens : Span) : Option String :=
  (source.occurrences "from" parens).findSome? fun position => do
    let colon ←
      source.nextSignificant? (position + "from".length) parens.stop
    if source.charAt? colon ≠ some ':' then none
    else
      let value ← source.nextSignificant? (colon + 1) parens.stop
      (source.literalAt? value).map Quoted.value

/-- The first literal of a call other than those that start at the given
positions. -/
def looseLiteral? (source : Source) (parens : Span) (taken : List Nat) :
    Option String :=
  (Source.positions (parens.start + 1) parens.stop).findSome? fun position =>
    if taken.contains position then none
    else (source.literalAt? position).map Quoted.value

/-- The declaration that a call `.package(...)` writes.  The requirement is the
value of a label for it, else of a nested `from:`, else the first literal
without another use. -/
def declarationAt (source : Source) (parens : Span) : Declaration :=
  let name := labelLiteral? source parens "name"
  let url := labelLiteral? source parens "url"
  let path := labelLiteral? source parens "path"
  let id := labelLiteral? source parens "id"
  let taken := [name, url, path, id].filterMap fun literal =>
    literal.map Quoted.start
  let labelled :=
    ["from", "exact", "branch", "revision"].findSome? (labelText? source parens)
  { name := name.map Quoted.value
    url := url.map Quoted.value
    path := path.map Quoted.value
    id := id.map Quoted.value
    requirement :=
      (labelled.or (nestedRequirement? source parens)).or
        (looseLiteral? source parens taken) }

/-- The declarations of packages in a text with their ranges, in order. -/
def declarationsIn (source : Source) : List (Declaration × Span) :=
  (source.memberCalls "package" source.whole).filterMap fun call =>
    (source.partner? call.paren).map fun stop =>
      (declarationAt source ⟨call.paren, stop⟩, ⟨call.dot, stop + 1⟩)

/-- The product that an element of an array writes. -/
def productIn? (source : Source) (range : Span) : Option Product := do
  let body := Text.trimStart (source.slice range.start range.stop)
  let kind ← ["library", "executable", "plugin"].find? fun kind =>
    Text.startsWith ("." ++ kind) body
  let call ← (source.memberCalls kind range).head?
  let stop ← source.partner? call.paren
  let parens : Span := ⟨call.paren, stop⟩
  let name ← labelText? source parens "name"
  pure
    { name := name
      kind := kind
      targets :=
        ((labelArray? source parens "targets").map (textElements source)).getD [] }

/-- The products that an array writes. -/
def productsIn (source : Source) (brackets : Span) : List Product :=
  (source.elements brackets).filterMap (productIn? source)

/-! ### The outline of a text -/

/-- The outline of classified text. -/
def Outline.ofSource (source : Source) : Outline :=
  let call := packageCall? source
  let found := findings source 0 (candidates source)
  let blocks := found.filterMap Finding.block?
  let declarations := declarationsIn source
  { package :=
      { name := call.bind (labelText? source · "name")
        targets := blocks.map Block.target
        declarations := declarations.map Prod.fst
        products :=
          ((call.bind (labelArray? source · "products")).map
            (productsIn source)).getD [] }
    call := call
    declarationArray := call.bind (labelArray? source · "dependencies")
    targetsLabel :=
      (call.bind (source.label? · "targets")).bind fun after =>
        lastOccurrence? source "targets" after
    blocks := blocks
    skipped := found.filterMap Finding.skipped?
    declarationRanges := declarations.map Prod.snd }

/-- The outline of a text. -/
def Outline.ofText (text : String) : Outline :=
  Outline.ofSource (Source.ofText text)

/-- The package that a text declares; none if it has neither a name nor a
target. -/
def Package.ofText? (text : String) : Option Package :=
  let package := (Outline.ofText text).package
  if package.name.isNone && package.targets.isEmpty then none else some package

end PackageLayers.Manifest
