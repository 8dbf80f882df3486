/-
Purpose: Where and how an element is added to an array or an argument to a call.
Main exports: arrayInsertion, dependencyInsertion, declarationInsertion
-/
import PackageLayers.Failure
import PackageLayers.Manifest.Edit
import PackageLayers.Manifest.Outline

namespace PackageLayers.Manifest

open Source (Span)

/-!
An insertion follows the style that is there.  Arrays over several lines get a
new line with the indentation of the last element, arrays on one line stay on
one line.  A comma follows the new element exactly if one followed the last
element before, and the last element gets a comma exactly if it had none.
-/

/-- Where a new line starts after an anchor: at the end of the anchor's line,
unless that line ends inside a comment or the limit comes first. -/
def lineInsertPoint (source : Source) (anchor limit : Nat) : Nat :=
  let stop := min (source.lineEnd anchor) limit
  if stop = limit ∨ source.isCode stop then stop else anchor + 1

/-- The indentation of what stands inside a line with the given indentation. -/
def indentInside (outer : String) : String :=
  if outer.toList.contains '\t' then outer ++ "\t" else outer ++ "    "

/-- The comma between the last element of an array and its closing bracket. -/
def trailingComma? (source : Source) (brackets last : Span) : Option Nat :=
  (source.lastSignificant? last.stop brackets.stop).filter fun position =>
    source.charAt? position == some ','

/-- The edits that add an element to an array without elements. -/
def emptyArrayInsertion (source : Source) (brackets : Span) (token : String) :
    List Edit :=
  if source.spansLines brackets.start brackets.stop then
    let inner := indentInside (source.lineIndent brackets.stop)
    [⟨lineInsertPoint source brackets.start brackets.stop,
      "\n" ++ inner ++ token ++ ","⟩]
  else [⟨brackets.start + 1, token⟩]

/-- The edits that add an element after the last one of an array. -/
def appendInsertion (source : Source) (brackets last : Span) (token : String) :
    List Edit :=
  if source.spansLines last.stop brackets.stop then
    let indent := source.lineIndent last.start
    match trailingComma? source brackets last with
    | some comma =>
        [⟨lineInsertPoint source comma brackets.stop,
          "\n" ++ indent ++ token ++ ","⟩]
    | none =>
        [⟨last.stop, ","⟩,
          ⟨lineInsertPoint source (last.stop - 1) brackets.stop,
            "\n" ++ indent ++ token⟩]
  else
    match trailingComma? source brackets last with
    | some comma => [⟨comma + 1, " " ++ token ++ ","⟩]
    | none => [⟨last.stop, ", " ++ token⟩]

/-- The edits that add an element at the end of an array. -/
def arrayInsertion (source : Source) (brackets : Span) (token : String) :
    List Edit :=
  match (source.elements brackets).getLast? with
  | some last => appendInsertion source brackets last token
  | none => emptyArrayInsertion source brackets token

/-- The edits that give a target its first dependency: a new argument on a line
of its own if the argument after the name is on one, else right after the
name. -/
def argumentInsertion (source : Source) (block : Block) (token : String) :
    List Edit :=
  let after := block.nameLiteral.stop
  let argument := "dependencies: [" ++ token ++ "]"
  let besideName := [⟨after, ", " ++ argument⟩]
  match source.nextSignificant? after block.parens.stop with
  | none => besideName
  | some comma =>
      match source.nextSignificant? (comma + 1) block.parens.stop with
      | none => besideName
      | some next =>
          if source.charAt? comma = some ',' ∧ source.spansLines comma next then
            [⟨lineInsertPoint source comma block.parens.stop,
              "\n" ++ source.lineIndent next ++ argument ++ ","⟩]
          else besideName

/-- The edits that add an entry to the dependencies of a target. -/
def dependencyInsertion (source : Source) (block : Block) (token : String) :
    Except EditFault (List Edit) :=
  if !block.target.kind.takesDependencies then
    .error (.takesNoDependencies block.target.name)
  else
    match block.argument with
    | .array brackets => .ok (arrayInsertion source brackets token)
    | .expression => .error (.dependenciesNotArray block.target.name)
    | .absent => .ok (argumentInsertion source block token)

/-- The argument `dependencies` with one element, as it is put in front of the
label `targets` at a position: on lines of its own if the label starts its
line. -/
def newDeclarationArray (source : Source) (label : Nat) (token : String) :
    String :=
  let indent := source.lineIndent label
  let before := source.slice 0 label
  let width := indent.toList.length
  let startsLine :=
    (Text.stripSuffix? indent before).isSome &&
      (Text.stripSuffix? "\n" (source.slice 0 (label - width))).isSome
  if startsLine then
    "dependencies: [\n" ++ indentInside indent ++ token ++ ",\n" ++ indent ++
      "],\n" ++ indent
  else "dependencies: [" ++ token ++ "], "

/-- The edits that add a declaration of a package. -/
def declarationInsertion (source : Source) (outline : Outline)
    (token : String) : Except EditFault (List Edit) :=
  match outline.declarationArray with
  | some brackets => .ok (arrayInsertion source brackets token)
  | none =>
      if (outline.call.bind (source.label? · "dependencies")).isSome then
        .error .declarationsNotArray
      else
        match outline.call, outline.targetsLabel with
        | some _, some label =>
            .ok [⟨label, newDeclarationArray source label token⟩]
        | _, _ => .error .noPackageCall

end PackageLayers.Manifest
