/-
Purpose: Reading typed data out of JSON values.
Main exports: Json.Record, Json.record?, Json.dict?, Json.list?, Json.texts?
-/
import PackageLayers.Json.Basic
import PackageLayers.Dict

namespace PackageLayers.Json

/-!
A record is read from an object whose members are the record's fields.  Members
with other names are ignored, and may be illegible; a field given twice is an
error.  A record may also be written as an array of its fields in their order,
where the last fields may be left out if they have a default.

Every reader returns none for a value of the wrong shape; what exactly was wrong
is not kept.
-/

/-- The fields that a record's value gives. -/
structure Record where
  fields : List (String × Json)
  byPosition : Bool

/-- The given fields of a record with the field names `names`. -/
def record? (names : List String) : Json → Option Record
  | .obj members =>
      let known := members.filter fun member => names.contains member.1
      if (known.map Prod.fst).Nodup then some ⟨known, false⟩ else none
  | .arr items =>
      if items.length ≤ names.length then some ⟨names.zip items, true⟩ else none
  | _ => none

namespace Record

/-- The value of a field, if it is given. -/
def get? (record : Record) (name : String) : Option Json :=
  Dict.lookup name record.fields

/-- A field that must be given. -/
def required {α : Type} (record : Record) (name : String)
    (decode : Json → Option α) : Option α :=
  (record.get? name).bind decode

/-- A field that stands for `default` where it is not given. -/
def defaulted {α : Type} (record : Record) (name : String) (default : α)
    (decode : Json → Option α) : Option α :=
  match record.get? name with
  | none => some default
  | some value => decode value

end Record

/-- Null, or a value that `decode` reads. -/
def nullable {α : Type} (decode : Json → Option α) : Json → Option (Option α)
  | .null => some none
  | value => (decode value).map some

/-- An array whose items `decode` reads. -/
def list? {α : Type} (decode : Json → Option α) : Json → Option (List α)
  | .arr items => items.mapM decode
  | _ => none

/-- An array of texts. -/
def texts? : Json → Option (List String) := list? str?

/-- The entries of a table, as written. -/
def entries? {α : Type} (decode : Json → Option α) :
    List (String × Json) → Option (List (String × α))
  | [] => some []
  | (name, value) :: rest => do
      let decoded ← decode value
      let later ← entries? decode rest
      pure ((name, decoded) :: later)

/-- An object whose members are the entries of a table. -/
def dict? {α : Type} (decode : Json → Option α) : Json → Option (Dict α)
  | .obj members => (entries? decode members).map Dict.ofList
  | _ => none

/-- A name out of a fixed list, written as a string or as an object with that
single member and nothing under it. -/
def tag? : Json → Option String
  | .str name => some name
  | .obj [(name, .null)] => some name
  | _ => none

/-- One of several names. -/
def choice? (names : List String) : Json → Option String
  | .str name => if names.contains name then some name else none
  | _ => none

/-- A record of one of several forms: the name of the form, which is the member
`mark` of an object or the first item of an array, and the rest.  The form may
come last, so the whole record must be legible. -/
def tagged? (mark : String) (names : List String) (value : Json) :
    Option (String × Json) :=
  if !value.isLegible then none
  else
    match value with
    | .obj members =>
        match members.filter fun member => member.1 == mark with
        | [(_, form)] =>
            (choice? names form).map fun name =>
              (name, .obj (members.filter fun member => member.1 != mark))
        | _ => none
    | .arr (form :: rest) =>
        (choice? names form).map fun name => (name, .arr rest)
    | _ => none

/-- A table as an object. -/
def ofDict {α : Type} (encode : α → Json) (dict : Dict α) : Json :=
  .obj (dict.entries.map fun entry => (entry.1, encode entry.2))

/-- A member that is written only where there is a value. -/
def memberIfSome {α : Type} (name : String) (encode : α → Json) :
    Option α → List (String × Json)
  | some value => [(name, encode value)]
  | none => []

end PackageLayers.Json
