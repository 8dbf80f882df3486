/-
Purpose: A graph that is written as a document is read back.
Main exports: Dict.ofList_entries, Target.ofJson?_targetJson, Graph.eq_of_ofJson,
  Graph.eq_of_read
-/
import Mathlib.Tactic.Common
import PackageLayers.Graph.Document
import PackageLayers.Proofs.Json.Documents

namespace PackageLayers

/-!
Every reader undoes its writer, from the parts of a graph to the whole.  Only a
time of change that no word holds is lost, and then nothing is read at all: what
is read from the document of a graph is the graph.
-/

/-! ### Tables -/

namespace Dict

variable {α : Type}

theorem lookup_append (name : String) (left right : List (String × α)) :
    lookup name (left ++ right) =
      (lookup name left).or (lookup name right) := by
  induction left with
  | nil => rfl
  | cons entry left inductionHypothesis =>
      obtain ⟨key, value⟩ := entry
      rw [List.cons_append, lookup, lookup, inductionHypothesis]
      split <;> rfl

/-- An entry of a name that comes after all others is put last. -/
theorem insertEntry_last {name : String} {value : α}
    {entries : List (String × α)} (last : ∀ entry ∈ entries, entry.1 < name) :
    insertEntry name value entries = entries ++ [(name, value)] := by
  induction entries with
  | nil => rfl
  | cons entry entries inductionHypothesis =>
      obtain ⟨key, old⟩ := entry
      have before : key < name := last _ List.mem_cons_self
      have notBefore : ¬name < key := String.lt_asymm before
      have different : name ≠ key := by
        rintro rfl
        exact String.lt_irrefl name before
      rw [insertEntry, if_neg notBefore, if_neg different,
        inductionHypothesis fun entry member =>
          last entry (List.mem_cons_of_mem _ member)]
      rfl

theorem entries_foldl_insert (entries : List (String × α)) (dict : Dict α)
    (sorted : ((dict.entries ++ entries).map Prod.fst).Pairwise (· < ·)) :
    (entries.foldl (fun dict entry => dict.insert entry.1 entry.2) dict).entries =
      dict.entries ++ entries := by
  induction entries generalizing dict with
  | nil => rw [List.foldl_nil, List.append_nil]
  | cons entry entries inductionHypothesis =>
      have last : ∀ other ∈ dict.entries, other.1 < entry.1 := by
        rw [List.map_append, List.pairwise_append] at sorted
        intro other member
        exact sorted.2.2 other.1 (List.mem_map_of_mem member) entry.1
          List.mem_cons_self
      have put : (dict.insert entry.1 entry.2).entries =
          dict.entries ++ [entry] := insertEntry_last last
      rw [List.foldl_cons, inductionHypothesis, put, List.append_assoc]
      · rfl
      · rw [put, List.append_assoc]
        exact sorted

/-- The table of the entries of a table is the table. -/
theorem ofList_entries (dict : Dict α) : ofList dict.entries = dict := by
  obtain ⟨entries, sorted⟩ := dict
  have same : (ofList entries).entries = entries :=
    entries_foldl_insert entries empty sorted
  cases made : ofList entries with
  | mk others _ =>
      rw [made] at same
      cases same
      rfl

end Dict

/-! ### Records -/

namespace Json

variable {α : Type}

/-- Members of a record's names in their order, some left out, are its fields. -/
theorem record_of_sublist {names : List String}
    {members : List (String × Json)} (nodup : names.Nodup)
    (among : (members.map Prod.fst).Sublist names) :
    record? names (.obj members) = some ⟨members, false⟩ := by
  have known : (members.filter fun member => names.contains member.1) =
      members := by
    refine List.filter_eq_self.mpr fun member inside => ?_
    exact List.contains_iff_mem.mpr
      (among.subset (List.mem_map_of_mem inside))
  simp only [record?, known]
  rw [if_pos (nodup.sublist among)]

theorem memberIfSome_sublist (name : String) (encode : α → Json)
    (value : Option α) :
    ((memberIfSome name encode value).map Prod.fst).Sublist [name] := by
  cases value with
  | none => exact List.nil_sublist _
  | some value => exact List.Sublist.refl _

theorem lookup_memberIfSome (name key : String) (encode : α → Json)
    (value : Option α) :
    Dict.lookup name (memberIfSome key encode value) =
      if key = name then value.map encode else none := by
  cases value with
  | none => simp [memberIfSome, Dict.lookup]
  | some value => rfl

/-- A text that is there or not is read as it was written. -/
theorem nullable_ofOption (text : Option String) :
    nullable str? (ofOption text) = some text := by
  cases text <;> rfl

/-- A text that is given or not is the field's. -/
theorem defaulted_of_get {record : Record} (name : String) (text : Option String)
    (given : record.get? name = text.map .str) :
    record.defaulted name none (nullable str?) = some text := by
  rw [Record.defaulted, given]
  cases text <;> rfl

theorem list_map {decode : Json → Option α} {encode : α → Json}
    {items : List α} (inverse : ∀ item, decode (encode item) = some item) :
    list? decode (.arr (items.map encode)) = some items := by
  rw [list?]
  induction items with
  | nil => rfl
  | cons item items inductionHypothesis =>
      rw [List.map_cons, List.mapM_cons, inverse, inductionHypothesis]
      rfl

theorem texts_ofTexts (texts : List String) : texts? (ofTexts texts) = some texts :=
  list_map fun _ => rfl

theorem nullable_texts (texts : Option (List String)) :
    nullable texts? ((texts.map ofTexts).getD .null) = some texts := by
  cases texts with
  | none => rfl
  | some texts =>
      change (texts? (ofTexts texts)).map some = some (some texts)
      rw [texts_ofTexts, Option.map_some]

theorem dict_ofDict {decode : Json → Option α} {encode : α → Json}
    (dict : Dict α) (inverse : ∀ value, decode (encode value) = some value) :
    dict? decode (ofDict encode dict) = some dict := by
  have all : ∀ entries : List (String × α),
      entries? decode (entries.map fun entry => (entry.1, encode entry.2)) =
        some entries := by
    intro entries
    induction entries with
    | nil => rfl
    | cons entry entries inductionHypothesis =>
        obtain ⟨name, value⟩ := entry
        rw [List.map_cons, entries?, inverse, inductionHypothesis]
        rfl
  rw [ofDict, dict?, all, Option.map_some, Dict.ofList_entries]

/-! ### Values without numbers -/

theorem rereadItems_map {items : List α} {encode : α → Json}
    (same : ∀ item, (encode item).reread = encode item) :
    rereadItems (items.map encode) = items.map encode := by
  induction items with
  | nil => rfl
  | cons item items inductionHypothesis =>
      rw [List.map_cons, rereadItems, same, inductionHypothesis]

theorem rereadMembers_append (left right : List (String × Json)) :
    rereadMembers (left ++ right) = rereadMembers left ++ rereadMembers right := by
  induction left with
  | nil => rfl
  | cons member left inductionHypothesis =>
      obtain ⟨name, value⟩ := member
      rw [List.cons_append, rereadMembers, inductionHypothesis, rereadMembers]
      rfl

theorem rereadMembers_memberIfSome (name : String) (text : Option String) :
    rereadMembers (memberIfSome name .str text) = memberIfSome name .str text := by
  cases text <;> rfl

theorem reread_ofTexts (texts : List String) :
    (ofTexts texts).reread = ofTexts texts := by
  rw [ofTexts, reread, rereadItems_map fun _ => rfl]

theorem reread_ofOption (text : Option String) :
    (ofOption text).reread = ofOption text := by
  cases text <;> rfl

theorem reread_ofDict {encode : α → Json} (dict : Dict α)
    (same : ∀ value, (encode value).reread = encode value) :
    (ofDict encode dict).reread = ofDict encode dict := by
  rw [ofDict, reread]
  congr 1
  induction dict.entries with
  | nil => rfl
  | cons entry entries inductionHypothesis =>
      rw [List.map_cons, rereadMembers, same, inductionHypothesis]

/-! ### Plain values -/

variable {room : Nat}

theorem plainItems_map {items : List α} {encode : α → Json}
    (plain : ∀ item, (encode item).isPlain room) :
    plainItems room (items.map encode) := by
  induction items with
  | nil => rfl
  | cons item items inductionHypothesis =>
      rw [List.map_cons, plainItems, plain, inductionHypothesis]
      rfl

theorem plainMembers_append {left right : List (String × Json)}
    (first : plainMembers room left) (second : plainMembers room right) :
    plainMembers room (left ++ right) := by
  induction left with
  | nil => exact second
  | cons member left inductionHypothesis =>
      obtain ⟨name, value⟩ := member
      rw [plainMembers, Bool.and_eq_true] at first
      rw [List.cons_append, plainMembers, first.1, inductionHypothesis first.2]
      rfl

theorem plainMembers_memberIfSome (name : String) (text : Option String) :
    plainMembers room (memberIfSome name .str text) := by
  cases text <;> rfl

theorem isPlain_str (text : String) : (Json.str text).isPlain room := rfl

theorem isPlain_ofNat (number : Nat) : (ofNat number).isPlain room := by
  simp [ofNat, isPlain]

theorem isPlain_obj {members : List (String × Json)} (fits : 0 < room)
    (plain : plainMembers (room - 1) members) :
    (Json.obj members).isPlain room := by
  rw [isPlain, plain, decide_eq_true fits]
  rfl

theorem isPlain_ofOption (text : Option String) : (ofOption text).isPlain room := by
  cases text <;> rfl

theorem isPlain_list {items : List α} {encode : α → Json} (fits : 0 < room)
    (plain : ∀ item, (encode item).isPlain (room - 1)) :
    (Json.arr (items.map encode)).isPlain room := by
  rw [isPlain, plainItems_map plain, decide_eq_true fits]
  rfl

theorem isPlain_ofTexts (texts : List String) (fits : 0 < room) :
    (ofTexts texts).isPlain room :=
  isPlain_list fits fun _ => rfl

theorem isPlain_ofDict {encode : α → Json} (dict : Dict α) (fits : 0 < room)
    (plain : ∀ value, (encode value).isPlain (room - 1)) :
    (ofDict encode dict).isPlain room := by
  have all : ∀ entries : List (String × α), plainMembers (room - 1)
      (entries.map fun entry => (entry.1, encode entry.2)) := by
    intro entries
    induction entries with
    | nil => rfl
    | cons entry entries inductionHypothesis =>
        rw [List.map_cons, plainMembers, plain, inductionHypothesis]
        rfl
  exact isPlain_obj fits (all dict.entries)

end Json

/-! ### Parts of a package -/

namespace Manifest

open Json

theorem Dependency.reread_toJson (dependency : Dependency) :
    dependency.toJson.reread = dependency.toJson := by
  cases dependency <;> rfl

theorem Dependency.ofJson_toJson (dependency : Dependency) :
    Dependency.ofJson? dependency.toJson = some dependency := by
  cases dependency <;>
    simp [Dependency.ofJson?, Dependency.toJson, Json.tagged?, Json.isLegible,
      Json.legibleMembers, Json.choice?, Dependency.labels,
      Dependency.ofFields?, Json.record?, Json.Record.required,
      Json.Record.get?, Dict.lookup, Json.str?]

theorem Dependency.isPlain_toJson {room : Nat} (dependency : Dependency)
    (fits : 0 < room) : dependency.toJson.isPlain room := by
  cases dependency <;>
    simp [Dependency.toJson, Json.isPlain, Json.plainMembers, fits]

theorem TargetKind.ofJson_label (kind : TargetKind) :
    TargetKind.ofJson? (.str kind.label) = some kind := by
  have all : ∀ kind : TargetKind, TargetKind.ofLabel? kind.label = some kind := by
    intro kind
    cases kind <;> decide +kernel
  exact all kind

theorem Declaration.reread_toJson (declaration : Declaration) :
    declaration.toJson.reread = declaration.toJson := by
  rw [Declaration.toJson, reread]
  simp only [rereadMembers_append, rereadMembers_memberIfSome]

/-- The fields of a declaration, each where it is given. -/
theorem Declaration.record_toJson (declaration : Declaration) :
    declaration.toJson.record? ["name", "url", "path", "id", "requirement"] =
      some
        ⟨memberIfSome "name" .str declaration.name ++
            memberIfSome "url" .str declaration.url ++
            memberIfSome "path" .str declaration.path ++
            memberIfSome "id" .str declaration.id ++
            memberIfSome "requirement" .str declaration.requirement, false⟩ := by
  refine record_of_sublist (by decide) ?_
  simp only [List.map_append]
  exact ((((memberIfSome_sublist "name" .str _).append
    (memberIfSome_sublist "url" .str _)).append
      (memberIfSome_sublist "path" .str _)).append
        (memberIfSome_sublist "id" .str _)).append
          (memberIfSome_sublist "requirement" .str _)

theorem Declaration.ofJson_toJson (declaration : Declaration) :
    Declaration.ofJson? declaration.toJson = some declaration := by
  rw [Declaration.ofJson?, Declaration.record_toJson]
  simp only [Option.bind_eq_bind, Option.bind_some]
  rw [defaulted_of_get "name" declaration.name
      (by simp [Record.get?, Dict.lookup_append, lookup_memberIfSome]),
    defaulted_of_get "url" declaration.url
      (by simp [Record.get?, Dict.lookup_append, lookup_memberIfSome]),
    defaulted_of_get "path" declaration.path
      (by simp [Record.get?, Dict.lookup_append, lookup_memberIfSome]),
    defaulted_of_get "id" declaration.id
      (by simp [Record.get?, Dict.lookup_append, lookup_memberIfSome]),
    defaulted_of_get "requirement" declaration.requirement
      (by simp [Record.get?, Dict.lookup_append, lookup_memberIfSome])]
  rfl

theorem Declaration.isPlain_toJson {room : Nat} (declaration : Declaration)
    (fits : 0 < room) : declaration.toJson.isPlain room := by
  have plain := fun name text =>
    @plainMembers_memberIfSome (room - 1) name text
  refine isPlain_obj fits ?_
  exact plainMembers_append (plainMembers_append (plainMembers_append
    (plainMembers_append (plain _ _) (plain _ _)) (plain _ _)) (plain _ _))
    (plain _ _)

theorem Product.reread_toJson (product : Product) :
    product.toJson.reread = product.toJson := by
  simp only [Product.toJson, reread, rereadMembers, reread_ofTexts]

theorem Product.ofJson_toJson (product : Product) :
    Product.ofJson? product.toJson = some product := by
  have record : product.toJson.record? ["name", "kind", "targets"] =
      some ⟨[("name", .str product.name), ("kind", .str product.kind),
        ("targets", ofTexts product.targets)], false⟩ :=
    record_of_sublist (by decide) (List.Sublist.refl _)
  rw [Product.ofJson?, record]
  simp [Record.required, Record.defaulted, Record.get?, Dict.lookup, str?,
    texts_ofTexts]

theorem Product.isPlain_toJson {room : Nat} (product : Product)
    (fits : 1 < room) : product.toJson.isPlain room := by
  have texts := isPlain_ofTexts product.targets (by omega : 0 < room - 1)
  refine isPlain_obj (by omega) ?_
  simp only [plainMembers, isPlain_str, texts, Bool.and_self]

end Manifest

/-! ### Graphs -/

namespace Graph

open Json Manifest

theorem reread_targetJson (target : Target) :
    (targetJson target).reread = targetJson target := by
  have sources : ((target.sources.map ofTexts).getD .null).reread =
      (target.sources.map ofTexts).getD .null := by
    cases target.sources with
    | none => rfl
    | some texts => exact reread_ofTexts texts
  simp only [targetJson, reread, rereadMembers, reread_ofOption, sources,
    rereadItems_map Dependency.reread_toJson]

theorem ofJson_targetJson (target : Target) :
    Target.ofJson? (targetJson target) = some target := by
  have record : (targetJson target).record?
      ["name", "kind", "path", "sources", "dependencies"] =
        some ⟨[("name", .str target.name), ("kind", .str target.kind.label),
          ("path", ofOption target.path),
          ("sources", (target.sources.map ofTexts).getD .null),
          ("dependencies", .arr (target.dependencies.map Dependency.toJson))],
          false⟩ :=
    record_of_sublist (by decide) (List.Sublist.refl _)
  rw [Target.ofJson?, record]
  simp [Record.required, Record.defaulted, Record.get?, Dict.lookup, str?,
    TargetKind.ofJson_label, nullable_ofOption, nullable_texts,
    list_map Dependency.ofJson_toJson]

theorem isPlain_targetJson {room : Nat} (target : Target) (fits : 2 < room) :
    (targetJson target).isPlain room := by
  have inner : 0 < room - 1 := by omega
  have sources : ((target.sources.map ofTexts).getD .null).isPlain (room - 1) := by
    cases target.sources with
    | none => rfl
    | some texts => exact isPlain_ofTexts texts inner
  have dependencies : (Json.arr
      (target.dependencies.map Dependency.toJson)).isPlain (room - 1) :=
    isPlain_list inner fun dependency =>
      Dependency.isPlain_toJson dependency (by omega)
  refine isPlain_obj (by omega) ?_
  simp only [plainMembers, isPlain_str, isPlain_ofOption, sources, dependencies,
    Bool.and_self]

/-- The document of a graph is written as it is read. -/
theorem isPlain_toJson (graph : Graph) : graph.toJson.isPlain 127 := by
  have targets : (ofDict targetJson graph.targets).isPlain 126 :=
    isPlain_ofDict graph.targets (by decide) fun target =>
      isPlain_targetJson target (by decide)
  have declarations : (Json.arr
      (graph.declarations.map Declaration.toJson)).isPlain 126 :=
    isPlain_list (by decide) fun declaration =>
      Declaration.isPlain_toJson declaration (by decide)
  have products : (Json.arr (graph.products.map Product.toJson)).isPlain 126 :=
    isPlain_list (by decide) fun product =>
      Product.isPlain_toJson product (by decide)
  have order : (ofTexts graph.order).isPlain 126 :=
    isPlain_ofTexts graph.order (by decide)
  refine isPlain_obj (by decide) ?_
  simp only [plainMembers, isPlain_str, isPlain_ofNat, targets, declarations,
    products, order, Bool.and_self]

/-- A word that is read where a number was written is the number. -/
theorem eq_of_natBelow {bound number other : Nat}
    (read : natBelow? bound (numberOf number) = some other) : other = number := by
  by_cases small : number < Text.wordCount 64
  · rw [numberOf_small small, natBelow?] at read
    split at read
    · exact (Option.some.inj read).symm
    · cases read
  · rcases numberOf_great small with ⟨value, great⟩ | great
    · rw [great] at read
      cases read
    · rw [great] at read
      cases read

/-- What is read from the document of a graph: its numbers as they are read, and
all else as it is. -/
theorem ofJson_reread (graph : Graph) :
    ofJson? graph.toJson.reread =
      (word32? (numberOf graph.schemaVersion)).bind fun schemaVersion =>
        (word64? (numberOf graph.modified)).map fun modified =>
          { graph with schemaVersion := schemaVersion, modified := modified } := by
  have targets : (ofDict targetJson graph.targets).reread =
      ofDict targetJson graph.targets :=
    reread_ofDict graph.targets reread_targetJson
  have record : graph.toJson.reread.record? fieldNames =
      some ⟨[("schemaVersion", numberOf graph.schemaVersion),
        ("packagePath", .str graph.manifest.text),
        ("packageDir", .str graph.directory.text),
        ("mtimeMs", numberOf graph.modified),
        ("packageName", .str graph.packageName),
        ("targets", ofDict targetJson graph.targets),
        ("targetsList", ofTexts graph.order),
        ("packageDecls", .arr (graph.declarations.map Declaration.toJson)),
        ("products", .arr (graph.products.map Product.toJson))], false⟩ := by
    simp only [toJson, reread, rereadMembers, targets, reread_ofTexts,
      rereadItems_map Declaration.reread_toJson,
      rereadItems_map Product.reread_toJson]
    exact record_of_sublist (by decide) (List.Sublist.refl _)
  rw [ofJson?, record]
  simp only [Record.required, Record.get?, Record.defaulted, Option.pure_def,
    Option.bind_eq_bind, Option.bind_some, Dict.lookup, ↓reduceIte, String.reduceEq,
    str?, dict_ofDict graph.targets ofJson_targetJson, texts_ofTexts,
    list_map Declaration.ofJson_toJson, list_map Product.ofJson_toJson,
    Option.map_eq_bind, Function.comp_def]

/-- What is read from the document of a graph is the graph. -/
theorem eq_of_ofJson {graph other : Graph}
    (read : ofJson? graph.toJson.reread = some other) : other = graph := by
  rw [ofJson_reread, Option.bind_eq_some_iff] at read
  obtain ⟨schemaVersion, version, later⟩ := read
  obtain ⟨modified, time, rfl⟩ := Option.map_eq_some_iff.mp later
  cases eq_of_natBelow version
  cases eq_of_natBelow time
  rfl

/-- What is read from the text of a graph's document is the graph. -/
theorem eq_of_read {graph other : Graph}
    (read : (Json.read? (documentText graph.toJson)).bind ofJson? = some other) :
    other = graph := by
  rw [read_documentText (isPlain_toJson graph), Option.bind_some] at read
  exact eq_of_ofJson read

end Graph

end PackageLayers
