/-
Purpose: The documents that are kept between runs are read back.
Main exports: Json.ReadsBack, ProjectMap.readsBack_toJson,
  ProjectMap.read_documentText, stored_documents_read_back
-/
import PackageLayers.Project.Document
import PackageLayers.Proofs.Graph.Documents

namespace PackageLayers

/-!
A document reads back if it is written as plain text, is the same when it is
parsed again, and its reader gives the value that it was made from.  This goes up
from texts through tables and records to the whole map.  The map holds one number,
the version of its layout, and one moment; both have to be among those that are
read.

So no two values share a document: a list that is absent and a list that is empty
have different documents wherever the value tells them apart.  A product always has
a list of targets; an empty one is not written, and it does not matter if it is.
-/

namespace Json

variable {α : Type}

/-- A document from which `decode` gives the value, when it is written as text and
parsed again; it nests no deeper than `depth`. -/
structure ReadsBack (depth : Nat) (decode : Json → Option α) (document : Json)
    (value : α) : Prop where
  reread : document.reread = document
  read : decode document = some value
  plain : ∀ room, depth ≤ room → document.isPlain room

theorem readsBack_text (text : String) : ReadsBack 0 str? (.str text) text where
  reread := rfl
  read := rfl
  plain := fun _ _ => rfl

theorem readsBack_texts (texts : List String) :
    ReadsBack 1 texts? (ofTexts texts) texts where
  reread := reread_ofTexts texts
  read := texts_ofTexts texts
  plain := fun _ fits => isPlain_ofTexts texts fits

theorem readsBack_dict {depth : Nat} {decode : Json → Option α}
    {encode : α → Json} (each : ∀ value, ReadsBack depth decode (encode value) value)
    (dict : Dict α) :
    ReadsBack (depth + 1) (dict? decode) (ofDict encode dict) dict where
  reread := reread_ofDict dict fun value => (each value).reread
  read := dict_ofDict dict fun value => (each value).read
  plain := fun _ fits =>
    isPlain_ofDict dict (by omega) fun value => (each value).plain _ (by omega)

/-- The members of an object read back if each does and the object's reader gives
the value. -/
theorem readsBack_obj {depth : Nat} {decode : Json → Option α}
    {members : List (String × Json)} {value : α}
    (reread : rereadMembers members = members)
    (read : decode (.obj members) = some value)
    (plain : ∀ room, depth ≤ room → plainMembers room members) :
    ReadsBack (depth + 1) decode (.obj members) value where
  reread := by rw [Json.reread, reread]
  read := read
  plain := fun room fits => isPlain_obj (by omega) (plain (room - 1) (by omega))

section

variable {β : Type} {record : Record} {name : String} {document : Json} {value : α}
  {decode : Json → Option α} {next : α → Option β}

theorem Record.bind_required (given : record.get? name = some document)
    (read : decode document = some value) :
    (record.required name decode).bind next = next value := by
  rw [Record.required, given, Option.bind_some, read, Option.bind_some]

theorem Record.bind_defaulted {default : α}
    (given : record.get? name = some document)
    (read : decode document = some value) :
    (record.defaulted name default decode).bind next = next value := by
  rw [Record.defaulted, given]
  dsimp only
  rw [read, Option.bind_some]

end

theorem reread_ofNat {number : Nat} (small : number < Text.wordCount 64) :
    (ofNat number).reread = ofNat number :=
  numberOf_small small

theorem natBelow_ofNat {bound number : Nat} (small : number < bound) :
    natBelow? bound (ofNat number) = some number := by
  rw [ofNat, natBelow?]
  exact if_pos ⟨Int.natCast_nonneg number, Int.ofNat_lt.mpr small⟩

theorem word32_ofNat {number : Nat} (small : number < Text.wordCount 32) :
    word32? (ofNat number) = some number :=
  natBelow_ofNat small

theorem word64_ofNat {number : Nat} (small : number < Text.wordCount 64) :
    word64? (ofNat number) = some number :=
  natBelow_ofNat small

theorem nullable_ofTexts (texts : List String) :
    nullable texts? (ofTexts texts) = some (some texts) :=
  nullable_texts (some texts)

end Json

namespace Project

open Json

theorem PackageEntry.readsBack_toJson (entry : PackageEntry) :
    ReadsBack 2 ofJson? entry.toJson entry := by
  obtain ⟨directory, manifest, targets⟩ := entry
  cases targets with
  | none => exact readsBack_obj rfl rfl fun _ _ => rfl
  | some texts =>
      have names := readsBack_texts texts
      have record : (toJson ⟨directory, manifest, some texts⟩).record?
          ["packageDir", "packageSwiftPath", "targets"] =
            some ⟨[("packageDir", .str directory),
              ("packageSwiftPath", .str manifest), ("targets", ofTexts texts)],
              false⟩ :=
        record_of_sublist (by decide) (List.Sublist.refl _)
      refine readsBack_obj ?_ ?_ fun room fits => ?_
      · simp only [memberIfSome, List.cons_append, List.nil_append, rereadMembers,
          Json.reread, names.reread]
      · change ofJson? (toJson ⟨directory, manifest, some texts⟩) = _
        rw [ofJson?, record]
        simp [Record.required, Record.defaulted, Record.get?, Dict.lookup, str?,
          nullable_ofTexts]
      · simp only [memberIfSome, List.cons_append, List.nil_append, plainMembers,
          isPlain_str, names.plain room fits, Bool.and_self]

theorem ProductEntry.readsBack_toJson (entry : ProductEntry) :
    ReadsBack 2 ofJson? entry.toJson entry := by
  obtain ⟨kind, name, package, targets⟩ := entry
  cases targets with
  | nil => exact readsBack_obj rfl rfl fun _ _ => rfl
  | cons target targets =>
      have names := readsBack_texts (target :: targets)
      have record : (toJson ⟨kind, name, package, target :: targets⟩).record?
          ["kind", "name", "package", "targets"] =
            some ⟨[("kind", .str kind), ("name", .str name),
              ("package", .str package), ("targets", ofTexts (target :: targets))],
              false⟩ :=
        record_of_sublist (by decide) (List.Sublist.refl _)
      refine readsBack_obj ?_ ?_ fun room fits => ?_
      · simp only [List.isEmpty_cons, Bool.false_eq_true, if_false, List.cons_append,
          List.nil_append, rereadMembers, Json.reread, names.reread]
      · change ofJson? (toJson ⟨kind, name, package, target :: targets⟩) = _
        rw [ofJson?, record]
        simp [Record.required, Record.defaulted, Record.get?, Dict.lookup, str?,
          names.read]
      · simp only [List.isEmpty_cons, Bool.false_eq_true, if_false, List.cons_append,
          List.nil_append, plainMembers, isPlain_str, names.plain room fits,
          Bool.and_self]

theorem Origin.readsBack_toJson (origin : Origin) :
    ReadsBack 1 ofJson? origin.toJson origin := by
  obtain ⟨url, path, requirement⟩ := origin
  cases url <;> cases path <;> cases requirement <;>
    exact readsBack_obj rfl rfl fun _ _ => rfl

theorem MapPolicy.readsBack_toJson (policy : MapPolicy) :
    ReadsBack 1 ofJson? policy.toJson policy :=
  readsBack_obj rfl rfl fun _ _ => rfl

theorem PackageNode.readsBack_toJson (node : PackageNode) :
    ReadsBack 2 ofJson? node.toJson node := by
  have names := readsBack_texts node.targets
  have record : node.toJson.record? ["packageDir", "manifestPath", "targets"] =
      some ⟨[("packageDir", .str node.directory),
        ("manifestPath", .str node.manifest), ("targets", ofTexts node.targets)],
        false⟩ :=
    record_of_sublist (by decide) (List.Sublist.refl _)
  refine readsBack_obj ?_ ?_ fun room fits => ?_
  · simp only [rereadMembers, Json.reread, names.reread]
  · change ofJson? node.toJson = _
    rw [ofJson?, record]
    simp [Record.required, Record.get?, Dict.lookup, str?, names.read]
  · simp only [plainMembers, isPlain_str, names.plain room fits, Bool.and_self]

/-- Whether the moment of a graph's making, if it has one, is one that is read. -/
def PackageGraph.isDated (graph : PackageGraph) : Bool :=
  graph.generatedAt.all fun moment => Timestamp.ofText? moment.text == some moment

theorem PackageGraph.readsBack_toJson {graph : PackageGraph}
    (dated : graph.isDated) : ReadsBack 4 ofJson? graph.toJson graph := by
  obtain ⟨packages, edges, paths, generatedAt, root⟩ := graph
  have nodes := readsBack_dict PackageNode.readsBack_toJson packages
  have lists := readsBack_dict readsBack_texts edges
  have declared := readsBack_dict (readsBack_dict readsBack_text) paths
  cases generatedAt with
  | none =>
      have record : (toJson ⟨packages, edges, paths, none, root⟩).record?
          ["packages", "edges", "pathDecls", "generatedAt", "projectRoot"] =
            some ⟨[("packages", ofDict PackageNode.toJson packages),
              ("edges", ofDict ofTexts edges),
              ("pathDecls", ofDict (ofDict .str) paths),
              ("projectRoot", .str root)], false⟩ :=
        record_of_sublist (by decide) (by
          change ["packages", "edges", "pathDecls", "projectRoot"].Sublist _
          decide)
      refine readsBack_obj ?_ ?_ fun room fits => ?_
      · simp only [memberIfSome, List.cons_append, List.nil_append, rereadMembers,
          Json.reread, nodes.reread, lists.reread, declared.reread]
      · change ofJson? (toJson ⟨packages, edges, paths, none, root⟩) = _
        rw [ofJson?, record]
        simp [Record.required, Record.defaulted, Record.get?, Dict.lookup, str?,
          nodes.read, lists.read, declared.read]
      · simp only [memberIfSome, List.cons_append, List.nil_append, plainMembers,
          isPlain_str, nodes.plain room fits, lists.plain room (by omega),
          declared.plain room (by omega), Bool.and_self]
  | some moment =>
      have read : nullable timestamp? (.str moment.text) = some (some moment) :=
        congrArg (Option.map some) (beq_iff_eq.mp dated)
      have record : (toJson ⟨packages, edges, paths, some moment, root⟩).record?
          ["packages", "edges", "pathDecls", "generatedAt", "projectRoot"] =
            some ⟨[("packages", ofDict PackageNode.toJson packages),
              ("edges", ofDict ofTexts edges),
              ("pathDecls", ofDict (ofDict .str) paths),
              ("generatedAt", .str moment.text), ("projectRoot", .str root)],
              false⟩ :=
        record_of_sublist (by decide) (List.Sublist.refl _)
      refine readsBack_obj ?_ ?_ fun room fits => ?_
      · simp only [memberIfSome, List.cons_append, List.nil_append, rereadMembers,
          Json.reread, nodes.reread, lists.reread, declared.reread]
      · change ofJson? (toJson ⟨packages, edges, paths, some moment, root⟩) = _
        rw [ofJson?, record]
        simp [Record.required, Record.defaulted, Record.get?, Dict.lookup, str?,
          nodes.read, lists.read, declared.read, read]
      · simp only [memberIfSome, List.cons_append, List.nil_append, plainMembers,
          isPlain_str, nodes.plain room fits, lists.plain room (by omega),
          declared.plain room (by omega), Bool.and_self]

namespace ProjectMap

theorem readsBack_toJson {map : ProjectMap}
    (version : map.schemaVersion < Text.wordCount 32) (dated : map.graph.isDated) :
    ReadsBack 5 ofJson? map.toJson map := by
  have packages := readsBack_dict PackageEntry.readsBack_toJson map.packages
  have products := readsBack_dict ProductEntry.readsBack_toJson map.products
  have origins := readsBack_dict Origin.readsBack_toJson map.origins
  have policy := map.policy.readsBack_toJson
  have graph := PackageGraph.readsBack_toJson dated
  have short : map.schemaVersion < Text.wordCount 64 :=
    version.trans (Nat.pow_lt_pow_right (by decide) (by decide))
  have record : map.toJson.record? fieldNames =
      some ⟨[("schemaVersion", Json.ofNat map.schemaVersion),
        ("packages", ofDict PackageEntry.toJson map.packages),
        ("products", ofDict ProductEntry.toJson map.products),
        ("packageSources", ofDict Origin.toJson map.origins),
        ("policy", map.policy.toJson), ("graph", map.graph.toJson)], false⟩ :=
    record_of_sublist (by decide) (List.Sublist.refl _)
  refine readsBack_obj ?_ ?_ fun room fits => ?_
  · simp only [rereadMembers, reread_ofNat short, packages.reread, products.reread,
      origins.reread, policy.reread, graph.reread]
  · change ofJson? map.toJson = _
    rw [ofJson?, record]
    simp only [Option.bind_eq_bind]
    rw [Option.bind_some, Record.bind_required rfl (word32_ofNat version),
      Record.bind_defaulted rfl packages.read,
      Record.bind_defaulted rfl products.read,
      Record.bind_defaulted rfl origins.read, Record.bind_defaulted rfl policy.read,
      Record.bind_defaulted rfl graph.read]
    rfl
  · simp only [plainMembers, isPlain_ofNat, packages.plain room (by omega),
      products.plain room (by omega), origins.plain room (by omega),
      policy.plain room (by omega), graph.plain room fits, Bool.and_self]

/-- The text of a map's document reads as the map. -/
theorem read_documentText {map : ProjectMap}
    (version : map.schemaVersion < Text.wordCount 32) (dated : map.graph.isDated) :
    (Json.read? (documentText map.toJson)).bind ofJson? = some map := by
  have back := readsBack_toJson version dated
  rw [Json.read_documentText (back.plain 127 (by decide)), Option.bind_some,
    back.reread, back.read]

end ProjectMap

end Project

/-! ### Graphs and maps that can be kept -/

namespace Graph

open Json Manifest

/-- Whether the numbers of a graph fit into the words that hold them. -/
structure IsStorable (graph : Graph) : Prop where
  version : graph.schemaVersion < Text.wordCount 32
  modified : graph.modified < Text.wordCount 64

variable {graph : Graph}

theorem IsStorable.reread_toJson (storable : graph.IsStorable) :
    graph.toJson.reread = graph.toJson := by
  have version : graph.schemaVersion < Text.wordCount 64 :=
    storable.version.trans (Nat.pow_lt_pow_right (by decide) (by decide))
  have targets : (ofDict targetJson graph.targets).reread =
      ofDict targetJson graph.targets :=
    reread_ofDict graph.targets reread_targetJson
  simp only [toJson, reread, rereadMembers, targets, reread_ofNat version,
    reread_ofNat storable.modified, reread_ofTexts,
    rereadItems_map Declaration.reread_toJson,
    rereadItems_map Product.reread_toJson]

/-- The document of a graph is read as the graph. -/
theorem IsStorable.ofJson_toJson (storable : graph.IsStorable) :
    ofJson? graph.toJson = some graph := by
  have version : numberOf graph.schemaVersion = ofNat graph.schemaVersion :=
    numberOf_small
      (storable.version.trans (Nat.pow_lt_pow_right (by decide) (by decide)))
  rw [← storable.reread_toJson, ofJson_reread, version,
    word32_ofNat storable.version, Option.bind_some,
    numberOf_small storable.modified, ← ofNat, word64_ofNat storable.modified]
  rfl

/-- The text of a graph's document is read as the graph. -/
theorem IsStorable.read_documentText (storable : graph.IsStorable) :
    (Json.read? (documentText graph.toJson)).bind ofJson? = some graph := by
  rw [Json.read_documentText (isPlain_toJson graph), Option.bind_some,
    storable.reread_toJson, storable.ofJson_toJson]

end Graph

namespace Project

/-- Whether the version of a map fits into its word, and the moment of its making
is one that is read. -/
structure ProjectMap.IsStorable (map : ProjectMap) : Prop where
  version : map.schemaVersion < Text.wordCount 32
  dated : map.graph.isDated

/-- The document of a map is read as the map. -/
theorem ProjectMap.IsStorable.ofJson_toJson {map : ProjectMap}
    (storable : map.IsStorable) : ofJson? map.toJson = some map :=
  (readsBack_toJson storable.version storable.dated).read

/-- A package without known targets and one without targets are written
differently. -/
theorem PackageEntry.toJson_none_ne (directory manifest : String) :
    toJson ⟨directory, manifest, none⟩ ≠ toJson ⟨directory, manifest, some []⟩ := by
  intro same
  have read := (readsBack_toJson ⟨directory, manifest, none⟩).read
  rw [same, (readsBack_toJson ⟨directory, manifest, some []⟩).read] at read
  cases read

/-- Documents of graphs and of maps are read back, from values and from texts; so
different graphs and different maps have different documents.  In particular a
package with an empty list of targets is not one whose targets are not known,
whereas a product whose empty list is written is one whose list is left out. -/
theorem stored_documents_read_back :
    (∀ graph : Graph, graph.IsStorable →
      Graph.ofJson? graph.toJson = some graph ∧
        (Json.read? (documentText graph.toJson)).bind Graph.ofJson? = some graph ∧
          ∀ other : Graph, other.IsStorable → other.toJson = graph.toJson →
            other = graph) ∧
      (∀ map : ProjectMap, map.IsStorable →
        ProjectMap.ofJson? map.toJson = some map ∧
          (Json.read? (documentText map.toJson)).bind ProjectMap.ofJson? =
            some map ∧
            ∀ other : ProjectMap, other.IsStorable → other.toJson = map.toJson →
              other = map) ∧
        (∀ directory manifest : String,
          PackageEntry.toJson ⟨directory, manifest, none⟩ ≠
            PackageEntry.toJson ⟨directory, manifest, some []⟩) ∧
          ∀ kind name package : String,
            let product : ProductEntry := ⟨kind, name, package, []⟩
            ProductEntry.ofJson? product.toJson = some product ∧
              ProductEntry.ofJson?
                  (.obj [("kind", .str kind), ("name", .str name),
                    ("package", .str package), ("targets", .arr [])]) =
                some product := by
  refine ⟨fun graph storable => ⟨storable.ofJson_toJson,
    storable.read_documentText, fun other otherStorable same => ?_⟩,
    fun map storable => ⟨storable.ofJson_toJson,
      ProjectMap.read_documentText storable.version storable.dated,
      fun other otherStorable same => ?_⟩,
    PackageEntry.toJson_none_ne, fun kind name package => ⟨rfl, rfl⟩⟩
  · have read := otherStorable.ofJson_toJson
    rw [same, storable.ofJson_toJson] at read
    exact (Option.some.inj read).symm
  · have read := otherStorable.ofJson_toJson
    rw [same, storable.ofJson_toJson] at read
    exact (Option.some.inj read).symm

/-- A graph in which lists and texts are absent, empty and given. -/
def keptGraph : Graph where
  schemaVersion := 4294967295
  manifest := ⟨"/p/Package.swift"⟩
  directory := ⟨""⟩
  modified := 18446744073709551615
  packageName := ""
  targets := (Dict.empty.insert "A" { name := "A", sources := some [] }).insert "B"
    { name := "C", kind := .macroTarget, path := some "",
      dependencies := [.bare "A", .product "\n" "\"", .byName "", .target "B"] }
  order := ["B", "B"]
  declarations := [{}, { url := some "", requirement := some "1.0.0" }]
  products := [{ name := "", kind := "", targets := [] }]

/-- A map with packages whose targets are not known, none and some. -/
def keptMap : ProjectMap where
  packages := ((Dict.empty.insert "A" ⟨"/a", "/a/Package.swift", none⟩).insert "B"
    ⟨"/b", "/b/Package.swift", some []⟩).insert "C" ⟨"", "", some ["T", ""]⟩
  products := (Dict.empty.insert "K" ⟨"product", "K", "A", []⟩).insert "L"
    ⟨"", "M", "", ["T"]⟩
  origins := (Dict.empty.insert "A" {}).insert "B" { path := some "" }
  graph := { generatedAt := some ⟨"2024-02-29T23:59:59Z"⟩ }

theorem stored_documents_read_back_sample :
    keptGraph.IsStorable ∧ keptMap.IsStorable ∧
      (Json.read? (documentText keptGraph.toJson)).bind Graph.ofJson? =
        some keptGraph ∧
      (Json.read? (documentText keptMap.toJson)).bind ProjectMap.ofJson? =
        some keptMap := by
  have graph : keptGraph.IsStorable := ⟨by decide +kernel, by decide +kernel⟩
  have map : keptMap.IsStorable := ⟨by decide +kernel, by decide +kernel⟩
  exact ⟨graph, map, (stored_documents_read_back.1 keptGraph graph).2.1,
    (stored_documents_read_back.2.1 keptMap map).2.1⟩

end Project

end PackageLayers
