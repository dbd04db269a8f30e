import MarkdownOutlets.Config.Schema
import MarkdownOutlets.Path.Basic

/-! # Bundled data

  The data files that come with the program: the standard options of the
  command line and the schema of configurations.
-/

namespace MarkdownOutlets

namespace Config

/-- The options that apply unless a configuration or an argument says
    otherwise. -/
def defaults : Entries :=
  [("resolveFrom", Value.text "file".toList), ("onFileError", .text "warn-empty".toList),
   ("onMissingSlot", .text "keep".toList), ("maxDepth", .int 10),
   ("parallel", .bool true)].map fun option => (.text option.1.toList, option.2)

/-- The name of the schema of configurations. -/
def schemaName : Text := "config.schema".toList

/-- A data file. -/
structure DataFile where
  /-- Its data. -/
  data : Value
  /-- The faults that it finds in a value as a schema. Data that has no
      keyword of schemas finds none. -/
  faults : Value → List SchemaFault := fun _ => []

/-- Names that lead to a place from the directory in which the program is
    installed. -/
def place (path : String) : List Text := FilePath.namesOf path.toList

/-- The directories of the data files, and those around them. -/
def directories : List (List Text) :=
  ["", "mdslots", "mdslots/data", "mdslots/data/config", "mdslots/data/schemas"].map place

/-- The data files by place. -/
def bundle : List (List Text × DataFile) :=
  [(place "mdslots/data/config/defaults.yaml", { data := .object [("compose", .dict defaults)] }),
   (place "mdslots/data/schemas/config.schema.yaml", { data := schema, faults := schemaFaults })]

/-- The place that names lead to from another place. Every name is looked up
    in a directory. -/
def walk (here : List Text) : List Text → Option (List Text)
  | [] => some here
  | name :: rest =>
    if directories.contains here then
      walk (if name = FilePath.up then here.dropLast else here ++ [name]) rest
    else none

/-- A name ends like that of a data file. -/
def hasDataExtension (name : Text) : Bool :=
  let lower := name.map Char.toLower
  ".yaml".toList.isSuffixOf lower || ".yml".toList.isSuffixOf lower

/-- The file name of a schema, which gets an extension if it has none. -/
def schemaFileName (name : Text) : Text :=
  if hasDataExtension name then name else name ++ ".yaml".toList

/-- The schema of a name, if there is one. The name is a path from the
    directory of the schemas. -/
def schema? (name : Text) : Option DataFile := do
  let p := FilePath.ofText (schemaFileName name)
  if p.isAbsolute then none
  else bundle.lookup (← walk (place "mdslots/data/schemas") p.names)

/-- The wording for a schema that is not there. -/
def missingSchemaMessage (name : Text) : Text :=
  "Schema not found: ".toList ++ schemaFileName name

/-- The faults that the schema of a name finds in a value, or the wording for a
    schema that is not there. -/
def faultsFor (name : Text) (v : Value) : Except Text (List SchemaFault) :=
  match schema? name with
  | some file => .ok (file.faults v)
  | none => .error (missingSchemaMessage name)

/-- What callers see of the faults that a schema finds. -/
def schemaFailure (name : Text) (faults : List SchemaFault) : Failure :=
  let messages := faults.map SchemaFault.message
  .make .schema
    ("Validation failed against schema '".toList ++ name ++ "':\n  ".toList
      ++ Text.join "\n  ".toList messages)
    [(.text "schema".toList, .text name), (.text "errors".toList, .list (messages.map .text))]
    none

end Config

end MarkdownOutlets
