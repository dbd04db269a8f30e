import MarkdownOutlets.Data.Format
import MarkdownOutlets.Data.Json.Reader
import MarkdownOutlets.Data.Yaml.Reader
import MarkdownOutlets.Text.Stream

/-! # The readers of the program

  Every JSON document can be read, and of YAML documents those in which
  values are written as flow collections, as block collections or on a
  line: neither block texts, anchors, tags and directives nor keys behind a
  question mark are known.
-/

namespace MarkdownOutlets

/-- A fault of a JSON document. -/
def ReadFault.ofJson : Json.Fault → ReadFault
  | .malformed reason => .malformed reason.message
  | .value fault => .value fault

/-- A fault of a YAML document. -/
def ReadFault.ofYaml : Yaml.Fault → ReadFault
  | .malformed reason => .malformed reason.message
  | .value fault => .value fault

instance : DataReaders where
  parse
    | .json, t => (Json.parse t).mapError .ofJson
    | .yaml, t => (Yaml.parse t).mapError .ofYaml
  streamFault bytes fault :=
    let (known, found) := Utf8.Stream.beforeFault bytes
    match Yaml.read known with
    | .error s => if s.left = 0 then .ok (found.getD fault) else .error (.ofYaml s.fault)
    | .ok _ => .ok (found.getD fault)

end MarkdownOutlets
