import MarkdownOutlets.Config.SlotName
import MarkdownOutlets.Document.Basic
import MarkdownOutlets.Document.Invalid
import MarkdownOutlets.Path.Basic
import MarkdownOutlets.Text.Table

/-! # Slot arguments

  On the command line a slot is given as `name=value`. The value is the text
  of the slot, or the path of a file behind an at sign.
-/

namespace MarkdownOutlets

namespace Config

/-- The values of slot arguments by name. -/
abbrev SlotArguments := TextTable

namespace SlotArguments

/-- The name and the value of one argument. -/
def parseOne (raw : Text) : Except Invalid (Text × Text) :=
  match Text.cutFirst '=' raw with
  | none => .error (.slotFormat raw)
  | some (name, value) =>
    if name = [] then .error (.emptySlotName raw)
    else if !isSlotName name then .error (.slotName name)
    else .ok (name, value)

/-- The arguments by name, or what is wrong with the first bad one. -/
def parse (raw : List Text) : Except Invalid SlotArguments := do
  let pairs ← raw.mapM parseOne
  return pairs.foldl (fun sofar pair => TextTable.put sofar pair.1 pair.2) []

/-- The slot that the value of an argument gives. -/
def slotOf (places : FilePath.Places) (base : FilePath) : Text → Slot
  | '@' :: path => .source (places.within base path)
  | value => .literal value

/-- The slots that arguments give, with files in a base directory. -/
def toSlots (places : FilePath.Places) (base : FilePath) (arguments : SlotArguments) : Slots :=
  arguments.map fun (name, value) => (.text name, slotOf places base value)

end SlotArguments

end Config

end MarkdownOutlets
