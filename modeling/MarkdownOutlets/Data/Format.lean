import MarkdownOutlets.Data.Value
import MarkdownOutlets.Data.ValueFault
import MarkdownOutlets.Text.Utf8

/-! # Data formats

  Data is written in one of two formats. Which texts are documents of a
  format, and what they denote, is left to the readers of the formats: what
  is done with data does not depend on it.
-/

namespace MarkdownOutlets

/-- The formats of data files. -/
inductive DataFormat
  /-- JSON. -/
  | json
  /-- YAML. -/
  | yaml
  deriving DecidableEq, Repr

/-- What a reader of a format finds wrong with a text. -/
inductive ReadFault
  /-- It is no document of the format, for a reason in words. -/
  | malformed (reason : Text)
  /-- A part of it has the form of a value and denotes none. -/
  | value (fault : ValueFault)
  deriving DecidableEq, Repr

/-- Readers of the formats. -/
class DataReaders where
  /-- The value that a text denotes. -/
  parse : DataFormat → Text → Except ReadFault Value
  /-- The first fault in a YAML document whose bytes are no text. It is read
      as a stream, so that it may be one of the text before these bytes. -/
  streamFault : Bytes → Utf8.Fault → Except ReadFault Utf8.Fault

end MarkdownOutlets
