import MarkdownOutlets.Config.Bundle

/-! # Keywords of schemas

  A schema is data, and what it accepts is said by its keywords: a mapping
  accepts what each of its keywords accepts, and a truth value accepts
  everything or nothing. Members that are no keywords are annotations. The
  keywords here are those that the schema of configurations is written with.

  A keyword may lead to other schemas, and a reference back to an outer one, so
  that an argument says how many schemas may be looked into, one within the
  other.
-/

namespace MarkdownOutlets

namespace Config

/-- The kind that a word stands for. -/
def Kind.ofWord? (word : Text) : Option Kind :=
  [Kind.object, .text, .integer, .boolean].find? fun k => k.word = word

/-- The keywords. -/
inductive Keyword
  /-- The kind of the value. -/
  | type
  /-- Schemas for the members of a mapping by name. -/
  | properties
  /-- A schema for all other members. -/
  | additionalProperties
  /-- A schema for the keys of a mapping. -/
  | propertyNames
  /-- A pattern that is found in a text. -/
  | pattern
  /-- The least number of characters of a text. -/
  | minLength
  /-- The least value of a number. -/
  | minimum
  /-- The words that the value may be. -/
  | enum
  /-- Schemas of which one and no other accepts the value. -/
  | oneOf
  /-- A schema in another place. -/
  | ref
  deriving DecidableEq, Repr

namespace Keyword

/-- The spelling of a keyword. -/
def word : Keyword → String
  | .type => "type"
  | .properties => "properties"
  | .additionalProperties => "additionalProperties"
  | .propertyNames => "propertyNames"
  | .pattern => "pattern"
  | .minLength => "minLength"
  | .minimum => "minimum"
  | .enum => "enum"
  | .oneOf => "oneOf"
  | .ref => "$ref"

/-- All keywords. -/
def all : List Keyword :=
  [.type, .properties, .additionalProperties, .propertyNames, .pattern, .minLength, .minimum,
   .enum, .oneOf, .ref]

/-- The keyword that a key spells. -/
def ofKey? (key : Scalar) : Option Keyword := all.find? fun k => key = .text k.word.toList

/-- A number is less than an integer. What is no number is not. -/
def isBelow (bound : Int) : Value → Bool
  | .scalar (.int i) => i < bound
  | .scalar (.float x) => x.isBelow bound
  | _ => false

/-- The names with a schema of their own in a schema. -/
def ownNames (schema : Entries) : Entries :=
  ((schema.field? "properties").bind Rule.members?).getD []

/-- The schema in another place of a schema, if the reference is to one of its
    definitions. -/
def definition? (root : Value) (reference : Text) : Option Value := do
  let start := "#/$defs/".toList
  let definitions ← (← Rule.members? root).field? "$defs"
  if start.isPrefixOf reference then
    (← Rule.members? definitions).get? (.text (reference.drop start.length))
  else none

/-- What a keyword accepts. It is the member of a schema with an argument, and
    parts of the value are looked at with other schemas. A keyword for one kind
    of values accepts all values of other kinds. -/
def accepts (finds : (pattern t : Text) → Bool) (root : Value)
    (inner : (schema v : Value) → Bool) (schema : Entries) (argument v : Value) : Keyword → Bool
  | .type => (argument.text?.bind Kind.ofWord?).any fun k => Rule.isOfKind k v
  | .properties =>
    ((Rule.members? argument).getD []).all fun (name, part) =>
      (((Rule.members? v).bind (Entries.get? · name)).map (inner part)).getD true
  | .additionalProperties =>
    ((Rule.members? v).getD []).all fun (key, x) =>
      ((ownNames schema).get? key).isSome || inner argument x
  | .propertyNames => ((Rule.members? v).getD []).all fun (key, _) => inner argument (.scalar key)
  | .pattern =>
    match argument.text?, v.text? with
    | some sought, some t => finds sought t
    | _, _ => true
  | .minLength =>
    match argument, v.text? with
    | .scalar (.int least), some t => least ≤ t.length
    | _, _ => true
  | .minimum =>
    match argument with
    | .scalar (.int least) => !isBelow least v
    | _ => true
  | .enum =>
    match argument with
    | .list words => v.text?.any fun t => words.any fun word => word.text? = some t
    | _ => false
  | .oneOf =>
    match argument with
    | .list schemas => (schemas.filter fun schema => inner schema v).length = 1
    | _ => false
  | .ref => ((argument.text?.bind (definition? root)).map fun schema => inner schema v).getD false

end Keyword

/-- A schema accepts a value. -/
def accepts (finds : (pattern t : Text) → Bool) (root : Value) : (depth : Nat) →
    (schema v : Value) → Bool
  | 0, _, _ => false
  | _ + 1, .scalar (.bool b), _ => b
  | depth + 1, .dict schema, v =>
    schema.all fun (key, argument) =>
      ((Keyword.ofKey? key).map
        (Keyword.accepts finds root (accepts finds root depth) schema argument v)).getD true
  | _ + 1, _, _ => false

end Config

end MarkdownOutlets
