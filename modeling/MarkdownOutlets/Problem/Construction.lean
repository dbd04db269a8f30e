import MarkdownOutlets.Problem.Mismatch

/-! # Failures of callers

  Callers may make a failure of their own from the word for its class, a
  wording, details and, for a problem of composition, the path of a source.
  Such a problem needs a wording and one of the kinds of problem.
-/

namespace MarkdownOutlets

namespace Failure

/-- The word for the class of all problems of composition. No failure is of
    this class and of none of its kinds. -/
def compositionCode : Text := "ComposeError".toList

/-- The word for the class that says how a failure is made. -/
def makerCode : FailureClass → Text
  | .general | .config => FailureClass.general.code
  | .composition _ => compositionCode
  | cls => cls.code

/-- A value in a running text: a text stands for itself. -/
def wording (v : Value) : Text := v.text?.getD v.quoted

/-- The failure of a class that some fields give. -/
def ofClass (cls : FailureClass) (given : Entries) : Except Mismatch Failure :=
  let message := (given.field? "message").map wording
  let context := ((given.field? "context").bind Value.entries?).getD []
  let path := given.field? "source_path"
  match cls.kind?, message, path with
  | none, _, some _ => .error (.unknownArgument (makerCode cls) "source_path".toList)
  | none, message, none => .ok (.make cls (message.getD []) context none)
  | some _, none, _ => .error (.missingArgument (makerCode cls) "message".toList)
  | some _, some message, path => .ok (.make cls message context (path.bind Value.text?))

/-- The failure that the word for a class and some fields give. An unknown
    word stands for no particular class. -/
def ofFields (code : Text) (given : Entries) : Except Mismatch Failure :=
  if code = compositionCode then
    if (given.field? "message").isSome then .error (.noAttribute compositionCode "kind".toList)
    else .error (.missingArgument compositionCode "message".toList)
  else ofClass ((FailureClass.ofCode? code).getD .general) given

end Failure

end MarkdownOutlets
