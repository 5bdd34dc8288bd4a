import FilmReport.Fault.Basic
import FilmReport.Shape.Field

/-!
Faults as they are written out, and the check that a value is one.
-/

set_option autoImplicit false
set_option relaxedAutoImplicit false

namespace FilmReport.Fault

open Shape

/-- A fault written out, with the time at which it was. -/
structure Record where
  code : Code
  message : String
  severity : Severity
  context : Option Fields
  timestamp : String
  cause : Option String
deriving Repr

namespace Record

def toJson (r : Record) : Json :=
  .object <|
    [("code", .string r.code.text), ("message", .string r.message),
     ("severity", .string r.severity.text)] ++
    Fields.ofOption "context" (r.context.map .object) ++ [("timestamp", .string r.timestamp)] ++
    Fields.ofOption "cause" (r.cause.map .string)

def check : Option Json → Checked Record :=
  record fun r =>
    Record.mk <$> at_ "code" (option Code.listed Code.text (Code.listed.map Code.text)) r
      <*> at_ "message" (text 0) r
      <*> at_ "severity"
        (option Severity.listed Severity.text (Severity.listed.map Severity.text)) r
      <*> at_ "context" (optional anyFields) r
      <*> at_ "timestamp" dateTime r
      <*> at_ "cause" (optional (text 0)) r

/-- Whether the context of a value can be looked at: its maker, if it names one, is not `null`. -/
def isReadable (field : Option Json) : Bool :=
  let context := (field.bind (Json.get? "context")).bind (Json.get? "constructor")
  match context with
  | some .null => false
  | _ => true

/-- The check of a value, or why it cannot be looked at. -/
def read (field : Option Json) : Except String (Checked Record) :=
  if isReadable field then .ok (check field)
  else .error "Cannot read properties of null (reading 'prototype')"

end Record

/--
A fault of the given severity; a thrown value, if there is one, is kept in words. There is no fault
for a thrown value without words.
-/
def ofThrown (code : Code) (message : String) (severity : Severity) (context : Fields)
    (cause : Option Json) : Option Fault :=
  match cause with
  | none => some ⟨code, message, severity, context, none⟩
  | some thrown => thrown.words?.map fun words => ⟨code, message, severity, context, some words⟩

end FilmReport.Fault
