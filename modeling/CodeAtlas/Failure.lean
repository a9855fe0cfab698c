import CodeAtlas.Json.Parser
import CodeAtlas.Json.Printer
import CodeAtlas.Text.Encoding

/-!
# Why an operation ends early

`Failure` lists the causes; `Failure.message` is their wording, in one place. A refusal of a request
has a status and a detail for the caller and no wording of its own.
-/
namespace CodeAtlas

inductive FieldFault where
  | missing
  | notText
  | nullNotAllowed
  | notList
  | notInteger
  | notBoolean
  | notObject
  /-- A value that can be neither a name nor one of several choices. -/
  | unusable
  | notPermitted
  | rejected
  deriving DecidableEq, Repr

/-- Why an operation ends early. -/
inductive Failure where
  | refused (status : Nat) (detail : String) (headers : List (String × String))
  | missingKey (key : Json)
  /-- A position outside a sequence of the named kind. -/
  | outOfRange (sequence : String)
  /-- A value of a kind that the operation does not work on. -/
  | unfit (reason : String)
  /-- A value of the right kind that the operation does not accept. -/
  | invalid (reason : String)
  | undecodable (fault : Utf8.Fault)
  | noMember (owner name : String)
  | unassigned (name : String)
  | fileMissing (path : String)
  | fileExists (path : String)
  | fileDenied (path : String)
  /-- A row breaks a rule of its table. -/
  | constraintBroken
  /-- A statement that writes while the store is read only, or that the store cannot carry out. -/
  | storeRefused
  /-- A request that the store's interface does not take. -/
  | storeMisused (reason : String)
  | columnRefused (reason : String)
  /-- A value that cannot stand in a statement. -/
  | unbindable
  /-- A number outside the range that the operation works on. -/
  | overflow (reason : String)
  /-- A description that its reader has no rule for. -/
  | unforeseen (reason : String)
  | argumentRejected (reason : String)
  | graphRejected
  | graphSyntax
  | graphDown
  | graphConstraint
  /-- An object that the hosting service does not know. -/
  | unknownObject (reason : String)
  | notRepository (path : String)
  | gitFailed
  /-- A text that shows no value. -/
  | unreadable (fault : Json.Fault)
  | divisionByZero
  /-- A description that goes on below the greatest depth. -/
  | tooDeep
  | inputExhausted
  /-- A failure that consists of its wording. -/
  | general (message : String)
  | halted (message : String)
  | invalidFields (faults : List (String × FieldFault))
  deriving DecidableEq

namespace Json.Fault

def message : Fault → String
  | malformed => "Expecting value: line 1 column 1 (char 0)"
  | numberTooLong digits =>
    s!"Exceeds the limit ({Integer.maxDigits} digits) for integer string conversion: " ++
      s!"value has {digits} digits; use sys.set_int_max_str_digits() to increase the limit"
  | tooDeep => "maximum recursion depth exceeded while decoding a JSON array from a unicode string"

end Json.Fault

namespace Failure

def refuse (status : Nat) (detail : String) : Failure := .refused status detail []

def message : Failure → String
  | refused _ _ _ => ""
  | missingKey key => key.literal
  | outOfRange sequence => s!"{sequence} index out of range"
  | unfit reason => reason
  | invalid reason => reason
  | undecodable fault => fault.message
  | noMember owner name => s!"'{owner}' object has no attribute '{name}'"
  | unassigned name =>
    s!"cannot access local variable '{name}' where it is not associated with a value"
  | fileMissing path => s!"[Errno 2] No such file or directory: {Json.literalText path}"
  | fileExists path => s!"[Errno 17] File exists: {Json.literalText path}"
  | fileDenied path => s!"[Errno 13] Permission denied: {Json.literalText path}"
  | constraintBroken => "(sqlite3.IntegrityError)"
  | storeRefused => "(sqlite3.OperationalError)"
  | storeMisused reason => reason
  | columnRefused reason => reason
  | unbindable => "(sqlite3.ProgrammingError)"
  | overflow reason => reason
  | unforeseen reason => reason
  | argumentRejected reason => reason
  | graphRejected => "\x7bcode: None\x7d \x7bmessage: None\x7d"
  | graphSyntax => "\x7bcode: None\x7d \x7bmessage: None\x7d"
  | graphDown => "graph failure"
  | graphConstraint => "graph failure"
  | unknownObject reason => s!"404 \"{reason}\""
  | notRepository path => path
  | gitFailed => "git command failed"
  | unreadable fault => fault.message
  | divisionByZero => "division by zero"
  | tooDeep => "maximum recursion depth exceeded"
  | inputExhausted => "EOF when reading a line"
  | general message => message
  | halted message => message
  | invalidFields _ => "validation error"

end Failure
end CodeAtlas
