/-
Taking secrets out of what is logged.

A key is sensitive if one of eight words occurs in it, in any case.  What such a key holds
is replaced as a whole, at any depth; everything else is kept, apart from a key that a
record cannot hold as a field of its own, which is dropped.
-/
import Worksheet.Value.Basic
import Worksheet.Text.Case

namespace Worksheet
namespace Redaction

def sensitiveWords : List String :=
  ["password", "token", "secret", "api_key", "apikey", "authorization", "cookie", "credential"]

/-- One of the sensitive words occurs in the key. -/
def isSensitive (key : String) : Bool :=
  sensitiveWords.any fun word => Text.occursIn word.toList (Text.lower key.toList)

/-- What stands in place of a secret. -/
def mask : Value := .string "[REDACTED]"

/-- The key that writing to a record does not create. -/
def unwritable : String := "__proto__"

mutual

/-- A value without its secrets. -/
def redact : Value → Value
  | .list items => .list (redactItems items)
  | .record fields => .record (redactFields fields)
  | value => value

def redactItems : List Value → List Value
  | [] => []
  | item :: rest => redact item :: redactItems rest

/-- Fields without their secrets. -/
def redactFields : List (String × Value) → List (String × Value)
  | [] => []
  | (key, value) :: rest =>
    if key = unwritable then redactFields rest
    else if isSensitive key then (key, mask) :: redactFields rest
    else (key, redact value) :: redactFields rest

end

end Redaction
end Worksheet
