/-
How an entry of a log looks.

An entry is a record.  As JSON it is one line that holds the whole record in its order.  For
people it starts with the time of day, the level and the message; what else is known follows
where it is there.  Colours are escape sequences around the parts of that form and nothing
else, so leaving them out changes no other character.
-/
import Worksheet.Json.Printer
import Worksheet.Log.Instant.Reading
import Worksheet.Settings.Basic

namespace Worksheet
namespace Layout

/-! ## Colours -/

def escape (code : String) : String := "\x1b[" ++ code ++ "m"

def levelCodes : List (String × String) :=
  [("TRACE", "90"), ("DEBUG", "36"), ("INFO", "32"), ("WARN", "33"), ("ERROR", "31"),
    ("FATAL", "35")]

/-- The text of a built-in function. -/
def builtIn (name : String) : String := "function " ++ name ++ "() \x7b [native code] \x7d"

/-- What the table of colours keeps for itself, under names that are no level. -/
def reserved : List (String × String) :=
  [("constructor", builtIn "Object"), ("__proto__", "[object Object]")] ++
    ["toString", "toLocaleString", "valueOf", "hasOwnProperty", "isPrototypeOf",
      "propertyIsEnumerable", "__defineGetter__", "__defineSetter__", "__lookupGetter__",
      "__lookupSetter__"].map fun name => (name, builtIn name)

/-- The sequence that starts the colour of a level; empty for other texts. -/
def levelColour (level : String) : String :=
  match levelCodes.lookup level with
  | some code => escape code
  | none => (reserved.lookup level).getD ""

/-- The sequences of one layout, which are all empty without colours. -/
structure Palette where
  level : String → String
  dim : String
  reset : String

def plain : Palette := ⟨fun _ => "", "", ""⟩

def coloured : Palette := ⟨levelColour, escape "2", escape "0"⟩

def palette (colours : Bool) : Palette := if colours then coloured else plain

/-! ## For people -/

/-- The time of day of a timestamp of any kind, in universal time and in English. -/
def timeText (timestamp : Value) : String :=
  let instant :=
    match timestamp with
    | .absent => none
    | .null => some 0
    | .boolean b => some (if b then 1 else 0)
    | .number x =>
      match x.truncate? with
      | some ms => if Instant.inRange ms then some ms else none
      | none => none
    | value => Instant.ofText? value.display
  match instant with
  | some ms => Instant.timeOfDay ms
  | none => Instant.invalid

theorem escape_not_mem_timeText (timestamp : Value) : '\x1b' ∉ (timeText timestamp).toList := by
  unfold timeText
  simp only
  split
  · exact Instant.escape_not_mem_timeOfDay _
  · decide

/-- The context, behind the message, if it has a field. -/
def contextText (palette : Palette) (context : Value) : String :=
  if context.fields.isEmpty then ""
  else " " ++ palette.dim ++ Json.render .compact context ++ palette.reset

/-- The metadata, over several lines, if there are any. -/
def metadataText (palette : Palette) (metadata : Value) : String :=
  if metadata.isPresent then
    "\n  " ++ palette.dim ++ "Metadata: " ++ Json.render (.indented 0) metadata ++ palette.reset
  else ""

def stackText (palette : Palette) (stack : Value) : String :=
  if stack.isPresent then "\n  " ++ palette.dim ++ stack.display ++ palette.reset else ""

def errorText (palette : Palette) (error : Value) : String :=
  if error.isPresent then
    "\n  " ++ palette.level "ERROR" ++ "Error: " ++ (error.field "name").display ++ ": " ++
      (error.field "message").display ++ palette.reset ++ stackText palette (error.field "stack")
  else ""

/-- How the time of day is written is up to the machine. -/
def pretty (timeText : Value → String) (palette : Palette) (entry : Value) : String :=
  let level := (entry.field "level").display
  timeText (entry.field "timestamp") ++ " " ++ palette.level level ++ "[" ++ level ++ "]" ++
    palette.reset ++ " " ++ (entry.field "message").display ++
    contextText palette (entry.field "context") ++
    metadataText palette (entry.field "metadata") ++ errorText palette (entry.field "error")

def render (timeText : Value → String) (format : Format) (colours : Bool) (entry : Value) :
    String :=
  match format with
  | .json => Json.render .compact entry
  | .pretty => pretty timeText (palette colours) entry

end Layout
end Worksheet
