/-
What a caller may have caught: a fault of a sheet, another failure, or any value at all.
-/
import Worksheet.Fault
import Worksheet.Value.Basic

namespace Worksheet

inductive Caught where
  | fault (fault : Fault)
  | failure (message : String)
  | value (value : Value)

namespace Caught

def isFault : Caught → Bool
  | fault _ => true
  | _ => false

end Caught
end Worksheet
