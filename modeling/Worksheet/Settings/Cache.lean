/-
Settings read once.

The cache holds the settings of the first reading that succeeded, whatever the environment
has become since, until it is reset.  A reading that fails leaves it empty, so that a later
reading in a repaired environment succeeds.  Every successful reading makes a new object,
told apart by its serial number; a held object is handed out again as itself.
-/
import Worksheet.Settings.Basic

namespace Worksheet
namespace Settings

/-- Settings with the serial number of the reading that made them. -/
structure Reading where
  serial : Nat
  settings : Settings
  deriving DecidableEq

structure Cache where
  environment : Environment
  held : Option Reading
  made : Nat
  /-- The object handed out last. -/
  last : Option Reading
  deriving DecidableEq

namespace Cache

def start (env : Environment) : Cache := ⟨env, none, 0, none⟩

inductive Step where
  | set (name value : String)
  | unset (name : String)
  | reset
  | get
  deriving DecidableEq

/-- What a step answers: nothing, or the settings and whether they are the very object that
was handed out last. -/
inductive Answer where
  | done
  | handed (reading : Reading) (sameAsLast : Bool)
  | failed (fault : Invalid)
  deriving DecidableEq

/-- Hands out an object and remembers that it did. -/
def hand (cache : Cache) (reading : Reading) : Answer × Cache :=
  (.handed reading (decide (cache.last.map Reading.serial = some reading.serial)),
    { cache with held := some reading, last := some reading })

def get (cache : Cache) : Answer × Cache :=
  match cache.held with
  | some reading => cache.hand reading
  | none =>
    match ofEnvironment cache.environment with
    | .error fault => (.failed fault, cache)
    | .ok settings => { cache with made := cache.made + 1 }.hand ⟨cache.made, settings⟩

def step (cache : Cache) : Step → Answer × Cache
  | .set name value => (.done, { cache with environment := cache.environment.set name value })
  | .unset name => (.done, { cache with environment := cache.environment.unset name })
  | .reset => (.done, { cache with held := none })
  | .get => cache.get

def run (cache : Cache) : List Step → List Answer
  | [] => []
  | step :: steps => (cache.step step).1 :: run (cache.step step).2 steps

end Cache
end Settings
end Worksheet
