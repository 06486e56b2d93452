/-
Reading an instant.

The standard form is a year, perhaps with a month and a day, and perhaps with a time of day
and a zone behind a `T`.  A text that starts with a date of that form but goes on in another
way is read freely from there: numbers find their place by the marks that follow them, and a
word of no meaning may stand only before the first number.  Once the `T` has been met, only
the standard form will do.
-/
import Worksheet.Log.Instant.Draft
import Worksheet.Log.Instant.Token

namespace Worksheet
namespace Instant

/-- The milliseconds of a fraction of a second: its first three digits, as long as it has no
more than nine. -/
def millis (value length : Nat) : Nat :=
  if length ≤ 3 then value * Nat.pow 10 (3 - length)
  else value / Nat.pow 10 (min length 9 - 3)

/-! ## The standard form -/

/-- How far a date of the standard form goes. -/
structure Head where
  date : List Int
  /-- Nothing has been met so far that breaks the form. -/
  sound : Bool
  rest : List Token

namespace Head

/-- The year: four digits, or a sign and six.  Zero has no negative form. -/
def year : List Token → Head
  | .sign behind :: .number n 6 :: rest =>
    if behind ∧ n = 0 then ⟨[], false, rest⟩
    else ⟨[if behind then -(n : Int) else n], true, rest⟩
  | .number n 4 :: rest => ⟨[(n : Int)], true, rest⟩
  | tokens => ⟨[], false, tokens⟩

/-- A dash and two digits, from one up to a bound; the part may be missing with its dash. -/
def dashed (head : Head) (bound : Nat) : Head :=
  if head.sound then
    match head.rest with
    | .sign true :: .number n 2 :: rest =>
      if 1 ≤ n ∧ n ≤ bound then ⟨head.date ++ [(n : Int)], true, rest⟩
      else ⟨head.date, false, .number n 2 :: rest⟩
    | .sign true :: rest => ⟨head.date, false, rest⟩
    | _ => head
  else head

/-- The longest date of the standard form at the front. -/
def ofTokens (tokens : List Token) : Head := ((year tokens).dashed 12).dashed 31

end Head

/-- A time of day by the clock, or the end of the day. -/
def isTime (hours minutes seconds fraction : Nat) : Bool :=
  (hours < 24 && minutes < 60 && seconds < 60) ||
    (hours = 24 && minutes = 0 && seconds = 0 && fraction = 0)

/-- The time of day, with hours and minutes at least, and what follows it. -/
def standardTime : List Token → Option (List Nat × List Token)
  | .number h 2 :: .colon :: .number m 2 :: .colon :: .number s 2 :: .point ::
      .number fraction length :: rest =>
    if isTime h m s fraction then some ([h, m, s, millis fraction length], rest) else none
  | .number _ 2 :: .colon :: .number _ 2 :: .colon :: .number _ 2 :: .point :: _ => none
  | .number h 2 :: .colon :: .number m 2 :: .colon :: .number s 2 :: rest =>
    if isTime h m s 0 then some ([h, m, s], rest) else none
  | .number _ 2 :: .colon :: .number _ 2 :: .colon :: _ => none
  | .number h 2 :: .colon :: .number m 2 :: rest =>
    if isTime h m 0 0 then some ([h, m], rest) else none
  | _ => none

/-- The zone, which ends the text; no zone is universal time. -/
def standardZone : List Token → Option Zone
  | [] => some .universal
  | [.word .zulu] => some .universal
  | [.sign behind, .number n 4] =>
    if n / 100 < 24 ∧ n % 100 < 60 then some ⟨behind, n / 100, some (n % 100)⟩ else none
  | [.sign behind, .number h 2, .colon, .number m 2] =>
    if h < 24 ∧ m < 60 then some ⟨behind, h, some m⟩ else none
  | _ => none

/-- The draft of a date in standard form and of what follows the `T` behind it. -/
def standardDraft (date : List Int) (tokens : List Token) : Option Draft :=
  match standardTime tokens with
  | none => none
  | some (time, rest) =>
    (standardZone rest).map fun zone => ⟨date, none, time, none, some zone, true⟩

/-! ## Reading freely -/

/-- What may stand behind the last part of a time of day. -/
def endsTime : List Token → Bool
  | [] => true
  | .blank :: _ => true
  | .word .zulu :: _ => true
  | .sign _ :: _ => true
  | _ => false

/-- The zone of a sign and a number: hours by themselves or before a colon, or else hours and
minutes in three or four digits. -/
def signedZone (behind : Bool) (value length : Nat) (rest : List Token) : Option Zone :=
  match rest with
  | .colon :: _ => some ⟨behind, value, none⟩
  | _ =>
    if length ≤ 2 then some ⟨behind, value, some 0⟩
    else if length ≤ 4 then some ⟨behind, value / 100, some (value % 100)⟩
    else none

/-- A number that no mark follows: the minutes of a zone, the last part of a time of day, or
else a part of the date.  The flag says that it is the last of these. -/
def placeNumber? (draft : Draft) (n : Nat) (rest : List Token) : Option (Draft × Bool) :=
  if draft.expectsZone n then some (draft.withZoneMinutes n, false)
  else if draft.expectsTime n then
    if endsTime rest then some (draft.endTime [n], false) else none
  else (draft.addDate? n).map fun draft => (draft, true)

/-- A word that adds to what is known, and whether it is part of the date; none if it has no
meaning here. -/
def placeWord? (draft : Draft) : Word → Option (Draft × Bool)
  | .month n => some ({ draft with month := some n }, true)
  | .halfDay hours =>
    if draft.time.isEmpty then none else some ({ draft with halfDay := some hours }, false)
  | .zone hours => if draft.hasNumber then some (draft.withZone (.ofHours hours), false) else none
  | .zulu => if draft.hasNumber then some (draft.withZone .universal, false) else none
  | _ => none

/-- A word of no meaning may stand before the first number, unless that number touches it. -/
def passes (draft : Draft) : List Token → Bool
  | .number _ _ :: _ => false
  | _ => !draft.hasNumber

/-- Adds what the tokens say to a draft.  The flag says that a part of the date has just been
met, so that a dash here does no more than separate it from the next part. -/
def readFreely : Draft → Bool → List Token → Option Draft
  | draft, _, [] => some draft
  | draft, _, .number n _ :: .colon :: .colon :: rest =>
    if draft.time.isEmpty then readFreely { draft with time := [n, 0] } false rest else none
  | draft, _, .number n _ :: .colon :: rest =>
    match draft.addTime? n with
    | some draft => readFreely draft false rest
    | none => none
  | draft, _, .number n _ :: .point :: rest =>
    if draft.expectsTime n then
      match rest with
      | .number value length :: rest =>
        readFreely (draft.endTime [n, millis value length]) false rest
      | _ => none
    else
      match placeNumber? draft n rest with
      | some (draft, joins) => readFreely draft joins rest
      | none => none
  | draft, _, .number n _ :: rest =>
    match placeNumber? draft n rest with
    | some (draft, joins) => readFreely draft joins rest
    | none => none
  | draft, _, .word word :: rest =>
    match placeWord? draft word with
    | some (draft, joins) => readFreely draft joins rest
    | none => if passes draft rest then readFreely draft false rest else none
  | draft, true, .sign true :: rest => readFreely draft false rest
  | draft, _, .sign behind :: rest =>
    if !draft.time.isEmpty || draft.zone.any Zone.isUniversal then
      match rest with
      | .number value length :: rest =>
        match signedZone behind value length rest with
        | some zone => readFreely (draft.withZone zone) false rest
        | none => none
      | .colon :: rest => readFreely (draft.withZone ⟨behind, 0, none⟩) false rest
      | _ => none
    else if draft.hasNumber then none
    else readFreely draft false rest
  | draft, _, .closing :: rest =>
    if draft.hasNumber then none else readFreely draft false rest
  | draft, _, _ :: rest => readFreely draft false rest

/-! ## Either form -/

def draft? (tokens : List Token) : Option Draft :=
  let head := Head.ofTokens tokens
  match head.sound, head.rest with
  | true, [] => some { Draft.ofDate head.date with standard := true }
  | true, .word .divider :: rest => standardDraft head.date rest
  | _, rest => readFreely (.ofDate head.date) false rest

def ofText? (s : String) : Option Int := (draft? (Token.ofText s)).bind Draft.instant?

end Instant
end Worksheet
