import FuncDecl.Document.Node
import FuncDecl.Document.Text

/-!
# Numbers, dates and truth values

These values are words without blanks, except that a blank may part a date from a time. A word is
taken whole and must have the form of one of them.

* `integer`, `decimalFloat`, `specialFloat`: the forms of numbers.
* `date`, `time`, `dateAndTime`: the forms of dates.
* `wordValue?`: the value that a word writes.
* `scalar`: a number, a date or a truth value.
-/

namespace FuncDecl.Document

open Reader

/-! ## Numbers -/

/-- Digits of a class; an underscore may stand between two of them. -/
def digitsOf (isDigit : Char → Bool) : Reader (List Char) := do
  let first ← charOf isDigit
  let rest ← many do
    let _ ← optional (text "_")
    charOf isDigit
  return first :: rest

/-- A sign; true if it is a minus. -/
def sign : Reader Bool := do
  let c ← optional (charOf fun c => c == '+' || c == '-')
  return c == some '-'

/-- The number that a list of decimal digits writes. -/
def decimalValue (digits : List Char) : Nat :=
  digits.foldl (fun n c => 10 * n + (c.toNat - '0'.toNat)) 0

/-- A whole number in decimal digits, without needless zeros in front. -/
def decimal : Reader (Bool × Nat) := do
  let negative ← sign
  let digits ← digitsOf Char.isDigit
  if digits.length > 1 ∧ digits.head? = some '0' then failure
  else return (negative, decimalValue digits)

/-- A whole number in decimal digits with its sign. -/
def signed : Reader Int := do
  let (negative, n) ← decimal
  return if negative then -(n : Int) else n

/-- A whole number in another base, with the letter that marks it. -/
def based (mark : String) (base : Nat) : Reader Int := do
  text mark
  let digits ← digitsOf fun c => ((hexDigit? c).map (decide <| · < base)).getD false
  return Int.ofNat (digits.foldl (fun n c => base * n + (hexDigit? c).getD 0) 0)

/-- The whole numbers that a document may hold. -/
def inRange (n : Int) : Bool :=
  decide (-Int.pow 2 63 ≤ n) && decide (n < Int.pow 2 63)

/-- A whole number. -/
def integer : Reader Node := do
  let n ← firstOf [based "0x" 16, based "0o" 8, based "0b" 2, signed]
  if inRange n then return .integer n else failure

/-- Whether digits with an exponent of ten write a number below the greatest finite one, up to
rounding: numbers from `2 ^ 1024 - 2 ^ 970` on have no finite value of 64 bits. -/
def isFinite (mantissa : Nat) (exponent : Int) : Bool :=
  let size := (Nat.toDigits 10 mantissa).length + exponent
  if mantissa = 0 || size < 0 then true
  else if size > 310 then false
  else
    let bound := Nat.pow 2 1024 - Nat.pow 2 970
    match exponent with
    | .ofNat e => mantissa * Nat.pow 10 e < bound
    | .negSucc e => mantissa < bound * Nat.pow 10 (e + 1)

/-- The digits behind a point. -/
def fraction : Reader (List Char) := do
  text "."
  digitsOf Char.isDigit

/-- A power of ten. -/
def exponent : Reader Int := do
  let _ ← charOf fun c => c == 'e' || c == 'E'
  let negative ← sign
  let n := decimalValue (← digitsOf Char.isDigit)
  return if negative then -(n : Int) else n

/-- A number with a fraction or a power of ten. A positive one must not be too great. -/
def decimalFloat : Reader Node := do
  let (negative, whole) ← decimal
  let digits ← optional fraction
  let power ← optional exponent
  if digits.isNone && power.isNone then failure
  else
    let digits := digits.getD []
    let mantissa := whole * Nat.pow 10 digits.length + decimalValue digits
    if negative || isFinite mantissa (power.getD 0 - digits.length) then return .float
    else failure

/-- An infinite value, or one that is no number. -/
def specialFloat : Reader Node := do
  let _ ← sign
  firstOf [text "inf", text "nan"]
  return .float

/-! ## Dates and times -/

/-- A number of a fixed count of digits that lies between two bounds. -/
def digitsBetween (count low high : Nat) : Reader Nat :=
  fun _ cs =>
    let digits := cs.take count
    let n := decimalValue digits
    if digits.length = count ∧ digits.all Char.isDigit ∧ low ≤ n ∧ n ≤ high then
      some (n, cs.drop count)
    else none

/-- The number of days of a month. -/
def daysIn (year month : Nat) : Nat :=
  if month = 2 then
    if year % 4 = 0 ∧ (year % 100 ≠ 0 ∨ year % 400 = 0) then 29 else 28
  else if month = 4 ∨ month = 6 ∨ month = 9 ∨ month = 11 then 30
  else 31

/-- A date of the calendar. -/
def date : Reader Unit := do
  let year ← digitsBetween 4 0 9999
  text "-"
  let month ← digitsBetween 2 1 12
  text "-"
  let _ ← digitsBetween 2 1 (daysIn year month)

/-- A time of day; a minute may have a leap second. -/
def time : Reader Unit := do
  let _ ← digitsBetween 2 0 23
  text ":"
  let _ ← digitsBetween 2 0 59
  text ":"
  let _ ← digitsBetween 2 0 60
  let _ ← optional do
    text "."
    let _ ← charOf Char.isDigit
    let _ ← run Char.isDigit

/-- The distance of a time zone. -/
def zone : Reader Unit :=
  firstOf [text "Z", text "z", do
    let _ ← charOf fun c => c == '+' || c == '-'
    let _ ← digitsBetween 2 0 23
    text ":"
    let _ ← digitsBetween 2 0 59]

/-- A time of day, perhaps with a time zone. -/
def zonedTime : Reader Unit := do
  time
  let _ ← optional zone

/-- A date with a time behind it. -/
def dateAndTime : Reader Unit := do
  date
  let _ ← charOf fun c => c == 'T' || c == 't'
  zonedTime

/-! ## Words -/

/-- A character of a number, a date or a truth value. -/
def isWordChar (c : Char) : Bool :=
  c.isAlphanum || c == '+' || c == '-' || c == '.' || c == '_' || c == ':'

/-- A date and a time with a blank between them. -/
def partedDateAndTime : Reader Node := do
  let first ← run isWordChar
  text " "
  let second ← run isWordChar
  if (date.readWhole first).isSome && (zonedTime.readWhole second).isSome then return .datetime
  else failure

/-- The value that a word writes. -/
def wordValue? (word : List Char) : Option Node :=
  if word = "true".toList then some (.bool true)
  else if word = "false".toList then some (.bool false)
  else if [date, time, dateAndTime].any fun r => (r.readWhole word).isSome then some .datetime
  else [decimalFloat, specialFloat, integer].findSome? fun r => r.readWhole word

/-- A number, a date or a truth value. -/
def scalar : Reader Node :=
  firstOf [partedDateAndTime, do
    let word ← run isWordChar
    (wordValue? word : Option Node)]

end FuncDecl.Document
