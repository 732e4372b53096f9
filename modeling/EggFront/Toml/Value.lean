import EggFront.Decimal.Shortest
import EggFront.Text.Quoted

/-!
# TOML values

The values a TOML document holds: strings, integers of any size, floats,
booleans, offset and local date-times, local dates and times, arrays and tables.
Tables keep their keys in the order they were defined.

The texts of values here are those that configuration reports show: a float is
written with the fewest digits that read back (`Decimal.Binary.shortest`), in
positional notation while its leading digit's exponent lies in `-4 … 15`, with
`.0` on integral values, and as `1e+16` or `1.5e-05` otherwise; a date-time is
written `1979-05-27 07:32:00.999999+00:00`, with the fraction only when it is not
zero and the offset only when there is one.
-/

namespace EggFront.Toml

/-- A calendar date. -/
structure Date where
  year : Nat
  month : Nat
  day : Nat
deriving DecidableEq, Repr

/-- A time of day, to the microsecond. -/
structure Time where
  hour : Nat
  minute : Nat
  second : Nat
  micro : Nat
deriving DecidableEq, Repr

/-- A date and a time, with an offset from UTC in minutes, or none for a local date-time. -/
structure DateTime where
  date : Date
  time : Time
  offset : Option Int
deriving DecidableEq, Repr

/-- A TOML value. -/
inductive Value where
  | str (s : String)
  | int (n : Int)
  | float (f : Float)
  | bool (b : Bool)
  | dateTime (d : DateTime)
  | date (d : Date)
  | time (t : Time)
  | array (items : List Value)
  | table (entries : List (String × Value))
deriving Inhabited

/-- `n` in at least `width` digits, zero padded. -/
def padded (width n : Nat) : String :=
  let s := toString n
  String.ofList (List.replicate (width - s.length) '0') ++ s

/-- `1979-05-27`. -/
def Date.text (d : Date) : String :=
  padded 4 d.year ++ "-" ++ padded 2 d.month ++ "-" ++ padded 2 d.day

/-- `07:32:00`, or `07:32:00.999999` when the microseconds are not zero. -/
def Time.text (t : Time) : String :=
  padded 2 t.hour ++ ":" ++ padded 2 t.minute ++ ":" ++ padded 2 t.second ++
    (if t.micro = 0 then "" else "." ++ padded 6 t.micro)

/-- `+05:30`, `-07:00`, `+00:00`. -/
def offsetText (minutes : Int) : String :=
  (if minutes < 0 then "-" else "+") ++ padded 2 (minutes.natAbs / 60) ++ ":" ++
    padded 2 (minutes.natAbs % 60)

/-- The date, a space, the time, and the offset if there is one. -/
def DateTime.text (d : DateTime) : String :=
  d.date.text ++ " " ++ d.time.text ++ (d.offset.map offsetText).getD ""

/-! ## Values written as constructor calls

Inside an array or a table a date or time is written as the call that builds
it, fields that are zero at the end left out: `datetime.date(1979, 5, 27)`,
`datetime.time(7, 32)`, `datetime.datetime(1979, 5, 27, 7, 32, 0, 999999,
tzinfo=datetime.timezone.utc)`. An offset other than zero is a span of days and
seconds, the days rounded down: `-07:00` is `days=-1, seconds=61200`. -/

/-- The fields of a time as a call shows them: seconds only when they or the
microseconds are not zero, microseconds only when not zero. -/
def Time.fields (t : Time) : List Nat :=
  [t.hour, t.minute] ++ (if t.second = 0 && t.micro = 0 then [] else [t.second]) ++
    (if t.micro = 0 then [] else [t.micro])

/-- `name(a, b, c)`. -/
def callText (name : String) (args : List String) : String :=
  name ++ "(" ++ ", ".intercalate args ++ ")"

def Date.call (d : Date) : String :=
  callText "datetime.date" ([d.year, d.month, d.day].map toString)

def Time.call (t : Time) : String := callText "datetime.time" (t.fields.map toString)

/-- An offset in minutes as a zone: UTC by name, any other as a span of time. -/
def offsetCall (minutes : Int) : String :=
  if minutes = 0 then "datetime.timezone.utc"
  else
    let secs := minutes * 60
    let days := secs.fdiv 86400
    let rest := secs - days * 86400
    let span := (if days = 0 then [] else ["days=" ++ toString days]) ++
      (if rest = 0 then [] else ["seconds=" ++ toString rest])
    "datetime.timezone(" ++ callText "datetime.timedelta" span ++ ")"

def DateTime.call (d : DateTime) : String :=
  let fields := [d.date.year, d.date.month, d.date.day].map toString ++ d.time.fields.map toString
  let zone := (d.offset.map fun o => ["tzinfo=" ++ offsetCall o]).getD []
  callText "datetime.datetime" (fields ++ zone)

/-- The layout of a decimal `digits * 10^exp` with `digits > 0`. -/
def decimalText (d : Decimal.Dec) : String :=
  let ds := toString d.digits
  let n : Int := ds.length
  let point := n + d.exp
  let lead := point - 1
  if lead < -4 || lead ≥ 16 then
    let mant := match ds.toList with
      | c :: rest@(_ :: _) => c.toString ++ "." ++ String.ofList rest
      | _ => ds
    mant ++ "e" ++ (if lead < 0 then "-" else "+") ++ padded 2 lead.natAbs
  else if point ≤ 0 then "0." ++ String.ofList (List.replicate point.natAbs '0') ++ ds
  else if point < n then String.ofList (ds.toList.take point.toNat) ++ "." ++
    String.ofList (ds.toList.drop point.toNat)
  else ds ++ String.ofList (List.replicate (point - n).toNat '0') ++ ".0"

/-- The text of a float, as configuration reports show it. -/
def floatText (f : Float) : String :=
  if f.isNaN then "nan"
  else
    let bits := f.toBits
    let negative := bits >>> 63 == 1
    let sign := if negative then "-" else ""
    if f.isInf then sign ++ "inf"
    else
      let d := (Decimal.Binary.ofBits bits).shortest
      if d.digits = 0 then sign ++ "0.0" else sign ++ decimalText d

/-- The most decimal digits an integer may have where it is read from decimal
text or written as decimal text. -/
def maxDigits : Nat := 4300

/-- Whether an integer has more than `maxDigits` decimal digits, sign aside. -/
def tooLong (n : Int) : Bool := Nat.pow 10 maxDigits ≤ n.natAbs

/-- What writing an integer with more than `maxDigits` digits says. -/
def longIntMessage : String :=
  "Exceeds the limit (" ++ toString maxDigits ++
    " digits) for integer string conversion; use sys.set_int_max_str_digits() to increase the limit"

namespace Value

/-- The name of a value's kind, as configuration errors name it. -/
def kindName : Value → String
  | str _ => "str"
  | int _ => "int"
  | float _ => "float"
  | bool _ => "bool"
  | dateTime _ => "datetime.datetime"
  | date _ => "datetime.date"
  | time _ => "datetime.time"
  | array _ => "list"
  | table _ => "dict"

/-- Whether a value counts as true where a flag is expected: a false boolean,
zero, and empty strings, arrays and tables do not. -/
def truthy : Value → Bool
  | bool b => b
  | int n => n != 0
  | float f => f != 0
  | str s => !s.isEmpty
  | array items => !items.isEmpty
  | table entries => !entries.isEmpty
  | _ => true

mutual

/-- The text of a value where a message shows it: dates and times as text,
values inside arrays and tables as `quoted` writes them. -/
def text : Value → String
  | str s => s
  | dateTime d => d.text
  | date d => d.text
  | time t => t.text
  | v => v.quoted

/-- The text of a value inside an array or a table: strings quoted, dates and
times as calls. -/
def quoted : Value → String
  | str s => Text.quote s
  | int n => toString n
  | float f => floatText f
  | bool b => if b then "True" else "False"
  | dateTime d => d.call
  | date d => d.call
  | time t => t.call
  | array items => "[" ++ ", ".intercalate (quotedAll items) ++ "]"
  | table entries => "\x7b" ++ ", ".intercalate (quotedEntries entries) ++ "\x7d"

def quotedAll : List Value → List String
  | [] => []
  | v :: vs => v.quoted :: quotedAll vs

def quotedEntries : List (String × Value) → List String
  | [] => []
  | (k, v) :: rest => (Text.quote k ++ ": " ++ v.quoted) :: quotedEntries rest

end

mutual

/-- Whether an integer too long to write in decimal (`tooLong`) appears in a
value, at any depth. -/
def hasLongInt : Value → Bool
  | int n => tooLong n
  | array items => anyLongInt items
  | table entries => anyLongIntEntries entries
  | _ => false

def anyLongInt : List Value → Bool
  | [] => false
  | v :: vs => v.hasLongInt || anyLongInt vs

def anyLongIntEntries : List (String × Value) → Bool
  | [] => false
  | (_, v) :: rest => v.hasLongInt || anyLongIntEntries rest

end

/-- The value of a key in a table. -/
def lookup (entries : List (String × Value)) (key : String) : Option Value :=
  (entries.find? (·.1 == key)).map (·.2)

end Value

end EggFront.Toml
