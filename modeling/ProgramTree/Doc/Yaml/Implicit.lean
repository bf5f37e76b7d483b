/-
Which texts mean something else than a text when they stand without quotes in
YAML: words for truth and absence, numbers, times, and two single signs.
-/

namespace ProgramTree.Doc.Yaml

/-- Nothing but characters of a class, and at least one. -/
def run (p : Char → Bool) (cs : List Char) : Bool :=
  !cs.isEmpty && cs.all p

/-- A digit or an underscore. -/
def isSpacedDigit (c : Char) : Bool :=
  c.isDigit || c == '_'

/-- The text without a sign at its start. -/
def unsigned : List Char → List Char
  | '-' :: cs | '+' :: cs => cs
  | cs => cs

/-- What follows a number that starts with a digit. -/
def afterDigits : List Char → Option (List Char)
  | c :: cs => if c.isDigit then some (cs.dropWhile isSpacedDigit) else none
  | [] => none

/-- What follows one or two digits below sixty after a colon. -/
def afterSexagesimal : List Char → Option (List Char)
  | ':' :: a :: b :: cs =>
    if a.isDigit && b.isDigit then (if a ≤ '5' then some cs else none)
    else if a.isDigit then some (b :: cs)
    else none
  | [':', a] => if a.isDigit then some [] else none
  | _ => none

/-- Groups below sixty after colons, `fuel` groups at most; what follows them. -/
def afterSexagesimals : Nat → List Char → List Char
  | 0, cs => cs
  | fuel + 1, cs =>
    match afterSexagesimal cs with
    | some rest => afterSexagesimals fuel rest
    | none => cs

/-- At least one group below sixty; what follows. -/
def afterSexagesimalRun (cs : List Char) : Option (List Char) :=
  (afterSexagesimal cs).map fun rest => afterSexagesimals rest.length rest

/-- An exponent with its sign, or nothing. -/
def isExponentOrEnd : List Char → Bool
  | [] => true
  | e :: sign :: cs =>
    (e == 'e' || e == 'E') && (sign == '-' || sign == '+') && run Char.isDigit cs
  | _ => false

/-- The words for truth and falsehood. -/
def boolWords : List String :=
  ["yes", "Yes", "YES", "no", "No", "NO", "true", "True", "TRUE", "false", "False", "FALSE",
   "on", "On", "ON", "off", "Off", "OFF"]

/-- The words for absence. -/
def nullWords : List String :=
  ["", "~", "null", "Null", "NULL"]

/-- The unsigned part of an integer. -/
def isWhole : List Char → Bool
  | ['0'] => true
  | '0' :: 'b' :: cs => run (fun c => c == '0' || c == '1' || c == '_') cs
  | '0' :: 'x' :: cs =>
    run (fun c => c.isDigit || ('a' ≤ c && c ≤ 'f') || ('A' ≤ c && c ≤ 'F') || c == '_') cs
  | '0' :: cs => run (fun c => ('0' ≤ c && c ≤ '7') || c == '_') cs
  | cs =>
    match afterDigits cs with
    | some [] => true
    | some rest => afterSexagesimalRun rest == some []
    | none => false

/-- The unsigned part of a decimal fraction. -/
def isFraction (cs : List Char) : Bool :=
  match afterDigits cs with
  | some ('.' :: rest) => isExponentOrEnd (rest.dropWhile isSpacedDigit)
  | some rest =>
    match afterSexagesimalRun rest with
    | some ('.' :: more) => more.all isSpacedDigit
    | _ => false
  | none => false

/-- A number with a fraction, an infinity or no number at all. -/
def isDecimal (cs : List Char) : Bool :=
  let pointed := match cs with
    | '.' :: d :: rest => d.isDigit && isExponentOrEnd (rest.dropWhile isSpacedDigit)
    | _ => false
  let infinite := [".inf", ".Inf", ".INF"].contains (String.ofList (unsigned cs))
  let nan := [".nan", ".NaN", ".NAN"].contains (String.ofList cs)
  pointed || infinite || nan || isFraction (unsigned cs)

/-- `count` digits; what follows. -/
def digits : Nat → List Char → Option (List Char)
  | 0, cs => some cs
  | n + 1, c :: cs => if c.isDigit then digits n cs else none
  | _, [] => none

/-- One digit or two; what follows. -/
def oneOrTwoDigits (cs : List Char) : Option (List Char) :=
  match digits 2 cs with
  | some rest => some rest
  | none => digits 1 cs

/-- A character; what follows. -/
def sign (c : Char) : List Char → Option (List Char)
  | d :: cs => if d = c then some cs else none
  | [] => none

/-- A blank between the parts of a time. -/
def isTimeBlank (c : Char) : Bool :=
  c == ' ' || c == '\t'

/-- The zone at the end of a time, or nothing. -/
def isZoneOrEnd (cs : List Char) : Bool :=
  if cs.isEmpty then true
  else
    match cs.dropWhile isTimeBlank with
    | ['Z'] => true
    | c :: rest =>
      (c == '-' || c == '+') &&
        match oneOrTwoDigits rest with
        | some [] => true
        | some more => (sign ':' more).bind (digits 2) == some []
        | none => false
    | [] => false

/-- The mark between a date and a time; what follows. -/
def afterDateMark : List Char → Option (List Char)
  | 'T' :: cs | 't' :: cs => some cs
  | c :: cs => if isTimeBlank c then some (cs.dropWhile isTimeBlank) else none
  | [] => none

/-- A date alone, with two digits for month and day. -/
def isDate (cs : List Char) : Bool :=
  ((((digits 4 cs).bind (sign '-')).bind (digits 2)).bind (sign '-')).bind (digits 2) == some []

/-- A date and a time of day, with a fraction and a zone that may be missing. -/
def isMoment (cs : List Char) : Bool :=
  let date := ((((digits 4 cs).bind (sign '-')).bind oneOrTwoDigits).bind (sign '-')).bind
    oneOrTwoDigits
  let hour := (date.bind afterDateMark).bind oneOrTwoDigits
  let time := (((hour.bind (sign ':')).bind (digits 2)).bind (sign ':')).bind (digits 2)
  match time with
  | some ('.' :: rest) => isZoneOrEnd (rest.dropWhile Char.isDigit)
  | some rest => isZoneOrEnd rest
  | none => false

/-- Whether a text without quotes would be read as something else than a text. -/
def meansOther (s : String) : Bool :=
  let cs := s.toList
  boolWords.contains s || nullWords.contains s || s == "<<" || s == "="
    || isWhole (unsigned cs) || isDecimal cs || isDate cs || isMoment cs

end ProgramTree.Doc.Yaml
