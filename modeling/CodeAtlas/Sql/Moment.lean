import CodeAtlas.Sql.Format

/-!
# Moments

A moment is a number of milliseconds since the noon that days are counted from. It is read from a date, a
time, both, or a number of days, and moved by modifiers (`Moment.ofValues?`). A text of it follows a format.
-/
namespace CodeAtlas.Sql

/-- A date and a time of day. The parts that are not given are not known; the seconds are kept in
thousandths. -/
structure Moment where
  /-- Milliseconds since the first day, if they are known. -/
  stamp : Option Int
  /-- A number that is a day or a second, as the next modifier says. -/
  raw : Option Binary64
  date : Option (Int × Int × Int)
  /-- Hours, minutes and thousandths of seconds. -/
  clock : Option (Int × Int × Int)
  /-- Minutes that the clock is ahead. -/
  zone : Int

namespace Moment

def present : Int := 212602449600000

def isValid (stamp : Int) : Bool := 0 ≤ stamp && stamp ≤ 464269060799999

/-! ## Days and dates -/

def stampOf (date : Int × Int × Int) (clock : Int × Int × Int) (zone : Int) : Int :=
  let (y, m, d) := date
  let (y, m) := if m ≤ 2 then (y - 1, m + 12) else (y, m)
  let a := y.tdiv 100
  let b := 2 - a + a.tdiv 4
  let x := (36525 * (y + 4716)).tdiv 100
  let z := (306001 * (m + 1)).tdiv 10000
  let (h, min, ms) := clock
  (x + z + d + b) * 86400000 - 131716800000 + h * 3600000 + min * 60000 + ms - zone * 60000

def dateOf (stamp : Int) : Int × Int × Int :=
  let z := (stamp + 43200000).tdiv 86400000
  let a := (4 * z - 7468865).tdiv 146097
  let a := z + 1 + a - a.tdiv 4
  let b := a + 1524
  let c := (20 * b - 2442).tdiv 7305
  let d := (36525 * (c % 32768)).tdiv 100
  let e := ((b - d) * 10000).tdiv 306001
  let x := (306001 * e).tdiv 10000
  let day := b - d - x
  let month := if e < 14 then e - 1 else e - 13
  (if month > 2 then c - 4716 else c - 4715, month, day)

/-- The time of day of a moment. -/
def clockOf (stamp : Int) : Int × Int × Int :=
  let ms := (stamp + 43200000) % 86400000
  (ms / 3600000, ms / 60000 % 60, ms % 60000)

/-- The milliseconds of a moment. A number of days counts only if it is one. -/
def stamp? (m : Moment) : Option Int :=
  match m.stamp with
  | some s => some s
  | none =>
    if m.raw.isSome then none
    else
      let date := m.date.getD (2000, 1, 1)
      if date.1 < -4713 || date.1 > 9999 then none
      else some (stampOf date (m.clock.getD (0, 0, 0)) m.zone)

def ofStamp (s : Int) : Moment := ⟨some s, none, none, none, 0⟩

def parts? (m : Moment) : Option ((Int × Int × Int) × (Int × Int × Int)) := do
  let s ← m.stamp?
  if isValid s then some (dateOf s, clockOf s) else none

/-! ## Reading -/

/-- A number of so many digits within bounds, and what follows. -/
def digits? (count : Nat) (least most : Nat) (s : List Char) : Option (Int × List Char) :=
  let ds := s.take count
  if ds.length = count ∧ ds.all Char.isDigit then
    let n := Chars.natOf ds
    if least ≤ n ∧ n ≤ most then some (n, s.drop count) else none
  else none

private def expect? (c : Char) : List Char → Option (List Char)
  | d :: s => if c = d then some s else none
  | [] => none

private def spaceless (s : List Char) : List Char := s.dropWhile Cell.isGap

def zone? (s : List Char) : Option Int :=
  match spaceless s with
  | [] => some 0
  | c :: r =>
    if c = 'Z' ∨ c = 'z' then if (spaceless r).isEmpty then some 0 else none
    else if c = '+' ∨ c = '-' then do
      let (h, r) ← digits? 2 0 14 r
      let (m, r) ← digits? 2 0 59 (← expect? ':' r)
      if (spaceless r).isEmpty then some ((if c = '-' then -1 else 1) * (h * 60 + m)) else none
    else none

/-- The thousandths that a fraction of a second shows, a half upwards. -/
def thousandths (ds : List Char) : Int :=
  let scale := Binary64.tenTo ds.length
  (2000 * Chars.natOf ds + scale) / (2 * scale)

/-- A time of day and its zone. -/
def clock? (s : List Char) : Option ((Int × Int × Int) × Int) := do
  let (h, r) ← digits? 2 0 24 s
  let (m, r) ← digits? 2 0 59 (← expect? ':' r)
  match expect? ':' r with
  | none => some ((h, m, 0), ← zone? r)
  | some r =>
    let (sec, r) ← digits? 2 0 59 r
    let (ms, r) := match r with
      | '.' :: d :: t =>
        if d.isDigit then (thousandths ((d :: t).takeWhile Char.isDigit), (d :: t).dropWhile Char.isDigit)
        else ((0 : Int), r)
      | r => (0, r)
    some ((h, m, sec * 1000 + ms), ← zone? r)

def date? (s : List Char) : Option Moment := do
  let (negative, r) := match s with
    | '-' :: r => (true, r)
    | r => (false, r)
  let (y, r) ← digits? 4 0 14712 r
  let (m, r) ← digits? 2 1 12 (← expect? '-' r)
  let (d, r) ← digits? 2 1 31 (← expect? '-' r)
  let r := r.dropWhile fun c => Cell.isGap c || c == 'T'
  let y := if negative then -y else y
  if r.isEmpty then some ⟨none, none, some (y, m, d), none, 0⟩
  else
    let (clock, zone) ← clock? r
    some ⟨none, none, some (y, m, d), some clock, zone⟩

/-- So many milliseconds times a number, a half away from zero. -/
def scaled (x : Binary64) (unit : Nat) : Int :=
  let (a, b) := x.ratio
  let n := (2 * a * unit + b) / (2 * b)
  if x.isNegative then -(Int.ofNat n) else Int.ofNat n

def ofNumber (x : Binary64) : Moment :=
  let day := !x.isNegative && Value.order .binary (.real x) (.real (Binary64.ofDecimal false 53734845 (-1))) == .lt
  ⟨if day then some (scaled x 86400000) else none, some x, none, none, 0⟩

def ofText? (s : String) : Option Moment :=
  let cs := s.toList.takeWhile (·.toNat != 0)
  match date? cs with
  | some m => some m
  | none =>
    match clock? cs with
    | some (clock, zone) => some ⟨none, none, none, some clock, zone⟩
    | none =>
      if folded (String.ofList cs) = "now" then some (ofStamp present)
      else (Cell.numberOf? (String.ofList cs)).map fun c => ofNumber (Value.ofCell c).toReal

/-! ## Modifiers -/

/-- The words for spans of time, with the greatest number of them and their milliseconds. -/
def spans : List (String × Nat × Nat) :=
  [("second", 464270000000000, 1000), ("minute", 7737900000000, 60000), ("hour", 128970000000, 3600000),
   ("day", 5373485, 86400000), ("month", 176546, 2592000000), ("year", 14713, 31536000000)]

def addMonths (m : Moment) (n : Int) : Option Moment := do
  let ((y, month, d), clock) ← m.parts?
  let k := month + n
  let years := if k > 0 then (k - 1).tdiv 12 else (k - 12).tdiv 12
  let later : Moment := ⟨none, none, some (y + years, k - years * 12, d), some clock, 0⟩
  return ofStamp (← later.stamp?)

def moved? (m : Moment) (s : List Char) : Option Moment := do
  let number := s.take 1 ++ (s.drop 1).takeWhile fun c => c != ':' && !Cell.isGap c
  let rest := s.drop number.length
  let x := (Value.ofCell (← Cell.numberOf? (String.ofList number))).toReal
  if rest.head? == some ':' then
    let (clock, zone) ← clock? (if s.head?.any Char.isDigit then s else s.drop 1)
    let (h, min, ms) := clock
    let span := (h * 3600000 + min * 60000 + ms - zone * 60000) % 86400000
    return ofStamp ((← m.stamp?) + (if s.head? == some '-' then -span else span))
  else
    let unit := String.ofList ((spaceless rest).map Char.toLower)
    if unit.length > 10 || unit.length < 3 then none
    else
      let unit := if Text.endsWith "s" unit then Text.dropLast unit else unit
      let (name, most, ms) ← spans.find? fun (name, _, _) => name == unit
      let whole := x.truncate
      if whole.natAbs ≥ most then none
      else
        let part := x.add (Binary64.ofInt (-whole))
        let (m, x) ← match name with
          | "month" => (m.addMonths whole).map (·, part)
          | "year" => (m.addMonths (12 * whole)).map (·, part)
          | _ => some (m, x)
        return ofStamp ((← m.stamp?) + scaled x ms)

def modified? (first : Bool) (m : Moment) (modifier : String) : Option Moment :=
  let text := folded modifier
  let seconds (x : Binary64) : Option Moment :=
    let s := scaled x 1000 + 210866760000000
    if 0 ≤ s && s < 464269060800000 then some (ofStamp s) else none
  match text with
  | "unixepoch" => if first then m.raw.bind seconds else none
  | "julianday" =>
    if first && m.raw.isSome then m.stamp.map ofStamp else none
  | "auto" =>
    if !first then none
    else match m.raw with
      | none => some m
      | some x => match m.stamp with
        | some s => some (ofStamp s)
        | none => seconds x
  | "localtime" | "utc" => m.stamp?.map ofStamp
  | "start of day" | "start of month" | "start of year" => do
    let ((y, month, d), _) ← m.parts?
    let date := match text with
      | "start of day" => (y, month, d)
      | "start of month" => (y, month, 1)
      | _ => (y, 1, 1)
    let start : Moment := ⟨none, none, some date, some (0, 0, 0), 0⟩
    return ofStamp (← start.stamp?)
  | _ =>
    if Text.startsWith "weekday " text then do
      let c ← Cell.numberOf? (String.ofList (text.toList.drop 8))
      match Value.ofCell c with
      | .whole n =>
        if n < 0 || n > 6 then none
        else
          let s ← m.stamp?
          let z := (s + 129600000) / 86400000 % 7
          return ofStamp (s + (n - (if z > n then z - 7 else z)) * 86400000)
      | _ => none
    else
      match text.toList with
      | c :: _ => if c = '+' ∨ c = '-' ∨ c.isDigit then m.moved? text.toList else none
      | [] => none

def ofValues? (vs : List Value) : Option Int := do
  let (start, modifiers) ← match vs with
    | [] => some (ofStamp present, [])
    | .whole n :: vs => some (ofNumber (Binary64.ofInt n), vs)
    | .real x :: vs => some (ofNumber x, vs)
    | v :: vs => do some (← ofText? (← v.asText), vs)
  let m ← modifiers.zipIdx.foldlM (fun m (v, i) => do modified? (i == 0) m (← v.asText)) start
  let s ← match m.stamp with
    | some s => some s
    | none => m.stamp?
  if isValid s then some s else none

/-! ## Writing -/

private def two (n : Int) : String := if n < 10 then "0" ++ toString n else toString n

private def four (n : Nat) : String :=
  String.ofList (List.replicate (4 - (toString n).length) '0') ++ toString n

def yearText (y : Int) : String := if y < 0 then "-" ++ four y.natAbs else four y.natAbs

def dateText (s : Int) : String :=
  let (y, m, d) := dateOf s
  yearText y ++ "-" ++ two m ++ "-" ++ two d

def clockText (s : Int) : String :=
  let (h, m, ms) := clockOf s
  two h ++ ":" ++ two m ++ ":" ++ two (ms / 1000)

def days (s : Int) : Binary64 := Binary64.ofRatio (s < 0) s.natAbs 86400000

def seconds (s : Int) : Int := s.tdiv 1000 - 210866760000

/-- What a letter of a format stands for. -/
def piece? (s : Int) (c : Char) : Option String :=
  let (y, m, d) := dateOf s
  let (h, min, ms) := clockOf s
  let yearDay : Int :=
    let start := stampOf (y, 1, 1) (h, min, ms) 0
    (s - start + 43200000) / 86400000
  match c with
  | 'd' => some (two d)
  | 'f' => some (two (ms / 1000) ++ "." ++ String.ofList ((toString (1000 + ms % 1000)).toList.drop 1))
  | 'H' => some (two h)
  | 'j' => some (String.ofList ((toString (1000 + yearDay + 1)).toList.drop 1))
  | 'J' => some (String.ofList (Format.real .general false ⟨false, none, false, false, false, false, 0, some 16⟩ (days s)))
  | 'm' => some (two m)
  | 'M' => some (two min)
  | 's' => some (toString (seconds s))
  | 'S' => some (two (ms / 1000))
  | 'w' => some (toString ((s + 129600000) / 86400000 % 7))
  | 'W' =>
    let weekDay := (s + 43200000) / 86400000 % 7
    some (two ((yearDay + 7 - weekDay) / 7))
  | 'Y' => some (yearText y)
  | '%' => some "%"
  | _ => none

/-- The text of a moment in a format; nothing if a letter has no meaning. -/
def write? (s : Int) : List Char → Option String
  | [] => some ""
  | '%' :: c :: r => do return (← piece? s c) ++ (← write? s r)
  | ['%'] => none
  | c :: r => do return String.singleton c ++ (← write? s r)

end Moment
end CodeAtlas.Sql
