import CodeAtlas.Sql.Document
import CodeAtlas.Sql.Moment
import CodeAtlas.Sql.Operator

/-!
# Functions of values

A function has a name, a number of arguments and a meaning (`Function.apply`). Most give the same value for
the same arguments at any time; only those may stand in an index or in a computed column (`Function.steady`).
-/

/-!
## Patterns

A pattern fits a text as a whole. Patterns of the first kind have a mark for any characters and one for a
single character, and may name a character that takes the meaning from the next one (`ofLike`). Those of the
second kind know sets of characters besides (`ofGlob`).
-/
namespace CodeAtlas.Sql

inductive Pattern.Part where
  | any
  | one
  | char (c : Char)
  /-- A character out of some ranges, or none of them. -/
  | among (denied : Bool) (ranges : List (Char × Char))
  /-- A part that was not finished fits nothing. -/
  | never
  deriving DecidableEq, Repr

abbrev Pattern := List Pattern.Part

namespace Pattern

def ofLike (escape : Option Char) : List Char → Pattern
  | [] => []
  | [c] => if escape = some c then [.never] else [if c = '%' then .any else if c = '_' then .one else .char c]
  | c :: d :: s =>
    if escape = some c then .char d :: ofLike escape s
    else (if c = '%' then .any else if c = '_' then .one else .char c) :: ofLike escape (d :: s)

def ranges (prior : Option Char) : List Char → Option (List (Char × Char) × List Char)
  | [] => none
  | [c] => if c = ']' then some ([], []) else none
  | c :: d :: s =>
    if c = ']' then some ([], d :: s)
    else
      match c == '-' && d != ']', prior with
      | true, some first => (ranges none s).map fun (rs, rest) => ((first, d) :: rs, rest)
      | _, _ => (ranges (some c) (d :: s)).map fun (rs, rest) => ((c, c) :: rs, rest)

def set? (s : List Char) : Option (Part × List Char) :=
  let (denied, s) := match s with
    | '^' :: r => (true, r)
    | r => (false, r)
  match s with
  | ']' :: r => (ranges none r).map fun (rs, rest) => (.among denied ((']', ']') :: rs), rest)
  | r => (ranges none r).map fun (rs, rest) => (.among denied rs, rest)

/-- A pattern with `*`, `?` and sets, read in at most `steps` parts. -/
def ofGlobFrom : Nat → List Char → Pattern
  | 0, _ => []
  | _ + 1, [] => []
  | steps + 1, c :: s =>
    if c = '*' then .any :: ofGlobFrom steps s
    else if c = '?' then .one :: ofGlobFrom steps s
    else if c = '[' then
      match set? s with
      | some (part, rest) => part :: ofGlobFrom steps rest
      | none => [.never]
    else .char c :: ofGlobFrom steps s

def ofGlob (s : List Char) : Pattern := ofGlobFrom s.length s

def ends : List Char → List (List Char)
  | [] => [[]]
  | c :: s => (c :: s) :: ends s

def fits (same : Char → Char → Bool) : Pattern → List Char → Bool
  | [], s => s.isEmpty
  | .any :: ps, s => (ends s).any (fits same ps)
  | .never :: _, _ => false
  | .one :: ps, _ :: s => fits same ps s
  | .char p :: ps, c :: s => same p c && fits same ps s
  | .among denied ranges :: ps, c :: s =>
    (ranges.any fun (a, b) => a ≤ c && c ≤ b) != denied && fits same ps s
  | _ :: _, [] => false

end Pattern
end CodeAtlas.Sql

/-! ## Functions -/
namespace CodeAtlas.Sql

structure Function where
  name : String
  least : Nat
  most : Nat
  /-- Does it give the same value at any time? -/
  steady : Bool
  deriving DecidableEq, Repr

namespace Function

def many : Nat := 127

private def sized (least most : Nat) (names : List String) : List Function :=
  names.map (⟨·, least, most, true⟩)

private def unsteady (least most : Nat) (names : List String) : List Function :=
  names.map (⟨·, least, most, false⟩)

def all : List Function :=
  sized 1 1
    ["abs", "acos", "acosh", "asin", "asinh", "atan", "atanh", "ceil", "ceiling", "cos", "cosh", "degrees",
     "exp", "floor", "hex", "json", "json_quote", "json_valid", "length", "likely", "ln", "log10", "log2",
     "lower", "quote", "radians", "sign", "sin", "sinh", "soundex", "sqrt", "tan", "tanh", "trunc", "typeof",
     "unicode", "unlikely", "upper", "zeroblob"] ++
  sized 2 2
    ["->", "->>", "atan2", "glob", "ifnull", "instr", "json_patch", "likelihood", "match", "mod", "nullif",
     "pow", "power"] ++
  sized 3 3 ["iif", "replace"] ++
  sized 1 2 ["json_array_length", "json_type", "log", "ltrim", "round", "rtrim", "trim"] ++
  sized 2 3 ["like", "substr", "substring"] ++
  sized 0 0 ["pi"] ++
  sized 2 many ["coalesce"] ++
  sized 1 many ["max", "min"] ++
  sized 0 many
    ["char", "date", "datetime", "format", "json_array", "json_extract", "json_insert", "json_object",
     "json_remove", "json_replace", "json_set", "julianday", "printf", "strftime", "time", "unixepoch"] ++
  unsteady 0 0
    ["changes", "current_date", "current_time", "current_timestamp", "last_insert_rowid", "random",
     "sqlite_source_id", "sqlite_version", "total_changes"] ++
  unsteady 1 1 ["randomblob", "sqlite_compileoption_get", "sqlite_compileoption_used"] ++
  unsteady 1 2 ["load_extension"] ++
  unsteady 2 2 ["sqlite_log"]

def find? (name : String) (count : Nat) : Option Function :=
  all.find? fun f => f.name == folded name && f.least ≤ count && count ≤ f.most

def documents : List String :=
  ["json", "json_array", "json_object", "json_insert", "json_replace", "json_set", "json_remove", "json_patch",
   "json_quote", "->"]

/-! ## Texts -/

private def ofChars (cs : List Char) : Value := .text (String.ofList cs)

private def onChars (f : List Char → List Char) (v : Value) : Value :=
  match v.asText with
  | some s => ofChars (f s.toList)
  | none => .null

/-- The part of a list from a place on, counted from one, or from its end if it is below zero. A length below
zero takes what stands before. -/
def portion {α : Type} (xs : List α) (start : Int) (length : Option Int) : List α :=
  let size : Int := xs.length
  let taken := (length.map fun n => Int.ofNat n.natAbs).getD 1000000000
  let (first, taken) : Int × Int :=
    if start < 0 then
      if start + size < 0 then (0, max 0 (taken + start + size)) else (start + size, taken)
    else if start > 0 then (start - 1, taken)
    else (0, if taken > 0 then taken - 1 else 0)
  let (first, taken) :=
    if length.any (· < 0) then
      if first - taken < 0 then (0, max 0 first) else (first - taken, taken)
    else (first, taken)
  (xs.drop first.toNat).take taken.toNat

def placeIn {α : Type} [BEq α] (part : List α) : List α → Nat → Nat
  | [], k => if part.isEmpty then k else 0
  | x :: xs, k => if part.isPrefixOf (x :: xs) then k else placeIn part xs (k + 1)

private def upperHex (n : Nat) : Char := (Chars.hexDigit n).toUpper

private def hexText (bs : List UInt8) : List Char :=
  bs.flatMap fun b => [upperHex (b.toNat / 16), upperHex (b.toNat % 16)]

/-- A value as it is written in a statement. A number with a fraction has more digits if it needs them. -/
def quoted : Value → String
  | .null => "NULL"
  | .whole n => toString n
  | .real x =>
    let short := x.roundedText
    if ((Cell.numberOf? short).map fun c => Value.ofCell c |>.toReal) == some x then short
    else String.ofList (Format.signedReal .exponent false ⟨false, none, false, true, false, false, 0, some 20⟩ x)
  | .text s => "'" ++ Format.doubled '\'' (String.ofList (s.toList.takeWhile (·.toNat != 0))) ++ "'"
  | .blob b => "X'" ++ String.ofList (hexText b) ++ "'"

/-- The sound of a word: its first letter and three digits. -/
def soundex (s : List Char) : String :=
  let code (c : Char) : Nat :=
    match c.toLower with
    | 'b' | 'f' | 'p' | 'v' => 1
    | 'c' | 'g' | 'j' | 'k' | 'q' | 's' | 'x' | 'z' => 2
    | 'd' | 't' => 3
    | 'l' => 4
    | 'm' | 'n' => 5
    | 'r' => 6
    | _ => 0
  match s.dropWhile fun c => !c.isAlpha with
  | [] => "?000"
  | c :: r =>
    let (ds, _) := r.foldl (fun (ds, last) c =>
      let k := code c
      if k > 0 then if k != last then (ds ++ [Char.ofNat (48 + k)], k) else (ds, last) else (ds, 0)) ([], code c)
    String.ofList ((c.toUpper :: ds ++ ['0', '0', '0']).take 4)

/-- Does a text fit a pattern? Rows of bytes fit none. -/
def fitting (fits : List Char → List Char → Bool) (pattern v : Value) : Value :=
  match pattern, v with
  | .blob _, _ | _, .blob _ => .whole 0
  | .null, _ | _, .null => .null
  | p, v => .ofBool (fits p.shownChars v.shownChars)

def like (pattern v : Value) (escape : Option Char) : Value :=
  fitting (fun p => Pattern.fits (fun a b => a.toLower == b.toLower) (Pattern.ofLike escape p)) pattern v

def glob : Value → Value → Value := fitting fun p => Pattern.fits (· == ·) (Pattern.ofGlob p)

/-! ## Numbers -/

private def ofFloat (x : Float) : Value := .ofResult ⟨x.toBits⟩

private def toFloat (x : Binary64) : Float := Float.ofBits x.bits

def rounded (x : Binary64) (places : Int) : Value :=
  let places := (max 0 (min 30 places)).toNat
  let limit := Binary64.ofInt 4503599627370496
  if x.isInfinite || Value.orderReals ⟨x.bits &&& 0x7FFFFFFFFFFFFFFF⟩ limit == .gt then .real x
  else if places = 0 then
    let half := Binary64.ofDecimal x.isNegative 5 (-1)
    .real (Binary64.ofInt (x.add half).truncate)
  else
    let style : Style := ⟨false, none, false, true, false, false, 0, some places⟩
    let text := Format.signedReal .fixed false style x
    .real (Value.text (String.ofList text)).toReal

def ofReal (f : Float → Float) (v : Value) : Value :=
  match v.number? with
  | some n => ofFloat (f (toFloat n.toReal))
  | none => .null

def toWholes (f : Binary64 → Int) (v : Value) : Value :=
  match v.number? with
  | some (.whole n) => .whole n
  | some (.real x) => if x.isInfinite then .real x else .real (Binary64.ofInt (f x))
  | _ => .null

private def pi : Float := 3.141592653589793

def ofOneNumber? (name : String) : Option (Value → Value) :=
  match name with
  | "acos" => some (ofReal Float.acos)
  | "acosh" => some (ofReal Float.acosh)
  | "asin" => some (ofReal Float.asin)
  | "asinh" => some (ofReal Float.asinh)
  | "atan" => some (ofReal Float.atan)
  | "atanh" => some (ofReal Float.atanh)
  | "cos" => some (ofReal Float.cos)
  | "cosh" => some (ofReal Float.cosh)
  | "degrees" => some (ofReal fun x => x * (180.0 / pi))
  | "radians" => some (ofReal fun x => x * (pi / 180.0))
  | "exp" => some (ofReal Float.exp)
  | "sin" => some (ofReal Float.sin)
  | "sinh" => some (ofReal Float.sinh)
  | "sqrt" => some (ofReal Float.sqrt)
  | "tan" => some (ofReal Float.tan)
  | "tanh" => some (ofReal Float.tanh)
  | "ln" => some (ofReal fun x => if x ≤ 0 then 0.0 / 0.0 else Float.log x)
  | "log10" | "log" => some (ofReal fun x => if x ≤ 0 then 0.0 / 0.0 else Float.log10 x)
  | "log2" => some (ofReal fun x => if x ≤ 0 then 0.0 / 0.0 else Float.log2 x)
  | "ceil" | "ceiling" => some (toWholes Binary64.ceiling)
  | "floor" => some (toWholes Binary64.floor)
  | "trunc" => some (toWholes Binary64.truncate)
  | _ => none

def remainder (x y : Binary64) : Value :=
  if y.isZero || x.isInfinite then .null
  else if y.isInfinite then .real x
  else
    let (a, b) := x.ratio
    let (c, d) := y.ratio
    .real (Binary64.ofRatio x.isNegative (a * d % (c * b)) (b * d))

/-! ## Documents -/

def document? (v : Value) : Except Fault (Option Document) :=
  match v with
  | .null => .ok none
  | .blob _ => .error .rejected
  | v => some <$> needed (Document.ofText? (v.asText.getD ""))

def path (v : Value) : Except Fault (Option (List Document.Step)) :=
  v.asText.mapM fun s => needed (Document.path? s)

def pairs {α : Type} : List α → Option (List (α × α))
  | [] => some []
  | a :: b :: xs => (pairs xs).map ((a, b) :: ·)
  | [_] => none

/-- Functions about documents. Each argument comes with whether it is a document itself. -/
def ofDocuments (name : String) (vs : List (Value × Bool)) : Except Fault Value :=
  let subject := ((vs.head?.map Prod.fst).getD .null)
  let rest := vs.drop 1
  let text (d : Document) : Except Fault Value := .ok (.text d.render)
  match name with
  | "json_valid" =>
    match subject with
    | .null => .ok .null
    | v => .ok (.ofBool (Document.ofText? (v.asText.getD "")).isSome)
  | "json_quote" => do
    match vs with
    | [(v, isDocument)] => text (← Document.ofValue isDocument v)
    | _ => .ok .null
  | "json_array" => do
    text (.array (← vs.mapM fun (v, isDocument) => Document.ofValue isDocument v))
  | "json_object" => do
    text (.object (← (← needed (pairs vs)).mapM fun ((label, _), (v, isDocument)) => do
      match label with
      | .text s => .ok (Document.quote s, ← Document.ofValue isDocument v)
      | _ => .error .rejected))
  | _ => do
    let some d ← document? subject | .ok .null
    match name, rest with
    | "json", _ => text d
    | "json_type", [] => .ok (.text d.kind)
    | "json_array_length", [] => .ok (.whole (match d with | .array ds => ds.length | _ => 0))
    | "json_type", (p, _) :: _ => do
      let some steps ← path p | .ok .null
      .ok ((d.find? steps).elim .null fun e => .text e.kind)
    | "json_array_length", (p, _) :: _ => do
      let some steps ← path p | .ok .null
      match d.find? steps with
      | some (.array ds) => .ok (.whole ds.length)
      | some _ => .ok (.whole 0)
      | none => .ok .null
    | "json_extract", [] => .ok .null
    | "json_extract", [(p, _)] => do
      let some steps ← path p | .ok .null
      .ok ((d.find? steps).elim .null Document.toValue)
    | "json_extract", ps => do
      let found ← ps.mapM fun (p, _) => path p
      if found.contains none then .ok .null
      else text (.array (found.map fun steps => ((steps.bind fun s => d.find? s).getD .null)))
    | "->", [(p, _)] | "->>", [(p, _)] =>
      match p.asText with
      | none => .ok .null
      | some s => do
        let some steps ← path (.text (Document.arrowPath s)) | .ok .null
        .ok ((d.find? steps).elim .null fun e => if name == "->" then .text e.render else e.toValue)
    | "json_remove", ps => do
      let steps ← ps.mapM fun (p, _) => path p
      if steps.contains none then .ok .null
      else
        match steps.foldl (fun d s => d.bind (Document.erase (s.getD []))) (some d) with
        | some d => text d
        | none => .ok .null
    | "json_patch", [(p, _)] => do
      let some change ← document? p | .ok .null
      text (d.patched 1000 change)
    | _, changes =>
      match pairs changes with
      | none => .error .rejected
      | some ps => do
        let d ← ps.foldlM (fun d ((p, _), (v, isDocument)) => do
          let some steps ← path p | .ok d
          let put (new : Document) : Document :=
            Document.put (name != "json_insert") (name != "json_replace") new steps d
          -- a value that no document can hold is no fault where none comes in
          match Document.ofValue isDocument v with
          | .ok new => .ok (put new)
          | .error f => if (put (.string "")).render == d.render && d.render != "\"\"" then .ok d else .error f) d
        text d

/-! ## All functions -/

def extreme (greatest : Bool) (c : Collation) (vs : List Value) : Value :=
  if vs.contains .null then .null
  else
    match vs with
    | [] => .null
    | v :: vs => vs.foldl (fun a b => if Value.before c a b == greatest then b else a) v

/-- A text or a row of bytes is not longer than this. -/
def largest : Nat := 1000000000

private def kindOf : Value → String
  | .null => "null"
  | .whole _ => "integer"
  | .real _ => "real"
  | .text _ => "text"
  | .blob _ => "blob"

private def trimmed (left right : Bool) (vs : List Value) : Value :=
  match vs with
  | [] => .null
  | v :: rest =>
    match rest.head? with
    | some .null => .null
    | given =>
      let isBlank (c : Char) : Bool := match given with
        | some w => w.chars.contains c
        | none => c == ' '
      onChars (fun cs =>
        let cs := if left then cs.dropWhile isBlank else cs
        if right then (cs.reverse.dropWhile isBlank).reverse else cs) v

def asksPresent (name : String) (vs : List Value) : Bool :=
  let isWord (words : List String) (v : Value) : Bool := v.asText.any fun s => words.contains (folded s)
  let moments (vs : List Value) : Bool := match vs with
    | [] => true
    | v :: more => isWord ["now"] v || more.any (isWord ["localtime", "utc"])
  match name with
  | "date" | "time" | "datetime" | "julianday" | "unixepoch" => moments vs
  | "strftime" => moments (vs.drop 1)
  | _ => false

/-- What a function makes of values. Those about chance or the database itself have no value that anything
else depends on. -/
def apply (name : String) (c : Collation) (args : List (Value × Bool)) : Except Fault Value :=
  let vs := args.map Prod.fst
  let moment (f : Int → Value) : Except Fault Value := .ok ((Moment.ofValues? vs).elim .null f)
  match name, vs with
  | "abs", [v] =>
    match v with
    | .null => .ok .null
    | .whole n => if n = -9223372036854775808 then .error .rejected else .ok (.whole n.natAbs)
    | v => .ok (.real ⟨v.toReal.bits &&& 0x7FFFFFFFFFFFFFFF⟩)
  | "char", vs =>
    .ok (ofChars (vs.map fun v =>
      let n := v.toWhole
      if n < 0 || n > 0x10FFFF || (0xD800 ≤ n && n < 0xE000) then Char.ofNat 0xFFFD else Char.ofNat n.toNat))
  | "coalesce", vs | "ifnull", vs => .ok ((vs.find? (· != .null)).getD .null)
  | "iif", [v, a, b] => .ok (if v.holds then a else b)
  | "nullif", [a, b] => .ok (if Comparison.equal.test c a b = .whole 1 then .null else a)
  | "format", v :: vs | "printf", v :: vs =>
    .ok (v.asText.elim .null fun s => .text (format s.toList vs))
  | "glob", [p, v] => .ok (glob p v)
  | "like", [p, v] => .ok (like p v none)
  | "like", [p, v, e] =>
    match e.asText.map String.toList with
    | some [x] => .ok (like p v (some x))
    | some _ => .error .rejected
    | none => .ok .null
  | "hex", [v] => .ok (ofChars (hexText v.bytes))
  | "instr", [a, b] =>
    match a, b with
    | .null, _ | _, .null => .ok .null
    | .blob x, .blob y => .ok (.whole (placeIn y x 1))
    | a, b => .ok (.whole (placeIn b.chars a.chars 1))
  | "length", [v] =>
    match v with
    | .null => .ok .null
    | .blob b => .ok (.whole b.length)
    | v => .ok (.whole v.shownChars.length)
  | "lower", [v] => .ok (onChars (·.map Char.toLower) v)
  | "upper", [v] => .ok (onChars (·.map Char.toUpper) v)
  | "trim", vs => .ok (trimmed true true vs)
  | "ltrim", vs => .ok (trimmed true false vs)
  | "rtrim", vs => .ok (trimmed false true vs)
  | "substr", v :: start :: more | "substring", v :: start :: more =>
    if v = .null ∨ start = .null ∨ more.head? = some .null then .ok .null
    else
      let length := more.head?.map Value.toShort
      match v with
      | .blob [] => .ok .null
      | .blob b => .ok (.blob (portion b start.toShort length))
      | v => .ok (ofChars (portion v.chars start.toShort length))
  | "replace", [a, b, c] =>
    match a.asText, b.asText, c.asText with
    | some s, some p, some r => .ok (.text (if p.isEmpty then s else Text.swap p r s))
    | _, _, _ => .ok .null
  | "max", vs => .ok (extreme true c vs)
  | "min", vs => .ok (extreme false c vs)
  | "typeof", [v] => .ok (.text (kindOf v))
  | "unicode", [v] => .ok ((v.chars.head?).elim .null fun c => .whole c.toNat)
  | "quote", [v] => .ok (.text (quoted v))
  | "soundex", [v] => .ok (.text (soundex v.chars))
  | "likely", [v] | "unlikely", [v] | "likelihood", v :: _ => .ok v
  | "round", v :: places =>
    match v, places.head? with
    | .null, _ | _, some .null => .ok .null
    | v, places => .ok (rounded v.toReal ((places.map Value.toShort).getD 0))
  | "sign", [v] =>
    match v.number? with
    | some n =>
      .ok (.whole (match Value.order .binary n (.whole 0) with | .lt => -1 | .eq => 0 | .gt => 1))
    | none => .ok .null
  | "zeroblob", [v] =>
    if v.toWhole > largest then .error .tooLarge
    else .ok (.blob (List.replicate (min v.toWhole.toNat 100000) 0))
  | "randomblob", [v] =>
    if v.toWhole > largest then .error .tooLarge
    else .ok (.blob (List.replicate (min (max 1 v.toWhole.toNat) 100000) 0))
  | "pi", _ => .ok (ofFloat pi)
  | "atan2", [a, b] =>
    match a.number?, b.number? with
    | some x, some y => .ok (ofFloat (Float.atan2 (toFloat x.toReal) (toFloat y.toReal)))
    | _, _ => .ok .null
  | "pow", [a, b] | "power", [a, b] =>
    match a.number?, b.number? with
    | some x, some y => .ok (ofFloat (Float.pow (toFloat x.toReal) (toFloat y.toReal)))
    | _, _ => .ok .null
  | "mod", [a, b] =>
    match a.number?, b.number? with
    | some x, some y => .ok (remainder x.toReal y.toReal)
    | _, _ => .ok .null
  | "log", [b, x] =>
    match b.number?, x.number? with
    | some b, some x =>
      let (b, x) := (toFloat b.toReal, toFloat x.toReal)
      if b ≤ 0 || x ≤ 0 then .ok .null
      else
        let base := Float.log b
        if base ≤ 0 then .ok .null else .ok (ofFloat (Float.log x / base))
    | _, _ => .ok .null
  | "date", _ => moment fun s => .text (Moment.dateText s)
  | "time", _ => moment fun s => .text (Moment.clockText s)
  | "datetime", _ => moment fun s => .text (Moment.dateText s ++ " " ++ Moment.clockText s)
  | "julianday", _ => moment fun s => .real (Moment.days s)
  | "unixepoch", _ => moment fun s => .whole (Moment.seconds s)
  | "strftime", [] => .ok .null
  | "strftime", f :: vs =>
    .ok (match f.asText, Moment.ofValues? vs with
      | some f, some s => (Moment.write? s f.toList).elim .null Value.text
      | _, _ => .null)
  | "current_timestamp", _ =>
    .ok (.text (Moment.dateText Moment.present ++ " " ++ Moment.clockText Moment.present))
  | "current_date", _ => .ok (.text (Moment.dateText Moment.present))
  | "current_time", _ => .ok (.text (Moment.clockText Moment.present))
  | "random", _ | "changes", _ | "total_changes", _ | "last_insert_rowid", _ => .ok (.whole 0)
  | "sqlite_version", _ => .ok (.text "3.40.1")
  | "sqlite_source_id", _ => .ok (.text "")
  | "sqlite_compileoption_used", _ => .ok (.whole 0)
  | "match", _ | "load_extension", _ => .error .rejected
  | name, vs =>
    match ofOneNumber? name, vs with
    | some f, [v] => .ok (f v)
    | _, _ =>
      if Text.startsWith "json" name || Text.startsWith "->" name then ofDocuments name args else .ok .null

end Function
end CodeAtlas.Sql
