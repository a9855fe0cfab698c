import CodeAtlas.Text.Class

/-!
# Texts

Searching and cutting lists of characters, the same operations on strings, lines, and the integers that
texts stand for.
-/
namespace CodeAtlas

/-!
## Searching and cutting lists of characters

Every scanner of the library works on `List Char`. The operations here are the
ones it is built from:

* `after?`: what follows a given beginning;
* `cut?`: the parts before and after the leftmost occurrence of a pattern;
* `pieces`: the parts between all occurrences of a pattern;
* `swap`: every occurrence replaced;
* `trimBy`: both ends without the characters of a class.
-/

namespace Chars

/-- What follows `p` in a text that begins with `p`. -/
def after? : List Char → List Char → Option (List Char)
  | [], s => some s
  | _ :: _, [] => none
  | c :: p, d :: s => if c = d then after? p s else none

theorem after?_eq_some {p s r : List Char} : after? p s = some r ↔ s = p ++ r := by
  induction p generalizing s with
  | nil => simp [after?, eq_comm]
  | cons c p ih =>
    cases s with
    | nil => simp [after?]
    | cons d s =>
      by_cases h : c = d
      · subst h; simp [after?, ih]
      · simp only [after?, h, if_false, List.cons_append, List.cons.injEq, reduceCtorEq, false_iff]
        exact fun hc => h hc.1.symm

/-- The parts before and after the leftmost occurrence of `p`. -/
def cut? (p : List Char) : List Char → Option (List Char × List Char)
  | [] => (after? p []).map fun r => ([], r)
  | c :: s =>
    match after? p (c :: s) with
    | some r => some ([], r)
    | none => (cut? p s).map fun (a, b) => (c :: a, b)

theorem eq_append_of_cut? {p s a b : List Char} (h : cut? p s = some (a, b)) : s = a ++ p ++ b := by
  induction s generalizing a with
  | nil =>
    obtain ⟨r, hr, he⟩ := Option.map_eq_some_iff.1 h
    obtain ⟨rfl, rfl⟩ := Prod.mk.inj he
    simpa using after?_eq_some.1 hr
  | cons c s ih =>
    rw [cut?] at h
    split at h
    · rename_i r hr
      obtain ⟨rfl, rfl⟩ := Prod.mk.inj (Option.some.inj h)
      simpa using after?_eq_some.1 hr
    · obtain ⟨⟨a', b'⟩, hr, he⟩ := Option.map_eq_some_iff.1 h
      obtain ⟨rfl, rfl⟩ := Prod.mk.inj he
      simp [ih hr]

theorem length_of_cut? {p s a b : List Char} (h : cut? p s = some (a, b)) :
    s.length = a.length + p.length + b.length := by
  rw [eq_append_of_cut? h]; simp [Nat.add_assoc]

def contains (p s : List Char) : Bool := (cut? p s).isSome

def pieces (p s : List Char) : List (List Char) :=
  match cut? p s with
  | none => [s]
  | some (a, b) => if b.length < s.length then a :: pieces p b else [s]
termination_by s.length

theorem pieces_ne_nil (p s : List Char) : pieces p s ≠ [] := by
  rw [pieces]; split
  · simp
  · split <;> simp

/-- Replaces every occurrence of `p`, taken from the left, by `r`. An empty pattern replaces
nothing. -/
def swap (p r s : List Char) : List Char :=
  if p = [] then s else ((pieces p s).intersperse r).flatten

def trimBy (f : Char → Bool) (s : List Char) : List Char :=
  ((s.dropWhile f).reverse.dropWhile f).reverse

def endsWith (p s : List Char) : Bool := (after? p.reverse s.reverse).isSome

def runs (f : Char → Bool) : List Char → List (List Char)
  | [] => []
  | c :: s =>
    if f c then runs f s
    else
      match s with
      | [] => [[c]]
      | d :: _ =>
        if f d then [c] :: runs f s
        else
          match runs f s with
          | [] => [[c]]
          | w :: ws => (c :: w) :: ws

def slice (i j : Nat) (s : List Char) : List Char := (s.take j).drop i

def hexDigit (n : Nat) : Char := if n < 10 then Char.ofNat (48 + n) else Char.ofNat (87 + n)

def digitOf (c : Char) : Nat := c.toNat - 48

/-- The number that decimal digits write. -/
def natOf (ds : List Char) : Nat := ds.foldl (fun n c => 10 * n + digitOf c) 0

/-- The number that a hexadecimal digit stands for, small or capital. -/
def hexValue? (c : Char) : Option Nat :=
  if c.isDigit then some (c.toNat - 48)
  else if 'a' ≤ c.toLower ∧ c.toLower ≤ 'f' then some (c.toLower.toNat - 87)
  else none

end Chars

/-!
## Texts

The operations of `Chars`, on strings: parts around and between occurrences of a pattern,
replacement, trimming, words, and slices by position.
-/

namespace Text

/-- The parts before and after the leftmost occurrence of `p`. -/
def cut? (p s : String) : Option (String × String) :=
  (Chars.cut? p.toList s.toList).map fun (a, b) => (String.ofList a, String.ofList b)

def contains (p s : String) : Bool := Chars.contains p.toList s.toList

def pieces (p s : String) : List String := (Chars.pieces p.toList s.toList).map String.ofList

def fields (c : Char) (s : String) : List String := (s.toList.splitOn c).map String.ofList

def before (c : Char) (s : String) : String := String.ofList (s.toList.takeWhile (· != c))

def swap (p r s : String) : String := String.ofList (Chars.swap p.toList r.toList s.toList)

def remove (p s : String) : String := swap p "" s

def trimBy (f : Char → Bool) (s : String) : String := String.ofList (Chars.trimBy f s.toList)

def trim (s : String) : String := trimBy isBlank s

def trimLeft (c : Char) (s : String) : String := String.ofList (s.toList.dropWhile (· == c))

def words (s : String) : List String := (Chars.runs isBlank s.toList).map String.ofList

def startsWith (p s : String) : Bool := (Chars.after? p.toList s.toList).isSome

def endsWith (p s : String) : Bool := Chars.endsWith p.toList s.toList

def slice (i j : Nat) (s : String) : String := String.ofList (Chars.slice i j s.toList)

def dropLast (s : String) : String := String.ofList s.toList.dropLast

def inner (s : String) : String := String.ofList (s.toList.drop 1).dropLast

/-- Every run of blanks as one space, and none at the ends. -/
def collapse (s : String) : String := " ".intercalate (words s)

end Text

/-!
## Lines

Two ways to see lines in a text: `unify` makes `\n` of the other two line endings, as when a file is
read as text, and `boundaries` cuts after each line boundary of Unicode.
-/

namespace Lines

def unify : List Char → List Char
  | [] => []
  | '\r' :: '\n' :: s => '\n' :: unify s
  | c :: s => (if c = '\r' then '\n' else c) :: unify s

private def push (c : Char) : List (List Char) → List (List Char)
  | [] => [[c]]
  | l :: ls => (c :: l) :: ls

/-- Characters that end a line by themselves. -/
def isBoundary (c : Char) : Bool :=
  let n := c.toNat
  (10 ≤ n && n ≤ 13) || (28 ≤ n && n ≤ 30) || n == 0x85 || n == 0x2028 || n == 0x2029

def boundaries : List Char → List (List Char)
  | [] => []
  | '\r' :: '\n' :: s => ['\r', '\n'] :: boundaries s
  | c :: s => if isBoundary c then [c] :: boundaries s else push c (boundaries s)

end Lines

/-!
## Integers in decimal

`ofText?` reads an integer with blanks around it, an optional sign, and digits of any script that
single low lines may separate. The information separators of ASCII are no blanks here, and an integer
of more than `maxDigits` digits is not read.
-/

namespace Integer

def maxDigits : Nat := 4300

def isGap (c : Char) : Bool := Text.isBlank c && !(0x1C ≤ c.toNat && c.toNat ≤ 0x1F)

/-- Digits that single low lines may separate, the value so far being `n`. -/
def digitsFrom? (n : Nat) : List Char → Option Nat
  | [] => some n
  | '_' :: c :: s =>
    match Text.digitValue? c with
    | some d => digitsFrom? (10 * n + d) s
    | none => none
  | c :: s =>
    match Text.digitValue? c with
    | some d => digitsFrom? (10 * n + d) s
    | none => none

/-- A natural number: a digit, then digits that single low lines may separate. -/
def natural? : List Char → Option Nat
  | [] => none
  | c :: s =>
    match Text.digitValue? c with
    | some d => digitsFrom? d s
    | none => none

/-- A natural number that is not too long. -/
def bounded? (s : List Char) : Option Nat :=
  if (s.filter (· != '_')).length ≤ maxDigits then natural? s else none

def signed? : List Char → Option Int
  | '-' :: s => (bounded? s).map fun n => -(n : Int)
  | '+' :: s => (bounded? s).map Int.ofNat
  | s => (bounded? s).map Int.ofNat

def ofText? (s : String) : Option Int := signed? (Text.trimBy isGap s).toList

end Integer

end CodeAtlas
