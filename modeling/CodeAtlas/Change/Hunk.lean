import CodeAtlas.Failure
import CodeAtlas.Path

/-!
# Hunks

A patch is a text whose lines that start with `@@` announce a hunk: `@@ -a,b +c,d @@`. Of each hunk
only the lines on the new side count, `d` of them from number `c`, one if `d` is left out.

* `Hunk.ofHeader`: the hunk that a line announces;
* `ChangedLines.ofPatches`: the hunks of each file, under the normal form of its path.
-/
namespace CodeAtlas

/-- Lines on the new side of a patch: `count` of them from number `start`. -/
structure Hunk where
  start : Int
  count : Int
  deriving DecidableEq, Repr

namespace Hunk

def number (s : String) : Except Failure Int :=
  match Integer.ofText? s with
  | some n => .ok n
  | none => .error (.invalid ("invalid literal for int() with base 10: " ++ Json.literalText s))

/-- The hunk that a range such as `c,d` gives. Each number is read before their count is judged, and of
more than two the third still has to be one. -/
def ofRange (range : String) : Except Failure Hunk :=
  match Text.fields ',' range with
  | [start, count] => do return ⟨← number start, ← number count⟩
  | start :: count :: next :: _ => do
    let _ ← number start
    let _ ← number count
    let _ ← number next
    throw (.invalid "too many values to unpack (expected 2)")
  | fields => do
    let _ ← fields.mapM number
    throw (.invalid "not enough values to unpack (expected 2, got 1)")

/-- The hunk that a line starting with `@@` announces: its third word, without the first character,
is a number, or two with a comma between them. -/
def ofHeader (line : String) : Except Failure Hunk := do
  let some word := (Text.words line)[2]? | throw (.outOfRange "list")
  let range := String.ofList (word.toList.drop 1)
  if Text.contains "," word then ofRange range else return ⟨← number range, 1⟩

def lines (h : Hunk) : List Int := (List.range h.count.toNat).map fun (i : Nat) => h.start + (i : Int)

def touches (h : Hunk) (first last : Int) : Bool :=
  decide (max h.start first ≤ min (h.start + h.count - 1) last)

end Hunk

abbrev ChangedLines := Table String (List Hunk)

namespace ChangedLines

def ofPatch (patch : String) : Except Failure (List Hunk) :=
  ((Text.fields '\n' patch).filter (Text.startsWith "@@")).mapM Hunk.ofHeader

/-- Adds the hunks of a file, in place of those that its path had. The file must have a patch. -/
def add (root : String) (changed : ChangedLines) (entry : String × Option String) :
    Except Failure ChangedLines := do
  let some patch := entry.2 | throw (.noMember "NoneType" "split")
  return Table.set changed (Path.normal (Path.join root entry.1)) (← ofPatch patch)

/-- The hunks of the patches of files below a folder. -/
def ofPatches (root : String) (patches : List (String × Option String)) : Except Failure ChangedLines :=
  patches.foldlM (add root) []

def lineNumbers (hunks : List Hunk) : List Int :=
  ((hunks.flatMap Hunk.lines).mergeSort fun a b => decide (a ≤ b)).eraseDups

end ChangedLines
end CodeAtlas
