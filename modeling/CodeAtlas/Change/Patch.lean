import CodeAtlas.Text.Basic

/-!
# Patches

The lines that two texts have in common, and their difference as a patch.
-/
namespace CodeAtlas

/-!
## Lines that two texts have in common

The longest run of lines that both texts share is kept first, then the same is done before it and
after it. In a long text, a line that occurs very often does not start a run, though it may belong to
one.

* `blocks`: the runs that are kept, from the first to the last;
* `edits`: both texts as a series of runs that stay and runs that are exchanged.
-/

namespace Matching

/-- A run of `size` lines, from line `left` of one text and line `right` of the other. -/
structure Block where
  left : Nat
  right : Nat
  size : Nat
  deriving DecidableEq, Repr

/-- A part of both texts that is searched for a run. -/
structure Window where
  leftStart : Nat
  leftStop : Nat
  rightStart : Nat
  rightStop : Nat

def positions (line : String) (lines : Array String) : List Nat :=
  (List.range lines.size).filter fun i => lines[i]? == some line

def longText : Nat := 200

def starts (lines : Array String) (line : String) : List Nat :=
  let found := positions line lines
  if longText ≤ lines.size && lines.size / 100 + 1 < found.length then [] else found

abbrev Ends := List (Nat × Nat)

def lengthBefore (ends : Ends) (j : Nat) : Nat :=
  if j = 0 then 0 else ((ends.find? fun e => e.1 == j - 1).map Prod.snd).getD 0

/-- Goes on with line `i`, which stands at `hits` on the right. The longest run so far is kept; of
equally long ones the first. -/
def advance (w : Window) (i : Nat) (hits : List Nat) (state : Ends × Block) : Ends × Block :=
  let inside := hits.filter fun j => w.rightStart ≤ j && j < w.rightStop
  let ends := inside.map fun j => (j, lengthBefore state.1 j + 1)
  let best := ends.foldl (fun best e =>
    if best.size < e.2 then ⟨i + 1 - e.2, e.1 + 1 - e.2, e.2⟩ else best) state.2
  (ends, best)

/-- Takes in equal lines before a run. -/
def growBack (a b : Array String) (w : Window) : Nat → Block → Block
  | 0, m => m
  | fuel + 1, m =>
    if w.leftStart < m.left && w.rightStart < m.right && a[m.left - 1]? == b[m.right - 1]? then
      growBack a b w fuel ⟨m.left - 1, m.right - 1, m.size + 1⟩
    else m

/-- Takes in equal lines after a run. -/
def growOn (a b : Array String) (w : Window) : Nat → Block → Block
  | 0, m => m
  | fuel + 1, m =>
    if m.left + m.size < w.leftStop && m.right + m.size < w.rightStop &&
        a[m.left + m.size]? == b[m.right + m.size]? then
      growOn a b w fuel { m with size := m.size + 1 }
    else m

def longest (a b : Array String) (hits : Array (List Nat)) (w : Window) : Block :=
  let lines := (List.range (w.leftStop - w.leftStart)).map (w.leftStart + ·)
  let found := lines.foldl (fun state i => advance w i ((hits[i]?).getD []) state)
    ([], ⟨w.leftStart, w.rightStart, 0⟩)
  growOn a b w a.size (growBack a b w a.size found.2)

def blocksIn (a b : Array String) (hits : Array (List Nat)) : Nat → Window → List Block
  | 0, _ => []
  | fuel + 1, w =>
    let m := longest a b hits w
    if m.size = 0 then []
    else
      blocksIn a b hits fuel ⟨w.leftStart, m.left, w.rightStart, m.right⟩ ++ m ::
        blocksIn a b hits fuel ⟨m.left + m.size, w.leftStop, m.right + m.size, w.rightStop⟩

/-- Joins runs that follow each other without a gap. -/
def joined : List Block → List Block
  | [] => []
  | m :: rest =>
    match joined rest with
    | [] => [m]
    | n :: more =>
      if m.left + m.size = n.left && m.right + m.size = n.right then
        ⟨m.left, m.right, m.size + n.size⟩ :: more
      else m :: n :: more

/-- The runs of lines that two texts keep. -/
def blocks (a b : Array String) : List Block :=
  let hits := a.map (starts b)
  joined (blocksIn a b hits (a.size + 1) ⟨0, a.size, 0, b.size⟩)

/-- A stretch of both texts: the same on both sides, or one exchanged for the other. -/
structure Edit where
  same : Bool
  leftStart : Nat
  leftStop : Nat
  rightStart : Nat
  rightStop : Nat
  deriving DecidableEq, Repr

def editsFrom (leftSize rightSize : Nat) (i j : Nat) : List Block → List Edit
  | [] => if i < leftSize || j < rightSize then [⟨false, i, leftSize, j, rightSize⟩] else []
  | m :: rest =>
    (if i < m.left || j < m.right then [⟨false, i, m.left, j, m.right⟩] else []) ++
      ⟨true, m.left, m.left + m.size, m.right, m.right + m.size⟩ ::
        editsFrom leftSize rightSize (m.left + m.size) (m.right + m.size) rest

/-- Two texts as a series of stretches. -/
def edits (a b : Array String) : List Edit := editsFrom a.size b.size 0 0 (blocks a b)

end Matching

/-!
## Patches

The difference of two texts as a patch: hunks of exchanged lines with up to three lines around them,
each under a header that tells where the hunk lies.
-/

namespace Patch

open Matching

/-- So many lines are shown around an exchange. -/
def context : Nat := 3

/-- The stretches with the first and the last one cut down to the context. -/
def trimmed (edits : List Edit) : List Edit :=
  let first := match edits with
    | e :: rest =>
      if e.same then
        { e with leftStart := max e.leftStart (e.leftStop - context)
                 rightStart := max e.rightStart (e.rightStop - context) } :: rest
      else e :: rest
    | [] => []
  match first.getLast? with
  | some e =>
    if e.same then
      first.dropLast ++ [{ e with leftStop := min e.leftStop (e.leftStart + context)
                                  rightStop := min e.rightStop (e.rightStart + context) }]
    else first
  | none => []

/-- The stretches in groups: a long one that stays the same ends a group and starts the next. The
group at hand is held in order. -/
def groupsFrom (group : List Edit) : List Edit → List (List Edit)
  | [] => if group.all Edit.same then [] else [group]
  | e :: rest =>
    if e.same && 2 * context < e.leftStop - e.leftStart then
      let ending := { e with leftStop := min e.leftStop (e.leftStart + context)
                             rightStop := min e.rightStop (e.rightStart + context) }
      let beginning := { e with leftStart := max e.leftStart (e.leftStop - context)
                                rightStart := max e.rightStart (e.rightStop - context) }
      (group ++ [ending]) :: groupsFrom [beginning] rest
    else groupsFrom (group ++ [e]) rest

def groups (edits : List Edit) : List (List Edit) := groupsFrom [] (trimmed edits)

/-- Where a hunk lies on one side: its first line and the number of its lines. One line goes without
its number, and a hunk without lines counts from the line before. -/
def range (start stop : Nat) : String :=
  let size := stop - start
  if size = 1 then toString (start + 1)
  else toString (if size = 0 then start else start + 1) ++ "," ++ toString size

def linesOf (mark : String) (text : Array String) (start stop : Nat) : List String :=
  (text.extract start stop).toList.map (mark ++ ·)

def stretch (a b : Array String) (e : Edit) : List String :=
  if e.same then linesOf " " a e.leftStart e.leftStop
  else linesOf "-" a e.leftStart e.leftStop ++ linesOf "+" b e.rightStart e.rightStop

def hunk (a b : Array String) : List Edit → List String
  | [] => []
  | first :: rest =>
    let last := (first :: rest).getLast?.getD first
    ("@@ -" ++ range first.leftStart last.leftStop ++ " +" ++
        range first.rightStart last.rightStop ++ " @@") ::
      (first :: rest).flatMap (stretch a b)

/-- The lines of a patch; none if the texts are the same. -/
def lines (a b : Array String) : List String :=
  match groups (edits a b) with
  | [] => []
  | found => "--- " :: "+++ " :: found.flatMap (hunk a b)

def split (text : String) : Array String := ((Lines.boundaries text.toList).map String.ofList).toArray

def between (old new : String) : String := "\n".intercalate (lines (split old) (split new))

def marked (mark : Char) (patch : String) : Nat :=
  ((Text.fields '\n' patch).filter fun line =>
    Text.startsWith (String.singleton mark) line &&
      !Text.startsWith (String.ofList [mark, mark, mark]) line).length

end Patch

end CodeAtlas
