import CodeAtlas.Text.Class

/-!
# Upper and lower case

The case mappings of Unicode 14: tables of code points, and what they make of a text.
-/
namespace CodeAtlas

/-!
## Case mappings beyond ASCII

The upper and lower case mappings of Unicode 14 for code points from 0x80 on. Most code points with a
case come in pairs, of which each is the form of the other in the other case; the few mappings of one
direction, or to more than one code point, are listed apart.
-/

namespace Text

/-- The `count` code points from `first` on, `step` apart, and those at a distance from them. -/
structure Shift where
  first : Nat
  count : Nat
  step : Nat
  distance : Int

def quadruples : List Nat → List (Nat × Nat × Nat × Nat)
  | a :: b :: c :: d :: ns => (a, b, c, d) :: quadruples ns
  | _ => []

/-- Four numbers for each shift. The last is twice the distance, and one less where it goes down. -/
def shifts (lines : List String) : List Shift :=
  (quadruples (numbers lines)).map fun (first, count, step, d) =>
    ⟨first, count, step, if d % 2 = 0 then d / 2 else -((d + 1) / 2)⟩

/-- Capital letters, and how far from them their small letters are. -/
def casePairs : List Shift := shifts
  ["HkxbCmIihbCmJwyccLudccMbiccMsxccOmbbJhOndccOvbbQeOwcccPabbPwPbcecPdcbPuPibbGcPjbbPoPkbbPqPlbb",
   "cPnbbPuPobbPyPqbbQgPrbbQcPsbbcPwbbQgPxbbQkPzbbQmQadccQgbbQuQhbbcQjbbQuQmbbcQobbQuQpcecQrcbQsQ",
   "vbbcQxbbQwQycecRkbbeRnbbeRqbbeRticcSkjccTdbbeTgcecTibbHlTjbbEhTmtccUybbJzVajccVybbBFYkVzbbcWb",
   "bbMnWcbbBFYeWfbbcWhbbOzWibbFiWjbbFmWkfccBHwcccBIcbbcBIlbbIyBIsbbCyBIudbCwBIybbEyBJacbEwBJdrbC",
   "mBJvjbCmBLnbbqBLwmccBNbbbcBNdbbnBNebbcBNhdbJzBNkqbGeBOaBgbCmBRcrccBSsBbccBUubbBeBUvhccBVkBwcc",
   "BZdBmbDsGHsBmbVMuGJfbbVMuGJlbbVMuHLgDcbEKZoHOigbqKVgBrbIXjKWzdbIXjLJkCxccLPoBwccLToibpLUegbpL",
   "UuibpLVkibpLWagbpLWrecpLXgibpMAicbpMAkcbFrMAyebGpMBocbpMBqcbHrMCecbpMCgcbIpMCibbnMCucbJvMCwcb",
   "JrMOwbbCeMQqqbBgMRzbbcNXmBabCaQRgBwbDsQUybbcQVabbBFUjQVbbbLHjQVcbbBFTdQVfdccQVlbbBFXfQVmbbBFU",
   "vQVnbbBFXlQVobbBFXjQVqbbcQVtbbcQWccbBFZxQWeByccRAhcccRAobbcCKYyxccCLBkoccCLHqhccCLIgBfccCLKzc",
   "ccCLLdbbEANvCLLefccCLLrbbcCLLtbbEVChCLLwcccCLMckccCLMwceEVElCLMxbbEVFhCLMybbEVEzCLMzbbEVEfCLN",
   "cbbEVApCLNdbbEVClCLNebbEVAvCLNfbbCTkCLNgiccCLNwbbDrCLNxbbEVEjCLNybbEARvCLNzcccCLOibbcCLOocccC",
   "LPtbbcDSQbBabCmDUMaBobDcDUSuBkbDcDVAelbDaDVAqpbDaDVBghbDaDVBocbDaDXRsBzbEyECHcBgbCmFISeBgbCmH",
   "DEuBibCq"]

/-- Code points that have an upper case form but are not the lower case form of it. -/
def upperShifts : List Shift := shifts
  ["GzbbCFeLtbbRvOtbbXbRlbbbRobbbRrbbbTebbbBGfbbGmBLabbCjBLobbEtBLpbbEjBLtbbDpBLubbEdBMubbGpBMvbb",
   "GdBMzbbHjKUqbbSNbKUrbbSMzKUsbbSMhKUtcbSMdKUvbbSMfKUwbbSLrKUxbbSHlKUybbEAIuLPjbbEnMAobbVIf"]

/-- Code points that have a lower case form but are not the upper case form of it. -/
def lowerShifts : List Shift := shifts
  ["RlbbcRobbcRrbbcTebbcBMybbEpLPmbbWNtLYmibpLZcibpLZsibpMAmbbrMBcbbrMCybbrMOkbbWGfMOobbYUvMOpbbY",
   "Ln"]

/-- Greek letters with a subscript, which is a letter of its own in upper case. -/
def subscriptExpansions : List (Nat × List Nat) :=
  [(0x1F80, 0x1F08), (0x1F90, 0x1F28), (0x1FA0, 0x1F68)].flatMap fun (first, capital) =>
    (List.range 16).map fun i => (first + i, [capital + i % 8, 0x399])

/-- Upper case forms that are several code points. -/
def upperExpansions : List (Nat × List Nat) :=
  subscriptExpansions ++
    (quadruples (numbers
      ["IpDfDfaMrBAyDaaTcCwBEaaBJcBJlBDwBDpBKiBJxBDwBDpCClBZhCAkaLPeCuBFlaLPfDgBDwaLPgDjBDyaLPhDl",
       "BDyaLPiCnBBaaLWiBJxBEhaLWkBJxBEhBDoLWmBJxBEhBDpLWoBJxBEhBGcMAcMAkBJlaMAdBJdBJlaMAeBIsBJla",
       "MAgBJdBGcaMAhBJdBGcBJlMAmBJdBJlaMAsMBaBJlaMAtBJjBJlaMAuBIvBJlaMAwBJjBGcaMAxBJjBGcBJlMBcBJ",
       "jBJlaMBiBJlBDwBDoMBjBJlBDwBDpMBmBJlBGcaMBnBJlBDwBGcMByBJxBDwBDoMBzBJxBDwBDpMCaBJtBEhaMCcB",
       "JxBGcaMCdBJxBDwBGcMCoMCwBJlaMCpBKbBJlaMCqBJbBJlaMCsBKbBGcaMCtBKbBGcBJlMCyBKbBJlaDRBkCsCsa",
       "DRBlCsCvaDRBmCsCyaDRBnCsCsCvDRBoCsCsCyDRBpDfDgaDRBqDfDgaDRCdBZwBZyaDRCeBZwBZhaDRCfBZwBZna",
       "DRCgCAgBZyaDRChBZwBZpa"])).map
    fun (n, a, b, c) => (n, [a, b, c].filter (· ≠ 0))

/-- Lower case forms that are several code points. -/
def lowerExpansions : List (Nat × List Nat) :=
  [(0x130, [0x69, 0x307])]

end Text

/-!
## Upper and lower case

Full case mappings of Unicode 14, one character at a time. The one mapping that looks at its
neighbours, the small sigma at the end of a word, is decided by the nearest characters around it that
are not passed over.
-/

namespace Text

def Shift.moves (s : Shift) (n : Nat) : Bool :=
  s.first ≤ n && (n - s.first) % s.step == 0 && (n - s.first) / s.step < s.count

def shifted? (n : Nat) (shifts : List Shift) : Option Nat :=
  (shifts.find? fun s => s.moves n).map fun s => ((n : Int) + s.distance).toNat

def unshifted? (n : Nat) (shifts : List Shift) : Option Nat :=
  (shifts.map fun s => (s, (n : Int) - s.distance)).findSome? fun (s, m) =>
    if 0 ≤ m && s.moves m.toNat then some m.toNat else none

private def mapped (n : Nat) (expansions : List (Nat × List Nat)) (single : Option Nat) : List Char :=
  match expansions.lookup n with
  | some ns => ns.map Char.ofNat
  | none => [Char.ofNat (single.getD n)]

def upperChar (c : Char) : List Char :=
  if c.toNat < 0x80 then [c.toUpper]
  else mapped c.toNat upperExpansions ((shifted? c.toNat upperShifts).or (unshifted? c.toNat casePairs))

def lowerChar (c : Char) : List Char :=
  if c.toNat < 0x80 then [c.toLower]
  else mapped c.toNat lowerExpansions ((shifted? c.toNat lowerShifts).or (shifted? c.toNat casePairs))

def upper (s : String) : String := String.ofList (s.toList.flatMap upperChar)

def isCased (c : Char) : Bool := inRuns c.toNat casedRuns

def isIgnorable (c : Char) : Bool := inRuns c.toNat ignorableRuns

def startsCased (s : List Char) : Bool := (s.dropWhile isIgnorable).head?.any isCased

/-- Lower case, left to right; `inWord` tells whether the last character that is not passed over is a
cased one. A capital sigma becomes a final sigma when such a letter stands before it and none after
it. -/
def lowerFrom (inWord : Bool) : List Char → List Char
  | [] => []
  | c :: s =>
    let here := if c == 'Σ' then [if inWord && !startsCased s then 'ς' else 'σ'] else lowerChar c
    here ++ lowerFrom (if isIgnorable c then inWord else isCased c) s

def lower (s : String) : String := String.ofList (lowerFrom false s.toList)

end Text

end CodeAtlas
