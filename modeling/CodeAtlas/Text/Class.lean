/-!
# Character classes

What Unicode 14 says about characters, as tables, and the classes that the library asks for.
-/
namespace CodeAtlas

/-!
## Tables of characters

What Unicode 14 says about characters: which ones are letters, numerals, printable, cased or passed
over by a letter that looks at its neighbours. A class is given by the lengths of the runs of code
points that are in turn outside and inside of it. The long tables are written in letters.
-/

namespace Text

def numbersFrom (n : Nat) : List Char → List Nat
  | [] => []
  | c :: cs =>
    if c.isUpper then numbersFrom (26 * n + (c.toNat - 65)) cs
    else (26 * n + (c.toNat - 97)) :: numbersFrom 0 cs

/-- The numbers that letters write to base 26, each with a small letter as its last digit. -/
def numbers (lines : List String) : List Nat := numbersFrom 0 (String.join lines).toList

def inRuns (n : Nat) : List Nat → Bool
  | outside :: inside :: runs =>
    outside ≤ n && (n < outside + inside || inRuns (n - outside - inside) runs)
  | _ => false

/-- Alphabetic and numeric code points, from 0x80 on. -/
def alphanumericRuns : List Nat := numbers
  ["BqbhcbbdcbdbxbBfbRqemofhbbbEzfbccebbgbbdbbbubDfbFjiGkbBmcbgBpCtBbeeBtBrvkecbDvbbpchpcbqbbBeBd",
   "DllboBrjcebfwebjbdbxzhlfybgrBqCgCcdbsbhkekbqeicccwbhbbdedbqbncbdemcgcbigeccwbhbcbcbcBfebbhkcd",
   "qjbdbwbhbcbfdbsbpcekjblicccwbhbcbfdbBecbdekbhlbbgddbedcbbbcdcdddmwbvnsibdbxbqdbBadcbccekihbbe",
   "ibdbxbkbfdbBfcbcekbcrjbdbBpcbqbfdbketbgfsdybjbbchBfkrBwbcmhjkBncbbbfbybbbkbcjbcfbbjkceBgbBfum",
   "ibBkBbfElBrulggeedbdchdenmbbkgBmbbfbcBrbMvbechbbbecBpbecBhbechbbbecpbCfbecCpoudqqDicgdXwcrbBa",
   "fCxdlhsntosonbdpCaBjbebdkgkwkgDlhfcBibbfCskBfBnBocflBseBaglBlxjCbBrkgknbDpBvridkBpBenCeBaBkBc",
   "kdBxcjhBrcdBpebgbcdbfHkCmKscgcBmcgcibbbbbbbBfcCbbhbbddbhdecgenfdbhElccgflgnDxbebckbbdfgbbbbbb",
   "eblceffebbCgBByCiDawYgBeBRoIvgedcjbcBmbbfbcCehbqxjhbhbhbhbhbhbhbhDcbSbdzjhfcfeDigdbDmbefBrbDq",
   "dekBgBwqBgkBeibpBgkBnpMiJToCmBGUfCpBucKjdBcuBvqBfcDcBnjcDzcCmfcbbbfyqbdbebxngkCaoByBckygdbbcb",
   "BmkxzBdhBvBclgfbzbBpxdbiekgxdbdBybbdccfcbbbydclhdmgcgcgjhbhbBrbogElnkgQNsmxeBxMNcOccEcBmhmffb",
   "bkbnbfbbbcbcbEeBhNzsCmcCcBomEmfbFftkhBagBalDldgcgcgcdBjmbBabtbcbpcoBiEtmBtmCfrcJkBddBxqBbeBkj",
   "BefBmkBecBkeibfBqGcckgBkeBkeBoiCamlbpbhbcblbpbhbcCpLzjwkiygbBqbjCrgcbbBsbcdbcxcBfcBmijBwtbcfB",
   "heBaCsCeeucBvpebdbBdkjxBfbBgBgibBcgfqCckwcBbfBaxhDcCvCdBznBzhBqmkLiBfbBqgcDaBoiwleBbsBuBcuxmC",
   "bBaBebccbnBtBgzhkjBkpkebcbiBjdbmBwoellbbeulsbzDghbbbebpbkhBvrklicccwbhbcbfdbsbmfGcCbsefkfdBeB",
   "wucbbikGkBvBpeBkBwublkBmBrnbhkCcBbvmehHdBsEmDfmicbcibcbypbbbokCsicBnqbbbBcbkBohbvblButbsCvKdj",
   "bBlrbpBdfBeEihbcbBmvbjkggbcbBgobhkLytHhbpvBrBJmDyEhrHoDXkDtpBPfFZtWlMUbVxhBfbkgDbbkgBesBwqemk",
   "bhbvftBAmDjEbCxfbConCmcbbBcJCaiBVqBqjNFrebhbcbLfBtdreiPgDKuEdfndjhkILiuEezFfDhbCtbccbcccebmbb",
   "bhbCnbecibhbBcbebfbbdhbNcczbzbBfbzbBfbzbBfbzbBfbzbicByCQyBfSnBtkhckebMjBesBsekBWghbebcbpbHpcj",
   "BwCqhbekBElChbdbeCyBtbpHmebBbbcbbcbbkbebbbbgbebbbbbbdbcbbcbbbbbbbbbbcbbcebhbebebbbkbrfdbfbrWi",
   "nEDfkBNqCLFcBgGDthIocINqoLBlEPjUwCFyHHz"]

def digitZeros : List Nat :=
  [0x660, 0x6F0, 0x7C0, 0x966, 0x9E6, 0xA66, 0xAE6, 0xB66, 0xBE6, 0xC66, 0xCE6, 0xD66, 0xDE6, 0xE50,
   0xED0, 0xF20, 0x1040, 0x1090, 0x17E0, 0x1810, 0x1946, 0x19D0, 0x1A80, 0x1A90, 0x1B50, 0x1BB0,
   0x1C40, 0x1C50, 0xA620, 0xA8D0, 0xA900, 0xA9D0, 0xA9F0, 0xAA50, 0xABF0, 0xFF10, 0x104A0, 0x10D30,
   0x11066, 0x110F0, 0x11136, 0x111D0, 0x112F0, 0x11450, 0x114D0, 0x11650, 0x116C0, 0x11730,
   0x118E0, 0x11950, 0x11C50, 0x11D50, 0x11DA0, 0x16A60, 0x16AC0, 0x16B50, 0x1D7CE, 0x1D7D8,
   0x1D7E2, 0x1D7EC, 0x1D7F6, 0x1E140, 0x1E2F0, 0x1E950, 0x1FBF0]

/-- Code points without a printed form, from 0x80 on: separators other than the plain space, and what
is classed as control, format, private or unassigned. -/
def unprintableRuns : List Nat := numbers
  ["aBhmbBBmcgehbbbubPhbBmcBycdbCdiBbegrwbHkbBwcChcDxoChcBxcpbBccbblfBfjCwbGfbicccwbhbbdecjccceib",
   "ecbfczcdbgeccwbhbcbcbccbbfeccddbhebbhrkdbjbdbwbhbcbfckbdbdcbpecmhhbdbicccwbhbcbfcjcccdhdecbfc",
   "skcbgddbedcbbbcdcdddmefddbecbgbovfnbdbxbqcjbdbehcbdcbceckhwbdbxbkbfcjbdbehcgcbeckbcnnbdbBzbdb",
   "geqcBabdbsdybjbbchdbegbbbigkcdmCgeBdBlcbbbfbybbbxcfbbbgckceBgCubBkeBnbBkbpbnBlHqbbfbcOnbechbb",
   "becBpbecBhbechbbbecpbCfbecCpcBgdBagDicgcYqbBcdDlhwjyjumnbdbcmDqckgkgoblgDlhBrfCskBfbmemebdBqc",
   "flBseBagldCkcCnbBdclgkgocBfBxCzdBvbEmiCidpdCihBrcliBrfUocgcBmcgcibbbbbbbBfcCbbpbocgbtcdbjryiB",
   "vrccBbbndBhpBhpFkeZnzlvCRscBgbNlfBtbbfbcCehcoyjhbhbhbhbhbhbhbhbEwBiBabDlmIgBamfClbDicDzfBrbDq",
   "bDgmBvbBRIrdCdjNkuHciHvfcbbbfyChdkgCeiCsimgEmlBedDableBhbCdjockcDzyBckgcgcgjhbhbCieEwckgQNsmx",
   "eBxeDAuJMeOccEcBmhmffBabfbbbcbcbEvqRdcCchbBgBqgBzbtbeefbFfeHidgcgcgcddhbhnccmbBabtbcbpcoBiEtf",
   "deBtdDkbndbBvBuFaBddBxpBceBkjBefBrfBebBleoBqGcckgBkeBkeBoiCalmbpbhbcblbpbhbcCpLzjwkiygbBqbjCr",
   "gcbbBsbcdbcxbCuijBwtbcfBhdBbfbCmCeeucBybcfibdbBdcdekhjhCmBgBnemjCcdBdcBbfBahemhDcCvCdBznBzhBu",
   "ikLiBfbBqbdccDaBoiBqwBaBmBcuxjDaeBkjCkbfnzhkgCbbsiBnjDsbulsbBsCnhbbbebpblgChfkgebicccwbhbcbfb",
   "kcccdcbgbfhchdfFjDobfBeCuikGkCccBmBiCrlkgntCggkCcBbcpexHdCiDwDfmicbcibcbBebccmjkCsicBuclBbCui",
   "DfnCvKdjbBtbokBddBgcwboCvhbcbBsdbbcbjikggbcbBlbcbghkLyzHbbpBynBJnDyEhbflHoDXkDvnBPfFZtWlMUbVx",
   "hBfbkeDdbkgBecgkCskkbhbvftBAmDnDxCxeCfhrCmflcoJCaiBVqBqjNFrebhbcbLfBtdreiPgDKuEdfndjhkceGYyBu",
   "cxjEmCiJmkBncCwiEivCsFyumDjjzFfDhbCtbccbcccebmbbbhbCnbecibhbBcbebfbbdhbNccLgcBBapfbpBQmBfIrhb",
   "rchbcbfIfBtdockecMiBfrCgfbBWahbebcbpbHpcqBpCyekecBEfCqCyCjHmebBbbcbbcbbkbebbbbgbebbbbbbdbcbbc",
   "bbbbbbbbbbcbbcebhbebebbbkbrfdbfbrCacKkBseDwmpcpbpbBlkGsCeBdnBsejhcogFyBLwfqdndEmmDlhmebpmeCei",
   "kgBoiBeccDaNcmocfdfdhjBddlfgkkgiihjFrbCdBlkBNqCLFcBgGDthIocINqoLBlEPjUwCFyHHzBOTMrJgLECu"]

/-- Code points that have a case and are not passed over. -/
def casedRuns : List Nat := numbers
  ["CnBagBaBvbkbebfxbBfbHnbeeIabBbHkeccddbbgbbdbbbubDfbFjiGkbBmjBpEFfBmbbfbcBrcdZwDicgDFujhBrcdCm",
   "BsClnbBiDxKscgcBmcgcibbbbbbbBfcCbbhbbddbhdecgenfdbhKbbebckbbdfgbbbbbbebgebceffebrBgdcBFlCaCRu",
   "EucDzgedcmBmbbfbBTWcBusBcFeDabxdebChfcbbbfBbcdbBFpBrfjhDcBEAihmfBNtBagBaBTtDcDsBkeBkEmlbpbhbc",
   "blbpbhbcCOpBznBzEKzCmBGIqCmBMLkDhbCtbccbcccebmbbbhbCnbecibhbBcbebfbbdhbNcczbzbBfbzbBfbzbBfbzb",
   "BfbzbiCSykbuDThCqDAaBagBagBa"]

/-- Code points that are passed over. -/
def ignorableRuns : List Nat := numbers
  ["BnbgblbBjbbbCtbebbbebccTjHkecebjcbbJrhHzbfbBxBtbbbcbcbbBsblgklbbBjbkvqbDxibkbeBhbbbBeBbDnlCgl",
   "ebcbyyBrdBsbhcgiBpCgCdbbbeiebdhkcnbpbCgbeeibucBabccCfbececcddbBecdblcCfbefbcebucwgbbCgbcbbeib",
   "hclcBebCjbmbBybdbCdbbdfdbehclcBdbCgbcbgbfcucBccCfceeibucBdbCubhdbbDmbchljDubcjjbbgCwcBbbbbbbC",
   "dobfbcflbBkjbDyebgbccczcedqenbccgbpbDqbXkdBKkdBdcBecBecCmcbhibcldbfbBtfBzbCncBibEodecjbgdIlcc",
   "bCgbbhbbbbcigkcbBnbiBfBxeBwbbfbbfbBojmcBgeccbdCebbcdbbdCgiccCmgDedbnbhebgbdcByClnbBiDxRdbbdld",
   "ndndncmfickbcbcfBxfbkbbnbqnBzBhEJrcEjdEvbpbDsBgBvbSbbBkedffbDpgDpdBQBubBWcgKkbDuebkbbBceDccoB",
   "iDabxdDzddcibdbebzcfbFvcBasnbBmizlBudBwbceccrbvcCogccccmbibBjblbBzbbdccfcbbBbbocfcbbDwfjdErbc",
   "bebBDZsbFrrWbqdbmqBibcbGnbhbgblbBjbbbBvbBtcCpbvdTtbIsbFtfBNpgbBqbjWkdbcfeBodebGjcWbeOxcFxlBxe",
   "EtbCcpBpbcckdBxecccbebkbBydBkfbiCkbmcCajkecbDrdcbbcgbGebdivcCfcdbBlhdfHnicdbbxbDggbbecbcJeegc",
   "bcBbcDhicbbcEcbbbcgbbDxdcebfJzjbcJwcbbebFoeccebBgkBogceibjgcdBunbcPqhbgbbDewchbcbcEsgdbbcbhbb",
   "CucdbbbNjcIBbjUStfChhjeBNvbClrCmcbcYGpebhbcEUgcbeGYuBucxUydjqchBeeFsdCYdCdeByibobwfbpCAihbrch",
   "bcbfKboOebCjeCFwhEfiEBffBSXXpbBeDsEyJg"]

end Text

/-!
## Character classes

Blanks, decimal digits, word characters and printable characters of Unicode 14. Below 0x80 the
classes are given directly, from there on by the tables.
-/

namespace Text

/-- The blanks of Unicode 14: the spaces, the line and paragraph separators, the control
characters that move the print position and the four information separators. -/
def isBlank (c : Char) : Bool :=
  let n := c.toNat
  (9 ≤ n && n ≤ 13) || (28 ≤ n && n ≤ 32) || n == 0x85 || n == 0xA0 || n == 0x1680
    || (0x2000 ≤ n && n ≤ 0x200A) || n == 0x2028 || n == 0x2029 || n == 0x202F || n == 0x205F
    || n == 0x3000

def digitValue? (c : Char) : Option Nat :=
  let n := c.toNat
  if n < 0x80 then if c.isDigit then some (n - 48) else none
  else (digitZeros.find? fun z => z ≤ n && n < z + 10).map (n - ·)

/-- Letters and numerals of any script, and the low line. -/
def isWord (c : Char) : Bool :=
  if c.toNat < 0x80 then c.isAlphanum || c == '_' else inRuns (c.toNat - 0x80) alphanumericRuns

/-- Characters that are written as themselves in a quoted text. -/
def isPrintable (c : Char) : Bool :=
  if c.toNat < 0x80 then 0x20 ≤ c.toNat && c.toNat < 0x7F
  else !inRuns (c.toNat - 0x80) unprintableRuns

end Text

end CodeAtlas
