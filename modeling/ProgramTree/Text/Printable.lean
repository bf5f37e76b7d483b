/-
Which characters are printed as themselves.

A character is printable unless it is a control or format character, a
surrogate, unassigned, for private use, or a separator other than the ASCII
blank, in version 14 of the Unicode character database. The table gives the
lengths of runs from U+0080 on; below that the rule is short enough to
write down.
-/
import ProgramTree.Text.Ranges

namespace ProgramTree.Text

/-- Runs of code points that are printed as themselves and of those that are not, in turn. -/
def unprintable : List Nat := lengths
  [ "aBhmbBBmcgehbbbubPhbBmcBycdbCdiBbegrwbHkbBwcChcDxoChcBxcpbBccbblfBfjCwbGfbicccwbhbbdecjccceibe",
    "cbfczcdbgeccwbhbcbcbccbbfeccddbhebbhrkdbjbdbwbhbcbfckbdbdcbpecmhhbdbicccwbhbcbfcjcccdhdecbfcsk",
    "cbgddbedcbbbcdcdddmefddbecbgbovfnbdbxbqcjbdbehcbdcbceckhwbdbxbkbfcjbdbehcgcbeckbcnnbdbBzbdbgeq",
    "cBabdbsdybjbbchdbegbbbigkcdmCgeBdBlcbbbfbybbbxcfbbbgckceBgCubBkeBnbBkbpbnBlHqbbfbcOnbechbbbec",
    "BpbecBhbechbbbecpbCfbecCpcBgdBagDicgcYqbBcdDlhwjyjumnbdbcmDqckgkgoblgDlhBrfCskBfbmemebdBqcflBs",
    "eBagldCkcCnbBdclgkgocBfBxCzdBvbEmiCidpdCihBrcliBrfUocgcBmcgcibbbbbbbBfcCbbpbocgbtcdbjryiBvrcc",
    "BbbndBhpBhpFkeZnzlvCRscBgbNlfBtbbfbcCehcoyjhbhbhbhbhbhbhbhbEwBiBabDlmIgBamfClbDicDzfBrbDqbDgm",
    "BvbBRIrdCdjNkuHciHvfcbbbfyChdkgCeiCsimgEmlBedDableBhbCdjockcDzyBckgcgcgjhbhbCieEwckgQNsmxeBx",
    "MNcOccEcBmhmffBabfbbbcbcbEvqRdcCchbBgBqgBzbtbeefbFfeHidgcgcgcddhbhnccmbBabtbcbpcoBiEtfdeBtdDkb",
    "ndbBvBuFaBddBxpBceBkjBefBrfBebBleoBqGcckgBkeBkeBoiCalmbpbhbcblbpbhbcCpLzjwkiygbBqbjCrgcbbBsbcd",
    "bcxbCuijBwtbcfBhdBbfbCmCeeucBybcfibdbBdcdekhjhCmBgBnemjCcdBdcBbfBahemhDcCvCdBznBzhBuikLiBfbBqb",
    "dccDaBoiBqwBaBmBcuxjDaeBkjCkbfnzhkgCbbsiBnjDsbulsbBsCnhbbbebpblgChfkgebicccwbhbcbfbkcccdcbgbfh",
    "chdfFjDobfBeCuikGkCccBmBiCrlkgntCggkCcBbcpexHdCiDwDfmicbcibcbBebccmjkCsicBuclBbCuiDfnCvKdjbBtb",
    "okBddBgcwboCvhbcbBsdbbcbjikggbcbBlbcbghkLyzHbbpBynBJnDyEhbflHoDXkDvnBPfFZtWlMUbVxhBfbkeDdbkgBe",
    "cgkCskkbhbvftBAmDnDxCxeCfhrCmflcoJCaiBVqBqjNFrebhbcbLfBtdreiPgDKuEdfndjhkceGYyBucxjEmCiJmkBnc",
    "CwiEivCsFyumDjjzFfDhbCtbccbcccebmbbbhbCnbecibhbBcbebfbbdhbNccLgcBBapfbpBQmBfIrhbrchbcbfIfBtdoc",
    "kecMiBfrCgfbBWahbebcbpbHpcqBpCyekecBEfCqCyCjHmebBbbcbbcbbkbebbbbgbebbbbbbdbcbbcbbbbbbbbbbcbbce",
    "bhbebebbbkbrfdbfbrCacKkBseDwmpcpbpbBlkGsCeBdnBsejhcogFyBLwfqdndEmmDlhmebpmeCeikgBoiBeccDaNcmoc",
    "fdfdhjBddlfgkkgiihjFrbCdBlkBNqCLFcBgGDthIocINqoLBlEPjUwCFyHHzBOTMrJgLECu" ]

/-- Whether a character is printed as itself. -/
def isPrintable (c : Char) : Bool :=
  let n := c.toNat
  if n < 0x7F then 0x20 ≤ n
  else if n < 0x80 then false
  else !inRuns (n - 0x80) false unprintable

end ProgramTree.Text
