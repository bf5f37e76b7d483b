/-
Which characters make up words.

A word character is an underscore, a letter or a digit, numerals of every kind
included, in version 14 of the Unicode character database. The table gives the
lengths of runs from U+0080 on.
-/
import ProgramTree.Text.Ranges

namespace ProgramTree.Text

/-- Runs of code points that are no letters or digits and of those that are, in turn. -/
def wordly : List Nat := lengths
  [ "BqbhcbbdcbdbxbBfbRqemofhbbbEzfbccebbgbbdbbbubDfbFjiGkbBmcbgBpCtBbeeBtBrvkecbDvbbpchpcbqbbBeBd",
    "DllboBrjcebfwebjbdbxzhlfybgrBqCgCcdbsbhkekbqeicccwbhbbdedbqbncbdemcgcbigeccwbhbcbcbcBfebbhkcdq",
    "jbdbwbhbcbfdbsbpcekjblicccwbhbcbfdbBecbdekbhlbbgddbedcbbbcdcdddmwbvnsibdbxbqdbBadcbccekihbbeib",
    "dbxbkbfdbBfcbcekbcrjbdbBpcbqbfdbketbgfsdybjbbchBfkrBwbcmhjkBncbbbfbybbbkbcjbcfbbjkceBgbBfumib",
    "BkBbfElBrulggeedbdchdenmbbkgBmbbfbcBrbMvbechbbbecBpbecBhbechbbbecpbCfbecCpoudqqDicgdXwcrbBafCx",
    "dlhsntosonbdpCaBjbebdkgkwkgDlhfcBibbfCskBfBnBocflBseBaglBlxjCbBrkgknbDpBvridkBpBenCeBaBkBckdBx",
    "cjhBrcdBpebgbcdbfHkCmKscgcBmcgcibbbbbbbBfcCbbhbbddbhdecgenfdbhElccgflgnDxbebckbbdfgbbbbbbeblce",
    "ffebbCgBByCiDawYgBeBRoIvgedcjbcBmbbfbcCehbqxjhbhbhbhbhbhbhbhDcbSbdzjhfcfeDigdbDmbefBrbDqdekBg",
    "BwqBgkBeibpBgkBnpMiJToCmBGUfCpBucKjdBcuBvqBfcDcBnjcDzcCmfcbbbfyqbdbebxngkCaoByBckygdbbcbBmkxz",
    "BdhBvBclgfbzbBpxdbiekgxdbdBybbdccfcbbbydclhdmgcgcgjhbhbBrbogElnkgQNsmxeBxMNcOccEcBmhmffbbkbnbf",
    "bbbcbcbEeBhNzsCmcCcBomEmfbFftkhBagBalDldgcgcgcdBjmbBabtbcbpcoBiEtmBtmCfrcJkBddBxqBbeBkjBefBmk",
    "BecBkeibfBqGcckgBkeBkeBoiCamlbpbhbcblbpbhbcCpLzjwkiygbBqbjCrgcbbBsbcdbcxcBfcBmijBwtbcfBheBaCs",
    "CeeucBvpebdbBdkjxBfbBgBgibBcgfqCckwcBbfBaxhDcCvCdBznBzhBqmkLiBfbBqgcDaBoiwleBbsBuBcuxmCbBaBebc",
    "cbnBtBgzhkjBkpkebcbiBjdbmBwoellbbeulsbzDghbbbebpbkhBvrklicccwbhbcbfdbsbmfGcCbsefkfdBeBwucbbik",
    "GkBvBpeBkBwublkBmBrnbhkCcBbvmehHdBsEmDfmicbcibcbypbbbokCsicBnqbbbBcbkBohbvblButbsCvKdjbBlrbpBd",
    "fBeEihbcbBmvbjkggbcbBgobhkLytHhbpvBrBJmDyEhrHoDXkDtpBPfFZtWlMUbVxhBfbkgDbbkgBesBwqemkbhbvftBAm",
    "DjEbCxfbConCmcbbBcJCaiBVqBqjNFrebhbcbLfBtdreiPgDKuEdfndjhkILiuEezFfDhbCtbccbcccebmbbbhbCnbecib",
    "hbBcbebfbbdhbNcczbzbBfbzbBfbzbBfbzbBfbzbicByCQyBfSnBtkhckebMjBesBsekBWghbebcbpbHpcjBwCqhbekBEl",
    "ChbdbeCyBtbpHmebBbbcbbcbbkbebbbbgbebbbbbbdbcbbcbbbbbbbbbbcbbcebhbebebbbkbrfdbfbrWinEDfkBNqCLFc",
    "BgGDthIocINqoLBlEPjUwCFyHHz" ]

/-- Whether a character may stand inside a word. -/
def isWordChar (c : Char) : Bool :=
  let n := c.toNat
  if n < 0x80 then c.isAlphanum || c == '_'
  else inRuns (n - 0x80) false wordly

end ProgramTree.Text
