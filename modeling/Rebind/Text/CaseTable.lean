/-
Letter case beyond ASCII: which characters are upper case, the simple case mappings as runs of
code points that move by one distance, the mappings to more than one character, and the two
classes that decide the form of a small sigma.
-/
import Rebind.Text.Basic
import Rebind.Text.Table

namespace Rebind.Text

/-- Capital and small letters that are the forms of each other: single ones by turns, then runs with
first, last, step and small form of the first. -/
def casePairs : ShiftTable :=
  ShiftTable.ofPairs
    ("ĲĳĴĵĶķŸÿŹźŻżŽžƁɓƂƃƄƅƆɔƇƈƉɖƊɗƋƌƎǝƏəƐɛƑƒƓɠƔɣƖɩƗɨƘƙƜɯƝɲƟɵƠơƢƣƤƥƦʀƧƨƩʃƬƭƮʈƯưƱʊƲʋƳƴƵƶƷʒƸƹƼƽǄǆǇǉ" ++
     "ǊǌǱǳǴǵǶƕǷƿȠƞȺⱥȻȼȽƚȾⱦɁɂɃƀɄʉɅʌɆɇɈɉɊɋɌɍɎɏͰͱͲͳͶͷͿϳΆάΈέΉήΊίΌόΎύΏώϏϗϷϸϹϲϺϻϽͻϾͼϿͽӀӏჇⴧჍⴭᲽჽᲾჾᲿჿὙὑὛὓ" ++
     "ὝὕὟὗᾸᾰᾹᾱᾺὰ\u1fbb\u1f71Ὲὲ\u1fc9\u1f73Ὴὴ\u1fcb\u1f75ῘῐῙῑῚὶ\u1fdb\u1f77ῨῠῩῡῪὺ\u1feb\u1f7bῬῥῸὸ" ++
     "\u1ff9\u1f79Ὼὼ\u1ffb\u1f7dℲⅎↃↄⱠⱡⱢɫⱣᵽⱤɽⱧⱨⱩⱪⱫⱬⱭɑⱮɱⱯɐⱰɒⱲⱳⱵⱶⱾȿⱿɀⳫⳬⳭⳮⳲⳳꝹꝺꝻꝼꝽᵹꝾꝿꞀꞁꞂꞃꞄꞅꞆꞇꞋꞌꞍɥꞐꞑꞒꞓ" ++
     "ꞪɦꞫɜꞬɡꞭɬꞮɪꞰʞꞱʇꞲʝꞳꭓꟄꞔꟅʂꟆᶎꟇꟈꟉꟊꟐꟑꟖꟗꟘꟙꟵꟶ𐕱𐖘𐕳𐖚𐕵𐖜𐕷𐖞𐕹𐖠𐖍𐖴𐖏𐖶𐖑𐖸𐖕𐖼") ++
  .ofNumbers (numbersOf
    ["d@dV1e4dXe21eLeTfV2eUg5gC2g6gFhF2gGjEjS2jFjVk:2jWkDl>2kElBlR2lCtQu51uEu7u?1uWv@vV2vAw<wK1y4wLx?1x@yDz82yEzBaaJ2zCaaMaaY2aaNab0ad62ab1ad9ae21ae=crPcsI1jaTdj8dk[1aliDdl0dl51dl8fj8fk61csTfrHfuX2frIfv8fx>2fv9fxHfxO1fx@fxXfy11fxPfy<fyC1fy4fyLfyS1fyDfz0fz51fyTfzPfzW1fzHgl8glG1glHheJhf71hf8iv0iw31iw4ixXja62ixYake<akf<2ake=akfPakg>2akfQakjBakjN2akjCakjRakl62akjSakm2akmD2akm3akmPakn22akmQbebAbebZ1bec5bfdPbfeK1bfeLbfhPbfiG1bfiLbfm4bfmX2bfm[bfmAbfmM2bfn<bhb8bhc>1bhcLbjtPbjuC1bjuDccxXccyK1ccyLdek4dekU1dekV"])

def toLowerTable : ShiftTable :=
  casePairs ++ ShiftTable.ofPairs "ǅǆǈǉǋǌǲǳϴθẞßᾼᾳῌῃῼῳ\u2126ω\u212ak\u212bå" ++
  [(0x1f88, 0x1f8f, 1, 0x1f80), (0x1f98, 0x1f9f, 1, 0x1f90), (0x1fa8, 0x1faf, 1, 0x1fa0)]

def toUpperTable : ShiftTable :=
  casePairs.inverse ++ ShiftTable.ofPairs "µΜıIſSǅǄǈǇǋǊǲǱ\u0345ΙςΣϐΒϑΘϕΦϖΠϰΚϱΡϵΕᲀВᲁДᲂОᲃСᲄТᲅТᲆЪᲇѢᲈꙊẛṠ\u1fbeΙ"

def titleTable : Table := .spelled ["j=12121V1fp588888<1?1a31"]

def capitalTable : Table :=
  .spelled
    ["fX1o=3fmQ1413323213561313224:251csg>JJJJJJ11221222418JJJ2142817K214151137KJJJJJJJJJJJNIQIQIQIQIQ1eqQJ6J6J"]

def longImages (lines : List String) : List (Nat × List Nat) :=
  (lines.flatMap fun s => pieces ' ' s.toList).map fun t => ((t.headD ' ').toNat, t.tail.map Char.toNat)

def toLowerLongTable : List (Nat × List Nat) :=
  longImages ["İi\u0307"]

def toUpperLongTable : List (Nat × List Nat) :=
  longImages
    ["ßSS ŉʼN ǰJ\u030c ΐΙ\u0308\u0301 ΰΥ\u0308\u0301 ևԵՒ ẖH\u0331 ẗT\u0308 ẘW\u030a ẙY\u030a ẚAʾ ὐΥ\u0313",
     "ὒΥ\u0313\u0300 ὔΥ\u0313\u0301 ὖΥ\u0313\u0342 ᾲᾺΙ ᾳΑΙ ᾴΆΙ ᾶΑ\u0342 ᾷΑ\u0342Ι ᾼΑΙ ῂῊΙ ῃΗΙ ῄΉΙ ῆΗ\u0342 ῇΗ\u0342Ι",
     "ῌΗΙ ῒΙ\u0308\u0300 \u1fd3Ι\u0308\u0301 ῖΙ\u0342 ῗΙ\u0308\u0342 ῢΥ\u0308\u0300 \u1fe3Υ\u0308\u0301 ῤΡ\u0313",
     "ῦΥ\u0342 ῧΥ\u0308\u0342 ῲῺΙ ῳΩΙ ῴΏΙ ῶΩ\u0342 ῷΩ\u0342Ι ῼΩΙ ﬀFF ﬁFI ﬂFL ﬃFFI ﬄFFL ﬅST ﬆST ﬓՄՆ ﬔՄԵ ﬕՄԻ ﬖՎՆ ﬗՄԽ"] ++
  [(0x1f80, 0x1f08), (0x1f90, 0x1f28), (0x1fa0, 0x1f68)].flatMap fun (first, image) =>
    (List.range 16).map fun i => (first + i, [image + i % 8, 0x399])

def casedTable : Table :=
  .spelled
    ["aEJ6Ja31:1415G1O1dC144dP1Kd@42233116113111D1aW1c78cR1V9YblGV11512[23o<aZ26awF97[23aDa0aC=1Rb=f>262V26281111111O2a91711331734264=5317eY1412:1135611111141641245541AP32rIa8ao:bT2b?6432<V1151aabBa2BLc2aR1G341a?521115K231rM[597aTqs47<5wEJ6Jaa1aTb8T4TbL;1?17121;1?1712am?a7=a7boYaDsbPaDvrHaY1aK122122241<11171aE1428171L141511371gP2I1I1O1I1O1I1O1I1O1I18aoX:1DbeEaHat4J6J6J"]

def caseIgnorableTable : Table :=
  .spelled
    ["W161;1S111aK141114122kCd@42419211eO7dO151a5a111121211a01;6:;11S1:E@1b=81:14Q111NKb3;a>;4121HH[3a017268Ya>a;111484137:2=1?1a>14481D2J122a=142422331N231;2a=1451241D2F611a>121148172;2N1aA1<1a6131a;113531472;2M1a>1216152D2L2a=24481D2M1aL17311b2127;9b:1299116aN2K11111a;>15125;1T91b>4161222I243@4=12261?1b61mT3uF3M2N2N2aD217812;3151a15a71aE2R1bN3429163d[221a>1171111286:21W18Oa54a41151151X9<2P42213a<1123113a>822aD6aV31=17416132a6aC=1Rb=j5113;3=3=3=2<582:12125a551:11=1@=a7Qbo72bI3bU1?1b8Pa31jM1T43551b56b53xv>1abB6f61b:41:11L4aT2>RaR1G3b?332813141I251cC2JB=1V8I;a23a412422A1E2aF62222<181S1;1a7113225211K1>25211b<593bQ12141qrP1c?Am1@31<@R121cU17161;1S111a31a12aG1E3kM1e61cA5wA61Z19m:31254X341cQ2m14hS2cE;a54bS1a:?Y122:3a54222141:1a63T518aB1<2a89:421b73211261cL138E2a=231U735dC82311G1aX6114212eB46212K2aY82112bB1112611b=32415eW912eT21141c<42241P:X624819623a2=12i:71611aVF271212bR631121711aL23111gW2dsG9lf?5a?794wG1aCAaD212nhK41712buB214dbTa22Gl@39@27N4c@3ar[a;4a681>1F51?adX71A271215eY>h@1aA4ah87bE8bj75znc=1Nb8bXeD"]

end Rebind.Text
