/-
The characters that may start an identifier and those that may continue one, beyond the ASCII
ones, as ranges of code points.
-/
import Rebind.Text.LetterTable

namespace Rebind.Text

def identifierStartTable : Table :=
  letterTable ++ .ofRuns 0 [6277, 2, 2193, 1, 21, 1]

def identifierPartTable : Table :=
  letterTable ++ .spelled
    ["d71m<bHG1eO5f1a111121211aL;a4O61b=72:1@Ga>b3;?a891HH[3a@aN1bY2:A3a<9222391:22:>123a<115422331D@;3a<:1313D22::613a<9222373:22:B1a?5331491>:@5a;9131472;22:A3a<9131472;22:@4a;:131491:22:A3aJ14611186:22aA:<81:a[<;62:aB26:;1111142a5D1B1T91b<O<aLo[399u44L3M2N2aDP912:Q31;bCUbN<4<::bX;a@5a=:1M2;6:F>1@a5aI;:A9<bLa4D8:6:bN31VdFaDm32C1bS=413<W1E1bp@3c91b8PlJ6bA2zgQ:aI14:PaXf8V41aWaJ::6B=a3I=a0aE?:;Ea3><;2:QaKY552e@8122:qrD1pQ@@@32H3d@:U1b62mQ1e61cA5fM:ae331254X341cQ2m148:hA2cE;a54bRaKO?:a@71a1:6a91:52a01<aE841<aV<61cL<5:64a;:222391:22735d@B9:41aUD<:dU729K2aVA?:aU=8:aW?4:eF?cQ:aJ61229<:bO72731LaB819aMi9818@:a<F1>bR63112198:a4512158:gE4pvQ:aZ:V5a?7I:w1a=74aU1;2qd32dbYa22Gl>5368827N4c@3af9a6kLa;4a681>1F51?adX71A271215eY79:h41aA>agZ7bE75:dd6:zlnNeD"]

end Rebind.Text
