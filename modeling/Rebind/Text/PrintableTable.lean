/-
The characters beyond the ASCII ones that leave no mark of their own when they are printed: controls,
format marks, separators, private characters and code points that stand for no character.
-/
import Rebind.Text.Table

namespace Rebind.Text

def unprintableTable : Table :=
  .spelled
    ["bXQ<1p:2647111D1i11V2a6231a;8K46AF1d@1a42a?2b=>a?2a52?1L211;5O9aN1cM18222F1711342922248142152I2316422F17121212211542233174117A:319131F1712152:131321?42<771318222F1712152922237342152B:216331432111232333<4533142161>E5=131G1@291314721321242:7F131G1:152913147262142:12==131a713164@2J131B3H191127314611186:23<a>4MU211151H111G2511162:24PaL1T4W1T1?1=UdF11512hI142711142Y142Q142711142?1a=142aG2P3J6aZ262nH1L3b17F9H9D<=1312<b62:6:6>1;6b17[5aJ:O1<4<413Z25;a04J6;3aB2aE1M2;6:6>2Oa5aQ3a31bL8a@3?3a@7[2;8[5l6262V26281111111O2a91?1>261C2319AH8a3A22K1=3Q?Q?c84o3I;Eao82P1gY5a111512a<72>H97171717171717171bVRJ1b1<dVJ<5aC1aZ2b?5[1b61aX<a31yoQ3a;9gXDd88dK521115Ha?3:6a<8aJ8<6bL;N3aR1;4Q1a;9>2:2b?HL:6262697171a@4bV2:6isX<G4a5gj4h>2bBV7<55J151112121bU@j52a:71PZ6a71C14451c34d>362626233717=22<1J1C121?2>RbS534a13b01=31a3a2bZM3a5?L4T9N5[5N1U4>ZcJ2:6T4T4X8a8;<1?17121;1?1712aGg39F:8H61Z19aI6211a012312G1aL89a4C125Q3K51aDa<4D2a61258131M234:797aDPW4<9a:3M2K5J74<7aTaMa;a7=a77a28:fNO1Z1322aRX8ZFJVLDG9aR4T9aB15=I7:6a91B8W9b81D;B1a0aE711141?1;6a?5:6418222F1712151:22232161572735c7b415NaL8:cRa:2VRaI;:6=Ca>6:a:K2?4Gd9a@b<aW<82128121N122<9:aJ82a22;KaL8aW=aMe[91a11>:M3P2F1>aM7121a03112198:66121U12167:g2Id71?a6=t[b>bG15;dDbgXb;=x?cn1m;gn9lY7O1:4aU1:6N26:aJ::171E5CoLb3b=aO4a=7AaD5;2>eiD8ab6Z9gu3417121fKa13A48i0azDbC5=397:24dbXa22G9bLa@eJ:W2aN8bHEaJcFD<a[9Ic3aY1aK122122241<11171aE1428171L141511371gP2fL2oZ?51?y4Oe571A271215dUa13>2:42g<OAa>51ab@714121?1dE2@YaP4:42qUaHaPaAdB41K1211211:1411116141111113121121111111111211241714141",
     "11:1A53151Aa82f6a04b<<?2?1?1U:cZa<M=a04972>6cFv@5@3=3bL<b17<41?<4a<8:6X8N22aRgP<>2535379M3;56::68879c?1a;U:wBakhXPcpA7e22dzZ>fmUbrGl>ah:dh;xbaIeDfok4"]

end Rebind.Text
