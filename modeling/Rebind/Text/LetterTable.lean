/-
The letters of every script beyond the ASCII ones, as ranges of code points.
-/
import Rebind.Text.Table

namespace Rebind.Text

def letterTable : Table :=
  .spelled
    ["cV1:1415G1O1jB4<>57111bY51233116113111D1aW1c78cR1V216YaKK44a1[S21b;11?272:321@11NMb1;1HQ92415F419131GI7;5H16AZa>a:31B17:?@48222F17113431@1=213>2:186422F17121212O411C3@9131F17121531B1?2G1;8222F17121531N213?1A116331432111232333<F1a88131G1@31J32122N148131G1:1531O212?2A9131Y21@15383H65B3H191127a>a411=7a>211151H111:11:12511E4P1aC81TK5bK[D1@6443132734=<1AV11512[1gI142711142Y142Q142711142?1a=142aGU@@aZ263n42A1J5aO3;7B=C>B>=13?a8S141aGb1752R115aJ:Oa5N25;a04Ja:G9a9aV1b5a3A8a:N=2:a0JTY3:T297[23Y41612315d@aDf>262V26281111111O2a91711331734264=5317bL1=1@=b=1412:1135611111141;245541AYbhWe96432<V11512a<71@G9717171717171717lF3I975254aZ631b2145[1b6APa4@kLesTaDsiIaGa22f53@:2Da3@O2aTW92b?2aD521115H@13141GMa8>a6aB63112;L:GIM7a3L1@51::51YG318DG313a61132252111H32;73<6262697171[1>6bKMisX<G4a5gj4h>2bBV7<5511:1=151112121bDQc76dZBaD2a:X:bO111311111111bVTJ6J;a<2O36262623S<1J1C121?2>RbSaIa9f3M3a5a3P=N5V:N2T4815ZcJBT4T4X8a8<;1?17121;1?1712aGg39F:8H61Z19aI6211a012312G:G9OaEC12:F:JaJa<62aD1?4131MZM3MS81LKa::F:C=BbFaMa;a7=a7=TgXZ62aRM:18FZBa2EKG<a9a=221=a1PIJTM1218S31<a4>4E111SB1IaX711141?1:7a3V8222F17121531B1<5cJa9B4D3Na4D211d8a3Y4Ta4D1a?[=1aKKU7d9a0bLaDO82128121H?111b682W@111L1:X71E1;a2C1BaMe[91UA1a5NbH7121VE1I6121P>1gCCd=1aStZb>bGAdDbgXb9?x?cn1m;gn9lY7OAaSANBa4@4OE5CoLaDbXaO51aF=aD211LeiD8ab6Z9gu3417121fKa13A48i0azDbC5=397:ef6aY1aK122122241<11171aE1428171L141511371gP2I1I1O1I1O1I1O1I1O1I18aoXOjYa1:7@1g=NBa0abT714121?1dEa?aH71aa@41K1211211:141111614111111312112111111111121124171414111:1A53151AcvDakhXPcpA7e",
     "22dzZ>fmUbrGl>ah:dh;"]

end Rebind.Text
