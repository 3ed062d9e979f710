/-
Encodings of one byte a character: the characters of the bytes from 0x80 on, with the replacement
character for a byte that stands for nothing. The bytes before are those of ASCII in all of them.
-/
import Rebind.Text.Basic

namespace Rebind.Markup.CodePage

def letters (first count : Nat) : Text := (List.range' first count).map Char.ofNat

def absent (count : Nat) : Text := List.replicate count '\ufffd'

/-- The page with other characters from some offsets on. -/
def amended (page : Text) : (changes : List (Nat × Text)) → Text
  | [] => page
  | (i, t) :: changes => amended (page.take i ++ t ++ page.drop (i + t.length)) changes

def controls : Text := letters 0x80 0x20

def latin1 : Text := letters 0x80 0x80

def cyrillicCapitals : Text := letters 0x410 0x20

def cyrillicLetters : Text := letters 0x410 0x40

def thaiLetters : Text := letters 0xe01 58 ++ absent 4 ++ letters 0xe3f 29 ++ absent 4

def russianLetters : Text :=
  "юабцдефгхийклмнопярстужвьызшэщчъЮАБЦДЕФГХИЙКЛМНОПЯРСТУЖВЬЫЗШЭЩЧЪ"

def macLetters : Text :=
  "ÄÅÇÉÑÖÜáàâäãåçéèêëíìîïñóòôöõúùûü"

def frames : Text :=
  "░▒▓│┤╡╢╖╕╣║╗╝╜╛┐└┴┬├─┼╞╟╚╔╩╦╠═╬╧╨╤╥╙╘╒╓╫╪┘┌█▄▌▐▀"

def latin2 : Text :=
  controls ++
  "\u00a0Ą˘Ł¤ĽŚ§¨ŠŞŤŹ\u00adŽŻ°ą˛ł´ľśˇ¸šşťź˝žżŔÁÂĂÄĹĆÇČÉĘËĚÍÎĎĐŃŇÓÔŐÖ×ŘŮÚŰÜÝŢßŕáâăäĺćçčéęëěíîďđńňóôőö÷řůúűüýţ˙"

def latin3 : Text :=
  amended latin1 [(33, "Ħ˘£¤�Ĥ§¨İŞĞĴ\u00ad�Ż°ħ²³´µĥ·¸ışğĵ½�żÀÁÂ�ÄĊĈ"),
    (80, "�ÑÒÓÔĠÖ×ĜÙÚÛÜŬŜßàáâ�äċĉ"), (112, "�ñòóôġö÷ĝùúûüŭŝ˙")]

def latin4 : Text :=
  controls ++
  "\u00a0ĄĸŖ¤ĨĻ§¨ŠĒĢŦ\u00adŽ¯°ą˛ŗ´ĩļˇ¸šēģŧŊžŋĀÁÂÃÄÅÆĮČÉĘËĖÍÎĪĐŅŌĶÔÕÖ×ØŲÚÛÜŨŪßāáâãäåæįčéęëėíîīđņōķôõö÷øųúûüũū˙"

def cyrillic : Text :=
  controls ++ "\u00a0ЁЂЃЄЅІЇЈЉЊЋЌ\u00ad" ++ letters 0x40e 66 ++ "№ёђѓєѕіїјљњћќ§ўџ"

def arabic : Text :=
  controls ++ "\u00a0���¤" ++ absent 7 ++ "،\u00ad" ++ absent 13 ++
  "\u061b���\u061f�" ++ letters 0x621 26 ++ absent 5 ++ letters 0x640 19 ++ absent 13

def greek : Text :=
  controls ++ "\u00a0‘’£€₯¦§¨©ͺ«¬\u00ad�―°±²³΄΅Ά·ΈΉΊ»Ό½" ++ letters 0x38e 20 ++ "�" ++
  letters 0x3a3 44 ++ "�"

def hebrew : Text :=
  amended latin1 [(33, "�"), (42, "×"),
    (58, "÷»¼½¾" ++ absent 32 ++ "‗" ++ letters 0x5d0 27 ++ "��\u200e\u200f�")]

def latin5 : Text :=
  amended latin1 [(80, "Ğ"), (93, "İŞ"), (112, "ğ"), (125, "ış")]

def latin6 : Text :=
  amended latin4 [(34, "ĒĢĪĨĶ§ĻĐŠŦŽ\u00adŪŊ°ąēģīĩķ·ļđšŧž―ū"), (79, "ÏÐŅŌÓÔÕÖŨ"), (93, "ÝÞ"),
    (111, "ïðņōóôõöũ"), (125, "ýþĸ")]

def thai : Text :=
  controls ++ "\u00a0" ++ thaiLetters

def latin7 : Text :=
  controls ++
  "\u00a0”¢£¤„¦§Ø©Ŗ«¬\u00ad®Æ°±²³“µ¶·ø¹ŗ»¼½¾æĄĮĀĆÄÅĘĒČÉŹĖĢĶĪĻŠŃŅÓŌÕÖ×ŲŁŚŪÜŻŽßąįāćäåęēčéźėģķīļšńņóōõö÷ųłśūüżž’"

def latin8 : Text :=
  amended latin1 [(33, "Ḃḃ£ĊċḊ§Ẁ©ẂḋỲ\u00ad®ŸḞḟĠġṀṁ¶ṖẁṗẃṠỳẄẅṡ"), (80, "Ŵ"), (87, "Ṫ"), (94, "Ŷ"), (112, "ŵ"),
    (119, "ṫ"), (126, "ŷ")]

def latin9 : Text :=
  amended latin1 [(36, "€¥Š§š"), (52, "Žµ¶·ž¹º»ŒœŸ")]

def latin10 : Text :=
  amended latin1 [(33, "ĄąŁ€„Š§š©Ș«Ź\u00adźŻ°±ČłŽ”¶·žčș»ŒœŸżÀÁÂĂÄĆ"), (80, "ĐŃÒÓÔŐÖŚŰÙÚÛÜĘȚßàáâăäć"),
    (112, "đńòóôőöśűùúûüęț")]

def koi8r : Text :=
  "─│┌┐└┘├┤┬┴┼▀▄█▌▐░▒▓⌠■∙√≈≤≥\u00a0⌡°²·÷═║╒ё" ++ letters 0x2553 15 ++ "Ё" ++ letters 0x2562 11 ++ "©" ++
  russianLetters

def koi8u : Text :=
  amended koi8r [(36, "є╔ії"), (45, "ґ"), (52, "Є╣ІЇ"), (61, "Ґ")]

def koi8ru : Text :=
  amended koi8u [(19, "“■∙”—№™\u00a0»®«·¤"), (46, "ў"), (62, "Ў")]

def koi8t : Text :=
  "қғ‚Ғ„…†‡�‰ҳ‹ҲҷҶ�Қ‘’“”•–—�™�›" ++ absent 5 ++
  "ӯӮё¤ӣ¦§���«¬\u00ad®�°±²Ё�Ӣ¶·�№�»���©" ++ russianLetters

def windows1250 : Text :=
  amended latin2 [
    (0, "€�‚�„…†‡�‰Š‹ŚŤŽŹ�‘’“”•–—�™š›śťžź\u00a0ˇ˘Ł¤Ą¦§¨©Ş«¬\u00ad®Ż°±˛ł´µ¶·¸ąş»Ľ˝ľ")]

def windows1251 : Text :=
  "ЂЃ‚ѓ„…†‡€‰Љ‹ЊЌЋЏђ‘’“”•–—�™љ›њќћџ\u00a0ЎўЈ¤Ґ¦§Ё©Є«¬\u00ad®Ї°±Ііґµ¶·ё№є»јЅѕї" ++ cyrillicLetters

def windows1252 : Text :=
  amended latin1 [(0, "€�‚ƒ„…†‡ˆ‰Š‹Œ�Ž��‘’“”•–—˜™š›œ�žŸ")]

def windows1253 : Text :=
  amended greek [
    (0, "€�‚ƒ„…†‡�‰�‹" ++ absent 5 ++ "‘’“”•–—�™�›" ++ absent 4 ++ "\u00a0΅Ά£¤¥¦§¨©�"),
    (46, "®"), (53, "µ¶")]

def windows1254 : Text :=
  amended windows1252 [(14, "�"), (30, "�"), (80, "Ğ"), (93, "İŞ"), (112, "ğ"), (125, "ış")]

def windows1255 : Text :=
  amended windows1252 [(10, "�‹���"), (26, "�›" ++ absent 4), (36, "₪"), (42, "×"),
    (58, "÷"),
    (64, letters 0x5b0 10 ++ "�" ++ letters 0x5bb 9 ++ letters 0x5f0 5 ++ absent 7 ++ letters 0x5d0 27 ++ "��\u200e\u200f�")]

def windows1256 : Text :=
  amended windows1252 [(1, "\u067e"), (10, "\u0679‹Œ\u0686\u0698\u0688\u06af"),
    (24, "\u06a9™\u0691›œ\u200c\u200d\u06ba\u00a0،"), (42, "\u06be"),
    (58, "\u061b»¼½¾\u061f\u06c1" ++ letters 0x621 22 ++ "×\u0637\u0638\u0639\u063a\u0640\u0641\u0642\u0643à\u0644â\u0645\u0646\u0647\u0648"),
    (108, "\u0649\u064aîï\u064b\u064c\u064d\u064eô\u064f\u0650÷\u0651ù\u0652ûü\u200e\u200f\u06d2")]

def windows1257 : Text :=
  amended latin7 [
    (0, "€�‚�„…†‡�‰�‹�¨ˇ¸�‘’“”•–—�™�›�¯˛�\u00a0�¢£¤�"),
    (52, "´"), (127, "˙")]

def windows1258 : Text :=
  amended windows1254 [(10, "�"), (26, "�"), (67, "Ă"), (76, "\u0300ÍÎÏĐÑ\u0309ÓÔƠ"),
    (93, "Ư\u0303ßàáâă"), (108, "\u0301íîïđñ\u0323óôơ"), (125, "ư₫")]

def dos850 : Text :=
  "ÇüéâäàåçêëèïîìÄÅÉæÆôöòûùÿÖÜø£Ø×ƒáíóúñÑªº¿®¬½¼¡«»░▒▓│┤ÁÂÀ©╣║╗╝¢¥┐└┴┬├─┼ãÃ╚╔╩╦╠═╬¤ðÐÊËÈıÍÎÏ┘┌█▄¦Ì▀ÓßÔÒõÕµþÞÚÛÙýÝ¯´\u00ad±‗¾¶§÷¸°¨·¹³²■\u00a0"

def dos862 : Text :=
  letters 0x5d0 27 ++ "¢£¥₧ƒáíóúñÑªº¿⌐¬½¼¡«»" ++ frames ++ "αßΓπΣσµτΦΘΩδ∞φε∩≡±≥≤⌠⌡÷≈°∙·√ⁿ²■\u00a0"

def dos866 : Text :=
  cyrillicCapitals ++ letters 0x430 16 ++ frames ++ letters 0x440 16 ++ "ЁёЄєЇїЎў°∙·√№¤■\u00a0"

def macRoman : Text :=
  macLetters ++
  "†°¢£§•¶ß®©™´¨≠ÆØ∞±≤≥¥µ∂∑∏π∫ªºΩæø¿¡¬√ƒ≈∆«»…\u00a0ÀÃÕŒœ–—“”‘’÷◊ÿŸ⁄€‹›ﬁﬂ‡·‚„‰ÂÊÁËÈÍÎÏÌÓÔ\uf8ffÒÚÛÙıˆ˜¯˘˙˚¸˝˛ˇ"

def macCentralEurope : Text :=
  amended macRoman [(1, "ĀāÉĄÖÜáąČäčĆćéŹźĎíďĒēĖóėôöõúĚěü†°Ę"), (43, "ę¨≠ģĮįĪ≤≥īĶ∂∑łĻļĽľĹĺŅņŃ¬√ńŇ"),
    (75, "ňŐÕőŌ"), (88, "ōŔŕŘ‹›řŖŗŠ‚„šŚśÁŤťÍŽžŪÓÔūŮÚůŰűŲųÝýķŻŁżĢ")]

def macIceland : Text :=
  amended macRoman [(32, "Ý"), (92, "ÐðÞþý")]

def macCroatian : Text :=
  amended macRoman [(41, "Š"), (46, "Ž"), (52, "∆"), (57, "š∫ªºΩž"), (70, "Ć«Č"), (80, "Đ"), (88, "\uf8ff©"),
    (94, "Æ»–"), (102, "ćÁč"), (112, "đ"), (121, "πË˚¸Êæ")]

def macRomania : Text :=
  amended macRoman [(46, "ĂȘ"), (62, "ăș"), (94, "Țț")]

def macCyrillic : Text :=
  cyrillicCapitals ++ "†°Ґ£§•¶І®©™Ђђ≠Ѓѓ∞±≤≥іµґЈЄєЇїЉљЊњјЅ¬√ƒ≈∆«»…\u00a0ЋћЌќѕ–—“”‘’÷„ЎўЏџ№Ёёя" ++
  letters 0x430 31 ++ "€"

def macGreek : Text :=
  "Ä¹²É³ÖÜ΅àâä΄¨çéèêë£™îï•½‰ôö¦€ùûü†ΓΔΘΛΞΠß®©ΣΪ§≠°·Α±≤≥¥ΒΕΖΗΙΚΜΦΫΨΩάΝ¬ΟΡ≈Τ«»…\u00a0ΥΧΆΈœ–―“”‘’÷ΉΊΌΎέήίόΏύαβψδεφγηιξκλμνοπώρστθωςχυζϊϋΐΰ\u00ad"

def macTurkish : Text :=
  amended macRoman [(90, "ĞğİıŞş"), (117, "\uf8a0")]

def roman8 : Text :=
  controls ++
  "\u00a0ÀÂÈÊËÎÏ´ˋˆ¨˜ÙÛ₤¯Ýý°ÇçÑñ¡¿¤£¥§ƒ¢âêôûáéóúàèòùäëöüÅîØÆåíøæÄìÖÜÉïßÔÁÃãÐðÍÌÓÒÕõŠšÚŸÿÞþ·µ¶¾—¼½ªº«■»±�"

def armenian : Text :=
  controls ++
  "\u00a0�և։)(»«—.՝,-֊…՜՛՞" ++ (List.range 38).flatMap (fun i => letters (0x531 + i) 1 ++ letters (0x561 + i) 1) ++ "՚�"

def georgianAcademy : Text :=
  amended windows1252 [(0, "\u0080\u0081"), (13, letters 0x8d 4), (29, "\u009d\u009e"),
    (64, letters 0x10d0 39)]

def georgianParliament : Text :=
  amended georgianAcademy [(71, "ჱთიკლმნჲოპჟრსტჳ" ++ letters 0x10e3 12 ++ "ჴჯჰჵæ")]

def asianCyrillic : Text :=
  "ҖҒӮғ„…ҶҮҲүҠӢҢҚҺҸҗ‘’“”•–—ҳҷҡӣңқһҹ\u00a0ЎўЈӨҘҰ§Ё©Ә«¬ӯ®Ҝ°ұІіҙө¶·ё№ә»јҪҫҝ" ++ cyrillicLetters

def kazakh : Text :=
  amended windows1251 [(13, "ҚҺ"), (29, "қһџ\u00a0ҰұӘ¤Ө¦§Ё©Ғ"), (47, "Ү°±Ііө"), (58, "ғ»әҢңү")]

def lao : Text :=
  controls ++ "�ກຂຄງຈສຊຍດຕຖທນບປຜຝພຟມຢຣລວຫອຮ���ຯະ" ++ letters 0xeb2 8 ++
  "\u0ebc\u0eb1\u0ebbຽ���ເແໂໃໄ" ++ letters 0xec8 6 ++ "ໆ�ໜໝk" ++ absent 16 ++
  letters 0xed0 10 ++ "��¢¬¦\u00a0"

def tis620 : Text :=
  absent 33 ++ thaiLetters

def windows874 : Text :=
  "€" ++ absent 4 ++ "…" ++ absent 11 ++ "‘’“”•–—" ++ absent 8 ++ "\u00a0" ++ thaiLetters

def macUkraine : Text :=
  amended macCyrillic [(127, "¤")]

end Rebind.Markup.CodePage
