/-
Character encodings of documents.
-/
import Rebind.Markup.CodePage
import Rebind.Markup.Designation
import Rebind.Markup.MultiByte

namespace Rebind.Markup

/-- UTF-8, an encoding of one byte a character, one of several, or one in which bytes designate the set of those behind
them. -/
inductive Encoding where
  | utf8
  /-- ASCII, and the characters of the bytes from 0x80 on, with the replacement character for a byte
  that stands for nothing. -/
  | oneByte (upper : Text)
  | multiByte (set : MultiByte)
  | designating
deriving DecidableEq, Repr

namespace Encoding

def iso (part : String) : List String := ["iso-8859-", "iso8859-", "iso_8859-"].map (· ++ part)

open CodePage in
/-- Encodings of one byte a character, with their names. -/
def pages : List (Text × List String) :=
  [([], ["ascii", "us-ascii", "ansi_x3.4-1968", "ansi_x3.4-1986", "cp367", "ibm367",
     "iso-ir-6", "iso646-us", "us", "csascii"]),
   (latin1, iso "1" ++ ["iso-latin-1", "iso-ir-100", "latin1", "l1", "cp819", "ibm819",
     "csisolatin1"]),
   (latin2, iso "2" ++ ["iso-ir-101", "l2", "latin2", "csisolatin2", "iso-latin-2"]),
   (latin3, iso "3" ++ ["iso-ir-109", "l3", "latin3", "csisolatin3"]),
   (latin4, iso "4" ++ ["iso-ir-110", "l4", "latin4", "csisolatin4"]),
   (cyrillic, iso "5" ++ ["cyrillic", "iso-ir-144", "csisolatincyrillic"]),
   (arabic, iso "6" ++ ["arabic", "asmo-708", "ecma-114", "iso-ir-127",
     "csisolatinarabic"]),
   (greek, iso "7" ++ ["ecma-118", "elot_928", "greek", "greek8", "iso-ir-126",
     "csisolatingreek"]),
   (hebrew, iso "8" ++ ["hebrew", "iso-ir-138", "csisolatinhebrew"]),
   (latin5, iso "9" ++ ["iso-ir-148", "l5", "latin5", "csisolatin5"]),
   (latin6, iso "10" ++ ["iso-ir-157", "l6", "latin6", "csisolatin6"]),
   (thai, iso "11"),
   (latin7, iso "13" ++ ["iso-ir-179", "l7", "latin7"]),
   (latin8, iso "14" ++ ["iso-celtic", "iso-ir-199", "l8", "latin8"]),
   (latin9, iso "15" ++ ["iso-ir-203", "latin-9"]),
   (latin10, iso "16" ++ ["iso-ir-226", "l10", "latin10"]),
   (koi8r, ["koi8-r", "cskoi8r"]),
   (koi8u, ["koi8-u"]),
   (koi8ru, ["koi8-ru"]),
   (koi8t, ["koi8-t"]),
   (windows1250, ["cp1250", "ms-ee", "windows-1250"]),
   (windows1251, ["cp1251", "ms-cyrl", "windows-1251"]),
   (windows1252, ["cp1252", "ms-ansi", "windows-1252"]),
   (windows1253, ["cp1253", "ms-greek", "windows-1253"]),
   (windows1254, ["cp1254", "ms-turk", "windows-1254"]),
   (windows1255, ["cp1255", "ms-hebr", "windows-1255"]),
   (windows1256, ["cp1256", "ms-arab", "windows-1256"]),
   (windows1257, ["cp1257", "winbaltrim", "windows-1257"]),
   (windows1258, ["cp1258", "windows-1258"]),
   (dos850, ["cp850", "ibm850", "cspc850multilingual"]),
   (dos862, ["cp862", "ibm862", "cspc862latinhebrew"]),
   (dos866, ["cp866", "ibm866", "csibm866"]),
   (macRoman, ["mac", "macintosh", "macroman", "csmacintosh"]),
   (macCentralEurope, ["maccentraleurope"]),
   (macIceland, ["maciceland"]),
   (macCroatian, ["maccroatian"]),
   (macRomania, ["macromania"]),
   (macCyrillic, ["maccyrillic"]),
   (macUkraine, ["macukraine"]),
   (macGreek, ["macgreek"]),
   (macTurkish, ["macturkish"]),
   (roman8, ["hp-roman8", "r8", "roman8", "cshproman8"]),
   (armenian, ["armscii-8"]),
   (georgianAcademy, ["georgian-academy"]),
   (georgianParliament, ["georgian-ps"]),
   (asianCyrillic, ["cp154", "cyrillic-asian", "pt154", "ptcp154", "csptcp154"]),
   (kazakh, ["kz-1048", "rk1048", "strk1048-2002", "cskz1048"]),
   (lao, ["cp1133", "ibm-cp1133"]),
   (tis620, ["iso-ir-166", "tis-620", "tis620", "tis620-0", "tis620.2529-1",
     "tis620.2533-0", "tis620.2533-1"]),
   (windows874, ["cp874", "windows-874"])]

def sets : List (MultiByte × List String) :=
  [(.vietnamese, ["viscii", "viscii1.1-1", "csviscii"]),
   (.chineseRoman, ["iso646-cn", "cn", "gb_1988-80", "iso-ir-57", "csiso57gb1988"]),
   (.japaneseRoman, ["iso646-jp", "jp", "jis_c6220-1969-ro", "iso-ir-14",
     "csiso14jisc6220ro"]),
   (.halfWidth, ["jis_x0201", "jisx0201-1976", "x0201", "cshalfwidthkatakana"]),
   (.eucJp, ["euc-jp", "eucjp", "extended_unix_code_packed_format_for_japanese",
     "cseucpkdfmtjapanese"]),
   (.shiftJis, ["shift_jis", "shift-jis", "sjis", "ms_kanji", "csshiftjis"]),
   (.windows932, ["cp932"]),
   (.eucCn, ["euc-cn", "euccn", "gb2312", "cn-gb", "csgb2312"]),
   (.gbk, ["gbk"]),
   (.windows936, ["cp936", "ms936", "windows-936"]),
   (.gb18030, ["gb18030", "csgb18030"]),
   (.big5, ["big5", "big-5", "big-five", "bigfive", "cn-big5", "csbig5"]),
   (.windows950, ["cp950"]),
   (.eucKr, ["euc-kr", "euckr", "cseuckr"]),
   (.windows949, ["cp949", "uhc"])]

def known : List (Encoding × List String) :=
  (utf8, ["utf-8", "utf8"]) :: (designating, ["iso-2022-jp", "csiso2022jp"]) ::
    pages.map (fun p => (oneByte p.1, p.2)) ++ sets.map fun s => (multiByte s.1, s.2)

def ofName? (name : Text) : Option Encoding :=
  (known.find? fun p => p.2.contains (String.ofList (name.map Char.toLower))).map (·.1)

def absent : Char := '\ufffd'

def ofByte? (upper : Text) (b : UInt8) : Option Char :=
  if b < 0x80 then some (Char.ofNat b.toNat)
  else (upper[b.toNat - 0x80]?).filter (· != absent)

def byteOf? (upper : Text) (c : Char) : Option UInt8 :=
  if c.toNat < 0x80 then some c.toNat.toUInt8
  else ((upper.idxOf? c).map fun i => (0x80 + i).toUInt8).filter fun b => ofByte? upper b == some c

/-- Refuses bytes that stand for nothing. -/
def decode? : Encoding → Bytes → Option Text
  | utf8, bytes => (Text.ofUtf8 bytes).toOption
  | oneByte upper, bytes => bytes.mapM (ofByte? upper)
  | multiByte set, bytes => set.decode? bytes
  | designating, bytes => Designation.decode? .ascii bytes

def reference (c : Char) : Text := "&#" ++ Text.numeral c.toNat ++ ";"

def bytes? : Encoding → Char → Option Bytes
  | utf8, c => some (Text.utf8Char c)
  | oneByte upper, c => (byteOf? upper c).map ([·])
  | multiByte set, c => set.bytes? c
  | designating, c => (Designation.code? c).map (·.2)

def encodeChar (e : Encoding) (c : Char) : Bytes :=
  match e.bytes? c with
  | some bytes => bytes
  | none => Text.utf8 (reference c)

/-- A character that the encoding lacks is written as its decimal reference. -/
def encode : Encoding → Text → Bytes
  | designating, t =>
    Designation.encode .ascii <|
      t.flatMap fun c => if (designating.bytes? c).isSome then [c] else reference c
  | e, t => t.flatMap e.encodeChar

end Encoding

end Rebind.Markup
