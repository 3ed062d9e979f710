/-
Encodings in which characters take one, two or more bytes.
-/
import Rebind.Markup.FourByte
import Rebind.Markup.Grid.Japanese
import Rebind.Markup.Grid.Korean
import Rebind.Markup.Grid.Simplified
import Rebind.Markup.Grid.Traditional

namespace Rebind.Markup

/-- A set of this kind has bytes that stand for a character alone and grids of characters of two bytes; where several
grids have the same bytes, the first one counts, so that a grid of a few cells in front changes those of a larger one.
-/
structure MultiByte where
  singles : List (UInt8 × Char) := []
  grids : List Grid
  likenesses : List (Char × Bytes) := []
  fourByte : Bool := false
deriving DecidableEq, Repr

namespace MultiByte

def single? (m : MultiByte) (b : UInt8) : Option Char :=
  match m.singles.lookup b with
  | some c => some c
  | none => if b < 0x80 then some (Char.ofNat b.toNat) else none

def next? (m : MultiByte) : Bytes → Option (Char × Bytes)
  | [] => none
  | b :: rest =>
    match m.single? b with
    | some c => some (c, rest)
    | none =>
      match m.grids.findSome? (·.read? (b :: rest)) with
      | some found => some found
      | none => if m.fourByte then FourByte.read? (b :: rest) else none

def decode? (m : MultiByte) (bytes : Bytes) : Option Text :=
  if bytes.isEmpty then some []
  else
    match m.next? bytes with
    | none => none
    | some (c, rest) =>
      if _h : rest.length < bytes.length then (m.decode? rest).map (c :: ·) else none
termination_by bytes.length

def stands (m : MultiByte) (bytes : Bytes) (c : Char) : Bool := m.next? bytes == some (c, [])

def shortCodes (m : MultiByte) (c : Char) : List Bytes :=
  (if c.toNat < 0x80 then [[c.toNat.toUInt8]] else []) ++
    (m.singles.filter (·.2 == c)).map fun s => [s.1]

def longCodes (m : MultiByte) (c : Char) : List Bytes :=
  m.grids.flatMap (·.codes c) ++ if m.fourByte then (FourByte.bytes? c).toList else []

/-- The bytes of a character: the first ones that are read as it, else those of its likeness. -/
def bytes? (m : MultiByte) (c : Char) : Option Bytes :=
  match (m.shortCodes c).find? (m.stands · c) with
  | some bytes => some bytes
  | none =>
    match (m.longCodes c).find? (m.stands · c) with
    | some bytes => some bytes
    | none => m.likenesses.lookup c

/-! Cells -/

def upperCells : List (UInt8 × UInt8) := [(0xa1, 0xfe)]

def patch (row : UInt8) (cells : List (UInt8 × UInt8)) (chars : Text) : Grid where
  firstRow := row
  cells
  chars := Grid.ofLines [chars]

def lacking : List Nat → List Char → List Char
  | [], _ => []
  | n :: rest, [] => Char.ofNat n :: lacking rest []
  | n :: rest, c :: taken =>
    if n == c.toNat then lacking rest taken else Char.ofNat n :: lacking rest (c :: taken)

def katakana : List (UInt8 × Char) :=
  (List.range' 0xa1 63).map fun b => (b.toUInt8, Char.ofNat (b + 0xfec0))

/-! Bytes that stand alone -/

def vietnamese : MultiByte where
  singles :=
    ([0x02, 0x05, 0x06, 0x14, 0x19, 0x1e] ++ (List.range' 0x80 0x80).map Nat.toUInt8).zip <|
      ["ẲẴẪỶỸỴ", "ẠẮẰẶẤẦẨẬẼẸẾỀỂỄỆỐỒỔỖỘỢỚỜỞỊỎỌỈỦŨỤỲ", "ÕắằặấầẩậẽẹếềểễệốồổỗỠƠộờởịỰỨỪỬơớƯ",
       "ÀÁÂÃẢĂẳẵÈÉÊẺÌÍĨỳĐứÒÓÔạỷừửÙÚỹỵÝỡư", "àáâãảăữẫèéêẻìíĩỉđựòóôõỏọụùúũủýợỮ"].flatMap
        String.toList
  grids := []

def chineseRoman : MultiByte where
  singles := [(0x24, '¥'), (0x7e, '‾')]
  grids := []

def japaneseRoman : MultiByte where
  singles := [(0x5c, '¥'), (0x7e, '‾')]
  grids := []

def halfWidth : MultiByte where
  singles := (0x5c, '¥') :: (0x7e, '‾') :: katakana
  grids := []

/-! Japanese -/

def eucJp : MultiByte where
  grids :=
    [{ firstRow := 0xa1, cells := upperCells, chars := Grid.ofLines Grid.japanese },
     { firstRow := 0x8e, cells := [(0xa1, 0xdf)], chars := Grid.consecutive 0xff61 63 },
     { introducer := some 0x8f, firstRow := 0xa2, cells := upperCells,
       chars := Grid.ofLines Grid.japaneseSupplement }]
  likenesses := [('¥', [0x5c]), ('‾', [0x7e])]

def doubleCells : List (UInt8 × UInt8) := [(0x40, 0x7e), (0x80, 0xfc)]

/-- The standard set with two of its lines in a row, on both sides of katakana, and the rows for
private use. -/
def shiftedGrids : List Grid :=
  [{ firstRow := 0x81, cells := doubleCells, chars := Grid.ofLines (Grid.japanese.take 62) },
   { firstRow := 0xe0, cells := doubleCells, chars := Grid.ofLines (Grid.japanese.drop 62) },
   { firstRow := 0xf0, cells := doubleCells, chars := Grid.consecutive 0xe000 1880 }]

/-- The standard set in rows of two lines, with a yen sign and an overline among the characters of one
byte. -/
def shiftJis : MultiByte where
  singles := halfWidth.singles
  grids := shiftedGrids

def windows932 : MultiByte where
  singles := katakana
  grids :=
    patch 0x81 [(0x60, 0x61), (0x7c, 0x7c), (0x91, 0x92), (0xca, 0xca)] "～∥－￠￡￢" ::
      shiftedGrids ++
      [{ firstRow := 0x87, cells := doubleCells, chars := Grid.ofLines Grid.japaneseSigns },
       { firstRow := 0xfa, cells := doubleCells, chars := Grid.ofLines Grid.japaneseAdditions },
       { firstRow := 0xed, cells := doubleCells, chars := Grid.ofLines Grid.japaneseSelection }]
  likenesses :=
    [('¥', [0x5c]), ('‾', [0x7e]), ('〜', [0x81, 0x60]), ('‖', [0x81, 0x61]), ('−', [0x81, 0x7c]),
     ('¢', [0x81, 0x91]), ('£', [0x81, 0x92]), ('¬', [0x81, 0xca])]

/-! Simplified Chinese -/

def eucCn : MultiByte where
  grids := [{ firstRow := 0xa1, cells := upperCells, chars := Grid.ofLines Grid.simplified }]

def furtherHanzi : List Char :=
  lacking (List.range' 0x4e00 20902)
    (Grid.simplified.flatten.filter ('一' ≤ ·)).mergeSort

/-- Hanzi that have code points for the sake of other sets, and further ones that stand beside them. -/
def compatible : List Text :=
  ["\uf92c\uf979\uf995\uf9e7\uf9f1\ufa0c\ufa0d\ufa0e\ufa0f\ufa11\ufa13\ufa14",
   "\ufa18\ufa1f\ufa20\ufa21\ufa23\ufa24\ufa27\ufa28\ufa29"]

def lowerCells : List (UInt8 × UInt8) := [(0x40, 0x7e), (0x80, 0xa0)]

def gbkGrids : List Grid :=
  [patch 0xa1 [(0xa4, 0xa4), (0xaa, 0xaa)] "·—",
   patch 0xa2 [(0xa1, 0xaa)] "ⅰⅱⅲⅳⅴⅵⅶⅷⅸⅹ",
   patch 0xa6 [(0xe0, 0xf5)] "︵︶︹︺︿﹀︽︾﹁﹂﹃﹄..︻︼︷︸︱.︳︴",
   patch 0xa8 [(0xbb, 0xc0)] "ɑ.ńň.ɡ",
   { firstRow := 0xa1, cells := upperCells, chars := Grid.ofLines Grid.simplified },
   { firstRow := 0xa8, cells := lowerCells, chars := Grid.ofLines Grid.simplifiedSigns },
   { firstRow := 0x81, cells := [(0x40, 0x7e), (0x80, 0xfe)],
     chars := (furtherHanzi.take 6080).toArray },
   { firstRow := 0xaa, cells := lowerCells,
     chars := (furtherHanzi.drop 6080).toArray ++
       Grid.ofLines compatible }]

def gbk : MultiByte where
  grids := gbkGrids

def privateGrids : List Grid :=
  [{ firstRow := 0xaa, cells := upperCells, chars := Grid.consecutive 0xe000 564 },
   { firstRow := 0xf8, cells := upperCells, chars := Grid.consecutive 0xe234 658 },
   { firstRow := 0xa1, cells := lowerCells, chars := Grid.consecutive 0xe4c6 672 }]

def windows936 : MultiByte where
  singles := [(0x80, '€'), (0xff, '\uf8f5')]
  grids := gbkGrids ++ privateGrids

def gb18030 : MultiByte where
  grids :=
    gbkGrids ++
      [patch 0xa2 [(0xe3, 0xe3)] "€",
       patch 0xa6 [(0xd9, 0xdf), (0xec, 0xed), (0xf3, 0xf3)] "︐︒︑︓︔︕︖︗︘︙",
       patch 0xa8 [(0xbc, 0xbc), (0xbf, 0xbf)] "ḿǹ",
       patch 0xa9 [(0x89, 0x95)] "〾⿰⿱⿲⿳⿴⿵⿶⿷⿸⿹⿺⿻",
       patch 0xfe [(0x50, 0x7e), (0x80, 0xa0)]
         ("⺁...⺄㑳㑇⺈⺋龴㖞㘚㘎⺌⺗㥮㤘龵㧏㧟㩳㧐龶龷㭎㱮㳠⺧.龸⺪䁖䅟⺮䌷⺳⺶⺷.䎱䎬⺻䏝䓖䙡䙌龹" ++
          "䜣䜩䝼䞍⻊䥇䥺䥽䦂䦃䦅䦆䦟䦛䦷䦶龺.䲣䲟䲠䲡䱷䲢䴓䴔䴕䴖䴗䴘䴙䶮龻")] ++
      privateGrids
  fourByte := true

/-! Traditional Chinese -/

def wideCells : List (UInt8 × UInt8) := [(0x40, 0x7e), (0xa1, 0xfe)]

def traditionalGrid : Grid where
  firstRow := 0xa1
  cells := wideCells
  chars := Grid.ofLines Grid.traditional

def big5 : MultiByte where
  grids := [traditionalGrid]

def windows950 : MultiByte where
  grids :=
    [patch 0xa1 [(0x45, 0x45), (0x4e, 0x4e), (0x5a, 0x5a), (0xc2, 0xc3), (0xc5, 0xc5), (0xe3, 0xe3),
       (0xf2, 0xf3), (0xfe, 0xfe)] "‧﹑╴¯￣ˍ～⊕⊙／",
     patch 0xa2 [(0x40, 0x42), (0x44, 0x44), (0x46, 0x47)] "＼∕﹨￥￠￡",
     patch 0xa3 [(0xe1, 0xe1)] "€",
     { firstRow := 0xc6, cells := upperCells, chars := Grid.consecutive 0xf6b1 94 },
     { firstRow := 0xc7, cells := wideCells, chars := Grid.consecutive 0xf70f 314 },
     traditionalGrid,
     patch 0xa2 [(0xcc, 0xcc), (0xce, 0xce)] "十卅",
     patch 0xf9 [(0xd6, 0xfe)] "碁銹裏墻恒粧嫺╔╦╗╠╬╣╚╩╝╒╤╕╞╪╡╘╧╛╓╥╖╟╫╢╙╨╜║═╭╮╰╯▓",
     { firstRow := 0xfa, cells := wideCells, chars := Grid.consecutive 0xe000 785 },
     { firstRow := 0x8e, cells := wideCells, chars := Grid.consecutive 0xe311 2983 },
     { firstRow := 0x81, cells := wideCells, chars := Grid.consecutive 0xeeb8 2041 }]

/-! Korean -/

def koreanGrid : Grid where
  firstRow := 0xa1
  cells := upperCells
  chars := Grid.ofLines Grid.korean

def eucKr : MultiByte where
  grids := [koreanGrid, patch 0xa2 [(0xe8, 0xe8)] "㉾"]

def furtherSyllables : List Char :=
  lacking (List.range' 0xac00 11172)
    (Grid.korean.flatten.filter fun c => '가' ≤ c && c ≤ '힣')

def windows949 : MultiByte where
  grids :=
    [koreanGrid,
     { firstRow := 0x81, cells := [(0x41, 0x5a), (0x61, 0x7a), (0x81, 0xfe)],
       chars := (furtherSyllables.take 5696).toArray },
     { firstRow := 0xa1, cells := [(0x41, 0x5a), (0x61, 0x7a), (0x81, 0xa0)],
       chars := (furtherSyllables.drop 5696).toArray },
     { firstRow := 0xc9, cells := upperCells, chars := Grid.consecutive 0xe000 94 },
     { firstRow := 0xfe, cells := upperCells, chars := Grid.consecutive 0xe05e 94 }]

end MultiByte

end Rebind.Markup
