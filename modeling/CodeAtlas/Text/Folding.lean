import CodeAtlas.Text.Blank
import CodeAtlas.Text.Category

/-!
# Folding for search

* `foldCase`: the simple case folding of a character.
* `foldMark`: the bare letter of a small letter with one diacritical mark.
* `tokens`: the search tokens of a text, which are its maximal runs of letters, numbers and
  characters of private use, folded, without the combining marks among them.
-/

namespace CodeAtlas.Text

/-- Looks a number up in stretches that map to stretches of the same step. -/
def shiftIn (table : List (Nat × Nat × Nat × Nat)) (n : Nat) : Nat :=
  match table.find? fun (low, high, step, _) => low ≤ n && n ≤ high && (n - low) % step == 0 with
  | some (low, _, _, target) => target + (n - low)
  | none => n

/-- Simple case folding outside ASCII: first, last and step of a stretch, and what its first
character folds to. -/
def foldTable : List (Nat × Nat × Nat × Nat) :=
  [
    (181, 181, 1, 956), (192, 214, 1, 224), (216, 222, 1, 248), (256, 302, 2, 257),
    (306, 310, 2, 307), (313, 327, 2, 314), (330, 374, 2, 331), (376, 376, 1, 255),
    (377, 381, 2, 378), (383, 383, 1, 115), (385, 385, 1, 595), (386, 388, 2, 387),
    (390, 390, 1, 596), (391, 391, 1, 392), (393, 394, 1, 598), (395, 395, 1, 396),
    (398, 398, 1, 477), (399, 399, 1, 601), (400, 400, 1, 603), (401, 401, 1, 402),
    (403, 403, 1, 608), (404, 404, 1, 611), (406, 406, 1, 617), (407, 407, 1, 616),
    (408, 408, 1, 409), (412, 412, 1, 623), (413, 413, 1, 626), (415, 415, 1, 629),
    (416, 420, 2, 417), (422, 422, 1, 640), (423, 423, 1, 424), (425, 425, 1, 643),
    (428, 428, 1, 429), (430, 430, 1, 648), (431, 431, 1, 432), (433, 434, 1, 650),
    (435, 437, 2, 436), (439, 439, 1, 658), (440, 440, 1, 441), (444, 444, 1, 445),
    (452, 452, 1, 454), (453, 453, 1, 454), (455, 455, 1, 457), (456, 456, 1, 457),
    (458, 458, 1, 460), (459, 475, 2, 460), (478, 494, 2, 479), (497, 497, 1, 499),
    (498, 500, 2, 499), (502, 502, 1, 405), (503, 503, 1, 447), (504, 542, 2, 505),
    (544, 544, 1, 414), (546, 562, 2, 547), (570, 570, 1, 11365), (571, 571, 1, 572),
    (573, 573, 1, 410), (574, 574, 1, 11366), (577, 577, 1, 578), (579, 579, 1, 384),
    (580, 580, 1, 649), (581, 581, 1, 652), (582, 590, 2, 583), (837, 837, 1, 953),
    (880, 882, 2, 881), (886, 886, 1, 887), (895, 895, 1, 1011), (902, 902, 1, 940),
    (904, 906, 1, 941), (908, 908, 1, 972), (910, 911, 1, 973), (913, 929, 1, 945),
    (931, 939, 1, 963), (962, 962, 1, 963), (975, 975, 1, 983), (976, 976, 1, 946),
    (977, 977, 1, 952), (981, 981, 1, 966), (982, 982, 1, 960), (984, 1006, 2, 985),
    (1008, 1008, 1, 954), (1009, 1009, 1, 961), (1012, 1012, 1, 952), (1013, 1013, 1, 949),
    (1015, 1015, 1, 1016), (1017, 1017, 1, 1010), (1018, 1018, 1, 1019), (1021, 1023, 1, 891),
    (1024, 1039, 1, 1104), (1040, 1071, 1, 1072), (1120, 1152, 2, 1121), (1162, 1214, 2, 1163),
    (1216, 1216, 1, 1231), (1217, 1229, 2, 1218), (1232, 1326, 2, 1233), (1329, 1366, 1, 1377),
    (4256, 4293, 1, 11520), (4295, 4295, 1, 11559), (4301, 4301, 1, 11565), (5112, 5117, 1, 5104),
    (7296, 7296, 1, 1074), (7297, 7297, 1, 1076), (7298, 7298, 1, 1086), (7299, 7300, 1, 1089),
    (7301, 7301, 1, 1090), (7302, 7302, 1, 1098), (7303, 7303, 1, 1123), (7304, 7304, 1, 42571),
    (7312, 7354, 1, 4304), (7357, 7359, 1, 4349), (7680, 7828, 2, 7681), (7835, 7835, 1, 7777),
    (7838, 7838, 1, 223), (7840, 7934, 2, 7841), (7944, 7951, 1, 7936), (7960, 7965, 1, 7952),
    (7976, 7983, 1, 7968), (7992, 7999, 1, 7984), (8008, 8013, 1, 8000), (8025, 8031, 2, 8017),
    (8040, 8047, 1, 8032), (8072, 8079, 1, 8064), (8088, 8095, 1, 8080), (8104, 8111, 1, 8096),
    (8120, 8121, 1, 8112), (8122, 8123, 1, 8048), (8124, 8124, 1, 8115), (8126, 8126, 1, 953),
    (8136, 8139, 1, 8050), (8140, 8140, 1, 8131), (8152, 8153, 1, 8144), (8154, 8155, 1, 8054),
    (8168, 8169, 1, 8160), (8170, 8171, 1, 8058), (8172, 8172, 1, 8165), (8184, 8185, 1, 8056),
    (8186, 8187, 1, 8060), (8188, 8188, 1, 8179), (8486, 8486, 1, 969), (8490, 8490, 1, 107),
    (8491, 8491, 1, 229), (8498, 8498, 1, 8526), (8544, 8559, 1, 8560), (8579, 8579, 1, 8580),
    (9398, 9423, 1, 9424), (11264, 11311, 1, 11312), (11360, 11360, 1, 11361),
    (11362, 11362, 1, 619), (11363, 11363, 1, 7549), (11364, 11364, 1, 637),
    (11367, 11371, 2, 11368), (11373, 11373, 1, 593), (11374, 11374, 1, 625),
    (11375, 11375, 1, 592), (11376, 11376, 1, 594), (11378, 11378, 1, 11379),
    (11381, 11381, 1, 11382), (11390, 11391, 1, 575), (11392, 11490, 2, 11393),
    (11499, 11501, 2, 11500), (11506, 11506, 1, 11507), (42560, 42604, 2, 42561),
    (42624, 42650, 2, 42625), (42786, 42798, 2, 42787), (42802, 42862, 2, 42803),
    (42873, 42875, 2, 42874), (42877, 42877, 1, 7545), (42878, 42886, 2, 42879),
    (42891, 42891, 1, 42892), (42893, 42893, 1, 613), (42896, 42898, 2, 42897),
    (42902, 42920, 2, 42903), (42922, 42922, 1, 614), (42923, 42923, 1, 604),
    (42924, 42924, 1, 609), (42925, 42925, 1, 620), (42926, 42926, 1, 618), (42928, 42928, 1, 670),
    (42929, 42929, 1, 647), (42930, 42930, 1, 669), (42931, 42931, 1, 43859),
    (42932, 42946, 2, 42933), (42948, 42948, 1, 42900), (42949, 42949, 1, 642),
    (42950, 42950, 1, 7566), (42951, 42953, 2, 42952), (42960, 42960, 1, 42961),
    (42966, 42968, 2, 42967), (42997, 42997, 1, 42998), (43888, 43967, 1, 5024),
    (65313, 65338, 1, 65345), (66560, 66599, 1, 66600), (66736, 66771, 1, 66776),
    (66928, 66938, 1, 66967), (66940, 66954, 1, 66979), (66956, 66962, 1, 66995),
    (66964, 66965, 1, 67003), (68736, 68786, 1, 68800), (71840, 71871, 1, 71872),
    (93760, 93791, 1, 93792), (125184, 125217, 1, 125218)
  ]

/-- The simple case folding of a character. -/
def foldCase (c : Char) : Char := if c.toNat < 128 then c.toLower else .ofNat (shiftIn foldTable c.toNat)

/-- Small letters with one diacritical mark: first, last and step of a stretch, and their letter. -/
def markedTable : List (Nat × Nat × Nat × Nat) :=
  [
    (224, 229, 1, 97), (257, 261, 2, 97), (462, 462, 1, 97), (513, 515, 2, 97), (551, 551, 1, 97),
    (7681, 7681, 1, 97), (7841, 7843, 2, 97), (7683, 7687, 2, 98), (231, 231, 1, 99),
    (263, 269, 2, 99), (271, 271, 1, 100), (7691, 7699, 2, 100), (232, 235, 1, 101),
    (275, 283, 2, 101), (517, 519, 2, 101), (553, 553, 1, 101), (7705, 7707, 2, 101),
    (7865, 7869, 2, 101), (7711, 7711, 1, 102), (285, 291, 2, 103), (487, 487, 1, 103),
    (501, 501, 1, 103), (7713, 7713, 1, 103), (293, 293, 1, 104), (543, 543, 1, 104),
    (7715, 7723, 2, 104), (7830, 7830, 1, 104), (236, 239, 1, 105), (297, 303, 2, 105),
    (464, 464, 1, 105), (521, 523, 2, 105), (7725, 7725, 1, 105), (7881, 7883, 2, 105),
    (309, 309, 1, 106), (496, 496, 1, 106), (311, 311, 1, 107), (489, 489, 1, 107),
    (7729, 7733, 2, 107), (314, 318, 2, 108), (7735, 7735, 1, 108), (7739, 7741, 2, 108),
    (7743, 7747, 2, 109), (241, 241, 1, 110), (324, 328, 2, 110), (505, 505, 1, 110),
    (7749, 7755, 2, 110), (242, 246, 1, 111), (333, 337, 2, 111), (417, 417, 1, 111),
    (466, 466, 1, 111), (491, 491, 1, 111), (525, 527, 2, 111), (559, 559, 1, 111),
    (7885, 7887, 2, 111), (7765, 7767, 2, 112), (341, 345, 2, 114), (529, 531, 2, 114),
    (7769, 7771, 2, 114), (7775, 7775, 1, 114), (347, 353, 2, 115), (537, 537, 1, 115),
    (7777, 7779, 2, 115), (355, 357, 2, 116), (539, 539, 1, 116), (7787, 7793, 2, 116),
    (7831, 7831, 1, 116), (249, 252, 1, 117), (361, 371, 2, 117), (432, 432, 1, 117),
    (468, 468, 1, 117), (533, 535, 2, 117), (7795, 7799, 2, 117), (7909, 7911, 2, 117),
    (7805, 7807, 2, 118), (373, 373, 1, 119), (7809, 7817, 2, 119), (7832, 7832, 1, 119),
    (7819, 7821, 2, 120), (253, 255, 2, 121), (375, 375, 1, 121), (563, 563, 1, 121),
    (7823, 7823, 1, 121), (7833, 7833, 1, 121), (7923, 7929, 2, 121), (378, 382, 2, 122),
    (7825, 7829, 2, 122)
  ]

/-- The bare letter of a small letter with one diacritical mark. -/
def foldMark (c : Char) : Char :=
  if c.toNat < 128 then c
  else
    match markedTable.find? fun (low, high, step, _) =>
        low ≤ c.toNat && c.toNat ≤ high && (c.toNat - low) % step == 0 with
    | some (_, _, _, letter) => .ofNat letter
    | none => c

/-- The combining marks that a token may hold and loses. -/
def isCombining (c : Char) : Bool :=
  let n := c.toNat
  (768 ≤ n && n ≤ 799 && (0x08029FDF >>> (n - 768)) % 2 == 1) ||
    (800 ≤ n && n ≤ 817 && (0x000361F8 >>> (n - 800)) % 2 == 1)

/-- The characters that tokens are made of. -/
def isTokenChar (c : Char) : Bool :=
  let n := c.toNat
  isLetterOrNumber c || (0xE000 ≤ n && n ≤ 0xF8FF) || (0xF0000 ≤ n && n ≤ 0xFFFFD) ||
    (0x100000 ≤ n && n ≤ 0x10FFFD)

/-- The search tokens of a text. A token starts with a character of its own and goes on over
combining marks. -/
def tokens (s : String) : List String :=
  (runs (fun c => isTokenChar c || isCombining c) s.toList).filterMap fun run =>
    match run.dropWhile isCombining with
    | [] => none
    | cs => some (.ofList ((cs.filter (!isCombining ·)).map fun c => foldMark (foldCase c)))

end CodeAtlas.Text
