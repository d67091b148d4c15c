import ZodSchemas.Text.Composition
import ZodSchemas.Text.Joining
import ZodSchemas.Text.LowerCase
import ZodSchemas.Text.Punycode
import ZodSchemas.Text.Script

/-!
# Labels of hosts

The name of a host is made of labels with dots between them. A label holds
small letters, digits, marks and hyphens of Unicode 14.0, is composed, and has
hyphens neither at its ends nor at its third and fourth place. A few code
points are good in some context only, and a label with letters of scripts that
run from right to left must not mix directions. In ASCII, a label that holds
other code points is written in Punycode behind a mark.
-/

namespace ZodSchemas

/-- What is wrong with a label. -/
inductive LabelFault where
  /-- It has not the form of a label. -/
  | form
  /-- It holds a code point that no label holds. -/
  | codePoint
  /-- It holds a code point out of its context. -/
  | context
  /-- It mixes directions. -/
  | direction
deriving DecidableEq

namespace Label

/-- Where code points that are good in labels unless they are capital and other code points take
turns. -/
def boundaries : List Nat :=
  [0x2D, 0x2E, 0x30, 0x3A, 0x41, 0x5B, 0x61, 0x7B, 0xC0, 0xD7, 0xD8, 0xF7, 0xF8, 0x133, 0x134,
   0x140, 0x141, 0x149, 0x14A, 0x17F, 0x180, 0x1C6, 0x1C7, 0x1C9, 0x1CA, 0x1CC, 0x1CD, 0x1F3, 0x1F4,
   0x2B0, 0x2B9, 0x2C2, 0x2C6, 0x2D2, 0x2EC, 0x2ED, 0x2EE, 0x2EF, 0x300, 0x340, 0x342, 0x343, 0x346,
   0x34F, 0x350, 0x374, 0x376, 0x378, 0x37B, 0x37E, 0x37F, 0x380, 0x386, 0x387, 0x388, 0x38B, 0x38C,
   0x38D, 0x38E, 0x3A2, 0x3A3, 0x3D0, 0x3D7, 0x3F0, 0x3F3, 0x3F5, 0x3F7, 0x482, 0x483, 0x488, 0x48A,
   0x530, 0x531, 0x557, 0x559, 0x55A, 0x560, 0x587, 0x588, 0x589, 0x591, 0x5BE, 0x5BF, 0x5C0, 0x5C1,
   0x5C3, 0x5C4, 0x5C6, 0x5C7, 0x5C8, 0x5D0, 0x5EB, 0x5EF, 0x5F3, 0x610, 0x61B, 0x620, 0x640, 0x641,
   0x660, 0x66E, 0x675, 0x679, 0x6D4, 0x6D5, 0x6DD, 0x6DF, 0x6E9, 0x6EA, 0x6F0, 0x6FA, 0x700, 0x710,
   0x74B, 0x74D, 0x7B2, 0x7C0, 0x7F6, 0x7FD, 0x7FE, 0x800, 0x82E, 0x840, 0x85C, 0x860, 0x86B, 0x870,
   0x888, 0x889, 0x88F, 0x898, 0x8E2, 0x8E3, 0x958, 0x960, 0x964, 0x966, 0x970, 0x971, 0x984, 0x985,
   0x98D, 0x98F, 0x991, 0x993, 0x9A9, 0x9AA, 0x9B1, 0x9B2, 0x9B3, 0x9B6, 0x9BA, 0x9BC, 0x9C5, 0x9C7,
   0x9C9, 0x9CB, 0x9CF, 0x9D7, 0x9D8, 0x9E0, 0x9E4, 0x9E6, 0x9F2, 0x9FC, 0x9FD, 0x9FE, 0x9FF, 0xA01,
   0xA04, 0xA05, 0xA0B, 0xA0F, 0xA11, 0xA13, 0xA29, 0xA2A, 0xA31, 0xA32, 0xA33, 0xA35, 0xA36, 0xA38,
   0xA3A, 0xA3C, 0xA3D, 0xA3E, 0xA43, 0xA47, 0xA49, 0xA4B, 0xA4E, 0xA51, 0xA52, 0xA5C, 0xA5D, 0xA66,
   0xA76, 0xA81, 0xA84, 0xA85, 0xA8E, 0xA8F, 0xA92, 0xA93, 0xAA9, 0xAAA, 0xAB1, 0xAB2, 0xAB4, 0xAB5,
   0xABA, 0xABC, 0xAC6, 0xAC7, 0xACA, 0xACB, 0xACE, 0xAD0, 0xAD1, 0xAE0, 0xAE4, 0xAE6, 0xAF0, 0xAF9,
   0xB00, 0xB01, 0xB04, 0xB05, 0xB0D, 0xB0F, 0xB11, 0xB13, 0xB29, 0xB2A, 0xB31, 0xB32, 0xB34, 0xB35,
   0xB3A, 0xB3C, 0xB45, 0xB47, 0xB49, 0xB4B, 0xB4E, 0xB55, 0xB58, 0xB5F, 0xB64, 0xB66, 0xB70, 0xB71,
   0xB72, 0xB82, 0xB84, 0xB85, 0xB8B, 0xB8E, 0xB91, 0xB92, 0xB96, 0xB99, 0xB9B, 0xB9C, 0xB9D, 0xB9E,
   0xBA0, 0xBA3, 0xBA5, 0xBA8, 0xBAB, 0xBAE, 0xBBA, 0xBBE, 0xBC3, 0xBC6, 0xBC9, 0xBCA, 0xBCE, 0xBD0,
   0xBD1, 0xBD7, 0xBD8, 0xBE6, 0xBF0, 0xC00, 0xC0D, 0xC0E, 0xC11, 0xC12, 0xC29, 0xC2A, 0xC3A, 0xC3C,
   0xC45, 0xC46, 0xC49, 0xC4A, 0xC4E, 0xC55, 0xC57, 0xC58, 0xC5B, 0xC5D, 0xC5E, 0xC60, 0xC64, 0xC66,
   0xC70, 0xC80, 0xC84, 0xC85, 0xC8D, 0xC8E, 0xC91, 0xC92, 0xCA9, 0xCAA, 0xCB4, 0xCB5, 0xCBA, 0xCBC,
   0xCC5, 0xCC6, 0xCC9, 0xCCA, 0xCCE, 0xCD5, 0xCD7, 0xCDD, 0xCDF, 0xCE0, 0xCE4, 0xCE6, 0xCF0, 0xCF1,
   0xCF3, 0xD00, 0xD0D, 0xD0E, 0xD11, 0xD12, 0xD45, 0xD46, 0xD49, 0xD4A, 0xD4F, 0xD54, 0xD58, 0xD5F,
   0xD64, 0xD66, 0xD70, 0xD7A, 0xD80, 0xD81, 0xD84, 0xD85, 0xD97, 0xD9A, 0xDB2, 0xDB3, 0xDBC, 0xDBD,
   0xDBE, 0xDC0, 0xDC7, 0xDCA, 0xDCB, 0xDCF, 0xDD5, 0xDD6, 0xDD7, 0xDD8, 0xDE0, 0xDE6, 0xDF0, 0xDF2,
   0xDF4, 0xE01, 0xE33, 0xE34, 0xE3B, 0xE40, 0xE4F, 0xE50, 0xE5A, 0xE81, 0xE83, 0xE84, 0xE85, 0xE86,
   0xE8B, 0xE8C, 0xEA4, 0xEA5, 0xEA6, 0xEA7, 0xEB3, 0xEB4, 0xEBE, 0xEC0, 0xEC5, 0xEC6, 0xEC7, 0xEC8,
   0xECE, 0xED0, 0xEDA, 0xEDE, 0xEE0, 0xF00, 0xF01, 0xF0B, 0xF0C, 0xF18, 0xF1A, 0xF20, 0xF2A, 0xF35,
   0xF36, 0xF37, 0xF38, 0xF39, 0xF3A, 0xF3E, 0xF43, 0xF44, 0xF48, 0xF49, 0xF4D, 0xF4E, 0xF52, 0xF53,
   0xF57, 0xF58, 0xF5C, 0xF5D, 0xF69, 0xF6A, 0xF6D, 0xF71, 0xF73, 0xF74, 0xF75, 0xF7A, 0xF81, 0xF82,
   0xF85, 0xF86, 0xF93, 0xF94, 0xF98, 0xF99, 0xF9D, 0xF9E, 0xFA2, 0xFA3, 0xFA7, 0xFA8, 0xFAC, 0xFAD,
   0xFB9, 0xFBA, 0xFBD, 0xFC6, 0xFC7, 0x1000, 0x104A, 0x1050, 0x109E, 0x10A0, 0x10C6, 0x10C7,
   0x10C8, 0x10CD, 0x10CE, 0x10D0, 0x10FB, 0x10FD, 0x1100, 0x1200, 0x1249, 0x124A, 0x124E, 0x1250,
   0x1257, 0x1258, 0x1259, 0x125A, 0x125E, 0x1260, 0x1289, 0x128A, 0x128E, 0x1290, 0x12B1, 0x12B2,
   0x12B6, 0x12B8, 0x12BF, 0x12C0, 0x12C1, 0x12C2, 0x12C6, 0x12C8, 0x12D7, 0x12D8, 0x1311, 0x1312,
   0x1316, 0x1318, 0x135B, 0x135D, 0x1360, 0x1380, 0x1390, 0x13A0, 0x13F6, 0x1401, 0x166D, 0x166F,
   0x1680, 0x1681, 0x169B, 0x16A0, 0x16EB, 0x16F1, 0x16F9, 0x1700, 0x1716, 0x171F, 0x1735, 0x1740,
   0x1754, 0x1760, 0x176D, 0x176E, 0x1771, 0x1772, 0x1774, 0x1780, 0x17B4, 0x17B6, 0x17D4, 0x17D7,
   0x17D8, 0x17DC, 0x17DE, 0x17E0, 0x17EA, 0x1810, 0x181A, 0x1820, 0x1879, 0x1880, 0x18AB, 0x18B0,
   0x18F6, 0x1900, 0x191F, 0x1920, 0x192C, 0x1930, 0x193C, 0x1946, 0x196E, 0x1970, 0x1975, 0x1980,
   0x19AC, 0x19B0, 0x19CA, 0x19D0, 0x19DA, 0x1A00, 0x1A1C, 0x1A20, 0x1A5F, 0x1A60, 0x1A7D, 0x1A7F,
   0x1A8A, 0x1A90, 0x1A9A, 0x1AA7, 0x1AA8, 0x1AB0, 0x1ABE, 0x1ABF, 0x1ACF, 0x1B00, 0x1B4D, 0x1B50,
   0x1B5A, 0x1B6B, 0x1B74, 0x1B80, 0x1BF4, 0x1C00, 0x1C38, 0x1C40, 0x1C4A, 0x1C4D, 0x1C7E, 0x1C90,
   0x1CBB, 0x1CBD, 0x1CC0, 0x1CD0, 0x1CD3, 0x1CD4, 0x1CFB, 0x1D00, 0x1D2C, 0x1D2F, 0x1D30, 0x1D3B,
   0x1D3C, 0x1D4E, 0x1D4F, 0x1D6B, 0x1D78, 0x1D79, 0x1D9B, 0x1DC0, 0x1E9A, 0x1E9C, 0x1F16, 0x1F18,
   0x1F1E, 0x1F20, 0x1F46, 0x1F48, 0x1F4E, 0x1F50, 0x1F58, 0x1F59, 0x1F5A, 0x1F5B, 0x1F5C, 0x1F5D,
   0x1F5E, 0x1F5F, 0x1F71, 0x1F72, 0x1F73, 0x1F74, 0x1F75, 0x1F76, 0x1F77, 0x1F78, 0x1F79, 0x1F7A,
   0x1F7B, 0x1F7C, 0x1F7D, 0x1F88, 0x1F90, 0x1F98, 0x1FA0, 0x1FA8, 0x1FB2, 0x1FB6, 0x1FB7, 0x1FB8,
   0x1FBD, 0x1FC6, 0x1FC7, 0x1FC8, 0x1FCD, 0x1FD0, 0x1FD3, 0x1FD6, 0x1FDC, 0x1FE0, 0x1FE3, 0x1FE4,
   0x1FED, 0x1FF6, 0x1FF7, 0x1FF8, 0x1FFD, 0x2126, 0x2127, 0x212A, 0x212C, 0x2132, 0x2133, 0x214E,
   0x214F, 0x2160, 0x2170, 0x2183, 0x2185, 0x24B6, 0x24D0, 0x2C00, 0x2C7C, 0x2C7E, 0x2CE5, 0x2CEB,
   0x2CF4, 0x2D00, 0x2D26, 0x2D27, 0x2D28, 0x2D2D, 0x2D2E, 0x2D30, 0x2D68, 0x2D7F, 0x2D97, 0x2DA0,
   0x2DA7, 0x2DA8, 0x2DAF, 0x2DB0, 0x2DB7, 0x2DB8, 0x2DBF, 0x2DC0, 0x2DC7, 0x2DC8, 0x2DCF, 0x2DD0,
   0x2DD7, 0x2DD8, 0x2DDF, 0x2DE0, 0x2E00, 0x2E2F, 0x2E30, 0x3005, 0x3008, 0x302A, 0x302E, 0x303C,
   0x303D, 0x3041, 0x3097, 0x3099, 0x309B, 0x309D, 0x309F, 0x30A1, 0x30FB, 0x30FC, 0x30FF, 0x3105,
   0x3130, 0x31A0, 0x31C0, 0x31F0, 0x3200, 0x3400, 0x4DC0, 0x4E00, 0xA48D, 0xA4D0, 0xA4FE, 0xA500,
   0xA60D, 0xA610, 0xA62C, 0xA640, 0xA670, 0xA674, 0xA67E, 0xA67F, 0xA69C, 0xA69E, 0xA6E6, 0xA6F0,
   0xA6F2, 0xA717, 0xA720, 0xA722, 0xA770, 0xA771, 0xA789, 0xA78B, 0xA7CB, 0xA7D0, 0xA7D2, 0xA7D3,
   0xA7D4, 0xA7D5, 0xA7DA, 0xA7F5, 0xA7F8, 0xA7FA, 0xA828, 0xA82C, 0xA82D, 0xA840, 0xA874, 0xA880,
   0xA8C6, 0xA8D0, 0xA8DA, 0xA8E0, 0xA8F8, 0xA8FB, 0xA8FC, 0xA8FD, 0xA92E, 0xA930, 0xA954, 0xA980,
   0xA9C1, 0xA9CF, 0xA9DA, 0xA9E0, 0xA9FF, 0xAA00, 0xAA37, 0xAA40, 0xAA4E, 0xAA50, 0xAA5A, 0xAA60,
   0xAA77, 0xAA7A, 0xAAC3, 0xAADB, 0xAADE, 0xAAE0, 0xAAF0, 0xAAF2, 0xAAF7, 0xAB01, 0xAB07, 0xAB09,
   0xAB0F, 0xAB11, 0xAB17, 0xAB20, 0xAB27, 0xAB28, 0xAB2F, 0xAB30, 0xAB5B, 0xAB60, 0xAB69, 0xABC0,
   0xABEB, 0xABEC, 0xABEE, 0xABF0, 0xABFA, 0xAC00, 0xD7A4, 0xFA0E, 0xFA10, 0xFA11, 0xFA12, 0xFA13,
   0xFA15, 0xFA1F, 0xFA20, 0xFA21, 0xFA22, 0xFA23, 0xFA25, 0xFA27, 0xFA2A, 0xFB1E, 0xFB1F, 0xFE20,
   0xFE30, 0xFE73, 0xFE74, 0xFF21, 0xFF3B, 0x10000, 0x1000C, 0x1000D, 0x10027, 0x10028, 0x1003B,
   0x1003C, 0x1003E, 0x1003F, 0x1004E, 0x10050, 0x1005E, 0x10080, 0x100FB, 0x101FD, 0x101FE,
   0x10280, 0x1029D, 0x102A0, 0x102D1, 0x102E0, 0x102E1, 0x10300, 0x10320, 0x1032D, 0x10341,
   0x10342, 0x1034A, 0x10350, 0x1037B, 0x10380, 0x1039E, 0x103A0, 0x103C4, 0x103C8, 0x103D0,
   0x10400, 0x1049E, 0x104A0, 0x104AA, 0x104B0, 0x104D4, 0x104D8, 0x104FC, 0x10500, 0x10528,
   0x10530, 0x10564, 0x10570, 0x1057B, 0x1057C, 0x1058B, 0x1058C, 0x10593, 0x10594, 0x10596,
   0x10597, 0x105A2, 0x105A3, 0x105B2, 0x105B3, 0x105BA, 0x105BB, 0x105BD, 0x10600, 0x10737,
   0x10740, 0x10756, 0x10760, 0x10768, 0x10780, 0x10781, 0x10800, 0x10806, 0x10808, 0x10809,
   0x1080A, 0x10836, 0x10837, 0x10839, 0x1083C, 0x1083D, 0x1083F, 0x10856, 0x10860, 0x10877,
   0x10880, 0x1089F, 0x108E0, 0x108F3, 0x108F4, 0x108F6, 0x10900, 0x10916, 0x10920, 0x1093A,
   0x10980, 0x109B8, 0x109BE, 0x109C0, 0x10A00, 0x10A04, 0x10A05, 0x10A07, 0x10A0C, 0x10A14,
   0x10A15, 0x10A18, 0x10A19, 0x10A36, 0x10A38, 0x10A3B, 0x10A3F, 0x10A40, 0x10A60, 0x10A7D,
   0x10A80, 0x10A9D, 0x10AC0, 0x10AC8, 0x10AC9, 0x10AE7, 0x10B00, 0x10B36, 0x10B40, 0x10B56,
   0x10B60, 0x10B73, 0x10B80, 0x10B92, 0x10C00, 0x10C49, 0x10C80, 0x10CB3, 0x10CC0, 0x10CF3,
   0x10D00, 0x10D28, 0x10D30, 0x10D3A, 0x10E80, 0x10EAA, 0x10EAB, 0x10EAD, 0x10EB0, 0x10EB2,
   0x10F00, 0x10F1D, 0x10F27, 0x10F28, 0x10F30, 0x10F51, 0x10F70, 0x10F86, 0x10FB0, 0x10FC5,
   0x10FE0, 0x10FF7, 0x11000, 0x11047, 0x11066, 0x11076, 0x1107F, 0x110BB, 0x110C2, 0x110C3,
   0x110D0, 0x110E9, 0x110F0, 0x110FA, 0x11100, 0x11135, 0x11136, 0x11140, 0x11144, 0x11148,
   0x11150, 0x11174, 0x11176, 0x11177, 0x11180, 0x111C5, 0x111C9, 0x111CD, 0x111CE, 0x111DB,
   0x111DC, 0x111DD, 0x11200, 0x11212, 0x11213, 0x11238, 0x1123E, 0x1123F, 0x11280, 0x11287,
   0x11288, 0x11289, 0x1128A, 0x1128E, 0x1128F, 0x1129E, 0x1129F, 0x112A9, 0x112B0, 0x112EB,
   0x112F0, 0x112FA, 0x11300, 0x11304, 0x11305, 0x1130D, 0x1130F, 0x11311, 0x11313, 0x11329,
   0x1132A, 0x11331, 0x11332, 0x11334, 0x11335, 0x1133A, 0x1133B, 0x11345, 0x11347, 0x11349,
   0x1134B, 0x1134E, 0x11350, 0x11351, 0x11357, 0x11358, 0x1135D, 0x11364, 0x11366, 0x1136D,
   0x11370, 0x11375, 0x11400, 0x1144B, 0x11450, 0x1145A, 0x1145E, 0x11462, 0x11480, 0x114C6,
   0x114C7, 0x114C8, 0x114D0, 0x114DA, 0x11580, 0x115B6, 0x115B8, 0x115C1, 0x115D8, 0x115DE,
   0x11600, 0x11641, 0x11644, 0x11645, 0x11650, 0x1165A, 0x11680, 0x116B9, 0x116C0, 0x116CA,
   0x11700, 0x1171B, 0x1171D, 0x1172C, 0x11730, 0x1173A, 0x11740, 0x11747, 0x11800, 0x1183B,
   0x118A0, 0x118EA, 0x118FF, 0x11907, 0x11909, 0x1190A, 0x1190C, 0x11914, 0x11915, 0x11917,
   0x11918, 0x11936, 0x11937, 0x11939, 0x1193B, 0x11944, 0x11950, 0x1195A, 0x119A0, 0x119A8,
   0x119AA, 0x119D8, 0x119DA, 0x119E2, 0x119E3, 0x119E5, 0x11A00, 0x11A3F, 0x11A47, 0x11A48,
   0x11A50, 0x11A9A, 0x11A9D, 0x11A9E, 0x11AB0, 0x11AF9, 0x11C00, 0x11C09, 0x11C0A, 0x11C37,
   0x11C38, 0x11C41, 0x11C50, 0x11C5A, 0x11C72, 0x11C90, 0x11C92, 0x11CA8, 0x11CA9, 0x11CB7,
   0x11D00, 0x11D07, 0x11D08, 0x11D0A, 0x11D0B, 0x11D37, 0x11D3A, 0x11D3B, 0x11D3C, 0x11D3E,
   0x11D3F, 0x11D48, 0x11D50, 0x11D5A, 0x11D60, 0x11D66, 0x11D67, 0x11D69, 0x11D6A, 0x11D8F,
   0x11D90, 0x11D92, 0x11D93, 0x11D99, 0x11DA0, 0x11DAA, 0x11EE0, 0x11EF7, 0x11FB0, 0x11FB1,
   0x12000, 0x1239A, 0x12480, 0x12544, 0x12F90, 0x12FF1, 0x13000, 0x1342F, 0x14400, 0x14647,
   0x16800, 0x16A39, 0x16A40, 0x16A5F, 0x16A60, 0x16A6A, 0x16A70, 0x16ABF, 0x16AC0, 0x16ACA,
   0x16AD0, 0x16AEE, 0x16AF0, 0x16AF5, 0x16B00, 0x16B37, 0x16B40, 0x16B44, 0x16B50, 0x16B5A,
   0x16B63, 0x16B78, 0x16B7D, 0x16B90, 0x16E40, 0x16E80, 0x16F00, 0x16F4B, 0x16F4F, 0x16F88,
   0x16F8F, 0x16FA0, 0x16FE0, 0x16FE2, 0x16FE3, 0x16FE5, 0x16FF0, 0x16FF2, 0x17000, 0x187F8,
   0x18800, 0x18CD6, 0x18D00, 0x18D09, 0x1AFF0, 0x1AFF4, 0x1AFF5, 0x1AFFC, 0x1AFFD, 0x1AFFF,
   0x1B000, 0x1B123, 0x1B150, 0x1B153, 0x1B164, 0x1B168, 0x1B170, 0x1B2FC, 0x1BC00, 0x1BC6B,
   0x1BC70, 0x1BC7D, 0x1BC80, 0x1BC89, 0x1BC90, 0x1BC9A, 0x1BC9D, 0x1BC9F, 0x1CF00, 0x1CF2E,
   0x1CF30, 0x1CF47, 0x1DA00, 0x1DA37, 0x1DA3B, 0x1DA6D, 0x1DA75, 0x1DA76, 0x1DA84, 0x1DA85,
   0x1DA9B, 0x1DAA0, 0x1DAA1, 0x1DAB0, 0x1DF00, 0x1DF1F, 0x1E000, 0x1E007, 0x1E008, 0x1E019,
   0x1E01B, 0x1E022, 0x1E023, 0x1E025, 0x1E026, 0x1E02B, 0x1E100, 0x1E12D, 0x1E130, 0x1E13E,
   0x1E140, 0x1E14A, 0x1E14E, 0x1E14F, 0x1E290, 0x1E2AF, 0x1E2C0, 0x1E2FA, 0x1E7E0, 0x1E7E7,
   0x1E7E8, 0x1E7EC, 0x1E7ED, 0x1E7EF, 0x1E7F0, 0x1E7FF, 0x1E800, 0x1E8C5, 0x1E8D0, 0x1E8D7,
   0x1E900, 0x1E94C, 0x1E950, 0x1E95A, 0x20000, 0x2A6E0, 0x2A700, 0x2B739, 0x2B740, 0x2B81E,
   0x2B820, 0x2CEA2, 0x2CEB0, 0x2EBE1, 0x30000, 0x3134B]

/-- The capital letters of Cherokee, to which its small ones are folded. -/
def isCherokeeCapital (c : CodePoint) : Bool := 0x13A0 ≤ c.value && c.value < 0x13F6

/-- A code point that is good in every label. -/
def isPermitted (c : CodePoint) : Bool :=
  c.isWithin boundaries && (LowerCase.codePoint c == [c] || isCherokeeCapital c)

/-! ### Contexts -/

/-- The class of the marks that make a letter join the next one in the scripts of India. -/
def joiningClass : Nat := 9

/-- Whether a mark that makes letters join ends what stands in front; that comes in reverse. -/
def isJoined (before : Text) : Bool :=
  match before.head? with
  | some c => Composition.markClass c = joiningClass
  | none => false

/-- Whether what stands in front, in reverse, and what follows would join. -/
def wouldJoin (before after : Text) : Bool :=
  let next (t : Text) : Option CodePoint := (t.dropWhile Joining.isTransparent).head?
  (next before).any Joining.joinsNext && (next after).any Joining.joinsPrevious

/-- Arabic digits. -/
def isArabicDigit (c : CodePoint) : Bool := 0x660 ≤ c.value && c.value ≤ 0x669

/-- Arabic digits of the eastern form. -/
def isEasternDigit (c : CodePoint) : Bool := 0x6F0 ≤ c.value && c.value ≤ 0x6F9

/-- The middle dot of Japanese. -/
def middleDot : CodePoint := '・'

/-- Whether a code point is good where it stands in a label; what stands in front comes in reverse.
None if it is good in no context. -/
def fits? (before : Text) (c : CodePoint) (after : Text) : Option Bool :=
  let label := before ++ c :: after
  if c.value = 0x200C then some (isJoined before || wouldJoin before after)
  else if c.value = 0x200D then some (isJoined before)
  else if c = ('·' : CodePoint) then
    some (before.head? = some ('l' : CodePoint) && after.head? = some ('l' : CodePoint))
  else if c.value = 0x375 then some (after.head?.any (·.isWithin Script.greek))
  else if c.value = 0x5F3 ∨ c.value = 0x5F4 then
    some (before.head?.any (·.isWithin Script.hebrew))
  else if c = middleDot then
    some (label.any fun d => d != middleDot && d.isWithin Script.japanese)
  else if isArabicDigit c then some (!label.any isEasternDigit)
  else if isEasternDigit c then some (!label.any isArabicDigit)
  else none

/-- Check the code points of a label from some place on; what stands in front comes in reverse. -/
def checkCodePoints (before : Text) : Text → Except LabelFault Unit
  | [] => .ok ()
  | c :: after =>
    if isPermitted c then checkCodePoints (c :: before) after
    else
      match fits? before c after with
      | some true => checkCodePoints (c :: before) after
      | some false => .error (if c.value = 0x200C ∨ c.value = 0x200D then .form else .context)
      | none => .error .codePoint

/-! ### Directions -/

/-- Where code points of scripts that run from right to left and others take turns. -/
def rightToLeft : List Nat :=
  [0x590, 0x660, 0x66A, 0x6F0, 0x6FA, 0x900, 0xFB1D, 0xFF00, 0x10800, 0x10D30, 0x10D3A, 0x11000,
   0x1E800, 0x1F000]

/-- Where punctuation and other letters without a direction and other code points take turns. -/
def neutral : List Nat :=
  [0x2D, 0x2E, 0xB7, 0xB8, 0x2B9, 0x2BB, 0x2C6, 0x2D0, 0x2EC, 0x2ED, 0x375, 0x376, 0x200C, 0x200E,
   0x2E2F, 0x2E30, 0x30FB, 0x30FC, 0xA67F, 0xA680, 0xA717, 0xA720, 0xA788, 0xA789]

/-- Marks that have the direction of letters. -/
def directedMarks : List Nat := [0xCBF, 0xCC6, 0x11A07, 0x11A08, 0x11C3F]

/-- The direction of a code point of a label. -/
inductive Direction where
  /-- From left to right. -/
  | right
  /-- From right to left. -/
  | left
  /-- A number among letters that run from right to left. -/
  | arabicNumber
  /-- Any other number. -/
  | number
  /-- That of the letter in front. -/
  | mark
  /-- None. -/
  | neutral
deriving DecidableEq

/-- The direction of a code point that is good in some label. -/
def direction (c : CodePoint) : Direction :=
  if Mark.isNonspacing c ∧ c.value ∉ directedMarks then .mark
  else if c.isDigit ∨ isEasternDigit c then .number
  else if isArabicDigit c ∨ (0x10D30 ≤ c.value ∧ c.value ≤ 0x10D39) then .arabicNumber
  else if c.isWithin neutral then .neutral
  else if c.isWithin rightToLeft then .left
  else .right

/-- Whether directions are those of a label without a code point from right to left, or keep its
rules: it starts with a letter, ends with a letter or a number of its direction, behind which only
marks come, has no letter of the other direction and no numbers of two kinds. -/
def areUnmixed (directions : List Direction) : Bool :=
  let last := (directions.reverse.find? (· != .mark)).getD .mark
  if directions.all fun d => d ≠ .left ∧ d ≠ .arabicNumber then true
  else
    match directions.head? with
    | some .left =>
      !directions.contains .right && last ∈ [.left, .number, .arabicNumber] &&
        !(directions.contains .number && directions.contains .arabicNumber)
    | _ => false

/-! ### Whole labels -/

/-- Whether a label has hyphens where none may stand. -/
def hasBadHyphen (label : Text) : Bool :=
  let hyphen : CodePoint := '-'
  (label.drop 2).take 2 = [hyphen, hyphen] || label.head? = some hyphen ||
    label.getLast? = some hyphen

/-- Check a label. -/
def check (label : Text) : Except LabelFault Unit := do
  if label.isEmpty || !Composition.isComposed label || hasBadHyphen label ||
      label.head?.any Mark.isMark then
    throw .form
  checkCodePoints [] label
  if areUnmixed (label.map direction) then pure () else throw .direction

/-- What marks a label in Punycode. -/
def mark : Text := "xn--"

/-- Check a label in ASCII, as it is or as what it is written for. -/
def checkPlain (label : Text) : Except LabelFault Unit :=
  if mark.isPrefixOf label then
    let rest := label.drop mark.length
    if rest.isEmpty ∨ rest.getLast? = some ('-' : CodePoint) then .error .form
    else
      match Punycode.decode? rest with
      | some label => check label
      | none => .error .form
  else check label

/-- The greatest length of a label in ASCII. -/
def lengthLimit : Nat := 63

/-- A label in ASCII. -/
def encode (label : Text) : Except LabelFault Text := do
  let isPlain := label.all fun c => c.value ≤ 0x7F
  if isPlain then checkPlain label else check label
  let encoded := if isPlain then label else mark ++ Punycode.encode label
  if encoded.length ≤ lengthLimit then pure encoded else throw .form

end Label

namespace HostName

/-- The dots that stand between labels. -/
def dots : List Nat := [0x2E, 0x3002, 0xFF0E, 0xFF61]

/-- The labels of a name; one dot may follow the last. -/
def labels (name : Text) : List Text :=
  let parts := (name.map fun c => if c.value ∈ dots then ('.' : CodePoint) else c).splitOn
    ('.' : CodePoint)
  if parts.getLast? = some [] then parts.dropLast else parts

/-- The greatest length of a name in ASCII, without a dot at its end. -/
def lengthLimit : Nat := 253

/-- A name in ASCII. -/
def encode (name : Text) : Except LabelFault Text := do
  let encoded ← (labels name).mapM Label.encode
  let hasLastDot := name.getLast?.any fun c => c.value ∈ dots
  let joined := List.intercalate ("." : Text) encoded
  if lengthLimit < joined.length then throw .form
  pure (if hasLastDot then joined ++ "." else joined)

/-- Check a name in ASCII. -/
def check (name : Text) : Except LabelFault Unit := (labels name).forM Label.checkPlain

end HostName

end ZodSchemas
