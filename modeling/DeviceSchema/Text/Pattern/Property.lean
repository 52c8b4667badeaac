/-! # Unicode properties by name

A pattern refers to a set of characters by the name of a property, or by the name
of a property and one of its values.  Names are compared loosely: ASCII case,
blanks, underscores, hyphens and a leading `is` mean nothing.  The tables hold the
names in this loose form, all aliases included.
-/
namespace DeviceSchema.Text.Pattern

/-- The properties that a character has or has not. -/
def binaryProperties : List String :=
  ["ahex", "alpha", "alphabetic", "asciihexdigit", "bidic", "bidicontrol", "bidim", "bidimirrored",
    "cased", "caseignorable", "changeswhencasefolded", "changeswhencasemapped",
    "changeswhenlowercased", "changeswhentitlecased", "changeswhenuppercased", "ci", "cwcf", "cwcm",
    "cwl", "cwt", "cwu", "dash", "defaultignorablecodepoint", "dep", "deprecated", "di", "dia",
    "diacritic", "ebase", "ecomp", "emod", "emoji", "emojicomponent", "emojimodifier",
    "emojimodifierbase", "emojipresentation", "epres", "ext", "extendedpictographic", "extender",
    "extpict", "graphemebase", "graphemeextend", "graphemelink", "grbase", "grext", "grlink", "hex",
    "hexdigit", "hyphen", "idc", "idcompatmathcontinue", "idcompatmathstart", "idcontinue", "ideo",
    "ideographic", "ids", "idsb", "idsbinaryoperator", "idst", "idstart", "idstrinaryoperator",
    "idsu", "idsunaryoperator", "joinc", "joincontrol", "loe", "logicalorderexception", "lower",
    "lowercase", "math", "mcm", "modifiercombiningmark", "nchar", "noncharactercodepoint", "oalpha",
    "odi", "ogrext", "oidc", "oids", "olower", "omath", "otheralphabetic",
    "otherdefaultignorablecodepoint", "othergraphemeextend", "otheridcontinue", "otheridstart",
    "otherlowercase", "othermath", "otheruppercase", "oupper", "patsyn", "patternsyntax",
    "patternwhitespace", "patws", "pcm", "prependedconcatenationmark", "qmark", "quotationmark",
    "radical", "regionalindicator", "ri", "sd", "sentenceterminal", "softdotted", "space", "sterm",
    "term", "terminalpunctuation", "uideo", "unifiedideograph", "upper", "uppercase",
    "variationselector", "vs", "whitespace", "wspace", "xidc", "xidcontinue", "xids", "xidstart"]

/-- The general categories that have characters, and three wider classes. -/
def categories : List String :=
  ["any", "ascii", "assigned", "c", "casedletter", "cc", "cf", "closepunctuation", "cn", "cntrl",
    "co", "combiningmark", "connectorpunctuation", "control", "currencysymbol", "dashpunctuation",
    "decimalnumber", "digit", "enclosingmark", "finalpunctuation", "format", "initialpunctuation",
    "l", "lc", "letter", "letternumber", "lineseparator", "ll", "lm", "lo", "lowercaseletter", "lt",
    "lu", "m", "mark", "mathsymbol", "mc", "me", "mn", "modifierletter", "modifiersymbol", "n",
    "nd", "nl", "no", "nonspacingmark", "number", "openpunctuation", "other", "otherletter",
    "othernumber", "otherpunctuation", "othersymbol", "p", "paragraphseparator", "pc", "pd", "pe",
    "pf", "pi", "po", "privateuse", "ps", "punct", "punctuation", "s", "sc", "separator", "sk",
    "sm", "so", "spaceseparator", "spacingmark", "symbol", "titlecaseletter", "unassigned",
    "uppercaseletter", "z", "zl", "zp", "zs"]

/-- The scripts. -/
def scripts : List String :=
  ["adlam", "adlm", "aghb", "ahom", "anatolianhieroglyphs", "arab", "arabic", "armenian", "armi",
    "armn", "avestan", "avst", "bali", "balinese", "bamu", "bamum", "bass", "bassavah", "batak",
    "batk", "beng", "bengali", "bhaiksuki", "bhks", "bopo", "bopomofo", "brah", "brahmi", "brai",
    "braille", "bugi", "buginese", "buhd", "buhid", "cakm", "canadianaboriginal", "cans", "cari",
    "carian", "caucasianalbanian", "chakma", "cham", "cher", "cherokee", "chorasmian", "chrs",
    "common", "copt", "coptic", "cpmn", "cprt", "cuneiform", "cypriot", "cyprominoan", "cyrillic",
    "cyrl", "deseret", "deva", "devanagari", "diak", "divesakuru", "dogr", "dogra", "dsrt", "dupl",
    "duployan", "egyp", "egyptianhieroglyphs", "elba", "elbasan", "elym", "elymaic", "ethi",
    "ethiopic", "gara", "garay", "geor", "georgian", "glag", "glagolitic", "gong", "gonm", "goth",
    "gothic", "gran", "grantha", "greek", "grek", "gujarati", "gujr", "gukh", "gunjalagondi",
    "gurmukhi", "guru", "gurungkhema", "han", "hang", "hangul", "hani", "hanifirohingya", "hano",
    "hanunoo", "hatr", "hatran", "hebr", "hebrew", "hira", "hiragana", "hluw", "hmng", "hmnp",
    "hung", "imperialaramaic", "inherited", "inscriptionalpahlavi", "inscriptionalparthian", "ital",
    "java", "javanese", "kaithi", "kali", "kana", "kannada", "katakana", "kawi", "kayahli", "khar",
    "kharoshthi", "khitansmallscript", "khmer", "khmr", "khoj", "khojki", "khudawadi", "kiratrai",
    "kits", "knda", "krai", "kthi", "lana", "lao", "laoo", "latin", "latn", "lepc", "lepcha",
    "limb", "limbu", "lina", "linb", "lineara", "linearb", "lisu", "lyci", "lycian", "lydi",
    "lydian", "mahajani", "mahj", "maka", "makasar", "malayalam", "mand", "mandaic", "mani",
    "manichaean", "marc", "marchen", "masaramgondi", "medefaidrin", "medf", "meeteimayek", "mend",
    "mendekikakui", "merc", "mero", "meroiticcursive", "meroitichieroglyphs", "miao", "mlym",
    "modi", "mong", "mongolian", "mro", "mroo", "mtei", "mult", "multani", "myanmar", "mymr",
    "nabataean", "nagm", "nagmundari", "nand", "nandinagari", "narb", "nbat", "newa", "newtailue",
    "nko", "nkoo", "nshu", "nushu", "nyiakengpuachuehmong", "ogam", "ogham", "olchiki", "olck",
    "oldhungarian", "olditalic", "oldnortharabian", "oldpermic", "oldpersian", "oldsogdian",
    "oldsoutharabian", "oldturkic", "olduyghur", "olonal", "onao", "oriya", "orkh", "orya", "osage",
    "osge", "osma", "osmanya", "ougr", "pahawhhmong", "palm", "palmyrene", "pauc", "paucinhau",
    "perm", "phag", "phagspa", "phli", "phlp", "phnx", "phoenician", "plrd", "prti",
    "psalterpahlavi", "qaac", "qaai", "rejang", "rjng", "rohg", "runic", "runr", "samaritan",
    "samr", "sarb", "saur", "saurashtra", "sgnw", "sharada", "shavian", "shaw", "shrd", "sidd",
    "siddham", "signwriting", "sind", "sinh", "sinhala", "sogd", "sogdian", "sogo", "sora",
    "sorasompeng", "soyo", "soyombo", "sund", "sundanese", "sunu", "sunuwar", "sylo", "sylotinagri",
    "syrc", "syriac", "tagalog", "tagb", "tagbanwa", "taile", "taitham", "taiviet", "takr", "takri",
    "tale", "talu", "tamil", "taml", "tang", "tangsa", "tangut", "tavt", "telu", "telugu", "tfng",
    "tglg", "thaa", "thaana", "thai", "tibetan", "tibt", "tifinagh", "tirh", "tirhuta", "tnsa",
    "todhri", "todr", "toto", "tulutigalari", "tutg", "ugar", "ugaritic", "vai", "vaii", "vith",
    "vithkuqi", "wancho", "wara", "warangciti", "wcho", "xpeo", "xsux", "yezi", "yezidi", "yi",
    "yiii", "zanabazarsquare", "zanb", "zinh", "zyyy"]

/-- The versions of Unicode by which a character may have been known. -/
def ages : List String :=
  ["1.1", "2.0", "2.1", "3.0", "3.1", "3.2", "4.0", "4.1", "5.0", "5.1", "5.2", "6.0", "6.1", "6.2",
    "6.3", "7.0", "8.0", "9.0", "10.0", "11.0", "12.0", "12.1", "13.0", "14.0", "15.0", "15.1",
    "16.0", "v11", "v20", "v21", "v30", "v31", "v32", "v40", "v41", "v50", "v51", "v52", "v60",
    "v61", "v62", "v63", "v70", "v80", "v90", "v100", "v110", "v120", "v121", "v130", "v140",
    "v150", "v151", "v160"]

/-- The classes that decide where clusters of characters break. -/
def clusterBreaks : List String :=
  ["control", "cn", "cr", "extend", "ex", "l", "lf", "lv", "lvt", "prepend", "pp",
    "regionalindicator", "ri", "spacingmark", "sm", "t", "v", "zwj"]

/-- The classes that decide where words break. -/
def wordBreaks : List String :=
  ["aletter", "le", "cr", "doublequote", "dq", "extend", "extendnumlet", "ex", "format", "fo",
    "hebrewletter", "hl", "katakana", "ka", "lf", "midletter", "ml", "midnum", "mn", "midnumlet",
    "mb", "newline", "nl", "numeric", "nu", "regionalindicator", "ri", "singlequote", "sq",
    "wsegspace", "zwj"]

/-- The classes that decide where sentences break. -/
def sentenceBreaks : List String :=
  ["aterm", "at", "cr", "close", "cl", "extend", "ex", "format", "fo", "lf", "lower", "lo",
    "numeric", "nu", "oletter", "le", "scontinue", "sc", "sterm", "st", "sep", "se", "sp", "upper",
    "up"]

/-- The values of the properties that have more than two. -/
def valuesOf : List (String × List String) :=
  [("gc", categories), ("generalcategory", categories), ("sc", scripts), ("script", scripts),
    ("scx", scripts), ("scriptextensions", scripts), ("age", ages), ("gcb", clusterBreaks),
    ("graphemeclusterbreak", clusterBreaks), ("wb", wordBreaks), ("wordbreak", wordBreaks),
    ("sb", sentenceBreaks), ("sentencebreak", sentenceBreaks)]

/-- A text without a leading `is`. -/
def withoutIs : List Char → List Char
  | a :: b :: rest => if a.toLower = 'i' && b.toLower = 's' then rest else a :: b :: rest
  | text => text

/-- The loose form of a name.  The name `isc` keeps its `is`: it is the name of a
property of its own. -/
def looseName (name : List Char) : String :=
  let counts := fun (c : Char) => c.toNat < 0x80 && !(['_', ' ', '-'].contains c)
  let loose := ((withoutIs name).filter counts).map Char.toLower
  if loose = ['c'] && withoutIs name ≠ name then "isc" else String.ofList loose

/-- Whether a set of characters has this name. -/
def isSetName (name : List Char) : Bool :=
  let loose := looseName name
  binaryProperties.contains loose || categories.contains loose || scripts.contains loose

/-- Whether a property of this name has this value. -/
def isSetValue (name value : List Char) : Bool :=
  ((valuesOf.lookup (looseName name)).getD []).contains (looseName value)

/-- The parts of a text before and after the first `!=`. -/
def splitAtUnequal : List Char → Option (List Char × List Char)
  | '!' :: '=' :: rest => some ([], rest)
  | c :: rest => (splitAtUnequal rest).map fun (before, after) => (c :: before, after)
  | [] => none

/-- The parts of a text before and after the first of a character. -/
def splitAtFirst (c : Char) (text : List Char) : Option (List Char × List Char) :=
  match text.dropWhile (· ≠ c) with
  | [] => none
  | _ :: after => some (text.takeWhile (· ≠ c), after)

/-- Whether a text between braces refers to a set of characters: by a name, or by
a property and a value with `!=`, a colon or `=` between them. -/
def isSetReference (text : List Char) : Bool :=
  match (splitAtUnequal text).orElse fun _ =>
      (splitAtFirst ':' text).orElse fun _ => splitAtFirst '=' text with
  | some (name, value) => isSetValue name value
  | none => isSetName text

end DeviceSchema.Text.Pattern
