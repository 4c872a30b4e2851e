/-!
# Names of characters

Characters of the first two blocks, punctuation marks and control characters can be given by their
names.  The case of the letters in a name does not matter.  Other characters have no names here.

## Main definitions

* `Text.charNamed?` — the character with a name.
-/

namespace Marginalia.Text

/-- The names from U+0020 to U+007E. -/
def namesFrom20 : List String := [
  "SPACE", "EXCLAMATION MARK", "QUOTATION MARK", "NUMBER SIGN", "DOLLAR SIGN", "PERCENT SIGN",
  "AMPERSAND", "APOSTROPHE", "LEFT PARENTHESIS", "RIGHT PARENTHESIS", "ASTERISK", "PLUS SIGN",
  "COMMA", "HYPHEN-MINUS", "FULL STOP", "SOLIDUS", "DIGIT ZERO", "DIGIT ONE", "DIGIT TWO",
  "DIGIT THREE", "DIGIT FOUR", "DIGIT FIVE", "DIGIT SIX", "DIGIT SEVEN", "DIGIT EIGHT",
  "DIGIT NINE", "COLON", "SEMICOLON", "LESS-THAN SIGN", "EQUALS SIGN", "GREATER-THAN SIGN",
  "QUESTION MARK", "COMMERCIAL AT", "LATIN CAPITAL LETTER A", "LATIN CAPITAL LETTER B",
  "LATIN CAPITAL LETTER C", "LATIN CAPITAL LETTER D", "LATIN CAPITAL LETTER E",
  "LATIN CAPITAL LETTER F", "LATIN CAPITAL LETTER G", "LATIN CAPITAL LETTER H",
  "LATIN CAPITAL LETTER I", "LATIN CAPITAL LETTER J", "LATIN CAPITAL LETTER K",
  "LATIN CAPITAL LETTER L", "LATIN CAPITAL LETTER M", "LATIN CAPITAL LETTER N",
  "LATIN CAPITAL LETTER O", "LATIN CAPITAL LETTER P", "LATIN CAPITAL LETTER Q",
  "LATIN CAPITAL LETTER R", "LATIN CAPITAL LETTER S", "LATIN CAPITAL LETTER T",
  "LATIN CAPITAL LETTER U", "LATIN CAPITAL LETTER V", "LATIN CAPITAL LETTER W",
  "LATIN CAPITAL LETTER X", "LATIN CAPITAL LETTER Y", "LATIN CAPITAL LETTER Z",
  "LEFT SQUARE BRACKET", "REVERSE SOLIDUS", "RIGHT SQUARE BRACKET", "CIRCUMFLEX ACCENT", "LOW LINE",
  "GRAVE ACCENT", "LATIN SMALL LETTER A", "LATIN SMALL LETTER B", "LATIN SMALL LETTER C",
  "LATIN SMALL LETTER D", "LATIN SMALL LETTER E", "LATIN SMALL LETTER F", "LATIN SMALL LETTER G",
  "LATIN SMALL LETTER H", "LATIN SMALL LETTER I", "LATIN SMALL LETTER J", "LATIN SMALL LETTER K",
  "LATIN SMALL LETTER L", "LATIN SMALL LETTER M", "LATIN SMALL LETTER N", "LATIN SMALL LETTER O",
  "LATIN SMALL LETTER P", "LATIN SMALL LETTER Q", "LATIN SMALL LETTER R", "LATIN SMALL LETTER S",
  "LATIN SMALL LETTER T", "LATIN SMALL LETTER U", "LATIN SMALL LETTER V", "LATIN SMALL LETTER W",
  "LATIN SMALL LETTER X", "LATIN SMALL LETTER Y", "LATIN SMALL LETTER Z", "LEFT CURLY BRACKET",
  "VERTICAL LINE", "RIGHT CURLY BRACKET", "TILDE"]

/-- The names from U+00A0 to U+00FF. -/
def namesFromA0 : List String := [
  "NO-BREAK SPACE", "INVERTED EXCLAMATION MARK", "CENT SIGN", "POUND SIGN", "CURRENCY SIGN",
  "YEN SIGN", "BROKEN BAR", "SECTION SIGN", "DIAERESIS", "COPYRIGHT SIGN",
  "FEMININE ORDINAL INDICATOR", "LEFT-POINTING DOUBLE ANGLE QUOTATION MARK", "NOT SIGN",
  "SOFT HYPHEN", "REGISTERED SIGN", "MACRON", "DEGREE SIGN", "PLUS-MINUS SIGN", "SUPERSCRIPT TWO",
  "SUPERSCRIPT THREE", "ACUTE ACCENT", "MICRO SIGN", "PILCROW SIGN", "MIDDLE DOT", "CEDILLA",
  "SUPERSCRIPT ONE", "MASCULINE ORDINAL INDICATOR", "RIGHT-POINTING DOUBLE ANGLE QUOTATION MARK",
  "VULGAR FRACTION ONE QUARTER", "VULGAR FRACTION ONE HALF", "VULGAR FRACTION THREE QUARTERS",
  "INVERTED QUESTION MARK", "LATIN CAPITAL LETTER A WITH GRAVE",
  "LATIN CAPITAL LETTER A WITH ACUTE", "LATIN CAPITAL LETTER A WITH CIRCUMFLEX",
  "LATIN CAPITAL LETTER A WITH TILDE", "LATIN CAPITAL LETTER A WITH DIAERESIS",
  "LATIN CAPITAL LETTER A WITH RING ABOVE", "LATIN CAPITAL LETTER AE",
  "LATIN CAPITAL LETTER C WITH CEDILLA", "LATIN CAPITAL LETTER E WITH GRAVE",
  "LATIN CAPITAL LETTER E WITH ACUTE", "LATIN CAPITAL LETTER E WITH CIRCUMFLEX",
  "LATIN CAPITAL LETTER E WITH DIAERESIS", "LATIN CAPITAL LETTER I WITH GRAVE",
  "LATIN CAPITAL LETTER I WITH ACUTE", "LATIN CAPITAL LETTER I WITH CIRCUMFLEX",
  "LATIN CAPITAL LETTER I WITH DIAERESIS", "LATIN CAPITAL LETTER ETH",
  "LATIN CAPITAL LETTER N WITH TILDE", "LATIN CAPITAL LETTER O WITH GRAVE",
  "LATIN CAPITAL LETTER O WITH ACUTE", "LATIN CAPITAL LETTER O WITH CIRCUMFLEX",
  "LATIN CAPITAL LETTER O WITH TILDE", "LATIN CAPITAL LETTER O WITH DIAERESIS",
  "MULTIPLICATION SIGN", "LATIN CAPITAL LETTER O WITH STROKE", "LATIN CAPITAL LETTER U WITH GRAVE",
  "LATIN CAPITAL LETTER U WITH ACUTE", "LATIN CAPITAL LETTER U WITH CIRCUMFLEX",
  "LATIN CAPITAL LETTER U WITH DIAERESIS", "LATIN CAPITAL LETTER Y WITH ACUTE",
  "LATIN CAPITAL LETTER THORN", "LATIN SMALL LETTER SHARP S", "LATIN SMALL LETTER A WITH GRAVE",
  "LATIN SMALL LETTER A WITH ACUTE", "LATIN SMALL LETTER A WITH CIRCUMFLEX",
  "LATIN SMALL LETTER A WITH TILDE", "LATIN SMALL LETTER A WITH DIAERESIS",
  "LATIN SMALL LETTER A WITH RING ABOVE", "LATIN SMALL LETTER AE",
  "LATIN SMALL LETTER C WITH CEDILLA", "LATIN SMALL LETTER E WITH GRAVE",
  "LATIN SMALL LETTER E WITH ACUTE", "LATIN SMALL LETTER E WITH CIRCUMFLEX",
  "LATIN SMALL LETTER E WITH DIAERESIS", "LATIN SMALL LETTER I WITH GRAVE",
  "LATIN SMALL LETTER I WITH ACUTE", "LATIN SMALL LETTER I WITH CIRCUMFLEX",
  "LATIN SMALL LETTER I WITH DIAERESIS", "LATIN SMALL LETTER ETH",
  "LATIN SMALL LETTER N WITH TILDE", "LATIN SMALL LETTER O WITH GRAVE",
  "LATIN SMALL LETTER O WITH ACUTE", "LATIN SMALL LETTER O WITH CIRCUMFLEX",
  "LATIN SMALL LETTER O WITH TILDE", "LATIN SMALL LETTER O WITH DIAERESIS", "DIVISION SIGN",
  "LATIN SMALL LETTER O WITH STROKE", "LATIN SMALL LETTER U WITH GRAVE",
  "LATIN SMALL LETTER U WITH ACUTE", "LATIN SMALL LETTER U WITH CIRCUMFLEX",
  "LATIN SMALL LETTER U WITH DIAERESIS", "LATIN SMALL LETTER Y WITH ACUTE",
  "LATIN SMALL LETTER THORN", "LATIN SMALL LETTER Y WITH DIAERESIS"]

/-- The names from U+2010 to U+2027. -/
def namesFrom2010 : List String := [
  "HYPHEN", "NON-BREAKING HYPHEN", "FIGURE DASH", "EN DASH", "EM DASH", "HORIZONTAL BAR",
  "DOUBLE VERTICAL LINE", "DOUBLE LOW LINE", "LEFT SINGLE QUOTATION MARK",
  "RIGHT SINGLE QUOTATION MARK", "SINGLE LOW-9 QUOTATION MARK",
  "SINGLE HIGH-REVERSED-9 QUOTATION MARK", "LEFT DOUBLE QUOTATION MARK",
  "RIGHT DOUBLE QUOTATION MARK", "DOUBLE LOW-9 QUOTATION MARK",
  "DOUBLE HIGH-REVERSED-9 QUOTATION MARK", "DAGGER", "DOUBLE DAGGER", "BULLET", "TRIANGULAR BULLET",
  "ONE DOT LEADER", "TWO DOT LEADER", "HORIZONTAL ELLIPSIS", "HYPHENATION POINT"]

/-- The names from U+2030 to U+205E. -/
def namesFrom2030 : List String := [
  "PER MILLE SIGN", "PER TEN THOUSAND SIGN", "PRIME", "DOUBLE PRIME", "TRIPLE PRIME",
  "REVERSED PRIME", "REVERSED DOUBLE PRIME", "REVERSED TRIPLE PRIME", "CARET",
  "SINGLE LEFT-POINTING ANGLE QUOTATION MARK", "SINGLE RIGHT-POINTING ANGLE QUOTATION MARK",
  "REFERENCE MARK", "DOUBLE EXCLAMATION MARK", "INTERROBANG", "OVERLINE", "UNDERTIE",
  "CHARACTER TIE", "CARET INSERTION POINT", "ASTERISM", "HYPHEN BULLET", "FRACTION SLASH",
  "LEFT SQUARE BRACKET WITH QUILL", "RIGHT SQUARE BRACKET WITH QUILL", "DOUBLE QUESTION MARK",
  "QUESTION EXCLAMATION MARK", "EXCLAMATION QUESTION MARK", "TIRONIAN SIGN ET",
  "REVERSED PILCROW SIGN", "BLACK LEFTWARDS BULLET", "BLACK RIGHTWARDS BULLET", "LOW ASTERISK",
  "REVERSED SEMICOLON", "CLOSE UP", "TWO ASTERISKS ALIGNED VERTICALLY", "COMMERCIAL MINUS SIGN",
  "SWUNG DASH", "INVERTED UNDERTIE", "FLOWER PUNCTUATION MARK", "THREE DOT PUNCTUATION",
  "QUADRUPLE PRIME", "FOUR DOT PUNCTUATION", "FIVE DOT PUNCTUATION", "TWO DOT PUNCTUATION",
  "FOUR DOT MARK", "DOTTED CROSS", "TRICOLON", "VERTICAL FOUR DOTS"]

/-- Names of control characters, and further names of others, with their code points. -/
def furtherNames : List (String × Nat) := [
  ("NULL", 0x0), ("NUL", 0x0), ("START OF HEADING", 0x1), ("SOH", 0x1), ("START OF TEXT", 0x2),
  ("STX", 0x2), ("END OF TEXT", 0x3), ("ETX", 0x3), ("END OF TRANSMISSION", 0x4), ("EOT", 0x4),
  ("ENQUIRY", 0x5), ("ENQ", 0x5), ("ACKNOWLEDGE", 0x6), ("ACK", 0x6), ("ALERT", 0x7), ("BEL", 0x7),
  ("BACKSPACE", 0x8), ("BS", 0x8), ("CHARACTER TABULATION", 0x9), ("HORIZONTAL TABULATION", 0x9),
  ("HT", 0x9), ("TAB", 0x9), ("LINE FEED", 0xa), ("NEW LINE", 0xa), ("END OF LINE", 0xa),
  ("LF", 0xa), ("NL", 0xa), ("EOL", 0xa), ("LINE TABULATION", 0xb), ("VERTICAL TABULATION", 0xb),
  ("VT", 0xb), ("FORM FEED", 0xc), ("FF", 0xc), ("CARRIAGE RETURN", 0xd), ("CR", 0xd),
  ("SHIFT OUT", 0xe), ("LOCKING-SHIFT ONE", 0xe), ("SO", 0xe), ("SHIFT IN", 0xf),
  ("LOCKING-SHIFT ZERO", 0xf), ("SI", 0xf), ("DATA LINK ESCAPE", 0x10), ("DLE", 0x10),
  ("DEVICE CONTROL ONE", 0x11), ("DC1", 0x11), ("DEVICE CONTROL TWO", 0x12), ("DC2", 0x12),
  ("DEVICE CONTROL THREE", 0x13), ("DC3", 0x13), ("DEVICE CONTROL FOUR", 0x14), ("DC4", 0x14),
  ("NEGATIVE ACKNOWLEDGE", 0x15), ("NAK", 0x15), ("SYNCHRONOUS IDLE", 0x16), ("SYN", 0x16),
  ("END OF TRANSMISSION BLOCK", 0x17), ("ETB", 0x17), ("CANCEL", 0x18), ("CAN", 0x18),
  ("END OF MEDIUM", 0x19), ("EOM", 0x19), ("SUBSTITUTE", 0x1a), ("SUB", 0x1a), ("ESCAPE", 0x1b),
  ("ESC", 0x1b), ("INFORMATION SEPARATOR FOUR", 0x1c), ("FILE SEPARATOR", 0x1c), ("FS", 0x1c),
  ("INFORMATION SEPARATOR THREE", 0x1d), ("GROUP SEPARATOR", 0x1d), ("GS", 0x1d),
  ("INFORMATION SEPARATOR TWO", 0x1e), ("RECORD SEPARATOR", 0x1e), ("RS", 0x1e),
  ("INFORMATION SEPARATOR ONE", 0x1f), ("UNIT SEPARATOR", 0x1f), ("US", 0x1f), ("SP", 0x20),
  ("DELETE", 0x7f), ("DEL", 0x7f), ("NEXT LINE", 0x85), ("NEL", 0x85), ("NBSP", 0xa0),
  ("SHY", 0xad), ("ZWSP", 0x200b), ("ZERO WIDTH SPACE", 0x200b), ("ZWNJ", 0x200c),
  ("ZERO WIDTH NON-JOINER", 0x200c), ("ZWJ", 0x200d), ("ZERO WIDTH JOINER", 0x200d),
  ("LRM", 0x200e), ("LEFT-TO-RIGHT MARK", 0x200e), ("RLM", 0x200f), ("RIGHT-TO-LEFT MARK", 0x200f),
  ("LINE SEPARATOR", 0x2028), ("PARAGRAPH SEPARATOR", 0x2029), ("NNBSP", 0x202f),
  ("NARROW NO-BREAK SPACE", 0x202f), ("ZERO WIDTH NO-BREAK SPACE", 0xfeff),
  ("BYTE ORDER MARK", 0xfeff), ("BOM", 0xfeff), ("ZWNBSP", 0xfeff),
  ("REPLACEMENT CHARACTER", 0xfffd)]

/-- The lists of names, each with the code point of its first name. -/
def nameBlocks : List (Nat × List String) :=
  [(0x20, namesFrom20), (0xa0, namesFromA0), (0x2010, namesFrom2010), (0x2030, namesFrom2030)]

/-- The code point with a name, which is in capital letters. -/
def codeNamed? (name : String) : Option Nat :=
  match furtherNames.lookup name with
  | some n => some n
  | none => nameBlocks.findSome? fun (start, names) => (names.idxOf? name).map (start + ·)

/-- The character with a name. -/
def charNamed? (name : List Char) : Option Char :=
  (codeNamed? (String.ofList (name.map Char.toUpper))).map Char.ofNat

end Marginalia.Text
