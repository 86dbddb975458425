import SmartHospital.Json.Reader

/-! The spellings of a value: what may stand between its tokens, the escapes of a string,
the shape of a number, and how deep a text is nested. -/
namespace SmartHospital.Json

/-- A block comment from behind its opening, up to the first end of it. -/
inductive Block : Bytes → Prop where
  | close : Block [star, slash]
  | skip (goesOn : ¬ (c = star ∧ d = slash)) (rest : Block (d :: text)) : Block (c :: d :: text)

/-- A line comment from behind its opening, up to the first end of the line in any fashion. -/
inductive Line : Bytes → Prop where
  | feed : Line [lineFeed]
  | return : Line [carriageReturn]
  | both : Line [carriageReturn, lineFeed]
  | skip (notFeed : c ≠ lineFeed) (notReturn : c ≠ carriageReturn) (rest : Line text) : Line (c :: text)

/-- Spaces and comments. -/
inductive Gap : Bytes → Prop where
  | nil : Gap []
  | space (blank : isSpace c = true) (rest : Gap text) : Gap (c :: text)
  | block (comment : Block body) (rest : Gap text) : Gap (slash :: star :: body ++ text)
  | line (comment : Line body) (rest : Gap text) : Gap (slash :: slash :: body ++ text)

def Spaces (text : Bytes) : Prop := ∀ c ∈ text, isSpace c = true

/-- The letter of an escape with what it stands for. -/
def escapes : List (UInt8 × UInt8) :=
  [(quote, quote), (backslash, backslash), (slash, slash), (98, 8), (102, 12), (110, 10), (114, 13), (116, 9)]

def HexDigit (c : UInt8) (digit : Nat) : Prop :=
  digit < 10 ∧ c.toNat = 48 + digit ∨ 10 ≤ digit ∧ digit < 16 ∧ (c.toNat = 87 + digit ∨ c.toNat = 55 + digit)

inductive Hex4 : Bytes → Nat → Prop where
  | digits (one : HexDigit a p) (two : HexDigit b q) (three : HexDigit c r) (four : HexDigit d s) :
    Hex4 [a, b, c, d] (((p * 16 + q) * 16 + r) * 16 + s)

/-- The bytes of a lone half of a surrogate pair, which are no UTF-8. -/
def halfBytes (half : Nat) : Bytes := [0xED, UInt8.ofNat (128 + half / 64 % 64), UInt8.ofNat (128 + half % 64)]

/-- A text with what may stand for it between two quotes: an escaped character is encoded
in UTF-8, outside the first plane it is a pair of escapes. Of the second one only the low
bits are looked at, and it may also stand alone. -/
inductive Quoted : Bytes → Bytes → Prop where
  | nil : Quoted [] []
  | plain (notQuote : c ≠ quote) (notBackslash : c ≠ backslash) (rest : Quoted text body) :
    Quoted (c :: text) (c :: body)
  | escape (known : (letter, c) ∈ escapes) (rest : Quoted text body) :
    Quoted (c :: text) (backslash :: letter :: body)
  | unicode {ch : Char} (basic : ch.toNat < 0x10000) (digits : Hex4 hex ch.toNat) (rest : Quoted text body) :
    Quoted (String.utf8EncodeChar ch ++ text) (backslash :: 117 :: hex ++ body)
  | pair {ch : Char} (extended : 0x10000 ≤ ch.toNat)
    (first : Hex4 high (0xD800 + (ch.toNat - 0x10000) / 0x400)) (second : Hex4 low half)
    (bits : half % 0x400 = (ch.toNat - 0x10000) % 0x400) (rest : Quoted text body) :
    Quoted (String.utf8EncodeChar ch ++ text)
      (backslash :: 117 :: (high ++ backslash :: 117 :: (low ++ body)))
  | half (least : 0xDC00 ≤ half) (most : half ≤ 0xDFFF) (digits : Hex4 hex half) (rest : Quoted text body) :
    Quoted (halfBytes half ++ text) (backslash :: 117 :: hex ++ body)

def Digits (text : Bytes) : Prop := ∀ c ∈ text, Decimal.isDigit c = true

inductive Fraction : Bytes → Prop where
  | none : Fraction []
  | some (digits : Digits text) : Fraction (dot :: text)

inductive Exponent : Bytes → Prop where
  | none : Exponent []
  | unsigned (letter : c = 101 ∨ c = 69) (digits : Digits text) : Exponent (c :: text)
  | signed (letter : c = 101 ∨ c = 69) (sign : s = plus ∨ s = minus) (digits : Digits text) : Exponent (c :: s :: text)

/-- The shape of a number: a sign or a digit comes first. -/
structure Numeral (text : Bytes) where
  sign : Bytes
  integral : Bytes
  fraction : Bytes
  exponent : Bytes
  whole : text = sign ++ integral ++ fraction ++ exponent
  oneSign : sign = [] ∨ sign = [plus] ∨ sign = [minus]
  digits : Digits integral
  nonempty : sign ≠ [] ∨ integral ≠ []
  fractional : Fraction fraction
  exponential : Exponent exponent

/-- What goes on with a number, or with a sign alone. -/
def continues (c : UInt8) : Bool :=
  c == 73 || Decimal.isDigit c || c == dot || c == 101 || c == 69 || c == plus || c == minus

/-- A number may stop in front of this. -/
def Stops (rest : Bytes) : Prop := ∀ c ∈ rest.head?, continues c = false

variable {floating : Floating}

/-- The members of an object in the order they are read; a later one replaces an earlier. -/
def assignAll (members later : Members floating) : Members floating :=
  later.foldl (fun members member => assign member.1 member.2 members) members

inductive Named : Bytes → Bytes → Prop where
  | name (front : Gap g) (quoted : Quoted text body) (short : text.length < 2 ^ 30) (spaces : Spaces s) :
    Named text (g ++ (quote :: body ++ quote :: (s ++ [colon])))

/-- A value, or what is left of an array or an object up to its end. -/
inductive Form (floating : Floating) where
  | value (v : Value floating)
  | elements (vs : List (Value floating))
  | members (ms : Members floating)

/-- A token of a type and a text, with what is left behind it. -/
structure Token.Is (token : Token) (kind : TokenType) (text rest : Bytes) : Prop where
  type : token.type = kind
  start : token.start = text ++ rest
  stop : token.stop = rest

/-- In front of this rest, the text is a token that may stand for a comma. -/
def Strays (text rest : Bytes) : Prop :=
  ∃ kind, kind ≠ .comment ∧ kind ≠ .objectEnd ∧ (readToken (text ++ rest)).Is kind text rest

/-- A text spells a form, nested so deep. Behind a comment, some texts stand for the comma
of an object. -/
inductive SpellsWith (stray : Bytes → Prop) : Form floating → (depth : Nat) → Bytes → Prop where
  | null : SpellsWith stray (.value .null) 1 (Bytes.ofString "null")
  | true : SpellsWith stray (.value (.boolean true)) 1 (Bytes.ofString "true")
  | false : SpellsWith stray (.value (.boolean false)) 1 (Bytes.ofString "false")
  | number (numeral : Numeral text) (decodes : decodeNumber text = .ok v) : SpellsWith stray (.value v) 1 text
  | string (quoted : Quoted text body) (stored : Value.ofString text = some v) :
    SpellsWith stray (.value v) 1 (quote :: body ++ [quote])
  | array (few : vs.length ≤ maxInt) (inside : SpellsWith stray (.elements vs) depth text) :
    SpellsWith stray (.value (.array vs)) (depth + 1) (openBracket :: text)
  | object (inside : SpellsWith stray (.members ms) depth text) :
    SpellsWith stray (.value (.object (assignAll [] ms))) (depth + 1) (openBrace :: text)
  | noElement (spaces : Spaces s) : SpellsWith stray (.elements []) 0 (s ++ [closeBracket])
  | lastElement (front : Gap g) (first : SpellsWith stray (.value v) depth t) (behind : Gap h) :
    SpellsWith stray (.elements [v]) depth (g ++ (t ++ (h ++ [closeBracket])))
  | element (front : Gap g) (first : SpellsWith stray (.value v) depth t) (behind : Gap h)
    (rest : SpellsWith stray (.elements vs) deeper text) :
    SpellsWith stray (.elements (v :: vs)) (max depth deeper) (g ++ (t ++ (h ++ comma :: text)))
  | noMember (front : Gap g) : SpellsWith stray (.members []) 0 (g ++ [closeBrace])
  | lastMember (named : Named name n) (front : Gap g) (first : SpellsWith stray (.value v) depth t) (behind : Gap h) :
    SpellsWith stray (.members [(name, v)]) depth (n ++ (g ++ (t ++ (h ++ [closeBrace]))))
  | member (named : Named name n) (front : Gap g) (first : SpellsWith stray (.value v) depth t) (behind : Gap h)
    (rest : SpellsWith stray (.members ms) deeper text) :
    SpellsWith stray (.members ((name, v) :: ms)) (max depth deeper) (n ++ (g ++ (t ++ (h ++ comma :: text))))
  | strayMember (named : Named name n) (front : Gap g) (first : SpellsWith stray (.value v) depth t) (behind : Gap h)
    (commented : ¬ Spaces h) (strays : stray k) (rest : SpellsWith stray (.members ms) deeper text) :
    SpellsWith stray (.members ((name, v) :: ms)) (max depth deeper) (n ++ (g ++ (t ++ (h ++ (k ++ text)))))

/-- Only what is a token in front of anything stands for a comma. -/
abbrev Spells : Form floating → (depth : Nat) → Bytes → Prop := SpellsWith fun text => ∀ rest, Strays text rest

def Value.isNumber : Value floating → Bool
  | .int _ => true
  | .uint _ => true
  | .real _ => true
  | _ => false

end SmartHospital.Json
