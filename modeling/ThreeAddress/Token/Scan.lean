import ThreeAddress.Token
import ThreeAddress.Text.Blank
import ThreeAddress.Text.Lines
import ThreeAddress.Text.Word

/-!
# Cutting text into tokens

Text is cut line by line, and no token crosses a line end. Within a line blanks separate tokens,
two slashes end the line, and everything else begins a token: `front` says of which kind and how
many further characters belong to it. A token that fits no class is invalid, and the rest of
its line is given up; the next line starts afresh.

`front` returns an extent and not a text, so that by construction a token's text and what
follows it together are the line.
-/

namespace ThreeAddress

open Text

/-- Whether `c` may stand in a name after its first character. -/
def isNameChar (c : Char) : Bool := isNameStart c || isDigit c

/-- The kind of a word: a keyword, a truth value or a name. -/
def wordKind (word : List Char) : TokenKind :=
  if word = ['t', 'r', 'u', 'e'] ∨ word = ['f', 'a', 'l', 's', 'e'] then .boolLit
  else (TokenKind.keywords.find? fun kind => kind.spelling? == some word).getD .ident

/-- A number after its first digit: more digits, and at most one point with digits after it. -/
def numberFront (rest : List Char) : TokenKind × Nat :=
  let whole := rest.takeWhile isDigit
  match rest.dropWhile isDigit with
  | '.' :: fraction => (.floatLit, whole.length + 1 + (fraction.takeWhile isDigit).length)
  | _ => (.intLit, whole.length)

/-- A string after its opening mark: up to the next mark, which must be on the line. There are
no escapes. -/
def stringFront (rest : List Char) : TokenKind × Nat :=
  let body := rest.takeWhile (· != '\x22')
  if body.length < rest.length then (.stringLit, body.length + 1) else (.invalid, rest.length)

/-- A character literal after its opening mark: a backslash and any character, or one character
that is neither mark nor backslash, and the closing mark. Anything else takes up the line. -/
def charFront (rest : List Char) : TokenKind × Nat :=
  match rest with
  | '\\' :: _ :: '\x27' :: _ => (.charLit, 3)
  | c :: '\x27' :: _ => if c == '\x27' || c == '\\' then (.invalid, rest.length) else (.charLit, 2)
  | _ => (.invalid, rest.length)

/-- The first operator whose spelling begins the text. -/
def operatorAt? (text : List Char) : Option TokenKind :=
  TokenKind.operators.find? fun kind => (kind.spelling?.getD []).isPrefixOf text

/-- An operator, a bracket or a separator; a character that is none of these is invalid on its
own. -/
def operatorFront (c : Char) (rest : List Char) : TokenKind × Nat :=
  match operatorAt? (c :: rest) with
  | some kind => (kind, (kind.spelling?.getD []).length - 1)
  | none => (.invalid, 0)

/-- The token that `c` begins: its kind, and how many characters of `rest` it takes. -/
def front (c : Char) (rest : List Char) : TokenKind × Nat :=
  if isNameStart c then
    (wordKind (c :: rest.takeWhile isNameChar), (rest.takeWhile isNameChar).length)
  else if isDigit c then numberFront rest
  else if c = '\x22' then stringFront rest
  else if c = '\x27' then charFront rest
  else operatorFront c rest

/-- The tokens of a line, where the first `skip` characters belong to a token already found. -/
def scanLine (line : Line) : Nat → List Char → List Token
  | _, [] => []
  | skip + 1, _ :: rest => scanLine line skip rest
  | 0, c :: rest =>
    if isBlank c then scanLine line 0 rest
    else if c = '/' ∧ rest.head? = some '/' then []
    else
      let found := front c rest
      let token : Token := ⟨found.1, String.ofList (c :: rest.take found.2), line⟩
      if found.1 = .invalid then [token] else token :: scanLine line found.2 rest

/-- The tokens of consecutive lines, the first of which has number `line`. -/
def scanLines (line : Line) : List (List Char) → List Token
  | [] => []
  | text :: texts => scanLine line 0 text ++ scanLines (line + 1) texts

/-- The token that closes every text. Its line is one more than the number of line feeds. -/
def endToken (source : List Char) : Token :=
  ⟨.endOfFile, "end of file", source.count '\n' + 1⟩

/-- The tokens of a text, closed by one end token. -/
def tokenize (source : String) : List Token :=
  scanLines 1 (splitLines source.toList) ++ [endToken source.toList]

/-- Characters that belong to a token already found are passed over. -/
theorem scanLine_eq_drop (line : Line) (skip : Nat) (text : List Char) :
    scanLine line skip text = scanLine line 0 (text.drop skip) := by
  induction text generalizing skip with
  | nil => cases skip <;> simp [scanLine]
  | cons c rest ih =>
    cases skip with
    | zero => rfl
    | succ skip => simpa [scanLine] using ih skip

end ThreeAddress
