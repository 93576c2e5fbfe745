/-
  Lexemes: the classes of text that form one token each, and what a lexeme of a class denotes.

  * `LexemeClass.span` is the length of the longest beginning of a text that belongs to a class.
  * `LexemeClass.read` is the token of a lexeme, nothing for blanks, or the fault in it.
  * `LexemeClass.all` lists the classes; where two are equally long the earlier one counts, so that
    a reserved word is no name.
  * `longest?` is the longest lexeme at the beginning of a text.
-/
import BasicScript.ParseError
import BasicScript.Number.Checked
import BasicScript.Text.Blank

namespace BasicScript

/-! ## Letters -/

/-- Whether a character is a small ASCII letter up to case.  By the simple case folding of Unicode
the long s is an `s` and the Kelvin sign a `k`. -/
def sameLetter (small c : Char) : Bool :=
  c.toLower == small || (small == 's' && c == '\u017f') || (small == 'k' && c == '\u212a')

/-- Whether a text begins with a word up to case. -/
def beginsWith : List Char → List Char → Bool
  | [], _ => true
  | _ :: _, [] => false
  | small :: word, c :: cs => sameLetter small c && beginsWith word cs

/-- The number of characters that a text and a word have in common up to case. -/
def commonLength : List Char → List Char → Nat
  | small :: word, c :: cs => if sameLetter small c then commonLength word cs + 1 else 0
  | _, _ => 0

/-- The characters that begin a name. -/
def isNameStart (c : Char) : Bool := c.isAlpha || c == '_'

/-- The characters inside a name. -/
def isNamePart (c : Char) : Bool := c.isAlphanum || c == '_'

/-- The blanks between tokens: space, tab, form feed and carriage return. -/
def isGap (c : Char) : Bool := c == ' ' || c == '\t' || c == '\x0c' || c == '\r'

/-- The characters that may end a line. -/
def isLineEnd (c : Char) : Bool := c == '\n' || c == '\r'

/-! ## Spans -/

/-- The length of a run of digits, if there is one. -/
def digitSpan (cs : List Char) : Option Nat :=
  let n := (cs.takeWhile Char.isDigit).length
  if n = 0 then none else some n

/-- The length of an exponent: `e`, an optional sign, digits. -/
def exponentSpan : List Char → Option Nat
  | e :: cs =>
    if e = 'e' ∨ e = 'E' then
      match cs with
      | sign :: ds =>
        if sign = '+' ∨ sign = '-' then (digitSpan ds).map (· + 2)
        else (digitSpan cs).map (· + 1)
      | [] => none
    else none
  | [] => none

/-- The length of a real numeral: digits around a point with an optional exponent, the digits before
the point being optional, or digits with an exponent. -/
def realSpan (cs : List Char) : Option Nat :=
  let whole := (cs.takeWhile Char.isDigit).length
  let rest := cs.drop whole
  match rest with
  | '.' :: ds =>
    (digitSpan ds).map fun fraction =>
      whole + 1 + fraction + (exponentSpan (ds.drop fraction)).getD 0
  | _ => if whole = 0 then none else (exponentSpan rest).map (whole + ·)

/-- The length of a quoted text up to and with its closing quote.  A backslash takes any following
character but a line feed; a line ends the text only by closing it. -/
def closingSpan (quote : Char) : List Char → Option Nat
  | [] => none
  | [c] => if c = quote then some 1 else none
  | c :: d :: cs =>
    if c = quote then some 1
    else if c = '\\' then (if d = '\n' then none else (closingSpan quote cs).map (· + 2))
    else if isLineEnd c then none
    else (closingSpan quote (d :: cs)).map (· + 1)

/-- The length of the remark after the word `REM`: a blank and the rest of the line, or nothing. -/
def remarkSpan : List Char → Nat
  | c :: cs =>
    if c = ' ' ∨ c = '\t' then (cs.takeWhile fun d => !isLineEnd d).length + 1 else 0
  | [] => 0

/-! ## Classes -/

/-- The classes of lexemes.  A word is spelt in small letters and matches up to case. -/
inductive LexemeClass where
  | word (letters : String) (token : Token)
  | truth (letters : String) (value : Bool)
  | sign (spelling : String) (token : Token)
  | remark
  | name
  | integer
  | real
  | text (quote : Char)
  | gap
  deriving DecidableEq

/-- What a lexeme denotes: a token, nothing, or a fault. -/
inductive Reading where
  | token (token : Token)
  | nothing
  | fault (fault : ParseFault)

/-- The content of a quoted text: `\n`, `\t`, `\\`, `\"` and `\'` stand for one character, any other
escape for itself. -/
def unescape : List Char → List Char
  | [] => []
  | [c] => [c]
  | c :: d :: cs =>
    if c = '\\' then
      if d = 'n' then '\n' :: unescape cs
      else if d = 't' then '\t' :: unescape cs
      else if d = '\\' ∨ d = '"' ∨ d = '\'' then d :: unescape cs
      else c :: d :: unescape cs
    else c :: unescape (d :: cs)

namespace LexemeClass

/-- The length of the longest beginning of a text that belongs to the class. -/
def span : LexemeClass → List Char → Option Nat
  | word letters _, cs | truth letters _, cs =>
    if beginsWith letters.toList cs then some letters.length else none
  | sign spelling _, cs => if spelling.toList.isPrefixOf cs then some spelling.length else none
  | remark, cs =>
    if beginsWith ['r', 'e', 'm'] cs then some (3 + remarkSpan (cs.drop 3)) else none
  | name, cs =>
    match cs with
    | c :: rest => if isNameStart c then some ((rest.takeWhile isNamePart).length + 1) else none
    | [] => none
  | integer, cs => digitSpan cs
  | real, cs => realSpan cs
  | text quote, cs =>
    match cs with
    | c :: rest => if c = quote then (closingSpan quote rest).map (· + 1) else none
    | [] => none
  | gap, cs =>
    let n := (cs.takeWhile isGap).length
    if n = 0 then none else some n

/-- What a lexeme of the class denotes.  A truth value has to be spelt in ASCII letters. -/
def read : LexemeClass → List Char → Reading
  | word _ token, _ | sign _ token, _ => .token token
  | truth letters value, cs =>
    if cs.map Char.toLower = letters.toList then .token (.bool value)
    else .fault (.invalidCharacter (String.ofList cs))
  | remark, cs => .token (.remark (String.ofList (trim (cs.drop 3))))
  | name, cs => .token (.name (String.ofList (cs.map Char.toUpper)))
  | integer, cs =>
    match checked (ofDigits cs) with
    | some n => .token (.integer n)
    | none => .fault .literalTooLarge
  | real, cs =>
    match Decimal.read? cs with
    | some d => .token (.real (d.toBinary64 false))
    | none => .fault .literalTooLarge
  | text _, cs => .token (.text (String.ofList (unescape (cs.drop 1).dropLast)))
  | gap, _ => .nothing

/-- The classes of the reserved words. -/
def words : List LexemeClass :=
  [word "let" (.keyword .let_), word "dim" (.keyword .dim), word "print" (.keyword .print),
    word "if" (.keyword .if_), word "then" (.keyword .then_), word "else" (.keyword .else_),
    word "endif" (.keyword .endIf), word "for" (.keyword .for_), word "to" (.keyword .to_),
    word "step" (.keyword .step), word "next" (.keyword .next_), word "while" (.keyword .while_),
    word "wend" (.keyword .wend), word "sub" (.keyword .sub), word "endsub" (.keyword .endSub),
    word "return" (.keyword .return_), word "call" (.keyword .call),
    word "command" (.keyword .command), word "abort" (.keyword .abort),
    word "and" (.keyword .and_), word "or" (.keyword .or_), word "xor" (.keyword .xor),
    word "not" (.keyword .not_), truth "true" true, truth "false" false]

/-- The classes of the signs. -/
def signs : List LexemeClass :=
  [sign "&&" (.keyword .and_), sign "||" (.keyword .or_), sign "!" (.keyword .not_),
    sign "->" (.symbol .arrow), sign "+" (.symbol .plus), sign "-" (.symbol .minus),
    sign "*" (.symbol .star), sign "/" (.symbol .slash), sign "%" (.symbol .percent),
    sign "(" (.symbol .leftParen), sign ")" (.symbol .rightParen),
    sign "[" (.symbol .leftBracket), sign "]" (.symbol .rightBracket),
    sign "," (.symbol .comma), sign ":" (.symbol .colon), sign "=" (.symbol .equals),
    sign "==" (.symbol .equalEqual), sign "!=" (.symbol .bangEqual),
    sign "<>" (.symbol .bangEqual), sign "<=" (.symbol .lessEqual),
    sign ">=" (.symbol .greaterEqual), sign "<" (.symbol .less), sign ">" (.symbol .greater),
    sign "\n" (.symbol .newLine)]

/-- All classes, those that win a tie first. -/
def all : List LexemeClass :=
  words ++ signs ++ [remark, name, integer, real, text '"', text '\'', gap]

end LexemeClass

/-! ## Longest match -/

/-- A class and the length of its lexeme at the beginning of a text. -/
structure Match where
  lexemeClass : LexemeClass
  length : Nat

/-- The longer of the best match so far and the match of one more class; a tie keeps the former. -/
def Match.better (cs : List Char) (best : Option Match) (c : LexemeClass) : Option Match :=
  match c.span cs, best with
  | none, _ => best
  | some n, none => some ⟨c, n⟩
  | some n, some m => if m.length < n then some ⟨c, n⟩ else best

/-- The longest lexeme at the beginning of a text. -/
def longest? (cs : List Char) : Option Match := LexemeClass.all.foldl (Match.better cs) none

/-- The length of the text that cannot be continued to a lexeme: what it has in common with a
reserved word, and at least one character. -/
def strayLength (cs : List Char) : Nat :=
  LexemeClass.words.foldl (fun n c => match c with
    | .word letters _ | .truth letters _ => max n (commonLength letters.toList cs)
    | _ => n) 1

/-- The fault of a text that begins with no lexeme. -/
def strayFault (cs : List Char) : ParseFault :=
  match cs with
  | c :: _ =>
    if c = '"' ∨ c = '\'' then .unterminatedString
    else .invalidCharacter (String.ofList (cs.take (strayLength cs)))
  | [] => .unexpectedEnd

end BasicScript
