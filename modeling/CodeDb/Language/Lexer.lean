import CodeDb.Lib.Except
import CodeDb.Store.Objects

/-!
# The lexer

Source text is cut into tokens one after the other: a step looks at a character and the one
after it and takes a whole token, so it leaves less text than there was.

The digest of a token stream folds the kind and the text of every token.

## Main definitions

* `Token` — tokens
* `lex` — the tokens of a source text
* `tokenProbe` — the line that sums them up

## Main results

* `Lexer.lexFrom_nil`, `Lexer.lexFrom_cons` — the tokens are taken step by step
-/

namespace CodeDb

inductive Token where
  | ident (value : List Char)
  | number (value : List Char)
  | string (value : List Char)
  | byteString (value : List UInt8)
  | comment (value : List Char)
  | symbol (value : List Char)
  | eof
  deriving DecidableEq

namespace Lexer

/-! ### Characters -/

/-- The characters that Unicode calls white space. -/
def isWhitespace (c : Char) : Bool :=
  let n := c.toNat
  9 ≤ n && n ≤ 13 || n == 0x20 || n == 0x85 || n == 0xa0 || n == 0x1680 ||
    0x2000 ≤ n && n ≤ 0x200a || n == 0x2028 || n == 0x2029 || n == 0x202f || n == 0x205f ||
    n == 0x3000

/-- What an identifier starts with. -/
def startsIdent (c : Char) : Bool := c.isAlpha || c == '_'

/-- What an identifier goes on with. -/
def continuesIdent (c : Char) : Bool := c.isAlphanum || c == '_'

def isAsciiHexdigit (c : Char) : Bool :=
  c.isDigit || 'a' ≤ c && c ≤ 'f' || 'A' ≤ c && c ≤ 'F'

/-- A character as it is shown in messages. Characters beyond ASCII all count as printable. -/
def showChar (c : Char) : String :=
  let body :=
    if c = '\x00' then "\\0"
    else if c = '\t' then "\\t"
    else if c = '\r' then "\\r"
    else if c = '\n' then "\\n"
    else if c.toNat = 39 then "\\'"
    else if c = '\\' then "\\\\"
    else if c.toNat < 32 || c.toNat = 127 then
      "\\u\x7b" ++ String.ofList (Nat.toDigits 16 c.toNat) ++ "\x7d"
    else c.toString
  "'" ++ body ++ "'"

/-- The value of a hexadecimal digit. -/
def projectionHexValue (c : Char) : Except Error UInt8 :=
  if '0' ≤ c && c ≤ '9' then .ok (UInt8.ofNat (c.toNat - '0'.toNat))
  else if 'a' ≤ c && c ≤ 'f' then .ok (UInt8.ofNat (c.toNat - 'a'.toNat + 10))
  else if 'A' ≤ c && c ≤ 'F' then .ok (UInt8.ofNat (c.toNat - 'A'.toNat + 10))
  else .error ("invalid hex digit " ++ showChar c)

/-- The symbols of two characters. -/
def twoCharSymbols : List (Char × Char) :=
  [('-', '>'), ('=', '='), ('!', '='), ('<', '='), ('>', '='), ('&', '&'), ('|', '|'), (':', ':'),
    ('=', '>'), ('.', '.')]

/-! ### Literals -/

/-- The rest of a string literal, after what there is of its value. -/
def lexString (value : List Char) : List Char → Except Error (List Char × List Char)
  | [] => .error "unterminated string literal"
  | c :: rest =>
    if c = '"' then .ok (value, rest)
    else match c == '\\', rest with
      | true, escaped :: rest =>
        if escaped = '"' || escaped = '\\' then lexString (value ++ [escaped]) rest
        else if escaped = 'n' then lexString (value ++ ['\n']) rest
        else if escaped = 't' then lexString (value ++ ['\t']) rest
        else .error ("unsupported string escape \\" ++ escaped.toString)
      | _, rest => lexString (value ++ [c]) rest

/-- The rest of a byte string literal, after what there is of its value. -/
def lexByteString (value : List UInt8) : List Char → Except Error (List UInt8 × List Char)
  | [] => .error "unterminated byte string literal"
  | c :: rest =>
    if c = '"' then .ok (value, rest)
    else match c == '\\', rest with
      | true, escaped :: rest =>
        if escaped = '"' then lexByteString (value ++ [0x22]) rest
        else if escaped = '\\' then lexByteString (value ++ [0x5c]) rest
        else if escaped = 'n' then lexByteString (value ++ [0x0a]) rest
        else if escaped = 't' then lexByteString (value ++ [0x09]) rest
        else if escaped = '0' then lexByteString (value ++ [0]) rest
        else match escaped == 'x', rest with
          | true, hi :: lo :: rest => do
            let high ← projectionHexValue hi
            let low ← projectionHexValue lo
            lexByteString (value ++ [high <<< 4 ||| low]) rest
          | true, _ => .error "byte escape \\x requires two hex digits"
          | false, _ => .error ("unsupported byte escape \\" ++ escaped.toString)
      | _, rest =>
        if c.toNat < 128 then lexByteString (value ++ [UInt8.ofNat c.toNat]) rest
        else .error ("byte string contains non-ascii character " ++ showChar c ++
          "; use \\xNN escapes")

/-! ### Tokens -/

/-- Take a token, or skip white space. -/
def lexStep (c : Char) (rest : List Char) : Except Error (Option Token × List Char) :=
  if isWhitespace c then .ok (none, rest)
  else if c = 'b' ∧ rest.head? = some '"' then do
    let (bytes, rest) ← lexByteString [] rest.tail
    return (some (.byteString bytes), rest)
  else if startsIdent c then
    .ok (some (.ident (c :: rest.takeWhile continuesIdent)), rest.dropWhile continuesIdent)
  else if c.isDigit then
    match rest with
    | x :: digits =>
      if c = '0' ∧ (x = 'x' ∨ x = 'X') then
        .ok (some (.number (c :: x :: digits.takeWhile isAsciiHexdigit)),
          digits.dropWhile isAsciiHexdigit)
      else .ok (some (.number (c :: rest.takeWhile Char.isDigit)), rest.dropWhile Char.isDigit)
    | [] => .ok (some (.number [c]), [])
  else if c = '"' then do
    let (value, rest) ← lexString [] rest
    return (some (.string value), rest)
  else match rest with
    | d :: rest' =>
      if c = '/' ∧ d = '/' then
        .ok (some (.comment (rest'.takeWhile (· != '\n'))), rest'.dropWhile (· != '\n'))
      else if (c, d) ∈ twoCharSymbols then .ok (some (.symbol [c, d]), rest')
      else .ok (some (.symbol [c]), rest)
    | [] => .ok (some (.symbol [c]), [])

/-- A string literal takes its text. -/
theorem lexString_length {value result : List Char} {chars rest : List Char}
    (lexed : lexString value chars = .ok (result, rest)) : rest.length < chars.length := by
  fun_induction lexString value chars
  all_goals grind

/-- A byte string literal takes its text. -/
theorem lexByteString_length {value result : List UInt8} {chars rest : List Char}
    (lexed : lexByteString value chars = .ok (result, rest)) : rest.length < chars.length := by
  fun_induction lexByteString value chars
  case case8 ih =>
    obtain ⟨high, -, lexed⟩ := Except.bind_eq_ok.mp lexed
    obtain ⟨low, -, lexed⟩ := Except.bind_eq_ok.mp lexed
    have shorter := ih high low lexed
    simp only [List.length_cons]
    omega
  all_goals grind

/-- A step leaves no more text than there was. -/
theorem lexStep_length {c : Char} {rest rest' : List Char} {token : Option Token}
    (step : lexStep c rest = .ok (token, rest')) : rest'.length ≤ rest.length := by
  have dropped (p : Char → Bool) (l : List Char) : (l.dropWhile p).length ≤ l.length :=
    (List.dropWhile_sublist p).length_le
  rw [lexStep.eq_def] at step
  -- one case for each kind of token, in the order in which they are tried
  split at step
  · cases step
    exact Nat.le_refl _
  split at step
  · obtain ⟨⟨bytes, left⟩, lexed, taken⟩ := Except.bind_eq_ok.mp step
    cases taken
    have shorter := lexByteString_length lexed
    rw [List.length_tail] at shorter
    omega
  split at step
  · cases step
    exact dropped _ _
  split at step
  · split at step
    · split at step
      · cases step
        exact Nat.le_succ_of_le (dropped _ _)
      · cases step
        exact dropped _ _
    · cases step
      exact Nat.le_refl _
  split at step
  · obtain ⟨⟨value, left⟩, lexed, taken⟩ := Except.bind_eq_ok.mp step
    cases taken
    exact Nat.le_of_lt (lexString_length lexed)
  split at step
  · split at step
    · cases step
      exact Nat.le_succ_of_le (dropped _ _)
    · split at step
      · cases step
        exact Nat.le_succ _
      · cases step
        exact Nat.le_refl _
  · cases step
    exact Nat.le_refl _

/-- The tokens of the rest of a text, after those there are. -/
def lexFrom (tokens : List Token) : List Char → Except Error (List Token)
  | [] => .ok (tokens ++ [.eof])
  | c :: rest =>
    match _step : lexStep c rest with
    | .error message => .error message
    | .ok (token, rest') => lexFrom (tokens ++ token.toList) rest'
termination_by chars => chars.length
decreasing_by exact Nat.lt_succ_of_le (lexStep_length _step)

theorem lexFrom_nil (tokens : List Token) : lexFrom tokens [] = .ok (tokens ++ [.eof]) := by
  rw [lexFrom]

/-- The token of a step comes before those of what it leaves. -/
theorem lexFrom_cons {c : Char} {rest rest' : List Char} {token : Option Token}
    (step : lexStep c rest = .ok (token, rest')) (tokens : List Token) :
    lexFrom tokens (c :: rest) = lexFrom (tokens ++ token.toList) rest' := by
  rw [lexFrom]
  split
  case h_1 failed =>
    rw [step] at failed
    cases failed
  case h_2 taken =>
    rw [step] at taken
    cases taken
    rfl

/-! ### Text beyond ASCII -/

/-- What a step takes is ASCII, unless it is a literal or a comment. -/
def asciiStep (c : Char) : Option Token → Prop
  | none => c.toNat < 128
  | some (.ident value) | some (.number value) | some (.symbol value) => ∀ d ∈ value, d.toNat < 128
  | some (.string _) | some (.byteString _) | some (.comment _) | some .eof => True

/-- A text that is ASCII outside literals and comments. -/
inductive AsciiOutside : List Char → Prop
  | nil : AsciiOutside []
  | cons {c : Char} {rest rest' : List Char} {token : Option Token} :
    lexStep c rest = .ok (token, rest') → asciiStep c token → AsciiOutside rest' →
    AsciiOutside (c :: rest)

end Lexer

open Lexer

/-- The tokens of a source text. -/
def lex (source : String) : Except Error (List Token) := lexFrom [] source.toList

/-! ### The digest -/

/-- A step of the FNV-1a hash. -/
def fnv1a32Step (hash : BitVec 32) (byte : UInt8) : BitVec 32 :=
  (hash ^^^ byte.toBitVec.setWidth 32) * 0x01000193

namespace Token

/-- The kind of a token and the bytes of its text. -/
def kindAndText : Token → UInt8 × List UInt8
  | ident value => (1, utf8 (String.ofList value))
  | number value => (2, utf8 (String.ofList value))
  | string value => (3, utf8 (String.ofList value))
  | byteString value => (4, value)
  | comment value => (5, utf8 (String.ofList value))
  | symbol value => (6, utf8 (String.ofList value))
  | eof => (7, [])

/-- The bytes of a token that are folded into the digest. -/
def folded (token : Token) : List UInt8 := token.kindAndText.1 :: token.kindAndText.2

end Token

/-- The digest of a token stream. -/
def tokenDigest (tokens : List Token) : BitVec 32 :=
  tokens.foldl (fun hash token => token.folded.foldl fnv1a32Step hash) 0x811c9dc5

/-- The line that sums up the tokens of a source text. -/
def tokenProbe (source : String) : Except Error String := do
  let tokens ← lex source
  let hash := tokenDigest tokens
  return "tokens " ++ toString tokens.length ++ " fnv32 " ++ toString hash.toNat

end CodeDb
