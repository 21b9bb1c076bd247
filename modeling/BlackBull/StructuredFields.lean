import BlackBull.MessageDecoding
import BlackBull.EffectOutcomes
import BlackBull.OrderedDict
import Mathlib.Data.Rat.Defs

/-!
# Structured field values

The values and the parser of `structured_fields.py`, which works on what is left of the text. Its
loops are bounded by the length of that text, which is never what ends them. Base64 and UTF-8 are
the standard library's, and decimals are taken as exact.
-/

namespace BlackBull.StructuredFields

open ByteString

/-- The codecs of the standard library; `δ` is the type of Unicode texts. -/
structure Codec (δ : Type) where
  /-- `base64.b64decode(text, validate=True)`. -/
  b64decode : Bytes → Option Bytes
  b64encode : Bytes → Bytes
  /-- `octets.decode('utf-8')`. -/
  utf8decode : Bytes → Option δ
  /-- `text.encode('utf-8')`, which fails on lone surrogates. -/
  utf8encode : δ → Option Bytes

inductive BareItem (δ : Type) where
  | integer (value : ℤ)
  | decimal (value : ℚ)
  | string (value : Bytes)
  | token (value : Bytes)
  | bytes (value : Bytes)
  | boolean (value : Bool)
  | date (seconds : ℤ)
  | displayString (value : δ)
  deriving DecidableEq

/-- A `dict` from keys, in the order in which the keys came. -/
structure Table (α : Type) where
  items : Dict Bytes α
  distinct : (items.map Prod.fst).Nodup
  deriving DecidableEq

namespace Table

variable {α : Type}

def empty : Table α := ⟨[],List.nodup_nil⟩

/-- `table[key] = value`: a key that is there keeps its place. -/
def set (table : Table α) (key : Bytes) (value : α) : Table α :=
  ⟨table.items.set key value,Dict.nodup_set key value table.distinct⟩

end Table

abbrev Parameters (δ : Type) := Table (BareItem δ)

abbrev Item (δ : Type) := BareItem δ × Parameters δ

abbrev InnerList (δ : Type) := List (Item δ) × Parameters δ

inductive Member (δ : Type) where
  | item (value : Item δ)
  | innerList (value : InnerList δ)
  deriving DecidableEq

abbrev tab : UInt8 := 9
abbrev space : UInt8 := 32
abbrev dquote : UInt8 := 34
abbrev percent : UInt8 := 37
abbrev leftParen : UInt8 := 40
abbrev rightParen : UInt8 := 41
abbrev star : UInt8 := 42
abbrev comma : UInt8 := 44
abbrev hyphen : UInt8 := 45
abbrev dot : UInt8 := 46
abbrev colon : UInt8 := 58
abbrev semicolon : UInt8 := 59
abbrev equals : UInt8 := 61
abbrev question : UInt8 := 63
abbrev commercialAt : UInt8 := 64
abbrev backslash : UInt8 := 92

def isLower (c : UInt8) : Bool := 97≤c && c≤122

def isAlpha (c : UInt8) : Bool := (65≤c && c≤90) || isLower c

def isKeyStart (c : UInt8) : Bool := isLower c || c=star

/-- Lower case letters, digits, and `_`, `-`, `.` and `*`. -/
def isKeyChar (c : UInt8) : Bool :=
  isLower c || isDigit c || c=95 || c=hyphen || c=dot || c=star

def isTokenStart (c : UInt8) : Bool := isAlpha c || c=star

/-- `tchar`, and `:` and `/`. -/
def isTokenChar (c : UInt8) : Bool := isTchar c || c=colon || c=47

/-- Letters, digits, and `+`, `/` and `=`. -/
def isBase64Char (c : UInt8) : Bool := isAlpha c || isDigit c || c=43 || c=47 || c=equals

def isLowerHex (c : UInt8) : Bool := isDigit c || (97≤c && c≤102)

/-- `%x20-7e`. -/
def isPrintable (c : UInt8) : Bool := 32≤c && c≤126

/-- What is raised: `IndexError` by `advance` at the end of the text, `ValueError` by all else. -/
inductive Fault where
  | indexError
  | notAscii
  | expected (char : UInt8)
  | trailingCharacters
  | trailingCommaInList
  | trailingCommaInDictionary
  | invalidCharacterInInnerList
  | unterminatedInnerList
  | invalidKey
  | emptyBareItem
  | invalidBareItem
  | invalidNumber
  | decimalIntegerTooLong
  | integerTooLong
  | decimalTooLong
  | decimalEndsInDot
  | fractionTooLong
  | unterminatedEscape
  | invalidEscape
  | invalidCharacterInString
  | unterminatedString
  | invalidToken
  | unterminatedByteSequence
  | invalidCharacterInByteSequence
  | invalidBase64
  | invalidBoolean
  | dateNotInteger
  | invalidCharacterInDisplayString
  | truncatedPercentEscape
  | invalidPercentEscape
  | displayStringNotUtf8
  | unterminatedDisplayString
  deriving DecidableEq

def Fault.isValueError (fault : Fault) : Prop := fault≠.indexError

/-- A computation on what is left of the text. -/
abbrev ParserM := EStateM Fault Bytes

def eof : ParserM Bool := do return (← get).isEmpty

def peek : ParserM (Option UInt8) := do return (← get).head?

def advance : ParserM UInt8 := do
  match ← get with
  | [] => throw .indexError
  | c::rest =>
    set rest
    pure c

def expect (char : UInt8) : ParserM Unit := do
  if (← peek)=some char then modify List.tail else throw (.expected char)

def discardSp : ParserM Unit := modify (·.dropWhile (· = space))

def isOws (c : UInt8) : Bool := c=space || c=tab

def discardOws : ParserM Unit := modify (·.dropWhile isOws)

/-- `while p.peek() in chars: p.advance()`, and the characters passed. -/
def scan (chars : UInt8 → Bool) : ParserM Bytes := do
  let text ← get
  set (text.dropWhile chars)
  return text.takeWhile chars

def parseKey : ParserM Bytes := do
  if (← peek).any isKeyStart then scan isKeyChar else throw .invalidKey

inductive Number where
  | integer (value : ℤ)
  | decimal (value : ℚ)
  deriving DecidableEq

/-- The lengths a number may have while it is read. -/
def checkLength (digits : Bytes) (isDecimal : Bool) : ParserM Unit :=
  if !isDecimal ∧ 15<digits.length then throw .integerTooLong
  else if isDecimal ∧ 16<digits.length then throw .decimalTooLong
  else pure ()

/-- The loop of `_parse_number`. -/
def numberLoop : ℕ → Bytes → Bool → ParserM (Bytes × Bool)
  | 0,digits,isDecimal => pure (digits,isDecimal)
  | fuel+1,digits,isDecimal => do
    match ← peek with
    | none => pure (digits,isDecimal)
    | some c =>
      if isDigit c then
        let c ← advance
        checkLength (digits++[c]) isDecimal
        numberLoop fuel (digits++[c]) isDecimal
      else if !isDecimal ∧ c=dot then
        if 12<digits.length then throw .decimalIntegerTooLong
        else
          let c ← advance
          checkLength (digits++[c]) true
          numberLoop fuel (digits++[c]) true
      else pure (digits,isDecimal)

/-- `sign * value`. -/
def signed {α : Type} [Neg α] (negative : Bool) (value : α) : α :=
  if negative then -value else value

def parseSign : ParserM Bool := do
  if (← peek)=some hyphen then
    let _ ← advance
    pure true
  else pure false

def toNumber (negative : Bool) (text : Bytes) (isDecimal : Bool) : ParserM Number :=
  if !isDecimal then pure (.integer (signed negative (ofDigits 10 text : ℤ)))
  else
    let whole := (partition dot text).1
    let fraction := (partition dot text).2.2
    if fraction=[] then throw .decimalEndsInDot
    else if 3<fraction.length then throw .fractionTooLong
    else
      let value : ℚ := (ofDigits 10 (whole++fraction) : ℚ) / 10^fraction.length
      pure (.decimal (signed negative value))

def parseNumber : ParserM Number := do
  let negative ← parseSign
  if (← peek).any isDigit then
    let read ← numberLoop (← get).length [] false
    toNumber negative read.1 read.2
  else throw .invalidNumber

/-- The loop of `_parse_string`. -/
def stringLoop : ℕ → Bytes → ParserM Bytes
  | 0,_ => throw .unterminatedString
  | fuel+1,out => do
    if ← eof then throw .unterminatedString
    else
      let c ← advance
      if c=backslash then
        if ← eof then throw .unterminatedEscape
        else
          let next ← advance
          if next=dquote ∨ next=backslash then stringLoop fuel (out++[next])
          else throw .invalidEscape
      else if c=dquote then pure out
      else if isPrintable c then stringLoop fuel (out++[c])
      else throw .invalidCharacterInString

def parseString : ParserM Bytes := do
  expect dquote
  stringLoop (← get).length []

def parseToken : ParserM Bytes := do
  if (← peek).any isTokenStart then scan isTokenChar else throw .invalidToken

def parseBoolean : ParserM Bool := do
  expect question
  match ← peek with
  | some 49 => let _ ← advance; pure true
  | some 48 => let _ ← advance; pure false
  | _ => throw .invalidBoolean

def parseDate : ParserM ℤ := do
  expect commercialAt
  match ← parseNumber with
  | .integer value => pure value
  | .decimal _ => throw .dateNotInteger

/-- The loop of `_parse_display_string`, up to the closing quote. -/
def displayLoop : ℕ → Bytes → ParserM Bytes
  | 0,_ => throw .unterminatedDisplayString
  | fuel+1,raw => do
    if ← eof then throw .unterminatedDisplayString
    else
      let c ← advance
      if !isPrintable c then throw .invalidCharacterInDisplayString
      else if c=percent then
        if (← get).length<2 then throw .truncatedPercentEscape
        else
          let high ← advance
          let low ← advance
          if isLowerHex high ∧ isLowerHex low then
            displayLoop fuel (raw++[UInt8.ofNat (ofDigits 16 [high,low])])
          else throw .invalidPercentEscape
      else if c=dquote then pure raw
      else displayLoop fuel (raw++[c])

section Parsers

variable {δ : Type} (codec : Codec δ)

def parseByteSequence : ParserM Bytes := do
  expect colon
  let text ← get
  let b64 := text.takeWhile (· ≠ colon)
  if text.dropWhile (· ≠ colon)=[] then throw .unterminatedByteSequence
  else
    set (text.dropWhile (· ≠ colon)).tail
    if !b64.all isBase64Char then throw .invalidCharacterInByteSequence
    else
      match codec.b64decode b64 with
      | none => throw .invalidBase64
      | some octets => pure octets

def parseDisplayString : ParserM δ := do
  expect percent
  expect dquote
  let raw ← displayLoop (← get).length []
  match codec.utf8decode raw with
  | none => throw .displayStringNotUtf8
  | some text => pure text

def Number.toItem : Number → BareItem δ
  | .integer value => .integer value
  | .decimal value => .decimal value

def parseBareItem : ParserM (BareItem δ) := do
  match ← peek with
  | none => throw .emptyBareItem
  | some c =>
    if c=hyphen ∨ isDigit c then Number.toItem <$> parseNumber
    else if c=dquote then .string <$> parseString
    else if isTokenStart c then .token <$> parseToken
    else if c=colon then .bytes <$> parseByteSequence codec
    else if c=question then .boolean <$> parseBoolean
    else if c=commercialAt then .date <$> parseDate
    else if c=percent then .displayString <$> parseDisplayString codec
    else throw .invalidBareItem

/-- The loop of `_parse_parameters`. -/
def parametersLoop : ℕ → Parameters δ → ParserM (Parameters δ)
  | 0,params => pure params
  | fuel+1,params => do
    if (← peek)=some semicolon then
      let _ ← advance
      discardSp
      let key ← parseKey
      if (← peek)=some equals then
        let _ ← advance
        let value ← parseBareItem codec
        parametersLoop fuel (params.set key value)
      else parametersLoop fuel (params.set key (.boolean true))
    else pure params

def parseParameters : ParserM (Parameters δ) := do parametersLoop codec (← get).length .empty

def parseItemBody : ParserM (Item δ) := do
  let bare ← parseBareItem codec
  return (bare,← parseParameters codec)

/-- The loop of `_parse_inner_list`. -/
def innerListLoop : ℕ → List (Item δ) → ParserM (InnerList δ)
  | 0,_ => throw .unterminatedInnerList
  | fuel+1,inner => do
    if ← eof then throw .unterminatedInnerList
    else
      discardSp
      if (← peek)=some rightParen then
        let _ ← advance
        return (inner,← parseParameters codec)
      else
        let item ← parseItemBody codec
        let next ← peek
        if next=some space ∨ next=some rightParen then innerListLoop fuel (inner++[item])
        else throw .invalidCharacterInInnerList

def parseInnerList : ParserM (InnerList δ) := do
  expect leftParen
  innerListLoop codec (← get).length []

def parseItemOrInnerList : ParserM (Member δ) := do
  if (← peek)=some leftParen then .innerList <$> parseInnerList codec
  else .item <$> parseItemBody codec

/-- The loop of `_parse_list`. -/
def listLoop : ℕ → List (Member δ) → ParserM (List (Member δ))
  | 0,members => pure members
  | fuel+1,members => do
    if ← eof then pure members
    else
      let member ← parseItemOrInnerList codec
      discardOws
      if ← eof then pure (members++[member])
      else
        expect comma
        discardOws
        if ← eof then throw .trailingCommaInList
        else listLoop fuel (members++[member])

/-- The member of a dictionary under its key: true when no value is given. -/
def parseValue : ParserM (Member δ) := do
  if (← peek)=some equals then
    let _ ← advance
    parseItemOrInnerList codec
  else return .item (.boolean true,← parseParameters codec)

/-- The loop of `_parse_dictionary`. -/
def dictionaryLoop : ℕ → Table (Member δ) → ParserM (Table (Member δ))
  | 0,dictionary => pure dictionary
  | fuel+1,dictionary => do
    if ← eof then pure dictionary
    else
      let key ← parseKey
      let member ← parseValue codec
      discardOws
      if ← eof then pure (dictionary.set key member)
      else
        expect comma
        discardOws
        if ← eof then throw .trailingCommaInDictionary
        else dictionaryLoop fuel (dictionary.set key member)

end Parsers

def toText (value : Bytes) : Except Fault Bytes :=
  if value.all (· < 128) then .ok value else .error .notAscii

/-- `_parse_top`, between trimming the spaces and the demand that nothing is left. -/
def parseBody {α : Type} (parse : ParserM α) : ParserM α := do
  discardSp
  let result ← parse
  discardSp
  if ← eof then pure result else throw .trailingCharacters

def parseTop {α : Type} (parse : ParserM α) (value : Bytes) : Except Fault α :=
  match toText value with
  | .error fault => .error fault
  | .ok text =>
    match parseBody parse text with
    | .ok result _ => .ok result
    | .error fault _ => .error fault

section TopLevel

variable {δ : Type} (codec : Codec δ)

def parseItem : Bytes → Except Fault (Item δ) := parseTop (parseItemBody codec)

def parseList : Bytes → Except Fault (List (Member δ)) :=
  parseTop do listLoop codec (← get).length []

def parseDictionary : Bytes → Except Fault (Table (Member δ)) :=
  parseTop do dictionaryLoop codec (← get).length .empty

end TopLevel

end BlackBull.StructuredFields
