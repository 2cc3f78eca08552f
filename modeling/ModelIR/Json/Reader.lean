/-!
# Reading JSON

A reader takes what it reads off the front of a text. It reads from left to right, and the first
fault ends it: the text ends too early, it is not JSON, or it is JSON but not of the type asked for.
A value of another type is told from malformed text by reading it, if it is a scalar; an array or an
object is refused at its bracket.

Members of a record that it does not know are skipped. Skipping is more lenient than reading: it
takes numbers that are out of range, and escapes that do not stand for a character.
-/

namespace ModelIR.Json

/-- What is wrong with a text. -/
inductive Fault where
  | endOfInput
  | malformed
  | mistyped
deriving DecidableEq, Repr

/-- Takes a value off the front of a text. -/
abbrev Reader (α : Type) := StateT (List Char) (Except Fault) α

/-- The blanks of JSON. -/
def isBlank (c : Char) : Bool :=
  c = ' ' || c = '\n' || c = '\t' || c = '\r'

/-- The next character, which stays. -/
def peek? : Reader (Option Char) :=
  return (← get).head?

/-- The next character behind blanks, which stays; the blanks go. -/
def peekToken? : Reader (Option Char) := do
  modify (·.dropWhile isBlank)
  peek?

/-- Drops the next character. -/
def skip : Reader Unit :=
  modify (·.drop 1)

/-- The next character, which goes. -/
def next : Reader Char := do
  match ← get with
  | c :: rest =>
    set rest
    return c
  | [] => throw .endOfInput

/-- Reads the given characters. -/
def literal : List Char → Reader Unit
  | [] => return
  | c :: cs => do
    if (← next) = c then literal cs else throw .malformed

/-! ## Numbers -/

/-- The digit that a character stands for. -/
def digit? (c : Char) : Option Nat :=
  if c.isDigit then some (c.toNat - '0'.toNat) else none

/-- The next character if it is a digit, which goes. -/
def nextDigit? : Reader (Option Nat) := do
  match (← peek?).bind digit? with
  | some d =>
    skip
    return some d
  | none => return none

/-- The digits at the front of a text, and what follows them. -/
def splitDigits (text : List Char) : List Nat × List Char :=
  ((text.takeWhile Char.isDigit).filterMap digit?, text.dropWhile Char.isDigit)

/-- The digits at the front, which go. -/
def takeDigits : Reader (List Nat) :=
  modifyGet splitDigits

/-- Quotients by powers of ten whose exponents may lie below the range of a double. -/
def divideByPowerOfTen (x : Float) (exponent : Nat) : Float :=
  if exponent ≤ 308 then x / Float.ofScientific 1 false exponent
  else if x == 0.0 then x
  else divideByPowerOfTen (x / 1e308) (exponent - 308)
termination_by exponent
decreasing_by omega

/-- A significand times a power of ten, none if it is out of range. The significand is rounded to a
double first and the product or quotient once more, so the result need not be the nearest double. -/
def scaleByPowerOfTen? (significand : Nat) (exponent : Int) : Option Float :=
  let x := Float.ofNat significand
  match exponent with
  | .negSucc n => some (divideByPowerOfTen x (n + 1))
  | .ofNat n =>
    if n ≤ 308 then
      let y := x * Float.ofScientific 1 false n
      if y.isInf then none else some y
    else if x == 0.0 then some x
    else none

/-- Significands are kept in words of 64 bits. -/
def maxSignificand : Nat := 0xFFFFFFFFFFFFFFFF

/-- Appends the digits of an integer to a significand. From the first digit for which there is no
room, every digit counts as a factor of ten. -/
def appendInteger (significand : Nat) : List Nat → Nat × Int
  | [] => (significand, 0)
  | d :: digits =>
    if significand * 10 + d > maxSignificand then (significand, (digits.length + 1 : Nat))
    else appendInteger (significand * 10 + d) digits

/-- Appends the digits of a fraction to a significand. From the first digit for which there is no
room, all are dropped. -/
def appendFraction (significand : Nat) (exponent : Int) : List Nat → Nat × Int
  | [] => (significand, exponent)
  | d :: digits =>
    if significand * 10 + d > maxSignificand then (significand, exponent)
    else appendFraction (significand * 10 + d) (exponent - 1) digits

/-- The digits before the point. A leading zero stands alone. -/
def readIntegerDigits : Reader (List Nat) := do
  match digit? (← next) with
  | none => throw .malformed
  | some 0 =>
    if ((← peek?).bind digit?).isSome then throw .malformed
    return [0]
  | some d => return d :: (← takeDigits)

/-- The digits behind a point, at least one. -/
def readFractionDigits : Reader (List Nat) := do
  match ← takeDigits with
  | [] => if (← peek?).isSome then throw .malformed else throw .endOfInput
  | digits => return digits

/-- The value of a sequence of digits. -/
def digitsValue (digits : List Nat) : Nat :=
  digits.foldl (fun n d => n * 10 + d) 0

/-- Whether an exponent follows. -/
def atExponent : Reader Bool :=
  return (← peek?).any fun c => c = 'e' || c = 'E'

/-- A sign, if there is one; whether it is a minus. -/
def readExponentSign : Reader Bool := do
  match ← peek? with
  | some '+' =>
    skip
    return false
  | some '-' =>
    skip
    return true
  | _ => return false

/-- The number behind the letter of an exponent. -/
def readExponent : Reader Int := do
  let negative ← readExponentSign
  let some d := digit? (← next) | throw .malformed
  let value := digitsValue (d :: (← takeDigits))
  return if negative then -(value : Int) else value

/-- A number as a double. -/
def readNumber : Reader Float := do
  let negative := (← peek?) = some '-'
  if negative then skip
  let (significand, exponent) := appendInteger 0 (← readIntegerDigits)
  let mut significand := significand
  let mut exponent := exponent
  if (← peek?) = some '.' then
    skip
    (significand, exponent) := appendFraction significand exponent (← readFractionDigits)
  if ← atExponent then
    skip
    exponent := exponent + (← readExponent)
  match scaleByPowerOfTen? significand exponent with
  | none => throw .malformed
  | some x => return if negative then -x else x

/-- Skips a number. A number that ends too early counts as malformed. -/
def skipNumber : Reader Unit := do
  if (← peek?) = some '-' then skip
  match (← peek?).bind digit? with
  | none => throw .malformed
  | some 0 =>
    skip
    if ((← peek?).bind digit?).isSome then throw .malformed
  | some _ => discard takeDigits
  if (← peek?) = some '.' then
    skip
    if (← takeDigits).isEmpty then throw .malformed
  if ← atExponent then
    skip
    discard readExponentSign
    if (← takeDigits).isEmpty then throw .malformed

/-! ## Strings -/

/-- The value of a hexadecimal digit. -/
def hexDigit? (c : Char) : Option Nat :=
  if c.isDigit then some (c.toNat - '0'.toNat)
  else if 'a' ≤ c ∧ c ≤ 'f' then some (c.toNat - 'a'.toNat + 10)
  else if 'A' ≤ c ∧ c ≤ 'F' then some (c.toNat - 'A'.toNat + 10)
  else none

/-- The four hexadecimal digits of an escape. The text ends too early if fewer than four bytes are
left, whatever they are. -/
def readHexEscape : Reader Nat := do
  let text ← get
  let digits := text.take 4
  match digits.mapM hexDigit? with
  | some [a, b, c, d] =>
    set (text.drop 4)
    return ((a * 16 + b) * 16 + c) * 16 + d
  | _ =>
    if digits.foldl (fun n c => n + c.utf8Size) 0 < 4 then throw .endOfInput
    else throw .malformed

/-- The character of an escape of one letter. -/
def escaped? : Char → Option Char
  | '"' => some '"'
  | '\\' => some '\\'
  | '/' => some '/'
  | 'b' => some '\x08'
  | 'f' => some '\x0c'
  | 'n' => some '\n'
  | 'r' => some '\r'
  | 't' => some '\t'
  | _ => none

/-- The character of an escape by number. A high surrogate wants a low one behind it. -/
def readUnicodeEscape : Reader Char := do
  let n ← readHexEscape
  if 0xDC00 ≤ n ∧ n ≤ 0xDFFF then throw .malformed
  if n < 0xD800 ∨ 0xDBFF < n then return Char.ofNat n
  literal ['\\', 'u']
  let m ← readHexEscape
  if m < 0xDC00 ∨ 0xDFFF < m then throw .malformed
  return Char.ofNat (0x10000 + (n - 0xD800) * 0x400 + (m - 0xDC00))

/-- The character of an escape. -/
def readEscape : Reader Char := do
  match ← next with
  | 'u' => readUnicodeEscape
  | c =>
    match escaped? c with
    | some d => return d
    | none => throw .malformed

/-- Skips an escape. -/
def skipEscape : Reader Unit := do
  match ← next with
  | 'u' => discard readHexEscape
  | c => if (escaped? c).isNone then throw .malformed

/-- Characters up to the closing quote, which goes. The count is a bound on their number. -/
def readStringTail (read : List Char → Reader (List Char)) : Nat → List Char → Reader (List Char)
  | 0, _ => throw .endOfInput
  | count + 1, soFar => do
    match ← next with
    | '"' => return soFar.reverse
    | '\\' => readStringTail read count (← read soFar)
    | c => if c < ' ' then throw .malformed else readStringTail read count (c :: soFar)

/-- A string, from its opening quote on. -/
def readString : Reader String := do
  skip
  let count := (← get).length + 1
  String.ofList <$> readStringTail (fun soFar => return (← readEscape) :: soFar) count []

/-- Skips a string, from its opening quote on. -/
def skipString : Reader Unit := do
  skip
  let count := (← get).length + 1
  discard (readStringTail (fun soFar => do skipEscape; return soFar) count [])

/-! ## Values that are refused or skipped -/

/-- The words of JSON. -/
def words : List (List Char) :=
  [['n', 'u', 'l', 'l'], ['t', 'r', 'u', 'e'], ['f', 'a', 'l', 's', 'e']]

/-- The word that begins with a character. -/
def wordAt? (c : Char) : Option (List Char) :=
  words.find? fun word => word.head? = some c

/-- Refuses a value because of its type, unless it is malformed. -/
def refuse {α : Type} : Reader α := do
  let some c ← peek? | throw .malformed
  match wordAt? c with
  | some word => literal word
  | none =>
    if c = '"' then discard readString
    else if c = '-' || c.isDigit then discard readNumber
    else if c ≠ '[' && c ≠ '{' then throw .malformed
  throw .mistyped

/-- An array or an object that is open. -/
inductive Bracket where
  | array
  | object
deriving DecidableEq, Repr

/-- The character that closes an array or an object. -/
def Bracket.closing : Bracket → Char
  | array => ']'
  | object => '}'

/-- Skips a scalar or an opening bracket, which is the answer. -/
def skipOpening : Reader (Option Bracket) := do
  let some c ← peekToken? | throw .endOfInput
  match wordAt? c with
  | some word =>
    literal word
    return none
  | none =>
    if c = '[' then
      skip
      return some .array
    if c = '{' then
      skip
      return some .object
    if c = '"' then skipString
    else if c = '-' || c.isDigit then skipNumber
    else throw .malformed
    return none

/-- Skips the name of a member and the colon behind it. -/
def skipName : Reader Unit := do
  match ← peekToken? with
  | some '"' => skipString
  | some _ => throw .malformed
  | none => throw .endOfInput
  match ← peekToken? with
  | some ':' => skip
  | some _ => throw .malformed
  | none => throw .endOfInput

/-- Skips closing brackets, and a comma if one follows the last of them; gives what is open then.
Before the first value of an array or an object there may be no comma. -/
def skipClosings (first : Bool) : List Bracket → Reader (List Bracket)
  | [] => return []
  | b :: brackets => do
    match ← peekToken? with
    | none => throw .endOfInput
    | some c =>
      if c = b.closing then
        skip
        skipClosings false brackets
      else if first then
        return b :: brackets
      else if c = ',' then
        skip
        return b :: brackets
      else
        throw .malformed

/-- Skips values until no bracket is open. The count is a bound on the number of values. -/
def skipValues : Nat → List Bracket → Reader Unit
  | 0, _ => throw .endOfInput
  | count + 1, brackets => do
    let opened ← skipOpening
    let brackets ← skipClosings opened.isSome (opened.toList ++ brackets)
    match brackets with
    | [] => return
    | b :: _ =>
      if b = .object then skipName
      skipValues count brackets

/-- Skips a value. -/
def skipValue : Reader Unit := do
  skipValues ((← get).length + 1) []

/-! ## Values of a type -/

/-- A value, or none for `null`. -/
def readOptional {α : Type} (read : Reader α) : Reader (Option α) := do
  match ← peekToken? with
  | some 'n' =>
    literal ['n', 'u', 'l', 'l']
    return none
  | _ => some <$> read

/-- A number. -/
def readFloat : Reader Float := do
  match ← peekToken? with
  | none => throw .endOfInput
  | some c => if c = '-' || c.isDigit then readNumber else refuse

/-- Whether an array goes on, behind the comma that parts its items. -/
def moreItems (first : Bool) : Reader Bool := do
  match ← peekToken? with
  | none => throw .endOfInput
  | some ']' => return false
  | some c =>
    if first then
      return true
    else if c = ',' then
      skip
      match ← peekToken? with
      | some ']' => throw .malformed
      | some _ => return true
      | none => throw .endOfInput
    else
      throw .malformed

/-- Closes an array. -/
def closeArray : Reader Unit := do
  match ← peekToken? with
  | some ']' => skip
  | some _ => throw .malformed
  | none => throw .endOfInput

/-- The items of an array behind its bracket. The count is a bound on their number. -/
def readItems {α : Type} (read : Reader α) (first : Bool) : Nat → Reader (List α)
  | 0 => throw .endOfInput
  | count + 1 => do
    if ← moreItems first then
      return (← read) :: (← readItems read false count)
    else
      return []

/-- An array of values of one type. -/
def readArray {α : Type} (read : Reader α) : Reader (List α) := do
  match ← peekToken? with
  | none => throw .endOfInput
  | some '[' =>
    skip
    let items ← readItems read true ((← get).length + 1)
    closeArray
    return items
  | some _ => refuse

/-- Whether an object goes on, behind the comma that parts its members. -/
def moreMembers (first : Bool) : Reader Bool := do
  match ← peekToken? with
  | none => throw .endOfInput
  | some '}' => return false
  | some c =>
    if first then
      if c = '"' then return true else throw .malformed
    else if c = ',' then
      skip
      match ← peekToken? with
      | some '"' => return true
      | some _ => throw .malformed
      | none => throw .endOfInput
    else
      throw .malformed

/-- The colon behind the name of a member. -/
def readColon : Reader Unit := do
  match ← peekToken? with
  | some ':' => skip
  | some _ => throw .malformed
  | none => throw .endOfInput

/-- The members of an object behind its bracket, up to and with the closing one. The count is a
bound on their number. -/
def readMembers {σ : Type} (member : σ → String → Reader σ) (first : Bool) : Nat → σ → Reader σ
  | 0, _ => throw .endOfInput
  | count + 1, s => do
    if ← moreMembers first then
      let name ← readString
      readMembers member false count (← member s name)
    else
      skip
      return s

/-- An object, member by member. -/
def readObject {σ : Type} (member : σ → String → Reader σ) (s : σ) : Reader σ := do
  match ← peekToken? with
  | none => throw .endOfInput
  | some '{' =>
    skip
    readMembers member true ((← get).length + 1) s
  | some _ => refuse

/-- A field of a record: its name, and how its value is read into the record. -/
structure Member (ρ : Type) where
  name : String
  read : ρ → Reader ρ

/-- The fields of a record from the items of an array, in their order. The last ones may be left
out. -/
def readFieldItems {ρ : Type} (first : Bool) : List (Member ρ) → ρ → Reader ρ
  | [], record => return record
  | field :: fields, record => do
    if ← moreItems first then
      readFieldItems false fields (← field.read record)
    else
      return record

/-- A member of a record. A field may be there once, and a member that is no field is skipped. -/
def readFieldMember {ρ : Type} (fields : List (Member ρ)) (state : ρ × List String)
    (name : String) : Reader (ρ × List String) := do
  let (record, seen) := state
  match fields.find? (·.name = name) with
  | some field =>
    if name ∈ seen then throw .mistyped
    readColon
    return (← field.read record, name :: seen)
  | none =>
    readColon
    skipValue
    return (record, seen)

/-- A record, as an object or as an array of its fields. Fields that are left out keep the value
that they have. -/
def readRecord {ρ : Type} (fields : List (Member ρ)) (record : ρ) : Reader ρ := do
  match ← peekToken? with
  | some '[' =>
    skip
    let record ← readFieldItems true fields record
    closeArray
    return record
  | _ => Prod.fst <$> readObject (readFieldMember fields) (record, [])

/-- Reads a whole text; blanks may follow the value. -/
def parse {α : Type} (read : Reader α) (text : List Char) : Except Fault α := do
  let (value, rest) ← read.run text
  if (rest.dropWhile isBlank).isEmpty then return value else throw .malformed

end ModelIR.Json
