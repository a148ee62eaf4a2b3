import ComplianceMcp.JsonDumps

/-! # `json.loads`

A reader for JSON texts: white space around values, objects built as a `dict` is
(the last pair of a key wins), arrays, strings with their escapes, integers, floats
and the names of the floats that are no number.  Recursion is bounded by `fuel`; `loads` gives it
the length of the text, which every step shortens. -/
namespace PyJson

/-- The white space JSON allows between tokens. -/
def isWs (c : Char) : Bool := c == ' ' || c == '\t' || c == '\n' || c == '\r'

/-- The text after its leading white space. -/
def skipWs (t : List Char) : List Char := t.dropWhile isWs

/-- The value of a lower- or upper-case hexadecimal digit. -/
def hexVal (c : Char) : Option Nat :=
  if '0' ≤ c ∧ c ≤ '9' then some (c.toNat - 48)
  else if 'a' ≤ c ∧ c ≤ 'f' then some (c.toNat - 87)
  else if 'A' ≤ c ∧ c ≤ 'F' then some (c.toNat - 55)
  else none

/-- Four hexadecimal digits and what follows them. -/
def readHex4 : List Char → Option (Nat × List Char)
  | a :: b :: c :: d :: r => do
    let a ← hexVal a
    let b ← hexVal b
    let c ← hexVal c
    let d ← hexVal d
    return (a * 4096 + b * 256 + c * 16 + d, r)
  | _ => none

/-- The second half of a surrogate pair whose first half is `n`. -/
def readLow (n : Nat) : List Char → Option (Char × List Char)
  | '\\' :: 'u' :: r =>
    match readHex4 r with
    | some (m, r) =>
      if loSurrogate ≤ m ∧ m < 0xe000 then
        some (Char.ofNat (0x10000 + (n - hiSurrogate) * 1024 + (m - loSurrogate)), r)
      else none
    | none => none
  | _ => none

/-- A `\u` escape.  A surrogate is read with its partner; one that stands alone is
no character. -/
def readUnicode (r : List Char) : Option (Char × List Char) :=
  match readHex4 r with
  | some (n, r) =>
    if n < hiSurrogate ∨ 0xe000 ≤ n then some (Char.ofNat n, r)
    else if loSurrogate ≤ n then none
    else readLow n r
  | none => none

/-- The escape after a backslash. -/
def readEscape : List Char → Option (Char × List Char)
  | [] => none
  | e :: r =>
    if e = '"' ∨ e = '\\' ∨ e = '/' then some (e, r)
    else if e = 'n' then some ('\n', r)
    else if e = 'r' then some ('\r', r)
    else if e = 't' then some ('\t', r)
    else if e = 'b' then some (Char.ofNat 0x08, r)
    else if e = 'f' then some (Char.ofNat 0x0c, r)
    else if e = 'u' then readUnicode r
    else none

/-- The characters of a string up to its closing quote. -/
def readChars : Nat → List Char → Option (List Char × List Char)
  | 0, _ | _, [] => none
  | n + 1, c :: r =>
    if c = '"' then some ([], r)
    else if c = '\\' then do
      let (d, r) ← readEscape r
      let (s, r) ← readChars n r
      return (d :: s, r)
    else if c.toNat < 0x20 then none
    else do
      let (s, r) ← readChars n r
      return (c :: s, r)

/-- The number a digit string stands for, with its sign. -/
def intOfText : List Char → Int
  | '-' :: ds => -(Nat.ofDigitChars 10 ds 0 : Int)
  | ds => Nat.ofDigitChars 10 ds 0

/-- A number token. -/
def readNumber (t : List Char) : Option (Json × List Char) :=
  let tok := t.takeWhile numChar
  let r := t.dropWhile numChar
  if isIntText tok = true then some (.int (intOfText tok), r)
  else if isFloatText tok = true then some (.float (.ofText tok), r)
  else none

/-- A constant, whose first character has been read. -/
def readWord (w : List Char) (j : Json) (t : List Char) : Option (Json × List Char) :=
  if w.isPrefixOf t then some (j, t.drop w.length) else none

mutual
/-- A value at the start of the text, and the text after it. -/
def readValue : Nat → List Char → Option (Json × List Char)
  | 0, _ | _, [] => none
  | n + 1, c :: r =>
    if c = '"' then (readChars n r).map (fun p => (.str (String.ofList p.1), p.2))
    else if c = '{' then
      match skipWs r with
      | [] => none
      | d :: r' =>
        if d = '}' then some (.obj [], r')
        else (readFields n (d :: r')).map (fun p => (.obj p.1, p.2))
    else if c = '[' then
      match skipWs r with
      | [] => none
      | d :: r' =>
        if d = ']' then some (.arr [], r')
        else (readItems n (d :: r')).map (fun p => (.arr p.1, p.2))
    else if c = 'n' then readWord ['u', 'l', 'l'] .null r
    else if c = 't' then readWord ['r', 'u', 'e'] (.bool true) r
    else if c = 'f' then readWord ['a', 'l', 's', 'e'] (.bool false) r
    else if c = 'N' then readWord ['a', 'N'] (.float .nan) r
    else if c = 'I' then readWord ['n', 'f', 'i', 'n', 'i', 't', 'y'] (.float (.infinite false)) r
    else if c = '-' ∧ r.head? = some 'I' then readWord Binary64.infinityText
      (.float (.infinite true)) r
    else if c = '-' ∨ c.isDigit = true then readNumber (c :: r)
    else none
/-- The items of an array, up to its closing bracket. -/
def readItems : Nat → List Char → Option (List Json × List Char)
  | 0, _ => none
  | n + 1, t => do
    let (x, r) ← readValue n t
    match skipWs r with
    | [] => none
    | d :: r' =>
      if d = ']' then return ([x], r')
      else if d = ',' then
        let (xs, r) ← readItems n (skipWs r')
        return (x :: xs, r)
      else none
/-- The fields of an object, up to its closing brace. -/
def readFields : Nat → List Char → Option (List (String × Json) × List Char)
  | 0, _ | _, [] => none
  | n + 1, c :: r =>
    if c = '"' then do
      let (k, r) ← readChars n r
      match skipWs r with
      | [] => none
      | d :: r =>
        if d = ':' then
          let (v, r) ← readValue n (skipWs r)
          match skipWs r with
          | [] => none
          | e :: r =>
            if e = '}' then return ([(String.ofList k, v)], r)
            else if e = ',' then
              let (fs, r) ← readFields n (skipWs r)
              return ((String.ofList k, v) :: fs, r)
            else none
        else none
    else none
end

/-- The pairs and items a text holds, repeated keys included. -/
def readText (t : List Char) : Option Json :=
  match readValue (t.length + 1) (skipWs t) with
  | some (j, r) => if skipWs r = [] then some j else none
  | none => none

/-- The texts of a value start with this character, white space aside. -/
def Json.OpensWith (c : Char) : Json → Prop
  | .null => c = 'n'
  | .bool b => c = if b then 't' else 'f'
  | .int _ | .float _ => c = 'N' ∨ c = 'I' ∨ c = '-' ∨ c.isDigit = true
  | .str _ => c = '"'
  | .arr _ => c = '['
  | .obj _ => c = '\x7b'

/-- `json.loads(t)`, `none` where it raises. -/
def loads (t : List Char) : Option Json := (readText t).map Json.dedupe

end PyJson
