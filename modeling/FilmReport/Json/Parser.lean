import FilmReport.Json.Basic
import FilmReport.Text.Numeral

/-!
Strict reading of JSON texts. The whole text is one value with white space around it; of two
fields of one name the later wins.
-/

set_option autoImplicit false
set_option relaxedAutoImplicit false

namespace FilmReport.Json

def isSpace (c : Char) : Bool :=
  c == ' ' || c == '\t' || c == '\n' || c == '\r'

private def hex4? (a b c d : Char) : Option Nat :=
  Numeral.baseNumeral? 16 [a, b, c, d]

/-- The code units of a quoted text up to its closing quote, and what follows. -/
def units? : List Char → Option (List Nat × List Char)
  | [] => none
  | '"' :: rest => some ([], rest)
  | '\\' :: 'u' :: a :: b :: c :: d :: rest =>
    match hex4? a b c d, units? rest with
    | some n, some (ns, rest) => some (n :: ns, rest)
    | _, _ => none
  | '\\' :: e :: rest =>
    match escape? e, units? rest with
    | some n, some (ns, rest) => some (n :: ns, rest)
    | _, _ => none
  | c :: rest =>
    if c.toNat < 0x20 ∨ c = '\\' then none
    else (units? rest).map fun (ns, rest) => (c.toNat :: ns, rest)
where
  escape? (e : Char) : Option Nat :=
    if e = '"' ∨ e = '\\' ∨ e = '/' then some e.toNat
    else if e = 'b' then some 8
    else if e = 'f' then some 12
    else if e = 'n' then some 10
    else if e = 'r' then some 13
    else if e = 't' then some 9
    else none

/-- Joins surrogate pairs; a surrogate without its partner becomes the replacement character. -/
def joinUnits : List Nat → List Char
  | [] => []
  | [n] => [single n]
  | h :: l :: rest =>
    if 0xD800 ≤ h ∧ h < 0xDC00 ∧ 0xDC00 ≤ l ∧ l < 0xE000 then
      Char.ofNat (0x10000 + (h - 0xD800) * 0x400 + (l - 0xDC00)) :: joinUnits rest
    else single h :: joinUnits (l :: rest)
where
  single (n : Nat) : Char :=
    if 0xD800 ≤ n ∧ n < 0xE000 then '\ufffd' else Char.ofNat n

/-- A quoted text after its opening quote, and what follows. -/
def text? (cs : List Char) : Option (String × List Char) :=
  (units? cs).map fun (ns, rest) => (String.ofList (joinUnits ns), rest)

/-- A number: no leading zeros, digits on both sides of a point. -/
def number? (cs : List Char) : Option (Binary64 × List Char) :=
  let (negative, body) :=
    match cs with
    | '-' :: r => (true, r)
    | r => (false, r)
  let (whole, rest) := Numeral.spanDigits body
  let wholeOk := match whole with
    | [] => false
    | ['0'] => true
    | d :: _ => d != '0'
  if !wholeOk then none
  else
    let (fraction, pointOk, rest) :=
      match rest with
      | '.' :: r =>
        let (digits, r) := Numeral.spanDigits r
        (digits, !digits.isEmpty, r)
      | r => ([], true, r)
    if !pointOk then none
    else
      let found : Option (Int × List Char) :=
        match rest with
        | 'e' :: _ | 'E' :: _ => Numeral.exponent? rest
        | r => some (0, r)
      found.map fun (shift, rest) =>
        let d : Decimal := ⟨negative, digitsValue (whole ++ fraction), shift - fraction.length⟩
        (d.toBinary64, rest)

private def skip (cs : List Char) : List Char :=
  cs.dropWhile isSpace

mutual

/-- A value at the front of a list, and what follows; each step into a part spends fuel. -/
def value? : Nat → List Char → Option (Json × List Char)
  | 0, _ => none
  | fuel + 1, cs =>
    match cs with
    | 'n' :: 'u' :: 'l' :: 'l' :: rest => some (.null, rest)
    | 't' :: 'r' :: 'u' :: 'e' :: rest => some (.bool true, rest)
    | 'f' :: 'a' :: 'l' :: 's' :: 'e' :: rest => some (.bool false, rest)
    | '"' :: rest => (text? rest).map fun (s, rest) => (.string s, rest)
    | '[' :: rest =>
      match skip rest with
      | ']' :: rest => some (.array [], rest)
      | rest => (items? fuel rest).map fun (items, rest) => (.array items, rest)
    | '\x7b' :: rest =>
      match skip rest with
      | '\x7d' :: rest => some (.object [], rest)
      | rest => (fields? fuel [] rest).map fun (fields, rest) => (.object fields, rest)
    | rest => (number? rest).map fun (x, rest) => (.number x, rest)

/-- The items of an array up to its closing bracket. -/
def items? : Nat → List Char → Option (List Json × List Char)
  | 0, _ => none
  | fuel + 1, cs =>
    match value? fuel (skip cs) with
    | none => none
    | some (item, rest) =>
      match skip rest with
      | ',' :: rest => (items? fuel rest).map fun (items, rest) => (item :: items, rest)
      | ']' :: rest => some ([item], rest)
      | _ => none

/-- The fields of an object up to its closing brace, put over those already read. -/
def fields? : Nat → Fields → List Char → Option (Fields × List Char)
  | 0, _, _ => none
  | fuel + 1, read, cs =>
    match skip cs with
    | '"' :: rest =>
      match text? rest with
      | none => none
      | some (name, rest) =>
        match skip rest with
        | ':' :: rest =>
          match value? fuel (skip rest) with
          | none => none
          | some (value, rest) =>
            let read := Fields.put name value read
            match skip rest with
            | ',' :: rest => fields? fuel read rest
            | '\x7d' :: rest => some (read, rest)
            | _ => none
        | _ => none
    | _ => none

end

/-- The value that a whole text writes; the length of the text is fuel enough. -/
def parse? (source : String) : Option Json :=
  let cs := source.toList
  match value? (cs.length + 1) (skip cs) with
  | some (value, rest) => if (skip rest).isEmpty then some value else none
  | none => none

end FilmReport.Json
