/-!
Texts and keys of a TOML document: four kinds of quotes, and bare keys.
-/

namespace DryKiln
namespace Toml

def isSpace (c : Char) : Bool := c = ' ' || c = '\t'

/-- A control character that may stand nowhere; the tab is none of them. -/
def isForbidden (c : Char) : Bool := (c.toNat < 0x20 && c != '\t') || c.toNat = 0x7F

def hexDigit? (c : Char) : Option Nat :=
  if c.isDigit then some (c.toNat - 48)
  else if 'a' ≤ c ∧ c ≤ 'f' then some (c.toNat - 87)
  else if 'A' ≤ c ∧ c ≤ 'F' then some (c.toNat - 55)
  else none

def hexValue? (cs : List Char) : Option Nat :=
  cs.foldlM (fun value c => (hexDigit? c).map fun digit => 16 * value + digit) 0

/-- The character with a number, unless the number is half of a surrogate pair or too large. -/
def numbered? (cs : List Char) : Option Char := do
  let n ← hexValue? cs
  if h : n.isValidChar then some (Char.ofNatAux n h) else none

/-- The character of a letter behind a backslash. -/
def unescape? (c : Char) : Option Char :=
  if c = '"' || c = '\\' then some c
  else if c = 'b' then some '\x08'
  else if c = 't' then some '\t'
  else if c = 'n' then some '\n'
  else if c = 'f' then some '\x0c'
  else if c = 'r' then some '\r'
  else if c = 'e' then some '\x1b'
  else none

/-- The rest of a text in double quotes, and what follows it. -/
def basicText? (taken : List Char) : List Char → Option (List Char × List Char)
  | '"' :: rest => some (taken.reverse, rest)
  | '\\' :: 'x' :: a :: b :: rest => do basicText? ((← numbered? [a, b]) :: taken) rest
  | '\\' :: 'u' :: a :: b :: c :: d :: rest => do
    basicText? ((← numbered? [a, b, c, d]) :: taken) rest
  | '\\' :: 'U' :: a :: b :: c :: d :: e :: f :: g :: h :: rest => do
    basicText? ((← numbered? [a, b, c, d, e, f, g, h]) :: taken) rest
  | '\\' :: c :: rest => do basicText? ((← unescape? c) :: taken) rest
  | c :: rest => if c = '\\' || isForbidden c then none else basicText? (c :: taken) rest
  | [] => none

/-- The rest of a text in single quotes, and what follows it. -/
def literalText? (taken : List Char) : List Char → Option (List Char × List Char)
  | c :: rest =>
    if c = '\'' then some (taken.reverse, rest)
    else if isForbidden c then none
    else literalText? (c :: taken) rest
  | [] => none

/-- Where a text of several lines is in a line that ends with a backslash. -/
inductive Fold where
  | none
  /-- Behind the backslash, in front of the line break. -/
  | lineEnd
  /-- Behind the line break: blanks and further line breaks are dropped. -/
  | dropping
deriving DecidableEq, Repr

/-- The rest of a text in three double quotes, and what follows it. -/
def basicLines? (fold : Fold) (taken : List Char) : List Char → Option (List Char × List Char)
  | '\r' :: '\n' :: rest =>
    match fold with
    | .none => basicLines? .none ('\n' :: '\r' :: taken) rest
    | _ => basicLines? .dropping taken rest
  | '\n' :: rest =>
    match fold with
    | .none => basicLines? .none ('\n' :: taken) rest
    | _ => basicLines? .dropping taken rest
  | ' ' :: rest =>
    match fold with
    | .none => basicLines? .none (' ' :: taken) rest
    | fold => basicLines? fold taken rest
  | '\t' :: rest =>
    match fold with
    | .none => basicLines? .none ('\t' :: taken) rest
    | fold => basicLines? fold taken rest
  | '"' :: '"' :: '"' :: rest =>
    if fold = .lineEnd then none
    else match rest with
      | '"' :: '"' :: rest => some (('"' :: '"' :: taken).reverse, rest)
      | '"' :: rest => some (('"' :: taken).reverse, rest)
      | rest => some (taken.reverse, rest)
  | '\\' :: rest =>
    if fold = .lineEnd then none
    else match rest with
      | 'x' :: a :: b :: rest => do basicLines? .none ((← numbered? [a, b]) :: taken) rest
      | 'u' :: a :: b :: c :: d :: rest => do
        basicLines? .none ((← numbered? [a, b, c, d]) :: taken) rest
      | 'U' :: a :: b :: c :: d :: e :: f :: g :: h :: rest => do
        basicLines? .none ((← numbered? [a, b, c, d, e, f, g, h]) :: taken) rest
      | '\r' :: '\n' :: rest => basicLines? .dropping taken rest
      | '\n' :: rest => basicLines? .dropping taken rest
      | ' ' :: rest => basicLines? .lineEnd taken rest
      | '\t' :: rest => basicLines? .lineEnd taken rest
      | c :: rest => do basicLines? .none ((← unescape? c) :: taken) rest
      | [] => Option.none
  | c :: rest =>
    if fold = .lineEnd || isForbidden c then Option.none else basicLines? .none (c :: taken) rest
  | [] => Option.none

/-- The rest of a text in three single quotes, and what follows it. -/
def literalLines? (taken : List Char) : List Char → Option (List Char × List Char)
  | '\'' :: '\'' :: '\'' :: rest =>
    match rest with
    | '\'' :: '\'' :: rest => some (('\'' :: '\'' :: taken).reverse, rest)
    | '\'' :: rest => some (('\'' :: taken).reverse, rest)
    | rest => some (taken.reverse, rest)
  | '\r' :: '\n' :: rest => literalLines? ('\n' :: '\r' :: taken) rest
  | c :: rest => if isForbidden c && c != '\n' then none else literalLines? (c :: taken) rest
  | [] => none

def dropLineBreak : List Char → List Char
  | '\n' :: rest => rest
  | '\r' :: '\n' :: rest => rest
  | rest => rest

/-- A text in quotes of any kind, and what follows it. -/
def text? : List Char → Option (List Char × List Char)
  | '"' :: '"' :: '"' :: rest => basicLines? .none [] (dropLineBreak rest)
  | '"' :: rest => basicText? [] rest
  | '\'' :: '\'' :: '\'' :: rest => literalLines? [] (dropLineBreak rest)
  | '\'' :: rest => literalText? [] rest
  | _ => none

/-- A character of a key without quotes. -/
def isBare (c : Char) : Bool := c.isAlphanum || c = '_' || c = '-'

/-- One part of a key, and what follows it. -/
def keyPart? (cs : List Char) : Option (String × List Char) :=
  match cs with
  | '"' :: rest => (basicText? [] rest).map fun (key, rest) => (String.ofList key, rest)
  | '\'' :: rest => (literalText? [] rest).map fun (key, rest) => (String.ofList key, rest)
  | cs =>
    let key := cs.takeWhile isBare
    if key = [] then none else some (String.ofList key, cs.dropWhile isBare)

def dropSpaces (cs : List Char) : List Char := cs.dropWhile isSpace

/-- How deep a document may go: the parts of one key, and the brackets around one value. -/
def deepest : Nat := 80

/-- The parts of a key with dots, and what follows it. The number bounds the parts. -/
def keyParts? : Nat → List Char → Option (List String × List Char)
  | 0, _ => none
  | bound + 1, cs => do
    let (part, rest) ← keyPart? (dropSpaces cs)
    match dropSpaces rest with
    | '.' :: rest =>
      let (parts, rest) ← keyParts? bound rest
      return (part :: parts, rest)
    | rest => return ([part], rest)

/-- A key with dots, and what follows it. -/
def key? (cs : List Char) : Option (List String × List Char) := keyParts? deepest cs

end Toml
end DryKiln
