import DryKiln.Toml.Scalar
import DryKiln.Toml.Table
/-!
Reading a TOML text into a document.
-/

namespace DryKiln
namespace Toml

/-- What follows a comment; it may hold no control characters. -/
def dropComment? (cs : List Char) : Option (List Char) :=
  let rest := cs.dropWhile fun c => !isForbidden c
  match rest with
  | [] => some []
  | '\n' :: _ => some rest
  | '\r' :: '\n' :: _ => some rest
  | _ => none

/-- Drops blanks, line breaks and comments. The number bounds the comments. -/
def dropBlank? : Nat → List Char → Option (List Char)
  | 0, _ => none
  | bound + 1, cs =>
    match dropSpaces cs with
    | '#' :: rest => dropComment? rest >>= dropBlank? bound
    | '\n' :: rest => dropBlank? bound rest
    | '\r' :: '\n' :: rest => dropBlank? bound rest
    | rest => some rest

mutual

/-- A value and what follows it. The first number bounds the steps, the second the brackets. -/
def value? : Nat → Nat → List Char → Option (Document × List Char)
  | 0, _, _ => none
  | bound + 1, room, cs =>
    match cs with
    | '[' :: rest => do
      guard (room ≠ 0)
      let (items, rest) ← items? bound (room - 1) [] rest
      return (.list items, rest)
    | '\x7b' :: rest => do
      guard (room ≠ 0)
      let (fields, rest) ← inline? bound (room - 1) [] rest
      return (.record (fieldsToDocument fields), rest)
    | '"' :: _ => (text? cs).map fun (s, rest) => (.text (String.ofList s), rest)
    | '\'' :: _ => (text? cs).map fun (s, rest) => (.text (String.ofList s), rest)
    | _ => takeScalar? cs

/-- The rest of a list and what follows it. -/
def items? : Nat → Nat → List Document → List Char → Option (List Document × List Char)
  | 0, _, _, _ => none
  | bound + 1, room, taken, cs => do
    match ← dropBlank? bound cs with
    | ']' :: rest => return (taken.reverse, rest)
    | cs =>
      let (item, rest) ← value? bound room cs
      match ← dropBlank? bound rest with
      | ',' :: rest => items? bound room (item :: taken) rest
      | ']' :: rest => return ((item :: taken).reverse, rest)
      | _ => none

/-- The rest of an inline table and what follows it. Lines may break between any two of its
pieces, but not inside a key. -/
def inline? : Nat → Nat → Fields → List Char → Option (Fields × List Char)
  | 0, _, _, _ => none
  | bound + 1, room, fields, cs => do
    match ← dropBlank? bound cs with
    | '\x7d' :: rest => return (fields, rest)
    | cs =>
      let (parts, rest) ← key? cs
      let key ← parts.getLast?
      let '=' :: rest ← dropBlank? bound rest | none
      let (value, rest) ← value? bound room (← dropBlank? bound rest)
      let fields ← assign parts.dropLast key value .declared fields
      match ← dropBlank? bound rest with
      | ',' :: rest => inline? bound room fields rest
      | '\x7d' :: rest => return (fields, rest)
      | _ => none

end

/-- The end of a line: blanks, a comment, and the line break or the end of the text. -/
def endLine? (cs : List Char) : Option (List Char) := do
  let rest ← match dropSpaces cs with
    | '#' :: rest => dropComment? rest
    | rest => some rest
  match rest with
  | [] => some []
  | '\n' :: rest => some rest
  | '\r' :: '\n' :: rest => some rest
  | _ => none

/-- One line that says something: the header in force, the fields so far, and what follows. -/
def statement? (bound : Nat) (header : List String) (fields : Fields) (cs : List Char) :
    Option (List String × Fields × List Char) := do
  match cs with
  | '[' :: '[' :: rest =>
    let (parts, rest) ← key? rest
    let ']' :: ']' :: rest := rest | none
    let key ← parts.getLast?
    return (parts, ← declareItem parts.dropLast key fields, ← endLine? rest)
  | '[' :: rest =>
    let (parts, rest) ← key? rest
    let ']' :: rest := rest | none
    let key ← parts.getLast?
    return (parts, ← declare parts.dropLast key fields, ← endLine? rest)
  | cs =>
    let (parts, rest) ← key? cs
    let '=' :: rest := rest | none
    let (value, rest) ← value? bound deepest (dropSpaces rest)
    let key ← parts.getLast?
    return (header, ← assignBelow header parts.dropLast key value fields, ← endLine? rest)

/-- The statements of a text. The number bounds them. -/
def statements? (size : Nat) : Nat → List String → Fields → List Char → Option Fields
  | 0, _, _, _ => none
  | bound + 1, header, fields, cs => do
    match ← dropBlank? size cs with
    | [] => return fields
    | cs =>
      let (header, fields, rest) ← statement? size header fields cs
      statements? size bound header fields rest

/-- The document of a TOML text. A byte order mark in front does not count. -/
def read? (text : String) : Option Document :=
  let cs := match text.toList with
    | '\uFEFF' :: cs => cs
    | cs => cs
  let size := 2 * cs.length + 2
  (statements? size size [] [] cs).map fun fields => .record (fieldsToDocument fields)

end Toml
end DryKiln
