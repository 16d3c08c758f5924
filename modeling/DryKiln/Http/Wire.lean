import DryKiln.Http.Exchange
import DryKiln.Json.Writer
/-!
Requests and responses as they go over a connection that is closed after one response.
-/

namespace DryKiln
namespace Http

/-- Where a request goes. -/
structure Address where
  host : String
  port : Nat
  /-- The path and the query; never empty. -/
  target : String
deriving DecidableEq, Repr

/-- A whole number in decimal digits. -/
def decimalNumber? (cs : List Char) : Option Nat :=
  if cs = [] || !cs.all Char.isDigit then none else some (Nat.ofDigitChars 10 cs 0)

/-- A character that ends the host and the port. -/
def endsAuthority (c : Char) : Bool := c = '/' || c = '?' || c = '#'

/-- The address in a URL; only plain connections are known. -/
def Address.ofUrl? (url : String) : Option Address :=
  match url.toList with
  | 'h' :: 't' :: 't' :: 'p' :: ':' :: '/' :: '/' :: rest => do
    let authority := rest.takeWhile fun c => !endsAuthority c
    let target := (rest.dropWhile fun c => !endsAuthority c).takeWhile (· != '#')
    let host := authority.takeWhile (· != ':')
    let port ← match authority.dropWhile (· != ':') with
      | [] => some 80
      | _ :: digits => decimalNumber? digits
    if host = [] ∨ 65535 < port then none
    else return {
      host := String.ofList host
      port
      target := match target with
        | '/' :: _ => String.ofList target
        | _ => String.ofList ('/' :: target) }
  | _ => none

/-- A line of the head. -/
def headLine (text : String) : String := text ++ "\r\n"

/-- The text of a request. -/
def requestText (address : Address) (request : Request) : String :=
  let body := match request.body with
    | some d => Json.text .compact d
    | none => ""
  let bodyLines := match request.body with
    | some _ => headLine "Content-Type: application/json" ++
        headLine ("Content-Length: " ++ toString body.utf8ByteSize)
    | none => ""
  headLine (request.method.label ++ " " ++ address.target ++ " HTTP/1.1") ++
    headLine ("Host: " ++ address.host ++ ":" ++ toString address.port) ++
    headLine "Accept: */*" ++ headLine "Connection: close" ++ bodyLines ++ headLine "" ++ body

/-- The bytes in front of the first empty line and those behind it. -/
def splitHead? : List UInt8 → Option (List UInt8 × List UInt8)
  | 13 :: 10 :: 13 :: 10 :: rest => some ([], rest)
  | byte :: rest => (splitHead? rest).map fun (head, body) => (byte :: head, body)
  | [] => none

/-- The bytes in front of the first line break and those behind it. -/
def splitLine? : List UInt8 → Option (List UInt8 × List UInt8)
  | 13 :: 10 :: rest => some ([], rest)
  | byte :: rest => (splitLine? rest).map fun (line, more) => (byte :: line, more)
  | [] => none

/-- Bytes as characters, one for each. -/
def plainText (bytes : List UInt8) : List Char := bytes.map fun byte => Char.ofNat byte.toNat

/-- The number in hexadecimal digits at the start of a line. -/
def hexNumber? (cs : List Char) : Option Nat :=
  let digit? (c : Char) : Option Nat :=
    if c.isDigit then some (c.toNat - 48)
    else if 'a' ≤ c.toLower ∧ c.toLower ≤ 'f' then some (c.toLower.toNat - 87)
    else none
  let digits := cs.takeWhile fun c => (digit? c).isSome
  if digits = [] then none
  else digits.foldlM (fun value c => (digit? c).map fun digit => 16 * value + digit) 0

/-- The body in chunks; the number bounds them. -/
def unchunk? : Nat → List UInt8 → Option (List UInt8)
  | 0, _ => none
  | bound + 1, bytes => do
    let (line, rest) ← splitLine? bytes
    let size ← hexNumber? (plainText line)
    if size = 0 then some []
    else
      let chunk := rest.take size
      if chunk.length < size then none
      else
        match rest.drop size with
        | 13 :: 10 :: more => (chunk ++ ·) <$> unchunk? bound more
        | _ => none

/-- The value of a header, without blanks around it and in small letters. -/
def headerValue? (name : String) (lines : List (List Char)) : Option String :=
  lines.findSome? fun line =>
    let key := (line.takeWhile (· != ':')).map Char.toLower
    match line.dropWhile (· != ':') with
    | _ :: value =>
      if String.ofList key = name then
        some (String.ofList (((value.dropWhile (· = ' ')).reverse.dropWhile (· = ' ')).reverse.map
          Char.toLower))
      else none
    | [] => none

/-- The lines of a head. -/
def headLines : List Char → List (List Char)
  | [] => [[]]
  | '\r' :: '\n' :: rest => [] :: headLines rest
  | c :: rest =>
    match headLines rest with
    | [] => [[c]]
    | line :: lines => (c :: line) :: lines

/-- The status in the first line of a head. -/
def statusOf? (line : List Char) : Option Nat :=
  decimalNumber? (((line.dropWhile (· != ' ')).drop 1).takeWhile (· != ' '))

/-- The response in all the bytes of a connection. -/
def responseOf? (bytes : List UInt8) : Option Response := do
  let (head, rest) ← splitHead? bytes
  let lines := headLines (plainText head)
  let status ← statusOf? (lines.headD [])
  let body ←
    if headerValue? "transfer-encoding" (lines.drop 1) = some "chunked" then
      unchunk? (rest.length + 1) rest
    else
      match headerValue? "content-length" (lines.drop 1) with
      | none => some rest
      | some value => do
        let size ← decimalNumber? value.toList
        if rest.length < size then none else some (rest.take size)
  return ⟨status, String.fromUTF8? ⟨body.toArray⟩⟩

end Http
end DryKiln
