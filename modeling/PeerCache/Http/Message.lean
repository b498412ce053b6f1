import PeerCache.Http.Status
import PeerCache.Text.Bytes

/-!
# Requests and responses

Messages as values.  The name of a header is looked up whatever its case; its value is a byte
string, which counts as text only if it is visible ASCII (`Header.text?`), and which can only be
sent if it has no control characters (`Header.isSendable`).  Of several headers of one name the
first counts.
-/

namespace PeerCache.Http

structure Header where
  name : String
  value : ByteArray

structure Request where
  method : String
  target : String
  headers : List Header := []
  body : ByteArray := .empty

structure Response where
  status : Nat
  headers : List Header := []
  body : ByteArray := .empty
  /-- Bytes that are announced after the body and never come. -/
  missing : Nat := 0

/-! ## Bytes of headers -/

/-- From the blank to the tilde, or a tab. -/
def isVisible (b : UInt8) : Bool := (32 ≤ b && b < 127) || b == 9

/-- Any byte but control characters; a tab may stand. -/
def isSendableByte (b : UInt8) : Bool := (32 ≤ b && b != 127) || b == 9

def isPadding (b : UInt8) : Bool := b == 32 || b == 9

/-- Bytes without blanks and tabs at both ends. -/
def unpadded (bs : List UInt8) : List UInt8 :=
  ((bs.dropWhile isPadding).reverse.dropWhile isPadding).reverse

/-- A character of a method or of a header's name. -/
def isTokenChar (c : Char) : Bool := c.isAlphanum || "!#$%&'*+-.^_|~".contains c || c.toNat == 96

def isToken (s : String) : Bool := s != "" && s.toList.all isTokenChar

namespace Header

def ofText (name value : String) : Header := ⟨name, value.toUTF8⟩

def isNamed (h : Header) (name : String) : Bool := h.name.toLower == name

/-- The value as text, if all of it is visible. -/
def text? (h : Header) : Option String :=
  let bs := unpadded h.value.data.toList
  if bs.all isVisible then some (String.ofList (bs.map fun b => Char.ofNat b.toNat)) else none

/-- A header that can be part of a message. -/
def isSendable (h : Header) : Bool := isToken h.name && h.value.data.all isSendableByte

end Header

/-- The first header with a name, which is given in small letters. -/
def firstHeader? (hs : List Header) (name : String) : Option Header := hs.find? (·.isNamed name)

namespace Response

def header? (r : Response) (name : String) : Option Header := firstHeader? r.headers name

/-- A response of a content type. -/
def ofContent (status : Nat) (contentType : String) (body : ByteArray) : Response :=
  { status, headers := [.ofText "content-type" contentType], body }

def ofText (status : Nat) (text : String) : Response :=
  ofContent status "text/plain; charset=utf-8" text.toUTF8

def octets (value : ByteArray) : Response := ofContent 200 "application/octet-stream" value

def noContent : Response := { status := 204 }

/-- The answer to a request for the head alone. -/
def headOnly (r : Response) : Response := { r with body := .empty, missing := 0 }

/-- Everything that was announced has come. -/
def isWhole (r : Response) : Bool := r.missing == 0 || Status.isBodiless r.status

/-- The bytes that belong to the answer. -/
def content (r : Response) : ByteArray := if Status.isBodiless r.status then .empty else r.body

end Response

end PeerCache.Http
