import PeerCache.Http.Message
import PeerCache.Text.Numeral

/-!
# Messages as bytes

How requests and responses of HTTP/1.1 stand in a stream of bytes: a first line, headers, an empty
line, and a body whose end is settled before it is read (`Extent`).  Reading is given all bytes
that have come so far, and either finds a whole message at their beginning or says that more has
to come (`Reading`).
-/

namespace PeerCache.Http.Framing

/-- What can be read at the beginning of some bytes. -/
inductive Reading (α : Type) where
  | more
  | refused
  /-- Something whole, and where it ends. -/
  | whole (value : α) (stop : Nat)

/-- How the end of a body is known. -/
inductive Extent where
  | size (n : Nat)
  | chunks
  /-- The body ends with the stream. -/
  | stream

namespace Reading

def map {α β : Type} (f : α → β) : Reading α → Reading β
  | more => more
  | refused => refused
  | whole a stop => whole (f a) stop

/-- Goes on where something whole ends. -/
def bind {α β : Type} (r : Reading α) (f : α → Nat → Reading β) : Reading β :=
  match r with
  | more => more
  | refused => refused
  | whole a stop => f a stop

end Reading

/-! ## Lines -/

/-- Where the next line feed is. -/
def lineFeed? (b : ByteArray) (i : Nat) : Option Nat :=
  if h : i < b.size then (if b[i] == 10 then some i else lineFeed? b (i + 1)) else none
termination_by b.size - i

/-- The line that begins at a place, without its end. -/
def line (b : ByteArray) (i : Nat) : Reading (List UInt8) :=
  match lineFeed? b i with
  | none => .more
  | some j =>
    let bs := (b.extract i j).data.toList
    .whole (if bs.getLast? == some 13 then bs.dropLast else bs) (j + 1)

def textOf (bs : List UInt8) : String := String.ofList (bs.map fun b => Char.ofNat b.toNat)

/-- A name, a colon and a value. -/
def header? (bs : List UInt8) : Option Header :=
  match bs.span (· != 58) with
  | (name, _ :: value) =>
    if isToken (textOf name) then some ⟨textOf name, ⟨(unpadded value).toArray⟩⟩ else none
  | (_, []) => none

/-- More headers than these are refused. -/
def maxHeaders : Nat := 100

/-- At most `room` headers and the empty line after them. -/
def headers (b : ByteArray) : Nat → Nat → Reading (List Header)
  | 0, _ => .refused
  | room + 1, i =>
    (line b i).bind fun bs j =>
      if bs.isEmpty then .whole [] j
      else match header? bs with
        | none => .refused
        | some h => (headers b room j).map (h :: ·)

/-! ## Bodies -/

/-- The extent of a body with these headers; `otherwise` if they do not tell. -/
def extent? (hs : List Header) (otherwise : Extent) : Option Extent :=
  match firstHeader? hs "transfer-encoding", firstHeader? hs "content-length" with
  | some h, _ => if (h.text?.map String.toLower) == some "chunked" then some .chunks else none
  | none, some h => (h.text?.bind fun s => Numeral.readDigits? Numeral.word64 s.toList).map .size
  | none, none => some otherwise

def hexDigit? (b : UInt8) : Option Nat :=
  if 48 ≤ b && b ≤ 57 then some (b.toNat - 48)
  else if 97 ≤ b && b ≤ 102 then some (b.toNat - 87)
  else if 65 ≤ b && b ≤ 70 then some (b.toNat - 55)
  else none

/-- The size at the beginning of a chunk; what follows a semicolon says nothing about it. -/
def chunkSize? (bs : List UInt8) : Option Nat :=
  match unpadded (bs.takeWhile (· != 59)) with
  | [] => none
  | ds => ds.foldlM (fun n d => (hexDigit? d).map (16 * n + ·)) 0

/-- Chunks up to the empty one and the headers after it. -/
def chunks (b : ByteArray) (done : ByteArray) : Nat → Nat → Reading ByteArray
  | 0, _ => .refused
  | room + 1, i =>
    (line b i).bind fun bs j =>
      match chunkSize? bs with
      | none => .refused
      | some 0 => (headers b maxHeaders j).map fun _ => done
      | some n =>
        if b.size < j + n then .more
        else (line b (j + n)).bind fun bs k =>
          if bs.isEmpty then chunks b (done ++ b.extract j (j + n)) room k else .refused

/-- A body, and the number of bytes that it lacks because the stream has ended. -/
def body (b : ByteArray) (i : Nat) (ended : Bool) : Extent → Reading (ByteArray × Nat)
  | .size n =>
    if i + n ≤ b.size then .whole (b.extract i (i + n), 0) (i + n)
    else if ended then .whole (b.extract i b.size, i + n - b.size) b.size
    else .more
  | .chunks =>
    match chunks b .empty (b.size + 1) i with
    | .more => if ended then .whole (.empty, 1) b.size else .more
    | r => r.map fun value => (value, 0)
  | .stream => if ended then .whole (b.extract i b.size, 0) b.size else .more

/-! ## Messages -/

/-- The first line in its parts, and the headers. -/
def head (b : ByteArray) (i : Nat) : Reading (List String × List Header) :=
  (line b i).bind fun bs j =>
    if bs.all isVisible then (headers b maxHeaders j).map fun hs => ((textOf bs).splitOn " ", hs)
    else .refused

/-- A request of version 1.0 or 1.1, and whether another may follow it. -/
def request (b : ByteArray) : Reading (Request × Bool) :=
  (head b 0).bind fun
    | ([method, target, version], hs), i =>
      match extent? hs (.size 0) with
      | none => .refused
      | some e =>
        if version != "HTTP/1.1" && version != "HTTP/1.0" then .refused
        else (body b i false e).map fun r =>
          let closes := ((firstHeader? hs "connection").bind Header.text?).map String.toLower
          (⟨method, target, hs, r.1⟩, version == "HTTP/1.1" && closes != some "close")
    | _, _ => .refused

/-- A response from a place on, when the stream may have ended. -/
def responseAt (b : ByteArray) (i : Nat) (ended : Bool) : Reading Response :=
  (head b i).bind fun
    | (_ :: code :: _, hs), j =>
      match Numeral.readDigits? 1000 code.toList with
      | none => .refused
      | some status =>
        if Status.isInterim status || Status.isBodiless status then .whole { status, headers := hs } j
        else match extent? hs .stream with
          | none => .refused
          | some e => (body b j ended e).map fun r => ⟨status, hs, r.1, r.2⟩
    | _, _ => .refused

/-- The first response that is not merely interim, of the next `room` ones. -/
def responseFrom (b : ByteArray) (ended : Bool) : Nat → Nat → Reading Response
  | 0, _ => .refused
  | room + 1, i =>
    (responseAt b i ended).bind fun r j =>
      if Status.isInterim r.status then responseFrom b ended room j else .whole r j

def response (b : ByteArray) (ended : Bool) : Reading Response := responseFrom b ended 16 0

/-! ## Writing -/

def lineEnd : String := "\r\n"

def headerBytes (h : Header) : ByteArray := (h.name ++ ": ").toUTF8 ++ h.value ++ lineEnd.toUTF8

/-- A first line, headers, and a body whose size is announced unless there can be none. -/
def messageBytes (first : String) (hs : List Header) (body : Option ByteArray) : ByteArray :=
  let announced := (body.map fun b => Header.ofText "content-length" (toString b.size)).toList
  (hs ++ announced).foldl (fun b h => b ++ headerBytes h) (first ++ lineEnd).toUTF8 ++
    lineEnd.toUTF8 ++ body.getD .empty

def responseBytes (r : Response) : ByteArray :=
  messageBytes ("HTTP/1.1 " ++ Status.text r.status) r.headers
    (if Status.isBodiless r.status then none else some r.body)

/-- A request to a host, the only one on its connection. -/
def requestBytes (host : String) (r : Request) : ByteArray :=
  messageBytes (r.method ++ " " ++ r.target ++ " HTTP/1.1")
    (.ofText "host" host :: .ofText "connection" "close" :: r.headers)
    (if r.body.isEmpty then none else some r.body)

end PeerCache.Http.Framing
