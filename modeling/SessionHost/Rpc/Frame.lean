import SessionHost.Json.Value
import SessionHost.Text.Blank
import SessionHost.Text.Split
import SessionHost.Text.Lowercase

/-!
# Frames

A frame is a block of header lines, an empty line, and as many bytes of JSON as the header
says.  The reader takes one byte after the other, so the division of a stream into chunks
cannot matter; it goes on after an error with whatever follows.

Main definitions:

- `FrameReader`, `FrameReader.step`: the unfinished frame, and what one byte does to it.
- `FrameReader.finish`: what the end of the stream makes of an unfinished frame.
- `readFrames`: all results of a stream.
- `frameBytes`: the bytes of a message.
-/

namespace SessionHost.Rpc

open Json (Value)

/-- The greatest body that is accepted. -/
def maxBody : Nat := 16777216

/-- What is wrong with a frame. -/
inductive FrameFault where
  | lineNotText
  | truncatedHeader
  | missingLength
  | invalidLength (text : String)
  | tooLarge (length : Nat)
  | bodyEnds
  | notJson
deriving DecidableEq

/-- The message of a fault. -/
def FrameFault.message : FrameFault → String
  | .lineNotText => "stream error: stream did not contain valid UTF-8"
  | .truncatedHeader => "stream ended inside a message header"
  | .missingLength => "message header has no Content-Length"
  | .invalidLength text => "invalid Content-Length '" ++ text ++ "'"
  | .tooLarge length =>
    "message of " ++ Text.decimal length ++ " bytes exceeds the " ++ Text.decimal maxBody ++
      " byte limit"
  | .bodyEnds => "stream error: early eof"
  | .notJson => "message body is not JSON: <json>"

/-- A frame's message, or what is wrong with the frame. -/
abbrev FrameResult := Except FrameFault Value

/-- The reader between two bytes.  Bytes are kept last first. -/
inductive FrameReader where
  /-- In a header: whether a line has come, the length so far, and the unfinished line. -/
  | header (started : Bool) (length : Option Nat) (line : List UInt8)
  /-- In a body: the number of bytes to come. -/
  | body (missing : Nat) (seen : List UInt8)

/-- The reader before a frame. -/
def FrameReader.idle : FrameReader := .header false none []

/-- What a header line says. -/
inductive HeaderLine where
  | blank
  | length (value : Nat)
  | other
  | fault (f : FrameFault)

/-- Reads a header line other than the empty one. -/
def HeaderLine.ofField (line : List Char) : HeaderLine :=
  match Text.cutAt? ':' line with
  | none => .other
  | some (name, value) =>
    if (Text.trimChars name).map Char.toLower = "content-length".toList then
      match Text.readUnsigned? Text.maxUInt64 (Text.trimChars value) with
      | some n => .length n
      | none => .fault (.invalidLength (String.ofList (Text.trimChars value)))
    else
      .other

/-- Reads a header line. -/
def HeaderLine.ofBytes (line : List UInt8) : HeaderLine :=
  match Text.ofUtf8? line with
  | none => .fault .lineNotText
  | some text =>
    match Text.trimChars text.toList with
    | [] => .blank
    | cs => HeaderLine.ofField cs

/-- The message in a body. -/
def bodyResult (bytes : List UInt8) : FrameResult :=
  match Value.ofBytes? bytes with
  | some v => .ok v
  | none => .error .notJson

/-- What follows the empty line behind a header. -/
def FrameReader.beginBody (length : Option Nat) : FrameReader × Option FrameResult :=
  match length with
  | none => (.idle, some (.error .missingLength))
  | some n =>
    if maxBody < n then (.idle, some (.error (.tooLarge n)))
    else if n = 0 then (.idle, some (bodyResult []))
    else (.body n [], none)

/-- What a whole header line does. -/
def FrameReader.line (length : Option Nat) (line : List UInt8) :
    FrameReader × Option FrameResult :=
  match HeaderLine.ofBytes line with
  | .blank => FrameReader.beginBody length
  | .length n => (.header true (some n) [], none)
  | .other => (.header true length [], none)
  | .fault f => (.idle, some (.error f))

/-- The byte that ends a line. -/
def newline : UInt8 := 10

/-- What one byte does: the next state, and the frame that the byte completes. -/
def FrameReader.step (r : FrameReader) (b : UInt8) : FrameReader × Option FrameResult :=
  match r with
  | .header started length line =>
    if b = newline then FrameReader.line length (line.reverse ++ [b])
    else (.header started length (b :: line), none)
  | .body missing seen =>
    if missing ≤ 1 then (.idle, some (bodyResult (seen.reverse ++ [b])))
    else (.body (missing - 1) (b :: seen), none)

/-- What the end of the stream makes of an unfinished frame; `none` between two frames. -/
def FrameReader.finish : FrameReader → Option FrameResult
  | .body _ _ => some (.error .bodyEnds)
  | .header started _ [] => if started then some (.error .truncatedHeader) else none
  | .header _ length (b :: line) =>
    match FrameReader.line length (b :: line).reverse with
    | (_, some result) => some result
    | (.body _ _, none) => some (.error .bodyEnds)
    | (.header _ _ _, none) => some (.error .truncatedHeader)

/-- The results of a stream whose first bytes left the reader in state `r`. -/
def FrameReader.run (r : FrameReader) : List UInt8 → List FrameResult
  | [] => r.finish.toList
  | b :: rest =>
    match r.step b with
    | (next, some result) => result :: next.run rest
    | (next, none) => next.run rest

/-- All results of a stream. -/
def readFrames (bytes : List UInt8) : List FrameResult := FrameReader.idle.run bytes

/-- The bytes of a message. -/
def frameBytes (message : Value) : List UInt8 :=
  let body := Text.utf8Bytes message.text
  Text.utf8Bytes ("Content-Length: " ++ Text.decimal body.length ++ "\r\n\r\n") ++ body

end SessionHost.Rpc
