import SessionHost.Client.Connection
import SessionHost.Files.Tree
import SessionHost.Text.Utf8

/-!
# Local endpoints

Connecting to the services of one machine that has no network: a pipe is a socket in the file
system, and ports cannot be reached.

Main definitions:

- `connectLocally`: the outcome of an attempt to connect.
- `exchange`: what both sides of a connection receive.
-/

namespace SessionHost

/-- How many bytes the address of a socket has room for. -/
def socketAddressRoom : Nat := 108

/-- What makes a path unfit for the address of a socket: a zero byte, or its length. -/
def socketAddressFault? (p : Path) : Option SystemError :=
  if p.text.toList.contains '\x00' then
    some ⟨.invalidInput, "paths must not contain interior null bytes"⟩
  else if socketAddressRoom ≤ p.text.utf8ByteSize then
    some ⟨.invalidInput, "path must be shorter than SUN_LEN"⟩
  else
    none

/-- The outcome of an attempt to connect, given the paths at which somebody listens. -/
def connectLocally (files : FileTree) (listening : List Path) : Endpoint → Except SystemError Unit
  | .tcp _ => .error (.ofKind .networkUnreachable)
  | .pipe name =>
    match socketAddressFault? ⟨name⟩ with
    | some e => .error e
    | none =>
      if listening.contains ⟨name⟩ then .ok ()
      else
        match files.find ⟨name⟩ with
        | .ok _ => .error (.ofKind .connectionRefused)
        | .error kind => .error (.ofKind kind)

/-- What a server and a client receive when the client sends a text and the server answers it. -/
def exchange (files : FileTree) (listening : List Path) (endpoint : Endpoint)
    (sent answer : String) : Except SystemError (String × String) := do
  connectLocally files listening endpoint
  let k : Connection := { endpoint, answer := some (.ok ()), toServer := Text.utf8Bytes sent }
  let k := (k.deliver (Text.utf8Bytes answer)).silence
  return (Text.ofUtf8Lenient k.toServer, Text.ofUtf8Lenient k.toClient)

end SessionHost
