import SessionHost.Handshake
import SessionHost.SystemError

/-!
# Connections

A connection carries bytes both ways between a client and a server.  The way to the server
holds a limited number of bytes that the server has not taken yet.

Main definitions:

- `Connection`: a connection from the attempt to open it on.
- `Connection.accept`: puts bytes on the way to the server.
- `Connection.sever`: the server ends its way, or drops the connection.
-/

namespace SessionHost

/-- A connection, or the attempt to open one. -/
structure Connection where
  endpoint : Endpoint
  /-- What came of the attempt, when that is known. -/
  answer : Option (Except SystemError Unit) := none
  toServer : List UInt8 := []
  toClient : List UInt8 := []
  /-- The server sends nothing more. -/
  serverSilent : Bool := false
  /-- The server has dropped the connection. -/
  serverGone : Bool := false

namespace Connection

/-- How many bytes fit on the way to the server. -/
def capacity : Nat := 65536

/-- The room on the way to the server. -/
def room (c : Connection) : Nat := capacity - c.toServer.length

/-- Puts as many bytes as fit on the way to the server; the others remain. -/
def accept (c : Connection) (bytes : List UInt8) : Connection × List UInt8 :=
  ({ c with toServer := c.toServer ++ bytes.take c.room }, bytes.drop c.room)

/-- The server sends bytes; after the end of its way they are lost. -/
def deliver (c : Connection) (bytes : List UInt8) : Connection :=
  if c.serverSilent then c else { c with toClient := c.toClient ++ bytes }

/-- The server ends its way. -/
def silence (c : Connection) : Connection := { c with serverSilent := true }

/-- The server drops the connection. -/
def sever (c : Connection) : Connection :=
  { c with serverSilent := true, serverGone := true, toServer := [] }

end Connection

end SessionHost
