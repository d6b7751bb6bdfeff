import Czy.Spec.TcpServer

/-! net/tcp_client.cpp: the connections that a client makes one after the other, with the
`toIpPort` of net/inetaddress.cpp and net/socketops.cpp. -/

namespace Czy.Net

def inetAddrStrLen : ℕ := 16

def inet6AddrStrLen : ℕ := 46

/-- The characters of an address as `inet_ntop` prints it. -/
def addrChars : List Char := "0123456789abcdef.:".toList

/-- The family is `AF_INET6` or `AF_INET`; `ip` is what `inet_ntop` prints of the address. -/
structure InetAddress where
  ipv6 : Bool
  ip : String
  port : UInt16
  ip_length : ip.length < if ipv6 then inet6AddrStrLen else inetAddrStrLen
  ip_chars : ∀ c ∈ ip.toList, c ∈ addrChars

namespace InetAddress

/-- `sockets::toIp` with a buffer of that size. -/
def toIp (addr : InetAddress) (size : ℕ) : Except Fault String := do
  if addr.ipv6 then require (size ≥ inet6AddrStrLen) "size >= INET6_ADDRSTRLEN"
  else require (size ≥ inetAddrStrLen) "size >= INET_ADDRSTRLEN"
  return addr.ip

/-- `sockets::toIpPort` with a buffer of that size. -/
def toIpPortBuf (addr : InetAddress) (size : ℕ) : Except Fault String := do
  if addr.ipv6 then
    let ip ← addr.toIp (size - 1)
    let buf := "[" ++ ip
    require (size > buf.length) "size > end"
    return buf ++ snprintf (size - buf.length) ("]:" ++ addr.port.toNat.repr)
  else
    let buf ← addr.toIp size
    require (size > buf.length) "size > end"
    return buf ++ snprintf (size - buf.length) (":" ++ addr.port.toNat.repr)

def toIpPort (addr : InetAddress) : Except Fault String := addr.toIpPortBuf 64

end InetAddress

/-- `connection` is the name of `connection_`; `connnames` are those of all connections made so
far and is history. -/
structure TcpClient where
  loop : LoopId
  name : String
  nextConnId : ℤ
  connection : Option String
  connnames : List String
  deriving DecidableEq, Repr

namespace TcpClient

def new (loop : LoopId) (nameArg : String) : TcpClient := ⟨loop, nameArg, 1, none, []⟩

def conname (name ipPort : String) (connId : ℤ) : String :=
  name ++ snprintf 32 (":" ++ cStr ipPort ++ "#" ++ connId.repr)

def newConnection (c : TcpClient) (t : LoopId) (peerAddr : InetAddress) : Except Fault TcpClient := do
  assertInLoopThread t c.loop
  let ipPort ← peerAddr.toIpPort
  let conname := conname c.name ipPort c.nextConnId
  return { c with
    nextConnId := incInt c.nextConnId
    connection := some conname
    connnames := c.connnames ++ [conname] }

/-- The connector calls `newConnection` in the thread of the loop. -/
def step (c : TcpClient) (peerAddr : InetAddress) : Except Fault TcpClient :=
  c.newConnection c.loop peerAddr

end TcpClient

end Czy.Net
