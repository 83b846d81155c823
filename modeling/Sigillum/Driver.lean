import Sigillum.Backends
import Sigillum.MemoryLimiter

/-! # Drivers

`internal/driver`: the message a transport hands over, what a driver is built
from and what a send returns.  A driver itself stays outside the model; all the
gateway asks it is whether it can relay raw messages.
-/
namespace Sigillum
open Bytes

structure Attachment where
  filename : Bytes
  contentType : Bytes
  disposition : Bytes
  contentID : Bytes
  content : Bytes
  deriving DecidableEq, Repr

structure Body where
  text : Bytes
  html : Bytes
  deriving DecidableEq, Repr

/-- `driver.Message`; the map of headers is given by its entries. -/
structure Message where
  messageID : Bytes
  fromAddr : Address
  toAddrs : List Address
  cc : List Address
  bcc : List Address
  subject : Bytes
  body : Body
  attachments : List Attachment
  headers : List (Bytes × Bytes)
  deriving DecidableEq, Repr

structure SendResult where
  upstreamID : Bytes
  acceptedAt : Int
  deriving DecidableEq, Repr

/-- `driver.SMTPConfig`; `rootCAs` are the certificates trusted besides the system's. -/
structure SMTPConfig where
  endpoints : List SMTPEndpoint
  authType : AuthType
  username : Bytes
  password : Bytes
  timeout : Int
  helo : Bytes
  rootCAs : Option Bytes
  deriving DecidableEq, Repr

structure GraphConfig where
  tenantID : Bytes
  clientID : Bytes
  clientSecret : Bytes
  deriving DecidableEq, Repr

/-- `driver.Config`. -/
structure Config where
  type : BackendType
  backendKey : Bytes
  smtp : Option SMTPConfig
  graph : Option GraphConfig
  deriving DecidableEq, Repr

/-- A driver, as far as the gateway looks at it. -/
structure Driver where
  /-- Whether it implements `RawSender`. -/
  rawSender : Bool
  deriving DecidableEq, Repr

/-- `net.JoinHostPort`. -/
def joinHostPort (host : Bytes) (port : Int) : Bytes :=
  if host.contains 58 then lit "[" ++ host ++ lit "]:" ++ lit (toString port)
  else host ++ lit ":" ++ lit (toString port)

/-- `preferReadyEndpoints`: those the last probe found unready go last. -/
def preferReadyEndpoints (eps : List SMTPEndpoint) (probed : List EndpointStatus) :
    List SMTPEndpoint :=
  let unready := (probed.filter fun st => !st.ready).map fun st => joinHostPort st.host st.port
  if unready.length = 0 then eps
  else
    eps.filter (fun ep => !unready.contains (joinHostPort ep.host ep.port)) ++
      eps.filter (fun ep => unready.contains (joinHostPort ep.host ep.port))

/-- `Recipients`: To, Cc and Bcc as bare addresses. -/
def Message.recipients (m : Message) : List Bytes :=
  (m.toAddrs ++ m.cc ++ m.bcc).map (·.address)

end Sigillum
