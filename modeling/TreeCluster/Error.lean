import TreeCluster.Address
import TreeCluster.Command.Registry
import TreeCluster.Config
import TreeCluster.Json.Error
import TreeCluster.Looper.Mailbox

/-! # Errors of any part

Calls that touch several parts report their errors under one type, each with a word for the part
it comes from (`ClusterError.message`).  Errors that nobody waits for go to a sink, one line
each (`Sink`). -/

namespace TreeCluster

/-- An error of any part. -/
inductive ClusterError where
  | codec (e : CodecError)
  | address (e : AddressError)
  | registry (e : Command.RegistryError)
  | transport (e : TransportError)
  | looper (e : LooperError)
  | config (e : ConfigError)
  | json (e : Json.ReadError)
  deriving DecidableEq

/-- What was wrong with a JSON text. -/
def Json.ReadError.message : Json.ReadError → String
  | .malformed => "malformed text"
  | .cutOff => "text ends too early"
  | .mismatch m => m.message

/-- The sentence that reports the error. -/
def ClusterError.message : ClusterError → String
  | .codec e => "Codec error: " ++ e.message
  | .address e => "Address error: " ++ e.message
  | .registry e => "Registry error: " ++ e.message
  | .transport e => "Transport error: " ++ e.message
  | .looper e => "Looper error: " ++ e.message
  | .config e => "Configuration error: " ++ e.message
  | .json e => e.message

/-- The short name of an error, for programs to tell errors apart: its part and its cause. -/
def ClusterError.code : ClusterError → String
  | .codec (.incomplete _ _) => "Codec.Incomplete"
  | .codec (.frameTooLarge _ _) => "Codec.FrameTooLarge"
  | .codec (.body _) => "Codec.Body"
  | .address .emptyPath => "Address.EmptyPath"
  | .address (.malformedSegment _) => "Address.MalformedSegment"
  | .address (.invalidPort _) => "Address.InvalidPort"
  | .registry (.collision _ _ _) => "Registry.Collision"
  | .registry (.duplicate _) => "Registry.Duplicate"
  | .registry (.unknownCommand _) => "Registry.UnknownCommand"
  | .registry (.unknownName _) => "Registry.UnknownName"
  | .transport .notBound => "Transport.NotBound"
  | .transport .noPeers => "Transport.NoPeers"
  | .transport .localOnly => "Transport.LocalOnly"
  | .transport .closed => "Transport.Closed"
  | .transport (.connect _) => "Transport.Connect"
  | .transport (.backlogged _) => "Transport.Backlogged"
  | .transport (.connectionLost _) => "Transport.ConnectionLost"
  | .transport (.writeTimeout _ _) => "Transport.WriteTimeout"
  | .transport .io => "Transport.Io"
  | .looper .closed => "Looper.Closed"
  | .looper .full => "Looper.Full"
  | .looper .alreadyRunning => "Looper.AlreadyRunning"
  | .looper .zeroPeriod => "Looper.ZeroPeriod"
  | .config _ => "Config.Invalid"
  | .json .malformed => "Json.Syntax"
  | .json .cutOff => "Json.Eof"
  | .json (.mismatch _) => "Json.Data"

/-- The error under which a refused command frame is reported. -/
def Command.ProcessError.toClusterError : Command.ProcessError → ClusterError
  | .codec e => .codec e
  | .registry e => .registry e

/-- The lines of the errors that nobody waited for, in the order of their reports. -/
structure Sink where
  lines : List String
  deriving DecidableEq

namespace Sink

/-- The sink without reports. -/
def empty : Sink :=
  ⟨[]⟩

/-- Takes down an error by what was being done and its sentence. -/
def report (s : Sink) (context message : String) : Sink :=
  ⟨s.lines ++ [context ++ ": " ++ message]⟩

end Sink

end TreeCluster
