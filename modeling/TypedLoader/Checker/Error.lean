import TypedLoader.Compiler.Error
import TypedLoader.Diagnostic.Basic

namespace TypedLoader

inductive CheckError where
  | stream
  | malformed
  | badHeader (header : String)
  | frameTooLarge (length limit : Nat)
  | notStarted (command : String)
  | exited
  | remote (kind message : String)
  | notInitialized
  | badPattern
  | compile (e : CompileError)
  | messageTooDeep
deriving DecidableEq, Inhabited

namespace CheckError

def kind : CheckError → String
  | stream => "Io"
  | malformed => "InvalidRequest"
  | badHeader _ => "Framing"
  | frameTooLarge .. => "Framing"
  | notStarted _ => "Spawn"
  | exited => "WorkerExited"
  | remote .. => "Remote"
  | notInitialized => "NotInitialized"
  | badPattern => "InvalidPattern"
  | compile e => e.kind
  | messageTooDeep => "Format"

def message : CheckError → String
  | stream => "checker I/O error"
  | malformed => "malformed checker message"
  | badHeader header => "invalid frame header: " ++ header
  | frameTooLarge length limit =>
    "frame of " ++ toString length ++ " bytes exceeds the " ++ toString limit ++ " byte limit"
  | notStarted command => "failed to start checker '" ++ command ++ "'"
  | exited => "checker worker exited"
  | remote kind message => "checker request failed (" ++ kind ++ "): " ++ message
  | notInitialized => "checker received a request before Init"
  | badPattern => "invalid reportFiles pattern"
  | compile e => e.message
  | messageTooDeep =>
    "diagnostic message chain exceeds " ++ toString MessageChain.maxDepth ++ " levels"

def isMissingOutput : CheckError → Bool
  | remote kind _ => kind == "EmitMissingOutput" || kind == "EmitSkipped"
  | compile e => e.isMissingOutput
  | _ => false

end CheckError

end TypedLoader
