import TypedLoader.Checker.Frame
import TypedLoader.Checker.Session

namespace TypedLoader.Serve

def seqHint (message : String) : Nat :=
  let seq? : Option Nat := do (← (← Json.ofText? message).get? "seq").natBelow? UInt64.size
  seq?.getD 0

def respond (w : World) (s : Session) (message : String) : Response × Session × List Call :=
  match RequestEnvelope.ofText? message with
  | some e => s.answer w e
  | none => (Response.error (seqHint message) .malformed, s, [])

def respondAll (w : World) (s : Session) : List String → List Response × Session × List Call
  | [] => ([], s, [])
  | message :: rest =>
    if Text.allBlank message then respondAll w s rest
    else
      let (response, s, calls) := respond w s message
      let (responses, s, moreCalls) := respondAll w s rest
      (response :: responses, s, calls ++ moreCalls)

def encode (r : Response) : Bytes := Frame.encode r.toJson.text

def failureText (e : CheckError) : String := "failed to read checker request: " ++ e.message

/-- What a worker writes for an input that has ended, and the error it ends
with. -/
structure Served where
  output : Bytes
  failure : Option CheckError
  session : Session
  calls : List Call

def run (w : World) (input : Bytes) : Served :=
  let (messages, failure) := Frame.readAll input
  let (responses, session, calls) := respondAll w {} messages
  { output := responses.flatMap encode, failure, session, calls }

end TypedLoader.Serve
