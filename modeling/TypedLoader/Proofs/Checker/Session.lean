import TypedLoader.Checker.Serve
import TypedLoader.Proofs.Checker.Envelope
import TypedLoader.Proofs.Checker.Frame

namespace TypedLoader

/-- Values that arrive as they were sent: the reader accepts their nesting and
their numbers, and a frame holds their text. -/
structure Json.Carried (j : Json) : Prop where
  portable : j.Portable Json.maxDepth
  fits : j.text.utf8ByteSize ≤ Frame.maxBytes

theorem Json.fits_of_length {j : Json} (h : 4 * j.chars.length ≤ Frame.maxBytes) :
    j.text.utf8ByteSize ≤ Frame.maxBytes :=
  (Text.utf8ByteSize_ofList_le j.chars).trans h

abbrev NumberedRequest := Nat × Request

namespace Session

variable (w : World)

def after (s : Session) (requests : List Request) : Session :=
  requests.foldl (fun s r ↦ ((handle w r).run s).state) s

def answers : Session → List NumberedRequest → List Response
  | _, [] => []
  | s, (n, r) :: rest =>
    Response.ofResult n ((handle w r).run s).result :: answers ((handle w r).run s).state rest

theorem after_append (s : Session) (a b : List Request) :
    after w s (a ++ b) = after w (after w s a) b := List.foldl_append

theorem after_concat (s : Session) (a : List NumberedRequest) (p : NumberedRequest) :
    after w s ((a ++ [p]).map Prod.snd) =
      ((handle w p.2).run (after w s (a.map Prod.snd))).state := by
  rw [List.map_append, after_append]
  rfl

theorem answers_append (s : Session) (a b : List NumberedRequest) :
    answers w s (a ++ b) = answers w s a ++ answers w (after w s (a.map Prod.snd)) b := by
  induction a generalizing s with
  | nil => rfl
  | cons p a ih =>
    obtain ⟨n, r⟩ := p
    rw [List.cons_append, answers, answers, ih]
    rfl

theorem answers_concat (s : Session) (a : List NumberedRequest) (p : NumberedRequest) :
    answers w s (a ++ [p]) = answers w s a ++
      [Response.ofResult p.1 ((handle w p.2).run (after w s (a.map Prod.snd))).result] := by
  rw [answers_append]
  rfl

theorem getElem?_answers (s : Session) (requests : List NumberedRequest) (k : Nat) :
    (answers w s requests)[k]? = requests[k]?.map fun p ↦
      Response.ofResult p.1
        ((handle w p.2).run (after w s ((requests.take k).map Prod.snd))).result := by
  induction requests generalizing s k with
  | nil => rfl
  | cons p rest ih =>
    obtain ⟨n, r⟩ := p
    cases k with
    | zero => rfl
    | succ k =>
      rw [answers, List.getElem?_cons_succ, List.getElem?_cons_succ, ih]
      rfl

theorem seqs_answers (s : Session) (requests : List NumberedRequest) :
    (answers w s requests).map (·.seq) = requests.map Prod.fst := by
  induction requests generalizing s with
  | nil => rfl
  | cons p rest ih =>
    obtain ⟨n, r⟩ := p
    rw [answers, List.map_cons, ih, Response.seq_ofResult, List.map_cons]

theorem respond_envelope {n : Nat} {r : Request} (h : (r.envelope n).toJson.Carried)
    (hn : n < UInt64.size) (hr : r.CodesFit) (s : Session) :
    Serve.respond w s (r.envelope n).toJson.text =
      (Response.ofResult n ((handle w r).run s).result, ((handle w r).run s).state,
        ((handle w r).run s).calls) := by
  have ht := RequestEnvelope.ofText?_text h.portable hn
  rw [Serve.respond, ht]
  simp only [answer, Request.request?_envelope hr]
  rfl

end Session

end TypedLoader
