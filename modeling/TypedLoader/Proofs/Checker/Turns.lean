import TypedLoader.Proofs.Checker.Content
import TypedLoader.Proofs.Checker.Exchange
import TypedLoader.Proofs.Outcome

namespace TypedLoader

open TypedLoader.Exchange (Reachable Quiet Carries)

def numbered (requests : List Request) : List NumberedRequest :=
  requests.mapIdx fun k r ↦ (k + 1, r)

theorem numbered_concat (requests : List Request) (r : Request) :
    numbered (requests ++ [r]) = numbered requests ++ [(requests.length + 1, r)] := by
  simp [numbered, List.mapIdx_append]

theorem map_snd_numbered (requests : List Request) :
    (numbered requests).map Prod.snd = requests := by
  simp [numbered, List.mapIdx_eq_zipIdx_map, Function.comp_def]

theorem number_le {requests : List Request} {p : NumberedRequest} (h : p ∈ numbered requests) :
    p.1 ≤ requests.length := by
  obtain ⟨k, hk, rfl⟩ := List.mem_mapIdx.1 h
  exact hk

/-- A session that has handled requests, in a world that stays as it is. -/
def Session.served (w : World) (requests : List Request) : Session := Session.after w {} requests

theorem Session.served_concat (w : World) (requests : List Request) (r : Request) :
    served w (requests ++ [r]) = ((handle w r).run (served w requests)).state :=
  after_append w {} requests [r]

/-- A request, and the response to it after others, within the limits of the wire. -/
structure Session.Sendable (w : World) (requests : List Request) (r : Request) : Prop where
  codes : r.CodesFit
  request : (r.envelope (requests.length + 1)).toJson.Carried
  response : (Response.ofResult (requests.length + 1)
    ((handle w r).run (served w requests)).result).toJson.Carried

/-- The frames of requests, and of the responses of a session to them, are within
the limit. -/
structure Session.FramesFit (w : World) (requests : List Request) : Prop where
  sent : ∀ p ∈ numbered requests, (p.2.envelope p.1).toJson.text.utf8ByteSize ≤ Frame.maxBytes
  answered : ∀ a ∈ Session.answers w {} (numbered requests),
    a.toJson.text.utf8ByteSize ≤ Frame.maxBytes

section Frames

variable {w : World} {requests : List Request} {r : Request}

theorem Session.FramesFit.left {more : List Request} (h : Session.FramesFit w (requests ++ more)) :
    Session.FramesFit w requests := by
  have hprefix : numbered requests <+: numbered (requests ++ more) := by
    rw [numbered, numbered, List.mapIdx_append]
    exact List.prefix_append ..
  obtain ⟨rest, hrest⟩ := hprefix
  refine ⟨fun p hp ↦ h.sent p ?_, fun a ha ↦ h.answered a ?_⟩
  · rw [← hrest]
    exact List.mem_append_left rest hp
  · rw [← hrest, Session.answers_append]
    exact List.mem_append_left _ ha

theorem Session.FramesFit.request (h : Session.FramesFit w (requests ++ [r])) :
    (r.envelope (requests.length + 1)).toJson.text.utf8ByteSize ≤ Frame.maxBytes := by
  refine h.sent (requests.length + 1, r) ?_
  rw [numbered_concat]
  simp

theorem Session.FramesFit.response (h : Session.FramesFit w (requests ++ [r])) :
    (Response.ofResult (requests.length + 1) ((Session.handle w r).run
      (Session.served w requests)).result).toJson.text.utf8ByteSize ≤ Frame.maxBytes := by
  apply h.answered
  rw [numbered_concat, Session.answers_concat, map_snd_numbered]
  exact List.mem_append_right _ List.mem_cons_self

end Frames

theorem Exchange.carries_concat {w : World} {requests : List Request} {r : Request}
    (h : Carries w (numbered requests)) (hr : Session.Sendable w requests r) :
    Carries w (numbered (requests ++ [r])) := by
  rw [numbered_concat]
  refine ⟨?_, ?_, ?_⟩
  · intro p hp
    rcases List.mem_append.1 hp with hp | hp
    · exact h.codes p hp
    · rw [List.mem_singleton.1 hp]
      exact hr.codes
  · intro p hp
    rcases List.mem_append.1 hp with hp | hp
    · exact h.requests p hp
    · rw [List.mem_singleton.1 hp]
      exact hr.request
  · intro a ha
    rw [Session.answers_concat, map_snd_numbered] at ha
    rcases List.mem_append.1 ha with ha | ha
    · exact h.responses a ha
    · rw [List.mem_singleton.1 ha]
      exact hr.response

theorem Exchange.reply_at_rest {w : Workers} {policy : SendPolicy} {home : WorkerHome}
    {x : Exchange} (h : Reachable w policy home x) (hx : Carries (w home) x.issued)
    (quiet : x.Quiet) {k n : Nat} {r : Request} (hk : x.issued[k]? = some (n, r)) :
    x.connection.pending.reply? n = some (Response.received
      ((Session.handle (w home) r).run
        (Session.after (w home) {} ((x.issued.take k).map Prod.snd))).result) := by
  obtain ⟨replied, answered, written, unsent, ht⟩ := h.tracks hx
  have hn : n ∈ x.connection.pending.arrived.map Prod.fst := by
    rw [ht.numbers_eq, ← ht.replied_eq quiet]
    exact List.mem_map.2 ⟨(n, r), List.mem_of_getElem? hk, rfl⟩
  obtain ⟨p, hp, he⟩ := List.mem_map.1 hn
  have hsome : (x.connection.pending.arrived.lookup n).isSome :=
    List.lookup_isSome_iff.2 ⟨p, hp, by simp [he]⟩
  obtain ⟨reply, hreply⟩ := Option.isSome_iff_exists.1 hsome
  obtain ⟨before, rest, harrived, -⟩ := List.lookup_eq_some_iff.1 hreply
  rw [Pending.reply?, hreply]
  apply congrArg
  apply ht.delivered hk
  rw [harrived]
  simp

namespace Client

/-- The client has sent these requests, and has a reply to each. -/
structure InStep (w : Workers) (home : WorkerHome) (requests : List Request) (c : Client) :
    Prop where
  reachable : Reachable w c.policy home ⟨c.connection, numbered requests, .idle⟩
  carries : Carries (w home) (numbered requests)
  next : c.nextSeq = requests.length + 1

section Asking

variable {w : Workers} {home : WorkerHome} {requests : List Request} {c : Client} {r : Request}

def asked (w : Workers) (r : Request) (c : Client) : Client :=
  ((settle w).run (c.request r).2).state

theorem InStep.asked (h : c.InStep w home requests)
    (hr : Session.Sendable (w home) requests r) (small : requests.length + 1 < UInt64.size) :
    (c.asked w r).InStep w home (requests ++ [r]) ∧
      (c.asked w r).reply? c.nextSeq = some (Response.received
        ((Session.handle (w home) r).run (Session.served (w home) requests)).result) := by
  have hcarries := Exchange.carries_concat h.carries hr
  have hissued : numbered (requests ++ [r]) = numbered requests ++ [(c.nextSeq, r)] := by
    rw [numbered_concat, h.next]
  have hsent : Reachable w c.policy home
      ⟨(c.request r).2.connection, numbered (requests ++ [r]), .idle⟩ := by
    rw [hissued]
    refine (h.reachable.client_request (fun p hp ↦ ?_) (h.next ▸ small) r).1
    have := number_le hp
    rw [h.next]
    omega
  obtain ⟨hrest, hquiet⟩ := hsent.settle hcarries
  have hnext : (c.asked w r).nextSeq = c.nextSeq + 1 := rfl
  refine ⟨⟨hrest, hcarries, ?_⟩, ?_⟩
  · rw [hnext, h.next, List.length_append, List.length_singleton]
  · have hlen : (numbered requests).length = requests.length := by simp [numbered]
    have hlast : (numbered (requests ++ [r]))[requests.length]? = some (c.nextSeq, r) := by
      rw [hissued, ← hlen, List.getElem?_concat_length]
    have htake : (numbered (requests ++ [r])).take requests.length = numbered requests := by
      rw [hissued, ← hlen, List.take_left]
    have hreply : (c.asked w r).connection.pending.reply? c.nextSeq = _ :=
      Exchange.reply_at_rest hrest hcarries hquiet hlast
    rw [htake, map_snd_numbered] at hreply
    rw [reply?, List.findSome?_cons, hreply]
    rfl

variable {α : Type}

/-- Waiting for the reply to a request gives what the session gives for it. -/
theorem InStep.run_await (h : c.InStep w home requests) (read? : Json → Option α)
    (hr : Session.Sendable (w home) requests r) (small : requests.length + 1 < UInt64.size) :
    (await ⟨c.nextSeq, read?⟩).run (c.asked w r) =
      ⟨Promise.result ⟨c.nextSeq, read?⟩ (Response.received
        ((Session.handle (w home) r).run (Session.served (w home) requests)).result),
        c.asked w r, []⟩ := by
  have hrun : (await ⟨c.nextSeq, read?⟩).run (c.asked w r) =
      ⟨Promise.result ⟨c.nextSeq, read?⟩
        (((c.asked w r).reply? c.nextSeq).getD (.error .exited)), c.asked w r, []⟩ := rfl
  rw [hrun, (h.asked hr small).2]
  rfl

end Asking

section Starting

variable {w : Workers} {home : WorkerHome} {connector : Connector} {policy : SendPolicy}
  {n : Nat} {c : Client}

theorem inStep_start (hworker : connector n = .ok (.serving home {}))
    (h : start connector policy n = .ok c) : c.InStep w home [] := by
  rw [start, hworker] at h
  obtain rfl := Except.ok.inj h
  exact ⟨.refl, ⟨by simp [numbered], by simp [numbered], by simp [numbered, Session.answers]⟩, rfl⟩

theorem InStep.settle {requests : List Request} (h : c.InStep w home requests) :
    ((settle w).run c).state.InStep w home requests :=
  ⟨(h.reachable.settle h.carries).1, h.carries, h.next⟩

theorem InStep.withSetup {requests : List Request} (h : c.InStep w home requests)
    (setup : Setup) : InStep w home requests { c with setup := some setup } :=
  ⟨h.reachable, h.carries, h.next⟩

end Starting

end Client

def CheckError.sent (e : CheckError) : CheckError := .remote e.kind e.message

theorem CompileError.isMissingOutput_sent (e : CompileError) :
    (CheckError.compile e).sent.isMissingOutput = e.isMissingOutput := by
  cases e <;> rfl

theorem Promise.result_received {α β : Type} {x : Except CheckError α} {content : α → Json}
    {read? : Json → Option β} {f : α → β} (n : Nat)
    (h : ∀ a, x = .ok a → read? (content a) = some (f a)) :
    Promise.result ⟨n, read?⟩ (Response.received (x.map content)) =
      (x.map f).mapError CheckError.sent := by
  cases x with
  | error e => rfl
  | ok a =>
    rw [Except.map, Response.received, Promise.result]
    simp only [h a rfl]
    rfl

end TypedLoader
