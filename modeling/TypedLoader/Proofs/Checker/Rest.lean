import TypedLoader.Proofs.Checker.Turns

namespace TypedLoader

/-- The wire carries a request to a session, and the response to it. -/
structure Session.Carries (w : World) (s : Session) (n : Nat) (r : Request) : Prop where
  number : n < UInt64.size
  codes : r.CodesFit
  request : (r.envelope n).toJson.Carried
  response : (Response.ofResult n ((Session.handle w r).run s).result).toJson.Carried

namespace Connection

variable {w : Workers} {home : WorkerHome} {s : Session} {c : Connection} {n : Nat} {r : Request}

structure AtRest (home : WorkerHome) (s : Session) (c : Connection) : Prop where
  worker : c.worker = .serving home s
  sender : c.sender.Holds []
  awake : c.sender.Awake c.held
  input : c.input = []
  output : c.output = []
  waiting : c.pending.waiting = []
  alive : c.pending.alive = true
  reading : c.reading = true

theorem atRest_make (policy : SendPolicy) (home : WorkerHome) (s : Session) :
    (make policy (.serving home s)).AtRest home s where
  worker := rfl
  sender := Sender.holds_make policy capacity
  awake := Sender.awake_make policy (by decide)
  input := rfl
  output := rfl
  waiting := rfl
  alive := rfl
  reading := rfl

structure Sends (home : WorkerHome) (s : Session) (n : Nat) (r : Request)
    (arrived : List (Nat × Reply)) (c : Connection) : Prop where
  worker : c.worker = .serving home s
  sent : c.sender.Holds [NumberedRequest.frame (n, r)] ∧ c.input = [] ∨
    c.sender.Holds [] ∧ c.input = NumberedRequest.frame (n, r)
  awake : c.sender.Awake c.held
  output : c.output = []
  pending : c.pending = { waiting := [n], arrived }
  reading : c.reading = true

theorem AtRest.request (h : c.AtRest home s) (n : Nat) (r : Request) :
    (c.request n r).Sends home s n r c.pending.arrived := by
  have hregistered : (c.register n).pending = { waiting := [n], arrived := c.pending.arrived } := by
    rw [register, Pending.register, h.waiting, h.alive]
    rfl
  obtain ⟨t, hsend, hholds, hawake⟩ := send_of_holds (c := c.register n) h.sender h.awake n r
  have hconfirm : c.request n r = { c.register n with sender := t } := by
    rw [Connection.request, hsend, confirm, if_pos]
    exact h.alive
  rw [hconfirm]
  exact ⟨h.worker, Or.inl ⟨hholds, h.input⟩, hawake, h.output, hregistered, h.reading⟩

theorem Sends.writeAll {arrived : List (Nat × Reply)} (h : c.Sends home s n r arrived) :
    c.writeAll.Sends home s n r arrived ∧ c.writeAll.sender.Holds [] ∧
      c.writeAll.input = NumberedRequest.frame (n, r) := by
  have hall : c.writeAll.Sends home s n r arrived := by
    refine exhaust_invariant (p := fun c ↦ c.Sends home s n r arrived) write? toWrite write_lt
      (fun {a b} hs ha ↦ ?_) c h
    have hended : a.worker.hasEnded = false := by rw [ha.worker]; rfl
    rcases ha.sent with ⟨hholds, hinput⟩ | ⟨hholds, hinput⟩
    · rcases write?_of_holds hholds ha.awake hended hs with
        ⟨t, ht, hawake, rfl⟩ | ⟨frame, rest, t, hframes, ht, hawake, rfl⟩
      · exact { ha with sent := Or.inl ⟨ht, hinput⟩, awake := hawake }
      · obtain ⟨rfl, rfl⟩ := List.cons.inj hframes
        refine { ha with sent := Or.inr ⟨ht, ?_⟩, awake := hawake }
        simp [hinput]
    · rcases write?_of_holds hholds ha.awake hended hs with
        ⟨t, ht, hawake, rfl⟩ | ⟨frame, rest, t, hframes, -⟩
      · exact { ha with sent := Or.inr ⟨ht, hinput⟩, awake := hawake }
      · cases hframes
  have hstop : c.writeAll.write? = none := step_exhaust ..
  refine ⟨hall, ?_⟩
  rcases hall.sent with ⟨hholds, -⟩ | hsent
  · obtain ⟨hchannel, hqueue⟩ := queue_eq_nil_of_write? hholds hall.awake hstop
    have hframes := hholds.frames_eq
    rw [hchannel, hqueue] at hframes
    cases hframes
  · exact hsent

theorem Sends.settle_of {arrived : List (Nat × Reply)} (h : c.Sends home s n r arrived)
    {a : Response} {s' : Session}
    (hwork : ∀ d : Connection, d.worker = .serving home s →
      d.input = NumberedRequest.frame (n, r) ++ [] → ∃ calls, d.work? w = some ({ d with
        worker := .serving home s'
        input := []
        output := d.output ++ Serve.encode a }, calls))
    (hcarried : a.toJson.Carried) (hseq : a.seq < UInt64.size) :
    ∃ d : Connection, (c.settle w).1 = { d with
        worker := .serving home s'
        input := []
        output := []
        pending := Pending.resolve { waiting := [n], arrived } a.seq a.result } ∧
      d.sender.Holds [] ∧ d.sender.Awake d.held ∧ d.reading = true := by
  obtain ⟨hwritten, hholds, hinput⟩ := h.writeAll
  generalize hd : c.writeAll = d at hwritten hholds hinput
  obtain ⟨calls, hwork⟩ := hwork d hwritten.worker (hinput.trans (List.append_nil _).symm)
  let answered : Connection := { d with
    worker := .serving home s'
    input := []
    output := Serve.encode a }
  have hworked : (d.workAll w).1 = answered := by
    have hstep : workOn? w (d, []) = some (answered, calls) := by
      rw [workOn?, hwork, hwritten.output]
      rfl
    have hidle : workOn? w (answered, calls) = none := by
      rw [workOn?, work?_nil (s := s') rfl rfl]
      rfl
    rw [workAll, exhaust_of_some _ _ _ hstep, exhaust_of_none _ _ _ hidle]
  have houtput : answered.output = Serve.encode a ++ [] := (List.append_nil _).symm
  have hread := read?_frame (c := answered) hwritten.reading rfl houtput hcarried hseq
  refine ⟨d, ?_, hholds, hwritten.awake, hwritten.reading⟩
  have hrest : (c.settle w).1 = ((c.writeAll.workAll w).1).readAll := rfl
  rw [hrest, hd, hworked, readAll, exhaust_of_some _ _ _ hread, exhaust_of_none, ← hwritten.pending]
  exact read?_nil rfl rfl

theorem Sends.settle {arrived : List (Nat × Reply)} (h : c.Sends home s n r arrived)
    (hr : Session.Carries (w home) s n r) :
    let o := (Session.handle (w home) r).run s
    (c.settle w).1.AtRest home o.state ∧
      (c.settle w).1.pending.arrived = arrived ++ [(n, Response.received o.result)] := by
  intro o
  obtain ⟨d, hsettled, hholds, hawake, hreading⟩ := h.settle_of (w := w)
    (fun d hworker hinput ↦ work?_frame hworker hinput hr.request hr.number hr.codes)
    hr.response (by rw [Response.seq_ofResult]; exact hr.number)
  rw [Response.seq_ofResult, Response.result_ofResult, Pending.resolve_head rfl] at hsettled
  rw [hsettled]
  exact ⟨⟨rfl, hholds, hawake, rfl, rfl, rfl, rfl, hreading⟩, rfl⟩

/-- A message that the worker cannot read is answered under the number 0, and a request with
another number goes on waiting. -/
theorem Sends.settle_unread {arrived : List (Nat × Reply)} (h : c.Sends home s n r arrived)
    (hfits : (r.envelope n).toJson.text.utf8ByteSize ≤ Frame.maxBytes)
    (hunread : Json.ofText? (r.envelope n).toJson.text = none)
    (hrefused : RequestEnvelope.ofText? (r.envelope n).toJson.text = none) (hn : n ≠ 0) :
    (c.settle w).1.pending = { waiting := [n], arrived } := by
  have hrespond : Serve.respond (w home) s (r.envelope n).toJson.text =
      (Response.error 0 .malformed, s, []) := by
    rw [Serve.respond, hrefused, Serve.seqHint, hunread]
    rfl
  have hwork (d : Connection) (hworker : d.worker = .serving home s)
      (hinput : d.input = NumberedRequest.frame (n, r) ++ []) : ∃ calls, d.work? w = some ({ d with
        worker := .serving home s
        input := []
        output := d.output ++ Serve.encode (Response.error 0 .malformed) }, calls) := by
    have hnext : Frame.next false (NumberedRequest.frame (n, r) ++ []) =
        .message (r.envelope n).toJson.text [] := Frame.next_encode false hfits []
    have hblank : Text.allBlank (r.envelope n).toJson.text = false := Json.text_ne_blank
    refine ⟨Worker.seenCalls home [], ?_⟩
    rw [work?, hworker, hinput, Worker.step?, hnext]
    simp only [Worker.answer, hblank, hrespond]
    rfl
  have hcarried : (Response.error 0 .malformed).toJson.Carried := by
    have hdepth : Json.maxDepth = 126 + 1 := rfl
    refine ⟨?_, by decide +kernel⟩
    simp [hdepth, Response.error, Response.toJson, Json.Number.IsWord]
  obtain ⟨d, hsettled, -⟩ := h.settle_of (w := w) hwork hcarried (by decide)
  have hkept : Pending.resolve { waiting := [n], arrived } 0
      (Response.error 0 .malformed).result = { waiting := [n], arrived } := by
    have hwaits : [n].contains 0 = false := by simpa using hn.symm
    rw [Pending.resolve, hwaits]
    rfl
  rw [hsettled]
  exact hkept

theorem AtRest.settle (h : c.AtRest home s) :
    (c.settle w).1.AtRest home s ∧ (c.settle w).1.pending = c.pending := by
  have hwritten : c.writeAll.AtRest home s ∧ c.writeAll.pending = c.pending := by
    refine exhaust_invariant (p := fun d ↦ d.AtRest home s ∧ d.pending = c.pending) write? toWrite
      write_lt (fun {a b} hs ha ↦ ?_) c ⟨h, rfl⟩
    obtain ⟨ha, hpending⟩ := ha
    have hended : a.worker.hasEnded = false := by rw [ha.worker]; rfl
    rcases write?_of_holds ha.sender ha.awake hended hs with
      ⟨t, ht, hawake, rfl⟩ | ⟨frame, rest, t, hframes, -⟩
    · exact ⟨{ ha with sender := ht, awake := hawake }, hpending⟩
    · cases hframes
  obtain ⟨hwritten, hpending⟩ := hwritten
  generalize hd : c.writeAll = d at hwritten hpending
  have hidle : workOn? w (d, []) = none := by
    rw [workOn?, work?_nil hwritten.worker hwritten.input]
    rfl
  have hended : d.worker.hasEnded = false := by rw [hwritten.worker]; rfl
  have hsettled : (c.settle w).1 = d := by
    have hrest : (c.settle w).1 = ((c.writeAll.workAll w).1).readAll := rfl
    rw [hrest, hd, workAll, exhaust_of_none _ _ _ hidle, readAll, exhaust_of_none]
    exact read?_nil hended hwritten.output
  rw [hsettled]
  exact ⟨hwritten, hpending⟩

end Connection

namespace Client

variable {w : Workers} {home : WorkerHome} {s : Session} {c : Client} {r : Request}

/-- The worker of the client serves with this session, and nothing is under way. -/
structure Rests (home : WorkerHome) (s : Session) (c : Client) : Prop where
  connection : c.connection.AtRest home s
  earlier : ∀ p ∈ c.connection.pending.arrived, p.1 < c.nextSeq

theorem rests_start {connector : Connector} {policy : SendPolicy} {n : Nat}
    (hworker : connector n = .ok (.serving home {})) (h : start connector policy n = .ok c) :
    c.Rests home {} ∧ c.nextSeq = 1 := by
  rw [start, hworker] at h
  obtain rfl := Except.ok.inj h
  exact ⟨⟨Connection.atRest_make policy home {}, fun _ hp ↦ absurd hp List.not_mem_nil⟩, rfl⟩

theorem Rests.lookup_next (h : c.Rests home s) :
    c.connection.pending.arrived.lookup c.nextSeq = none := by
  refine List.lookup_eq_none_iff.2 fun p hp ↦ ?_
  have hne : c.nextSeq ≠ p.1 := Nat.ne_of_gt (h.earlier p hp)
  simpa using hne

theorem Rests.settle (h : c.Rests home s) : ((settle w).run c).state.Rests home s := by
  obtain ⟨hrest, hpending⟩ := h.connection.settle (w := w)
  refine ⟨hrest, fun p hp ↦ h.earlier p ?_⟩
  exact congrArg Pending.arrived hpending ▸ hp

theorem Rests.withSetup (h : c.Rests home s) (setup : Setup) :
    Rests home s { c with setup := some setup } := ⟨h.connection, h.earlier⟩

theorem Rests.asked (h : c.Rests home s) (hr : Session.Carries (w home) s c.nextSeq r) :
    let o := (Session.handle (w home) r).run s
    (c.asked w r).Rests home o.state ∧ (c.asked w r).nextSeq = c.nextSeq + 1 ∧
      (c.asked w r).reply? c.nextSeq = some (Response.received o.result) := by
  intro o
  obtain ⟨hrest, harrived⟩ := (h.connection.request c.nextSeq r).settle hr
  have hconnection : (c.asked w r).connection =
      ((c.connection.request c.nextSeq r).settle w).1 := rfl
  rw [← hconnection] at hrest harrived
  refine ⟨⟨hrest, fun p hp ↦ ?_⟩, rfl, ?_⟩
  · have hnext : (c.asked w r).nextSeq = c.nextSeq + 1 := rfl
    rw [harrived] at hp
    rw [hnext]
    rcases List.mem_append.1 hp with hp | hp
    · exact Nat.lt_succ_of_lt (h.earlier p hp)
    · rw [List.mem_singleton.1 hp]
      exact Nat.lt_succ_self _
  · have hlookup : (c.asked w r).connection.pending.reply? c.nextSeq =
        some (Response.received o.result) := by
      rw [Pending.reply?, harrived, List.lookup_append, h.lookup_next]
      simp [o]
    rw [reply?, List.findSome?_cons, hlookup]

/-- Waiting for the reply to a request gives what the session gives for it. -/
theorem Rests.run_await {α : Type} (h : c.Rests home s) (read? : Json → Option α)
    (hr : Session.Carries (w home) s c.nextSeq r) :
    (await ⟨c.nextSeq, read?⟩).run (c.asked w r) =
      ⟨Promise.result ⟨c.nextSeq, read?⟩ (Response.received
        ((Session.handle (w home) r).run s).result), c.asked w r, []⟩ := by
  have hrun : (await ⟨c.nextSeq, read?⟩).run (c.asked w r) =
      ⟨Promise.result ⟨c.nextSeq, read?⟩
        (((c.asked w r).reply? c.nextSeq).getD (.error .exited)), c.asked w r, []⟩ := rfl
  rw [hrun, (h.asked hr).2.2]
  rfl

/-- To a request that its worker cannot read there is never a reply. -/
theorem Rests.reply?_unread (h : c.Rests home s) (hretired : c.retired = []) (hn : c.nextSeq ≠ 0)
    (hfits : (r.envelope c.nextSeq).toJson.text.utf8ByteSize ≤ Frame.maxBytes)
    (hunread : Json.ofText? (r.envelope c.nextSeq).toJson.text = none)
    (hrefused : RequestEnvelope.ofText? (r.envelope c.nextSeq).toJson.text = none) :
    (c.asked w r).reply? c.nextSeq = none := by
  have hpending : (c.asked w r).connection.pending =
      { waiting := [c.nextSeq], arrived := c.connection.pending.arrived } :=
    (h.connection.request c.nextSeq r).settle_unread hfits hunread hrefused hn
  have hretired : (c.asked w r).retired = [] := hretired
  rw [reply?, hretired, List.findSome?_singleton, hpending]
  exact h.lookup_next

end Client

end TypedLoader
