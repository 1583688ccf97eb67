import TypedLoader.Proofs.Checker.Rest
import TypedLoader.Proofs.Checker.Serve
import TypedLoader.Proofs.Checker.Usage

namespace TypedLoader

open Relation (ReflTransGen)

/-- What is set up is all that succeeds in a session that has not been set up. -/
theorem Session.eq_init_of_result {w : World} {r : Request} {payload : Json}
    (h : ((handle w r).run {}).result = .ok payload) : ∃ setup, r = .init setup := by
  cases r with
  | init setup => exact ⟨setup, rfl⟩
  | _ => cases h

namespace Serve

theorem seqHint_lt (message : String) : seqHint message < UInt64.size := by
  by_cases h : ∃ n, Numbered message n
  · obtain ⟨n, j, hj, hn, hlt⟩ := h
    rw [seqHint_of_numbered ⟨j, hj, hn, hlt⟩]
    exact hlt
  · rw [seqHint_of_not_numbered (not_exists.1 h)]
    decide

theorem respond_cases (w : World) (s : Session) (message : String) :
    (∃ seq e, seq < UInt64.size ∧ (respond w s message).1 = Response.error seq e) ∨
      ∃ e r payload, RequestEnvelope.ofText? message = some e ∧ e.request? = some r ∧
        ((Session.handle w r).run s).result = .ok payload ∧
        (respond w s message).2.1 = ((Session.handle w r).run s).state := by
  cases he : RequestEnvelope.ofText? message with
  | none =>
    refine Or.inl ⟨seqHint message, .malformed, seqHint_lt message, ?_⟩
    rw [respond, he]
  | some e =>
    have hseq := RequestEnvelope.seq_lt_of_ofText? he
    have hrespond : respond w s message = s.answer w e := by rw [respond, he]
    rw [hrespond, Session.answer]
    cases hr : e.request? with
    | none => exact Or.inl ⟨e.seq, .malformed, hseq, rfl⟩
    | some r =>
      cases hresult : ((Session.handle w r).run s).result with
      | error x =>
        refine Or.inl ⟨e.seq, x, hseq, ?_⟩
        simp only [hresult]
        rfl
      | ok payload => exact Or.inr ⟨e, r, payload, rfl, hr, hresult, rfl⟩

end Serve

namespace Connection

variable {worlds : Workers → Prop} {w : Workers} {home : WorkerHome} {s : Session}
  {frames : List Bytes} {input : Bytes} {n : Nat} {text : String} {c d : Connection}

/-- The worker serves with this session; these frames are still with the sender, and these bytes
on their way. -/
structure Feeds (home : WorkerHome) (s : Session) (frames : List Bytes) (input : Bytes)
    (c : Connection) : Prop where
  worker : c.worker = .serving home s
  sender : c.sender.Holds frames
  awake : c.sender.Awake c.held
  input : c.input = input

theorem Feeds.hasEnded (h : c.Feeds home s frames input) : c.worker.hasEnded = false := by
  rw [h.worker]
  rfl

theorem Feeds.write (h : c.Feeds home s frames input) (hd : c.write? = some d) :
    d.output = c.output ∧ d.pending = c.pending ∧ (d.Feeds home s frames input ∨
      ∃ frame rest, frames = frame :: rest ∧ d.Feeds home s rest (input ++ frame)) := by
  rcases write?_of_holds h.sender h.awake h.hasEnded hd with
    ⟨t, ht, hawake, rfl⟩ | ⟨frame, rest, t, hframes, ht, hawake, rfl⟩
  · exact ⟨rfl, rfl, Or.inl ⟨h.worker, ht, hawake, h.input⟩⟩
  · exact ⟨rfl, rfl, Or.inr ⟨frame, rest, hframes, h.worker, ht, hawake, by rw [h.input]⟩⟩

theorem Feeds.work {calls : List Call} (h : c.Feeds home s frames (Frame.encode text))
    (visible : Text.allBlank text = false) (hd : c.work? w = some (d, calls)) :
    d.pending = c.pending ∧ (d.worker = .ended ∧ d.output = c.output ∨
      d.Feeds home (Serve.respond (w home) s text).2.1 frames [] ∧
        d.output = c.output ++ Serve.encode (Serve.respond (w home) s text).1) := by
  have hinput : c.input = Frame.encode text ++ [] := by rw [h.input, List.append_nil]
  rw [work?, h.worker, hinput, Worker.step?] at hd
  rcases Nat.lt_or_ge Frame.maxBytes text.utf8ByteSize with hlarge | hfits
  · obtain ⟨e, hnext⟩ := Frame.next_encode_of_lt false hlarge []
    rw [hnext] at hd
    obtain ⟨rfl, -⟩ := Prod.mk.inj (Option.some.inj hd)
    exact ⟨rfl, Or.inl ⟨rfl, List.append_nil _⟩⟩
  · have hanswer : Worker.answer w home s text [] =
        ⟨.serving home (Serve.respond (w home) s text).2.1, [],
          Serve.encode (Serve.respond (w home) s text).1,
          Worker.seenCalls home (Serve.respond (w home) s text).2.2⟩ := by
      rw [Worker.answer, if_neg (by simp [visible])]
    rw [Frame.next_encode false hfits] at hd
    obtain ⟨rfl, -⟩ := Prod.mk.inj (Option.some.inj hd)
    exact ⟨rfl, Or.inr ⟨⟨congrArg Worker.Step.worker hanswer, h.sender, h.awake,
      congrArg Worker.Step.input hanswer⟩, congrArg (c.output ++ ·.output) hanswer⟩⟩

theorem write?_same (hd : c.write? = some d) : d.worker = c.worker ∧ d.output = c.output := by
  unfold write? at hd
  split at hd
  · obtain rfl := Option.some.inj hd
    exact ⟨rfl, rfl⟩
  · split at hd
    · cases hd
    · split at hd
      · obtain rfl := Option.some.inj hd
        exact ⟨rfl, rfl⟩
      · obtain rfl := Option.some.inj hd
        exact ⟨rfl, rfl⟩

theorem read?_same (hd : c.read? = some d) :
    d.worker = c.worker ∧ d.sender = c.sender ∧ d.held = c.held ∧ d.input = c.input := by
  unfold read? at hd
  split at hd
  · cases hd
  · split at hd
    · obtain rfl := Option.some.inj hd
      exact ⟨rfl, rfl, rfl, rfl⟩
    · cases hd
    · obtain rfl := Option.some.inj hd
      exact ⟨rfl, rfl, rfl, rfl⟩

theorem Feeds.read (h : c.Feeds home s frames input) (hd : c.read? = some d) :
    d.Feeds home s frames input := by
  obtain ⟨hworker, hsender, hheld, hinput⟩ := read?_same hd
  exact ⟨hworker.trans h.worker, hsender ▸ h.sender, by rw [hsender, hheld]; exact h.awake,
    hinput.trans h.input⟩

/-- With nothing on its way to the worker, all that can happen is that its output is read. -/
theorem Feeds.quiet (h : c.Feeds home s [] []) (hd : Advance worlds c d) :
    d.Feeds home s [] [] ∧
      (d.output = c.output ∧ d.pending = c.pending ∨ c.read? = some d) := by
  cases hd with
  | write hd =>
    obtain ⟨houtput, hpending, hd | ⟨_, _, hnil, -⟩⟩ := h.write hd
    · exact ⟨hd, Or.inl ⟨houtput, hpending⟩⟩
    · cases hnil
  | work _ hd =>
    rw [work?_nil h.worker h.input] at hd
    cases hd
  | read hd => exact ⟨h.read hd, Or.inr hd⟩

def Unused (home : WorkerHome) (c : Connection) : Prop := c.Feeds home {} [] [] ∧ c.output = []

theorem Unused.advance (h : c.Unused home) (hd : Advance worlds c d) : d.Unused home := by
  obtain ⟨hfeeds, houtput⟩ := h
  obtain ⟨hd, ⟨hsame, -⟩ | hread⟩ := hfeeds.quiet hd
  · exact ⟨hd, hsame.trans houtput⟩
  · rw [read?_nil hfeeds.hasEnded houtput] at hread
    cases hread

def Unanswered (n : Nat) (p : Pending) : Prop := ∀ payload, (n, .ok payload) ∉ p.arrived

theorem Unanswered.resolve_error {p : Pending} (h : Unanswered n p) (m : Nat) (e : CheckError) :
    Unanswered n (p.resolve m (.error e)) := by
  intro payload hm
  rcases p.resolve_cases m (.error e) with ⟨-, -, harrived⟩ | ⟨-, he⟩
  · rw [harrived] at hm
    rcases List.mem_append.1 hm with hm | hm
    · exact h payload hm
    · cases List.mem_singleton.1 hm
  · exact h payload (he ▸ hm)

theorem Unanswered.close {p : Pending} (h : Unanswered n p) : Unanswered n p.close :=
  Pending.keeps_close (fun _ hq ↦ hq) (fun _ m hq ↦ hq.resolve_error m _) h

theorem Unanswered.or_lt_of_turn (h : Unanswered n c.pending ∨ n < UInt64.size)
    (hd : Turn worlds c d) : Unanswered n d.pending ∨ n < UInt64.size := by
  refine hd.keeps (P := fun p ↦ Unanswered n p ∨ n < UInt64.size) (fun _ hp ↦ hp)
    (fun p m reply hm hp ↦ ?_) h
  rcases hp with hp | hn
  · cases reply with
    | error e => exact Or.inl (hp.resolve_error m e)
    | ok payload =>
      by_cases hmn : m = n
      · exact Or.inr (hmn ▸ hm payload rfl)
      · refine Or.inl fun other ho ↦ ?_
        rcases p.resolve_cases m (.ok payload) with ⟨-, -, harrived⟩ | ⟨-, he⟩
        · rw [harrived] at ho
          rcases List.mem_append.1 ho with ho | ho
          · exact hp other ho
          · exact hmn (congrArg Prod.fst (List.mem_singleton.1 ho)).symm
        · exact hp other (he ▸ ho)
  · exact Or.inr hn

/-- The first request of a new worker, this message, is under way, or has been refused, or has set
the session up. -/
inductive Opens (worlds : Workers → Prop) (home : WorkerHome) (n : Nat) (text : String)
    (c : Connection) : Prop
  | queued (feeds : c.Feeds home {} [Frame.encode text] []) (output : c.output = [])
      (unanswered : Unanswered n c.pending)
  | written (feeds : c.Feeds home {} [] (Frame.encode text)) (output : c.output = [])
      (unanswered : Unanswered n c.pending)
  | ended (worker : c.worker = .ended) (output : c.output = [])
      (unanswered : Unanswered n c.pending)
  | refused {s : Session} (feeds : c.Feeds home s [] [])
      (output : c.output = [] ∨ ∃ seq e, seq < UInt64.size ∧
        c.output = Serve.encode (Response.error seq e))
      (unanswered : Unanswered n c.pending)
  | ready {w : Workers} {e : RequestEnvelope} {setup : Setup} (prevails : worlds w)
      (message : RequestEnvelope.ofText? text = some e) (request : e.request? = some (.init setup))
      (feeds : c.Feeds home (Session.after (w home) {} [.init setup]) [] [])
      (small : Unanswered n c.pending ∨ n < UInt64.size)

theorem Opens.shutDown (h : c.Opens worlds home n text) : c.shutDown.Opens worlds home n text := by
  have hfeeds {s : Session} {frames : List Bytes} {input : Bytes}
      (h : c.Feeds home s frames input) : c.shutDown.Feeds home s frames input :=
    ⟨h.worker, h.sender, h.awake, h.input⟩
  cases h with
  | queued feeds output unanswered => exact .queued (hfeeds feeds) output unanswered.close
  | written feeds output unanswered => exact .written (hfeeds feeds) output unanswered.close
  | ended worker output unanswered => exact .ended worker output unanswered.close
  | refused feeds output unanswered => exact .refused (hfeeds feeds) output unanswered.close
  | ready prevails message request feeds small =>
    exact .ready prevails message request (hfeeds feeds) (small.imp_left Unanswered.close)

theorem worker_request (c : Connection) (n : Nat) (r : Request) :
    (c.request n r).worker = c.worker := by
  have hsent : ((c.register n).send n r).worker = c.worker := by
    unfold send
    dsimp only
    split <;> rfl
  rw [request, confirm]
  split <;> exact hsent

theorem Unused.request (h : c.Unused home) (fresh : Unanswered n c.pending) (r : Request) :
    (c.request n r).Opens worlds home n (r.envelope n).toJson.text := by
  obtain ⟨hfeeds, houtput⟩ := h
  obtain ⟨t, hsend, hholds, hawake⟩ :=
    send_of_holds (c := c.register n) hfeeds.sender hfeeds.awake n r
  have hunanswered : Unanswered n (c.request n r).pending :=
    request_keeps r (fun _ e hp ↦ hp.resolve_error n e) fresh
  have hsame : (c.request n r).worker = c.worker ∧ (c.request n r).sender = t ∧
      (c.request n r).held = c.held ∧ (c.request n r).input = c.input ∧
      (c.request n r).output = c.output := by
    rw [Connection.request, hsend, confirm]
    split <;> exact ⟨rfl, rfl, rfl, rfl, rfl⟩
  obtain ⟨hworker, hsender, hheld, hinput, hout⟩ := hsame
  refine .queued ⟨hworker.trans hfeeds.worker, hsender ▸ hholds, ?_, hinput.trans hfeeds.input⟩
    (hout.trans houtput) hunanswered
  rw [hsender, hheld]
  exact hawake

theorem read?_refusal {seq : Nat} {e : CheckError} (hw : c.worker.hasEnded = false)
    (hseq : seq < UInt64.size) (houtput : c.output = Serve.encode (Response.error seq e))
    (hd : c.read? = some d) : (d.output = [] ∨ d.output = c.output) ∧
      (d.pending = c.pending.close ∨
        ∃ m x, d.pending = c.pending.resolve m (.error x)) := by
  have hportable : (Response.error seq e).toJson.Portable Json.maxDepth :=
    Response.portable_ofResult (x := .error e) hseq fun _ he ↦ nomatch he
  have hread : Response.ofText? (Response.error seq e).toJson.text = some (Response.error seq e) :=
    Response.ofText?_text hportable hseq
  have hbytes : c.output = Frame.encode (Response.error seq e).toJson.text ++ [] := by
    rw [houtput, List.append_nil]
    rfl
  unfold read? at hd
  split at hd
  · cases hd
  · rw [hw] at hd
    rcases Nat.lt_or_ge Frame.maxBytes (Response.error seq e).toJson.text.utf8ByteSize with
      hlarge | hfits
    · obtain ⟨x, hnext⟩ := Frame.next_encode_of_lt false hlarge []
      rw [hbytes, hnext] at hd
      obtain rfl := Option.some.inj hd
      exact ⟨Or.inr hbytes.symm, Or.inl rfl⟩
    · rw [hbytes, Frame.next_encode false hfits] at hd
      obtain rfl := Option.some.inj hd
      refine ⟨Or.inl rfl, Or.inr ⟨seq, (Response.error seq e).failure, ?_⟩⟩
      simp only [Pending.route, hread]
      rfl

theorem Feeds.opens_of_answer (prevails : worlds w)
    (feeds : d.Feeds home (Serve.respond (w home) {} text).2.1 [] [])
    (output : d.output = Serve.encode (Serve.respond (w home) {} text).1)
    (unanswered : Unanswered n d.pending) : d.Opens worlds home n text := by
  rcases Serve.respond_cases (w home) {} text with
    ⟨seq, e, hseq, he⟩ | ⟨e, r, payload, he, hr, hresult, hstate⟩
  · exact .refused feeds (Or.inr ⟨seq, e, hseq, he ▸ output⟩) unanswered
  · obtain ⟨setup, rfl⟩ := Session.eq_init_of_result hresult
    rw [hstate] at feeds
    exact .ready prevails he hr feeds (Or.inl unanswered)

theorem unanswered_of_ended (worker : c.worker = .ended) (output : c.output = [])
    (unanswered : Unanswered n c.pending) (hd : Advance worlds c d) :
    d.worker = .ended ∧ d.output = [] ∧ Unanswered n d.pending := by
  cases hd with
  | write hd =>
    obtain ⟨hworker, houtput⟩ := write?_same hd
    refine ⟨hworker.trans worker, houtput.trans output, ?_⟩
    rcases pending_write hd with hpending | hpending
    · exact hpending ▸ unanswered
    · exact hpending ▸ unanswered.close
  | work _ hd =>
    rw [work?, worker] at hd
    cases hd
  | read hd =>
    have hnext : Frame.next c.worker.hasEnded c.output = .finished := by
      rw [worker, output, Frame.next]
      rfl
    unfold read? at hd
    split at hd
    · cases hd
    · rw [hnext] at hd
      obtain rfl := Option.some.inj hd
      exact ⟨worker, output, unanswered.close⟩

theorem Opens.advance (visible : Text.allBlank text = false) (h : c.Opens worlds home n text)
    (hd : Advance worlds c d) : d.Opens worlds home n text := by
  cases h with
  | queued feeds output unanswered =>
    cases hd with
    | write hd =>
      obtain ⟨houtput, hpending, hd | ⟨frame, rest, hframes, hd⟩⟩ := feeds.write hd
      · exact .queued hd (houtput.trans output) (hpending ▸ unanswered)
      · obtain ⟨rfl, rfl⟩ := List.cons.inj hframes
        exact .written hd (houtput.trans output) (hpending ▸ unanswered)
    | work _ hd =>
      rw [work?_nil feeds.worker feeds.input] at hd
      cases hd
    | read hd =>
      rw [read?_nil feeds.hasEnded output] at hd
      cases hd
  | written feeds output unanswered =>
    cases hd with
    | write hd =>
      obtain ⟨houtput, hpending, hd | ⟨_, _, hnil, -⟩⟩ := feeds.write hd
      · exact .written hd (houtput.trans output) (hpending ▸ unanswered)
      · cases hnil
    | work prevails hd =>
      obtain ⟨hpending, ⟨hworker, houtput⟩ | ⟨hfeeds, houtput⟩⟩ := feeds.work visible hd
      · exact .ended hworker (houtput.trans output) (hpending ▸ unanswered)
      · rw [output, List.nil_append] at houtput
        exact hfeeds.opens_of_answer prevails houtput (hpending ▸ unanswered)
    | read hd =>
      rw [read?_nil feeds.hasEnded output] at hd
      cases hd
  | ended worker output unanswered =>
    obtain ⟨worker, output, unanswered⟩ := unanswered_of_ended worker output unanswered hd
    exact .ended worker output unanswered
  | refused feeds output unanswered =>
    obtain ⟨hfeeds, ⟨houtput, hpending⟩ | hread⟩ := feeds.quiet hd
    · exact .refused hfeeds (houtput ▸ output) (hpending ▸ unanswered)
    · rcases output with houtput | ⟨seq, e, hseq, houtput⟩
      · rw [read?_nil feeds.hasEnded houtput] at hread
        cases hread
      · obtain ⟨hout, hpending⟩ := read?_refusal feeds.hasEnded hseq houtput hread
        refine .refused hfeeds ?_ ?_
        · exact hout.imp_right fun hsame ↦ ⟨seq, e, hseq, hsame.trans houtput⟩
        · rcases hpending with hpending | ⟨m, x, hpending⟩
          · exact hpending ▸ unanswered.close
          · exact hpending ▸ unanswered.resolve_error m x
  | ready prevails message request feeds small =>
    have hsmall := Unanswered.or_lt_of_turn small (.advance hd)
    exact .ready prevails message request (feeds.quiet hd).1 hsmall

theorem Opens.settle (prevails : worlds w) (visible : Text.allBlank text = false)
    (h : c.Opens worlds home n text) : (c.settle w).1.Opens worlds home n text := by
  have hrun := advances_settle prevails c
  generalize (c.settle w).1 = d at hrun ⊢
  induction hrun with
  | refl => exact h
  | tail _ hd ih => exact ih.advance visible hd

theorem AtRest.unused (h : c.AtRest home {}) : c.Unused home :=
  ⟨⟨h.worker, h.sender, h.awake, h.input⟩, h.output⟩

theorem Turn.ended (h : Turn worlds c d) (hc : c.worker = .ended) : d.worker = .ended := by
  cases h with
  | exit => rfl
  | advance h =>
    cases h with
    | write h => exact (write?_same h).1.trans hc
    | work _ h =>
      rw [work?, hc] at h
      cases h
    | read h => exact (read?_same h).1.trans hc

end Connection

/-- The worker has the session of a new one after this setup, as its text has been read. -/
def Worker.Restored (worlds : Workers → Prop) (home : WorkerHome) (n : Nat) (setup : Setup)
    (worker : Worker) : Prop :=
  ∃ w, worlds w ∧ ∃ e read,
    RequestEnvelope.ofText? ((Request.init setup).envelope n).toJson.text = some e ∧
    e.request? = some (.init read) ∧
    worker = .serving home (Session.after (w home) {} [.init read]) ∧
    ((Request.init setup).CodesFit → (Request.init setup).Portable → read = setup)

theorem Connection.Opens.restored {worlds : Workers → Prop} {home : WorkerHome} {n : Nat}
    {setup : Setup} {c : Connection}
    (h : c.Opens worlds home n ((Request.init setup).envelope n).toJson.text) {payload : Json}
    (reply : c.pending.reply? n = some (.ok payload)) :
    c.worker.Restored worlds home n setup := by
  have hanswered : ¬Unanswered n c.pending := by
    intro hu
    obtain ⟨before, after, harrived, -⟩ := List.lookup_eq_some_iff.1 reply
    refine hu payload ?_
    rw [harrived]
    simp
  cases h with
  | queued _ _ unanswered => exact absurd unanswered hanswered
  | written _ _ unanswered => exact absurd unanswered hanswered
  | ended _ _ unanswered => exact absurd unanswered hanswered
  | refused _ _ unanswered => exact absurd unanswered hanswered
  | @ready w e read prevails message request feeds small =>
    refine ⟨w, prevails, e, read, message, request, feeds.worker, fun hcodes hportable ↦ ?_⟩
    have hseq := small.resolve_left hanswered
    obtain ⟨e', hmessage, -, hrequest⟩ := Request.read_of_text hseq hcodes hportable
    obtain rfl := Option.some.inj (message.symm.trans hmessage)
    exact Request.init.inj (Option.some.inj (request.symm.trans hrequest))

theorem Client.result_reset {w : Workers} {home : WorkerHome} {c : Client} {start : Nat}
    {setup : Setup} (started : c.connector start = .ok (.serving home {}))
    (stored : c.setup = some setup) (hr : Session.Carries (w home) {} c.nextSeq (.init setup))
    (accepted : ((Session.handle (w home) (.init setup)).run {}).result = .ok .null) :
    ((reset w start).run c).result = .ok () := by
  obtain ⟨hrest, hpending⟩ := (Connection.atRest_make c.policy home {}).settle (w := w)
  have hrests : (c.renewed w (.serving home {})).Rests home {} := by
    refine ⟨hrest, fun p hp ↦ ?_⟩
    have harrived : (c.renewed w (.serving home {})).connection.pending.arrived = [] :=
      congrArg Pending.arrived hpending
    rw [harrived] at hp
    cases hp
  have hreply : ((c.renewed w (.serving home {})).asked w (.init setup)).reply? c.nextSeq =
      some (Response.received ((Session.handle (w home) (.init setup)).run {}).result) :=
    (hrests.asked hr).2.2
  rw [(run_reset_of_some started stored).1, hreply, accepted]
  rfl

namespace Usage

variable {worlds : Workers → Prop} {w : Workers} {home : WorkerHome} {x y z : Usage} {n : Nat}
  {sent : List (Nat × Nat)}

/-- Since there is a new worker nothing has been sent, or one request, or more than that. The
worker may have ended. -/
inductive Since (worlds : Workers → Prop) (home : WorkerHome) (sent : List (Nat × Nat))
    (y : Usage) : Prop
  | unused (sent_eq : y.sent = sent)
      (worker : y.client.connection.worker = .ended ∨ y.client.connection.Unused home)
  | first {n : Nat} {r : Request} (sent_eq : y.sent = sent ++ [(n, y.client.retired.length)])
      (issued : (n, r) ∈ y.issued)
      (worker : y.client.connection.worker = .ended ∨
        y.client.connection.Opens worlds home n (r.envelope n).toJson.text)
  | more (long : sent.length + 2 ≤ y.sent.length)

theorem Since.change (h : Since worlds home sent y) (hsent : z.sent = y.sent)
    (hlength : z.client.retired.length = y.client.retired.length)
    (hissued : ∀ p ∈ y.issued, p ∈ z.issued)
    (hended : y.client.connection.worker = .ended → z.client.connection.worker = .ended)
    (hunused : y.client.connection.Unused home →
      z.client.connection.worker = .ended ∨ z.client.connection.Unused home)
    (hopens : ∀ n text, Text.allBlank text = false →
      y.client.connection.Opens worlds home n text →
        z.client.connection.worker = .ended ∨ z.client.connection.Opens worlds home n text) :
    Since worlds home sent z := by
  cases h with
  | unused sent_eq worker =>
    exact .unused (hsent.trans sent_eq) (worker.elim (fun hw ↦ Or.inl (hended hw)) hunused)
  | first sent_eq issued worker =>
    refine .first ?_ (hissued _ issued)
      (worker.elim (fun hw ↦ Or.inl (hended hw)) (hopens _ _ Json.text_ne_blank))
    rw [hsent, sent_eq, hlength]
  | more long => exact .more (hsent ▸ long)

theorem Since.send (hy : Sound y) (h : Since worlds home sent y) {r : Request}
    (issued : (n, r) ∈ y.issued) (unsent : n ∉ y.sent.map Prod.fst) :
    Since worlds home sent (y.send n r) := by
  have hlength : (y.send n r).sent.length = y.sent.length + 1 := List.length_append
  cases h with
  | unused sent_eq worker =>
    refine .first (n := n) (r := r) (by rw [← sent_eq]; rfl) issued ?_
    rcases worker with hended | hunused
    · exact Or.inl ((Connection.worker_request ..).trans hended)
    · refine Or.inr (hunused.request (fun payload hm ↦ ?_) r)
      have hmade := (hy.tables.1.made n).2 (Or.inr (List.mem_map_of_mem hm))
      exact unsent (List.mem_map_of_mem hmade)
  | first sent_eq =>
    refine .more ?_
    rw [hlength, sent_eq, List.length_append]
    exact Nat.le_refl _
  | more long => exact .more (hlength ▸ Nat.le_succ_of_le long)

theorem Since.step (hy : Sound y) (h : Since worlds home sent y) (hs : Step worlds y z)
    (same : z.client.retired.length = y.client.retired.length) : Since worlds home sent z := by
  cases hs with
  | store => exact h.change rfl rfl (fun _ hp ↦ hp) id Or.inr fun _ _ _ ↦ Or.inr
  | number r =>
    exact h.change rfl rfl (fun _ hp ↦ List.mem_append_left _ hp) id Or.inr fun _ _ _ ↦ Or.inr
  | send issued unsent => exact h.send hy issued unsent
  | turn ht =>
    cases ht with
    | retired split =>
      exact h.change rfl same (fun _ hp ↦ hp) id Or.inr fun _ _ _ ↦ Or.inr
    | current hd =>
      refine h.change rfl rfl (fun _ hp ↦ hp) hd.ended ?_ ?_
      · intro hu
        cases hd with
        | exit => exact Or.inl rfl
        | advance hd => exact Or.inr (hu.advance hd)
      · intro n text visible ho
        cases hd with
        | exit => exact Or.inl rfl
        | advance hd => exact Or.inr (ho.advance visible hd)
  | shut =>
    refine h.change rfl rfl (fun _ hp ↦ hp) id (fun hu ↦ Or.inr ?_) fun _ _ _ ho ↦ Or.inr ?_
    · exact ⟨⟨hu.1.worker, hu.1.sender, hu.1.awake, hu.1.input⟩, hu.2⟩
    · exact ho.shutDown
  | replace => exact absurd same (Nat.succ_ne_self _)
  | giveUp => exact h.change rfl rfl (fun _ hp ↦ hp) id Or.inr fun _ _ _ ↦ Or.inr

/-- From one replacement of the worker to the next. -/
theorem Sound.since (h : Sound x) (locked : x.locked = true)
    (hs : Steps worlds (x.replace (.serving home {})) y)
    (same : y.client.retired.length = x.client.retired.length + 1) :
    Since worlds home x.sent y := by
  induction hs with
  | refl => exact .unused rfl (Or.inr (Connection.atRest_make _ home {}).unused)
  | @tail y z hxy hs ih =>
    have hle : x.client.retired.length + 1 ≤ y.client.retired.length :=
      Steps.length_retired_le hxy
    have hle' := hs.length_retired_le
    have hy : y.client.retired.length = x.client.retired.length + 1 := by omega
    exact (ih hy).step ((h.replace locked _).steps hxy) hs (same.trans hy.symm)

structure Replays (x y : Usage) (n : Nat) (setup : Setup) : Prop where
  current : y.client.retired.length = x.client.retired.length + 1
  issued : (n, .init setup) ∈ y.issued
  sent : y.sent.map Prod.fst = x.sent.map Prod.fst ++ [n]

theorem Sound.opens_of_replays (h : Sound x) (locked : x.locked = true)
    (hs : Steps worlds (x.replace (.serving home {})) y) {setup : Setup}
    (hr : x.Replays y n setup) : (n, y.client.retired.length) ∈ y.sent ∧
      (y.client.connection.worker = .ended ∨ y.client.connection.Opens worlds home n
        ((Request.init setup).envelope n).toJson.text) := by
  have hy : Sound y := (h.replace locked _).steps hs
  cases h.since locked hs hr.current with
  | unused sent_eq =>
    have hlength := congrArg List.length hr.sent
    simp [sent_eq] at hlength
  | more long =>
    have hlength := congrArg List.length hr.sent
    simp only [List.length_map, List.length_append, List.length_singleton] at hlength
    omega
  | @first m r sent_eq issued worker =>
    have hm : m = n := by
      have hsent := hr.sent
      rw [sent_eq, List.map_append] at hsent
      exact List.singleton_inj.1 (List.append_cancel_left hsent)
    subst hm
    obtain rfl : r = .init setup := congrArg Prod.snd
      (List.inj_on_of_nodup_map (hy.numbers ▸ List.nodup_range') issued hr.issued rfl)
    refine ⟨?_, worker⟩
    rw [sent_eq]
    exact List.mem_append_right _ List.mem_cons_self

theorem Sound.reply?_current (h : Sound x) (hn : (n, x.client.retired.length) ∈ x.sent) :
    x.client.reply? n = x.client.connection.pending.reply? n := by
  have htables : Tables x.sent ([] ++ x.client.connection :: x.client.retired) := h.tables
  exact htables.findSome?_eq fun _ hk ↦ h.unique hk hn

/-- A setup that has been repeated with success is where the session of the new worker has
started from, unless that worker has ended. -/
theorem Sound.restored_of_replays (h : Sound x) (locked : x.locked = true)
    (hs : Steps worlds (x.replace (.serving home {})) y) {setup : Setup}
    (hr : x.Replays y n setup) {payload : Json} (reply : y.client.reply? n = some (.ok payload)) :
    y.client.connection.worker = .ended ∨
      y.client.connection.worker.Restored worlds home n setup := by
  obtain ⟨hn, hended | hopens⟩ := h.opens_of_replays locked hs hr
  · exact Or.inl hended
  · rw [((h.replace locked _).steps hs).reply?_current hn] at reply
    exact Or.inr (hopens.restored reply)

/-- A client that resets the worker by itself leaves no time for it to end. -/
theorem Sound.restored_of_reset (h : Sound x) (prevails : worlds w) {start : Nat} {setup : Setup}
    (started : x.client.connector start = .ok (.serving home {}))
    (stored : x.client.setup = some setup)
    (succeeded : ((Client.reset w start).run x.client).result = .ok ()) :
    ((Client.reset w start).run x.client).state.connection.worker.Restored worlds home
      x.client.nextSeq setup := by
  obtain ⟨y, -, -, hclient, hrest⟩ := h.run_reset prevails start
  obtain ⟨hsteps, hcurrent, hissued, hsent, hreply⟩ := hrest _ _ started stored
  obtain ⟨payload, hpayload⟩ := hreply succeeded
  have hreplays : x.shut.Replays y x.client.nextSeq setup := by
    refine ⟨hcurrent, ?_, hsent⟩
    rw [hissued]
    exact List.mem_append_right _ List.mem_cons_self
  have hn := (h.shut.opens_of_replays rfl hsteps hreplays).1
  rw [((h.shut.replace rfl _).steps hsteps).reply?_current hn, hclient] at hpayload
  refine Connection.Opens.restored ?_ hpayload
  -- the state is known, so that a worker that has ended is out of the question
  rw [(Client.run_reset_of_some started stored).2]
  obtain ⟨hrest, hpending⟩ :=
    (Connection.atRest_make x.client.policy home {}).settle (w := w)
  have hfresh : Connection.Unanswered x.client.nextSeq
      ((Connection.make x.client.policy (.serving home {})).settle w).1.pending := by
    rw [hpending]
    exact fun _ hm ↦ absurd hm List.not_mem_nil
  exact (hrest.unused.request hfresh (.init setup)).settle prevails Json.text_ne_blank

/-- However callers, connections and failing starts come together: no number is taken twice; who
gives a worker up rejects all that has been sent and has no reply; once there is a new worker, what
happens on earlier connections changes nothing for requests that are sent from then on; and a
setup that is repeated for the new worker, and succeeds, is what its session starts from. The last
two parts are about a reset into which no request of another caller falls: the setup is the first
request of the new worker. -/
theorem separates_workers {connector : Connector} {policy : SendPolicy} {start : Nat} {c : Client}
    (started : Client.start connector policy start = .ok c) (hx : Steps worlds { client := c } x) :
    (x.issued.map Prod.fst).Nodup ∧
      (∀ n ∈ x.sent.map Prod.fst, x.client.reply? n = none →
        ∀ y, Steps worlds x.shut y → y.client.reply? n = some (.error .exited)) ∧
      (x.locked = true → ∀ worker y z k n, Steps worlds (x.replace worker) y →
        Turn worlds k y z → k ≤ x.client.retired.length → n ∉ x.sent.map Prod.fst →
          z.client.reply? n = y.client.reply? n) ∧
      (x.locked = true → ∀ home y n setup payload, Steps worlds (x.replace (.serving home {})) y →
        x.Replays y n setup → y.client.reply? n = some (.ok payload) →
          y.client.connection.worker = .ended ∨
            y.client.connection.worker.Restored worlds home n setup) ∧
      (∀ home w next setup, worlds w →
        x.client.connector next = .ok (.serving home {}) → x.client.setup = some setup →
          ((Client.reset w next).run x.client).result = .ok () →
            ((Client.reset w next).run x.client).state.connection.worker.Restored worlds home
              x.client.nextSeq setup) := by
  have h : Sound x := (sound_start started).steps hx
  refine ⟨?_, fun n hn hr y hy ↦ ?_, fun locked worker y z k n hy hz hk hn ↦ ?_, ?_, ?_⟩
  · rw [h.numbers]
    exact List.nodup_range'
  · exact h.shut.reply?_steps hy (h.reply?_shut hn hr)
  · refine ((h.replace locked worker).steps hy).reply?_of_not_over hz fun hs ↦ ?_
    obtain ⟨more, hmore, hlate⟩ := hy.sent
    rw [hmore] at hs
    rcases List.mem_append.1 hs with hs | hs
    · exact hn (List.mem_map_of_mem hs)
    · exact Nat.not_succ_le_self _ ((hlate _ hs).trans hk)
  · exact fun locked home y n setup payload hy hr hreply ↦
      h.restored_of_replays locked hy hr hreply
  · exact fun home w next setup prevails hnext hsetup hok ↦
      h.restored_of_reset prevails hnext hsetup hok

def plainSetup : Setup := { compiler := ScriptedCompiler.info, settings := {}, options := [] }

theorem carries_plainSetup :
    Session.Carries (ScriptedCompiler.world {} {}) {} 2 (.init plainSetup) where
  number := by decide
  codes := Exchange.carries_twoRequests.codes (2, .init plainSetup) (.tail _ (.head _))
  request := Exchange.carries_twoRequests.requests (2, .init plainSetup) (.tail _ (.head _))
  response := Exchange.carries_twoRequests.responses (Response.ok 2 .null) (.tail _ (.head _))

/-- A setup that nobody has answered is rejected when the worker is replaced, and the next worker
is set up with it. -/
theorem separates_workers_before_answer : ∃ x : Usage,
    (∀ y, Steps (fun _ ↦ True) x.shut y → y.client.reply? 1 = some (.error .exited)) ∧
      ((Client.reset (fun _ ↦ ScriptedCompiler.world {} {}) 1).run x.client).result = .ok () ∧
      ((Client.reset (fun _ ↦ ScriptedCompiler.world {} {}) 1).run
        x.client).state.connection.worker.Restored (fun _ ↦ True) .within 2 plainSetup := by
  let c : Client := {
    connector := fun _ ↦ .ok (.serving .within {})
    policy := .direct
    connection := Connection.make .direct (.serving .within {}) }
  have started : Client.start c.connector .direct 0 = .ok c := rfl
  let x : Usage := ((Usage.store { client := c } plainSetup).number (.init plainSetup)).send 1
    (.init plainSetup)
  have hx : Steps (fun _ ↦ True) { client := c } x :=
    ((ReflTransGen.refl.tail (.store _ plainSetup)).tail (.number _ (.init plainSetup))).tail
      (.send (.head _) List.not_mem_nil rfl)
  have hnone : x.client.reply? 1 = none := by
    have hsends := (Connection.atRest_make .direct .within {}).request 1 (.init plainSetup)
    have hpending : x.client.connection.pending = { waiting := [1], arrived := [] } :=
      hsends.pending
    have hreply : x.client.connection.pending.reply? 1 = none := by
      rw [hpending]
      rfl
    rw [Usage.reply?_eq, Client.connections, List.findSome?_cons, hreply]
    rfl
  have hok : ((Client.reset (fun _ ↦ ScriptedCompiler.world {} {}) 1).run x.client).result =
      .ok () := Client.result_reset rfl rfl carries_plainSetup rfl
  obtain ⟨-, hreject, -, -, hrestored⟩ := separates_workers started hx
  exact ⟨x, hreject 1 (.head _) hnone, hok, hrestored .within _ 1 plainSetup trivial rfl rfl hok⟩

end Usage

end TypedLoader
