import Mathlib.Data.List.Nodup
import Mathlib.Logic.Relation
import TypedLoader.Checker.Client
import TypedLoader.Proofs.Checker.Sender
import TypedLoader.Proofs.Checker.Session
import TypedLoader.ScriptedCompiler.Basic

namespace TypedLoader

open Relation (ReflTransGen)

def NumberedRequest.frame (p : NumberedRequest) : Bytes :=
  Frame.encode (p.2.envelope p.1).toJson.text

theorem Pending.resolve_head {p : Pending} {n : Nat} {rest : List Nat}
    (h : p.waiting = n :: rest) (reply : Reply) :
    p.resolve n reply = { p with waiting := rest, arrived := p.arrived ++ [(n, reply)] } := by
  rw [resolve, h]
  simp

namespace Connection

variable {w : Workers} {home : WorkerHome} {c d : Connection}

theorem send_of_holds {frames : List Bytes} (h : c.sender.Holds frames)
    (ha : c.sender.Awake c.held) (n : Nat) (r : Request) :
    ∃ t, c.send n r = { c with sender := t } ∧
      t.Holds (frames ++ [NumberedRequest.frame (n, r)]) ∧ t.Awake c.held := by
  obtain ⟨t, ht, hh⟩ := h.send (NumberedRequest.frame (n, r))
  have hw := ha.send (NumberedRequest.frame (n, r))
  rw [ht] at hw
  refine ⟨t, ?_, hh, hw⟩
  have hframe : Frame.encode (r.envelope n).toJson.text = NumberedRequest.frame (n, r) := rfl
  rw [send, hframe, ht]

theorem write?_of_holds {frames : List Bytes} (h : c.sender.Holds frames)
    (ha : c.sender.Awake c.held) (hw : c.worker.hasEnded = false) (hd : c.write? = some d) :
    (∃ t, t.Holds frames ∧ t.Awake false ∧ d = { c with sender := t, held := false }) ∨
    ∃ frame rest t, frames = frame :: rest ∧ t.Holds rest ∧ t.Awake true ∧
      d = { c with sender := t, held := true, input := c.input ++ frame } := by
  unfold write? at hd
  split at hd
  · exact Or.inl ⟨c.sender.drained, h.drained, ha.drained h.connected, (Option.some.inj hd).symm⟩
  · split at hd
    · cases hd
    · rename_i frame t hr
      obtain ⟨rest, hf, ht⟩ := h.receive hr
      rw [hw] at hd
      exact Or.inr ⟨frame, rest, t, hf, ht, ha.receive hr, (Option.some.inj hd).symm⟩

theorem queue_eq_nil_of_write? {frames : List Bytes} (h : c.sender.Holds frames)
    (ha : c.sender.Awake c.held) (hn : c.write? = none) :
    c.sender.channel.frames = [] ∧ c.sender.queue = [] := by
  unfold write? at hn
  split at hn
  · cases hn
  · rename_i hh
    have hheld : c.held = false := by simpa using hh
    have hf : c.sender.channel.frames = [] := by
      cases hc : c.sender.channel.frames with
      | nil => rfl
      | cons frame rest =>
        simp only [Sender.receive, Channel.receive, hc] at hn
        split at hn <;> cases hn
    exact ⟨hf, (hheld ▸ ha).queue_eq_nil h hf⟩

theorem work?_nil {s : Session} (hw : c.worker = .serving home s) (hi : c.input = []) :
    c.work? w = none := by
  have hn : Frame.next false [] = .unknown := by
    rw [Frame.next]
    rfl
  rw [work?, hw, hi, Worker.step?, hn]
  rfl

theorem work?_frame {s : Session} {p : NumberedRequest} {rest : Bytes}
    (hw : c.worker = .serving home s) (hi : c.input = p.frame ++ rest)
    (h : (p.2.envelope p.1).toJson.Carried) (hn : p.1 < UInt64.size) (hr : p.2.CodesFit) :
    ∃ calls, c.work? w = some ({ c with
      worker := .serving home ((Session.handle (w home) p.2).run s).state
      input := rest
      output := c.output ++
        Serve.encode (Response.ofResult p.1 ((Session.handle (w home) p.2).run s).result) },
      calls) := by
  have hnext : Frame.next false (p.frame ++ rest) =
      .message (p.2.envelope p.1).toJson.text rest := Frame.next_encode false h.fits rest
  have hblank : Text.allBlank (p.2.envelope p.1).toJson.text = false := Json.text_ne_blank
  refine ⟨Worker.seenCalls home ((Session.handle (w home) p.2).run s).calls, ?_⟩
  rw [work?, hw, hi, Worker.step?, hnext]
  simp only [Worker.answer, hblank, Session.respond_envelope (w home) h hn hr]
  rfl

theorem read?_nil (hw : c.worker.hasEnded = false) (ho : c.output = []) : c.read? = none := by
  have hn : Frame.next false [] = .unknown := by
    rw [Frame.next]
    rfl
  rw [read?, hw, ho, hn]
  split <;> rfl

theorem read?_frame {a : Response} {rest : Bytes} (hr : c.reading = true)
    (hw : c.worker.hasEnded = false) (ho : c.output = Serve.encode a ++ rest)
    (h : a.toJson.Carried) (hn : a.seq < UInt64.size) :
    c.read? = some { c with output := rest, pending := c.pending.resolve a.seq a.result } := by
  have hnext : Frame.next false (Serve.encode a ++ rest) = .message a.toJson.text rest :=
    Frame.next_encode false h.fits rest
  rw [read?, hr, hw, ho, hnext]
  simp only [Pending.route, Response.ofText?_text h.portable hn]
  rfl

end Connection

inductive Stage where
  | idle
  | registered (n : Nat) (r : Request)
  | sent (n : Nat)

def Stage.announced : Stage → List Nat
  | idle => []
  | registered n _ => [n]
  | sent _ => []

/-- A connection in use, with the requests that have been sent over it. -/
structure Exchange where
  connection : Connection
  issued : List NumberedRequest := []
  stage : Stage := .idle

namespace Exchange

def start (policy : SendPolicy) (home : WorkerHome) : Exchange :=
  { connection := Connection.make policy (.serving home {}) }

/-- One step of one actor. A request takes three steps of the client; its
number is any that no request had before. -/
inductive Step (w : Workers) : Exchange → Exchange → Prop
  | register {x : Exchange} {n : Nat} (r : Request) (idle : x.stage = .idle)
      (fresh : n ∉ x.issued.map Prod.fst) (small : n < UInt64.size) :
      Step w x { x with connection := x.connection.register n, stage := .registered n r }
  | send {x : Exchange} {n : Nat} {r : Request} (registered : x.stage = .registered n r) :
      Step w x { x with
        connection := x.connection.send n r
        issued := x.issued ++ [(n, r)]
        stage := .sent n }
  | confirm {x : Exchange} {n : Nat} (sent : x.stage = .sent n) :
      Step w x { x with connection := x.connection.confirm n, stage := .idle }
  | write {x : Exchange} {c : Connection} (h : x.connection.write? = some c) :
      Step w x { x with connection := c }
  | work {x : Exchange} {c : Connection} {calls : List Call}
      (h : x.connection.work? w = some (c, calls)) : Step w x { x with connection := c }
  | read {x : Exchange} {c : Connection} (h : x.connection.read? = some c) :
      Step w x { x with connection := c }

def Reachable (w : Workers) (policy : SendPolicy) (home : WorkerHome) : Exchange → Prop :=
  ReflTransGen (Step w) (start policy home)

def Quiet (x : Exchange) : Prop :=
  x.connection.sender.queue = [] ∧ x.connection.sender.channel.frames = [] ∧
    x.connection.input = [] ∧ x.connection.output = []

/-- The wire carries the requests and the responses of a session to them. -/
structure Carries (w : World) (issued : List NumberedRequest) : Prop where
  codes : ∀ p ∈ issued, p.2.CodesFit
  requests : ∀ p ∈ issued, (p.2.envelope p.1).toJson.Carried
  responses : ∀ a ∈ Session.answers w {} issued, a.toJson.Carried

theorem Carries.of_prefix {w : World} {a b : List NumberedRequest} (h : Carries w b)
    (hp : a <+: b) : Carries w a := by
  obtain ⟨rest, rfl⟩ := hp
  refine ⟨fun p hm ↦ h.codes p ?_, fun p hm ↦ h.requests p ?_, fun r hm ↦ h.responses r ?_⟩
  · exact List.mem_append_left rest hm
  · exact List.mem_append_left rest hm
  · rw [Session.answers_append]
    exact List.mem_append_left _ hm

/-- Every request sent is replied to, or answered and not read, or written and
not answered, or with the sender, in this order. -/
structure Tracks (w : World) (home : WorkerHome) (x : Exchange)
    (replied answered written unsent : List NumberedRequest) : Prop where
  issued : x.issued = replied ++ answered ++ written ++ unsent
  arrived : x.connection.pending.arrived =
    (Session.answers w {} replied).map fun a ↦ (a.seq, a.result)
  output : x.connection.output =
    (Session.answers w (Session.after w {} (replied.map Prod.snd)) answered).flatMap Serve.encode
  worker : x.connection.worker =
    .serving home (Session.after w {} ((replied ++ answered).map Prod.snd))
  input : x.connection.input = written.flatMap NumberedRequest.frame
  sender : x.connection.sender.Holds (unsent.map NumberedRequest.frame)
  awake : x.connection.sender.Awake x.connection.held
  waiting : x.connection.pending.waiting =
    (answered ++ written ++ unsent).map Prod.fst ++ x.stage.announced
  alive : x.connection.pending.alive = true
  reading : x.connection.reading = true
  distinct : (x.issued.map Prod.fst ++ x.stage.announced).Nodup
  small : ∀ n ∈ x.issued.map Prod.fst ++ x.stage.announced, n < UInt64.size

theorem tracks_start (w : World) (policy : SendPolicy) (home : WorkerHome) :
    (start policy home).Tracks w home [] [] [] [] where
  issued := rfl
  arrived := rfl
  output := rfl
  worker := rfl
  input := rfl
  sender := Sender.holds_make policy Connection.capacity
  awake := Sender.awake_make policy (by decide)
  waiting := rfl
  alive := rfl
  reading := rfl
  distinct := List.nodup_nil
  small := fun _ h ↦ absurd h List.not_mem_nil

section Steps

variable {w : Workers} {home : WorkerHome} {x : Exchange} {c : Connection} {n : Nat}
  {r : Request} {replied answered written unsent : List NumberedRequest}

theorem Tracks.hasEnded (h : x.Tracks (w home) home replied answered written unsent) :
    x.connection.worker.hasEnded = false := by
  rw [h.worker]
  rfl

theorem Tracks.register (h : x.Tracks (w home) home replied answered written unsent)
    (idle : x.stage = .idle) (fresh : n ∉ x.issued.map Prod.fst) (small : n < UInt64.size) :
    Tracks (w home) home
      { x with connection := x.connection.register n, stage := .registered n r }
      replied answered written unsent := by
  have hd := h.distinct
  have hs := h.small
  have hw := h.waiting
  rw [idle, Stage.announced, List.append_nil] at hd hs hw
  refine { h with waiting := ?_, distinct := ?_, small := ?_ }
  · exact congrArg (· ++ [n]) hw
  · refine List.nodup_append.2 ⟨hd, List.pairwise_singleton _ n, ?_⟩
    intro m hm k hk
    rw [List.mem_singleton.1 hk]
    exact fun he ↦ fresh (he ▸ hm)
  · intro m hm
    rcases List.mem_append.1 hm with hm | hm
    · exact hs m hm
    · exact List.mem_singleton.1 hm ▸ small

theorem Tracks.send (h : x.Tracks (w home) home replied answered written unsent)
    (registered : x.stage = .registered n r) :
    Tracks (w home) home
      { x with
        connection := x.connection.send n r
        issued := x.issued ++ [(n, r)]
        stage := .sent n }
      replied answered written (unsent ++ [(n, r)]) := by
  obtain ⟨t, hc, ht, ha⟩ := Connection.send_of_holds h.sender h.awake n r
  have hd := h.distinct
  have hs := h.small
  have hw := h.waiting
  have hi : (x.issued ++ [(n, r)]).map Prod.fst ++ Stage.announced (.sent n) =
      x.issued.map Prod.fst ++ x.stage.announced := by
    rw [registered, List.map_append, Stage.announced, Stage.announced, List.append_nil]
    rfl
  rw [hc]
  refine { h with
    issued := ?_
    sender := ?_
    awake := ha
    waiting := ?_
    distinct := hi ▸ hd
    small := hi ▸ hs }
  · rw [h.issued, List.append_assoc]
  · rw [List.map_append]
    exact ht
  · rw [registered] at hw
    simpa [Stage.announced] using hw

theorem Tracks.confirm (h : x.Tracks (w home) home replied answered written unsent)
    (sent : x.stage = .sent n) :
    Tracks (w home) home { x with connection := x.connection.confirm n, stage := .idle }
      replied answered written unsent := by
  have hc : x.connection.confirm n = x.connection := by rw [Connection.confirm, if_pos h.alive]
  have ha : Stage.announced .idle = x.stage.announced := by
    rw [sent]
    rfl
  rw [hc]
  exact { h with waiting := ha ▸ h.waiting, distinct := ha ▸ h.distinct, small := ha ▸ h.small }

theorem Tracks.write (h : x.Tracks (w home) home replied answered written unsent)
    (hc : x.connection.write? = some c) : ∃ written unsent,
      Tracks (w home) home { x with connection := c } replied answered written unsent := by
  rcases Connection.write?_of_holds h.sender h.awake h.hasEnded hc with
    ⟨t, ht, ha, rfl⟩ | ⟨frame, rest, t, hf, ht, ha, rfl⟩
  · exact ⟨written, unsent, { h with sender := ht, awake := ha }⟩
  · cases unsent with
    | nil => cases hf
    | cons p unsent =>
      obtain ⟨rfl, rfl⟩ := List.cons.inj hf
      refine ⟨written ++ [p], unsent,
        { h with issued := ?_, input := ?_, sender := ht, awake := ha, waiting := ?_ }⟩
      · rw [h.issued]
        simp
      · rw [h.input]
        simp
      · rw [h.waiting]
        simp

theorem Tracks.work?_cons {p : NumberedRequest}
    (h : x.Tracks (w home) home replied answered (p :: written) unsent)
    (hx : Carries (w home) x.issued) :
    ∃ c calls, x.connection.work? w = some (c, calls) ∧
      Tracks (w home) home { x with connection := c } replied (answered ++ [p]) written unsent := by
  have hp : p ∈ x.issued := by simp [h.issued]
  have hn := h.small p.1 (List.mem_append_left _ (List.mem_map_of_mem hp))
  have hi : x.connection.input = p.frame ++ written.flatMap NumberedRequest.frame := h.input
  obtain ⟨calls, hw⟩ := Connection.work?_frame (w := w) h.worker hi (hx.requests p hp) hn
    (hx.codes p hp)
  refine ⟨_, calls, hw,
    { h with issued := ?_, output := ?_, worker := ?_, input := rfl, waiting := ?_ }⟩
  · rw [h.issued]
    simp
  · rw [Session.answers_concat, List.flatMap_append, ← Session.after_append, ← List.map_append]
    exact congrArg₂ (· ++ ·) h.output (List.append_nil _).symm
  · rw [← List.append_assoc, Session.after_concat]
  · rw [h.waiting]
    simp

theorem Tracks.work {calls : List Call}
    (h : x.Tracks (w home) home replied answered written unsent)
    (hx : Carries (w home) x.issued) (hc : x.connection.work? w = some (c, calls)) :
    ∃ answered written,
      Tracks (w home) home { x with connection := c } replied answered written unsent := by
  cases written with
  | nil =>
    rw [Connection.work?_nil h.worker h.input] at hc
    cases hc
  | cons p written =>
    obtain ⟨d, _, hd, ht⟩ := h.work?_cons hx
    obtain ⟨rfl, -⟩ := Prod.mk.inj (Option.some.inj (hd.symm.trans hc))
    exact ⟨_, _, ht⟩

theorem Tracks.read?_cons {p : NumberedRequest}
    (h : x.Tracks (w home) home replied (p :: answered) written unsent)
    (hx : Carries (w home) x.issued) : ∃ c, x.connection.read? = some c ∧
      Tracks (w home) home { x with connection := c } (replied ++ [p]) answered written unsent := by
  have hp : p ∈ x.issued := by simp [h.issued]
  have hn := h.small p.1 (List.mem_append_left _ (List.mem_map_of_mem hp))
  generalize ha : Response.ofResult p.1 ((Session.handle (w home) p.2).run
    (Session.after (w home) {} (replied.map Prod.snd))).result = a
  have hseq : a.seq = p.1 := ha ▸ Response.seq_ofResult _ _
  have hanswers : Session.answers (w home) {} (replied ++ [p]) =
      Session.answers (w home) {} replied ++ [a] := by
    rw [Session.answers_concat, ← ha]
  have hcarried : a.toJson.Carried := by
    -- it answers a request that is sent, after a prefix of those sent
    have hpre : replied ++ [p] <+: x.issued := ⟨answered ++ written ++ unsent, by simp [h.issued]⟩
    exact (hx.of_prefix hpre).responses a (hanswers ▸ List.mem_append_right _ List.mem_cons_self)
  have ho : x.connection.output = Serve.encode a ++ (Session.answers (w home)
      (Session.after (w home) {} ((replied ++ [p]).map Prod.snd)) answered).flatMap
        Serve.encode := by
    rw [h.output, ← ha, Session.after_concat]
    rfl
  have harrived : (Session.answers (w home) {} (replied ++ [p])).map
      (fun a ↦ (a.seq, a.result)) = x.connection.pending.arrived ++ [(p.1, a.result)] := by
    rw [hanswers, List.map_append, ← h.arrived, List.map_singleton, hseq]
  have hr := Connection.read?_frame h.reading h.hasEnded ho hcarried (hseq ▸ hn)
  rw [hseq, Pending.resolve_head h.waiting] at hr
  refine ⟨_, hr,
    { h with
      issued := ?_
      arrived := harrived.symm
      output := rfl
      worker := ?_
      waiting := rfl }⟩
  · rw [h.issued]
    simp
  · rw [h.worker]
    simp

theorem Tracks.read (h : x.Tracks (w home) home replied answered written unsent)
    (hx : Carries (w home) x.issued) (hc : x.connection.read? = some c) : ∃ replied answered,
      Tracks (w home) home { x with connection := c } replied answered written unsent := by
  cases answered with
  | nil =>
    rw [Connection.read?_nil h.hasEnded h.output] at hc
    cases hc
  | cons p answered =>
    obtain ⟨d, hd, ht⟩ := h.read?_cons hx
    obtain rfl := Option.some.inj (hd.symm.trans hc)
    exact ⟨_, _, ht⟩

theorem Tracks.step {y : Exchange} (h : x.Tracks (w home) home replied answered written unsent)
    (hx : Carries (w home) x.issued) (hs : Step w x y) : ∃ replied answered written unsent,
      y.Tracks (w home) home replied answered written unsent := by
  cases hs with
  | register r idle fresh small => exact ⟨_, _, _, _, h.register idle fresh small⟩
  | send registered => exact ⟨_, _, _, _, h.send registered⟩
  | confirm sent => exact ⟨_, _, _, _, h.confirm sent⟩
  | write hc =>
    obtain ⟨written, unsent, h⟩ := h.write hc
    exact ⟨_, _, _, _, h⟩
  | work hc =>
    obtain ⟨answered, written, h⟩ := h.work hx hc
    exact ⟨_, _, _, _, h⟩
  | read hc =>
    obtain ⟨replied, answered, h⟩ := h.read hx hc
    exact ⟨_, _, _, _, h⟩

end Steps

theorem Step.issued_prefix {w : Workers} {x y : Exchange} (h : Step w x y) :
    x.issued <+: y.issued := by
  cases h with
  | send => exact List.prefix_append ..
  | _ => exact List.prefix_rfl

/-- In a reachable state every request sent is in one place of the pipeline, and
all are in the order in which they were sent. -/
theorem Reachable.tracks {w : Workers} {policy : SendPolicy} {home : WorkerHome} {x : Exchange}
    (h : Reachable w policy home x) (hx : Carries (w home) x.issued) :
    ∃ replied answered written unsent,
      x.Tracks (w home) home replied answered written unsent := by
  induction h with
  | refl => exact ⟨[], [], [], [], tracks_start (w home) policy home⟩
  | tail _ hs ih =>
    obtain ⟨_, _, _, _, ht⟩ := ih (hx.of_prefix hs.issued_prefix)
    exact ht.step (hx.of_prefix hs.issued_prefix) hs

section Replies

variable {w : World} {home : WorkerHome} {x : Exchange}
  {replied answered written unsent : List NumberedRequest}

theorem Tracks.delivered (h : x.Tracks w home replied answered written unsent) {k n : Nat}
    {r : Request} {reply : Reply}
    (hk : x.issued[k]? = some (n, r)) (hm : (n, reply) ∈ x.connection.pending.arrived) :
    reply = Response.received ((Session.handle w r).run
      (Session.after w {} ((x.issued.take k).map Prod.snd))).result := by
  rw [h.arrived] at hm
  obtain ⟨a, ha, he⟩ := List.mem_map.1 hm
  obtain ⟨hseq, rfl⟩ := Prod.mk.inj he
  obtain ⟨j, hj⟩ := List.mem_iff_getElem?.1 ha
  rw [Session.getElem?_answers] at hj
  obtain ⟨p, hp, rfl⟩ := Option.map_eq_some_iff.1 hj
  rw [Response.seq_ofResult] at hseq
  have hlt : j < replied.length := (List.getElem?_eq_some_iff.1 hp).1
  have hissued : x.issued = replied ++ (answered ++ written ++ unsent) := by simp [h.issued]
  have hij : x.issued[j]? = some p := by rw [hissued, List.getElem?_append_left hlt, hp]
  -- numbers are distinct, so the reply is the one at the place of the request
  obtain rfl : j = k := by
    have hnodup : (x.issued.map Prod.fst).Nodup := (List.nodup_append.1 h.distinct).1
    have hbound : j < (x.issued.map Prod.fst).length := by
      rw [List.length_map]
      exact (List.getElem?_eq_some_iff.1 hij).1
    refine (List.getElem?_inj hbound hnodup).1 ?_
    rw [List.getElem?_map, List.getElem?_map, hij, hk]
    exact congrArg some hseq
  obtain rfl := Option.some.inj (hij.symm.trans hk)
  rw [Response.result_ofResult, hissued, List.take_append_of_le_length (Nat.le_of_lt hlt)]

theorem Tracks.numbers_eq (h : x.Tracks w home replied answered written unsent) :
    x.connection.pending.arrived.map Prod.fst = replied.map Prod.fst := by
  rw [h.arrived, List.map_map, ← Session.seqs_answers w {} replied]
  rfl

theorem eq_nil_of_flatMap_encode {α : Type} {f : α → String} {l : List α}
    (h : (l.flatMap fun a ↦ Frame.encode (f a)) = []) : l = [] := by
  cases l with
  | nil => rfl
  | cons a l =>
    rw [List.flatMap_cons, Frame.encode_eq] at h
    simp at h

theorem Tracks.replied_eq (h : x.Tracks w home replied answered written unsent)
    (hq : x.Quiet) : x.issued = replied := by
  obtain ⟨hqueue, hframes, hinput, houtput⟩ := hq
  have hw : written = [] := eq_nil_of_flatMap_encode (h.input.symm.trans hinput)
  have hu : unsent = [] := by
    have hs := h.sender.frames_eq
    rw [hframes, hqueue] at hs
    exact List.map_eq_nil_iff.1 hs.symm
  have ha : answered = [] := by
    have hr := eq_nil_of_flatMap_encode (h.output.symm.trans houtput)
    have hs := Session.seqs_answers w (Session.after w {} (replied.map Prod.snd)) answered
    rw [hr] at hs
    exact List.map_eq_nil_iff.1 hs.symm
  rw [h.issued, ha, hw, hu]
  simp

end Replies

section Settling

variable {w : Workers} {policy : SendPolicy} {home : WorkerHome} {x : Exchange}

theorem Reachable.request (h : Reachable w policy home x) (idle : x.stage = .idle) {n : Nat}
    (fresh : n ∉ x.issued.map Prod.fst) (small : n < UInt64.size) (r : Request) :
    Reachable w policy home ⟨x.connection.request n r, x.issued ++ [(n, r)], .idle⟩ :=
  ((h.tail (.register r idle fresh small)).tail (.send rfl)).tail (.confirm rfl)

theorem Reachable.client_request {c : Client} {issued : List NumberedRequest}
    (h : Reachable w policy home ⟨c.connection, issued, .idle⟩)
    (earlier : ∀ p ∈ issued, p.1 < c.nextSeq) (small : c.nextSeq < UInt64.size) (r : Request) :
    Reachable w policy home
        ⟨(c.request r).2.connection, issued ++ [(c.nextSeq, r)], .idle⟩ ∧
      ∀ p ∈ issued ++ [(c.nextSeq, r)], p.1 < (c.request r).2.nextSeq := by
  refine ⟨h.request rfl ?_ small r, ?_⟩
  · intro hm
    obtain ⟨p, hp, he⟩ := List.mem_map.1 hm
    exact absurd (he ▸ earlier p hp) (Nat.lt_irrefl _)
  · intro p hp
    rcases List.mem_append.1 hp with hp | hp
    · exact Nat.lt_succ_of_lt (earlier p hp)
    · rw [List.mem_singleton.1 hp]
      exact Nat.lt_succ_self _

theorem Reachable.writeAll (h : Reachable w policy home x) (hx : Carries (w home) x.issued) :
    let y := { x with connection := x.connection.writeAll }
    Reachable w policy home y ∧ y.connection.sender.channel.frames = [] ∧
      y.connection.sender.queue = [] := by
  have hy : Reachable w policy home { x with connection := x.connection.writeAll } :=
    exhaust_invariant (p := fun c ↦ Reachable w policy home { x with connection := c })
      Connection.write? Connection.toWrite Connection.write_lt (fun hs ha ↦ ha.tail (.write hs)) _ h
  obtain ⟨_, _, _, _, ht⟩ := hy.tracks hx
  exact ⟨hy, Connection.queue_eq_nil_of_write? ht.sender ht.awake (step_exhaust ..)⟩

theorem Reachable.workAll (h : Reachable w policy home x) (hx : Carries (w home) x.issued) :
    let y := { x with connection := (x.connection.workAll w).1 }
    Reachable w policy home y ∧ y.connection.sender = x.connection.sender ∧
      y.connection.input = [] := by
  have hy : Reachable w policy home { x with connection := (x.connection.workAll w).1 } ∧
      (x.connection.workAll w).1.sender = x.connection.sender := by
    refine exhaust_invariant (p := fun p : Connection × List Call ↦
      Reachable w policy home { x with connection := p.1 } ∧ p.1.sender = x.connection.sender)
      (Connection.workOn? w) Connection.toWork Connection.workOn_lt
      (fun {a b} hs ha ↦ ?_) _ ⟨h, rfl⟩
    obtain ⟨⟨c, calls⟩, hc, rfl⟩ := Option.map_eq_some_iff.1 hs
    refine ⟨ha.1.tail (.work hc), ?_⟩
    obtain ⟨t, -, he⟩ := Option.map_eq_some_iff.1 hc
    rw [← (Prod.mk.inj he).1]
    exact ha.2
  have hn : (x.connection.workAll w).1.work? w = none :=
    Option.map_eq_none_iff.1
      (step_exhaust (Connection.workOn? w) Connection.toWork Connection.workOn_lt _)
  obtain ⟨_, _, written, _, ht⟩ := hy.1.tracks hx
  refine ⟨hy.1, hy.2, ?_⟩
  cases written with
  | nil => exact ht.input
  | cons p written =>
    obtain ⟨_, _, hc, -⟩ := ht.work?_cons hx
    rw [hn] at hc
    cases hc

theorem Reachable.readAll (h : Reachable w policy home x) (hx : Carries (w home) x.issued) :
    let y := { x with connection := x.connection.readAll }
    Reachable w policy home y ∧ y.connection.sender = x.connection.sender ∧
      y.connection.input = x.connection.input ∧ y.connection.output = [] := by
  have hy : Reachable w policy home { x with connection := x.connection.readAll } ∧
      x.connection.readAll.sender = x.connection.sender ∧
      x.connection.readAll.input = x.connection.input := by
    refine exhaust_invariant (p := fun c : Connection ↦
      Reachable w policy home { x with connection := c } ∧ c.sender = x.connection.sender ∧
        c.input = x.connection.input)
      Connection.read? Connection.toRead Connection.read_lt (fun {a b} hs ha ↦ ?_) _ ⟨h, rfl, rfl⟩
    refine ⟨ha.1.tail (.read hs), ?_⟩
    unfold Connection.read? at hs
    split at hs
    · cases hs
    · split at hs
      · rw [← Option.some.inj hs]
        exact ha.2
      · cases hs
      · rw [← Option.some.inj hs]
        exact ha.2
  have hn : x.connection.readAll.read? = none := step_exhaust ..
  obtain ⟨_, answered, _, _, ht⟩ := hy.1.tracks hx
  refine ⟨hy.1, hy.2.1, hy.2.2, ?_⟩
  cases answered with
  | nil => exact ht.output
  | cons p answered =>
    obtain ⟨_, hc, -⟩ := ht.read?_cons hx
    rw [hn] at hc
    cases hc

/-- A connection that comes to rest has delivered all that was on its way. -/
theorem Reachable.settle (h : Reachable w policy home x) (hx : Carries (w home) x.issued) :
    let y := { x with connection := (x.connection.settle w).1 }
    Reachable w policy home y ∧ y.Quiet := by
  obtain ⟨h₁, hframes, hqueue⟩ := h.writeAll hx
  obtain ⟨h₂, hsender, hinput⟩ := h₁.workAll hx
  obtain ⟨h₃, hsender', hinput', houtput⟩ := h₂.readAll hx
  refine ⟨h₃, ?_, ?_, hinput'.trans hinput, houtput⟩
  · exact (congrArg Sender.queue (hsender'.trans hsender)).trans hqueue
  · exact (congrArg (·.channel.frames) (hsender'.trans hsender)).trans hframes

end Settling

/-- Whatever order the actors take their steps in, a reply that has arrived is
the one a new session gives when it handles the requests one after the other, as
they were sent; and once nothing is on its way every request has one reply. -/
theorem replies_as_in_sequence {w : Workers} {policy : SendPolicy} {home : WorkerHome}
    {x : Exchange} (h : Reachable w policy home x) (hx : Carries (w home) x.issued) :
    (∀ k n r reply, x.issued[k]? = some (n, r) →
      (n, reply) ∈ x.connection.pending.arrived →
      reply = Response.received ((Session.handle (w home) r).run
        (Session.after (w home) {} ((x.issued.take k).map Prod.snd))).result) ∧
    x.connection.pending.arrived.map Prod.fst <+: x.issued.map Prod.fst ∧
    (x.Quiet → ∀ p ∈ x.issued, (x.connection.pending.arrived.map Prod.fst).count p.1 = 1) := by
  obtain ⟨replied, answered, written, unsent, ht⟩ := h.tracks hx
  refine ⟨fun k n r reply hk hm ↦ ht.delivered hk hm, ?_, ?_⟩
  · rw [ht.numbers_eq, ht.issued, List.append_assoc, List.append_assoc, List.map_append]
    exact List.prefix_append ..
  · intro hq p hp
    have hnumbers := (List.nodup_append.1 ht.distinct).1
    rw [ht.numbers_eq, ← ht.replied_eq hq]
    exact List.count_eq_one_of_mem hnumbers (List.mem_map_of_mem hp)

def twoRequests : List NumberedRequest :=
  [(1, .files), (2, .init { compiler := ScriptedCompiler.info, settings := {}, options := [] })]

theorem carries_twoRequests : Carries (ScriptedCompiler.world {} {}) twoRequests where
  codes := by
    simp [twoRequests, Request.CodesFit]
  requests := by
    have hdepth : Json.maxDepth = 126 + 1 := rfl
    refine List.forall_mem_cons.2 ⟨?_, List.forall_mem_singleton.2 ?_⟩
    · refine ⟨?_, by decide +kernel⟩
      simp [hdepth, Request.envelope, RequestEnvelope.toJson, Request.payload, Json.Number.IsWord,
        Json.isNull]
    · refine ⟨?_, by decide +kernel⟩
      simp [hdepth, Request.envelope, RequestEnvelope.toJson, Request.payload, Setup.toJson,
        CompilerInfo.toJson, CheckerSettings.toJson, Json.strings, Json.ofOption,
        Json.Number.IsWord, Json.isNull]
  responses := by
    have hdepth : Json.maxDepth = 126 + 1 := rfl
    have ha : Session.answers (ScriptedCompiler.world {} {}) {} twoRequests =
        [Response.error 1 .notInitialized, Response.ok 2 .null] := rfl
    rw [ha]
    refine List.forall_mem_cons.2 ⟨?_, List.forall_mem_singleton.2 ?_⟩
    · refine ⟨?_, by decide +kernel⟩
      simp [hdepth, Response.error, Response.toJson, Json.Number.IsWord]
    · refine ⟨?_, by decide +kernel⟩
      simp [hdepth, Response.ok, Response.toJson, Json.Number.IsWord]

/-- Both requests are sent before anything else happens. -/
theorem replies_of_twoRequests : ∃ x : Exchange,
    Reachable (fun _ ↦ ScriptedCompiler.world {} {}) .conservative .within x ∧ x.Quiet ∧
      (1, Response.received (.error .notInitialized)) ∈ x.connection.pending.arrived ∧
      (2, .ok .null) ∈ x.connection.pending.arrived := by
  have h₀ : Reachable (fun _ ↦ ScriptedCompiler.world {} {}) .conservative .within
      (start .conservative .within) := .refl
  have h₁ := h₀.request rfl (List.not_mem_nil (a := 1)) (by decide) .files
  have h₂ := h₁.request rfl (n := 2) (by decide) (by decide)
    (.init { compiler := ScriptedCompiler.info, settings := {}, options := [] })
  obtain ⟨x, h, hq, hx⟩ : ∃ x, Reachable (fun _ ↦ ScriptedCompiler.world {} {}) .conservative
      .within x ∧ x.Quiet ∧ x.issued = twoRequests :=
    ⟨_, (h₂.settle carries_twoRequests).1, (h₂.settle carries_twoRequests).2, rfl⟩
  obtain ⟨hreply, -, hone⟩ := replies_as_in_sequence h (hx ▸ carries_twoRequests)
  rw [hx] at hreply hone
  have harrived : ∀ p ∈ twoRequests, ∃ reply, (p.1, reply) ∈ x.connection.pending.arrived := by
    intro p hp
    have hm := List.count_pos_iff.1 (Nat.lt_of_lt_of_eq Nat.one_pos (hone hq p hp).symm)
    obtain ⟨⟨n, reply⟩, ha, rfl⟩ := List.mem_map.1 hm
    exact ⟨reply, ha⟩
  obtain ⟨first, hfirst⟩ := harrived (1, .files) (.head _)
  obtain ⟨second, hsecond⟩ := harrived _ (.tail _ (.head _))
  obtain rfl := hreply 0 1 .files first rfl hfirst
  obtain rfl := hreply 1 2 _ second rfl hsecond
  exact ⟨x, h, hq, hfirst, hsecond⟩

end Exchange

end TypedLoader
