import Mathlib.Data.List.Range
import TypedLoader.Checker.Client
import TypedLoader.Proofs.Checker.Pending
import TypedLoader.Proofs.Checker.Turns
import TypedLoader.Proofs.Outcome

namespace TypedLoader

open Relation (ReflTransGen)

namespace Pending

variable {p : Pending} {made : Nat → Prop} {n : Nat} {reply : Reply}

theorem keeps_close {P : Pending → Prop} (mark : ∀ q, P q → P q.markGone)
    (reject : ∀ q n, P q → P (q.resolve n (.error .exited))) (hp : P p) : P p.close := by
  have hall (seqs : List Nat) (q : Pending) (hq : P q) : P (q.reject seqs) := by
    induction seqs generalizing q with
    | nil => exact hq
    | cons n seqs ih => exact ih _ (reject q n hq)
  exact hall _ _ (mark p hp)

theorem reply?_eq_none_iff : p.reply? n = none ↔ n ∉ p.arrived.map Prod.fst := by
  rw [reply?, List.lookup_eq_none_iff, List.mem_map]
  constructor
  · rintro h ⟨q, hq, rfl⟩
    simpa using h q hq
  · intro h q hq
    simpa using fun he : n = q.1 ↦ h ⟨q, hq, he.symm⟩

theorem reply?_resolve_of_some (h : p.reply? n = some reply) (m : Nat) (other : Reply) :
    (p.resolve m other).reply? n = some reply := by
  rcases p.resolve_cases m other with ⟨-, -, harrived⟩ | ⟨-, he⟩
  · rw [reply?, harrived, List.lookup_append]
    rw [reply?] at h
    rw [h, Option.some_or]
  · rw [he]
    exact h

theorem reply?_resolve_of_ne {m : Nat} (h : n ≠ m) (p : Pending) (other : Reply) :
    (p.resolve m other).reply? n = p.reply? n := by
  rcases p.resolve_cases m other with ⟨-, -, harrived⟩ | ⟨-, he⟩
  · have hnone : [(m, other)].lookup n = none := by
      refine List.lookup_eq_none_iff.2 fun q hq ↦ ?_
      rw [List.mem_singleton.1 hq]
      exact bne_iff_ne.2 h
    rw [reply?, harrived, List.lookup_append, hnone, Option.or_none, reply?]
  · rw [he]

theorem Accounts.markGone (h : p.Accounts made) : p.markGone.Accounts made :=
  ⟨h.waiting, h.arrived, h.apart, h.made⟩

theorem Accounts.close (h : p.Accounts made) : p.close.Accounts made :=
  keeps_close (fun _ hq ↦ hq.markGone) (fun _ n hq ↦ hq.resolve n _) h

theorem Accounts.reply?_of_not_made (h : p.Accounts made) (hn : ¬made n) : p.reply? n = none :=
  reply?_eq_none_iff.2 fun ha ↦ hn ((h.made n).2 (Or.inr ha))

theorem Accounts.mem_waiting (h : p.Accounts made) (hn : made n) (hr : p.reply? n = none) :
    n ∈ p.waiting :=
  ((h.made n).1 hn).resolve_right (reply?_eq_none_iff.1 hr)

theorem reply?_close (hw : n ∈ p.waiting) (hr : p.reply? n = none) :
    p.close.reply? n = some (.error .exited) := by
  have hkept : n ∈ p.close.waiting ∧ p.close.reply? n = none ∨
      p.close.reply? n = some (.error .exited) := by
    refine keeps_close (P := fun q ↦ n ∈ q.waiting ∧ q.reply? n = none ∨
      q.reply? n = some (.error .exited)) (fun _ hq ↦ hq) (fun q m hq ↦ ?_) (Or.inl ⟨hw, hr⟩)
    rcases hq with ⟨hw, hr⟩ | hr
    · by_cases hm : n = m
      · subst hm
        rcases q.resolve_cases n (.error .exited) with ⟨-, -, harrived⟩ | ⟨hn, -⟩
        · refine Or.inr ?_
          rw [reply?] at hr
          rw [reply?, harrived, List.lookup_append, hr]
          simp
        · exact absurd hw hn
      · refine Or.inl ⟨?_, (reply?_resolve_of_ne hm q _).trans hr⟩
        rw [waiting_resolve]
        exact (List.mem_erase_of_ne hm).2 hw
    · exact Or.inr (reply?_resolve_of_some hr m _)
  rcases hkept with ⟨hw, -⟩ | hr
  · rw [waiting_close] at hw
    exact absurd hw List.not_mem_nil
  · exact hr

end Pending

namespace Connection

variable {worlds : Workers → Prop} {c d : Connection}

inductive Advance (worlds : Workers → Prop) : Connection → Connection → Prop
  | write {c d : Connection} (h : c.write? = some d) : Advance worlds c d
  | work {c d : Connection} {w : Workers} {calls : List Call} (prevails : worlds w)
      (h : c.work? w = some (d, calls)) : Advance worlds c d
  | read {c d : Connection} (h : c.read? = some d) : Advance worlds c d

/-- A worker may also end at any moment, and some of what it has written is lost then. -/
inductive Turn (worlds : Workers → Prop) : Connection → Connection → Prop
  | advance {c d : Connection} (h : Advance worlds c d) : Turn worlds c d
  | exit (c : Connection) (kept : Nat) :
      Turn worlds c { c with worker := .ended, output := c.output.take kept }

theorem Turn.keeps {P : Pending → Prop} (h : Turn worlds c d)
    (mark : ∀ p, P p → P p.markGone)
    (resolve : ∀ p n reply, (∀ payload, reply = .ok payload → n < UInt64.size) →
      P p → P (p.resolve n reply))
    (hc : P c.pending) : P d.pending := by
  have hclose : P c.pending.close := by
    refine Pending.keeps_close mark (fun p n hp ↦ resolve p n _ (fun payload he ↦ ?_) hp) hc
    cases he
  cases h with
  | exit => exact hc
  | advance h =>
    cases h with
    | write h =>
      rcases pending_write h with hd | hd
      · exact hd ▸ hc
      · exact hd ▸ hclose
    | work _ h => exact pending_work h ▸ hc
    | read h =>
      rcases pending_read h with ⟨message, hd⟩ | hd
      · rw [hd]
        rcases c.pending.route_cases message with ⟨a, ha, hroute⟩ | hroute
        · rw [hroute]
          exact resolve _ _ _ (fun _ _ ↦ Response.seq_lt_of_ofText? ha) hc
        · rw [hroute]
          exact hc
      · exact hd ▸ hclose

theorem Turn.accounts {made : Nat → Prop} (h : Turn worlds c d) (hc : c.pending.Accounts made) :
    d.pending.Accounts made :=
  h.keeps (fun _ hp ↦ hp.markGone) (fun _ n reply _ hp ↦ hp.resolve n reply) hc

theorem Turn.reply? {n : Nat} {reply : Reply} (h : Turn worlds c d)
    (hc : c.pending.reply? n = some reply) : d.pending.reply? n = some reply :=
  h.keeps (P := fun p ↦ p.reply? n = some reply) (fun _ hp ↦ hp)
    (fun _ m other _ hp ↦ Pending.reply?_resolve_of_some hp m other) hc

theorem Turn.waiting (h : Turn worlds c d) (hc : c.pending.waiting = []) :
    d.pending.waiting = [] := by
  refine h.keeps (P := fun p ↦ p.waiting = []) (fun _ hp ↦ hp) (fun p n reply _ hp ↦ ?_) hc
  rw [Pending.waiting_resolve, hp, List.erase_nil]

theorem request_keeps {P : Pending → Prop} {n : Nat} (r : Request)
    (refuse : ∀ p e, P p → P (p.resolve n (.error e))) (hc : P (c.pending.register n)) :
    P (c.request n r).pending := by
  have hsent : P ((c.register n).send n r).pending := by
    rcases Traffic.pending_send (c.register n) n r with hs | ⟨e, hs⟩
    · exact hs ▸ hc
    · exact hs ▸ refuse _ e hc
  rw [request, Traffic.pending_confirm]
  split
  · exact hsent
  · exact refuse _ _ hsent

end Connection

namespace Client

def connections (c : Client) : List Connection := c.connection :: c.retired

end Client

structure Usage where
  client : Client
  issued : List NumberedRequest := []
  /-- The numbers of the requests that have been sent, each with the number of replacements
  before it. -/
  sent : List (Nat × Nat) := []
  /-- Somebody replaces the worker, and requests wait for the new one. -/
  locked : Bool := false

namespace Usage

variable {worlds : Workers → Prop} {x y z : Usage} {k n : Nat} {reply : Reply}

def store (x : Usage) (setup : Setup) : Usage :=
  { x with client := { x.client with setup := some setup } }

def number (x : Usage) (r : Request) : Usage := { x with
  client := { x.client with nextSeq := x.client.nextSeq + 1 }
  issued := x.issued ++ [(x.client.nextSeq, r)] }

def send (x : Usage) (n : Nat) (r : Request) : Usage := { x with
  client := { x.client with connection := x.client.connection.request n r }
  sent := x.sent ++ [(n, x.client.retired.length)] }

/-- The worker is given up, whether or not there will be another one. -/
def shut (x : Usage) : Usage := { x with
  client := { x.client with connection := x.client.connection.shutDown }
  locked := true }

def replace (x : Usage) (worker : Worker) : Usage := { x with
  client := x.client.connect worker
  locked := false }

inductive Turn (worlds : Workers → Prop) (k : Nat) : Usage → Usage → Prop
  | current {x : Usage} {d : Connection} (h : x.client.connection.Turn worlds d)
      (position : x.client.retired.length = k) :
      Turn worlds k x { x with client := { x.client with connection := d } }
  | retired {x : Usage} {newer older : List Connection} {c d : Connection}
      (split : x.client.retired = newer ++ c :: older) (h : c.Turn worlds d)
      (position : older.length = k) :
      Turn worlds k x { x with client := { x.client with retired := newer ++ d :: older } }

/-- The steps of callers and connections. A request takes its number first, and others may come
before it until it is sent. -/
inductive Step (worlds : Workers → Prop) : Usage → Usage → Prop
  | store (x : Usage) (setup : Setup) : Step worlds x (x.store setup)
  | number (x : Usage) (r : Request) : Step worlds x (x.number r)
  | send {x : Usage} {n : Nat} {r : Request} (issued : (n, r) ∈ x.issued)
      (unsent : n ∉ x.sent.map Prod.fst) (free : x.locked = false) : Step worlds x (x.send n r)
  | turn {x y : Usage} {k : Nat} (h : Turn worlds k x y) : Step worlds x y
  | shut {x : Usage} (free : x.locked = false) : Step worlds x x.shut
  | replace {x : Usage} {start : Nat} {worker : Worker} (locked : x.locked = true)
      (started : x.client.connector start = .ok worker) : Step worlds x (x.replace worker)
  | giveUp {x : Usage} {start : Nat} {e : CheckError} (locked : x.locked = true)
      (failed : x.client.connector start = .error e) : Step worlds x { x with locked := false }

abbrev Steps (worlds : Workers → Prop) : Usage → Usage → Prop := ReflTransGen (Step worlds)

theorem Turn.split (h : Turn worlds k x y) : ∃ newer c d older,
    x.client.connections = newer ++ c :: older ∧ older.length = k ∧ c.Turn worlds d ∧
      y.client.connections = newer ++ d :: older := by
  cases h with
  | @current d h position => exact ⟨[], _, d, _, rfl, position, h, rfl⟩
  | @retired newer older c d split h position =>
    refine ⟨x.client.connection :: newer, c, d, older, ?_, position, h, rfl⟩
    rw [Client.connections, split, List.cons_append]

/-- Each connection accounts for the requests that have been sent over it. -/
def Tables (sent : List (Nat × Nat)) : List Connection → Prop
  | [] => True
  | c :: older => c.pending.Accounts (fun n ↦ (n, older.length) ∈ sent) ∧ Tables sent older

theorem Tables.congr {sent sent' : List (Nat × Nat)} {l : List Connection} (h : Tables sent l)
    (he : ∀ n k, k < l.length → ((n, k) ∈ sent' ↔ (n, k) ∈ sent)) : Tables sent' l := by
  induction l with
  | nil => trivial
  | cons c older ih =>
    refine ⟨h.1.congr fun n ↦ he n _ (Nat.lt_succ_self _), ih h.2 fun n k hk ↦ he n k ?_⟩
    exact Nat.lt_succ_of_lt hk

theorem tables_append {sent : List (Nat × Nat)} {newer older : List Connection}
    {c d : Connection} (h : Tables sent (newer ++ c :: older)) :
    c.pending.Accounts (fun n ↦ (n, older.length) ∈ sent) ∧
      (d.pending.Accounts (fun n ↦ (n, older.length) ∈ sent) →
        Tables sent (newer ++ d :: older)) := by
  induction newer with
  | nil => exact ⟨h.1, fun hd ↦ ⟨hd, h.2⟩⟩
  | cons b newer ih =>
    refine ⟨(ih h.2).1, fun hd ↦ ?_⟩
    have hlength : (newer ++ d :: older).length = (newer ++ c :: older).length := by simp
    rw [List.cons_append, Tables, hlength]
    exact ⟨h.1, (ih h.2).2 hd⟩

theorem Tables.findSome?_eq_none {sent : List (Nat × Nat)} {l : List Connection}
    (h : Tables sent l) (hn : ∀ k, k < l.length → (n, k) ∉ sent) :
    l.findSome? (fun c ↦ c.pending.reply? n) = none := by
  induction l with
  | nil => rfl
  | cons c older ih =>
    rw [List.findSome?_cons, h.1.reply?_of_not_made (hn _ (Nat.lt_succ_self _))]
    exact ih h.2 fun k hk ↦ hn k (Nat.lt_succ_of_lt hk)

/-- The reply to a request is the one on the connection it has been sent over. -/
theorem Tables.findSome?_eq {sent : List (Nat × Nat)} {newer older : List Connection}
    {c : Connection} (h : Tables sent (newer ++ c :: older))
    (hn : ∀ k, (n, k) ∈ sent → k = older.length) :
    (newer ++ c :: older).findSome? (fun c ↦ c.pending.reply? n) = c.pending.reply? n := by
  induction newer with
  | nil =>
    rw [List.nil_append, List.findSome?_cons]
    have holder := Tables.findSome?_eq_none h.2 fun k hk hs ↦ Nat.ne_of_lt hk (hn k hs)
    cases c.pending.reply? n with
    | none => exact holder
    | some reply => rfl
  | cons b newer ih =>
    have hb : (n, (newer ++ c :: older).length) ∉ sent := by
      intro hs
      have hlength := hn _ hs
      simp only [List.length_append, List.length_cons] at hlength
      omega
    rw [List.cons_append, List.findSome?_cons, h.1.reply?_of_not_made hb]
    exact ih h.2

theorem Tables.findSome?_of_kept {sent : List (Nat × Nat)} {newer older : List Connection}
    {c d : Connection} (h : Tables sent (newer ++ c :: older))
    (hd : d.pending.Accounts fun n ↦ (n, older.length) ∈ sent)
    (unique : ∀ k k', (n, k) ∈ sent → (n, k') ∈ sent → k = k')
    (kept : c.pending.reply? n = some reply → d.pending.reply? n = some reply)
    (hr : (newer ++ c :: older).findSome? (fun c ↦ c.pending.reply? n) = some reply) :
    (newer ++ d :: older).findSome? (fun c ↦ c.pending.reply? n) = some reply := by
  obtain ⟨hc, hreplace⟩ := tables_append (d := d) h
  by_cases hn : (n, older.length) ∈ sent
  · have hown (k : Nat) (hk : (n, k) ∈ sent) : k = older.length := unique k _ hk hn
    rw [h.findSome?_eq hown] at hr
    rw [(hreplace hd).findSome?_eq hown]
    exact kept hr
  · rw [← hr]
    simp [hc.reply?_of_not_made hn, hd.reply?_of_not_made hn]

theorem Tables.isSome_findSome? {sent : List (Nat × Nat)} {l : List Connection}
    (h : Tables sent l) (settled : ∀ c ∈ l, c.pending.waiting = []) (hk : k < l.length)
    (hn : (n, k) ∈ sent) : (l.findSome? fun c ↦ c.pending.reply? n).isSome := by
  induction l with
  | nil => cases hk
  | cons c older ih =>
    obtain ⟨hc, hsettled⟩ := List.forall_mem_cons.1 settled
    rw [List.findSome?_cons]
    cases hr : c.pending.reply? n with
    | some reply => rfl
    | none =>
      refine ih h.2 hsettled (Nat.lt_of_le_of_ne (Nat.le_of_lt_succ hk) ?_)
      rintro rfl
      have hw := h.1.mem_waiting hn hr
      rw [hc] at hw
      cases hw

/-- A number is taken once and sent once, over one connection, which accounts for it; on
connections of the past nothing waits any more. -/
structure Sound (x : Usage) : Prop where
  numbers : x.issued.map Prod.fst = List.range' 1 x.issued.length
  next : x.client.nextSeq = x.issued.length + 1
  earlier : ∀ p ∈ x.sent, p.1 < x.client.nextSeq
  once : (x.sent.map Prod.fst).Nodup
  position : ∀ p ∈ x.sent, p.2 ≤ x.client.retired.length
  tables : Tables x.sent x.client.connections
  settled : ∀ c ∈ x.client.retired, c.pending.waiting = []
  locked : x.locked = true → x.client.connection.pending.waiting = []

theorem sound_start {connector : Connector} {policy : SendPolicy} {start : Nat} {c : Client}
    (h : Client.start connector policy start = .ok c) : Sound { client := c } := by
  obtain ⟨worker, -, rfl⟩ := map_eq_ok h
  constructor
  case numbers => rfl
  case next => rfl
  case earlier => exact fun _ hp ↦ absurd hp List.not_mem_nil
  case once => exact List.nodup_nil
  case position => exact fun _ hp ↦ absurd hp List.not_mem_nil
  case tables => exact ⟨Pending.accounts_empty fun _ hn ↦ absurd hn List.not_mem_nil, trivial⟩
  case settled => exact fun _ hc ↦ absurd hc List.not_mem_nil
  case locked => exact fun he ↦ absurd he Bool.false_ne_true

theorem Sound.lt_next (h : Sound x) {r : Request} (hr : (n, r) ∈ x.issued) :
    n < x.client.nextSeq := by
  have hn : n ∈ x.issued.map Prod.fst := List.mem_map_of_mem hr
  rw [h.numbers, List.mem_range'_1] at hn
  rw [h.next]
  omega

theorem Sound.number (h : Sound x) (r : Request) : Sound (x.number r) := by
  constructor
  case numbers =>
    have hone : 1 + x.issued.length = x.client.nextSeq := by
      rw [h.next, Nat.add_comm]
    simp [Usage.number, h.numbers, List.range'_concat, hone]
  case next => simp [Usage.number, h.next]
  case earlier => exact fun p hp ↦ Nat.lt_succ_of_lt (h.earlier p hp)
  case once => exact h.once
  case position => exact h.position
  case tables => exact h.tables
  case settled => exact h.settled
  case locked => exact h.locked

theorem Sound.send (h : Sound x) {r : Request} (hr : (n, r) ∈ x.issued)
    (unsent : n ∉ x.sent.map Prod.fst) (free : x.locked = false) : Sound (x.send n r) := by
  have hfresh (k : Nat) : (n, k) ∉ x.sent := fun hs ↦ unsent (List.mem_map_of_mem hs)
  have hmem (p : Nat × Nat) : p ∈ (x.send n r).sent ↔
      p ∈ x.sent ∨ p = (n, x.client.retired.length) := by simp [Usage.send]
  constructor
  case numbers => exact h.numbers
  case next => exact h.next
  case earlier =>
    intro p hp
    rcases (hmem p).1 hp with hp | rfl
    · exact h.earlier p hp
    · exact h.lt_next hr
  case once =>
    rw [Usage.send, List.map_append]
    refine List.nodup_append.2 ⟨h.once, List.nodup_singleton n, ?_⟩
    rintro m hm m' hm' rfl
    obtain rfl : m = n := List.mem_singleton.1 hm'
    exact unsent hm
  case position =>
    intro p hp
    rcases (hmem p).1 hp with hp | rfl
    · exact h.position p hp
    · exact Nat.le_refl _
  case tables =>
    refine ⟨Connection.request_keeps r (fun _ e hp ↦ hp.resolve n _) ?_, ?_⟩
    · refine h.tables.1.register (hfresh _) fun m ↦ ?_
      have hlength : (x.send n r).client.retired.length = x.client.retired.length := rfl
      rw [hmem, hlength, Prod.mk.injEq, and_iff_left rfl]
    · refine Tables.congr h.tables.2 fun m k hk ↦ ?_
      have hne : (m, k) ≠ (n, x.client.retired.length) := fun he ↦
        Nat.ne_of_lt hk (congrArg Prod.snd he)
      rw [hmem]
      simp only [hne, or_false]
  case settled => exact h.settled
  case locked => exact fun he ↦ absurd (free.symm.trans he) Bool.false_ne_true

theorem Sound.turn (h : Sound x) (ht : Turn worlds k x y) : Sound y := by
  cases ht with
  | current hd position =>
    exact { h with
      tables := ⟨hd.accounts h.tables.1, h.tables.2⟩
      locked := fun hl ↦ hd.waiting (h.locked hl) }
  | @retired newer older c d split hd position =>
    have hlength : (newer ++ d :: older).length = x.client.retired.length := by simp [split]
    obtain ⟨hc, hreplace⟩ := tables_append (d := d) (split ▸ h.tables.2)
    refine { h with position := ?_, tables := ⟨?_, hreplace (hd.accounts hc)⟩, settled := ?_ }
    · intro p hp
      rw [hlength]
      exact h.position p hp
    · rw [hlength]
      exact h.tables.1
    · intro b hb
      have hsettled := h.settled
      rw [split] at hsettled
      rcases List.mem_append.1 hb with hb | hb
      · exact hsettled b (List.mem_append_left _ hb)
      · rcases List.mem_cons.1 hb with rfl | hb
        · exact hd.waiting (hsettled c (List.mem_append_right _ List.mem_cons_self))
        · exact hsettled b (List.mem_append_right _ (List.mem_cons_of_mem _ hb))

theorem Sound.shut (h : Sound x) : Sound x.shut := { h with
  tables := ⟨h.tables.1.close, h.tables.2⟩
  locked := fun _ ↦ Pending.waiting_close _ }

theorem Sound.replace (h : Sound x) (locked : x.locked = true) (worker : Worker) :
    Sound (x.replace worker) := by
  refine { h with position := ?_, tables := ⟨?_, h.tables⟩, settled := ?_, locked := ?_ }
  · exact fun p hp ↦ Nat.le_succ_of_le (h.position p hp)
  · exact Pending.accounts_empty fun n hs ↦ Nat.not_succ_le_self _ (h.position _ hs)
  · exact List.forall_mem_cons.2 ⟨h.locked locked, h.settled⟩
  · exact fun he ↦ absurd he Bool.false_ne_true

theorem Sound.step (h : Sound x) (hs : Step worlds x y) : Sound y := by
  cases hs with
  | store => exact { h with }
  | number r => exact h.number r
  | send issued unsent free => exact h.send issued unsent free
  | turn ht => exact h.turn ht
  | shut => exact h.shut
  | replace locked => exact h.replace locked _
  | giveUp => exact { h with locked := fun he ↦ absurd he Bool.false_ne_true }

theorem Sound.steps (h : Sound x) (hs : Steps worlds x y) : Sound y := by
  induction hs with
  | refl => exact h
  | tail _ hs ih => exact ih.step hs

theorem Sound.unique (h : Sound x) {k' : Nat} (hk : (n, k) ∈ x.sent) (hk' : (n, k') ∈ x.sent) :
    k = k' :=
  congrArg Prod.snd (List.inj_on_of_nodup_map h.once hk hk' rfl)

theorem reply?_eq (x : Usage) (n : Nat) :
    x.client.reply? n = x.client.connections.findSome? fun c ↦ c.pending.reply? n := rfl

theorem Sound.reply?_of_not_over (h : Sound x) (ht : Turn worlds k x y) (hn : (n, k) ∉ x.sent) :
    y.client.reply? n = x.client.reply? n := by
  obtain ⟨newer, c, d, older, hx, rfl, hd, hy⟩ := ht.split
  have hc := (tables_append (d := c) (hx ▸ h.tables)).1
  have hnone := hc.reply?_of_not_made hn
  have hnone' := (hd.accounts hc).reply?_of_not_made hn
  rw [reply?_eq, reply?_eq, hx, hy]
  simp [hnone, hnone']

/-- A reply that has been given is never changed. -/
theorem Sound.reply?_step (h : Sound x) (hs : Step worlds x y)
    (hr : x.client.reply? n = some reply) : y.client.reply? n = some reply := by
  have hunique (k k' : Nat) (hk : (n, k) ∈ x.sent) (hk' : (n, k') ∈ x.sent) : k = k' :=
    h.unique hk hk'
  cases hs with
  | store => exact hr
  | number => exact hr
  | giveUp => exact hr
  | @send m r issued unsent free =>
    have hne : n ≠ m := by
      rintro rfl
      have hnone := h.tables.findSome?_eq_none fun k _ hs ↦ unsent (List.mem_map_of_mem hs)
      rw [reply?_eq, hnone] at hr
      cases hr
    have hsame : (x.client.connection.request m r).pending.reply? n =
        x.client.connection.pending.reply? n :=
      Connection.request_keeps (P := fun p ↦ p.reply? n = x.client.connection.pending.reply? n) r
        (fun p e hp ↦ (Pending.reply?_resolve_of_ne hne p _).trans hp) rfl
    rw [reply?_eq, Client.connections, List.findSome?_cons] at hr ⊢
    rw [← hr, ← hsame]
    rfl
  | turn ht =>
    obtain ⟨newer, c, d, older, hx, rfl, hd, hy⟩ := ht.split
    have htables : Tables x.sent (newer ++ c :: older) := hx ▸ h.tables
    rw [reply?_eq, hx] at hr
    rw [reply?_eq, hy]
    exact htables.findSome?_of_kept (hd.accounts (tables_append (d := d) htables).1) hunique
      hd.reply? hr
  | shut =>
    have hclose (hc : x.client.connection.pending.reply? n = some reply) :
        x.client.connection.pending.close.reply? n = some reply :=
      Pending.keeps_close (P := fun p ↦ p.reply? n = some reply) (fun _ hp ↦ hp)
        (fun _ m hp ↦ Pending.reply?_resolve_of_some hp m _) hc
    have htables : Tables x.sent ([] ++ x.client.connection :: x.client.retired) := h.tables
    exact htables.findSome?_of_kept h.shut.tables.1 hunique hclose hr
  | replace => exact hr

theorem Sound.reply?_steps (h : Sound x) (hs : Steps worlds x y)
    (hr : x.client.reply? n = some reply) : y.client.reply? n = some reply := by
  induction hs with
  | refl => exact hr
  | tail hxy hs ih => exact (h.steps hxy).reply?_step hs ih

theorem Sound.reply?_shut (h : Sound x) (hn : n ∈ x.sent.map Prod.fst)
    (hr : x.client.reply? n = none) : x.shut.client.reply? n = some (.error .exited) := by
  obtain ⟨⟨_, k⟩, hs, rfl⟩ := List.mem_map.1 hn
  rw [reply?_eq, Client.connections, List.findSome?_eq_none_iff] at hr
  obtain ⟨hcurrent, hretired⟩ := List.forall_mem_cons.1 hr
  obtain rfl : k = x.client.retired.length := by
    refine Nat.le_antisymm (h.position _ hs) (Nat.le_of_not_lt fun hk ↦ ?_)
    have hsome := Tables.isSome_findSome? h.tables.2 h.settled hk hs
    rw [List.findSome?_eq_none_iff.2 hretired] at hsome
    cases hsome
  have hclosed : x.shut.client.connection.pending.reply? _ = some (.error .exited) :=
    Pending.reply?_close (h.tables.1.mem_waiting hs hcurrent) hcurrent
  rw [reply?_eq, Client.connections, List.findSome?_cons, hclosed]

theorem Turn.length_retired (h : Turn worlds k x y) :
    y.client.retired.length = x.client.retired.length := by
  cases h with
  | current => rfl
  | retired split => simp [split]

theorem Step.length_retired_le (hs : Step worlds x y) :
    x.client.retired.length ≤ y.client.retired.length := by
  cases hs with
  | turn ht => exact Nat.le_of_eq ht.length_retired.symm
  | replace => exact Nat.le_succ _
  | _ => exact Nat.le_refl _

theorem Step.sent (hs : Step worlds x y) :
    y.sent = x.sent ∨ ∃ n, y.sent = x.sent ++ [(n, x.client.retired.length)] := by
  cases hs with
  | @send n => exact Or.inr ⟨n, rfl⟩
  | turn ht => cases ht <;> exact Or.inl rfl
  | _ => exact Or.inl rfl

theorem Steps.length_retired_le (hs : Steps worlds x y) :
    x.client.retired.length ≤ y.client.retired.length := by
  induction hs with
  | refl => exact Nat.le_refl _
  | tail _ hs ih => exact ih.trans hs.length_retired_le

/-- What is sent from now on is not sent over connections of the past. -/
theorem Steps.sent (hs : Steps worlds x y) :
    ∃ more, y.sent = x.sent ++ more ∧ ∀ p ∈ more, x.client.retired.length ≤ p.2 := by
  induction hs with
  | refl => exact ⟨[], (List.append_nil _).symm, fun _ hp ↦ absurd hp List.not_mem_nil⟩
  | @tail y z hxy hs ih =>
    obtain ⟨more, hmore, hlate⟩ := ih
    rcases hs.sent with hz | ⟨n, hz⟩
    · exact ⟨more, hz.trans hmore, hlate⟩
    · refine ⟨more ++ [(n, y.client.retired.length)], ?_, fun p hp ↦ ?_⟩
      · rw [hz, hmore, List.append_assoc]
      · rcases List.mem_append.1 hp with hp | hp
        · exact hlate p hp
        · rw [List.mem_singleton.1 hp]
          exact Steps.length_retired_le hxy

end Usage

namespace Connection

variable {worlds : Workers → Prop} {w : Workers}

theorem advances_settle (prevails : worlds w) (c : Connection) :
    ReflTransGen (Advance worlds) c (c.settle w).1 := by
  have hwrite : ReflTransGen (Advance worlds) c c.writeAll :=
    exhaust_invariant (p := ReflTransGen (Advance worlds) c) write? toWrite write_lt
      (fun hs ha ↦ ha.tail (.write hs)) c .refl
  have hwork : ReflTransGen (Advance worlds) c.writeAll (c.writeAll.workAll w).1 := by
    refine exhaust_invariant (p := fun p : Connection × List Call ↦
      ReflTransGen (Advance worlds) c.writeAll p.1) (workOn? w) toWork workOn_lt
      (fun {a b} hs ha ↦ ?_) (c.writeAll, []) .refl
    obtain ⟨⟨d, calls⟩, hd, rfl⟩ := Option.map_eq_some_iff.1 hs
    exact ha.tail (.work prevails hd)
  have hread : ReflTransGen (Advance worlds) (c.writeAll.workAll w).1
      (c.writeAll.workAll w).1.readAll :=
    exhaust_invariant (p := ReflTransGen (Advance worlds) (c.writeAll.workAll w).1) read? toRead
      read_lt (fun hs ha ↦ ha.tail (.read hs)) _ .refl
  exact hwrite.trans (hwork.trans hread)

end Connection

namespace Usage

variable {worlds : Workers → Prop} {w : Workers} {x : Usage}

theorem steps_of_advances {d : Connection}
    (h : ReflTransGen (Connection.Advance worlds) x.client.connection d) :
    Steps worlds x { x with client := { x.client with connection := d } } := by
  induction h with
  | refl => exact .refl
  | tail _ hd ih => exact ih.tail (.turn (.current (.advance hd) rfl))

theorem steps_settle (prevails : worlds w) (x : Usage) :
    Steps worlds x { x with client := ((Client.settle w).run x.client).state } :=
  steps_of_advances (Connection.advances_settle prevails _)

def asked (w : Workers) (r : Request) (x : Usage) : Usage := { x with
  client := x.client.asked w r
  issued := x.issued ++ [(x.client.nextSeq, r)]
  sent := x.sent ++ [(x.client.nextSeq, x.client.retired.length)] }

theorem Sound.steps_asked (h : Sound x) (prevails : worlds w) (free : x.locked = false)
    (r : Request) : Steps worlds x (x.asked w r) := by
  have hissued : (x.client.nextSeq, r) ∈ (x.number r).issued :=
    List.mem_append_right _ List.mem_cons_self
  have hunsent : x.client.nextSeq ∉ (x.number r).sent.map Prod.fst := by
    intro hm
    obtain ⟨p, hp, he⟩ := List.mem_map.1 hm
    exact Nat.ne_of_lt (h.earlier p hp) he
  have hsend : Step worlds (x.number r) ((x.number r).send x.client.nextSeq r) :=
    .send hissued hunsent free
  exact .head (.number x r) (.head hsend (steps_settle prevails _))

end Usage

theorem Promise.eq_ok_of_result {α : Type} {p : Promise α} {reply : Reply} {a : α}
    (h : p.result reply = .ok a) : ∃ payload, reply = .ok payload := by
  cases reply with
  | error e => cases h
  | ok payload => exact ⟨payload, rfl⟩

namespace Client

variable {w : Workers} {c : Client} {start : Nat}

theorem run_reset (w : Workers) (start : Nat) (c : Client) : (reset w start).run c =
    (do
      let worker ← Action.ofExcept (c.connector start)
      Action.modify (connect worker)
      settle w
      match c.setup with
      | none => pure ()
      | some setup => await (← ask w (.init setup) done?) : Act Unit).run
        { c with connection := c.connection.shutDown } := rfl

theorem run_reset_of_error {e : CheckError} (h : c.connector start = .error e) :
    ((reset w start).run c).state = { c with connection := c.connection.shutDown } := by
  rw [run_reset, h]
  rfl

/-- A client that goes on with a new worker, which nothing has been sent to. -/
def renewed (w : Workers) (worker : Worker) (c : Client) : Client :=
  ((settle w).run (connect worker { c with connection := c.connection.shutDown })).state

theorem run_reset_of_none {worker : Worker} (h : c.connector start = .ok worker)
    (hsetup : c.setup = none) : ((reset w start).run c).state = c.renewed w worker := by
  obtain ⟨connector, policy, connection, nextSeq, _, retired⟩ := c
  obtain rfl : _ = none := hsetup
  rw [run_reset, h]
  rfl

theorem run_reset_of_some {worker : Worker} {setup : Setup} (h : c.connector start = .ok worker)
    (hsetup : c.setup = some setup) :
    ((reset w start).run c).result = Promise.result ⟨c.nextSeq, done?⟩
        ((((c.renewed w worker).asked w (.init setup)).reply? c.nextSeq).getD (.error .exited)) ∧
      ((reset w start).run c).state = (c.renewed w worker).asked w (.init setup) := by
  obtain ⟨connector, policy, connection, nextSeq, _, retired⟩ := c
  obtain rfl : _ = some setup := hsetup
  rw [run_reset, h]
  exact ⟨rfl, rfl⟩

end Client

namespace Usage

/-- A reset gives the worker up, and goes on with a new one and with the setup of the old one. -/
theorem Sound.run_reset (h : Sound x) (prevails : worlds w) (start : Nat) : ∃ y, Steps worlds x.shut y ∧ y.locked = false ∧
      y.client = ((Client.reset w start).run x.client).state ∧
      ∀ worker setup, x.client.connector start = .ok worker → x.client.setup = some setup →
        Steps worlds (x.shut.replace worker) y ∧
          y.client.retired.length = x.client.retired.length + 1 ∧
          y.issued = x.issued ++ [(x.client.nextSeq, .init setup)] ∧
          y.sent.map Prod.fst = x.sent.map Prod.fst ++ [x.client.nextSeq] ∧
          (((Client.reset w start).run x.client).result = .ok () →
            ∃ payload, y.client.reply? x.client.nextSeq = some (.ok payload)) := by
  cases hstart : x.client.connector start with
  | error e =>
    refine ⟨{ x.shut with locked := false }, .single (.giveUp rfl hstart), rfl, ?_, ?_⟩
    · exact (Client.run_reset_of_error hstart).symm
    · intro worker _ hw
      cases hw
  | ok worker =>
    have hreplace : Step worlds x.shut (x.shut.replace worker) := .replace rfl hstart
    let renewed : Usage := { x with client := x.client.renewed w worker, locked := false }
    have hrenewed : Steps worlds (x.shut.replace worker) renewed := steps_settle prevails _
    cases hsetup : x.client.setup with
    | none =>
      refine ⟨renewed, .head hreplace hrenewed, rfl, ?_, ?_⟩
      · exact (Client.run_reset_of_none hstart hsetup).symm
      · intro _ _ _ hs
        cases hs
    | some setup =>
      obtain ⟨hresult, hstate⟩ := Client.run_reset_of_some (w := w) hstart hsetup
      have hsound : Sound renewed := (h.shut.replace rfl worker).steps hrenewed
      have hasked : Steps worlds (x.shut.replace worker) (renewed.asked w (.init setup)) :=
        hrenewed.trans (hsound.steps_asked prevails rfl _)
      refine ⟨_, .head hreplace hasked, rfl, hstate.symm, ?_⟩
      rintro worker setup ⟨⟩ ⟨⟩
      refine ⟨hasked, rfl, rfl, List.map_append, fun hok ↦ ?_⟩
      have hreply : (renewed.asked w (.init setup)).client =
          (x.client.renewed w worker).asked w (.init setup) := rfl
      rw [hresult] at hok
      rw [hreply]
      obtain ⟨payload, hpayload⟩ := Promise.eq_ok_of_result hok
      cases hr : ((x.client.renewed w worker).asked w (.init setup)).reply? x.client.nextSeq with
      | none =>
        rw [hr] at hpayload
        cases hpayload
      | some reply =>
        rw [hr] at hpayload
        exact ⟨payload, congrArg some hpayload⟩

end Usage

end TypedLoader
