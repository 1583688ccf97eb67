import Mathlib.Data.List.Nodup
import Mathlib.Logic.Function.Basic
import Mathlib.Logic.Relation
import TypedLoader.Checker.Connection

namespace TypedLoader

open Function (update)
open Relation (ReflTransGen)

namespace Pending

/-- Of the requests that have been made, each waits or has one reply. -/
structure Accounts (made : Nat → Prop) (p : Pending) : Prop where
  waiting : p.waiting.Nodup
  arrived : (p.arrived.map Prod.fst).Nodup
  apart : ∀ n ∈ p.waiting, n ∉ p.arrived.map Prod.fst
  made : ∀ n, made n ↔ n ∈ p.waiting ∨ n ∈ p.arrived.map Prod.fst

variable {made : Nat → Prop} {p : Pending} {n : Nat}

theorem accounts_empty (hm : ∀ n, ¬made n) : ({} : Pending).Accounts made where
  waiting := List.nodup_nil
  arrived := List.nodup_nil
  apart := fun _ h ↦ absurd h List.not_mem_nil
  made := fun n ↦ iff_of_false (hm n) (by simp)

theorem Accounts.congr (h : p.Accounts made) {made' : Nat → Prop} (hm : ∀ n, made' n ↔ made n) :
    p.Accounts made' where
  waiting := h.waiting
  arrived := h.arrived
  apart := h.apart
  made n := (hm n).trans (h.made n)

theorem Accounts.register (h : p.Accounts made) (fresh : ¬made n) {made' : Nat → Prop}
    (hm : ∀ m, made' m ↔ made m ∨ m = n) : (p.register n).Accounts made' where
  waiting := by
    have hn : n ∉ p.waiting := fun hw ↦ fresh ((h.made n).2 (Or.inl hw))
    refine List.nodup_append.2 ⟨h.waiting, List.nodup_singleton n, ?_⟩
    rintro m hmem _ hn' rfl
    exact hn (List.mem_singleton.1 hn' ▸ hmem)
  arrived := h.arrived
  apart m hmem ha := by
    rcases List.mem_append.1 hmem with hw | hw
    · exact h.apart m hw ha
    · exact fresh ((h.made n).2 (Or.inr (List.mem_singleton.1 hw ▸ ha)))
  made m := by
    have hw : m ∈ (p.register n).waiting ↔ m ∈ p.waiting ∨ m = n := by
      rw [Pending.register, List.mem_append, List.mem_singleton]
    rw [hm, h.made, hw, or_right_comm]
    rfl

theorem resolve_cases (p : Pending) (n : Nat) (reply : Reply) :
    n ∈ p.waiting ∧ (p.resolve n reply).waiting = p.waiting.erase n ∧
        (p.resolve n reply).arrived = p.arrived ++ [(n, reply)] ∨
      n ∉ p.waiting ∧ p.resolve n reply = p := by
  by_cases hn : n ∈ p.waiting
  · refine Or.inl ⟨hn, waiting_resolve p n reply, ?_⟩
    rw [resolve, if_pos (by simpa using hn)]
  · refine Or.inr ⟨hn, ?_⟩
    rw [resolve, if_neg (by simpa using hn)]

theorem Accounts.resolve (h : p.Accounts made) (n : Nat) (reply : Reply) :
    (p.resolve n reply).Accounts made := by
  rcases p.resolve_cases n reply with ⟨hn, hw, ha⟩ | ⟨-, he⟩
  · have harrived (m : Nat) : m ∈ (p.resolve n reply).arrived.map Prod.fst ↔
        m ∈ p.arrived.map Prod.fst ∨ m = n := by simp [ha]
    constructor
    case waiting =>
      rw [hw]
      exact h.waiting.erase n
    case arrived =>
      rw [ha, List.map_append]
      refine List.nodup_append.2 ⟨h.arrived, List.nodup_singleton n, ?_⟩
      intro m hm m' hm' he
      obtain rfl : m' = n := List.mem_singleton.1 hm'
      exact h.apart m' hn (he ▸ hm)
    case apart =>
      intro m hm hm'
      rw [hw, h.waiting.mem_erase_iff] at hm
      rcases (harrived m).1 hm' with hm' | rfl
      · exact h.apart m hm.2 hm'
      · exact hm.1 rfl
    case made =>
      intro m
      rw [h.made, harrived, hw, h.waiting.mem_erase_iff]
      by_cases hmn : m = n
      · simp [hmn, hn]
      · simp [hmn]
  · rw [he]
    exact h

theorem route_cases (p : Pending) (message : String) :
    (∃ a, Response.ofText? message = some a ∧ p.route message = p.resolve a.seq a.result) ∨
      p.route message = p := by
  rw [route]
  cases Response.ofText? message with
  | some a => exact Or.inl ⟨a, rfl, rfl⟩
  | none => exact Or.inr rfl

theorem delivers_own (p : Pending) (message : String) : p.route message = p ∨
    ∃ a, Response.ofText? message = some a ∧ a.seq ∈ p.waiting ∧
      (p.route message).arrived = p.arrived ++ [(a.seq, a.result)] := by
  rcases p.route_cases message with ⟨a, ha, hroute⟩ | hroute
  · rw [hroute]
    rcases p.resolve_cases a.seq a.result with ⟨hn, -, harrived⟩ | ⟨-, he⟩
    · exact Or.inr ⟨a, ha, hn, harrived⟩
    · exact Or.inl he
  · exact Or.inl hroute

theorem alive_route (p : Pending) (message : String) : (p.route message).alive = p.alive := by
  rcases p.route_cases message with ⟨a, -, he⟩ | he
  · rw [he, alive_resolve]
  · rw [he]

end Pending

/-- How far the call of a request has come. One that has been refused gives its
own request the error, as its last step. -/
inductive RequestStage where
  | unmade
  | registered
  | sent
  | refused (e : CheckError)
  | ended

/-- How far a close has come. It rejects, in some order, the requests that it found
waiting when it had marked the worker as gone. -/
inductive CloseStage where
  | unmade
  | marked
  | rejecting (seqs : List Nat)
  | ended

def RequestStage.isOpen : RequestStage → Prop
  | unmade => False
  | registered => True
  | sent => True
  | refused _ => True
  | ended => False

theorem RequestStage.ended_of_not_isOpen {s : RequestStage} (h : ¬s.isOpen) (hs : s ≠ .unmade) :
    s = .ended := by
  cases s with
  | unmade => exact absurd rfl hs
  | ended => rfl
  | registered | sent | refused => exact absurd trivial h

def CloseStage.Covers (n : Nat) : CloseStage → Prop
  | unmade => True
  | marked => True
  | rejecting seqs => n ∈ seqs
  | ended => False

/-- The table of a connection, with the calls of requests by their numbers, and
the closes, numbered as one likes. What has been read from the worker and which
sends have failed is kept. -/
structure Traffic where
  table : Pending := {}
  request : Nat → RequestStage := fun _ ↦ .unmade
  close : Nat → CloseStage := fun _ ↦ .unmade
  routed : List String := []
  failed : List (Nat × CheckError) := []

namespace Traffic

inductive Step : Traffic → Traffic → Prop
  | register {t : Traffic} {n : Nat} (h : t.request n = .unmade) :
      Step t { t with table := t.table.register n, request := update t.request n .registered }
  | send {t : Traffic} {n : Nat} (h : t.request n = .registered) :
      Step t { t with request := update t.request n .sent }
  | fail {t : Traffic} {n : Nat} (h : t.request n = .registered) (e : CheckError) :
      Step t { t with request := update t.request n (.refused e), failed := t.failed ++ [(n, e)] }
  | pass {t : Traffic} {n : Nat} (h : t.request n = .sent) (alive : t.table.alive = true) :
      Step t { t with request := update t.request n .ended }
  | late {t : Traffic} {n : Nat} (h : t.request n = .sent) (gone : t.table.alive = false) :
      Step t { t with request := update t.request n (.refused .exited) }
  | refuse {t : Traffic} {n : Nat} {e : CheckError} (h : t.request n = .refused e) :
      Step t { t with
        table := t.table.resolve n (.error e)
        request := update t.request n .ended }
  | route (t : Traffic) (message : String) :
      Step t { t with table := t.table.route message, routed := t.routed ++ [message] }
  | mark {t : Traffic} {k : Nat} (h : t.close k = .unmade) :
      Step t { t with table := t.table.markGone, close := update t.close k .marked }
  | list {t : Traffic} {k : Nat} {seqs : List Nat} (h : t.close k = .marked)
      (found : seqs.Perm t.table.waiting) :
      Step t { t with close := update t.close k (.rejecting seqs) }
  | reject {t : Traffic} {k n : Nat} {seqs : List Nat} (h : t.close k = .rejecting (n :: seqs)) :
      Step t { t with
        table := t.table.resolve n (.error .exited)
        close := update t.close k (.rejecting seqs) }
  | finish {t : Traffic} {k : Nat} (h : t.close k = .rejecting []) :
      Step t { t with close := update t.close k .ended }

def Reachable : Traffic → Prop := ReflTransGen Step {}

/-- Where a reply comes from: from a response with the number of the request, from
the failure to send it, or from the loss of the worker. -/
def Origin (t : Traffic) (n : Nat) (reply : Reply) : Prop :=
  (∃ message ∈ t.routed, ∃ a, Response.ofText? message = some a ∧ a.seq = n ∧ a.result = reply) ∨
    (∃ e, (n, e) ∈ t.failed ∧ reply = .error e) ∨
    t.table.alive = false ∧ reply = .error .exited

/-- What holds between the steps. While the worker is there nothing is closed, and
a request that waits after its call is seen to by every close. -/
structure Sound (t : Traffic) : Prop where
  accounts : t.table.Accounts fun n ↦ t.request n ≠ .unmade
  origin : ∀ n reply, (n, reply) ∈ t.table.arrived → t.Origin n reply
  refused : ∀ n e, t.request n = .refused e →
    (n, e) ∈ t.failed ∨ t.table.alive = false ∧ e = .exited
  unclosed : t.table.alive = true → ∀ k, t.close k = .unmade
  covered : ∀ n ∈ t.table.waiting, t.request n = .ended → ∀ k, (t.close k).Covers n

theorem sound_empty : ({} : Traffic).Sound where
  accounts := Pending.accounts_empty fun _ h ↦ h rfl
  origin := fun _ _ h ↦ absurd h List.not_mem_nil
  refused := fun _ _ h ↦ nomatch h
  unclosed := fun _ _ ↦ rfl
  covered := fun _ h ↦ absurd h List.not_mem_nil

section Steps

variable {t u : Traffic} {n k : Nat}

theorem Origin.mono {reply : Reply} (h : t.Origin n reply) (hr : t.routed ⊆ u.routed)
    (hf : t.failed ⊆ u.failed) (ha : t.table.alive = false → u.table.alive = false) :
    u.Origin n reply := by
  rcases h with ⟨message, hm, a⟩ | ⟨e, he, hreply⟩ | ⟨hgone, hreply⟩
  · exact Or.inl ⟨message, hr hm, a⟩
  · exact Or.inr (Or.inl ⟨e, hf he, hreply⟩)
  · exact Or.inr (Or.inr ⟨ha hgone, hreply⟩)

theorem Sound.resolve (h : t.Sound) {reply : Reply} (ho : t.Origin n reply) :
    Sound { t with table := t.table.resolve n reply } := by
  have halive : (t.table.resolve n reply).alive = t.table.alive := Pending.alive_resolve ..
  have hmono {m : Nat} {r : Reply} (hm : t.Origin m r) :
      Origin { t with table := t.table.resolve n reply } m r :=
    hm.mono (List.Subset.refl _) (List.Subset.refl _) halive.trans
  have hwaiting : ∀ m ∈ (t.table.resolve n reply).waiting, m ∈ t.table.waiting := by
    rw [Pending.waiting_resolve]
    exact fun m ↦ List.mem_of_mem_erase
  constructor
  case accounts => exact h.accounts.resolve n reply
  case origin =>
    intro m r hm
    rcases t.table.resolve_cases n reply with ⟨-, -, ha⟩ | ⟨-, he⟩
    · have hm : (m, r) ∈ (t.table.resolve n reply).arrived := hm
      rw [ha, List.mem_append, List.mem_singleton] at hm
      rcases hm with hm | hm
      · exact hmono (h.origin m r hm)
      · obtain ⟨rfl, rfl⟩ := Prod.mk.inj hm
        exact hmono ho
    · have hm : (m, r) ∈ (t.table.resolve n reply).arrived := hm
      rw [he] at hm
      exact hmono (h.origin m r hm)
  case refused =>
    intro m e hm
    rw [halive]
    exact h.refused m e hm
  case unclosed =>
    intro ha
    exact h.unclosed (halive.symm.trans ha)
  case covered => exact fun m hm ↦ h.covered m (hwaiting m hm)

theorem Sound.stage (h : t.Sound) {stage : RequestStage} {failed : List (Nat × CheckError)}
    (hf : t.failed ⊆ failed) (hn : t.request n ≠ .unmade) (hs : stage ≠ .unmade)
    (hr : ∀ e, stage = .refused e → (n, e) ∈ failed ∨ t.table.alive = false ∧ e = .exited)
    (hc : n ∈ t.table.waiting → stage = .ended → ∀ k, (t.close k).Covers n) :
    Sound { t with request := update t.request n stage, failed } := by
  constructor
  case accounts =>
    refine h.accounts.congr fun m ↦ ?_
    by_cases hm : m = n
    · rw [hm]
      exact iff_of_true (by simpa using hs) hn
    · simp [hm]
  case origin => exact fun m r hm ↦ (h.origin m r hm).mono (List.Subset.refl _) hf id
  case refused =>
    intro m e hm
    by_cases hmn : m = n
    · subst hmn
      have hm : update t.request m stage m = .refused e := hm
      rw [Function.update_self] at hm
      exact hr e hm
    · have hm : update t.request n stage m = .refused e := hm
      rw [Function.update_of_ne hmn] at hm
      exact (h.refused m e hm).imp_left fun he ↦ hf he
  case unclosed => exact h.unclosed
  case covered =>
    intro m hm hended
    by_cases hmn : m = n
    · subst hmn
      have hended : update t.request m stage m = .ended := hended
      rw [Function.update_self] at hended
      exact hc hm hended
    · have hended : update t.request n stage m = .ended := hended
      rw [Function.update_of_ne hmn] at hended
      exact h.covered m hm hended

theorem Sound.closing (h : t.Sound) {stage : CloseStage} (gone : t.table.alive = false)
    (hc : ∀ m ∈ t.table.waiting, t.request m = .ended → stage.Covers m) :
    Sound { t with close := update t.close k stage } where
  accounts := h.accounts
  origin := h.origin
  refused := h.refused
  unclosed ha := absurd (gone.symm.trans ha) (by decide)
  covered m hm hended j := by
    by_cases hj : j = k
    · simpa [hj] using hc m hm hended
    · simpa [hj] using h.covered m hm hended j

theorem Sound.gone_of_close (h : t.Sound) (hk : t.close k ≠ .unmade) : t.table.alive = false := by
  cases ha : t.table.alive with
  | false => rfl
  | true => exact absurd (h.unclosed ha k) hk

theorem Sound.notMem_resolve (h : t.Sound) (n : Nat) (reply : Reply) :
    n ∉ (t.table.resolve n reply).waiting := by
  rw [Pending.waiting_resolve, h.accounts.waiting.mem_erase_iff]
  exact fun hn ↦ hn.1 rfl

theorem Sound.register (h : t.Sound) (hn : t.request n = .unmade) :
    Sound { t with table := t.table.register n, request := update t.request n .registered } where
  accounts := h.accounts.register (fun hm ↦ hm hn) fun m ↦ by
    by_cases hm : m = n
    · simp [hm]
    · simp [hm]
  origin m r hm := (h.origin m r hm).mono (List.Subset.refl _) (List.Subset.refl _) id
  refused m e hm := by
    by_cases hmn : m = n
    · simp [hmn] at hm
    · exact h.refused m e (by simpa [Function.update_of_ne hmn] using hm)
  unclosed := h.unclosed
  covered m hm hended := by
    by_cases hmn : m = n
    · simp [hmn] at hended
    · have hm : m ∈ t.table.waiting := by simpa [Pending.register, hmn] using hm
      exact h.covered m hm (by simpa [Function.update_of_ne hmn] using hended)

theorem Sound.mark (h : t.Sound) :
    Sound { t with table := t.table.markGone, close := update t.close k .marked } := by
  have hgone : Sound { t with table := t.table.markGone } :=
    { accounts := ⟨h.accounts.waiting, h.accounts.arrived, h.accounts.apart, h.accounts.made⟩
      origin := fun m r hm ↦
        (h.origin m r hm).mono (List.Subset.refl _) (List.Subset.refl _) fun _ ↦ rfl
      refused := fun m e hm ↦ (h.refused m e hm).imp_right fun he ↦ ⟨rfl, he.2⟩
      unclosed := fun ha ↦ absurd ha Bool.false_ne_true
      covered := h.covered }
  exact hgone.closing rfl fun _ _ _ ↦ trivial

theorem Sound.route (h : t.Sound) (message : String) :
    Sound { t with table := t.table.route message, routed := t.routed ++ [message] } := by
  have hnoted : Sound { t with routed := t.routed ++ [message] } :=
    { h with
      origin := fun m r hm ↦ (h.origin m r hm).mono (List.subset_append_left ..)
        (List.Subset.refl _) id }
  rcases t.table.route_cases message with ⟨a, ha, he⟩ | he
  · rw [he]
    exact hnoted.resolve (Or.inl ⟨message, by simp, a, ha, rfl, rfl⟩)
  · rw [he]
    exact hnoted

theorem Sound.step (h : t.Sound) (hs : Step t u) : u.Sound := by
  cases hs with
  | register hn => exact h.register hn
  | send hn =>
    exact h.stage (List.Subset.refl _) (by rw [hn]; exact fun he ↦ nomatch he) (fun he ↦ nomatch he)
      (fun e he ↦ nomatch he) (fun _ he ↦ nomatch he)
  | @fail n hn e =>
    refine h.stage (List.subset_append_left ..) (by rw [hn]; exact fun he ↦ nomatch he)
      (fun he ↦ nomatch he) ?_ (fun _ he ↦ nomatch he)
    intro e' he
    obtain rfl := RequestStage.refused.inj he
    exact Or.inl (by simp)
  | pass hn ha =>
    refine h.stage (List.Subset.refl _) (by rw [hn]; exact fun he ↦ nomatch he)
      (fun he ↦ nomatch he) (fun e he ↦ nomatch he) ?_
    -- the worker was still there after the request had been registered
    intro _ _ k
    rw [h.unclosed ha k]
    trivial
  | late hn hgone =>
    refine h.stage (List.Subset.refl _) (by rw [hn]; exact fun he ↦ nomatch he)
      (fun he ↦ nomatch he) ?_ (fun _ he ↦ nomatch he)
    intro e he
    exact Or.inr ⟨hgone, (RequestStage.refused.inj he).symm⟩
  | @refuse n e hn =>
    have ho : t.Origin n (.error e) := by
      rcases h.refused n e hn with hf | ⟨hgone, rfl⟩
      · exact Or.inr (Or.inl ⟨e, hf, rfl⟩)
      · exact Or.inr (Or.inr ⟨hgone, rfl⟩)
    refine (h.resolve ho).stage (List.Subset.refl _) (by rw [hn]; exact fun he ↦ nomatch he)
      (fun he ↦ nomatch he) (fun e he ↦ nomatch he) ?_
    exact fun hm ↦ absurd hm (h.notMem_resolve n _)
  | route message => exact h.route message
  | mark hk => exact h.mark
  | @list k seqs hk hfound =>
    have hgone := h.gone_of_close (k := k) (by rw [hk]; exact fun he ↦ nomatch he)
    exact h.closing hgone fun m hm _ ↦ hfound.mem_iff.2 hm
  | @reject k n seqs hk =>
    have hgone := h.gone_of_close (k := k) (by rw [hk]; exact fun he ↦ nomatch he)
    have hexited : t.Origin n (.error .exited) := Or.inr (Or.inr ⟨hgone, rfl⟩)
    have hresolved := h.resolve hexited
    refine hresolved.closing ((Pending.alive_resolve ..).trans hgone) fun m hm hended ↦ ?_
    have hne : m ≠ n := fun he ↦ h.notMem_resolve n _ (he ▸ hm)
    have hm : m ∈ t.table.waiting := by
      rw [Pending.waiting_resolve] at hm
      exact List.mem_of_mem_erase hm
    have hcovers := h.covered m hm hended k
    rw [hk] at hcovers
    exact (List.mem_cons.1 hcovers).resolve_left hne
  | @finish k hk =>
    have hgone := h.gone_of_close (k := k) (by rw [hk]; exact fun he ↦ nomatch he)
    refine h.closing hgone fun m hm hended ↦ ?_
    have hcovers := h.covered m hm hended k
    rw [hk] at hcovers
    exact absurd hcovers List.not_mem_nil

theorem Reachable.sound (h : Reachable t) : t.Sound := by
  induction h with
  | refl => exact sound_empty
  | tail _ hs ih => exact ih.step hs

end Steps

/-- Whatever the order of all steps, a request has one reply at most; what a message
of the worker delivers goes to the request whose number it carries, and to no other;
every reply is from such a message, or else an error; and when a close has ended and
no call goes on, every request has its reply. -/
theorem answered_once {t : Traffic} (h : t.Reachable) :
    (t.table.arrived.map Prod.fst).Nodup ∧
      (∀ message, t.table.route message = t.table ∨
        ∃ a, Response.ofText? message = some a ∧ a.seq ∈ t.table.waiting ∧
          (t.table.route message).arrived = t.table.arrived ++ [(a.seq, a.result)]) ∧
      (∀ n reply, (n, reply) ∈ t.table.arrived → t.Origin n reply) ∧
      ((∃ k, t.close k = .ended) → (∀ n, ¬(t.request n).isOpen) →
        ∀ n, t.request n ≠ .unmade → ∃ reply, (n, reply) ∈ t.table.arrived) := by
  have hsound := h.sound
  refine ⟨hsound.accounts.arrived, fun message ↦ t.table.delivers_own message, hsound.origin, ?_⟩
  rintro ⟨k, hk⟩ hidle n hn
  have hended : t.request n = .ended := RequestStage.ended_of_not_isOpen (hidle n) hn
  rcases (hsound.accounts.made n).1 hn with hw | ha
  · have hcovers := hsound.covered n hw hended k
    rw [hk] at hcovers
    exact hcovers.elim
  · obtain ⟨⟨m, reply⟩, hm, rfl⟩ := List.mem_map.1 ha
    exact ⟨reply, hm⟩

/-- A request that is registered too late for a close to find it. -/
theorem answered_of_late : ∃ t : Traffic, t.Reachable ∧ t.close 0 = .ended ∧
    t.request 1 = .ended ∧ ∃ reply, (1, reply) ∈ t.table.arrived := by
  have hmarked : Reachable _ := ReflTransGen.refl.tail (.mark (k := 0) rfl)
  have hlisted : Reachable _ := hmarked.tail (.list (k := 0) rfl (List.Perm.refl _))
  have hregistered : Reachable _ := hlisted.tail (.register (n := 1) rfl)
  have hsent : Reachable _ := hregistered.tail (.send (n := 1) rfl)
  have hrefused : Reachable _ := hsent.tail (.late (n := 1) rfl rfl)
  have hfinished : Reachable _ := hrefused.tail (.finish (k := 0) rfl)
  have hended : Reachable _ := hfinished.tail (.refuse (n := 1) (e := .exited) rfl)
  refine ⟨_, hended, rfl, rfl, (answered_once hended).2.2.2 ⟨0, rfl⟩ ?_ 1 (fun he ↦ nomatch he)⟩
  intro n
  by_cases hn : n = 1
  · simp [hn, RequestStage.isOpen]
  · simp [hn, RequestStage.isOpen]

section Uninterrupted

variable {t : Traffic} {k : Nat}

theorem run_reject {seqs : List Nat} (h : t.close k = .rejecting seqs) :
    ReflTransGen Step t
      { t with table := t.table.reject seqs, close := update t.close k .ended } := by
  induction seqs generalizing t with
  | nil => exact .single (.finish h)
  | cons n seqs ih =>
    have hrest := ih (t := { t with
      table := t.table.resolve n (.error .exited)
      close := update t.close k (.rejecting seqs) }) (Function.update_self ..)
    rw [Function.update_idem] at hrest
    exact .head (.reject h) hrest

theorem run_close (h : t.close k = .unmade) :
    ReflTransGen Step t { t with table := t.table.close, close := update t.close k .ended } := by
  let marked : Traffic :=
    { t with table := t.table.markGone, close := update t.close k .marked }
  let listed : Traffic :=
    { t with table := t.table.markGone, close := update t.close k (.rejecting t.table.waiting) }
  have hlist : Step marked listed := by
    have hs := Step.list (t := marked) (Function.update_self ..) (List.Perm.refl _)
    rwa [Function.update_idem] at hs
  have hrest := run_reject (t := listed) (Function.update_self ..)
  rw [Function.update_idem] at hrest
  exact .head (.mark h) (.head hlist hrest)

theorem pending_send (c : Connection) (n : Nat) (request : Request) :
    (c.send n request).pending = c.pending ∨
      ∃ e, (c.send n request).pending = c.pending.resolve n (.error e) := by
  cases hs : c.sender.send (Frame.encode (request.envelope n).toJson.text) with
  | mk sent sender =>
    cases sent with
    | ok => exact Or.inl (by simp [Connection.send, hs])
    | error e => exact Or.inr ⟨e, by simp [Connection.send, hs]⟩

theorem pending_confirm (c : Connection) (n : Nat) :
    (c.confirm n).pending =
      if c.pending.alive then c.pending else c.pending.resolve n (.error .exited) := by
  rw [Connection.confirm]
  split <;> rfl

/-- What the call of a request does: it is refused when it cannot be sent or when the
worker is found gone, and else it waits. -/
theorem pending_request (c : Connection) (n : Nat) (request : Request)
    (once : ∀ e, n ∉ ((c.pending.register n).resolve n (.error e)).waiting) :
    (∃ e, (c.request n request).pending = (c.pending.register n).resolve n (.error e)) ∨
      c.pending.alive = false ∧
        (c.request n request).pending = (c.pending.register n).resolve n (.error .exited) ∨
      c.pending.alive = true ∧ (c.request n request).pending = c.pending.register n := by
  rw [Connection.request, pending_confirm]
  rcases pending_send (c.register n) n request with hs | ⟨e, hs⟩
  · rw [hs]
    cases ha : c.pending.alive with
    | true => exact Or.inr (Or.inr ⟨rfl, if_pos ha⟩)
    | false =>
      refine Or.inr (Or.inl ⟨rfl, if_neg ?_⟩)
      simp [Connection.register, Pending.register, ha]
  · refine Or.inl ⟨e, ?_⟩
    rw [hs]
    split
    · rfl
    · -- the request has its reply already
      rcases Pending.resolve_cases ((c.pending.register n).resolve n (.error e)) n (.error .exited)
        with ⟨hn, -⟩ | ⟨-, he⟩
      · exact absurd hn (once e)
      · exact he

theorem run_request (ht : t.Sound) {c : Connection} (hc : t.table = c.pending) {n : Nat}
    (hn : t.request n = .unmade) (request : Request) :
    ∃ failed, ReflTransGen Step t { t with
      table := (c.request n request).pending
      request := update t.request n .ended
      failed } := by
  let registered : Traffic :=
    { t with table := t.table.register n, request := update t.request n .registered }
  let stage (stage : RequestStage) (failed : List (Nat × CheckError)) : Traffic :=
    { registered with request := update t.request n stage, failed }
  have hregister : Step t registered := .register hn
  have hstage : registered.request n = .registered := Function.update_self ..
  have hsound : registered.Sound := ht.register hn
  have hrefuse (failed : List (Nat × CheckError)) (e : CheckError) :
      Step (stage (.refused e) failed) { t with
        table := (t.table.register n).resolve n (.error e)
        request := update t.request n .ended
        failed } := by
    have hs := Step.refuse (t := stage (.refused e) failed) (Function.update_self ..)
    rwa [Function.update_idem] at hs
  have hsend : Step registered (stage .sent t.failed) := by
    have hs := Step.send hstage
    rwa [Function.update_idem] at hs
  have honce (e : CheckError) : n ∉ ((c.pending.register n).resolve n (.error e)).waiting :=
    hc ▸ hsound.notMem_resolve n (.error e)
  rcases pending_request c n request honce with ⟨e, he⟩ | ⟨hgone, he⟩ | ⟨halive, he⟩
  · have hfail : Step registered (stage (.refused e) (t.failed ++ [(n, e)])) := by
      have hs := Step.fail hstage e
      rwa [Function.update_idem] at hs
    rw [he, ← hc]
    exact ⟨_, .head hregister (.head hfail (.single (hrefuse _ e)))⟩
  · have hlate : Step (stage .sent t.failed) (stage (.refused .exited) t.failed) := by
      have hs := Step.late (t := stage .sent t.failed) (Function.update_self ..)
        ((congrArg Pending.alive hc).trans hgone)
      rwa [Function.update_idem] at hs
    rw [he, ← hc]
    exact ⟨_, .head hregister (.head hsend (.head hlate (.single (hrefuse _ .exited))))⟩
  · have hpass : Step (stage .sent t.failed) (stage .ended t.failed) := by
      have hs := Step.pass (t := stage .sent t.failed) (Function.update_self ..)
        ((congrArg Pending.alive hc).trans halive)
      rwa [Function.update_idem] at hs
    rw [he, ← hc]
    exact ⟨_, .head hregister (.head hsend (.single hpass))⟩

end Uninterrupted

end Traffic

namespace Connection

variable {w : Workers} {c d : Connection} {t : Traffic}

theorem pending_write (h : c.write? = some d) :
    d.pending = c.pending ∨ d.pending = c.pending.close := by
  unfold write? at h
  split at h
  · obtain rfl := Option.some.inj h
    exact Or.inl rfl
  · split at h
    · cases h
    · split at h
      · obtain rfl := Option.some.inj h
        exact Or.inr rfl
      · obtain rfl := Option.some.inj h
        exact Or.inl rfl

theorem pending_work {calls : List Call} (h : c.work? w = some (d, calls)) :
    d.pending = c.pending := by
  rw [work?, Option.map_eq_some_iff] at h
  obtain ⟨_, _, he⟩ := h
  obtain rfl := congrArg Prod.fst he
  rfl

theorem pending_read (h : c.read? = some d) :
    (∃ message, d.pending = c.pending.route message) ∨ d.pending = c.pending.close := by
  unfold read? at h
  split at h
  · cases h
  · split at h
    · obtain rfl := Option.some.inj h
      exact Or.inl ⟨_, rfl⟩
    · cases h
    · obtain rfl := Option.some.inj h
      exact Or.inr rfl

inductive Move (w : Workers) : Connection → Connection → Prop
  | request {c : Connection} {n : Nat} (request : Request) (waiting : n ∉ c.pending.waiting)
      (arrived : n ∉ c.pending.arrived.map Prod.fst) : Move w c (c.request n request)
  | write {c d : Connection} (h : c.write? = some d) : Move w c d
  | work {c d : Connection} {calls : List Call} (h : c.work? w = some (d, calls)) : Move w c d
  | read {c d : Connection} (h : c.read? = some d) : Move w c d
  | shutDown (c : Connection) : Move w c c.shutDown

/-- The connection has come to where this traffic is, with nothing under way. -/
structure Follows (c : Connection) (t : Traffic) : Prop where
  reachable : t.Reachable
  table : t.table = c.pending
  idle : ∀ n, ¬(t.request n).isOpen
  unmade : ∃ bound, ∀ k, bound ≤ k → t.close k = .unmade
  closed : t.table.alive = false → ∃ k, t.close k = .ended

theorem Follows.of_pending (h : c.Follows t) (hd : d.pending = c.pending) : d.Follows t :=
  { h with table := h.table.trans hd.symm }

theorem Follows.close (h : c.Follows t) (hd : d.pending = c.pending.close) :
    ∃ u, d.Follows u := by
  obtain ⟨bound, hbound⟩ := h.unmade
  refine ⟨{ t with table := t.table.close, close := update t.close bound .ended }, ?_⟩
  constructor
  case reachable => exact h.reachable.trans (Traffic.run_close (hbound bound (Nat.le_refl _)))
  case table => rw [hd, ← h.table]
  case idle => exact h.idle
  case unmade =>
    refine ⟨bound + 1, fun k hk ↦ ?_⟩
    simpa [Nat.ne_of_gt hk] using hbound k (Nat.le_of_succ_le hk)
  case closed => exact fun _ ↦ ⟨bound, Function.update_self ..⟩

theorem Follows.request (h : c.Follows t) {n : Nat} (request : Request)
    (waiting : n ∉ c.pending.waiting) (arrived : n ∉ c.pending.arrived.map Prod.fst) :
    ∃ u, (c.request n request).Follows u := by
  have hn : t.request n = .unmade := by
    by_contra hn
    rcases (h.reachable.sound.accounts.made n).1 hn with hw | ha
    · exact waiting (h.table ▸ hw)
    · exact arrived (h.table ▸ ha)
  obtain ⟨failed, hrun⟩ := Traffic.run_request h.reachable.sound h.table hn request
  have halive : (c.request n request).pending.alive = c.pending.alive := by
    have honce (e : CheckError) := (h.reachable.sound.register hn).notMem_resolve n (.error e)
    rcases Traffic.pending_request c n request (fun e ↦ h.table ▸ honce e)
      with ⟨e, he⟩ | ⟨-, he⟩ | ⟨-, he⟩
    · exact (congrArg Pending.alive he).trans (Pending.alive_resolve ..)
    · exact (congrArg Pending.alive he).trans (Pending.alive_resolve ..)
    · rw [he]
      rfl
  refine ⟨_, h.reachable.trans hrun, rfl, fun m ↦ ?_, h.unmade, fun ha ↦ h.closed ?_⟩
  · by_cases hm : m = n
    · simp [hm, RequestStage.isOpen]
    · simpa [hm] using h.idle m
  · rw [h.table]
    exact halive.symm.trans ha

theorem Follows.move (h : c.Follows t) (hm : Move w c d) : ∃ u, d.Follows u := by
  cases hm with
  | request r waiting arrived => exact h.request r waiting arrived
  | write hw =>
    rcases pending_write hw with hd | hd
    · exact ⟨t, h.of_pending hd⟩
    · exact h.close hd
  | work hw => exact ⟨t, h.of_pending (pending_work hw)⟩
  | read hr =>
    rcases pending_read hr with ⟨message, hd⟩ | hd
    · refine ⟨_, h.reachable.tail (.route t message), ?_, h.idle, h.unmade, fun ha ↦ h.closed ?_⟩
      · rw [hd, ← h.table]
      · exact (Pending.alive_route ..).symm.trans ha
    · exact h.close hd
  | shutDown => exact h.close rfl

/-- Between the steps of a connection no request is left without a reply once the
worker has gone. -/
theorem replies_of_moves {policy : SendPolicy} {worker : Worker}
    (h : ReflTransGen (Move w) (make policy worker) c) :
    (c.pending.arrived.map Prod.fst).Nodup ∧
      (c.pending.alive = false → c.pending.waiting = []) := by
  have hfollows : ∃ t, c.Follows t := by
    induction h with
    | refl => exact ⟨{}, .refl, rfl, fun _ ↦ id, ⟨0, fun _ _ ↦ rfl⟩, fun ha ↦ nomatch ha⟩
    | tail _ hm ih =>
      obtain ⟨t, ht⟩ := ih
      exact ht.move hm
  obtain ⟨t, ht⟩ := hfollows
  have hsound := ht.reachable.sound
  refine ⟨ht.table ▸ hsound.accounts.arrived, fun ha ↦ List.eq_nil_iff_forall_not_mem.2 fun n hn ↦ ?_⟩
  obtain ⟨k, hk⟩ := ht.closed (ht.table ▸ ha)
  have hw : n ∈ t.table.waiting := ht.table ▸ hn
  have hended : t.request n = .ended :=
    RequestStage.ended_of_not_isOpen (ht.idle n) ((hsound.accounts.made n).2 (Or.inl hw))
  have hcovers := hsound.covered n hw hended k
  rw [hk] at hcovers
  exact hcovers

end Connection

end TypedLoader
