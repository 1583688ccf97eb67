import TypedLoader.Proofs.Checker.Rest
import TypedLoader.Proofs.Loader.Remote

namespace TypedLoader.Instance

/-- The checker serves with this session and rests; its next request has the number `n`. -/
structure Serves (home : WorkerHome) (t : Session.Started) (n : Nat) (i : Instance) : Prop where
  client : ∃ client, i.checker = some client ∧ client.Rests home ⟨some t⟩ ∧ client.nextSeq = n

namespace Serves

variable {s : Surroundings} {home : WorkerHome} {t : Session.Started} {n : Nat} {i : Instance}
  {r : Request}

theorem answering (h : Serves home t n i) (hworld : s.workers home = s.world)
    (hr : Session.Carries s.world ⟨some t⟩ n r) :
    Answering s t r (fun c ↦ Serves home { t with compilation := c } (n + 1)) i := by
  intro α β a content read? f hhandle hread
  obtain ⟨client, hclient, hrests, rfl⟩ := h.client
  rw [← hworld] at hr
  have hawait := hrests.run_await read? hr
  obtain ⟨hnext, hseq, -⟩ := hrests.asked hr
  obtain ⟨hresult, hstarted⟩ := Session.run_handle_of a content (s := ⟨some t⟩) rfl hhandle
  have hsession : ((Session.handle s.world r).run ⟨some t⟩).state =
      ⟨some { t with compilation := ((a t).run t.compilation).state }⟩ :=
    congrArg Session.mk hstarted
  rw [hworld, hsession] at hnext
  rw [hworld, hresult, Promise.result_received _ hread] at hawait
  exact ⟨client, hclient, hawait, ⟨_, rfl, hnext, hseq⟩⟩

end Serves

end TypedLoader.Instance
