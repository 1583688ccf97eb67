import TypedLoader.Loader.Instance
import TypedLoader.Proofs.Analysis.Ledger
import TypedLoader.Proofs.Checker.Handling
import TypedLoader.Proofs.Modules

namespace TypedLoader

open Analysis (Scene Ledger Tracks Stores Wants Wanting Calm Fetched)
open TypedLoader.Action (Keeps)

namespace Compilation

/-- The compilation of a checker once it has been told what has become of a file. -/
def mirror (w : World) (c : Compilation) (p : Path) : Compilation :=
  match w.files.read p with
  | .ok text => Session.updateFile p text true c
  | .error _ => Session.removeFile p c

/-- What is stored and how far it has been analysed follow the ledger. -/
structure Follows (s : Scene) (wanted : Path → Prop) (l : Ledger) (c : Compilation) : Prop where
  options : c.options = s.options
  tracks : Tracks s wanted l c.files c.deps c.marks []

section Following

variable {s : Scene} {wanted : Path → Prop} {l : Ledger} {c : Compilation} {p : Path}
  {text : String}

theorem Follows.withBuilt (h : c.Follows s wanted l) (built : Option BuiltProgram) :
    Follows s wanted l { c with built } := ⟨h.options, h.tracks⟩

/-- An analysis that follows the ledger succeeds, and its file is valid after it. -/
theorem follows_check (hoptions : c.options = s.options)
    (h : Tracks s wanted l c.files c.deps c.marks [p]) (hs : s.Sound) (hw : Wants s wanted l)
    (hup : s.up p) :
    let c' := ((check s.world p).run c).state
    (∃ analysed, ((check s.world p).run c).result = .ok analysed) ∧ c'.Follows s wanted l ∧
      Analysis.isValid c'.marks (s.case.key p) = true := by
  have hstart : (c.walk p).queue = [p] := congrArg (fun q ↦ [q]) (hs.normal p hup)
  have hwalk : Tracks s wanted l (c.walk p).files (c.walk p).deps (c.walk p).marks
      (c.walk p).queue := hstart ▸ h
  obtain ⟨hok, hqueue, hsteps, hend⟩ := hwalk.run hs hw
  rw [run_check, hoptions]
  dsimp only
  rw [hok]
  refine ⟨⟨_, rfl⟩, ⟨hoptions, hend⟩, ?_⟩
  rw [← h.stores.key]
  exact isValid_of_steps hsteps hqueue

theorem has_eq_false (h : Stores s wanted l c.files) (hn : c.files.files[s.case.key p]? = none) :
    c.has p = false := by
  rw [has, FileStore.has, h.key, Std.ExtTreeMap.contains_eq_isSome_getElem?, hn]
  rfl

theorem has_eq_true (h : Stores s wanted l c.files) {source : SourceFile}
    (hf : c.files.files[s.case.key p]? = some source) : c.has p = true := by
  rw [has, FileStore.has, h.key, Std.ExtTreeMap.contains_eq_isSome_getElem?, hf]
  rfl

theorem received_of_stored (h : Stores s wanted l c.files) (hs : s.Sound) (hup : s.up p)
    {source : SourceFile} (hf : c.files.files[s.case.key p]? = some source) (text : String) :
    c.received p text =
      if source.text = text then c
      else { c with
        files := (c.files.update p text true).2
        marks := c.marks.insert (s.case.key p) .invalid } := by
  have hpath : source.path = p.normalize := by rw [h.path_eq hs hup hf, hs.normal p hup]
  have hget : c.files.get? p = some source := by rw [FileStore.get?, h.key, hf]
  have hupdate := FileStore.update_of_path hget hpath text
  have hkey : (c.files.update p text true).2.key p = s.case.key p := by
    rw [FileStore.key, FileStore.case_update, ← h.key, FileStore.key]
  have hreceived : c.received p text = if (c.files.update p text true).1 then
      { c with
        files := (c.files.update p text true).2
        marks := c.marks.insert ((c.files.update p text true).2.key p) .invalid }
      else { c with files := (c.files.update p text true).2 } := rfl
  rw [hreceived, hkey]
  split
  · rename_i htrue
    rw [hupdate] at htrue
    rw [if_neg]
    intro he
    rw [if_pos he] at htrue
    cases htrue
  · rename_i hfalse
    rw [hupdate] at hfalse ⊢
    by_cases he : source.text = text
    · rw [if_pos he, if_pos he]
    · rw [if_neg he] at hfalse
      exact absurd rfl hfalse

theorem Follows.received (h : c.Follows s wanted l) (hs : s.Sound) (hup : s.up p)
    (hw : Wants s wanted (l.receive p text)) (hr : s.world.files.read p = .ok text) :
    (c.received p text).options = s.options ∧
      Tracks s wanted (l.receive p text) (c.received p text).files (c.received p text).deps
        (c.received p text).marks [p] := by
  have hst := h.tracks.stores
  refine ⟨(received_eq c p text).2.2.trans h.options, ?_⟩
  cases hf : c.files.files[s.case.key p]? with
  | none =>
    have hb : l.base.get? p = none := by
      rw [FileStore.get?, hst.base_key, hst.base_eq_none hf]
    have hreceive : l.receive p text = { l with taken := p :: l.taken, due := p :: l.due } := by
      rw [Ledger.receive, hb]
    have hget : c.files.get? p = none := by rw [FileStore.get?, hst.key, hf]
    have hreceived : c.received p text = { c with
        files := c.files.add p text
        marks := c.marks.insert (s.case.key p) .invalid } := by
      rw [Compilation.received, Compilation.update, FileStore.update_of_none hget, ← hst.key]
      rfl
    rw [hreceive] at hw ⊢
    rw [hreceived]
    exact h.tracks.add hs hup hw hf hr
  | some source =>
    have hb := hst.base_of_ne hs hup hf hr
    rw [received_of_stored hst hs hup hf]
    by_cases he : source.text = text
    · rw [if_pos he]
      have hstored : c.files.files[s.case.key p]? ≠ none := by
        rw [hf]
        exact Option.some_ne_none _
      rw [Ledger.receive, FileStore.get?, hst.base_key] at hw ⊢
      cases hbase : l.base.files[s.case.key p]? with
      | none =>
        rw [hbase] at hw
        have hwanted := hw.taken p List.mem_cons_self
        exact (h.tracks.note hbase hwanted hf (he ▸ hr)).enqueue hup (Or.inl hstored)
      | some source' =>
        obtain rfl := Option.some.inj (hf.symm.trans (hst.old _ _ hbase))
        simp only [if_pos he]
        exact h.tracks.enqueue hup (Or.inl hstored)
    · have hreceive : l.receive p text = l.renew p text := by
        rw [Ledger.receive, FileStore.get?, hst.base_key, hb he]
        exact if_neg he
      rw [hreceive] at hw
      rw [if_neg he, hreceive]
      have hrenewed := h.tracks.renew hs hup hw hf hr he
      refine hrenewed.enqueue hup (Or.inl ?_)
      obtain ⟨-, -, hfiles, -⟩ := hst.renew hs hup hw hf hr he
      rw [hfiles, hf]
      exact Option.some_ne_none _

theorem Follows.sync (h : c.Follows s wanted l) (hs : s.Sound) (hup : s.up p)
    (hw : Wants s wanted (l.receive p text)) (hr : s.world.files.read p = .ok text) :
    ((Compilation.sync s.world p text).run c).state.Follows s wanted (l.load (p, text)) := by
  obtain ⟨hoptions, htracks⟩ := h.received hs hup hw hr
  obtain ⟨⟨analysed, hok⟩, hfollows, hvalid⟩ := follows_check hoptions htracks hs hw hup
  have hsettled : ((check s.world p).run (c.received p text)).state.Follows s wanted
      (l.load (p, text)) := ⟨hfollows.options, hfollows.tracks.settle hvalid⟩
  rw [run_sync, Action.run_bind_of_ok hok]
  split
  · exact hsettled.withBuilt none
  · exact hsettled

theorem run_refresh_eq (w : World) (p : Path) (c : Compilation) : (refresh w p).run c =
    (do
      if (c.invalidate p).has p then
        match ← (fetch w p).attempt with
        | .ok true =>
          let _ ← (check w p).attempt
          pure true
        | .ok false => pure false
        | .error _ => Action.update fun c ↦ c.remove p
      else pure false : Act Bool).run (c.invalidate p) := rfl

theorem run_refresh (w : World) (p : Path) (c : Compilation) :
    (∃ changed, ((refresh w p).run c).result = .ok changed) ∧
      ((refresh w p).run c).state =
        if c.has p then
          match w.files.read p with
          | .error _ => ((c.invalidate p).remove p).2
          | .ok text =>
            if ((c.invalidate p).update p text true).1 then
              ((check w p).run ((c.invalidate p).update p text true).2).state
            else ((c.invalidate p).update p text true).2
        else c.invalidate p := by
  have hhas : (c.invalidate p).has p = c.has p := rfl
  rw [run_refresh_eq, hhas]
  cases c.has p with
  | false => exact ⟨⟨false, rfl⟩, rfl⟩
  | true =>
    simp only [if_true]
    generalize c.invalidate p = d
    cases hread : w.files.read p with
    | error cause =>
      have hfetch : (fetch w p).run d = ⟨.error (.unreadable p cause), d, [.read p]⟩ := by
        rw [fetch, Action.run_bind]
        simp only [hread]
        rfl
      rw [Action.run_bind, Action.run_attempt, hfetch]
      exact ⟨⟨_, rfl⟩, rfl⟩
    | ok text =>
      have hfetch : (fetch w p).run d =
          ⟨.ok (d.update p text true).1, (d.update p text true).2, [.read p]⟩ := by
        rw [fetch, Action.run_bind]
        simp only [hread]
        rfl
      dsimp only
      generalize d.update p text true = u at hfetch ⊢
      obtain ⟨stored, d'⟩ := u
      rw [Action.run_bind, Action.run_attempt, hfetch]
      cases stored with
      | false =>
        dsimp only
        rw [if_neg Bool.false_ne_true]
        exact ⟨⟨false, rfl⟩, rfl⟩
      | true =>
        dsimp only
        rw [if_pos rfl, Action.run_bind, Action.run_attempt]
        exact ⟨⟨true, rfl⟩, rfl⟩

theorem names_up (h : Stores s wanted l c.files) (hs : s.Sound) (hp : s.Names p)
    {source : SourceFile} (hf : c.files.files[s.case.key p]? = some source) : s.up p := by
  obtain ⟨hup, hkey⟩ := h.spelled _ _ hf
  exact hp.eq hs hup hkey.symm ▸ hup

theorem watch_of_none (h : Stores s wanted l c.files)
    (hf : c.files.files[s.case.key p]? = none) : l.watch s.world p = l.owe p := by
  have hb : l.base.get? p = none := by rw [FileStore.get?, h.base_key, h.base_eq_none hf]
  rw [Ledger.watch]
  split
  · rw [FileStore.remove_of_none hb]
    rfl
  · rw [hb]

theorem watch_of_same (h : Stores s wanted l c.files) {source : SourceFile}
    (hf : c.files.files[s.case.key p]? = some source)
    (hr : s.world.files.read p = .ok source.text) : l.watch s.world p = l.owe p := by
  rw [Ledger.watch, hr]
  simp only [FileStore.get?, h.base_key]
  cases hb : l.base.files[s.case.key p]? with
  | none => rfl
  | some source' =>
    obtain rfl := Option.some.inj (hf.symm.trans (h.old _ _ hb))
    exact if_pos rfl

theorem watch_of_ne (h : Stores s wanted l c.files) (hs : s.Sound) (hup : s.up p)
    {source : SourceFile} (hf : c.files.files[s.case.key p]? = some source)
    (hr : s.world.files.read p = .ok text) (hne : source.text ≠ text) :
    l.watch s.world p = l.renew p text := by
  rw [Ledger.watch, hr]
  simp only [FileStore.get?, h.base_key, h.base_of_ne hs hup hf hr hne]
  exact if_neg hne

theorem wanting_of_watch (hw : Wanting s wanted (l.watch s.world p)) : Wanting s wanted (l.owe p) := by
  refine ⟨fun q hq ↦ hw.taken q ?_, hw.up, hw.read⟩
  rw [Ledger.watch]
  split
  · exact hq
  · split
    · exact hq
    · split
      · exact hq
      · exact List.mem_cons_of_mem p hq

theorem Follows.refresh (h : c.Follows s wanted l) (hs : s.Sound) (hp : s.Names p)
    (hw : Wants s wanted (l.watch s.world p)) :
    ((Compilation.refresh s.world p.normalize).run c).state.Follows s wanted
      (l.watch s.world p) := by
  have hst := h.tracks.stores
  have howe := (h.tracks.owe p).invalidate hs hp List.mem_cons_self
  have hinvalid (q : Path) (hq : s.case.key q = s.case.key p) : c.invalidate q =
      { c with marks := c.marks.insert (s.case.key p) .invalid } := by
    rw [invalidate, hst.key, hq]
  rw [(run_refresh s.world p.normalize c).2]
  cases hf : c.files.files[s.case.key p]? with
  | none =>
    have hkey : s.case.key p.normalize = s.case.key p := s.case.key_normalize p
    rw [has_eq_false hst (hkey.symm ▸ hf), watch_of_none hst hf, hinvalid _ hkey]
    exact ⟨h.options, howe⟩
  | some source =>
    have hup := names_up hst hs hp hf
    rw [hs.normal p hup, has_eq_true hst hf, if_pos rfl, hinvalid p rfl]
    cases hr : s.world.files.read p with
    | error cause =>
      have hn : ∀ text, s.world.files.read p ≠ .ok text := by
        intro text hread
        rw [hr] at hread
        cases hread
      have hremoved := howe.remove hs (wanting_of_watch hw.toWanting) hp hn
      have hwatch : l.watch s.world p = { l.owe p with base := (l.base.remove p).2 } := by
        rw [Ledger.watch, hr]
      rw [hwatch]
      refine ⟨h.options, ?_⟩
      have hmarks : c.files.key p = s.case.key p := hst.key p
      rw [← hmarks] at hremoved ⊢
      exact hremoved
    | ok text =>
      have hpath : source.path = p.normalize := by rw [hst.path_eq hs hup hf, hs.normal p hup]
      have hget : c.files.get? p = some source := by rw [FileStore.get?, hst.key, hf]
      have hupdate := FileStore.update_of_path hget hpath text
      dsimp only
      by_cases he : source.text = text
      · rw [if_pos he] at hupdate
        rw [Compilation.update]
        dsimp only
        rw [hupdate, if_neg Bool.false_ne_true, watch_of_same hst hf (he ▸ hr)]
        exact ⟨h.options, howe⟩
      · have hstored : ((c.files.update p text true).1) = true := by
          rw [hupdate, if_neg he]
        rw [Compilation.update]
        dsimp only
        rw [if_pos hstored]
        rw [watch_of_ne hst hs hup hf hr he] at hw ⊢
        have hrenewed := h.tracks.renew hs hup hw hf hr he
        have hqueued := hrenewed.enqueue hup (Or.inl (by
          obtain ⟨-, -, hfiles, -⟩ := hst.renew hs hup hw hf hr he
          rw [hfiles, hf]
          exact Option.some_ne_none _))
        have hchecked := follows_check (c := { c with
          files := (c.files.update p text true).2
          marks := c.marks.insert (s.case.key p) .invalid }) h.options hqueued hs hw hup
        exact hchecked.2.1

theorem Follows.mirror (h : c.Follows s wanted l) (hs : s.Sound) (hp : s.Names p)
    (hw : Wants s wanted (l.watch s.world p)) :
    (c.mirror s.world p).Follows s wanted (l.watch s.world p) := by
  have hst := h.tracks.stores
  have howe := h.tracks.owe p
  rw [Compilation.mirror]
  cases hr : s.world.files.read p with
  | error cause =>
    have hn : ∀ text, s.world.files.read p ≠ .ok text := by
      intro text hread
      rw [hr] at hread
      cases hread
    have hremoved := howe.remove hs (wanting_of_watch hw.toWanting) hp hn
    have hwatch : l.watch s.world p = { l.owe p with base := (l.base.remove p).2 } := by
      rw [Ledger.watch, hr]
    have hmarks : c.files.key p = s.case.key p := hst.key p
    rw [← hmarks] at hremoved
    have hfollows : (c.remove p).2.Follows s wanted (l.watch s.world p) := by
      rw [hwatch]
      exact ⟨h.options, hremoved⟩
    dsimp only [Session.removeFile]
    split
    · exact hfollows.withBuilt none
    · exact hfollows
  | ok text =>
    dsimp only
    rw [Session.updateFile_eq]
    cases hf : c.files.files[s.case.key p]? with
    | none =>
      rw [has_eq_false hst hf, watch_of_none hst hf]
      exact ⟨h.options, howe⟩
    | some source =>
      have hup := names_up hst hs hp hf
      have hreceived := received_of_stored hst hs hup hf text
      have hfollows : (c.received p text).Follows s wanted (l.watch s.world p) := by
        by_cases he : source.text = text
        · rw [hreceived, if_pos he, watch_of_same hst hf (he ▸ hr)]
          exact ⟨h.options, howe⟩
        · rw [watch_of_ne hst hs hup hf hr he] at hw ⊢
          rw [hreceived, if_neg he]
          exact ⟨h.options, h.tracks.renew hs hup hw hf hr he⟩
      have hknown : ¬(true && !c.has p) = true := by
        rw [has_eq_true hst hf]
        exact Bool.false_ne_true
      rw [if_neg hknown]
      split
      · exact hfollows.withBuilt none
      · exact hfollows

end Following

end Compilation

end TypedLoader
